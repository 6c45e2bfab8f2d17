import DiagnosticLog.Proofs.Mention

/-!
Expanding a template is one simultaneous replacement. A template is read from left to right with a
count of the sequential placeholders, but what comes out can be said of every position of the text
by itself: where a placeholder begins stands its token, or the placeholder if it has no token,
nothing stands for its mark, and every other character stands for itself (`replacementAt`). Which
token a placeholder takes depends on the text alone, so no token is ever looked into. The two agree
from every place on that is not inside a placeholder (`expandFrom_eq_replaceFrom`).
-/

namespace DiagnosticLog

namespace Template

/-- Whether a `%` with this character behind it is a placeholder. -/
def isMark (c : Char) : Bool := c == 's' || ('1' ≤ c && c ≤ '9')

/-- The mark of the placeholder that begins at this position of the text, if one does. -/
def markAt? (cs : List Char) (i : Nat) : Option Char :=
  if cs[i]? = some '%' then cs[i + 1]?.filter isMark else none

/-- The number of `%s` that begin before this position. -/
def sequentialBefore (cs : List Char) (i : Nat) : Nat :=
  (List.range i).countP fun j => markAt? cs j = some 's'

/-- The token for a placeholder with this mark at this position: for `%s` the one that as many come
before as there are `%s` before the position, and for a digit the one that it counts to from one. -/
def tokenAt? (tokens : List String) (cs : List Char) (i : Nat) (mark : Char) : Option String :=
  if mark = 's' then tokens[sequentialBefore cs i]? else tokens[mark.toNat - '0'.toNat - 1]?

/-- What stands in the replaced text for the character at this position. The character before it is
the beginning of a placeholder if the character is a mark. -/
def replacementAt (tokens : List String) (cs : List Char) (i : Nat) : List Char :=
  match markAt? cs i with
  | some mark => ((tokenAt? tokens cs i mark).map String.toList).getD ['%', mark]
  | none => if 0 < i ∧ (markAt? cs (i - 1)).isSome then [] else cs[i]?.toList

/-- The text with all its placeholders replaced at once. -/
def replaceAll (tokens : List String) (text : String) : String :=
  String.ofList ((List.range text.toList.length).flatMap (replacementAt tokens text.toList))

theorem isMark_eq_isSome (c : Char) : isMark c = (Piece.ofMark? c).isSome := by
  unfold isMark Piece.ofMark?
  split
  · simp_all
  · split <;> simp_all

theorem markAt?_cons_cons (c d : Char) (cs : List Char) :
    markAt? (c :: d :: cs) 0 = if c = '%' ∧ isMark d = true then some d else none := by
  by_cases hc : c = '%' <;> by_cases hd : isMark d = true <;> simp [markAt?, hc, hd]

/-- What a placeholder begins with, and that its mark is not the beginning of another one. -/
theorem of_markAt?_eq_some {cs : List Char} {i : Nat} {mark : Char}
    (h : markAt? cs i = some mark) :
    cs[i + 1]? = some mark ∧ isMark mark = true ∧ markAt? cs (i + 1) = none := by
  unfold markAt? at h
  split at h
  · obtain ⟨hget, hmark⟩ := Option.filter_eq_some_iff.1 h
    refine ⟨hget, hmark, if_neg fun hpercent => ?_⟩
    rw [hpercent] at hget
    obtain rfl := Option.some.inj hget
    exact absurd hmark (by decide)
  · cases h

theorem markAt?_append (before cs : List Char) (i : Nat) :
    markAt? (before ++ cs) (before.length + i) = markAt? cs i := by
  simp only [markAt?]
  rw [List.getElem?_append_right (by omega), List.getElem?_append_right (by omega)]
  congr 3 <;> omega

theorem markAt?_length (before cs : List Char) :
    markAt? (before ++ cs) before.length = markAt? cs 0 :=
  markAt?_append before cs 0

theorem sequentialBefore_succ (cs : List Char) (i : Nat) :
    sequentialBefore cs (i + 1) =
      sequentialBefore cs i + if markAt? cs i = some 's' then 1 else 0 := by
  simp [sequentialBefore, List.range_succ, List.countP_append, List.countP_singleton]

/-- No placeholder begins right before this position. -/
def Boundary (cs : List Char) (i : Nat) : Prop := i = 0 ∨ markAt? cs (i - 1) = none

/-- The part of the replaced text that stands for all that comes after this beginning. -/
def replaceFrom (tokens : List String) (before cs : List Char) : List Char :=
  (List.range' before.length cs.length).flatMap (replacementAt tokens (before ++ cs))

theorem replaceFrom_cons (tokens : List String) (before : List Char) (c : Char) (cs : List Char) :
    replaceFrom tokens before (c :: cs) =
      replacementAt tokens (before ++ c :: cs) before.length ++
        replaceFrom tokens (before ++ [c]) cs := by
  simp [replaceFrom, List.range'_succ]

theorem replacementAt_literal {tokens : List String} {cs : List Char} {i : Nat}
    (hmark : markAt? cs i = none) (hboundary : Boundary cs i) :
    replacementAt tokens cs i = cs[i]?.toList := by
  have hnot : ¬ (0 < i ∧ (markAt? cs (i - 1)).isSome = true) := by
    rintro ⟨hpos, hsome⟩
    rcases hboundary with hzero | hnone
    · omega
    · simp [hnone] at hsome
  rw [replacementAt, hmark]
  exact if_neg hnot

theorem replacementAt_placeholder {tokens : List String} {cs : List Char} {i : Nat} {mark : Char}
    (h : markAt? cs i = some mark) :
    replacementAt tokens cs i =
      ((tokenAt? tokens cs i mark).map String.toList).getD ['%', mark] := by
  rw [replacementAt, h]

/-- The mark of a placeholder is replaced together with its beginning. -/
theorem replacementAt_mark {tokens : List String} {cs : List Char} {i : Nat} {mark : Char}
    (h : markAt? cs i = some mark) : replacementAt tokens cs (i + 1) = [] := by
  rw [replacementAt, (of_markAt?_eq_some h).2.2]
  exact if_pos ⟨Nat.succ_pos i, by rw [Nat.add_sub_cancel, h]; rfl⟩

/-- Expanding a placeholder gives what stands at its position, and leaves the count of sequential
placeholders where the text behind it finds it. -/
theorem expandFrom_placeholder (tokens : List String) {cs : List Char} {i : Nat} {mark : Char}
    {p : Piece} (hmark : markAt? cs i = some mark) (hp : Piece.ofMark? mark = some p)
    (rest : Template) :
    expandFrom tokens (sequentialBefore cs i) (p :: rest) =
      replacementAt tokens cs i ++ expandFrom tokens (sequentialBefore cs (i + 2)) rest := by
  have hnext : sequentialBefore cs (i + 2) =
      sequentialBefore cs i + if mark = 's' then 1 else 0 := by
    rw [sequentialBefore_succ, sequentialBefore_succ, hmark, (of_markAt?_eq_some hmark).2.2]
    simp
  have hsource := Piece.source_of_ofMark? hp
  rw [replacementAt_placeholder hmark]
  unfold Piece.ofMark? at hp
  split at hp
  · rename_i hs
    obtain rfl := Option.some.inj hp
    rw [expandFrom, hnext, if_pos hs, fill, tokenAt?, if_pos hs, hsource]
    cases tokens[sequentialBefore cs i]? <;> rfl
  · rename_i hs
    split at hp
    · rename_i hdigit
      obtain rfl := Option.some.inj hp
      have hindex : mark.toNat - '0'.toNat - 1 = mark.toNat - '1'.toNat := by
        rw [Nat.sub_sub]
        rfl
      rw [expandFrom, hnext, if_neg hs, Nat.add_zero, fill, tokenAt?, if_neg hs, hindex, hsource]
      cases tokens[mark.toNat - '1'.toNat]? <;> rfl
    · cases hp

theorem replaceFrom_placeholder {tokens : List String} {before cs : List Char} {mark : Char}
    (h : markAt? (before ++ '%' :: mark :: cs) before.length = some mark) :
    replaceFrom tokens before ('%' :: mark :: cs) =
      replacementAt tokens (before ++ '%' :: mark :: cs) before.length ++
        replaceFrom tokens (before ++ ['%', mark]) cs := by
  have htext : before ++ ['%'] ++ mark :: cs = before ++ '%' :: mark :: cs := by simp
  have hlength : (before ++ ['%']).length = before.length + 1 := by simp
  have hbefore : before ++ ['%'] ++ [mark] = before ++ ['%', mark] := by simp
  rw [replaceFrom_cons, replaceFrom_cons, htext, hlength, replacementAt_mark h, List.nil_append,
    hbefore]

/-- Where no placeholder begins, reading goes on behind the next character. -/
theorem expandFrom_literal {tokens : List String} {before cs : List Char} {c : Char}
    (hmark : markAt? (c :: cs) 0 = none) (hboundary : Boundary (before ++ c :: cs) before.length)
    (hrest : Boundary (before ++ [c] ++ cs) (before ++ [c]).length →
      expandFrom tokens (sequentialBefore (before ++ [c] ++ cs) (before ++ [c]).length)
        (ofChars cs) = replaceFrom tokens (before ++ [c]) cs) :
    expandFrom tokens (sequentialBefore (before ++ c :: cs) before.length)
      (.literal c :: ofChars cs) = replaceFrom tokens before (c :: cs) := by
  have hnone : markAt? (before ++ c :: cs) before.length = none := by
    rw [markAt?_length, hmark]
  have hcount : sequentialBefore (before ++ c :: cs) (before.length + 1) =
      sequentialBefore (before ++ c :: cs) before.length := by
    rw [sequentialBefore_succ, hnone]
    rfl
  rw [List.append_assoc, List.singleton_append, List.length_append, List.length_singleton,
    hcount] at hrest
  rw [replaceFrom_cons, replacementAt_literal hnone hboundary, expandFrom,
    hrest (Or.inr (by rw [Nat.add_sub_cancel, hnone]))]
  simp

/-- Reading on behind a beginning that no placeholder goes across is replacing all that comes
after it. -/
theorem expandFrom_eq_replaceFrom (tokens : List String) (before cs : List Char)
    (hboundary : Boundary (before ++ cs) before.length) :
    expandFrom tokens (sequentialBefore (before ++ cs) before.length) (ofChars cs) =
      replaceFrom tokens before cs := by
  -- `before` grows by what is read, so the text as a whole stays the same throughout.
  fun_induction ofChars cs generalizing before with
  | case1 => rfl
  | case2 c => exact expandFrom_literal (by simp [markAt?]) hboundary fun _ => rfl
  | case3 d rest p hp ih =>
    have hmark : markAt? (before ++ '%' :: d :: rest) before.length = some d := by
      rw [markAt?_length, markAt?_cons_cons, isMark_eq_isSome, hp]
      rfl
    have hrest := ih (before ++ ['%', d])
    rw [List.append_assoc, List.length_append] at hrest
    rw [expandFrom_placeholder tokens hmark hp, replaceFrom_placeholder hmark]
    exact congrArg _ (hrest (Or.inr (of_markAt?_eq_some hmark).2.2))
  | case4 d rest hp ih =>
    have hmark : markAt? ('%' :: d :: rest) 0 = none := by
      rw [markAt?_cons_cons, isMark_eq_isSome, hp]
      rfl
    exact expandFrom_literal hmark hboundary (ih (before ++ ['%']))
  | case5 c d rest hc ih =>
    have hmark : markAt? (c :: d :: rest) 0 = none := by
      rw [markAt?_cons_cons, if_neg fun h => hc h.1]
    exact expandFrom_literal hmark hboundary (ih (before ++ [c]))

theorem expand_ofString (text : String) (tokens : List String) :
    (ofString text).expand tokens = replaceAll tokens text := by
  have hread := expandFrom_eq_replaceFrom tokens [] text.toList (Or.inl rfl)
  rw [expand, replaceAll, List.range_eq_range']
  exact congrArg String.ofList hread

/-- A token that looks like a placeholder, a placeholder behind a `%`, two placeholders without a
token, and a `%` at the end. -/
example : replaceAll ["a", "%s"] "%2%s%%s%s%9%" = "%sa%%s%s%9%" := by decide +kernel

/-- No two placeholders overlap. -/
theorem markAt?_or_succ (cs : List Char) (i : Nat) :
    markAt? cs i = none ∨ markAt? cs (i + 1) = none := by
  cases h : markAt? cs i with
  | none => exact Or.inl rfl
  | some mark => exact Or.inr (of_markAt?_eq_some h).2.2

end Template

/-- The short text of a message is its text with all placeholders replaced at once. They do not
overlap, and without tokens the text is left as it is. -/
theorem shortText_replaced_at_once (d : Draft) (location : Option Location) :
    (Message.ofDraft d location).shortText = Template.replaceAll d.tokens d.text ∧
    (∀ i, Template.markAt? d.text.toList i = none ∨ Template.markAt? d.text.toList (i + 1) = none) ∧
    (Template.ofString d.text).expand [] = d.text :=
  ⟨Template.expand_ofString d.text d.tokens, Template.markAt?_or_succ d.text.toList,
    Template.expand_no_tokens d.text⟩

end DiagnosticLog
