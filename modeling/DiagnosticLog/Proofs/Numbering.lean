import DiagnosticLog.Proofs.Substitution
import Mathlib.Order.Monotone.Basic

/-!
Sequential placeholders can be written by number. The mark of every `%s` is replaced by the digit
that says which `%s` it is, counting from one, all at once and with nothing else changed. As long as
one digit is enough for each of them, a placeholder begins in the numbered text exactly where one
begins in the text (`markAt?_numbered`), and as long as each of them has a token, it takes the same
one. So what stands at every position of the replaced text stays as it was
(`replacementAt_numbered`).
-/

namespace DiagnosticLog

namespace Template

/-- The number of `%s` in a text. -/
def sequentialCount (cs : List Char) : Nat := sequentialBefore cs cs.length

/-- The digit for the last of the `%s` that begin before this position. -/
def numberAt (cs : List Char) (i : Nat) : Char := (sequentialBefore cs i).digitChar

/-- The text in which each `%s` has its number for a mark. -/
def numbered (cs : List Char) : List Char :=
  cs.mapIdx fun i c => if 0 < i ∧ markAt? cs (i - 1) = some 's' then numberAt cs i else c

@[simp] theorem length_numbered (cs : List Char) : (numbered cs).length = cs.length :=
  List.length_mapIdx

theorem monotone_sequentialBefore (cs : List Char) : Monotone (sequentialBefore cs) := by
  apply monotone_nat_of_le_succ
  intro i
  rw [sequentialBefore_succ]
  omega

/-- A `%s` is one of those that are counted in the text. -/
theorem sequentialBefore_succ_of_mark {cs : List Char} {i : Nat} (h : markAt? cs i = some 's') :
    sequentialBefore cs (i + 1) = sequentialBefore cs i + 1 ∧
      sequentialBefore cs (i + 1) ≤ sequentialCount cs := by
  obtain ⟨hlt, -⟩ := List.getElem?_eq_some_iff.1 (of_markAt?_eq_some h).1
  constructor
  · rw [sequentialBefore_succ, if_pos h]
  · apply monotone_sequentialBefore
    omega

theorem getElem?_numbered (cs : List Char) (i : Nat) :
    (numbered cs)[i]? =
      if 0 < i ∧ markAt? cs (i - 1) = some 's' then cs[i]?.map fun _ => numberAt cs i
      else cs[i]? := by
  rw [numbered, List.getElem?_mapIdx]
  split <;> simp_all

theorem getElem?_numbered_of_ne {cs : List Char} {i : Nat}
    (h : ¬ (0 < i ∧ markAt? cs (i - 1) = some 's')) : (numbered cs)[i]? = cs[i]? := by
  rw [getElem?_numbered, if_neg h]

section Nine

variable {cs : List Char} (hnine : sequentialCount cs ≤ 9) {i : Nat}

include hnine

/-- The number of a `%s` is one digit, which counts to its token. -/
theorem numberAt_of_mark (h : markAt? cs i = some 's') :
    numberAt cs (i + 1) ≠ '%' ∧ numberAt cs (i + 1) ≠ 's' ∧ isMark (numberAt cs (i + 1)) = true ∧
      (numberAt cs (i + 1)).toNat - '0'.toNat - 1 = sequentialBefore cs i := by
  have hdigits : ∀ n < 9, (n + 1).digitChar ≠ '%' ∧ (n + 1).digitChar ≠ 's' ∧
      isMark (n + 1).digitChar = true ∧ (n + 1).digitChar.toNat - '0'.toNat - 1 = n := by decide
  obtain ⟨hsucc, hle⟩ := sequentialBefore_succ_of_mark h
  rw [numberAt, hsucc]
  exact hdigits _ (by omega)

/-- The numbered text has a `%` exactly where the text has one. -/
theorem getElem?_numbered_eq_percent_iff : (numbered cs)[i]? = some '%' ↔ cs[i]? = some '%' := by
  by_cases h : 0 < i ∧ markAt? cs (i - 1) = some 's'
  · obtain ⟨j, rfl⟩ := Nat.exists_eq_add_one.2 h.1
    have hmark : markAt? cs j = some 's' := h.2
    have hs : cs[j + 1]? = some 's' := (of_markAt?_eq_some hmark).1
    rw [getElem?_numbered, if_pos h, hs]
    simp [(numberAt_of_mark hnine hmark).1]
  · rw [getElem?_numbered_of_ne h]

/-- The same placeholders begin at the same positions, except that each `%s` has its number for a
mark. -/
theorem markAt?_numbered :
    markAt? (numbered cs) i =
      (markAt? cs i).map fun mark => if mark = 's' then numberAt cs (i + 1) else mark := by
  cases hmark : markAt? cs i with
  | some mark =>
    have hpercent : cs[i]? = some '%' := by
      by_contra hne
      simp [markAt?, hne] at hmark
    obtain ⟨hget, hismark, -⟩ := of_markAt?_eq_some hmark
    rw [markAt?, if_pos ((getElem?_numbered_eq_percent_iff hnine).2 hpercent), getElem?_numbered,
      Nat.add_sub_cancel, hget, hmark]
    by_cases hs : mark = 's'
    · subst hs
      simp [(numberAt_of_mark hnine hmark).2.2.1]
    · simp [hs, hismark]
  | none =>
    have hnext : (numbered cs)[i + 1]? = cs[i + 1]? :=
      getElem?_numbered_of_ne (by simp [hmark])
    simp only [markAt?, getElem?_numbered_eq_percent_iff hnine, hnext] at hmark ⊢
    exact hmark

/-- The token for a `%s` is the token for its number. -/
theorem tokenAt?_numbered (tokens : List String) {mark : Char} (h : markAt? cs i = some mark) :
    tokenAt? tokens (numbered cs) i (if mark = 's' then numberAt cs (i + 1) else mark) =
      tokenAt? tokens cs i mark := by
  by_cases hs : mark = 's'
  · subst hs
    obtain ⟨-, hne, -, hindex⟩ := numberAt_of_mark hnine h
    rw [if_pos rfl, tokenAt?, if_neg hne, hindex, tokenAt?, if_pos rfl]
  · rw [if_neg hs, tokenAt?, if_neg hs, tokenAt?, if_neg hs]

/-- What stands for each character is the same in both texts. A `%s` without a token would show
its number, so each of them has to have one. -/
theorem replacementAt_numbered {tokens : List String}
    (htokens : sequentialCount cs ≤ tokens.length) :
    replacementAt tokens (numbered cs) i = replacementAt tokens cs i := by
  cases hmark : markAt? cs i with
  | some mark =>
    have hnumbered := markAt?_numbered hnine (i := i)
    rw [hmark, Option.map_some] at hnumbered
    rw [replacementAt_placeholder hnumbered, tokenAt?_numbered hnine tokens hmark,
      replacementAt_placeholder hmark]
    by_cases hs : mark = 's'
    · subst hs
      obtain ⟨hsucc, hle⟩ := sequentialBefore_succ_of_mark hmark
      have hlt : sequentialBefore cs i < tokens.length := by omega
      simp [tokenAt?, hlt]
    · rw [if_neg hs]
  | none =>
    have hnumbered := markAt?_numbered hnine (i := i)
    have hbefore := markAt?_numbered hnine (i := i - 1)
    rw [hmark, Option.map_none] at hnumbered
    by_cases h : 0 < i ∧ (markAt? cs (i - 1)).isSome
    · simp [replacementAt, hmark, hnumbered, hbefore, h]
    · have hget : (numbered cs)[i]? = cs[i]? :=
        getElem?_numbered_of_ne fun hs => h ⟨hs.1, by simp [hs.2]⟩
      simp [replacementAt, hmark, hnumbered, hbefore, hget]

theorem markAt?_numbered_ne : markAt? (numbered cs) i ≠ some 's' := by
  rw [markAt?_numbered hnine]
  cases hmark : markAt? cs i with
  | none => simp
  | some mark =>
    by_cases hs : mark = 's'
    · subst hs
      simpa using (numberAt_of_mark hnine hmark).2.1
    · simp [hs]

end Nine

theorem replaceAll_numbered {tokens : List String} {text : String}
    (hnine : sequentialCount text.toList ≤ 9)
    (htokens : sequentialCount text.toList ≤ tokens.length) :
    replaceAll tokens (String.ofList (numbered text.toList)) = replaceAll tokens text := by
  simp only [replaceAll, String.toList_ofList, length_numbered]
  congr 2
  funext i
  exact replacementAt_numbered hnine htokens

end Template

/-- A draft with its sequential placeholders written by number. -/
def Draft.numbered (d : Draft) : Draft :=
  { d with text := String.ofList (Template.numbered d.text.toList) }

namespace Message

/-- With at most nine sequential placeholders and a token for each of them, they may be written by
number: no sequential one is left, and a message has the same short text and, at the same location,
the same full text. -/
theorem numbered_agrees (d : Draft) (hnine : Template.sequentialCount d.text.toList ≤ 9)
    (htokens : Template.sequentialCount d.text.toList ≤ d.tokens.length) :
    (∀ i, Template.markAt? d.numbered.text.toList i ≠ some 's') ∧
    (∀ l k, (ofDraft d.numbered l).shortText = (ofDraft d k).shortText) ∧
    ∀ l, (ofDraft d.numbered l).fullText = (ofDraft d l).fullText := by
  have hshort : ∀ l k, (ofDraft d.numbered l).shortText = (ofDraft d k).shortText := by
    intro l k
    calc (ofDraft d.numbered l).shortText
        = Template.replaceAll d.tokens d.numbered.text :=
          Template.expand_ofString d.numbered.text d.tokens
      _ = Template.replaceAll d.tokens d.text := Template.replaceAll_numbered hnine htokens
      _ = (ofDraft d k).shortText := (Template.expand_ofString d.text d.tokens).symm
  refine ⟨fun i => ?_, hshort, fun l => ?_⟩
  · rw [Draft.numbered, String.toList_ofList]
    exact Template.markAt?_numbered_ne hnine
  · rw [fullText, fullText, hshort l l]
    rfl

/-- Three sequential placeholders, one behind a `%` and one in front of a digit, with one by
position among them. -/
def interleaved : Draft := ⟨0, .syntactic, .error, "%s%2%%s%s1%", ["a", "%s", "c"]⟩

theorem numbered_agrees_interleaved :
    Template.sequentialCount interleaved.text.toList = 3 ∧
    interleaved.numbered.text = "%1%2%%2%31%" ∧
    (ofDraft interleaved.numbered none).shortText = (ofDraft interleaved none).shortText ∧
    (ofDraft interleaved none).shortText = "a%s%%sc1%" := by
  have hcount : Template.sequentialCount interleaved.text.toList = 3 := by decide
  have hnine : Template.sequentialCount interleaved.text.toList ≤ 9 := by omega
  have htokens : Template.sequentialCount interleaved.text.toList ≤ interleaved.tokens.length := by
    rw [hcount]
    decide
  exact ⟨hcount, by decide, (numbered_agrees interleaved hnine htokens).2.1 none none, by decide⟩

end Message

end DiagnosticLog
