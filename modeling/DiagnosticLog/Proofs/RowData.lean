import DiagnosticLog.Row
import DiagnosticLog.Proofs.Compact
import Mathlib.Data.List.Nodup
import Mathlib.Data.List.Perm.Basic

/-!
Rows as data are read back as they were. As an object a row is known by its keys alone, so neither
their order nor members under other keys matter, but each of the ten keys has to be there
(`ofJson?_of_members`, `ofJson?_of_missing`); as a list it is the ten values in their order, and
no list of another length is a row. The compact text of a list of rows spells it, so the rows
survive the way through the text.
-/

namespace DiagnosticLog

/-- A list is mapped whole if each of its elements is mapped. -/
theorem mapM_eq_some_of_forall₂ {α β : Type} {f : α → Option β} {as : List α} {bs : List β}
    (h : List.Forall₂ (fun a b => f a = some b) as bs) : as.mapM f = some bs := by
  induction h with
  | nil => rfl
  | cons hfirst _ ih => simp [List.mapM_cons, hfirst, ih]

theorem mapM_eq_none_of_mem {α β : Type} {f : α → Option β} {as : List α} {a : α} (ha : a ∈ as)
    (h : f a = none) : as.mapM f = none := by
  induction as with
  | nil => cases ha
  | cons b as ih =>
    rw [List.mapM_cons]
    rcases List.mem_cons.1 ha with rfl | hlater
    · simp [h]
    · simp [ih hlater]

namespace Json

theorem get?_eq_none_of_missing {members : List (String × Json)} {key : String}
    (h : ∀ m ∈ members, m.1 ≠ key) : (object members).get? key = none := by
  simpa [get?] using h

/-- A member whose key stands for nothing else in the object is found. -/
theorem get?_of_unique {members : List (String × Json)} {m : String × Json} (hm : m ∈ members)
    (hunique : ∀ n ∈ members, n.1 = m.1 → n = m) : (object members).get? m.1 = some m.2 := by
  cases hfind : members.reverse.find? (fun n => n.1 == m.1) with
  | none =>
    have hnot := List.find?_eq_none.1 hfind m (List.mem_reverse.2 hm)
    exact absurd (beq_self_eq_true m.1) hnot
  | some n =>
    have hkey : n.1 = m.1 := by simpa using List.find?_some hfind
    have hn : n ∈ members := List.mem_reverse.1 (List.mem_of_find?_eq_some hfind)
    rw [get?, hfind, hunique n hn hkey]
    rfl

end Json

namespace Row

/-- The members of an object are those of the row in some order, with others under other keys among
them. -/
def MembersOf (r : Row) (members : List (String × Json)) : Prop :=
  ∃ others, (∀ m ∈ others, m.1 ∉ keys) ∧ members.Perm (keys.zip r.values ++ others)

theorem ofJson?_object (members : List (String × Json)) :
    ofJson? (.object members) = (keys.mapM (Json.object members).get?).bind ofValues? := rfl

theorem length_values (r : Row) : r.values.length = keys.length := rfl

theorem nodup_keys : keys.Nodup := by decide

theorem MembersOf.mem {r : Row} {members : List (String × Json)} (h : r.MembersOf members)
    {m : String × Json} (hm : m ∈ keys.zip r.values) : m ∈ members := by
  obtain ⟨others, -, hperm⟩ := h
  exact hperm.mem_iff.2 (List.mem_append_left others hm)

/-- No other member of the object has the key of a member of the row. -/
theorem MembersOf.eq_of_key {r : Row} {members : List (String × Json)} (h : r.MembersOf members)
    {m n : String × Json} (hm : m ∈ keys.zip r.values) (hn : n ∈ members) (hkey : n.1 = m.1) :
    n = m := by
  obtain ⟨others, hothers, hperm⟩ := h
  rcases List.mem_append.1 (hperm.mem_iff.1 hn) with hown | hother
  · have hnodup : ((keys.zip r.values).map Prod.fst).Nodup := by
      rw [List.map_fst_zip (Nat.le_of_eq (length_values r).symm)]
      exact nodup_keys
    exact List.inj_on_of_nodup_map hnodup hown hm hkey
  · have hmem : m.1 ∈ keys := (List.of_mem_zip hm).1
    exact absurd (hkey ▸ hmem) (hothers n hother)

/-- A row is read from its members in any order, whatever else there is under other keys. -/
theorem ofJson?_of_members {r : Row} {members : List (String × Json)} (h : r.MembersOf members) :
    ofJson? (.object members) = some r := by
  have hvalues : keys.mapM (Json.object members).get? = some r.values := by
    apply mapM_eq_some_of_forall₂
    refine List.forall₂_iff_zip.2 ⟨(length_values r).symm, fun {key value} hzip => ?_⟩
    exact Json.get?_of_unique (h.mem hzip) fun n hn hkey => h.eq_of_key hzip hn hkey
  rw [ofJson?_object, hvalues]
  exact ofValues?_values r

/-- An object that lacks one of the keys is no row. -/
theorem ofJson?_of_missing {members : List (String × Json)} {key : String} (hkey : key ∈ keys)
    (h : ∀ m ∈ members, m.1 ≠ key) : ofJson? (.object members) = none := by
  have hvalues : keys.mapM (Json.object members).get? = none :=
    mapM_eq_none_of_mem hkey (Json.get?_eq_none_of_missing h)
  rw [ofJson?_object, hvalues]
  rfl

/-- A list of another length than that of the keys is no row. -/
theorem ofJson?_of_length_ne {items : List Json} (h : items.length ≠ keys.length) :
    ofJson? (.array items) = none := by
  rw [ofJson?]
  unfold ofValues?
  split
  · exact absurd rfl h
  · rfl

theorem membersOf_toJson (r : Row) : r.MembersOf (keys.zip r.values) :=
  ⟨[], by simp, by simp⟩

theorem ofJson?_toJson (r : Row) : ofJson? r.toJson = some r :=
  ofJson?_of_members (membersOf_toJson r)

theorem wellFormed_toJson (r : Row) : r.toJson.WellFormed := by
  have hvalues : ∀ j ∈ r.values, j.WellFormed := by
    simp [values, Json.wellFormed_word, Json.WellFormed.string, Json.WellFormed.bool]
  exact .object fun m hm => hvalues m.2 (List.of_mem_zip hm).2

/-- The compact text of a list of rows. -/
def listText (rows : List Row) : String := (Json.array (rows.map toJson)).compact

theorem wellFormed_list (rows : List Row) : (Json.array (rows.map toJson)).WellFormed := by
  refine .array fun j hj => ?_
  obtain ⟨r, -, rfl⟩ := List.mem_map.1 hj
  exact wellFormed_toJson r

/-- Rows survive as data. The compact text of the rows of any messages is JSON text, and is read as
an array in which every item is read as the row that it was made from. A row is also read from its
members in any other order and with others among them, but not without any one of its own; and from
the list of its values, but not without any one of these. -/
theorem rows_survive (ms : List Message) :
    let rows := ms.map ofMessage
    Json.Spells (listText rows).toList (.element (.array (rows.map toJson))) ∧
    Json.parse (listText rows) = some (.array (rows.map toJson)) ∧
    (rows.map toJson).map ofJson? = rows.map some ∧
    ∀ r ∈ rows,
      (∀ members, r.MembersOf members → ofJson? (.object members) = some r ∧
        ∀ key ∈ keys, ofJson? (.object (members.filter fun m => m.1 ≠ key)) = none) ∧
      ofJson? (.array r.values) = some r ∧
      ∀ i < r.values.length, ofJson? (.array (r.values.eraseIdx i)) = none := by
  intro rows
  have hitems : (rows.map toJson).map ofJson? = rows.map some := by
    rw [List.map_map]
    exact List.map_congr_left fun r _ => ofJson?_toJson r
  refine ⟨Json.spells_compact (wellFormed_list rows), Json.parse_compact (wellFormed_list rows),
    hitems, fun r _ => ⟨fun members h => ⟨ofJson?_of_members h, fun key hkey => ?_⟩,
      ofValues?_values r, fun i hi => ?_⟩⟩
  · apply ofJson?_of_missing hkey
    intro m hm
    simpa using List.of_mem_filter hm
  · apply ofJson?_of_length_ne
    rw [List.length_eraseIdx_of_lt hi, length_values]
    decide

/-- A message whose text has a quote, a backslash and two control characters, in a file whose path
is not in plain letters. -/
def awkward : Message :=
  ⟨4294967295, .runtime, .warning, "\"\\\n\x85", [], some ⟨⟨"é/\t"⟩, true, 0, 1, 2, 3⟩⟩

/-- Its row is read with the keys in reverse and with another key in front and at the end, but not
without its file. -/
theorem rows_survive_reversed :
    let r := ofMessage awkward
    let members := ("note", .null) :: (keys.zip r.values).reverse ++ [("note", .bool true)]
    r.MembersOf members ∧ ofJson? (.object members) = some r ∧
      ofJson? (.object (members.filter fun m => m.1 ≠ "file")) = none ∧
      ofJson? (.array (r.values.eraseIdx 4)) = none := by
  intro r members
  have hothers : r.MembersOf members := by
    refine ⟨[("note", .null), ("note", .bool true)], by decide, ?_⟩
    have hfront : (("note", .null) :: (keys.zip r.values).reverse).Perm
        (keys.zip r.values ++ [("note", .null)]) :=
      (List.perm_append_singleton _ _).symm.trans ((List.reverse_perm _).append_right _)
    have hwhole := hfront.append_right [("note", .bool true)]
    rw [List.append_assoc] at hwhole
    exact hwhole
  obtain ⟨-, -, -, hrow⟩ := rows_survive [awkward]
  obtain ⟨hmembers, -, hlist⟩ := hrow r List.mem_cons_self
  exact ⟨hothers, (hmembers members hothers).1, (hmembers members hothers).2 "file" (by decide),
    hlist 4 (by decide)⟩

end Row

end DiagnosticLog
