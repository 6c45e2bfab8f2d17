import DiagnosticLog.Session
import DiagnosticLog.Transcript

/-!
Contexts that share a sink do not notice one another. Whatever is asked of the slots of a session,
and in whatever order, the turns of one slot are those of a session that has only this slot and is
asked only what concerns it: the same replies, the same states, the same events and the same lines.
So the common sink is an interleaving of the sinks that the slots would have had to themselves, turn
by turn (`context_isolated`).

A turn may be a whole speculation, or a part of one: its opening, a step of its body and its closing
can be asked for one by one, with turns of other slots between them. The environment is no way
between the slots either. A new context comes with its settings, which were read before, and a later
change of the environment is a turn that changes no settings. A host, which reads them when the
context is built, hands on to its session the settings of that moment (`Host.slots_isolated`).
-/

namespace DiagnosticLog

/-- The lines that are written in a turn. -/
def Turn.lines {α : Type} (turn : Turn α) : List String :=
  Transcript.lines (turn.filterMap Happening.output?)

namespace Session

variable {α : Type}

/-- What is asked of one slot. -/
def asked (i : Nat) (rs : List (Request α)) : List (Action α) :=
  (rs.filter fun r => r.slot = i).map Request.action

/-- The turns of one slot. -/
def turnsOf (i : Nat) (rs : List (Request α)) (turns : List (Turn α)) : List (Turn α) :=
  ((rs.zip turns).filter fun x => x.1.slot = i).map Prod.snd

/-- A session that has only this slot, and is asked this of it. -/
def alone (slot : Slot) (actions : List (Action α)) : Effect (Turn α) Session :=
  run (actions.map (Request.mk 0)) ⟨[slot]⟩

/-- The lines of the common sink, each with the slot that wrote it. -/
def signedLines (rs : List (Request α)) (turns : List (Turn α)) : List (Nat × String) :=
  (rs.zip turns).flatMap fun x => x.2.lines.map fun line => (x.1.slot, line)

section Run

variable {s t : Session} {r : Request α} {rest : List (Request α)} {v : Violation} {slot : Slot}
  {i : Nat}

theorem run_cons_of_ok (h : (s.serve r).result = .ok t) :
    run (r :: rest) s = ⟨(s.serve r).outputs :: (run rest t).outputs, (run rest t).result⟩ := by
  have hbundled : (s.serve r).bundled.result = .ok t := h
  rw [run, Effect.bind_eq, Effect.andThen_of_ok hbundled]
  rfl

theorem run_cons_of_error (h : (s.serve r).result = .error v) :
    run (r :: rest) s = ⟨[(s.serve r).outputs], .error v⟩ := by
  have hbundled : (s.serve r).bundled.result = .error v := h
  rw [run, Effect.bind_eq, Effect.andThen_of_error hbundled]
  rfl

theorem serve_of_slot (h : s.slots[r.slot]? = some slot) :
    s.serve r =
      ⟨(slot.act r.action).outputs,
        (slot.act r.action).result.map fun slot => ⟨s.slots.set r.slot slot⟩⟩ := by
  simp only [serve, h, Effect.bind_eq, Effect.andThen, Effect.pure_eq, Effect.done]
  cases (slot.act r.action).result <;> simp [Except.map]

theorem serve_of_vacant (h : s.slots[r.slot]? = none) :
    s.serve r = ⟨[.finished [] .vacant none], .ok s⟩ := by
  simp [serve, h, Slot.finish]

theorem serve_alone (slot : Slot) (a : Action α) :
    (⟨[slot]⟩ : Session).serve ⟨0, a⟩ =
      ⟨(slot.act a).outputs, (slot.act a).result.map fun slot => ⟨[slot]⟩⟩ :=
  serve_of_slot rfl

/-- A request leaves the other slots as they are. -/
theorem slot_of_serve (h : (s.serve r).result = .ok t) (hi : r.slot ≠ i) :
    t.slots[i]? = s.slots[i]? := by
  cases hslot : s.slots[r.slot]? with
  | none =>
    rw [serve_of_vacant hslot] at h
    cases h
    rfl
  | some slot =>
    rw [serve_of_slot hslot] at h
    cases hact : (slot.act r.action).result with
    | error v => simp [hact, Except.map] at h
    | ok slot' =>
      simp only [hact, Except.map, Except.ok.injEq] at h
      rw [← h, List.getElem?_set_ne hi]

end Run

section Shares

variable {i : Nat} {r : Request α} {rs : List (Request α)} {turn : Turn α} {turns : List (Turn α)}

theorem asked_cons_own (h : r.slot = i) : asked i (r :: rs) = r.action :: asked i rs := by
  simp [asked, h]

theorem asked_cons_other (h : r.slot ≠ i) : asked i (r :: rs) = asked i rs := by
  simp [asked, h]

theorem turnsOf_cons_own (h : r.slot = i) :
    turnsOf i (r :: rs) (turn :: turns) = turn :: turnsOf i rs turns := by
  simp [turnsOf, h]

theorem turnsOf_cons_other (h : r.slot ≠ i) :
    turnsOf i (r :: rs) (turn :: turns) = turnsOf i rs turns := by
  simp [turnsOf, h]

/-- The lines that a slot signs are those of its turns. -/
theorem signedLines_of (i : Nat) (rs : List (Request α)) (turns : List (Turn α)) :
    ((signedLines rs turns).filter fun x => x.1 = i).map Prod.snd =
      (turnsOf i rs turns).flatMap Turn.lines := by
  induction rs generalizing turns with
  | nil => rfl
  | cons r rs ih =>
    cases turns with
    | nil => rfl
    | cons turn turns =>
      have hcons : signedLines (r :: rs) (turn :: turns) =
          turn.lines.map (fun line => (r.slot, line)) ++ signedLines rs turns := rfl
      rw [hcons, List.filter_append, List.map_append, ih]
      by_cases h : r.slot = i
      · simp [turnsOf_cons_own h, List.filter_map, h, Function.comp_def]
      · simp [turnsOf_cons_other h, List.filter_map, h, Function.comp_def]

/-- Every line is signed. -/
theorem map_snd_signedLines (h : turns.length ≤ rs.length) :
    (signedLines rs turns).map Prod.snd = turns.flatMap Turn.lines := by
  induction turns generalizing rs with
  | nil => simp [signedLines]
  | cons turn turns ih =>
    cases rs with
    | nil => simp at h
    | cons r rs =>
      have hrest : (signedLines rs turns).map Prod.snd = turns.flatMap Turn.lines :=
        ih (by simpa using h)
      simpa [signedLines, Function.comp_def] using hrest

end Shares

/-- The share that one slot has in what comes of these requests, up to the first violation, is what
comes of its own requests alone. -/
structure Isolated (i : Nat) (slot : Slot) (rs : List (Request α)) (e : Effect (Turn α) Session) :
    Prop where
  /-- Every request that was served made one turn. -/
  served : e.outputs.length ≤ rs.length
  turns : turnsOf i rs e.outputs = (alone slot (asked i (rs.take e.outputs.length))).outputs
  ended : ∀ t, e.result = .ok t → e.outputs.length = rs.length ∧
    ∃ slot', t.slots[i]? = some slot' ∧ (alone slot (asked i rs)).result = .ok ⟨[slot']⟩
  violated : ∀ v, e.result = .error v →
    ∃ r, (rs.take e.outputs.length).getLast? = some r ∧
      if r.slot = i then (alone slot (asked i (rs.take e.outputs.length))).result = .error v
      else ∃ slot', (alone slot (asked i (rs.take e.outputs.length))).result = .ok ⟨[slot']⟩

theorem alone_cons_of_ok {slot slot' : Slot} {a : Action α} (h : (slot.act a).result = .ok slot')
    (rest : List (Action α)) :
    alone slot (a :: rest) =
      ⟨(slot.act a).outputs :: (alone slot' rest).outputs, (alone slot' rest).result⟩ := by
  have hserve : ((⟨[slot]⟩ : Session).serve ⟨0, a⟩).result = .ok ⟨[slot']⟩ := by
    rw [serve_alone, h]
    rfl
  rw [alone, List.map_cons, run_cons_of_ok hserve, serve_alone]
  rfl

theorem alone_cons_of_error {slot : Slot} {a : Action α} {v : Violation}
    (h : (slot.act a).result = .error v) (rest : List (Action α)) :
    alone slot (a :: rest) = ⟨[(slot.act a).outputs], .error v⟩ := by
  have hserve : ((⟨[slot]⟩ : Session).serve ⟨0, a⟩).result = .error v := by
    rw [serve_alone, h]
    rfl
  rw [alone, List.map_cons, run_cons_of_error hserve, serve_alone]

section Steps

variable {i : Nat} {slot slot' : Slot} {r : Request α} {rest : List (Request α)}
  {e : Effect (Turn α) Session} {turn : Turn α} {v : Violation}

theorem Isolated.own (hi : r.slot = i) (hact : (slot.act r.action).result = .ok slot')
    (h : Isolated i slot' rest e) :
    Isolated i slot (r :: rest) ⟨(slot.act r.action).outputs :: e.outputs, e.result⟩ where
  served := Nat.succ_le_succ h.served
  turns := by
    rw [turnsOf_cons_own hi, List.length_cons, List.take_succ_cons, asked_cons_own hi,
      alone_cons_of_ok hact, h.turns]
  ended := by
    intro t ht
    obtain ⟨hlength, slot'', hslot, halone⟩ := h.ended t ht
    rw [asked_cons_own hi, alone_cons_of_ok hact]
    exact ⟨congrArg Nat.succ hlength, slot'', hslot, halone⟩
  violated := by
    intro v hv
    obtain ⟨last, hlast, halone⟩ := h.violated v hv
    rw [List.length_cons, List.take_succ_cons, asked_cons_own hi, alone_cons_of_ok hact]
    exact ⟨last, by simp [List.getLast?_cons, hlast], halone⟩

theorem Isolated.other (hi : r.slot ≠ i) (h : Isolated i slot rest e) :
    Isolated i slot (r :: rest) ⟨turn :: e.outputs, e.result⟩ where
  served := Nat.succ_le_succ h.served
  turns := by
    rw [turnsOf_cons_other hi, List.length_cons, List.take_succ_cons, asked_cons_other hi, h.turns]
  ended := by
    intro t ht
    obtain ⟨hlength, slot', hslot, halone⟩ := h.ended t ht
    rw [asked_cons_other hi]
    exact ⟨congrArg Nat.succ hlength, slot', hslot, halone⟩
  violated := by
    intro v hv
    obtain ⟨last, hlast, halone⟩ := h.violated v hv
    rw [List.length_cons, List.take_succ_cons, asked_cons_other hi]
    exact ⟨last, by simp [List.getLast?_cons, hlast], halone⟩

theorem isolated_of_own_violation (hi : r.slot = i)
    (hact : (slot.act r.action).result = .error v) (rest : List (Request α)) :
    Isolated i slot (r :: rest) ⟨[(slot.act r.action).outputs], .error v⟩ where
  served := by simp
  turns := by simp [turnsOf, asked, hi, alone_cons_of_error hact]
  ended t ht := by cases ht
  violated := by
    intro v' hv
    obtain rfl : v = v' := Except.error.inj hv
    exact ⟨r, rfl, by simp [asked, hi, alone_cons_of_error hact]⟩

theorem isolated_of_other_violation (hi : r.slot ≠ i) (rest : List (Request α)) :
    Isolated i slot (r :: rest) ⟨[turn], .error v⟩ where
  served := by simp
  turns := by simp [turnsOf, asked, hi, alone, run, Effect.done]
  ended t ht := by cases ht
  violated := by
    intro v' _
    exact ⟨r, rfl, by simp [asked, hi, alone, run, Effect.done]⟩

end Steps

theorem isolated_run {s : Session} {i : Nat} {slot : Slot} (hslot : s.slots[i]? = some slot)
    (rs : List (Request α)) : Isolated i slot rs (run rs s) := by
  induction rs generalizing s slot with
  | nil =>
    refine ⟨Nat.le_refl 0, rfl, fun t ht => ?_, fun v hv => by cases hv⟩
    obtain rfl : s = t := Except.ok.inj ht
    exact ⟨rfl, slot, hslot, rfl⟩
  | cons r rest ih =>
    by_cases hi : r.slot = i
    · have hserve := serve_of_slot (hi ▸ hslot : s.slots[r.slot]? = some slot)
      cases hact : (slot.act r.action).result with
      | error v =>
        have hresult : (s.serve r).result = .error v := by rw [hserve, hact]; rfl
        rw [run_cons_of_error hresult, hserve]
        exact isolated_of_own_violation hi hact rest
      | ok slot' =>
        have hresult : (s.serve r).result = .ok ⟨s.slots.set r.slot slot'⟩ := by
          rw [hserve, hact]; rfl
        rw [run_cons_of_ok hresult, hserve]
        refine Isolated.own hi hact (ih ?_)
        have hlt : i < s.slots.length := (List.getElem?_eq_some_iff.1 hslot).1
        simp [hi, hlt]
    · cases hresult : (s.serve r).result with
      | error v =>
        rw [run_cons_of_error hresult]
        exact isolated_of_other_violation hi rest
      | ok t =>
        rw [run_cons_of_ok hresult]
        exact Isolated.other hi (ih ((slot_of_serve hresult hi).trans hslot))

/-- The lines of the common sink, each signed by its slot, are those of the run, and a slot signs
those that it would have written alone. -/
theorem Isolated.signed {i : Nat} {slot : Slot} {rs : List (Request α)}
    {e : Effect (Turn α) Session} (h : Isolated i slot rs e) :
    (signedLines rs e.outputs).map Prod.snd = e.outputs.flatMap Turn.lines ∧
      ((signedLines rs e.outputs).filter fun x => x.1 = i).map Prod.snd =
        (alone slot (asked i (rs.take e.outputs.length))).outputs.flatMap Turn.lines := by
  refine ⟨map_snd_signedLines h.served, ?_⟩
  rw [signedLines_of, h.turns]

/-- Whatever a session is asked, the share of each slot is what it would be alone, and the lines of
the common sink are those that the slots would have written to sinks of their own. -/
theorem context_isolated (s : Session) (rs : List (Request α)) (i : Fin s.slots.length) :
    Isolated i s.slots[i] rs (run rs s) ∧
      (signedLines rs (run rs s).outputs).map Prod.snd = (run rs s).outputs.flatMap Turn.lines ∧
      ((signedLines rs (run rs s).outputs).filter fun x => x.1 = i.val).map Prod.snd =
        (alone s.slots[i] (asked i (rs.take (run rs s).outputs.length))).outputs.flatMap
          Turn.lines := by
  have hslot : s.slots[i.val]? = some s.slots[i] := by simp
  have hisolated := isolated_run hslot rs
  exact ⟨hisolated, hisolated.signed⟩

end Session

end DiagnosticLog
