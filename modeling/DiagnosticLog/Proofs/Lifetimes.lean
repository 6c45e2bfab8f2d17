import DiagnosticLog.Proofs.Echo
import DiagnosticLog.Proofs.ErrorCount

/-!
The life of a context. A store comes with the first call for it and goes with its context, and a
slot may have many contexts one after another. To follow a slot it is enough to know the name and
the settings of its context and the operations that the context has been used for, if it has been
used (`Lifetime`). Every call works on the store that all operations before it lead to, the first
one creates it, and what is released tells of that store; no operation puts out such an event of its
own (`Store.uneventful_perform`). So creations and releases take turns in each slot, whatever the
other slots do (`Session.context_life_cycle`).
-/

namespace DiagnosticLog

/-- The event, if it is the creation or the release of a store. -/
def Output.life? : Output → Option Event
  | event (.created context echo) => some (.created context echo)
  | event (.released context remaining errors checkpoints) =>
    some (.released context remaining errors checkpoints)
  | _ => none

/-- The creations and the releases in a turn. -/
def Turn.life {α : Type} (turn : Turn α) : List Event :=
  (turn.filterMap Happening.output?).filterMap Output.life?

theorem Turn.life_append {α : Type} (turn turn' : Turn α) :
    (turn ++ turn').life = turn.life ++ turn'.life := by
  simp [Turn.life]

/-- The creation of a store is the next to come if there is none, and the release of the store that
was created under this name if there is one. -/
inductive Alternate : Option String → List Event → Prop
  | nil (living : Option String) : Alternate living []
  | created {name : String} {echo : Bool} {events : List Event}
      (h : Alternate (some name) events) : Alternate none (.created name echo :: events)
  | released {name : String} {remaining errors checkpoints : Nat} {events : List Event}
      (h : Alternate none events) :
      Alternate (some name) (.released name remaining errors checkpoints :: events)

namespace Effect

variable {α β : Type}

/-- The computation neither creates nor releases a store. -/
def Uneventful (e : Effect Output α) : Prop := e.outputs.filterMap Output.life? = []

theorem uneventful_andThen {e : Effect Output α} {f : α → Effect Output β} (he : e.Uneventful)
    (hf : ∀ a, (f a).Uneventful) : (e.andThen f).Uneventful := by
  obtain ⟨outputs, result⟩ := e
  cases result with
  | error v => exact he
  | ok a =>
    have hrest : (f a).outputs.filterMap Output.life? = [] := hf a
    simp only [Uneventful, andThen] at he ⊢
    rw [List.filterMap_append, he, hrest, List.append_nil]

end Effect

namespace Store

theorem uneventful_fail {α : Type} (v : Violation) (s : Store) :
    (s.fail v : Effect Output α).Uneventful := by
  simp [fail, Effect.fail, Effect.Uneventful, Output.life?]

theorem uneventful_push (m : Message) (s : Store) : (s.push m).Uneventful := by
  cases hecho : s.settings.echo <;>
    simp [push, echoLines, hecho, Effect.Uneventful, Output.life?]

theorem uneventful_unwind (floor : Option Nat) (s : Store) : (s.unwind floor).Uneventful := by
  fun_induction unwind floor s with
  | case1 s hfloor hpop => exact uneventful_fail _ s
  | case2 s hfloor removed left hpop hless ih =>
    refine Effect.uneventful_andThen rfl fun _ => ?_
    exact Effect.uneventful_andThen ih fun _ => rfl
  | case3 s hfloor => rfl

theorem uneventful_requireTop (how : Closing) (id : String) (s : Store) :
    (s.requireTop how id).Uneventful := by
  unfold requireTop
  split
  · rfl
  · exact uneventful_fail _ s

theorem uneventful_rollBack (how : Closing) (id : String) (s : Store) :
    (s.rollBack how id).Uneventful := by
  refine Effect.uneventful_andThen (s.uneventful_requireTop how id) fun cp => ?_
  exact Effect.uneventful_andThen (s.uneventful_unwind (some cp.depth)) fun _ => rfl

theorem uneventful_close (how : Closing) (id : String) (s : Store) :
    (s.close how id).Uneventful := by
  cases how with
  | commit =>
    have hcommit : (s.commit id).Uneventful :=
      Effect.uneventful_andThen (s.uneventful_requireTop .commit id) fun _ => rfl
    exact Effect.uneventful_andThen hcommit fun _ => rfl
  | rollBack | rollBackPrinting =>
    exact Effect.uneventful_andThen (s.uneventful_rollBack _ id) fun _ => rfl

theorem uneventful_emptyLog (how : Emptying) (s : Store) : (s.emptyLog how).Uneventful := by
  have hwarning : (Effect.put (s.emptyingWarning how)).Uneventful := by
    simp only [Effect.put, emptyingWarning]
    split <;> rfl
  refine Effect.uneventful_andThen hwarning fun _ => ?_
  exact Effect.uneventful_andThen (s.uneventful_unwind none) fun _ => rfl

theorem uneventful_perform (op : Operation) (s : Store) : (s.perform op).Uneventful := by
  cases op with
  | report d | reportAt d location | push m =>
    exact Effect.uneventful_andThen (uneventful_push _ s) fun _ => rfl
  | close how id => exact s.uneventful_close how id
  | drain _ | clear => exact Effect.uneventful_andThen (s.uneventful_emptyLog _) fun _ => rfl
  | openCheckpoint _ | focusOn _ _ | currentFocus | setEcho _ | isInnermost _ | peek
  | changeEnvironment _ | reenter => rfl

theorem uneventful_performAll (ops : List Operation) (s : Store) :
    (Machine.performAll perform ops s).Uneventful := by
  induction ops generalizing s with
  | nil => rfl
  | cons op rest ih => exact Effect.uneventful_andThen (s.uneventful_perform op) fun r => ih r.2

end Store

/-- What is known of the context in a slot: its name, its settings, and the operations that it has
been used for, if it has been used. -/
structure Lifetime where
  name : String
  settings : Settings
  history : Option (List Operation)

namespace Lifetime

variable {α : Type}

def unused (name : String) (settings : Settings) : Lifetime := ⟨name, settings, none⟩

/-- The lifetime after one more use, which performs these operations. -/
def extend (ops : List Operation) (ℓ : Lifetime) : Lifetime :=
  { ℓ with history := some (ℓ.history.getD [] ++ ops) }

/-- All that the context has been used for leads to this store. -/
def Leads (ℓ : Lifetime) (s : Store) : Prop :=
  (Machine.performAll Store.perform (ℓ.history.getD []) (.new ℓ.settings)).result = .ok s

/-- The name of the store that has been created and not been released. -/
def living (ℓ : Lifetime) : Option String := ℓ.history.map fun _ => ℓ.name

/-- The first use creates the store. -/
def creation (ℓ : Lifetime) : List Event :=
  match ℓ.history with
  | none => [.created ℓ.name ℓ.settings.echo]
  | some _ => []

/-- The end of a context that has been used releases the store. -/
def release (s : Store) (ℓ : Lifetime) : List Event :=
  match ℓ.history with
  | none => []
  | some _ =>
    [.released ℓ.name s.log.length (s.log.messages.countP fun m => m.severity = .error)
      s.checkpoints.length]

/-- The creations and the releases in a turn of the slot. -/
def events (s : Store) (ℓ : Lifetime) : Action α → List Event
  | .use _ | .start => ℓ.creation
  | .isStarted => []
  | .drop | .replace _ _ => ℓ.release s

/-- The turn that the slot makes. -/
def turn (s : Store) (ℓ : Lifetime) : Action α → Turn α
  | .use statement =>
    ℓ.creation.map (fun e => .output (.event e)) ++
      (statement.run Store.perform [] s).outputs.map (Happening.mapState some)
  | .start =>
    ℓ.creation.map (fun e => .output (.event e)) ++ [.finished [] (.answer .nothing) (some s)]
  | .isStarted => [.finished [] (.context ℓ.name ℓ.history.isSome) none]
  | .drop =>
    (ℓ.release s).map (fun e => .output (.event e)) ++
      [.finished [] (.answer (.flag true)) none]
  | .replace _ _ =>
    (ℓ.release s).map (fun e => .output (.event e)) ++ [.finished [] (.answer .nothing) none]

/-- The context in the slot, whose store is this one if it has been used. -/
def context (s : Store) (ℓ : Lifetime) : Context :=
  ⟨ℓ.name, ℓ.settings, ℓ.history.map fun _ => s⟩

end Lifetime

namespace Action

variable {α : Type}

/-- What is known of the slot afterwards, if it has been known before. -/
def lifeAfter (life : Option Lifetime) : Action α → Option Lifetime
  | use statement => life.map (Lifetime.extend statement.operations)
  | start => life.map (Lifetime.extend [])
  | isStarted => life
  | drop => none
  | replace name settings => some (.unused name settings)

/-- This is the turn of a slot whose context has this lifetime. Without a context, nothing is
created or released. -/
def Told (life : Option Lifetime) (a : Action α) (turn : Turn α) : Prop :=
  match life with
  | none => turn.life = []
  | some ℓ => ∃ s, ℓ.Leads s ∧ turn = ℓ.turn s a ∧ turn.life = ℓ.events s a

/-- These are the turns of a slot, each after the actions before it. -/
inductive Lives : Option Lifetime → List (Action α) → List (Turn α) → Prop
  | nil (life : Option Lifetime) : Lives life [] []
  | cons {life : Option Lifetime} {a : Action α} {turn : Turn α} {rest : List (Action α)}
      {turns : List (Turn α)} (first : a.Told life turn)
      (more : Lives (a.lifeAfter life) rest turns) : Lives life (a :: rest) (turn :: turns)

end Action

namespace Lifetime

variable {α : Type} {ℓ : Lifetime} {s t : Store}

theorem leads_unused (name : String) (settings : Settings) :
    (unused name settings).Leads (.new settings) := rfl

/-- A use leads on from where the uses before it led. -/
theorem Leads.extend (h : ℓ.Leads s) {ops : List Operation}
    (ht : (Machine.performAll Store.perform ops s).result = .ok t) : (ℓ.extend ops).Leads t := by
  have hall : (Machine.performAll Store.perform (ℓ.history.getD [] ++ ops)
      (.new ℓ.settings)).result = .ok t := by
    rw [Machine.performAll_append]
    exact Effect.result_andThen_eq_ok_iff.2 ⟨s, h, ht⟩
  exact hall

theorem Leads.use (h : ℓ.Leads s) {statement : Statement α}
    (ht : (statement.run Store.perform [] s).result = .ok t) :
    (ℓ.extend statement.operations).Leads t := by
  rw [statement.result_run] at ht
  exact h.extend ht

theorem Leads.errorCount (h : ℓ.Leads s) :
    s.log.errorCount = s.log.messages.countP fun m => m.severity = .error := by
  have hcounted : s.log.Counted :=
    Machine.performAll_keeps (fun _ _ _ _ _ hs hop => (Store.step_of_perform hop).counted hs)
      Log.counted_empty h
  exact hcounted.tellsErrors.count

/-- A context that is used has the store that its uses led to, and creates it if there was none. -/
theorem Leads.start (h : ℓ.Leads s) : (ℓ.context s).start = ⟨ℓ.creation.map .event, .ok s⟩ := by
  obtain ⟨name, settings, history⟩ := ℓ
  cases history with
  | none =>
    obtain rfl : Store.new settings = s := Except.ok.inj h
    rfl
  | some ops => rfl

theorem Leads.mapOutputs_start {σ : Type} (h : ℓ.Leads s) :
    (ℓ.context s).start.mapOutputs (.output : Output → Happening α σ) =
      ⟨ℓ.creation.map fun e => .output (.event e), .ok s⟩ := by
  rw [h.start, Effect.mapOutputs, List.map_map]
  rfl

theorem Leads.release (h : ℓ.Leads s) : (ℓ.context s).release = (ℓ.release s).map .event := by
  have hcount := h.errorCount
  obtain ⟨name, settings, history⟩ := ℓ
  cases history with
  | none => rfl
  | some ops => simp [context, Context.release, Lifetime.release, hcount]

theorem life_map_creation (ℓ : Lifetime) :
    Turn.life (ℓ.creation.map fun e => .output (.event e) : Turn α) = ℓ.creation := by
  obtain ⟨name, settings, history⟩ := ℓ
  cases history <;> rfl

theorem life_map_release (s : Store) (ℓ : Lifetime) :
    Turn.life ((ℓ.release s).map fun e => .output (.event e) : Turn α) = ℓ.release s := by
  obtain ⟨name, settings, history⟩ := ℓ
  cases history <;> rfl

theorem life_run (statement : Statement α) (s : Store) :
    Turn.life ((statement.run Store.perform [] s).outputs.map (Happening.mapState some)) = [] := by
  have hall : (statement.run Store.perform [] s).outputs.filterMap Happening.output? =
      (Machine.performAll Store.perform statement.operations s).outputs :=
    congrArg Effect.outputs (statement.view_run_operations [] s)
  rw [Turn.life, List.filterMap_map, Happening.output?_comp_mapState, hall]
  exact Store.uneventful_performAll statement.operations s

theorem life_turn (s : Store) (ℓ : Lifetime) (a : Action α) : (ℓ.turn s a).life = ℓ.events s a := by
  cases a with
  | use statement =>
    rw [turn, Turn.life_append, life_map_creation, life_run, List.append_nil]
    rfl
  | start =>
    rw [turn, Turn.life_append, life_map_creation]
    exact List.append_nil _
  | isStarted => rfl
  | drop | replace name settings =>
    rw [turn, Turn.life_append, life_map_release]
    exact List.append_nil _

/-- Using the context is creating its store, if there is none, and running the statement on it. -/
theorem Leads.use_eq (h : ℓ.Leads s) (statement : Statement α) :
    (ℓ.context s).use statement =
      ⟨ℓ.creation.map (fun e => .output (.event e)) ++
          (statement.run Store.perform [] s).outputs,
        (statement.run Store.perform [] s).result.map fun t =>
          { ℓ.context s with store := some t }⟩ := by
  have hstore : ((statement.run Store.perform [] s).andThen fun t =>
      .done { ℓ.context s with store := some t }) =
        ⟨(statement.run Store.perform [] s).outputs, (statement.run Store.perform [] s).result.map
          fun t => { ℓ.context s with store := some t }⟩ := Effect.andThen_done _ _
  calc (ℓ.context s).use statement
      = ((ℓ.context s).start.mapOutputs .output).andThen fun s =>
          (statement.run Store.perform [] s).andThen fun t =>
            .done { ℓ.context s with store := some t } := rfl
    _ = _ := by rw [h.mapOutputs_start, Effect.andThen_of_ok rfl, hstore]

end Lifetime

namespace Slot

variable {α : Type}

/-- The slot is as it is known to be. -/
def Holds (life : Option Lifetime) (slot : Slot) : Prop :=
  match life with
  | none => slot = none
  | some ℓ => ∃ s, ℓ.Leads s ∧ slot = some (ℓ.context s)

variable {ℓ : Lifetime} {s : Store}

theorem holds_unused (name : String) (settings : Settings) :
    Holds (some (.unused name settings)) (some (.new name settings)) :=
  ⟨.new settings, Lifetime.leads_unused name settings, rfl⟩

/-- After a use, the store of the context is the one that the use led to. -/
theorem holds_extend {t : Store} {ops : List Operation} (h : (ℓ.extend ops).Leads t) :
    Holds (some (ℓ.extend ops)) (some { ℓ.context s with store := some t }) :=
  ⟨t, h, rfl⟩

theorem act_use (h : ℓ.Leads s) (statement : Statement α) :
    act (.use statement) (some (ℓ.context s)) =
      ⟨ℓ.turn s (.use statement), (statement.run Store.perform [] s).result.map fun t =>
        some { ℓ.context s with store := some t }⟩ := by
  have hact : act (.use statement) (some (ℓ.context s)) =
      ⟨(((ℓ.context s).use statement).mapOutputs (Happening.mapState some)).outputs,
        ((ℓ.context s).use statement).result.map some⟩ := Effect.andThen_done _ _
  rw [hact, h.use_eq, Effect.mapOutputs, List.map_append, List.map_map]
  cases (statement.run Store.perform [] s).result <;> rfl

theorem act_start (h : ℓ.Leads s) :
    act (.start : Action α) (some (ℓ.context s)) =
      ⟨ℓ.turn s .start, .ok (some { ℓ.context s with store := some s })⟩ := by
  calc act (.start : Action α) (some (ℓ.context s))
      = ((ℓ.context s).start.mapOutputs .output).andThen fun s =>
          finish [] (.answer .nothing) (some s) (some { ℓ.context s with store := some s }) := rfl
    _ = _ := by
      rw [h.mapOutputs_start, Effect.andThen_of_ok rfl]
      rfl

theorem finish_release (h : ℓ.Leads s) (reply : Reply α) (slot' : Slot) :
    finish (release (some (ℓ.context s))) reply none slot' =
      ⟨(ℓ.release s).map (fun e => .output (.event e)) ++ [.finished [] reply none],
        .ok slot'⟩ := by
  have hrelease : release (some (ℓ.context s)) = (ℓ.release s).map .event := h.release
  rw [finish, hrelease, List.map_map]
  rfl

theorem act_isStarted (s : Store) (ℓ : Lifetime) :
    act (.isStarted : Action α) (some (ℓ.context s)) =
      ⟨ℓ.turn s .isStarted, .ok (some (ℓ.context s))⟩ := by
  obtain ⟨name, settings, history⟩ := ℓ
  cases history <;> rfl

/-- A request to a slot without a context has no part in the life of any store. -/
theorem told_act_none (a : Action α) :
    a.Told none (act a none).outputs ∧
      ∀ slot, (act a none).result = .ok slot → Holds (a.lifeAfter none) slot := by
  cases a with
  | use _ | start | isStarted | drop => exact ⟨rfl, fun slot h => (Except.ok.inj h).symm⟩
  | replace name settings =>
    refine ⟨rfl, fun slot h => ?_⟩
    obtain rfl := Except.ok.inj h
    exact holds_unused name settings

theorem told_of_turn {a : Action α} {slot' : Slot}
    {e : Effect (Happening α (Option Store)) Slot} (h : ℓ.Leads s)
    (he : e = ⟨ℓ.turn s a, .ok slot'⟩) (hslot' : Holds (a.lifeAfter (some ℓ)) slot') :
    a.Told (some ℓ) e.outputs ∧
      ∀ slot', e.result = .ok slot' → Holds (a.lifeAfter (some ℓ)) slot' := by
  subst he
  refine ⟨⟨s, h, rfl, ℓ.life_turn s a⟩, fun slot'' hslot'' => ?_⟩
  obtain rfl := Except.ok.inj hslot''
  exact hslot'

/-- A statement may break off. Its turn is told all the same. -/
theorem told_use (h : ℓ.Leads s) (statement : Statement α) :
    (Action.use statement).Told (some ℓ) (act (.use statement) (some (ℓ.context s))).outputs ∧
      ∀ slot', (act (.use statement) (some (ℓ.context s))).result = .ok slot' →
        Holds (some (ℓ.extend statement.operations)) slot' := by
  cases hrun : (statement.run Store.perform [] s).result with
  | error v =>
    rw [act_use h, hrun]
    exact ⟨⟨s, h, rfl, ℓ.life_turn s (.use statement)⟩, fun slot' hslot' => by cases hslot'⟩
  | ok t =>
    have hact := act_use h statement
    rw [hrun] at hact
    exact told_of_turn h hact (holds_extend (h.use hrun))

/-- A slot that is as it is known to be makes the turn that is told of it, and is afterwards as it
is known to be then. -/
theorem told_act {life : Option Lifetime} {slot : Slot} (h : Holds life slot) (a : Action α) :
    a.Told life (slot.act a).outputs ∧
      ∀ slot', (slot.act a).result = .ok slot' → Holds (a.lifeAfter life) slot' := by
  cases life with
  | none =>
    obtain rfl : slot = none := h
    exact told_act_none a
  | some ℓ =>
    obtain ⟨s, hs, rfl⟩ := h
    cases a with
    | use statement => exact told_use hs statement
    | start => exact told_of_turn hs (act_start hs) (holds_extend (hs.extend rfl))
    | isStarted => exact told_of_turn hs (act_isStarted s ℓ) ⟨s, hs, rfl⟩
    | drop => exact told_of_turn hs (finish_release hs _ none) rfl
    | replace name settings =>
      exact told_of_turn hs (finish_release hs _ _) (holds_unused name settings)

end Slot

/-- The life of a slot goes on in turns: what one action leaves open, the next ones find open. -/
theorem Action.Told.alternate {α : Type} {life : Option Lifetime} {a : Action α} {turn : Turn α}
    {events : List Event} (h : a.Told life turn)
    (hmore : Alternate ((a.lifeAfter life).bind Lifetime.living) events) :
    Alternate (life.bind Lifetime.living) (turn.life ++ events) := by
  cases life with
  | none =>
    have hnothing : turn.life = [] := h
    rw [hnothing]
    cases a with
    | use _ | start | isStarted | drop | replace _ _ => exact hmore
  | some ℓ =>
    obtain ⟨s, -, -, hevents⟩ := h
    rw [hevents]
    obtain ⟨name, settings, history⟩ := ℓ
    cases history with
    | none =>
      cases a with
      | use _ | start => exact .created hmore
      | isStarted | drop | replace _ _ => exact hmore
    | some ops =>
      cases a with
      | use _ | start | isStarted => exact hmore
      | drop | replace _ _ => exact .released hmore

theorem Action.Lives.alternate {α : Type} {life : Option Lifetime} {actions : List (Action α)}
    {turns : List (Turn α)} (h : Lives life actions turns) :
    Alternate (life.bind Lifetime.living) (turns.flatMap Turn.life) := by
  induction h with
  | nil life => exact .nil _
  | cons first _ ih => exact first.alternate ih

namespace Session

variable {α : Type}

/-- The share that one slot has in a run is a life from this point on. -/
structure Lived (i : Nat) (life : Option Lifetime) (rs : List (Request α))
    (e : Effect (Turn α) Session) : Prop where
  /-- Every request that was served made one turn. -/
  served : e.outputs.length ≤ rs.length
  turns : Action.Lives life (asked i (rs.take e.outputs.length)) (turnsOf i rs e.outputs)
  /-- Creations and releases take turns. -/
  alternate : Alternate (life.bind Lifetime.living) ((turnsOf i rs e.outputs).flatMap Turn.life)
  ended : ∀ t, e.result = .ok t → e.outputs.length = rs.length ∧
    ∃ slot, t.slots[i]? = some slot ∧
      Slot.Holds ((asked i rs).foldl (fun life a => a.lifeAfter life) life) slot

theorem length_turnsOf (i : Nat) {rs : List (Request α)} {turns : List (Turn α)}
    (h : turns.length ≤ rs.length) :
    (turnsOf i rs turns).length = (asked i (rs.take turns.length)).length := by
  induction turns generalizing rs with
  | nil => simp [turnsOf, asked]
  | cons turn turns ih =>
    cases rs with
    | nil => simp at h
    | cons r rs =>
      have hrest := ih (Nat.le_of_succ_le_succ h)
      rw [List.length_cons, List.take_succ_cons]
      by_cases hi : r.slot = i
      · rw [turnsOf_cons_own hi, asked_cons_own hi, List.length_cons, hrest, List.length_cons]
      · rw [turnsOf_cons_other hi, asked_cons_other hi, hrest]

/-- A slot that is alone lives as it is told to, as long as no action ends the run before its
time. -/
theorem lives_alone {life : Option Lifetime} {slot : Slot} (hslot : slot.Holds life)
    (actions : List (Action α)) (hall : (alone slot actions).outputs.length = actions.length) :
    Action.Lives life actions (alone slot actions).outputs ∧
      ∀ slot', (alone slot actions).result = .ok ⟨[slot']⟩ →
        slot'.Holds (actions.foldl (fun life a => a.lifeAfter life) life) := by
  induction actions generalizing life slot with
  | nil =>
    refine ⟨.nil life, fun slot' h => ?_⟩
    obtain rfl : slot = slot' := by simpa using congrArg Session.slots (Except.ok.inj h)
    exact hslot
  | cons a rest ih =>
    obtain ⟨htold, hafter⟩ := Slot.told_act hslot a
    cases hact : (slot.act a).result with
    | error v =>
      -- The violation ends the run, so this was the last action.
      rw [alone_cons_of_error hact] at hall ⊢
      obtain rfl : rest = [] := List.length_eq_zero_iff.1 (Nat.succ.inj hall).symm
      exact ⟨.cons htold (.nil _), fun slot' h => by cases h⟩
    | ok slot' =>
      rw [alone_cons_of_ok hact] at hall ⊢
      obtain ⟨hmore, hlast⟩ := ih (hafter slot' hact) (Nat.succ.inj hall)
      exact ⟨.cons htold hmore, hlast⟩

/-- The turns of a slot of which this much is known tell its life. -/
theorem lived_run {s : Session} {i : Nat} {slot : Slot} {life : Option Lifetime}
    (hslot : s.slots[i]? = some slot) (hlife : slot.Holds life) (rs : List (Request α)) :
    Lived i life rs (run rs s) := by
  have hisolated := isolated_run hslot rs
  have hlength := length_turnsOf i hisolated.served
  rw [hisolated.turns] at hlength
  obtain ⟨hlives, hlast⟩ := lives_alone hlife _ hlength
  rw [← hisolated.turns] at hlives
  refine ⟨hisolated.served, hlives, hlives.alternate, fun t ht => ?_⟩
  obtain ⟨hall, slot', hslot', hresult⟩ := hisolated.ended t ht
  rw [hall, List.take_length] at hlast
  exact ⟨hall, slot', hslot', hlast slot' hresult⟩

/-- Whatever a session over new contexts is asked, each of its slots sees its contexts live one
after another: the first use of a context creates its store, all uses work on that store, and if
there was one, the end of the context releases it under the same name, with the number of its
messages, of its errors and of its open checkpoints. -/
theorem context_life_cycle (contexts : List (String × Settings)) (rs : List (Request α))
    (i : Fin contexts.length) :
    Lived i (some (.unused contexts[i].1 contexts[i].2)) rs
      (run rs ⟨contexts.map fun x => some (.new x.1 x.2)⟩) := by
  have hslot : (contexts.map fun x => some (Context.new x.1 x.2))[i.val]? =
      some (some (.new contexts[i].1 contexts[i].2)) := by simp
  exact lived_run hslot (Slot.holds_unused _ _) rs

/-- Looking whether a context has been used is no use of it, and a context that replaces another and
is dropped unused has nothing to release. -/
example :
    (run [⟨0, .isStarted⟩, ⟨0, .start⟩, ⟨0, .replace "b" .quiet⟩, ⟨0, .drop⟩]
        ⟨[some (.new "a" .quiet)]⟩ : Effect (Turn Unit) Session).outputs.map Turn.life =
      [[], [.created "a" false], [.released "a" 0 0 0], []] := by
  decide +kernel

end Session

end DiagnosticLog
