import DiagnosticLog.Host
import DiagnosticLog.Proofs.Isolation
import DiagnosticLog.Proofs.Misuse
import DiagnosticLog.Proofs.PlainView

/-!
What a session writes to its sink. A context echoes a message exactly if its flag is on at the
moment when the message is pushed. The flag is the one that the context was built with, from given
settings or from the environment as it was then, until the context itself is told to change it;
neither the environment nor what becomes of the messages has any influence. Apart from that, a
session writes only the report on the violation that ends it.

So the lines are told by a voice for each context, which knows the component in focus and the flag
and hears of nothing but the operations (`Host.echo_exact`). The voices also tell whether a
statement runs at all, and with it what the environment is at each moment, so they tell what the
session of a host is asked for; its slots are as isolated as those of a session
(`Host.slots_isolated`).
-/

namespace DiagnosticLog

/-- What decides which lines a context writes. -/
structure Voice where
  focus : Focus
  echo : Bool
  deriving DecidableEq

namespace Voice

def ofSettings (settings : Settings) : Voice := ⟨.nowhere, settings.echo⟩

/-- The full text of the message that the operation pushes, if the flag is on. -/
def lines (op : Operation) (v : Voice) : List String :=
  if v.echo then ((op.pushed? v.focus).map Message.fullText).toList else []

def after (op : Operation) (v : Voice) : Voice :=
  match op with
  | .focusOn name location => { v with focus := .on name location }
  | .setEcho echo => { v with echo := echo }
  | _ => v

def linesOf : List Operation → Voice → List String
  | [], _ => []
  | op :: rest, v => v.lines op ++ linesOf rest (v.after op)

def afterAll (ops : List Operation) (v : Voice) : Voice := ops.foldl (fun v op => v.after op) v

end Voice

namespace Store

def voice (s : Store) : Voice := ⟨s.focus, s.settings.echo⟩

theorem lines_push (m : Message) (s : Store) :
    Transcript.lines (s.push m).outputs = if s.settings.echo then [m.fullText] else [] := by
  cases hecho : s.settings.echo <;>
    simp [push, echoLines, hecho, Transcript.lines, Output.line?, List.filterMap_cons]

theorem voice_closeTop (how : Closing) (cp : Checkpoint) (outer : List Checkpoint) (s : Store) :
    (s.closeTop how cp outer).2.voice = s.voice := by
  cases how <;> rfl

/-- An operation that completes writes what its voice says. -/
theorem lines_perform {op : Operation} {s t : Store} {a : Answer}
    (h : (s.perform op).result = .ok (a, t)) :
    Transcript.lines (s.perform op).outputs = s.voice.lines op ∧ t.voice = s.voice.after op := by
  have hpushed : ∀ m, Transcript.lines
      ((s.push m).andThen fun s => .done (Answer.nothing, s)).outputs =
        if s.settings.echo then [m.fullText] else [] := by
    intro m
    rw [← lines_push]
    exact congrArg Transcript.lines (List.append_nil _)
  have hemptied : ∀ how (f : List Message → Answer), Transcript.lines
      ((s.emptyLog how).andThen fun r => .done (f r.1, r.2)).outputs = [] := by
    intro how f
    have hresult : (s.emptyLog how).result = .ok (s.log.messages, { s with log := s.log.cut 0 }) := by
      rw [emptyLog_eq]
    rw [Effect.andThen_of_ok hresult, ← emptyLog_lines how s]
    exact congrArg Transcript.lines (List.append_nil _)
  -- All but the pushes put out events alone, and their voice has no line whatever the flag is.
  cases op with
  | report d | reportAt d location | push m =>
    obtain ⟨-, rfl⟩ := Prod.mk.inj (Except.ok.inj h)
    exact ⟨hpushed _, rfl⟩
  | close how id =>
    obtain ⟨cp, outer, htop, rfl, hr⟩ := top_of_close h
    obtain rfl : t = (s.closeTop how cp outer).2 := congrArg Prod.snd hr
    refine ⟨?_, voice_closeTop how cp outer s⟩
    rw [Transcript.lines, perform, close_lines htop how]
    exact (ite_self _).symm
  | drain form =>
    rw [perform, emptyLog_eq] at h
    obtain ⟨-, rfl⟩ := Prod.mk.inj (Except.ok.inj h)
    exact ⟨(hemptied .drain form.present).trans (ite_self _).symm, rfl⟩
  | clear =>
    rw [perform, emptyLog_eq] at h
    obtain ⟨-, rfl⟩ := Prod.mk.inj (Except.ok.inj h)
    exact ⟨(hemptied .clear fun _ => .nothing).trans (ite_self _).symm, rfl⟩
  | openCheckpoint _ | focusOn _ _ | currentFocus | setEcho _ | isInnermost _ | peek
  | changeEnvironment _ | reenter =>
    obtain ⟨-, rfl⟩ := Prod.mk.inj (Except.ok.inj h)
    exact ⟨(ite_self _).symm, rfl⟩

/-- An operation that fails writes the report on the store and nothing else. -/
theorem lines_perform_of_error {op : Operation} {s : Store} {v : Violation}
    (h : (s.perform op).result = .error v) :
    Transcript.lines (s.perform op).outputs =
      Dump.lines v s.checkpoints.innermostFirst s.log.messages := by
  obtain ⟨how, id, rfl, htop, rfl⟩ := misuse_of_perform_error h
  rw [perform, close_of_not_isTop htop how]
  exact lines_violationOutputs _ s

/-- What is written when one of these operations fails on the store: what is heard of those before
it, and the report. -/
def Breaks (s : Store) (ops : List Operation) (v : Violation) (lines : List String) : Prop :=
  ∃ done op left u, ops = done ++ op :: left ∧
    (Machine.performAll perform done s).result = .ok u ∧ (u.perform op).result = .error v ∧
    lines = s.voice.linesOf done ++ Dump.lines v u.checkpoints.innermostFirst u.log.messages

theorem Breaks.cons {s t : Store} {op : Operation} {a : Answer} {ops : List Operation}
    {v : Violation} {lines : List String} (hop : (s.perform op).result = .ok (a, t))
    (hvoice : t.voice = s.voice.after op) (h : t.Breaks ops v lines) :
    s.Breaks (op :: ops) v (s.voice.lines op ++ lines) := by
  obtain ⟨done, failing, left, u, rfl, hdone, hfail, rfl⟩ := h
  refine ⟨op :: done, failing, left, u, rfl, ?_, hfail, ?_⟩
  · exact Effect.result_andThen_eq_ok_iff.2 ⟨_, hop, hdone⟩
  · rw [hvoice, Voice.linesOf, List.append_assoc]

/-- What is written when these operations are performed on the store, and how they end: all of them
are heard, or one fails. -/
structure Tells (s : Store) (ops : List Operation) (lines : List String)
    (result : Except Violation Store) : Prop where
  ended : ∀ t, result = .ok t → lines = s.voice.linesOf ops ∧ t.voice = s.voice.afterAll ops
  violated : ∀ v, result = .error v → s.Breaks ops v lines

theorem lines_append (xs ys : List Output) :
    Transcript.lines (xs ++ ys) = Transcript.lines xs ++ Transcript.lines ys :=
  List.filterMap_append

theorem tells_performAll (ops : List Operation) (s : Store) :
    s.Tells ops (Transcript.lines (Machine.performAll perform ops s).outputs)
      (Machine.performAll perform ops s).result := by
  induction ops generalizing s with
  | nil =>
    refine ⟨fun t ht => ?_, fun v hv => by cases hv⟩
    obtain rfl : s = t := Except.ok.inj ht
    exact ⟨rfl, rfl⟩
  | cons op rest ih =>
    cases hfirst : (s.perform op).result with
    | error v =>
      have hall : Machine.performAll perform (op :: rest) s = ⟨(s.perform op).outputs, .error v⟩ :=
        Effect.andThen_of_error hfirst _
      rw [hall, lines_perform_of_error hfirst]
      refine ⟨fun t ht => (by cases ht), fun v' hv => ?_⟩
      obtain rfl : v = v' := Except.error.inj hv
      exact ⟨[], op, rest, s, rfl, rfl, hfirst, rfl⟩
    | ok r =>
      obtain ⟨a, t⟩ := r
      obtain ⟨hlines, hvoice⟩ := lines_perform hfirst
      have hall : Machine.performAll perform (op :: rest) s =
          ⟨(s.perform op).outputs ++ (Machine.performAll perform rest t).outputs,
            (Machine.performAll perform rest t).result⟩ := Effect.andThen_of_ok hfirst _
      rw [hall, lines_append, hlines]
      refine ⟨fun u hu => ?_, fun v hv => .cons hfirst hvoice ((ih t).violated v hv)⟩
      obtain ⟨hmore, hlast⟩ := (ih t).ended u hu
      rw [hvoice] at hmore hlast
      exact ⟨congrArg (s.voice.lines op ++ ·) hmore, hlast⟩

end Store

/-- The operations that a statement performs, in order, if none of them fails. -/
def Statement.operations {α : Type} : Statement α → List Operation
  | operation op => [op]
  | speculate id outcome body =>
    .openCheckpoint id :: (body.operations ++ [.close (Closing.ofOutcome outcome) id])

theorem Statement.view_run_operations {α σ : Type} {m : Machine σ} (statement : Statement α)
    (place : List Nat) (s : σ) :
    (statement.run m place s).view Happening.output? id =
      m.performAll statement.operations s := by
  cases statement with
  | operation op => exact Machine.view_operate_output place op s
  | speculate id outcome body =>
    exact Machine.view_speculate_output place id outcome
      (fun s => body.view_run_operations place 0 s) s

theorem Statement.result_run {α σ : Type} {m : Machine σ} (statement : Statement α)
    (place : List Nat) (s : σ) :
    (statement.run m place s).result = (m.performAll statement.operations s).result := by
  rw [← statement.view_run_operations place s, Effect.result_view_id]

/-- The lines that a computation writes. -/
def Effect.lines {α β σ : Type} (e : Effect (Happening α σ) β) : List String :=
  Transcript.lines (e.outputs.filterMap Happening.output?)

theorem Effect.lines_mapState {α β σ τ : Type} (f : σ → τ) (e : Effect (Happening α σ) β) :
    (e.mapOutputs (Happening.mapState f)).lines = e.lines := by
  rw [Effect.lines, mapOutputs, List.filterMap_map, Happening.output?_comp_mapState]
  rfl

namespace Context

variable {α : Type}

/-- The store that the context has or is about to have. -/
def current (c : Context) : Store := c.store.getD (.new c.settings)

def voice (c : Context) : Voice := c.current.voice

/-- Creating a store writes no line. -/
theorem start_eq (c : Context) :
    c.start.result = .ok c.current ∧ Transcript.lines c.start.outputs = [] := by
  obtain ⟨name, settings, store⟩ := c
  cases store <;> exact ⟨rfl, rfl⟩

theorem view_use (statement : Statement α) (c : Context) :
    (c.use statement).view Happening.output? id =
      c.start.andThen fun s =>
        (Machine.performAll Store.perform statement.operations s).andThen fun s =>
          .done { c with store := some s } := by
  refine Effect.view_andThen (Effect.view_mapOutputs_output c.start) fun s => ?_
  exact Effect.view_andThen (statement.view_run_operations [] s) fun _ => rfl

/-- A context writes what its store writes. -/
theorem use_eq (statement : Statement α) (c : Context) :
    (c.use statement).lines =
        Transcript.lines (Machine.performAll Store.perform statement.operations c.current).outputs ∧
      (c.use statement).result =
        (Machine.performAll Store.perform statement.operations c.current).result.map fun s =>
          { c with store := some s } := by
  obtain ⟨hstart, hsilent⟩ := c.start_eq
  have huse := c.view_use statement
  rw [Effect.andThen_of_ok hstart, Effect.andThen_done] at huse
  constructor
  · calc (c.use statement).lines
        = Transcript.lines ((c.use statement).view Happening.output? id).outputs := rfl
      _ = _ := by rw [huse, Store.lines_append, hsilent, List.nil_append]
  · rw [← Effect.result_view_id Happening.output? (c.use statement), huse]

end Context

namespace Action

variable {α : Type}

/-- What is heard of a slot that has this voice. -/
def lines (voice : Option Voice) : Action α → List String
  | use statement => (voice.map fun v => v.linesOf statement.operations).getD []
  | _ => []

@[simp] theorem lines_none (a : Action α) : a.lines none = [] := by
  cases a <;> rfl

/-- The voice of the slot afterwards. A new context has the voice of its settings. -/
def voiceAfter (voice : Option Voice) : Action α → Option Voice
  | use statement => voice.map fun v => v.afterAll statement.operations
  | drop => none
  | replace _ settings => some (.ofSettings settings)
  | start | isStarted => voice

end Action

namespace Slot

variable {α : Type}

def voice (slot : Slot) : Option Voice := slot.map Context.voice

theorem lines_finish {β : Type} (outputs : List Output) (reply : Reply α) (state : Option Store)
    (b : β) : (finish outputs reply state b).lines = Transcript.lines outputs := by
  simp [finish, Effect.lines, List.filterMap_append, List.filterMap_map, Happening.output?,
    List.filterMap_cons, Function.comp_def]

theorem lines_release (slot : Slot) : Transcript.lines slot.release = [] := by
  cases slot with
  | none => rfl
  | some c =>
    obtain ⟨name, settings, store⟩ := c
    cases store <;> rfl

/-- What a request to a slot writes and leaves, unless a statement breaks off in it. -/
structure Tells (slot : Slot) (action : Action α) (e : Effect (Happening α (Option Store)) Slot) :
    Prop where
  ended : ∀ slot', e.result = .ok slot' →
    e.lines = action.lines slot.voice ∧ slot'.voice = action.voiceAfter slot.voice
  violated : ∀ v, e.result = .error v →
    ∃ c statement, slot = some c ∧ action = .use statement ∧
      c.current.Breaks statement.operations v e.lines

theorem tells_use (statement : Statement α) (c : Context) :
    Tells (some c) (.use statement) (act (.use statement) (some c)) := by
  obtain ⟨huse, hresult⟩ := c.use_eq statement
  have hact : act (.use statement) (some c) =
      ⟨((c.use statement).mapOutputs (Happening.mapState some)).outputs,
        (c.use statement).result.map some⟩ := Effect.andThen_done _ _
  -- A session records the states in another form, which is no matter for the lines.
  have hlines : (act (.use statement) (some c)).lines = (c.use statement).lines := by
    rw [← Effect.lines_mapState some (c.use statement), hact]
    rfl
  have htells := Store.tells_performAll statement.operations c.current
  rw [← huse, ← hlines] at htells
  cases hall : (Machine.performAll Store.perform statement.operations c.current).result with
  | error v =>
    rw [hact, hresult, hall]
    refine ⟨fun slot' h => (by cases h), fun v' h => ?_⟩
    obtain rfl : v = v' := Except.error.inj h
    have hbreaks := htells.violated v hall
    rw [hact] at hbreaks
    exact ⟨c, statement, rfl, rfl, hbreaks⟩
  | ok t =>
    rw [hact, hresult, hall]
    refine ⟨fun slot' h => ?_, fun v h => (by cases h)⟩
    obtain rfl : some { c with store := some t } = slot' := Except.ok.inj h
    obtain ⟨hheard, hvoice⟩ := htells.ended t hall
    rw [hact] at hheard
    exact ⟨hheard, congrArg some hvoice⟩

/-- A request that does not run a statement writes nothing. -/
theorem tells_finish {slot slot' : Slot} {action : Action α} {outputs : List Output}
    {reply : Reply α} {state : Option Store} (hsilent : Transcript.lines outputs = [])
    (hlines : action.lines slot.voice = []) (hvoice : slot'.voice = action.voiceAfter slot.voice) :
    slot.Tells action (finish outputs reply state slot') where
  ended slot'' h := by
    obtain rfl : slot' = slot'' := Except.ok.inj h
    rw [lines_finish, hsilent, hlines]
    exact ⟨rfl, hvoice⟩
  violated v h := by cases h

theorem tells_act (action : Action α) (slot : Slot) : slot.Tells action (slot.act action) := by
  cases slot with
  | none => cases action <;> exact tells_finish rfl rfl rfl
  | some c =>
    cases action with
    | use statement => exact tells_use statement c
    | start =>
      obtain ⟨hstart, hsilent⟩ := c.start_eq
      have hmapped : (c.start.mapOutputs
          (.output : Output → Happening α (Option Store))).result = .ok c.current := hstart
      have hact : act (.start : Action α) (some c) =
          finish c.start.outputs (.answer .nothing) (some c.current)
            (some { c with store := some c.current }) := Effect.andThen_of_ok hmapped _
      rw [hact]
      exact tells_finish hsilent rfl rfl
    | isStarted => exact tells_finish rfl rfl rfl
    | drop => exact tells_finish (lines_release _) rfl rfl
    | replace name settings => exact tells_finish (lines_release _) rfl rfl

end Slot

/-- What decides which lines a host writes: the variable of the environment, and the voice of each
slot that has a context. -/
structure Stage where
  environment : Option ByteArray
  voices : List (Option Voice)

namespace Stage

variable {α : Type}

def voiceOf (slot : Nat) (g : Stage) : Option Voice := g.voices[slot]?.join

def environmentAfter (r : Request α) (g : Stage) : Option ByteArray :=
  match r.action, g.voiceOf r.slot with
  | .use statement, some _ => statement.environmentAfter g.environment
  | _, _ => g.environment

def lines (c : Call α) (g : Stage) : List String :=
  match c with
  | .request r => r.action.lines (g.voiceOf r.slot)
  | .build _ _ => []

def after (c : Call α) (g : Stage) : Stage :=
  match c with
  | .request r =>
    ⟨g.environmentAfter r, g.voices.modify r.slot fun voice => r.action.voiceAfter voice⟩
  | .build slot _ =>
    { g with
      voices := g.voices.modify slot fun _ => some (.ofSettings (.ofEnvironment g.environment)) }

def linesOf : List (Call α) → Stage → List String
  | [], _ => []
  | c :: rest, g => g.lines c ++ linesOf rest (g.after c)

def afterAll (cs : List (Call α)) (g : Stage) : Stage := cs.foldl (fun g c => g.after c) g

/-- What the session of a host is asked for by a call. -/
def requested (g : Stage) : Call α → Request α
  | .request r => r
  | .build slot name => ⟨slot, .replace name (.ofEnvironment g.environment)⟩

/-- What the session is asked for by calls one after another. -/
def requestsOf : List (Call α) → Stage → List (Request α)
  | [], _ => []
  | c :: rest, g => g.requested c :: requestsOf rest (g.after c)

end Stage

namespace Host

variable {α : Type}

def stage (h : Host) : Stage := ⟨h.environment, h.session.slots.map Slot.voice⟩

theorem voiceOf_stage (slot : Nat) (h : Host) :
    h.stage.voiceOf slot = (h.session.slots[slot]?).bind Slot.voice := by
  cases hslot : h.session.slots[slot]? <;> simp [stage, Stage.voiceOf, hslot]

theorem environmentAfter_stage (r : Request α) (h : Host) :
    h.stage.environmentAfter r = h.environmentAfter r := by
  obtain ⟨i, action⟩ := r
  simp only [Stage.environmentAfter, voiceOf_stage, environmentAfter]
  cases action with
  | use statement =>
    cases h.session.slots[i]? with
    | none => rfl
    | some slot => cases slot <;> rfl
  | start | isStarted | drop | replace name settings => rfl

/-- What a request writes and leaves, unless a statement breaks off in it. -/
theorem serve_request_tells (r : Request α) (h : Host) :
    (∀ k, (h.serve (.request r)).result = .ok k →
      (h.serve (.request r)).lines = h.stage.lines (.request r) ∧
        k.stage = h.stage.after (.request r)) ∧
    ∀ v, (h.serve (.request r)).result = .error v → ∃ statement context,
      r.action = .use statement ∧ h.session.slots[r.slot]? = some (some context) ∧
      context.current.Breaks statement.operations v (h.serve (.request r)).lines := by
  cases hslot : h.session.slots[r.slot]? with
  | none =>
    have hserve : h.serve (.request r) =
        ⟨[.finished [] .vacant none], .ok ⟨h.environmentAfter r, h.session⟩⟩ := by
      rw [serve_eq, requested, Session.serve_of_vacant hslot]
      rfl
    rw [hserve]
    refine ⟨fun k hk => ?_, fun v hv => by cases hv⟩
    obtain rfl := Except.ok.inj hk
    have hlines : h.stage.lines (.request r) = [] := by
      simp [Stage.lines, voiceOf_stage, hslot]
    have hlength : h.stage.voices.length ≤ r.slot := by
      simpa [stage] using List.getElem?_eq_none_iff.1 hslot
    rw [hlines, Stage.after, List.modify_eq_self hlength, environmentAfter_stage]
    exact ⟨rfl, rfl⟩
  | some slot =>
    have hserve : h.serve (.request r) = ⟨(slot.act r.action).outputs,
        (slot.act r.action).result.map fun slot =>
          ⟨h.environmentAfter r, ⟨h.session.slots.set r.slot slot⟩⟩⟩ := by
      rw [serve_eq, requested, Session.serve_of_slot hslot]
      cases (slot.act r.action).result <;> rfl
    have htells := slot.tells_act r.action
    cases hact : (slot.act r.action).result with
    | error v =>
      rw [hserve, hact]
      refine ⟨fun k hk => (by cases hk), fun v' hv => ?_⟩
      obtain rfl : v = v' := Except.error.inj hv
      obtain ⟨c, statement, rfl, haction, hbreaks⟩ := htells.violated v hact
      exact ⟨statement, c, haction, rfl, hbreaks⟩
    | ok slot' =>
      rw [hserve, hact]
      refine ⟨fun k hk => ?_, fun v hv => (by cases hv)⟩
      obtain rfl := Except.ok.inj hk
      obtain ⟨hlines, hvoice⟩ := htells.ended slot' hact
      have hheard : h.stage.lines (.request r) = r.action.lines slot.voice := by
        simp [Stage.lines, voiceOf_stage, hslot]
      have hvoices : h.stage.voices.modify r.slot (fun voice => r.action.voiceAfter voice) =
          (h.session.slots.set r.slot slot').map Slot.voice := by
        simp [List.modify_eq_set, stage, hslot, List.map_set, hvoice]
      rw [hheard, ← hlines, Stage.after, hvoices, environmentAfter_stage]
      exact ⟨rfl, rfl⟩

/-- Building a context is replacing it by one with the settings of the moment. -/
theorem serve_tells (c : Call α) (h : Host) :
    (∀ k, (h.serve c).result = .ok k →
      (h.serve c).lines = h.stage.lines c ∧ k.stage = h.stage.after c) ∧
    ∀ v, (h.serve c).result = .error v → ∃ slot statement context,
      c = .request ⟨slot, .use statement⟩ ∧ h.session.slots[slot]? = some (some context) ∧
      context.current.Breaks statement.operations v (h.serve c).lines := by
  cases c with
  | request r =>
    obtain ⟨hended, hviolated⟩ := h.serve_request_tells r
    refine ⟨hended, fun v hv => ?_⟩
    obtain ⟨slot, action⟩ := r
    obtain ⟨statement, context, rfl, hslot, hbreaks⟩ := hviolated v hv
    exact ⟨slot, statement, context, rfl, hslot, hbreaks⟩
  | build slot name =>
    obtain ⟨hended, hviolated⟩ :=
      h.serve_request_tells (⟨slot, .replace name (.ofEnvironment h.environment)⟩ : Request α)
    refine ⟨hended, fun v hv => ?_⟩
    obtain ⟨statement, context, haction, -⟩ := hviolated v hv
    cases haction

theorem requested_stage (c : Call α) (h : Host) : h.stage.requested c = h.requested c := by
  cases c <;> rfl

/-- A host does what its session does when it is asked for each context with the settings of the
moment. -/
theorem view_run (cs : List (Call α)) (h : Host) :
    (run cs h).view some Host.session = Session.run (h.stage.requestsOf cs) h.session := by
  induction cs generalizing h with
  | nil => rfl
  | cons c rest ih =>
    have hserve := serve_eq c h
    rw [Stage.requestsOf, requested_stage]
    cases hresult : (h.session.serve (h.requested c)).result with
    | error v =>
      have hfailed : (h.serve c).result = .error v := by
        rw [hserve, hresult]
        rfl
      rw [run_cons_of_error hfailed, Session.run_cons_of_error hresult, hserve]
      rfl
    | ok session =>
      have hserved : (h.serve c).result = .ok ⟨h.environmentAfter (h.requested c), session⟩ := by
        rw [hserve, hresult]
        rfl
      -- The stage goes along with the host, so it also tells what the rest asks for.
      have hstage := ((h.serve_tells c).1 _ hserved).2
      have hrest := ih ⟨h.environmentAfter (h.requested c), session⟩
      rw [hstage] at hrest
      rw [run_cons_of_ok hserved, Session.run_cons_of_ok hresult, ← hrest, hserve]
      rfl

/-- All that a run writes to the sink. -/
def sink (cs : List (Call α)) (h : Host) : List String := (run cs h).outputs.flatMap Turn.lines

section Sink

variable {c : Call α} {rest : List (Call α)} {h k : Host} {v : Violation}

theorem sink_cons_of_ok (hc : (h.serve c).result = .ok k) :
    h.sink (c :: rest) = (h.serve c).lines ++ k.sink rest := by
  rw [sink, run_cons_of_ok hc]
  rfl

theorem sink_cons_of_error (hc : (h.serve c).result = .error v) :
    h.sink (c :: rest) = (h.serve c).lines := by
  rw [sink, run_cons_of_error hc]
  exact List.append_nil _

end Sink

/-- The slots of a host do not notice one another. A context that is built takes its settings from
the environment of the moment, which may have been changed in any slot; with these settings, the
share of each slot is what it would be alone, and the lines in the sink are those that the slots
would have written to sinks of their own. -/
theorem slots_isolated (cs : List (Call α)) (h : Host) (i : Fin h.session.slots.length) :
    Session.Isolated i h.session.slots[i] (h.stage.requestsOf cs)
        ((run cs h).view some Host.session) ∧
      (Session.signedLines (h.stage.requestsOf cs) (run cs h).outputs).map Prod.snd = h.sink cs ∧
      ((Session.signedLines (h.stage.requestsOf cs) (run cs h).outputs).filter
          fun x => x.1 = i.val).map Prod.snd =
        (Session.alone h.session.slots[i] (Session.asked i
          ((h.stage.requestsOf cs).take (run cs h).outputs.length))).outputs.flatMap Turn.lines := by
  have hslot : h.session.slots[i.val]? = some h.session.slots[i] := by simp
  have hisolated := Session.isolated_run hslot (h.stage.requestsOf cs)
  rw [← view_run] at hisolated
  have houtputs : ((run cs h).view some Host.session).outputs = (run cs h).outputs :=
    List.filterMap_some
  have hsigned := hisolated.signed
  rw [houtputs] at hsigned
  exact ⟨hisolated, hsigned⟩

/-- What is in the sink when a statement breaks off: what was heard before in its turn and in the
turns before it, and the report. -/
def Breaks (h : Host) (cs : List (Call α)) (v : Violation) (lines : List String) : Prop :=
  ∃ before slot statement after k c broken,
    cs = before ++ .request ⟨slot, .use statement⟩ :: after ∧
    (run before h).result = .ok k ∧ k.session.slots[slot]? = some (some c) ∧
    (h.stage.afterAll before).voiceOf slot = some c.current.voice ∧
    c.current.Breaks statement.operations v broken ∧ lines = h.stage.linesOf before ++ broken

theorem Breaks.first {h : Host} {slot : Nat} {statement : Statement α} {context : Context}
    {v : Violation} {lines : List String} (hslot : h.session.slots[slot]? = some (some context))
    (hbroken : context.current.Breaks statement.operations v lines) (rest : List (Call α)) :
    h.Breaks (.request ⟨slot, .use statement⟩ :: rest) v lines := by
  have hvoice : h.stage.voiceOf slot = some context.current.voice := by
    rw [voiceOf_stage, hslot]
    rfl
  exact ⟨[], slot, statement, rest, h, context, lines, rfl, rfl, hslot, hvoice, hbroken, rfl⟩

theorem Breaks.cons {c : Call α} {cs : List (Call α)} {h k : Host} {v : Violation}
    {lines : List String} (hc : (h.serve c).result = .ok k) (hstage : k.stage = h.stage.after c)
    (hbreaks : k.Breaks cs v lines) : h.Breaks (c :: cs) v (h.stage.lines c ++ lines) := by
  obtain ⟨before, slot, statement, after, last, context, broken, rfl, hrun, hslot, hvoice, hbroken,
    rfl⟩ := hbreaks
  rw [hstage] at hvoice ⊢
  refine ⟨c :: before, slot, statement, after, last, context, broken, rfl, ?_, hslot, hvoice,
    hbroken, ?_⟩
  · rw [run_cons_of_ok hc, hrun]
  · rw [Stage.linesOf, List.append_assoc]

/-- Whatever a host is called for, what is in the sink is what is heard of the operations: the full
text of each message that was pushed in a context whose flag was on, in the order of the pushes. If
the session ends with a violation, the report comes after the lines of the pushes before it. -/
theorem echo_exact (cs : List (Call α)) (h : Host) :
    (∀ k, (run cs h).result = .ok k →
      h.sink cs = h.stage.linesOf cs ∧ k.stage = h.stage.afterAll cs) ∧
    ∀ v, (run cs h).result = .error v → h.Breaks cs v (h.sink cs) := by
  -- The stage goes along with the host from call to call, so it need not look at it again.
  induction cs generalizing h with
  | nil =>
    refine ⟨fun k hk => ?_, fun v hv => by cases hv⟩
    obtain rfl : h = k := Except.ok.inj hk
    exact ⟨rfl, rfl⟩
  | cons c rest ih =>
    obtain ⟨hended, hviolated⟩ := h.serve_tells c
    cases hserve : (h.serve c).result with
    | error v =>
      obtain ⟨slot, statement, context, rfl, hslot, hbroken⟩ := hviolated v hserve
      rw [sink_cons_of_error hserve, run_cons_of_error hserve]
      refine ⟨fun k hk => (by cases hk), fun v' hv => ?_⟩
      obtain rfl : v = v' := Except.error.inj hv
      exact .first hslot hbroken rest
    | ok k =>
      obtain ⟨hlines, hstage⟩ := hended k hserve
      obtain ⟨ihEnded, ihViolated⟩ := ih k
      rw [sink_cons_of_ok hserve, run_cons_of_ok hserve, hlines]
      refine ⟨fun last hlast => ?_, fun v hv => .cons hserve hstage (ihViolated v hv)⟩
      obtain ⟨hrest, hafter⟩ := ihEnded last hlast
      rw [hrest, hafter, hstage]
      exact ⟨rfl, rfl⟩

end Host

/-- The variable is read when the context is built, and a message is heard although the attempt that
pushes it fails. -/
example : (⟨some "on".toUTF8, [none]⟩ : Stage).linesOf
    ([.build 0 "main", .request ⟨0, .use (.operation (.changeEnvironment none))⟩,
      .request ⟨0, .use (.speculate "c" none
        (.step (.push ⟨0, .syntactic, .error, "a", [], none⟩) .done))⟩] : List (Call Unit)) =
      ["a"] := by
  decide +kernel

end DiagnosticLog
