import DiagnosticLog.Host
import DiagnosticLog.Proofs.Isolation
import DiagnosticLog.Proofs.Misuse
import DiagnosticLog.Proofs.RollBack

/-!
Echoing has no influence on anything but the lines that it writes. Let two hosts be called for the
same, apart from what is said about echoing: the settings of the contexts, the values of the
variable, and the flags that the contexts are told. Then the same steps finish in the same turns,
with the same replies and with stores that differ in the flag alone; and if one host ends with a
violation, the other does so at the same point, and the reports are the same.

What a thing is apart from echoing is called quiet here: in its quiet form every flag is off and
every value of the variable is missing.
-/

namespace DiagnosticLog

def Operation.quiet : Operation → Operation
  | setEcho _ => setEcho false
  | changeEnvironment _ => changeEnvironment none
  | op => op

def Program.quiet {α : Type} : Program α → Program α
  | done => done
  | step op rest => step op.quiet rest.quiet
  | speculate id outcome body rest => speculate id outcome body.quiet rest.quiet

def Statement.quiet {α : Type} : Statement α → Statement α
  | operation op => operation op.quiet
  | speculate id outcome body => speculate id outcome body.quiet

def Action.quiet {α : Type} : Action α → Action α
  | use statement => use statement.quiet
  | replace name _ => replace name .quiet
  | a => a

def Request.quiet {α : Type} (r : Request α) : Request α := ⟨r.slot, r.action.quiet⟩

def Call.quiet {α : Type} : Call α → Call α
  | request r => request r.quiet
  | build slot name => build slot name

def Store.quiet (s : Store) : Store := { s with settings := .quiet }

def Context.quiet (c : Context) : Context := ⟨c.name, .quiet, c.store.map Store.quiet⟩

def Slot.quiet (slot : Slot) : Slot := slot.map Context.quiet

def Session.quiet (s : Session) : Session := ⟨s.slots.map Slot.quiet⟩

/-- The quiet form of a host is a session: the variable matters for echoing alone. -/
def Host.quiet (h : Host) : Session := h.session.quiet

def Event.quiet : Event → Event
  | created context _ => created context false
  | e => e

/-- What is put out, apart from the lines. -/
def Output.hushed? : Output → Option Output
  | line _ => none
  | event e => some (.event e.quiet)

def Happening.hushed? {α σ τ : Type} (q : σ → τ) : Happening α σ → Option (Happening α τ) :=
  view Output.hushed? q

/-- The things that happen in a turn, without its lines. -/
def Turn.hushed {α : Type} (turn : Turn α) : Turn α :=
  turn.filterMap (Happening.hushed? (Option.map Store.quiet))

namespace Effect

variable {ω ω' ω'' α β γ : Type}

theorem view_view (g : ω → Option ω') (g' : ω' → Option ω'') (f : α → β) (f' : β → γ)
    (e : Effect ω α) :
    (e.view g f).view g' f' = e.view (fun o => (g o).bind g') fun a => f' (f a) := by
  obtain ⟨outputs, result⟩ := e
  cases result <;> simp [view, List.filterMap_filterMap, Except.map]

@[simp] theorem view_some_put (outputs : List ω) :
    (put outputs).view some id = put outputs :=
  Effect.ext List.filterMap_some rfl

end Effect

namespace Store

/-- Unwinding does not look at the settings. -/
theorem view_unwind_quiet (floor : Option Nat) (s : Store) :
    (s.unwind floor).view some (Prod.map id quiet) = s.quiet.unwind floor := by
  fun_induction unwind floor s with
  | case1 s hfloor hpop => exact absurd hpop (Log.pop_ne_none_of_lt hfloor)
  | case2 s hfloor removed left hpop hless ih =>
    have hlong : floor.getD 0 < s.quiet.log.length := hfloor
    have hgroup : s.quiet.log.pop floor = some (removed, left) := hpop
    rw [unwind_of_pop hlong hgroup]
    refine Effect.view_andThen (Effect.view_some_put _) fun _ => ?_
    exact Effect.view_andThen ih fun _ => rfl
  | case3 s hfloor =>
    have hshort : s.quiet.log.length ≤ floor.getD 0 := Nat.not_lt.1 hfloor
    rw [unwind_of_length_le hshort]
    rfl

theorem view_requireTop_quiet (how : Closing) (name : String) (s : Store) :
    (s.requireTop how name).view some id = s.quiet.requireTop how name := by
  have hsame : s.quiet.checkpoints = s.checkpoints := rfl
  simp only [requireTop, hsame]
  cases s.checkpoints.expectTop name with
  | ok cp => rfl
  | error mismatch => exact Effect.ext List.filterMap_some rfl

theorem view_close_quiet (how : Closing) (name : String) (s : Store) :
    (s.close how name).view some (Prod.map id quiet) = s.quiet.close how name := by
  have hrollBack : ∀ how, (s.rollBack how name).view some (Prod.map id quiet) =
      s.quiet.rollBack how name := by
    intro how
    refine Effect.view_andThen (s.view_requireTop_quiet how name) fun cp => ?_
    refine Effect.view_andThen (s.view_unwind_quiet (some cp.depth)) fun r => ?_
    exact Effect.view_andThen (Effect.view_some_put _) fun _ => rfl
  cases how with
  | commit =>
    refine Effect.view_andThen ?_ fun _ => rfl
    exact Effect.view_andThen (s.view_requireTop_quiet .commit name) fun _ =>
      Effect.view_andThen (Effect.view_some_put _) fun _ => rfl
  | rollBack => exact Effect.view_andThen (hrollBack _) fun _ => rfl
  | rollBackPrinting => exact Effect.view_andThen (hrollBack _) fun _ => rfl

theorem view_emptyLog_quiet (how : Emptying) (s : Store) :
    (s.emptyLog how).view some (Prod.map id quiet) = s.quiet.emptyLog how := by
  unfold emptyLog
  refine Effect.view_andThen (Effect.view_some_put _) fun _ => ?_
  exact Effect.view_andThen (s.view_unwind_quiet none) fun _ => rfl

/-- What passes for a computation among stores, apart from echoing. -/
theorem view_hushed_of_view_quiet {e e' : Effect Output (Answer × Store)}
    (h : e.view some (Prod.map id quiet) = e') :
    e.view Output.hushed? (Prod.map id quiet) = e'.view Output.hushed? (Prod.map id quiet) := by
  rw [← h, Effect.view_view]
  rfl

theorem view_push_hushed (m : Message) (s : Store) :
    ((s.push m).andThen fun s => .done (Answer.nothing, s)).view Output.hushed?
        (Prod.map id quiet) =
      ((s.quiet.push m).andThen fun s => .done (Answer.nothing, s)).view Output.hushed?
        (Prod.map id quiet) := by
  cases hecho : s.settings.echo <;>
    simp [push, Effect.andThen, Effect.view, Effect.done, echoLines, hecho, Output.hushed?, quiet,
      Settings.quiet, Except.map, List.filterMap_cons, Event.quiet]

/-- Apart from echoing, a store performs an operation as it does in its quiet form. -/
theorem view_perform_quiet (op : Operation) (s : Store) :
    (s.perform op).view Output.hushed? (Prod.map id quiet) =
      (s.quiet.perform op.quiet).view Output.hushed? (Prod.map id quiet) := by
  cases op with
  | report d => exact view_push_hushed (s.focus.message d) s
  | reportAt d location => exact view_push_hushed (Message.ofDraft d (some location)) s
  | push m => exact view_push_hushed m s
  | close how name => exact view_hushed_of_view_quiet (view_close_quiet how name s)
  | drain form =>
    apply view_hushed_of_view_quiet
    exact Effect.view_andThen (view_emptyLog_quiet .drain s) fun _ => rfl
  | clear =>
    apply view_hushed_of_view_quiet
    exact Effect.view_andThen (view_emptyLog_quiet .clear s) fun _ => rfl
  | openCheckpoint _ | focusOn _ _ | currentFocus | setEcho _ | isInnermost _ | peek
  | changeEnvironment _ | reenter => rfl

end Store

/-- Two computations that differ at most in echoing: they do the same apart from it, and if they end
with a violation, they do so with the report on the same store. -/
structure Effect.Alike {α β γ σ τ : Type} (q : σ → τ) (f : β → γ)
    (e e' : Effect (Happening α σ) β) : Prop where
  seen : e.view (Happening.hushed? q) f = e'.view (Happening.hushed? q) f
  reported : ∀ v, e.result = .error v → ∃ (t : Store) (before before' : List Output),
    e.outputs.filterMap Happening.output? = before ++ t.violationOutputs v ∧
    e'.outputs.filterMap Happening.output? = before' ++ t.violationOutputs v

namespace Effect.Alike

variable {α β γ δ ε σ τ : Type} {q : σ → τ} {f : β → γ} {g : δ → ε}
  {e e' : Effect (Happening α σ) β}

theorem exists_of_ok {b : β} (h : Alike q f e e') (hb : e.result = .ok b) :
    ∃ b', e'.result = .ok b' ∧ f b = f b' := by
  have hview : (e'.view (Happening.hushed? q) f).result = .ok (f b) := by
    rw [← h.seen, view, hb]
    rfl
  obtain ⟨b', hb', hf⟩ := result_view_eq_ok hview
  exact ⟨b', hb', hf.symm⟩

theorem error {v : Violation} (h : Alike q f e e') (hv : e.result = .error v) :
    e'.result = .error v := by
  have hview : e'.result.map f = .error v := by
    calc e'.result.map f
        = (e'.view (Happening.hushed? q) f).result := rfl
      _ = e.result.map f := by rw [← h.seen, view]
      _ = .error v := by rw [hv, Except.map]
  cases hresult : e'.result with
  | error v' => simpa [hresult, Except.map] using hview
  | ok b => simp [hresult, Except.map] at hview

theorem done {b b' : β} (h : f b = f b') :
    Alike q f (Effect.done b : Effect (Happening α σ) β) (Effect.done b') where
  seen := by simp [view, Effect.done, Except.map, h]
  reported v hv := by cases hv

/-- What is done after like computations is alike if it is so for like values. -/
theorem andThen {k k' : β → Effect (Happening α σ) δ} (h : Alike q f e e')
    (hk : ∀ b b', f b = f b' → Alike q g (k b) (k' b')) :
    Alike q g (e.andThen k) (e'.andThen k') := by
  have houtputs : e.outputs.filterMap (Happening.hushed? q) =
      e'.outputs.filterMap (Happening.hushed? q) := congrArg Effect.outputs h.seen
  cases hresult : e.result with
  | error v =>
    rw [andThen_of_error hresult, andThen_of_error (h.error hresult)]
    refine ⟨?_, fun v' hv' => ?_⟩
    · simp only [view, houtputs, Except.map]
    · obtain rfl : v = v' := Except.error.inj hv'
      exact h.reported v hresult
  | ok b =>
    obtain ⟨b', hresult', hf⟩ := h.exists_of_ok hresult
    have hrest := hk b b' hf
    have hmore : (k b).outputs.filterMap (Happening.hushed? q) =
        (k' b').outputs.filterMap (Happening.hushed? q) := congrArg Effect.outputs hrest.seen
    have hlast : (k b).result.map g = (k' b').result.map g := congrArg Effect.result hrest.seen
    rw [andThen_of_ok hresult, andThen_of_ok hresult']
    refine ⟨?_, fun v hv => ?_⟩
    · simp only [view, List.filterMap_append, houtputs, hmore, hlast]
    · obtain ⟨t, before, before', hout, hout'⟩ := hrest.reported v hv
      refine ⟨t, e.outputs.filterMap Happening.output? ++ before,
        e'.outputs.filterMap Happening.output? ++ before', ?_, ?_⟩
      · rw [List.filterMap_append, hout, List.append_assoc]
      · rw [List.filterMap_append, hout', List.append_assoc]

/-- Likeness is kept by a function on the recorded states that commutes with what is compared. -/
theorem mapState {ρ υ : Type} {q' : ρ → υ} (halike : Alike q f e e') (h : σ → ρ) (h' : τ → υ)
    (hq : ∀ s, q' (h s) = h' (q s)) :
    Alike q' f (e.mapOutputs (Happening.mapState h)) (e'.mapOutputs (Happening.mapState h)) := by
  have hitem : ∀ x : Happening α σ,
      (x.mapState h).hushed? q' = (x.hushed? q).map (Happening.mapState h') := by
    intro x
    cases x with
    | output o => cases o <;> rfl
    | finished place reply state =>
      exact congrArg (fun t => some (Happening.finished place reply t)) (hq state)
  have hview : ∀ e : Effect (Happening α σ) β,
      (e.mapOutputs (Happening.mapState h)).view (Happening.hushed? q') f =
        (e.view (Happening.hushed? q) f).mapOutputs (Happening.mapState h') := by
    intro e
    simp only [view, mapOutputs, List.filterMap_map, List.map_filterMap, Function.comp_def, hitem]
  have hput : ∀ e : Effect (Happening α σ) β,
      (e.mapOutputs (Happening.mapState h)).outputs.filterMap Happening.output? =
        e.outputs.filterMap Happening.output? := by
    intro e
    rw [mapOutputs, List.filterMap_map, Happening.output?_comp_mapState]
  constructor
  · rw [hview, hview, halike.seen]
  · intro v hv
    rw [hput, hput]
    exact halike.reported v hv

end Effect.Alike

theorem Operation.eq_close_of_quiet {op : Operation} {how : Closing} {id : String}
    (h : op.quiet = .close how id) : op = .close how id := by
  cases op with
  | close how' id' => exact h
  | _ => cases h

section Runs

variable {α : Type} {s s' : Store}

/-- Like operations are alike on stores that differ only in the flag. -/
theorem alike_doing (op op' : Operation) (hop : op.quiet = op'.quiet) (hs : s.quiet = s'.quiet) :
    Effect.Alike Store.quiet (Prod.map id Store.quiet)
      (Machine.doing Store.perform op s : Effect (Happening α Store) (Answer × Store))
      (Machine.doing Store.perform op' s') where
  seen := by
    have hview : (s.perform op).view Output.hushed? (Prod.map id Store.quiet) =
        (s'.perform op').view Output.hushed? (Prod.map id Store.quiet) := by
      rw [Store.view_perform_quiet op s, Store.view_perform_quiet op' s', hs, hop]
    unfold Machine.doing Happening.hushed?
    rw [Effect.view_mapOutputs, Effect.view_mapOutputs, hview]
  reported := by
    intro v hv
    -- Only a closing fails, and what it puts out depends on the checkpoints and the messages.
    obtain ⟨how, id, rfl, htop, rfl⟩ := Store.misuse_of_perform_error hv
    obtain rfl : op' = .close how id := Operation.eq_close_of_quiet hop.symm
    have hcheckpoints : s'.checkpoints = s.checkpoints := congrArg (·.checkpoints) hs.symm
    have hlog : s'.log = s.log := congrArg (·.log) hs.symm
    have htop' : s'.checkpoints.isTop id = false := by rw [hcheckpoints, htop]
    have hput : ∀ u : Store, u.checkpoints.isTop id = false →
        (Machine.doing Store.perform (.close how id) u :
            Effect (Happening α Store) _).outputs.filterMap Happening.output? =
          u.violationOutputs (u.checkpoints.misuse how id) := by
      intro u hu
      calc _ = (u.perform (.close how id)).outputs :=
            congrArg Effect.outputs (Machine.view_doing_output (.close how id) u)
        _ = _ := by rw [Store.perform, Store.close_of_not_isTop hu]
    refine ⟨s, [], [], hput s htop, (hput s' htop').trans ?_⟩
    rw [Store.violationOutputs, hcheckpoints, hlog]
    rfl

theorem alike_finish {σ τ : Type} {q : σ → τ} {s s' : σ} (h : q s = q s') (place : List Nat)
    (reply : Reply α) :
    Effect.Alike q q (Machine.finish place reply s) (Machine.finish place reply s') where
  seen := by
    simp [Machine.finish, Effect.view, Happening.hushed?, Happening.view, Except.map, h]
  reported v hv := by cases hv

theorem alike_operate (hs : s.quiet = s'.quiet) {op op' : Operation} (hop : op.quiet = op'.quiet)
    (place : List Nat) :
    Effect.Alike Store.quiet Store.quiet
      (Machine.operate Store.perform place op s : Effect (Happening α Store) Store)
      (Machine.operate Store.perform place op' s') := by
  refine (alike_doing op op' hop hs).andThen fun r r' hr => ?_
  obtain ⟨answer, t⟩ := r
  obtain ⟨answer', t'⟩ := r'
  obtain ⟨rfl, ht⟩ := Prod.mk.inj hr
  exact alike_finish ht place (.answer answer)

theorem alike_speculate (hs : s.quiet = s'.quiet) (place : List Nat) (name : String)
    (outcome : Option α) {body body' : Store → Effect (Happening α Store) Store}
    (hbody : ∀ s s', s.quiet = s'.quiet →
      Effect.Alike Store.quiet Store.quiet (body s) (body' s')) :
    Effect.Alike Store.quiet Store.quiet
      (Machine.speculate Store.perform place name outcome body s)
      (Machine.speculate Store.perform place name outcome body' s') := by
  unfold Machine.speculate
  refine (alike_doing (.openCheckpoint name) _ rfl hs).andThen fun opened opened' hopened => ?_
  refine (hbody opened.2 opened'.2 (congrArg Prod.snd hopened)).andThen fun t t' ht => ?_
  have hclosing := alike_doing (α := α) (.close (Closing.ofOutcome outcome) name) _ rfl ht
  refine hclosing.andThen fun closed closed' hclosed => ?_
  have hlast : closed.2.quiet = closed'.2.quiet := congrArg Prod.snd hclosed
  exact alike_finish hlast place (.outcome outcome)

/-- Programs that differ at most in echoing run alike. -/
theorem alike_run {p p' : Program α} (hp : p.quiet = p'.quiet) (hs : s.quiet = s'.quiet)
    (place : List Nat) (n : Nat) :
    Effect.Alike Store.quiet Store.quiet (p.run Store.perform place n s)
      (p'.run Store.perform place n s') := by
  induction p generalizing p' place n s s' with
  | done =>
    cases p' with
    | done => exact .done hs
    | step _ _ | speculate _ _ _ _ => cases hp
  | step op rest ih =>
    cases p' with
    | step op' rest' =>
      obtain ⟨hop, hrest⟩ := Program.step.inj hp
      exact (alike_operate hs hop (place ++ [n])).andThen fun t t' ht =>
        ih hrest ht place (n + 1)
    | done | speculate _ _ _ _ => cases hp
  | speculate id outcome body rest ihBody ihRest =>
    cases p' with
    | speculate id' outcome' body' rest' =>
      obtain ⟨rfl, rfl, hbody, hrest⟩ := Program.speculate.inj hp
      have halike := alike_speculate hs (place ++ [n]) id outcome fun t t' ht =>
        ihBody hbody ht (place ++ [n]) 0
      exact halike.andThen fun t t' ht => ihRest hrest ht place (n + 1)
    | done | step _ _ => cases hp

theorem alike_statement {st st' : Statement α} (hst : st.quiet = st'.quiet)
    (hs : s.quiet = s'.quiet) (place : List Nat) :
    Effect.Alike Store.quiet Store.quiet (st.run Store.perform place s)
      (st'.run Store.perform place s') := by
  cases st with
  | operation op =>
    cases st' with
    | operation op' => exact alike_operate hs (Statement.operation.inj hst) place
    | speculate _ _ _ => cases hst
  | speculate id outcome body =>
    cases st' with
    | speculate id' outcome' body' =>
      obtain ⟨rfl, rfl, hbody⟩ := Statement.speculate.inj hst
      exact alike_speculate hs place id outcome fun t t' ht => alike_run hbody ht place 0
    | operation _ => cases hst

end Runs

section Contexts

variable {α : Type} {c c' : Context}

/-- Contexts that are the same apart from echoing have no store, or stores that are the same. -/
theorem Context.store_of_quiet (hc : c.quiet = c'.quiet) :
    c.name = c'.name ∧ c.store.map Store.quiet = c'.store.map Store.quiet := by
  obtain ⟨hname, -, hstore⟩ := Context.mk.inj hc
  exact ⟨hname, hstore⟩

theorem alike_start {σ τ : Type} (q : σ → τ) (hc : c.quiet = c'.quiet) :
    Effect.Alike q Store.quiet
      (c.start.mapOutputs .output : Effect (Happening α σ) Store)
      (c'.start.mapOutputs .output) := by
  obtain ⟨name, settings, store⟩ := c
  obtain ⟨name', settings', store'⟩ := c'
  obtain ⟨rfl, hstore⟩ := Context.store_of_quiet hc
  cases store with
  | none =>
    cases store' with
    | none => exact ⟨rfl, fun v hv => by cases hv⟩
    | some s' => cases hstore
  | some s =>
    cases store' with
    | none => cases hstore
    | some s' => exact .done (Option.some.inj hstore)

theorem alike_use (hc : c.quiet = c'.quiet) {st st' : Statement α} (hst : st.quiet = st'.quiet) :
    Effect.Alike Store.quiet Context.quiet (c.use st) (c'.use st') := by
  refine (alike_start Store.quiet hc).andThen fun s s' hs => ?_
  refine (alike_statement hst hs []).andThen fun t t' ht => .done ?_
  have hname := (Context.store_of_quiet hc).1
  simp only [Context.quiet, hname, Option.map_some, ht]

end Contexts

section Slots

variable {α : Type} {slot slot' : Slot}

theorem alike_slot_finish {β γ : Type} {f : β → γ} {b b' : β} {state state' : Option Store}
    {outputs outputs' : List Output} {reply reply' : Reply α} (houtputs : outputs = outputs')
    (hreply : reply = reply') (hstate : state.map Store.quiet = state'.map Store.quiet)
    (hb : f b = f b') :
    Effect.Alike (Option.map Store.quiet) f (Slot.finish outputs reply state b)
      (Slot.finish outputs' reply' state' b') where
  seen := by
    subst houtputs hreply
    simp [Slot.finish, Effect.view, Happening.hushed?, Happening.view, Except.map, hstate, hb]
  reported v hv := by cases hv

theorem release_of_quiet (h : slot.quiet = slot'.quiet) : slot.release = slot'.release := by
  have hself : ∀ slot : Slot, slot.release = Slot.release slot.quiet := by
    intro slot
    cases slot with
    | none => rfl
    | some c =>
      obtain ⟨name, settings, store⟩ := c
      cases store <;> rfl
  rw [hself slot, hself slot', h]

/-- Actions that are the same apart from echoing. -/
inductive Action.Like : Action α → Action α → Prop
  | use {st st' : Statement α} (h : st.quiet = st'.quiet) : Like (use st) (use st')
  | start : Like start start
  | isStarted : Like isStarted isStarted
  | drop : Like drop drop
  | replace (name : String) (settings settings' : Settings) :
    Like (replace name settings) (replace name settings')

theorem Action.like_of_quiet {a a' : Action α} (h : a.quiet = a'.quiet) : a.Like a' := by
  cases a with
  | use st =>
    cases a' with
    | use st' => exact .use (Action.use.inj h)
    | _ => cases h
  | replace name settings =>
    cases a' with
    | replace name' settings' =>
      obtain ⟨rfl, -⟩ := Action.replace.inj h
      exact .replace name settings settings'
    | _ => cases h
  | start => cases a' <;> first | exact .start | cases h
  | isStarted => cases a' <;> first | exact .isStarted | cases h
  | drop => cases a' <;> first | exact .drop | cases h

theorem alike_act (h : slot.quiet = slot'.quiet) {a a' : Action α} (ha : a.quiet = a'.quiet) :
    Effect.Alike (Option.map Store.quiet) Slot.quiet (slot.act a) (slot'.act a') := by
  have hrelease := release_of_quiet h
  cases slot with
  | none =>
    cases slot' with
    | some c' => cases h
    | none => cases Action.like_of_quiet ha <;> exact alike_slot_finish rfl rfl rfl rfl
  | some c =>
    cases slot' with
    | none => cases h
    | some c' =>
      have hc : c.quiet = c'.quiet := Option.some.inj h
      obtain ⟨hname, hstore⟩ := Context.store_of_quiet hc
      cases Action.like_of_quiet ha with
      | use hst =>
        have hused : Effect.Alike (Option.map Store.quiet) Context.quiet
            ((c.use _).mapOutputs (Happening.mapState some))
            ((c'.use _).mapOutputs (Happening.mapState some)) :=
          (alike_use hc hst).mapState some some fun _ => rfl
        exact hused.andThen fun t t' ht => .done (congrArg some ht)
      | start =>
        have hstarted := alike_start (α := α) (Option.map Store.quiet) hc
        refine hstarted.andThen fun s s' hs => ?_
        have hstate : (some s).map Store.quiet = (some s').map Store.quiet := congrArg some hs
        refine alike_slot_finish rfl rfl hstate ?_
        simp only [Slot.quiet, Context.quiet, Option.map_some, hname, hs]
      | isStarted =>
        have hstarted : c.isStarted = c'.isStarted := by
          simpa [Context.isStarted] using congrArg Option.isSome hstore
        have hreply : (.context c.name c.isStarted : Reply α) = .context c'.name c'.isStarted := by
          rw [hname, hstarted]
        exact alike_slot_finish rfl hreply rfl h
      | drop => exact alike_slot_finish hrelease rfl rfl rfl
      | replace name settings settings' => exact alike_slot_finish hrelease rfl rfl rfl

end Slots

section Hosts

variable {α : Type}

theorem alike_serve_session {s s' : Session} (hs : s.quiet = s'.quiet) {r r' : Request α}
    (hr : r.quiet = r'.quiet) :
    Effect.Alike (Option.map Store.quiet) Session.quiet (s.serve r) (s'.serve r') := by
  obtain ⟨i, a⟩ := r
  obtain ⟨i', a'⟩ := r'
  obtain ⟨rfl, ha⟩ := Request.mk.inj hr
  have hslots : s.slots.map Slot.quiet = s'.slots.map Slot.quiet := Session.mk.inj hs
  have hat : s.slots[i]?.map Slot.quiet = s'.slots[i]?.map Slot.quiet := by
    rw [← List.getElem?_map, hslots, List.getElem?_map]
  cases hslot : s.slots[i]? with
  | none =>
    have hslot' : s'.slots[i]? = none := by simpa [hslot] using hat.symm
    simp only [Session.serve, hslot, hslot']
    exact alike_slot_finish rfl rfl rfl hs
  | some slot =>
    cases hslot' : s'.slots[i]? with
    | none => simp [hslot, hslot'] at hat
    | some slot' =>
      have hquiet : slot.quiet = slot'.quiet := by simpa [hslot, hslot'] using hat
      simp only [Session.serve, hslot, hslot']
      refine (alike_act hquiet ha).andThen fun t t' ht => .done ?_
      simp only [Session.quiet, List.map_set, hslots, ht]

theorem alike_serve {h h' : Host} (hh : h.quiet = h'.quiet) {c c' : Call α}
    (hc : c.quiet = c'.quiet) :
    Effect.Alike (Option.map Store.quiet) Host.quiet (h.serve c) (h'.serve c') := by
  have hrequested : (h.requested c).quiet = (h'.requested c').quiet := by
    cases c with
    | request r =>
      cases c' with
      | request r' => exact Call.request.inj hc
      | build _ _ => cases hc
    | build slot name =>
      cases c' with
      | request _ => cases hc
      | build slot' name' =>
        obtain ⟨rfl, rfl⟩ := Call.build.inj hc
        rfl
  exact (alike_serve_session hh hrequested).andThen fun s s' hs => .done hs

namespace Host

/-- All that a run puts out. -/
def putOut (cs : List (Call α)) (h : Host) : List Output :=
  (run cs h).outputs.flatten.filterMap Happening.output?

section PutOut

variable {c : Call α} {rest : List (Call α)} {h k : Host} {v : Violation}

theorem putOut_cons_of_ok (hc : (h.serve c).result = .ok k) :
    putOut (c :: rest) h = (h.serve c).outputs.filterMap Happening.output? ++ putOut rest k := by
  rw [putOut, run_cons_of_ok hc, List.flatten_cons, List.filterMap_append]
  rfl

theorem putOut_cons_of_error (hc : (h.serve c).result = .error v) :
    putOut (c :: rest) h = (h.serve c).outputs.filterMap Happening.output? := by
  rw [putOut, run_cons_of_error hc, List.flatten_singleton]

end PutOut

/-- What two runs have in common that differ at most in echoing: the turns without their lines, how
they end, and the report if they end with a violation. -/
structure Agree (cs cs' : List (Call α)) (h h' : Host) : Prop where
  turns : (run cs h).view (fun turn => some (Turn.hushed turn)) Host.quiet =
    (run cs' h').view (fun turn => some (Turn.hushed turn)) Host.quiet
  reports : ∀ v, (run cs h).result = .error v → ∃ (t : Store) (before before' : List Output),
    putOut cs h = before ++ t.violationOutputs v ∧ putOut cs' h' = before' ++ t.violationOutputs v

/-- What is said about echoing, before a session and in the course of it, has no influence on what
the steps give back, on what is stored, or on whether and where the session is ended by a violation
and with which report. -/
theorem echo_has_no_influence {cs cs' : List (Call α)} {h h' : Host} (hh : h.quiet = h'.quiet)
    (hcs : cs.map Call.quiet = cs'.map Call.quiet) : Agree cs cs' h h' := by
  -- The variables may differ at every point, so the induction is about hosts in their quiet form.
  induction cs generalizing cs' h h' with
  | nil =>
    obtain rfl : cs' = [] := List.map_eq_nil_iff.1 hcs.symm
    refine ⟨?_, fun v hv => by cases hv⟩
    simp [run, Effect.done, Effect.view, Except.map, hh]
  | cons c rest ih =>
    obtain ⟨c', rest', rfl, hc, hrest⟩ := List.map_eq_cons_iff.1 hcs.symm
    have hserve := alike_serve hh hc.symm
    have hturn : Turn.hushed (h.serve c).outputs = Turn.hushed (h'.serve c').outputs :=
      congrArg Effect.outputs hserve.seen
    cases hresult : (h.serve c).result with
    | error v =>
      have hresult' := hserve.error hresult
      constructor
      · rw [run_cons_of_error hresult, run_cons_of_error hresult']
        simp [Effect.view, hturn, Except.map]
      · intro v' hv'
        rw [run_cons_of_error hresult] at hv'
        obtain rfl : v = v' := Except.error.inj hv'
        rw [putOut_cons_of_error hresult, putOut_cons_of_error hresult']
        exact hserve.reported v hresult
    | ok k =>
      obtain ⟨k', hresult', hk⟩ := hserve.exists_of_ok hresult
      have hagree := ih hk hrest.symm
      have hturns := congrArg Effect.outputs hagree.turns
      have hlast := congrArg Effect.result hagree.turns
      constructor
      · rw [run_cons_of_ok hresult, run_cons_of_ok hresult']
        simp only [Effect.view, List.filterMap_cons, hturn] at hturns hlast ⊢
        rw [hturns, hlast]
      · intro v hv
        rw [run_cons_of_ok hresult] at hv
        obtain ⟨t, before, before', hout, hout'⟩ := hagree.reports v hv
        rw [putOut_cons_of_ok hresult, putOut_cons_of_ok hresult', hout, hout']
        exact ⟨t, _, _, (List.append_assoc _ _ _).symm, (List.append_assoc _ _ _).symm⟩

end Host

end Hosts

/-- A host of two contexts, of which the first echoes or not. -/
def Host.ofTwo (echo : Bool) (environment : Option ByteArray) : Host :=
  ⟨environment, ⟨[some (.new "main" ⟨echo⟩), some (.new "other" .quiet)]⟩⟩

/-- Calls that a violation ends. The flag is told to a context in an attempt that fails, and the
value is that of the variable when another context is built. -/
def wavering (echo : Bool) (value : Option ByteArray) : List (Call Unit) :=
  [.request ⟨0, .use (.speculate "c" none
      (.step (.push (.bare "a")) <|
        .speculate "c" (some ()) (.step (.push (.bare "b")) <| .step (.setEcho echo) .done) .done))⟩,
    .request ⟨1, .use (.operation (.changeEnvironment value))⟩,
    .build 1 "late",
    .request ⟨1, .use (.operation (.push (.bare "c")))⟩,
    .request ⟨0, .use (.speculate "c" (some ())
      (.step (.openCheckpoint "d") <| .step (.push (.bare "d")) .done))⟩]

/-- The report that ends these calls, whatever the flag and the value. -/
def waveringReport : List String :=
  Dump.lines (.notInnermost .commit "c" "d") [⟨"d", 0⟩, ⟨"c", 0⟩] [.bare "d"]

theorem echo_has_no_influence_wavering :
    (Host.ofTwo true none).quiet = (Host.ofTwo false (some "1".toUTF8)).quiet ∧
    (wavering false (some "on".toUTF8)).map Call.quiet = (wavering true none).map Call.quiet ∧
    Transcript.lines ((Host.ofTwo true none).putOut (wavering false (some "on".toUTF8))) =
      "a" :: "b" :: "c" :: waveringReport ∧
    Transcript.lines ((Host.ofTwo false (some "1".toUTF8)).putOut (wavering true none)) =
      "d" :: waveringReport ∧
    Host.Agree (wavering false (some "on".toUTF8)) (wavering true none) (.ofTwo true none)
      (.ofTwo false (some "1".toUTF8)) := by
  refine ⟨rfl, rfl, ?_, ?_, Host.echo_has_no_influence rfl rfl⟩
  · decide +kernel
  · decide +kernel

end DiagnosticLog
