import DiagnosticLog.Proofs.Parts
import DiagnosticLog.Proofs.RollBack
import Mathlib.Data.List.Forall2
import Mathlib.Data.List.Pairwise

/-!
Committing is transparent. A step that opens a checkpoint and the step that commits it can both be
left out of a program, wherever they stand in it: what comes between them, and what comes after,
works as before. Between the two, the stores of the two runs differ in the one checkpoint, which
lies beneath whatever is opened later; nothing closes it there, so all that is closed is innermost
in both. Afterwards they differ at most in the name that was committed last.
-/

namespace DiagnosticLog

/-- Whether the part is a step at one of these places. -/
def Part.isAmong {α : Type} (places : List (List Nat)) (x : Part α) : Bool :=
  x.isStep && places.contains x.place

namespace Program

variable {α : Type}

/-- The program without its steps at these places. -/
def without (places : List (List Nat)) (place : List Nat) : Nat → Program α → Program α
  | _, done => done
  | n, step op rest =>
    if places.contains (place ++ [n]) then rest.without places place (n + 1)
    else step op (rest.without places place (n + 1))
  | n, speculate id outcome body rest =>
    speculate id outcome (body.without places (place ++ [n]) 0)
      (rest.without places place (n + 1))

/-- What is left of a program does what the parts that are left did, at other places. -/
theorem map_placeless_parts_without (places : List (List Nat)) (p : Program α)
    (place place' : List Nat) (n n' : Nat) :
    ((p.without places place n).parts place' n').map Part.placeless =
      ((p.parts place n).filter fun x => !x.isAmong places).map Part.placeless := by
  induction p generalizing place place' n n' with
  | done => rfl
  | step op rest ih =>
    by_cases hdropped : places.contains (place ++ [n]) = true
    · have hamong : (Part.step (place ++ [n]) op : Part α).isAmong places = true := by
        simpa [Part.isAmong, Part.isStep, Part.place] using hdropped
      rw [without, if_pos hdropped, parts, List.filter_cons_of_neg (by simp [hamong])]
      exact ih place place' (n + 1) n'
    · have hamong : (Part.step (place ++ [n]) op : Part α).isAmong places = false := by
        simpa [Part.isAmong, Part.isStep, Part.place] using hdropped
      rw [without, if_neg hdropped, parts, parts, List.filter_cons_of_pos (by simp [hamong]),
        List.map_cons, List.map_cons, ih place place' (n + 1) (n' + 1)]
      rfl
  | speculate id outcome body rest ihBody ihRest =>
    simp only [without, parts, List.map_cons, List.map_append]
    rw [List.filter_cons_of_pos (by rfl), List.filter_append,
      List.filter_cons_of_pos (by rfl), List.map_cons, List.map_append, List.map_cons,
      ihBody (place ++ [n]) (place' ++ [n']) 0 0, ihRest place place' (n + 1) (n' + 1)]
    rfl

theorem eq_of_place_eq {p : Program α} {place : List Nat} {n : Nat} {x y : Part α}
    (hx : x ∈ p.parts place n) (hy : y ∈ p.parts place n) (hstep : x.isStep = true)
    (hplace : x.place = y.place) : x = y := by
  by_contra hne
  have hsymm : Std.Symm fun x y : Part α =>
      x.isStep = true ∨ y.isStep = true → x.place ≠ y.place :=
    ⟨fun x y h hstep heq => h hstep.symm heq.symm⟩
  exact (p.pairwise_place_ne place n).forall hx hy hne (.inl hstep) hplace

/-- Leaving out two steps leaves out nothing else. -/
theorem filter_isAmong_pair {p : Program α} {place : List Nat} {n : Nat} {u v : Part α}
    {xs ys zs : List (Part α)} (hparts : p.parts place n = xs ++ u :: (ys ++ v :: zs))
    (hu : u.isStep = true) (hv : v.isStep = true) :
    ((p.parts place n).filter fun x => !x.isAmong [u.place, v.place]) = xs ++ (ys ++ zs) := by
  have hapart := p.pairwise_place_ne place n
  rw [hparts] at hapart ⊢
  obtain ⟨-, hrest, hxs⟩ := List.pairwise_append.1 hapart
  obtain ⟨hufar, hrest⟩ := List.pairwise_cons.1 hrest
  obtain ⟨-, hrest, hys⟩ := List.pairwise_append.1 hrest
  have hvfar := (List.pairwise_cons.1 hrest).1
  have hkept : ∀ {x : Part α}, x.place ≠ u.place → x.place ≠ v.place →
      (!x.isAmong [u.place, v.place]) = true := by
    intro x hxu hxv
    simp [Part.isAmong, hxu, hxv]
  have hkeptxs : ∀ x ∈ xs, (!x.isAmong [u.place, v.place]) = true := fun x hx =>
    hkept (hxs x hx u (by simp) (.inr hu)) (hxs x hx v (by simp) (.inr hv))
  have hkeptys : ∀ x ∈ ys, (!x.isAmong [u.place, v.place]) = true := fun x hx =>
    hkept (hufar x (by simp [hx]) (.inl hu)).symm (hys x hx v (by simp) (.inr hv))
  have hkeptzs : ∀ x ∈ zs, (!x.isAmong [u.place, v.place]) = true := fun x hx =>
    hkept (hufar x (by simp [hx]) (.inl hu)).symm (hvfar x hx (.inl hv)).symm
  have huamong : u.isAmong [u.place, v.place] = true := by simp [Part.isAmong, hu]
  have hvamong : v.isAmong [u.place, v.place] = true := by simp [Part.isAmong, hv]
  rw [List.filter_append, List.filter_cons_of_neg (by simp [huamong]), List.filter_append,
    List.filter_cons_of_neg (by simp [hvamong]), List.filter_eq_self.2 hkeptxs,
    List.filter_eq_self.2 hkeptys, List.filter_eq_self.2 hkeptzs]

end Program

/-- The stores differ at most in some checkpoints on top of `base` that only the first one has, and
in the name that was committed last. -/
structure Store.Beside (extra base : List Checkpoint) (s s' : Store) : Prop where
  log : s'.log = s.log
  focus : s'.focus = s.focus
  settings : s'.settings = s.settings
  checkpoints : ∃ inner, s.checkpoints.innermostFirst = inner ++ (extra ++ base) ∧
    s'.checkpoints.innermostFirst = inner ++ base

namespace Store.Beside

variable {extra base : List Checkpoint} {s s' : Store}

theorem refl (s : Store) : Beside [] [] s s where
  log := rfl
  focus := rfl
  settings := rfl
  checkpoints := ⟨s.checkpoints.innermostFirst, by simp, by simp⟩

theorem innermostFirst_eq (h : Beside [] [] s s') :
    s'.checkpoints.innermostFirst = s.checkpoints.innermostFirst := by
  obtain ⟨inner, hs, hs'⟩ := h.checkpoints
  rw [hs, hs']
  rfl

theorem closeTop (h : Beside extra base s s') (how : Closing) (cp : Checkpoint)
    (inner : List Checkpoint) :
    (s'.closeTop how cp (inner ++ base)).1 = (s.closeTop how cp (inner ++ (extra ++ base))).1 ∧
      Beside extra base (s.closeTop how cp (inner ++ (extra ++ base))).2
        (s'.closeTop how cp (inner ++ base)).2 := by
  cases how with
  | commit => exact ⟨rfl, h.log, h.focus, h.settings, inner, rfl, rfl⟩
  | rollBack =>
    exact ⟨rfl, congrArg (Log.cut cp.depth) h.log, h.focus, h.settings, inner, rfl, rfl⟩
  | rollBackPrinting =>
    refine ⟨?_, congrArg (Log.cut cp.depth) h.log, h.focus, h.settings, inner, rfl, rfl⟩
    simp only [Store.closeTop, h.log]

/-- A checkpoint that is opened on the first store only is then the extra one. -/
theorem opened (h : Beside [] [] s s') (id : String) :
    Beside [⟨id, s.log.length⟩] s.checkpoints.innermostFirst
      { s with checkpoints := s.checkpoints.push id s.log.length } s' where
  log := h.log
  focus := h.focus
  settings := h.settings
  checkpoints := ⟨[], rfl, h.innermostFirst_eq⟩

/-- An operation on the first store only that commits and leaves what lies beneath the extra
checkpoint has committed this one. -/
theorem committed {cp : Checkpoint} (h : Beside [cp] base s s') {id : String} {a : Answer}
    {t : Store} (hperform : (s.perform (.close .commit id)).result = .ok (a, t))
    (hlen : t.checkpoints.length = base.length) : Beside [] [] t s' := by
  obtain ⟨top, outer, htop, rfl, hr⟩ := top_of_close hperform
  obtain rfl : t = (s.closeTop .commit top outer).2 := congrArg Prod.snd hr
  rw [Checkpoints.length, innermostFirst_closeTop] at hlen
  obtain ⟨inner, hs, hs'⟩ := h.checkpoints
  have hcount := congrArg List.length (htop.symm.trans hs)
  simp only [List.length_cons, List.length_append, List.length_nil] at hcount
  obtain rfl : inner = [] := List.length_eq_zero_iff.1 (by omega)
  obtain ⟨-, rfl⟩ := List.cons.inj (htop.symm.trans hs)
  exact ⟨h.log, h.focus, h.settings, outer, by simp, by simpa using hs'⟩

/-- Operations do the same on both stores, as long as none closes the extra checkpoints, and answer
the same unless they ask which one is innermost. -/
theorem perform (h : Beside extra base s s') {op : Operation} {a : Answer} {t : Store}
    (hperform : (s.perform op).result = .ok (a, t))
    (hopen : ∀ how id, op = .close how id →
      extra.length + base.length ≤ t.checkpoints.length) :
    ∃ b t', (s'.perform op).result = .ok (b, t') ∧ ((∀ id, op ≠ .isInnermost id) → b = a) ∧
      Beside extra base t t' := by
  cases op with
  | report d | reportAt d location | push m =>
    obtain ⟨rfl, rfl⟩ := Prod.mk.inj (Except.ok.inj hperform)
    refine ⟨_, _, rfl, fun _ => rfl, ⟨?_, h.focus, h.settings, h.checkpoints⟩⟩
    simp only [h.log, h.focus]
  | openCheckpoint id =>
    obtain ⟨rfl, rfl⟩ := Prod.mk.inj (Except.ok.inj hperform)
    obtain ⟨inner, hs, hs'⟩ := h.checkpoints
    refine ⟨_, _, rfl, fun _ => rfl, ⟨h.log, h.focus, h.settings, ?_⟩⟩
    refine ⟨⟨id, s.log.length⟩ :: inner, ?_, ?_⟩
    · simp [Checkpoints.push, hs]
    · simp [Checkpoints.push, hs', h.log]
  | close how id =>
    obtain ⟨cp, outer, htop, rfl, hr⟩ := top_of_close hperform
    obtain rfl : a = (s.closeTop how cp outer).1 := congrArg Prod.fst hr
    obtain rfl : t = (s.closeTop how cp outer).2 := congrArg Prod.snd hr
    have hlen := hopen how cp.id rfl
    rw [Checkpoints.length, innermostFirst_closeTop] at hlen
    obtain ⟨inner, hs, hs'⟩ := h.checkpoints
    rw [htop] at hs
    cases inner with
    | nil =>
      have hcount := congrArg List.length hs
      simp only [List.nil_append, List.length_cons, List.length_append] at hcount
      omega
    | cons first inner =>
      obtain ⟨rfl, rfl⟩ := List.cons.inj hs
      obtain ⟨hanswer, hbeside⟩ := h.closeTop how cp inner
      exact ⟨_, _, close_result hs' how, fun _ => hanswer, hbeside⟩
  | drain form | clear =>
    rw [Store.perform, emptyLog_eq] at hperform
    obtain ⟨rfl, rfl⟩ := Prod.mk.inj (Except.ok.inj hperform)
    rw [Store.perform, emptyLog_eq, h.log]
    exact ⟨_, _, rfl, fun _ => rfl, ⟨rfl, h.focus, h.settings, h.checkpoints⟩⟩
  | isInnermost id =>
    obtain ⟨rfl, rfl⟩ := Prod.mk.inj (Except.ok.inj hperform)
    exact ⟨_, _, rfl, fun hask => absurd rfl (hask id), h⟩
  | focusOn name location =>
    obtain ⟨rfl, rfl⟩ := Prod.mk.inj (Except.ok.inj hperform)
    exact ⟨_, _, rfl, fun _ => rfl, ⟨h.log, rfl, h.settings, h.checkpoints⟩⟩
  | setEcho echo =>
    obtain ⟨rfl, rfl⟩ := Prod.mk.inj (Except.ok.inj hperform)
    exact ⟨_, _, rfl, fun _ => rfl, ⟨h.log, h.focus, rfl, h.checkpoints⟩⟩
  | currentFocus =>
    obtain ⟨rfl, rfl⟩ := Prod.mk.inj (Except.ok.inj hperform)
    exact ⟨_, _, rfl, fun _ => congrArg Answer.focus h.focus, h⟩
  | peek =>
    obtain ⟨rfl, rfl⟩ := Prod.mk.inj (Except.ok.inj hperform)
    exact ⟨_, _, rfl, fun _ => congrArg (fun l => Answer.messages l.messages) h.log, h⟩
  | changeEnvironment value | reenter =>
    obtain ⟨rfl, rfl⟩ := Prod.mk.inj (Except.ok.inj hperform)
    exact ⟨_, _, rfl, fun _ => rfl, h⟩

end Store.Beside

section Twins

variable {α : Type} {extra base : List Checkpoint}

/-- The deeds do the same on two stores that lie beside one another. -/
structure Deed.Twin (extra base : List Checkpoint) (d d' : Deed α Store) : Prop where
  part : d'.part.placeless = d.part.placeless
  answer : (∀ id, d.part.operation ≠ .isInnermost id) → d'.answer = d.answer
  state : d.state.Beside extra base d'.state

/-- Parts that can be carried out on a store, without closing the extra checkpoints, can be carried
out on a store without these checkpoints. -/
theorem Machine.Carries.beside {s s' t : Store} {ds : List (Deed α Store)}
    (h : Machine.Carries Store.perform s ds t) (hs : s.Beside extra base s')
    (hopen : ∀ f ∈ ds.filterMap Deed.finish?,
      extra.length + base.length ≤ f.state.checkpoints.length)
    {xs : List (Part α)} (hxs : xs.map Part.placeless = (ds.map Deed.part).map Part.placeless) :
    ∃ ds' t', Machine.Carries Store.perform s' ds' t' ∧ ds'.map Deed.part = xs ∧
      List.Forall₂ (Deed.Twin extra base) ds ds' ∧ t.Beside extra base t' := by
  induction ds generalizing s s' xs with
  | nil =>
    cases h
    obtain rfl : xs = [] := by simpa using hxs
    exact ⟨[], s', .nil, rfl, .nil, hs⟩
  | cons d ds ih =>
    obtain ⟨hfirst, hrest⟩ := Machine.Carries.cons_iff.1 h
    obtain ⟨x, xs, rfl, hx, hxs⟩ := List.map_eq_cons_iff.1 hxs
    -- An opening closes nothing, and every other part finishes a step.
    have hdeep : ∀ how id, d.part.operation = .close how id →
        extra.length + base.length ≤ d.state.checkpoints.length := by
      intro how id hclose
      obtain ⟨part, answer, state⟩ := d
      cases part with
      | opening place name => cases hclose
      | step place op => exact hopen ⟨place, .answer answer, state⟩ List.mem_cons_self
      | closing place name outcome =>
        exact hopen ⟨place, .outcome outcome, state⟩ List.mem_cons_self
    obtain ⟨b, u, hperform, hanswer, hbeside⟩ := hs.perform hfirst hdeep
    have hlater : ∀ f ∈ ds.filterMap Deed.finish?,
        extra.length + base.length ≤ f.state.checkpoints.length := by
      intro f hf
      obtain ⟨e, he, hfinish⟩ := List.mem_filterMap.1 hf
      exact hopen f (List.mem_filterMap.2 ⟨e, List.mem_cons_of_mem d he, hfinish⟩)
    obtain ⟨ds', t', hcarries, rfl, htwins, ht⟩ := ih hrest hbeside hlater hxs
    have hoperation : x.operation = d.part.operation := by
      rw [← Part.operation_placeless x, hx, Part.operation_placeless]
    rw [← hoperation] at hperform
    exact ⟨⟨x, b, u⟩ :: ds', t', .cons hperform hcarries, rfl,
      .cons ⟨hx, hanswer, hbeside⟩ htwins, ht⟩

/-- If a checkpoint is opened and later committed, with nothing in between that closes it, then the
rest can be carried out without it. -/
theorem Machine.Carries.without_pair {s t u v : Store} {x y : Part α} {a b : Answer}
    {id id' : String} {ds₁ ds₂ ds₃ : List (Deed α Store)} {xs : List (Part α)}
    (h : Machine.Carries Store.perform s (ds₁ ++ ⟨x, a, u⟩ :: (ds₂ ++ ⟨y, b, v⟩ :: ds₃)) t)
    (hx : x.operation = .openCheckpoint id) (hy : y.operation = .close .commit id')
    (hopen : ∀ f ∈ ds₂.filterMap Deed.finish?,
      u.checkpoints.length ≤ f.state.checkpoints.length)
    (hclosed : v.checkpoints.length + 1 = u.checkpoints.length)
    (hxs : xs.map Part.placeless =
      (ds₁.map Deed.part ++ (ds₂.map Deed.part ++ ds₃.map Deed.part)).map Part.placeless) :
    ∃ ds₁' ds₂' ds₃' t' cp base, Machine.Carries Store.perform s (ds₁' ++ (ds₂' ++ ds₃')) t' ∧
      (ds₁' ++ (ds₂' ++ ds₃')).map Deed.part = xs ∧
      List.Forall₂ (Deed.Twin [] []) ds₁ ds₁' ∧ List.Forall₂ (Deed.Twin [cp] base) ds₂ ds₂' ∧
      List.Forall₂ (Deed.Twin [] []) ds₃ ds₃' ∧ t.Beside [] [] t' := by
  obtain ⟨s₁, hcarries₁, h⟩ := Machine.Carries.append_iff.1 h
  obtain ⟨hopened, h⟩ := Machine.Carries.cons_iff.1 h
  obtain ⟨s₂, hcarries₂, h⟩ := Machine.Carries.append_iff.1 h
  obtain ⟨hcommitted, hcarries₃⟩ := Machine.Carries.cons_iff.1 h
  have hopens : (s₁.perform (.openCheckpoint id)).result = .ok (a, u) := hx ▸ hopened
  have hcommits : (s₂.perform (.close .commit id')).result = .ok (b, v) := hy ▸ hcommitted
  rw [List.map_append, List.map_append] at hxs
  obtain ⟨xs₁, rest, rfl, hxs₁, hrest⟩ := List.map_eq_append_iff.1 hxs
  obtain ⟨xs₂, xs₃, rfl, hxs₂, hxs₃⟩ := List.map_eq_append_iff.1 hrest
  obtain ⟨ds₁', s₁', hcarries₁', rfl, htwins₁, hs₁⟩ :=
    hcarries₁.beside (.refl s) (fun _ _ => Nat.zero_le _) hxs₁
  obtain ⟨-, rfl⟩ := Prod.mk.inj (Except.ok.inj hopens)
  have hlen : [(⟨id, s₁.log.length⟩ : Checkpoint)].length + s₁.checkpoints.innermostFirst.length =
      (s₁.checkpoints.push id s₁.log.length).length := Nat.add_comm _ _
  obtain ⟨ds₂', s₂', hcarries₂', rfl, htwins₂, hs₂⟩ :=
    hcarries₂.beside (hs₁.opened id) (fun f hf => hlen ▸ hopen f hf) hxs₂
  have hs₃ := hs₂.committed hcommits (Nat.succ.inj hclosed)
  obtain ⟨ds₃', t', hcarries₃', rfl, htwins₃, ht⟩ :=
    hcarries₃.beside hs₃ (fun _ _ => Nat.zero_le _) hxs₃
  have hcarries' := Machine.Carries.append_iff.2
    ⟨s₁', hcarries₁', Machine.Carries.append_iff.2 ⟨s₂', hcarries₂', hcarries₃'⟩⟩
  exact ⟨ds₁', ds₂', ds₃', t', _, _, hcarries', by simp, htwins₁, htwins₂, htwins₃, ht⟩

end Twins

/-- Whether the step at this place asks which checkpoint is innermost. -/
def Program.AsksAt {α : Type} (p : Program α) (place : List Nat) (n : Nat) (asking : List Nat) :
    Prop :=
  ∃ id, .step asking (.isInnermost id) ∈ p.parts place n

namespace Finish

variable {α : Type}

/-- The steps give back the same, unless the place of the first is that of a step that may be
answered otherwise, and leave the same messages, with the same count of errors, the same focus and
the same settings. -/
structure SameWork (excepted : List Nat → Prop) (f g : Finish α Store) : Prop where
  reply : ¬ excepted f.place → g.reply = f.reply
  log : g.state.log = f.state.log
  focus : g.state.focus = f.state.focus
  settings : g.state.settings = f.state.settings

/-- The steps leave the same checkpoints open. -/
def SameNesting (f g : Finish α Store) : Prop :=
  g.state.checkpoints.innermostFirst = f.state.checkpoints.innermostFirst

end Finish

section Steps

variable {α : Type} {p : Program α} {place : List Nat} {n : Nat} {extra base : List Checkpoint}

/-- Twin deeds finish steps that do the same work, or no step. -/
theorem Deed.Twin.rel_finish? {d d' : Deed α Store} (h : d.Twin extra base d')
    (hd : d.part ∈ p.parts place n) :
    Option.Rel
      (fun f g => f.SameWork (p.AsksAt place n) g ∧ f.state.Beside extra base g.state)
      d.finish? d'.finish? := by
  obtain ⟨x, a, s⟩ := d
  obtain ⟨y, b, t⟩ := d'
  have hpart : y.placeless = x.placeless := h.part
  have hstate : s.Beside extra base t := h.state
  cases x with
  | opening _ id =>
    cases y with
    | opening _ _ => exact .none
    | step _ _ | closing _ _ _ => cases hpart
  | step _ op =>
    cases y with
    | step _ op' =>
      obtain rfl : op' = op := (Part.step.inj hpart).2
      refine .some ⟨⟨fun hquiet => ?_, hstate.log, hstate.focus, hstate.settings⟩, hstate⟩
      refine congrArg Reply.answer (h.answer fun id hid => hquiet ⟨id, ?_⟩)
      exact (show op' = .isInnermost id from hid) ▸ hd
    | opening _ _ | closing _ _ _ => cases hpart
  | closing _ id outcome =>
    cases y with
    | closing _ id' outcome' =>
      obtain ⟨-, rfl, rfl⟩ := Part.closing.inj hpart
      exact .some ⟨⟨fun _ => rfl, hstate.log, hstate.focus, hstate.settings⟩, hstate⟩
    | opening _ _ | step _ _ => cases hpart

theorem forall₂_finishes {ds ds' : List (Deed α Store)}
    (h : List.Forall₂ (Deed.Twin extra base) ds ds') (hds : ∀ d ∈ ds, d.part ∈ p.parts place n) :
    List.Forall₂ (fun f g => f.SameWork (p.AsksAt place n) g ∧ f.state.Beside extra base g.state)
      (ds.filterMap Deed.finish?) (ds'.filterMap Deed.finish?) :=
  List.rel_filterMap (fun _ _ hd => hd.2.rel_finish? hd.1)
    ((List.forall₂_and_left ds ds').2 ⟨hds, h⟩)

end Steps

/-- In the run of the program on the store, the step `a` opens a checkpoint and the step `b` commits
this very checkpoint, which is open after each of the steps in between. -/
structure CommittedPair {α : Type} (p : Program α) (place : List Nat) (n : Nat) (s : Store)
    (before : List (Finish α Store)) (a : Finish α Store) (between : List (Finish α Store))
    (b : Finish α Store) (after : List (Finish α Store)) : Prop where
  steps : (p.run Store.perform place n s).finishes = before ++ a :: (between ++ b :: after)
  opens : ∃ id, .step a.place (.openCheckpoint id) ∈ p.parts place n
  commits : ∃ id, .step b.place (.close .commit id) ∈ p.parts place n
  stays : ∀ f ∈ between, a.state.checkpoints.length ≤ f.state.checkpoints.length
  closes : b.state.checkpoints.length + 1 = a.state.checkpoints.length

theorem Deed.exists_of_finishes {α σ : Type} {ds : List (Deed α σ)} {before : List (Finish α σ)}
    {f : Finish α σ} {after : List (Finish α σ)}
    (h : ds.filterMap Deed.finish? = before ++ f :: after) :
    ∃ ds₁ x a ds₂, ds = ds₁ ++ ⟨x, a, f.state⟩ :: ds₂ ∧ x.place = f.place ∧
      ds₁.filterMap Deed.finish? = before ∧ ds₂.filterMap Deed.finish? = after := by
  obtain ⟨ds₁, rest, rfl, hbefore, hrest⟩ := List.filterMap_eq_append_iff.1 h
  obtain ⟨silent, ⟨x, a, s⟩, ds₂, rfl, hsilent, hfinish, hafter⟩ :=
    List.filterMap_eq_cons_iff.1 hrest
  have hf : x.place = f.place ∧ s = f.state := by
    cases x with
    | opening place id => cases hfinish
    | step place op | closing place id outcome =>
      obtain rfl := Option.some.inj hfinish
      exact ⟨rfl, rfl⟩
  refine ⟨ds₁ ++ silent, x, a, ds₂, by simp [hf.2], hf.1, ?_, hafter⟩
  rw [List.filterMap_append, hbefore, List.filterMap_eq_nil_iff.2 hsilent, List.append_nil]

/-- If a run ends in which a step opens a checkpoint and another one commits it, then the program
without these two steps runs to its end as well. Every other step gives back the same, unless it
asks which checkpoint is innermost, and leaves the same messages and the same count of errors; and
outside the pair every step leaves the same checkpoints open. -/
theorem commit_transparent {α : Type} {p : Program α} {place : List Nat} {n : Nat} {s t : Store}
    (hrun : (p.run Store.perform place n s).result = .ok t) {a b : Finish α Store}
    {before between after : List (Finish α Store)}
    (hpair : CommittedPair p place n s before a between b after) :
    ∃ t' before' between' after',
      ((p.without [a.place, b.place] place n).run Store.perform place n s).result = .ok t' ∧
      ((p.without [a.place, b.place] place n).run Store.perform place n s).finishes =
        before' ++ (between' ++ after') ∧
      List.Forall₂ (fun f g => f.SameWork (p.AsksAt place n) g ∧ f.SameNesting g)
        before before' ∧
      List.Forall₂ (fun f g => f.SameWork (p.AsksAt place n) g) between between' ∧
      List.Forall₂ (fun f g => f.SameWork (p.AsksAt place n) g ∧ f.SameNesting g) after after' ∧
      t'.log = t.log ∧ t'.checkpoints.innermostFirst = t.checkpoints.innermostFirst := by
  obtain ⟨ds, hcarries, hparts, hfinishes⟩ := Program.exists_carries hrun
  obtain ⟨ds₁, u, answer, rest, rfl, huplace, rfl, hrest⟩ :=
    Deed.exists_of_finishes (hfinishes.symm.trans hpair.steps)
  obtain ⟨ds₂, v, answer', ds₃, rfl, hvplace, rfl, rfl⟩ := Deed.exists_of_finishes hrest
  simp only [List.map_append, List.map_cons] at hparts
  -- The two deeds are those of the two steps, because their places are.
  obtain ⟨id, hopens⟩ := hpair.opens
  obtain ⟨id', hcommits⟩ := hpair.commits
  obtain rfl := Program.eq_of_place_eq hopens (by simp [← hparts]) rfl huplace.symm
  obtain rfl := Program.eq_of_place_eq hcommits (by simp [← hparts]) rfl hvplace.symm
  -- What is left does what the other parts did.
  have hleft := (p.map_placeless_parts_without [a.place, b.place] place place n n).trans
    (congrArg (List.map Part.placeless) (Program.filter_isAmong_pair hparts.symm rfl rfl))
  obtain ⟨ds₁', ds₂', ds₃', t', cp, base, hcarries', hparts', htwins₁, htwins₂, htwins₃, ht⟩ :=
    hcarries.without_pair rfl rfl hpair.stays hpair.closes hleft
  obtain ⟨hresult, hfinishes'⟩ := hcarries'.run hparts'
  have hmem : ∀ {es : List (Deed α Store)}, (∀ d ∈ es, d ∈ ds₁ ∨ d ∈ ds₂ ∨ d ∈ ds₃) →
      ∀ d ∈ es, d.part ∈ p.parts place n := by
    intro es hes d hd
    rw [← hparts]
    rcases hes d hd with h | h | h <;> simp [List.mem_map_of_mem h]
  have hsame₁ := forall₂_finishes htwins₁ (hmem fun d hd => .inl hd)
  have hsame₂ := forall₂_finishes htwins₂ (hmem fun d hd => .inr (.inl hd))
  have hsame₃ := forall₂_finishes htwins₃ (hmem fun d hd => .inr (.inr hd))
  refine ⟨t', ds₁'.filterMap Deed.finish?, ds₂'.filterMap Deed.finish?,
    ds₃'.filterMap Deed.finish?, hresult, ?_, ?_, ?_, ?_, ht.log, ht.innermostFirst_eq⟩
  · rw [hfinishes', List.filterMap_append, List.filterMap_append]
  · exact hsame₁.imp fun f g h => ⟨h.1, h.2.innermostFirst_eq⟩
  · exact hsame₂.imp fun f g h => h.1
  · exact hsame₃.imp fun f g h => ⟨h.1, h.2.innermostFirst_eq⟩

/-- A program in which a checkpoint is opened before a speculation of the same name and committed
inside it, after the checkpoint of the speculation has been committed by hand. A further one of the
name takes its place. -/
def straddling : Program Unit :=
  .step (.push (.bare "a")) <| .step (.openCheckpoint "c") <| .step (.openCheckpoint "c") <|
    .step (.push (.bare "a")) <|
      .speculate "c" (some ())
        (.step (.push (.bare "b")) <| .step (.close .commit "c") <|
          .step (.close .commit "c") <| .step (.openCheckpoint "c") .done) <|
        .step (.close .rollBackPrinting "c") .done

/-- Its step that opens the checkpoint. -/
def straddlingOpening : Finish Unit Store :=
  ⟨[2], .answer .nothing, ⟨⟨[.bare "a"], 1⟩, ⟨[⟨"c", 1⟩, ⟨"c", 1⟩], ""⟩, .nowhere, .quiet⟩⟩

/-- Its step that commits the checkpoint. -/
def straddlingCommit : Finish Unit Store :=
  ⟨[4, 2], .answer .nothing,
    ⟨⟨[.bare "b", .bare "a", .bare "a"], 3⟩, ⟨[⟨"c", 1⟩], "c"⟩, .nowhere, .quiet⟩⟩

theorem commit_transparent_straddling :
    ∃ t before between after,
      (straddling.run Store.perform [] 0 (.new .quiet)).result = .ok t ∧
      CommittedPair straddling [] 0 (.new .quiet) before straddlingOpening between
        straddlingCommit after ∧
      after.map Finish.reply =
        [.answer .nothing, .outcome (some ()), .answer (.text "a\nb")] ∧
      ∃ t' before' between' after',
        ((straddling.without [[2], [4, 2]] [] 0).run Store.perform [] 0
          (.new .quiet)).result = .ok t' ∧
        ((straddling.without [[2], [4, 2]] [] 0).run Store.perform [] 0
          (.new .quiet)).finishes = before' ++ (between' ++ after') ∧
        List.Forall₂ (fun f g => f.SameWork (straddling.AsksAt [] 0) g ∧ f.SameNesting g)
          before before' ∧
        List.Forall₂ (fun f g => f.SameWork (straddling.AsksAt [] 0) g) between between' ∧
        List.Forall₂ (fun f g => f.SameWork (straddling.AsksAt [] 0) g ∧ f.SameNesting g)
          after after' ∧
        t'.log = t.log ∧ t'.checkpoints.innermostFirst = t.checkpoints.innermostFirst := by
  have hrun : (straddling.run Store.perform [] 0 (.new .quiet)).result =
      .ok ⟨⟨[.bare "a"], 1⟩, ⟨[], "c"⟩, .nowhere, .quiet⟩ := by
    apply Effect.result_of_toOption
    decide +kernel
  have hpair : CommittedPair straddling [] 0 (.new .quiet)
      ((straddling.run Store.perform [] 0 (.new .quiet)).finishes.take 2) straddlingOpening
      (((straddling.run Store.perform [] 0 (.new .quiet)).finishes.drop 3).take 3)
      straddlingCommit ((straddling.run Store.perform [] 0 (.new .quiet)).finishes.drop 7) :=
    { steps := by decide +kernel
      opens := ⟨"c", by simp [straddling, Program.parts, straddlingOpening]⟩
      commits := ⟨"c", by simp [straddling, Program.parts, straddlingCommit]⟩
      stays := by decide +kernel
      closes := rfl }
  exact ⟨_, _, _, _, hrun, hpair, by decide +kernel, commit_transparent hrun hpair⟩

end DiagnosticLog
