import DiagnosticLog.Proofs.Flattening

/-!
The parts of a program: its steps, and the openings and closings of its speculations. Each part
performs one operation, and a run carries out the parts in their order. What a run records are the
parts that finish a step, with what they give back and the state that they lead to
(`Program.exists_carries`, `Machine.Carries.run`). No step of a program has its place in common with
another part.
-/

namespace DiagnosticLog

inductive Part (α : Type)
  | step (place : List Nat) (op : Operation)
  | opening (place : List Nat) (id : String)
  | closing (place : List Nat) (id : String) (outcome : Option α)

deriving instance DecidableEq for Reply

/-- A step that has finished: where it stands, what it gave back, and the state after it. -/
structure Finish (α σ : Type) where
  place : List Nat
  reply : Reply α
  state : σ
  deriving DecidableEq

/-- A part that has been carried out, with the answer of its operation and the state after it. -/
structure Deed (α σ : Type) where
  part : Part α
  answer : Answer
  state : σ

namespace Part

variable {α σ : Type}

def place : Part α → List Nat
  | step place _ | opening place _ | closing place _ _ => place

def operation : Part α → Operation
  | step _ op => op
  | opening _ id => .openCheckpoint id
  | closing _ id outcome => .close (Closing.ofOutcome outcome) id

/-- The step that the part finishes. The opening of a speculation finishes none. -/
def finish? (answer : Answer) (state : σ) : Part α → Option (Finish α σ)
  | step place _ => some ⟨place, .answer answer, state⟩
  | opening _ _ => none
  | closing place _ outcome => some ⟨place, .outcome outcome, state⟩

/-- What the part does, wherever it stands. -/
def placeless : Part α → Part α
  | step _ op => step [] op
  | opening _ id => opening [] id
  | closing _ id outcome => closing [] id outcome

def isStep : Part α → Bool
  | step .. => true
  | _ => false

theorem operation_placeless (x : Part α) : x.placeless.operation = x.operation := by
  cases x <;> rfl

end Part

def Deed.finish? {α σ : Type} (d : Deed α σ) : Option (Finish α σ) :=
  d.part.finish? d.answer d.state

namespace Program

variable {α : Type}

/-- The parts of a program whose first step is step `n` of those at this place, in order. -/
def parts (place : List Nat) : Nat → Program α → List (Part α)
  | _, done => []
  | n, step op rest => .step (place ++ [n]) op :: rest.parts place (n + 1)
  | n, speculate id outcome body rest =>
    .opening (place ++ [n]) id :: (body.parts (place ++ [n]) 0 ++
      .closing (place ++ [n]) id outcome :: rest.parts place (n + 1))

theorem map_operation_parts (p : Program α) (place : List Nat) (n : Nat) :
    (p.parts place n).map Part.operation = p.operations := by
  induction p generalizing place n with
  | done => rfl
  | step op rest ih => simp [parts, operations, Part.operation, ih]
  | speculate id outcome body rest ihBody ihRest =>
    simp [parts, operations, Part.operation, ihBody, ihRest]

theorem place_of_mem_parts {p : Program α} {place : List Nat} {n : Nat} {x : Part α}
    (hx : x ∈ p.parts place n) : ∃ k inside, n ≤ k ∧ x.place = place ++ k :: inside := by
  induction p generalizing place n with
  | done => cases hx
  | step op rest ih =>
    rcases List.mem_cons.1 hx with rfl | hx
    · exact ⟨n, [], Nat.le_refl n, rfl⟩
    · obtain ⟨k, inside, hk, hplace⟩ := ih hx
      exact ⟨k, inside, Nat.le_of_succ_le hk, hplace⟩
  | speculate id outcome body rest ihBody ihRest =>
    rcases List.mem_cons.1 hx with rfl | hx
    · exact ⟨n, [], Nat.le_refl n, rfl⟩
    rcases List.mem_append.1 hx with hx | hx
    · obtain ⟨k, inside, -, hplace⟩ := ihBody hx
      exact ⟨n, k :: inside, Nat.le_refl n, by simp [hplace]⟩
    rcases List.mem_cons.1 hx with rfl | hx
    · exact ⟨n, [], Nat.le_refl n, rfl⟩
    · obtain ⟨k, inside, hk, hplace⟩ := ihRest hx
      exact ⟨k, inside, Nat.le_of_succ_le hk, hplace⟩

/-- What stands at or inside step `n` has another place than what comes after that step. -/
theorem place_ne_of_mem_rest {rest : Program α} {place inside : List Nat} {n : Nat} {y : Part α}
    (hy : y ∈ rest.parts place (n + 1)) : place ++ n :: inside ≠ y.place := by
  obtain ⟨k, more, hk, hplace⟩ := place_of_mem_parts hy
  rw [hplace]
  intro heq
  obtain ⟨rfl, -⟩ := List.cons.inj (List.append_cancel_left heq)
  exact Nat.lt_irrefl n hk

/-- Two parts of a program that have one place are the opening and the closing of a speculation. -/
theorem pairwise_place_ne (p : Program α) (place : List Nat) (n : Nat) :
    (p.parts place n).Pairwise fun x y =>
      x.isStep = true ∨ y.isStep = true → x.place ≠ y.place := by
  induction p generalizing place n with
  | done => exact .nil
  | step op rest ih =>
    exact List.pairwise_cons.2 ⟨fun y hy _ => place_ne_of_mem_rest hy, ih place (n + 1)⟩
  | speculate id outcome body rest ihBody ihRest =>
    have hbody : ∀ x ∈ body.parts (place ++ [n]) 0, ∃ inside, inside ≠ [] ∧
        x.place = place ++ n :: inside := by
      intro x hx
      obtain ⟨k, inside, -, hplace⟩ := place_of_mem_parts hx
      exact ⟨k :: inside, List.cons_ne_nil _ _, by simp [hplace]⟩
    have hinside : ∀ x ∈ body.parts (place ++ [n]) 0, place ++ [n] ≠ x.place := by
      intro x hx heq
      obtain ⟨inside, hne, hplace⟩ := hbody x hx
      rw [hplace] at heq
      exact hne (List.cons.inj (List.append_cancel_left heq)).2.symm
    refine List.pairwise_cons.2 ⟨fun y hy hstep => ?_, List.pairwise_append.2
      ⟨ihBody (place ++ [n]) 0, List.pairwise_cons.2 ⟨fun y hy _ => place_ne_of_mem_rest hy,
        ihRest place (n + 1)⟩, fun x hx y hy _ => ?_⟩⟩
    · rcases List.mem_append.1 hy with hy | hy
      · exact hinside y hy
      rcases List.mem_cons.1 hy with rfl | hy
      · rcases hstep with hstep | hstep <;> cases hstep
      · exact place_ne_of_mem_rest hy
    · rcases List.mem_cons.1 hy with rfl | hy
      · exact (hinside x hx).symm
      · obtain ⟨inside, -, hplace⟩ := hbody x hx
        rw [hplace]
        exact place_ne_of_mem_rest hy

end Program

section Finishes

variable {α β γ σ : Type} {m : Machine σ}

def Happening.finish? : Happening α σ → Option (Finish α σ)
  | output _ => none
  | finished place reply state => some ⟨place, reply, state⟩

/-- The steps that a run finishes, in order. -/
def Effect.finishes (e : Effect (Happening α σ) β) : List (Finish α σ) :=
  e.outputs.filterMap Happening.finish?

theorem Effect.finishes_andThen {e : Effect (Happening α σ) β} {b : β} (h : e.result = .ok b)
    (k : β → Effect (Happening α σ) γ) :
    (e.andThen k).finishes = e.finishes ++ (k b).finishes :=
  filterMap_outputs_andThen Happening.finish? h k

theorem Machine.finishes_doing (op : Operation) (s : σ) :
    (m.doing op s : Effect (Happening α σ) (Answer × σ)).finishes = [] := by
  simp [Effect.finishes, doing, Effect.mapOutputs, Happening.finish?, Function.comp_def]

theorem Machine.operate_of_ok {place : List Nat} {op : Operation} {s t : σ} {a : Answer}
    (h : (m op s).result = .ok (a, t)) :
    (m.operate place op s : Effect (Happening α σ) σ).result = .ok t ∧
      (m.operate place op s : Effect (Happening α σ) σ).finishes = [⟨place, .answer a, t⟩] := by
  have hdoing : (m.doing op s : Effect (Happening α σ) _).result = .ok (a, t) := h
  refine ⟨Effect.result_andThen_eq_ok_iff.2 ⟨_, hdoing, rfl⟩, ?_⟩
  rw [operate, Effect.bind_eq, Effect.finishes_andThen hdoing, finishes_doing]
  rfl

theorem Machine.speculate_of_ok {place : List Nat} {name : String} {outcome : Option α}
    {body : σ → Effect (Happening α σ) σ} {s t u v : σ} {a b : Answer}
    (hopened : (m (.openCheckpoint name) s).result = .ok (a, u)) (hbody : (body u).result = .ok v)
    (hclosed : (m (.close (Closing.ofOutcome outcome) name) v).result = .ok (b, t)) :
    (m.speculate place name outcome body s).result = .ok t ∧
      (m.speculate place name outcome body s).finishes =
        (body u).finishes ++ [⟨place, .outcome outcome, t⟩] := by
  have hopen : (m.doing (.openCheckpoint name) s : Effect (Happening α σ) _).result =
      .ok (a, u) := hopened
  have hclose : (m.doing (.close (Closing.ofOutcome outcome) name) v :
      Effect (Happening α σ) _).result = .ok (b, t) := hclosed
  constructor
  · exact Effect.result_andThen_eq_ok_iff.2 ⟨_, hopen, Effect.result_andThen_eq_ok_iff.2
      ⟨_, hbody, Effect.result_andThen_eq_ok_iff.2 ⟨_, hclose, rfl⟩⟩⟩
  · simp only [speculate, Effect.bind_eq, Effect.finishes_andThen hopen,
      Effect.finishes_andThen hbody, Effect.finishes_andThen hclose, finishes_doing,
      List.nil_append]
    rfl

/-- The machine carries out the parts of these deeds one after another, with these answers and
through these states. -/
inductive Machine.Carries (m : Machine σ) : σ → List (Deed α σ) → σ → Prop
  | nil {s : σ} : Carries m s [] s
  | cons {s t : σ} {d : Deed α σ} {ds : List (Deed α σ)}
      (hfirst : (m d.part.operation s).result = .ok (d.answer, d.state))
      (hrest : Carries m d.state ds t) : Carries m s (d :: ds) t

namespace Machine.Carries

theorem cons_iff {s t : σ} {d : Deed α σ} {ds : List (Deed α σ)} :
    m.Carries s (d :: ds) t ↔
      (m d.part.operation s).result = .ok (d.answer, d.state) ∧ m.Carries d.state ds t := by
  constructor
  · intro h
    cases h with
    | cons hfirst hrest => exact ⟨hfirst, hrest⟩
  · rintro ⟨hfirst, hrest⟩
    exact .cons hfirst hrest

theorem append_iff {s t : σ} {ds es : List (Deed α σ)} :
    m.Carries s (ds ++ es) t ↔ ∃ u, m.Carries s ds u ∧ m.Carries u es t := by
  induction ds generalizing s with
  | nil =>
    constructor
    · exact fun h => ⟨s, .nil, h⟩
    · rintro ⟨u, hnil, h⟩
      cases hnil
      exact h
  | cons d ds ih =>
    constructor
    · intro h
      obtain ⟨hfirst, hrest⟩ := cons_iff.1 h
      obtain ⟨u, hds, hes⟩ := ih.1 hrest
      exact ⟨u, .cons hfirst hds, hes⟩
    · rintro ⟨u, h, hes⟩
      obtain ⟨hfirst, hds⟩ := cons_iff.1 h
      exact .cons hfirst (ih.2 ⟨u, hds, hes⟩)

/-- Parts whose operations can be performed one after another can be carried out. -/
theorem of_performAll {xs : List (Part α)} {s t : σ}
    (h : (m.performAll (xs.map Part.operation) s).result = .ok t) :
    ∃ ds, m.Carries s ds t ∧ ds.map Deed.part = xs := by
  induction xs generalizing s with
  | nil =>
    cases h
    exact ⟨[], .nil, rfl⟩
  | cons x xs ih =>
    obtain ⟨⟨a, u⟩, hfirst, hrest⟩ := Effect.result_andThen_eq_ok_iff.1 h
    obtain ⟨ds, hds, rfl⟩ := ih hrest
    exact ⟨⟨x, a, u⟩ :: ds, .cons hfirst hds, rfl⟩

/-- Carrying out all parts of a program is a run of it, which records the steps that they finish. -/
theorem run {p : Program α} {place : List Nat} {n : Nat} {s t : σ} {ds : List (Deed α σ)}
    (h : m.Carries s ds t) (hparts : ds.map Deed.part = p.parts place n) :
    (p.run m place n s).result = .ok t ∧
      (p.run m place n s).finishes = ds.filterMap Deed.finish? := by
  induction p generalizing place n s t ds with
  | done =>
    obtain rfl : ds = [] := List.map_eq_nil_iff.1 hparts
    cases h
    exact ⟨rfl, rfl⟩
  | step op rest ih =>
    obtain ⟨⟨x, a, u⟩, ds, rfl, hx, htail⟩ := List.map_eq_cons_iff.1 hparts
    obtain rfl : x = .step (place ++ [n]) op := hx
    obtain ⟨hfirst, hrest⟩ := cons_iff.1 h
    obtain ⟨hresult, hfinishes⟩ := ih hrest htail
    have hperform : (m op s).result = .ok (a, u) := hfirst
    obtain ⟨hoperate, hfinish⟩ :
        (m.operate (place ++ [n]) op s : Effect (Happening α σ) σ).result = .ok u ∧ _ :=
      operate_of_ok hperform
    refine ⟨Effect.result_andThen_eq_ok_iff.2 ⟨_, hoperate, hresult⟩, ?_⟩
    rw [Program.run, Effect.bind_eq, Effect.finishes_andThen hoperate, hfinish, hfinishes]
    rfl
  | speculate name outcome body rest ihBody ihRest =>
    obtain ⟨⟨x, a, u⟩, ds, rfl, hx, hinside⟩ := List.map_eq_cons_iff.1 hparts
    obtain rfl : x = .opening (place ++ [n]) name := hx
    obtain ⟨inner, ds, rfl, hinner, hafter⟩ := List.map_eq_append_iff.1 hinside
    obtain ⟨⟨x, b, w⟩, ds, rfl, hx, htail⟩ := List.map_eq_cons_iff.1 hafter
    obtain rfl : x = .closing (place ++ [n]) name outcome := hx
    obtain ⟨hopened, h⟩ := cons_iff.1 h
    obtain ⟨v, hbody, h⟩ := append_iff.1 h
    obtain ⟨hclosed, hrest⟩ := cons_iff.1 h
    obtain ⟨hbodyResult, hbodyFinishes⟩ := ihBody hbody hinner
    obtain ⟨hresult, hfinishes⟩ := ihRest hrest htail
    have hclose : (m (.close (Closing.ofOutcome outcome) name) v).result = .ok (b, w) := hclosed
    obtain ⟨hspeculate, hfinish⟩ : (m.speculate (place ++ [n]) name outcome
        (body.run m (place ++ [n]) 0) s).result = .ok w ∧ _ :=
      speculate_of_ok hopened hbodyResult hclose
    refine ⟨Effect.result_andThen_eq_ok_iff.2 ⟨_, hspeculate, hresult⟩, ?_⟩
    rw [Program.run, Effect.bind_eq, Effect.finishes_andThen hspeculate, hfinish, hbodyFinishes,
      hfinishes]
    simp [Deed.finish?, Part.finish?, List.filterMap_cons]

end Machine.Carries

/-- A run that ends has carried out all parts of the program. -/
theorem Program.exists_carries {p : Program α} {place : List Nat} {n : Nat} {s t : σ}
    (h : (p.run m place n s).result = .ok t) :
    ∃ ds, m.Carries s ds t ∧ ds.map Deed.part = p.parts place n ∧
      (p.run m place n s).finishes = ds.filterMap Deed.finish? := by
  rw [result_run, ← map_operation_parts p place n] at h
  obtain ⟨ds, hcarries, hparts⟩ := Machine.Carries.of_performAll h
  exact ⟨ds, hcarries, hparts, (hcarries.run hparts).2⟩

end Finishes

end DiagnosticLog
