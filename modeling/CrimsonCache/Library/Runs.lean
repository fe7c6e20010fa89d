import Mathlib.Init

/-!
Runs of a deterministic system whose steps have a precondition on the state
they are taken in. What one step preserves, every admitted run preserves; an
invariant may also speak about the history of the run, its steps with the
states they were taken in.
-/

namespace Runs

universe u v
variable {State : Type u} {Step : Type v}
variable (allowed : State → Step → Prop) (step : State → Step → State)

def run (start : State) (steps : List Step) : State := steps.foldl step start

/-- Each step of the run is allowed in the state it is taken in. -/
def Admitted : State → List Step → Prop
  | _, [] => True
  | state, next :: rest => allowed state next ∧ Admitted (step state next) rest

instance decidableAdmitted [∀ state next, Decidable (allowed state next)] :
    ∀ (start : State) (steps : List Step), Decidable (Admitted allowed step start steps)
  | _, [] => .isTrue trivial
  | start, next :: rest =>
      have := decidableAdmitted (step start next) rest
      inferInstanceAs (Decidable (_ ∧ _))

theorem run_append (start : State) (first second : List Step) :
    run step start (first ++ second) = run step (run step start first) second :=
  List.foldl_append

theorem run_snoc (start : State) (steps : List Step) (last : Step) :
    run step start (steps ++ [last]) = step (run step start steps) last :=
  run_append step start steps [last]

theorem admitted_append (start : State) (first second : List Step) :
    Admitted allowed step start (first ++ second) ↔
      Admitted allowed step start first ∧
        Admitted allowed step (run step start first) second := by
  induction first generalizing start with
  | nil => simp [Admitted, run]
  | cons next rest ih =>
      simp only [List.cons_append, Admitted, ih, and_assoc]
      rfl

theorem admitted_and (other : State → Step → Prop) (start : State) (steps : List Step) :
    Admitted (fun state next => allowed state next ∧ other state next) step start steps ↔
      Admitted allowed step start steps ∧ Admitted other step start steps := by
  induction steps generalizing start with
  | nil => simp [Admitted]
  | cons next rest ih =>
      simp only [Admitted, ih]
      constructor
      · rintro ⟨⟨first, second⟩, left, right⟩
        exact ⟨⟨first, left⟩, second, right⟩
      · rintro ⟨⟨first, left⟩, second, right⟩
        exact ⟨⟨first, second⟩, left, right⟩

theorem admitted_each (kind : Step → Prop) (start : State) (steps : List Step)
    (each : ∀ next ∈ steps, kind next) : Admitted (fun _ next => kind next) step start steps := by
  induction steps generalizing start with
  | nil => trivial
  | cons next rest ih =>
      rw [List.forall_mem_cons] at each
      exact ⟨each.1, ih (step start next) each.2⟩

theorem run_invariant {Invariant : State → Prop}
    (preserved : ∀ state next, Invariant state → allowed state next → Invariant (step state next))
    (start : State) (holds : Invariant start) (steps : List Step)
    (admitted : Admitted allowed step start steps) : Invariant (run step start steps) := by
  induction steps generalizing start with
  | nil => exact holds
  | cons next rest ih =>
      rcases admitted with ⟨first, later⟩
      exact ih (step start next) (preserved start next holds first) later

def trace : State → List Step → List (State × Step)
  | _, [] => []
  | state, next :: rest => (state, next) :: trace (step state next) rest

/-- The steps of a run stand in its trace with the states that the prefixes reach. -/
theorem trace_prefix (start : State) (steps before : List Step) (next : Step)
    (inside : before ++ [next] <+: steps) : (run step start before, next) ∈ trace step start steps := by
  induction before generalizing start steps with
  | nil =>
      rcases inside with ⟨rest, rfl⟩
      exact List.mem_cons_self
  | cons first before ih =>
      rcases inside with ⟨rest, rfl⟩
      exact List.mem_cons_of_mem _ (ih (step start first) _ (List.prefix_append _ rest))

/-- The states of a trace are those that the prefixes of the run reach. -/
theorem trace_reached (start : State) (steps : List Step) (pass : State × Step)
    (member : pass ∈ trace step start steps) :
    ∃ before, before ++ [pass.2] <+: steps ∧ pass.1 = run step start before := by
  induction steps generalizing start with
  | nil => exact absurd member List.not_mem_nil
  | cons next rest ih =>
      rcases List.mem_cons.mp member with rfl | later
      · exact ⟨[], ⟨rest, rfl⟩, rfl⟩
      · obtain ⟨before, ⟨behind, split⟩, reached⟩ := ih (step start next) later
        exact ⟨next :: before, ⟨behind, by rw [← split]; rfl⟩, reached⟩

/-- An invariant holds in the states that the steps of a run are taken in. -/
theorem trace_invariant {Invariant : State → Prop}
    (preserved : ∀ state next, Invariant state → Invariant (step state next)) (start : State)
    (holds : Invariant start) (steps : List Step) :
    ∀ pass ∈ trace step start steps, Invariant pass.1 := by
  induction steps generalizing start with
  | nil => exact fun pass member => absurd member List.not_mem_nil
  | cons next rest ih =>
      rw [trace, List.forall_mem_cons]
      exact ⟨holds, ih (step start next) (preserved start next holds)⟩

theorem run_history {Invariant : List (State × Step) → State → Prop}
    (preserved : ∀ history state next, Invariant history state → allowed state next →
      Invariant (history ++ [(state, next)]) (step state next))
    (start : State) (holds : Invariant [] start) (steps : List Step)
    (admitted : Admitted allowed step start steps) :
    Invariant (trace step start steps) (run step start steps) := by
  suffices general : ∀ history, Invariant history start →
      Invariant (history ++ trace step start steps) (run step start steps) from general [] holds
  clear holds
  induction steps generalizing start with
  | nil => exact fun history holds => by simpa [trace, run] using holds
  | cons next rest ih =>
      intro history holds
      rcases admitted with ⟨first, later⟩
      have extended := ih (step start next) later _ (preserved history start next holds first)
      simpa [trace, run] using extended

/-- What the steps of a run put out, in order. -/
def outputs {Out : Type*} (emit : State → Step → List Out) : State → List Step → List Out
  | _, [] => []
  | state, next :: rest => emit state next ++ outputs emit (step state next) rest

theorem outputs_append {Out : Type*} (emit : State → Step → List Out) (start : State)
    (first second : List Step) :
    outputs step emit start (first ++ second) =
      outputs step emit start first ++ outputs step emit (run step start first) second := by
  induction first generalizing start with
  | nil => rfl
  | cons next rest ih => simp [outputs, ih, run]

theorem outputs_filter {Out : Type*} (emit : State → Step → List Out) (kept : Out → Bool)
    (start : State) (steps : List Step) :
    (outputs step emit start steps).filter kept =
      outputs step (fun state next => (emit state next).filter kept) start steps := by
  induction steps generalizing start with
  | nil => rfl
  | cons next rest ih => simp [outputs, ih]

theorem outputs_steps (start : State) (steps : List Step) :
    outputs step (fun _ next => [next]) start steps = steps := by
  induction steps generalizing start with
  | nil => rfl
  | cons next rest ih => rw [outputs, ih (step start next), List.singleton_append]

section Abstraction

universe w x
variable {Abstract : Type w} {Act : Type x} {Out : Type*}
variable (abstraction : State → Abstract) (act : Abstract → Act → Abstract)
variable (say : Abstract → Act → List Out) (acts : State → Step → List Act)
variable (emits : State → Step → List Out)

/-- A run of the system is one of the abstract system if each step is a run of abstract steps. -/
theorem run_refines {Invariant : State → Prop}
    (preserved : ∀ state next, Invariant state → allowed state next → Invariant (step state next))
    (each : ∀ state next, Invariant state → allowed state next →
      abstraction (step state next) = run act (abstraction state) (acts state next))
    (start : State) (holds : Invariant start) (steps : List Step)
    (admitted : Admitted allowed step start steps) :
    abstraction (run step start steps) =
      run act (abstraction start) (outputs step acts start steps) := by
  induction steps generalizing start with
  | nil => rfl
  | cons next rest ih =>
      rcases admitted with ⟨first, later⟩
      rw [outputs, run_append, ← each start next holds first]
      exact ih (step start next) (preserved start next holds first) later

/-- If each step also has the outputs of its abstract steps, so have the runs. -/
theorem run_abstracts {Invariant : State → Prop}
    (preserved : ∀ state next, Invariant state → allowed state next → Invariant (step state next))
    (each : ∀ state next, Invariant state → allowed state next →
      abstraction (step state next) = run act (abstraction state) (acts state next) ∧
        emits state next = outputs act say (abstraction state) (acts state next))
    (start : State) (holds : Invariant start) (steps : List Step)
    (admitted : Admitted allowed step start steps) :
    abstraction (run step start steps) = run act (abstraction start) (outputs step acts start steps) ∧
      outputs step emits start steps =
        outputs act say (abstraction start) (outputs step acts start steps) := by
  refine ⟨run_refines allowed step abstraction act acts preserved
    (fun state next invariant taken => (each state next invariant taken).1) start holds steps admitted, ?_⟩
  induction steps generalizing start with
  | nil => rfl
  | cons next rest ih =>
      rcases admitted with ⟨first, later⟩
      obtain ⟨reached, said⟩ := each start next holds first
      have others := ih (step start next) (preserved start next holds first) later
      rw [outputs, outputs, outputs_append, ← reached, ← said, others]

end Abstraction

end Runs
