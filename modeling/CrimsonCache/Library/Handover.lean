import CrimsonCache.Library.Runs

/-!
Workers of one kind that take turns on one state, each with a state of its own
besides. Nothing tells whose turn it is. What a worker has seen and done is a
matter of its own turns; if nobody takes a turn while another is in the middle
of something, all of them together do what one worker does.
-/

namespace Handover

open Runs

structure Crew (Own Shared : Type*) where
  own : Nat → Own
  shared : Shared

/-- One of the workers acts, or somebody else does. -/
inductive Turn (Act Other : Type*) where
  | worker (index : Nat) (act : Act)
  | aside (other : Other)

variable {Own Shared Act Other Out : Type*}
variable (work : Own → Shared → Act → Own × Shared) (pass : Shared → Other → Shared)

def turn (crew : Crew Own Shared) : Turn Act Other → Crew Own Shared
  | .worker index act =>
      let done := work (crew.own index) crew.shared act
      ⟨fun worker => if worker = index then done.1 else crew.own worker, done.2⟩
  | .aside other => { crew with shared := pass crew.shared other }

/-- The same turns with one worker, who takes those of all. -/
def soloTurn (state : Own × Shared) : Turn Act Other → Own × Shared
  | .worker _ act => work state.1 state.2 act
  | .aside other => (state.1, pass state.2 other)

/-- Whoever acts finds the other workers idle. -/
def HandsOver (idle : Own) (crew : Crew Own Shared) : Turn Act Other → Prop
  | .worker index _ => ∀ worker, worker ≠ index → crew.own worker = idle
  | .aside _ => True

variable (emit : Own → Shared → Act → List Out) (tell : Shared → Other → List Out)

def emission (crew : Crew Own Shared) : Turn Act Other → List Out
  | .worker index act => emit (crew.own index) crew.shared act
  | .aside other => tell crew.shared other

def soloEmission (state : Own × Shared) : Turn Act Other → List Out
  | .worker _ act => emit state.1 state.2 act
  | .aside other => tell state.2 other

/-- At most the worker `active` is in the middle of something. -/
structure Stands (idle : Own) (active : Nat) (state : Own × Shared) (crew : Crew Own Shared) : Prop where
  own : crew.own active = state.1
  others : ∀ worker, worker ≠ active → crew.own worker = idle
  shared : crew.shared = state.2

/-- Where a turn hands over, the worker before and the one after it are both idle. -/
theorem turn_stands (idle : Own) (active : Nat) (state : Own × Shared) (crew : Crew Own Shared)
    (stands : Stands idle active state crew) (next : Turn Act Other) (clean : HandsOver idle crew next) :
    emission emit tell crew next = soloEmission emit tell state next ∧
      ∃ active, Stands idle active (soloTurn work pass state next) (turn work pass crew next) := by
  obtain ⟨own, others, shared⟩ := stands
  cases next with
  | aside other =>
      simp only [emission, soloEmission, turn, soloTurn, shared]
      exact ⟨trivial, active, own, others, rfl⟩
  | worker index act =>
      have same : crew.own index = state.1 := by
        by_cases again : index = active
        · rw [again, own]
        · rw [others index again, ← own, clean active (Ne.symm again)]
      simp only [emission, soloEmission, turn, soloTurn, same, shared]
      exact ⟨trivial, index, by simp, fun worker other => by simp [other, clean worker other], rfl⟩

/-- Workers that hand over idle act as one. -/
theorem run_stands (idle : Own) (active : Nat) (state : Own × Shared) (crew : Crew Own Shared)
    (stands : Stands idle active state crew) (turns : List (Turn Act Other))
    (clean : Admitted (HandsOver idle) (turn work pass) crew turns) :
    outputs (turn work pass) (emission emit tell) crew turns =
        outputs (soloTurn work pass) (soloEmission emit tell) state turns ∧
      ∃ active, Stands idle active (run (soloTurn work pass) state turns)
        (run (turn work pass) crew turns) := by
  induction turns generalizing active state crew with
  | nil => exact ⟨rfl, active, stands⟩
  | cons next rest ih =>
      obtain ⟨first, later⟩ := clean
      obtain ⟨said, index, after⟩ := turn_stands work pass emit tell idle active state crew stands next first
      obtain ⟨others, final⟩ := ih index _ _ after later
      exact ⟨by rw [outputs, outputs, said, others], final⟩

section Related

/-- What one of the workers puts out. -/
def ownEmission (index : Nat) (crew : Crew Own Shared) : Turn Act Other → List Out
  | .worker worker act => if worker = index then emit (crew.own worker) crew.shared act else []
  | .aside _ => []

/-- How a worker's own state goes with what it puts out, over several turns. -/
structure Composes (R : Own → List Out → Own → Prop) : Prop where
  still : ∀ own, R own [] own
  append : ∀ before between after first second,
    R before first between → R between second after → R before (first ++ second) after

variable {R : Own → List Out → Own → Prop} (composes : Composes R)
variable (each : ∀ own shared act, R own (emit own shared act) (work own shared act).1)

include composes each

/-- The turns of the others leave a worker alone, whatever their order. -/
theorem own_related (index : Nat) (crew : Crew Own Shared) (turns : List (Turn Act Other)) :
    R (crew.own index) (outputs (turn work pass) (ownEmission emit index) crew turns)
      ((run (turn work pass) crew turns).own index) := by
  induction turns generalizing crew with
  | nil => exact composes.still _
  | cons next rest ih =>
      apply composes.append _ _ _ _ _ _ (ih (turn work pass crew next))
      cases next with
      | aside other => exact composes.still _
      | worker worker act =>
          by_cases same : worker = index
          · simpa [ownEmission, turn, same] using each (crew.own index) crew.shared act
          · have apart : index ≠ worker := fun wrong => same wrong.symm
            simpa [ownEmission, turn, same, apart] using composes.still (crew.own index)

theorem solo_related (aside : ∀ own shared other, R own (tell shared other) own)
    (state : Own × Shared) (turns : List (Turn Act Other)) :
    R state.1 (outputs (soloTurn work pass) (soloEmission emit tell) state turns)
      (run (soloTurn work pass) state turns).1 := by
  induction turns generalizing state with
  | nil => exact composes.still _
  | cons next rest ih =>
      apply composes.append _ _ _ _ _ _ (ih (soloTurn work pass state next))
      cases next with
      | aside other => exact aside state.1 state.2 other
      | worker worker act => exact each state.1 state.2 act

end Related

end Handover
