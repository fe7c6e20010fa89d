import CrimsonCache.Library.Runs

/-!
Systems whose state is a map and whose steps are local: a step reads and writes
the keys of its footprint, or works on each key by itself. Parties that keep to
keys of their own cannot observe one another, however their steps are mixed.
-/

namespace Footprints

open Runs

universe u v w x
variable {Key : Type u} {Value : Type v} {Step : Type w} {Out : Type x}

/-- The maps agree on the keys of a region. -/
def Agree (region : Key → Prop) (left right : Key → Value) : Prop :=
  ∀ key, region key → left key = right key

theorem Agree.refl (region : Key → Prop) (map : Key → Value) : Agree region map map := fun _ _ => rfl

theorem Agree.trans {region : Key → Prop} {first second third : Key → Value}
    (left : Agree region first second) (right : Agree region second third) :
    Agree region first third :=
  fun key inside => (left key inside).trans (right key inside)

variable (act : (Key → Value) → Step → Key → Value) (say : (Key → Value) → Step → List Out)

/-- The step does nothing to the region. -/
def Avoids (region : Key → Prop) (step : Step) : Prop :=
  ∀ map, Agree region (act map step) map

/-- The step does and says the same wherever the region is the same. -/
def Keeps (region : Key → Prop) (step : Step) : Prop :=
  ∀ left right, Agree region left right →
    Agree region (act left step) (act right step) ∧ say left step = say right step

/-- What a party says in a run where the others keep out of its region is what it
    says in a run of its own steps alone. -/
theorem run_isolated (region : Key → Prop) (mine : Step → Bool) (steps : List Step)
    (ours : ∀ step ∈ steps, mine step = true → Keeps act say region step)
    (theirs : ∀ step ∈ steps, mine step = false → Avoids act region step)
    (left right : Key → Value) (agree : Agree region left right) :
    Agree region (run act left steps) (run act right (steps.filter mine)) ∧
      outputs act (fun map step => if mine step then say map step else []) left steps =
        outputs act say right (steps.filter mine) := by
  induction steps generalizing left right with
  | nil => exact ⟨agree, rfl⟩
  | cons step rest ih =>
      rw [List.forall_mem_cons] at ours theirs
      cases own : mine step with
      | true =>
          obtain ⟨same, said⟩ := ours.1 own left right agree
          obtain ⟨reached, later⟩ := ih ours.2 theirs.2 (act left step) (act right step) same
          rw [List.filter_cons_of_pos own]
          exact ⟨reached, by simp only [outputs, own, ↓reduceIte, said, later]⟩
      | false =>
          have same := (theirs.1 own left).trans agree
          obtain ⟨reached, later⟩ := ih ours.2 theirs.2 (act left step) right same
          have other : ¬ mine step = true := by simp [own]
          rw [List.filter_cons_of_neg other]
          exact ⟨reached, by simp only [outputs, own, Bool.false_eq_true, ↓reduceIte,
            List.nil_append, later]⟩

/-- Where all steps keep to the region, agreement there carries through a run. -/
theorem run_kept (region : Key → Prop) (steps : List Step)
    (keep : ∀ step ∈ steps, Keeps act say region step) (left right : Key → Value)
    (agree : Agree region left right) :
    Agree region (run act left steps) (run act right steps) ∧
      outputs act say left steps = outputs act say right steps := by
  have isolated := run_isolated act say region (fun _ => true) steps (fun step member _ => keep step member)
    (fun _ _ none => by simp at none) left right agree
  rw [List.filter_eq_self.mpr fun _ _ => rfl] at isolated
  exact isolated

end Footprints
