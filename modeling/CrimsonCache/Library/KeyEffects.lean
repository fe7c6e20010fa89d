import Mathlib.Init

/-!
What a sequence of operations makes of one key of a map. An operation leaves the
key alone, sets it, clears it, or revises what it finds there into a value.
-/

namespace KeyEffects

universe u
variable {Value : Type u}

inductive Effect (Value : Type u) where
  | same
  | put (value : Value)
  | clear
  | revised
  deriving DecidableEq

variable (revise : Option Value → Value)

def Effect.run : Effect Value → Option Value → Option Value
  | .same, old => old
  | .put value, _ => some value
  | .clear, _ => none
  | .revised, old => some (revise old)

def runAll (effects : List (Effect Value)) (old : Option Value) : Option Value :=
  effects.foldl (fun old effect => effect.run revise old) old

theorem run_all_cons (effect : Effect Value) (rest : List (Effect Value)) (old : Option Value) :
    runAll revise (effect :: rest) old = runAll revise rest (effect.run revise old) := rfl

theorem run_all_append (first second : List (Effect Value)) (old : Option Value) :
    runAll revise (first ++ second) old = runAll revise second (runAll revise first old) :=
  List.foldl_append

theorem run_all_snoc (effects : List (Effect Value)) (effect : Effect Value) (old : Option Value) :
    runAll revise (effects ++ [effect]) old = effect.run revise (runAll revise effects old) :=
  run_all_append revise effects [effect] old

/-- Effects that may change places. -/
def Effect.Commutes (first second : Effect Value) : Prop :=
  first = .same ∨ second = .same ∨ first = second

instance [DecidableEq Value] (first second : Effect Value) : Decidable (first.Commutes second) :=
  inferInstanceAs (Decidable (_ ∨ _ ∨ _))

theorem commutes_run (first second : Effect Value) (commutes : first.Commutes second)
    (old : Option Value) :
    second.run revise (first.run revise old) = first.run revise (second.run revise old) := by
  rcases commutes with rfl | rfl | rfl <;> rfl

/-- An effect that commutes with those before it may as well come first. -/
theorem run_all_advance (before after : List (Effect Value)) (effect : Effect Value)
    (commutes : ∀ other ∈ before, other.Commutes effect) (old : Option Value) :
    runAll revise (before ++ effect :: after) old =
      runAll revise (before ++ after) (effect.run revise old) := by
  induction before generalizing old with
  | nil => rfl
  | cons first before ih =>
      have here := commutes first List.mem_cons_self
      have later := fun other member => commutes other (List.mem_cons_of_mem first member)
      rw [List.cons_append, run_all_cons, ih later, List.cons_append, run_all_cons,
        commutes_run revise first effect here]

/-- What empties a key that was there empties it in any case. -/
theorem run_all_cleared (effects : List (Effect Value)) (value : Value)
    (cleared : runAll revise effects (some value) = none) (old : Option Value) :
    runAll revise effects old = none := by
  induction effects generalizing value old with
  | nil => contradiction
  | cons effect rest ih =>
      rw [run_all_cons] at cleared ⊢
      cases effect with
      | same => exact ih value cleared old
      | put other => exact cleared
      | clear => exact cleared
      | revised => exact ih _ cleared _

theorem run_all_absent (effects : List (Effect Value)) (old : Option Value)
    (absent : runAll revise effects old = none) : runAll revise effects none = none := by
  cases old with
  | none => exact absent
  | some value => exact run_all_cleared revise effects value absent none

end KeyEffects
