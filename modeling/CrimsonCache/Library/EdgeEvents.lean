import Mathlib.Data.List.Basic

/-!
Edge-triggered notification. An arrival at a source is reported once: arrivals
since the last report coalesce, and nothing is reported again without a new
one. A loop that takes reports finds all work only if each report it handles
leaves none behind.
-/

namespace EdgeEvents

universe u
variable {Source : Type u} [DecidableEq Source]

/-- The sources with an arrival since their last report, and the reports not yet handled. -/
structure Notifier (Source : Type u) where
  ready : List Source
  batch : List Source
  deriving DecidableEq

def Notifier.arrive (source : Source) (events : Notifier Source) : Notifier Source :=
  { events with ready := events.ready.insert source }

/-- The next batch, taken when the last one is handled. -/
def Notifier.report (chosen : List Source) (events : Notifier Source) : Notifier Source :=
  ⟨events.ready.filter (· ∉ chosen), chosen⟩

def Notifier.next (events : Notifier Source) : Notifier Source :=
  { events with batch := events.batch.tail }

/-- A source that is given up is not reported any more. -/
def Notifier.forget (source : Source) (events : Notifier Source) : Notifier Source :=
  { events with ready := events.ready.filter (· ≠ source) }

/-- Nothing to report and nothing to handle. -/
def Notifier.Blocked (events : Notifier Source) : Prop := events.ready = [] ∧ events.batch = []

instance (events : Notifier Source) : Decidable events.Blocked := inferInstanceAs (Decidable (_ ∧ _))

/-- Where there is work, a report is due or in hand. -/
def Covered (work : Source → Prop) (events : Notifier Source) : Prop :=
  ∀ source, work source → source ∈ events.ready ∨ source ∈ events.batch

variable (work later : Source → Prop) (events : Notifier Source)

theorem arrive_covered (covered : Covered work events) (source : Source)
    (only : ∀ other, other ≠ source → later other → work other) :
    Covered later (events.arrive source) := by
  intro other busy
  by_cases same : other = source
  · exact Or.inl (same ▸ List.mem_insert_self)
  · rcases covered other (only other same busy) with due | inHand
    · exact Or.inl (List.mem_insert_of_mem due)
    · exact Or.inr inHand

theorem report_covered (covered : Covered work events) (idle : events.batch = [])
    (chosen : List Source) : Covered work (events.report chosen) := by
  intro source busy
  by_cases taken : source ∈ chosen
  · exact Or.inr taken
  · have due := (covered source busy).resolve_right (by simp [idle])
    exact Or.inl (List.mem_filter.mpr ⟨due, by simpa using taken⟩)

/-- A report is handled: it leaves no work, or a new arrival is due already. -/
theorem next_covered (covered : Covered work events) (source : Source) (rest : List Source)
    (inHand : events.batch = source :: rest)
    (others : ∀ other, other ≠ source → later other → work other)
    (done : later source → source ∈ events.ready) : Covered later events.next := by
  intro other busy
  by_cases same : other = source
  · subst same
    exact Or.inl (done busy)
  · rcases covered other (others other same busy) with due | waits
    · exact Or.inl due
    · rw [inHand] at waits
      exact Or.inr (by
        simp only [Notifier.next, inHand, List.tail_cons]
        exact (List.mem_cons.mp waits).resolve_left same)

theorem forget_covered (covered : Covered work events) (source : Source) (gone : ¬ work source) :
    Covered work (events.forget source) := by
  intro other busy
  have apart : other ≠ source := fun same => gone (same ▸ busy)
  rcases covered other busy with due | inHand
  · exact Or.inl (List.mem_filter.mpr ⟨due, by simpa using apart⟩)
  · exact Or.inr inHand

omit [DecidableEq Source] in
/-- A loop that blocks has no work left. -/
theorem blocked_done (covered : Covered work events) (blocked : events.Blocked) (source : Source) :
    ¬ work source := by
  intro busy
  rcases covered source busy with due | inHand
  · simp [blocked.1] at due
  · simp [blocked.2] at inHand

end EdgeEvents
