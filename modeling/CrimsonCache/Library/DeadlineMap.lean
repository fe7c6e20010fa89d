/-!
Finite maps whose bindings carry a deadline. `dead` decides, at one reading of
a clock, which deadlines have passed. The operations are those of a cache that
drops a dead binding either when it is read or in a sweep.
-/

namespace DeadlineMap

variable {Key Value Deadline : Type} [DecidableEq Key]

abbrev Store (Key Value Deadline : Type) := Key → Option (Value × Deadline)

def put (store : Store Key Value Deadline) (key : Key) (value : Value) (deadline : Deadline) :
    Store Key Value Deadline :=
  fun other => if other = key then some (value, deadline) else store other

def drop (store : Store Key Value Deadline) (key : Key) : Store Key Value Deadline :=
  fun other => if other = key then none else store other

/-- The binding a reader gets. -/
def fetch (dead : Deadline → Bool) (store : Store Key Value Deadline) (key : Key) :
    Option (Value × Deadline) :=
  (store key).filter fun binding => !dead binding.2

/-- What a read leaves behind: a dead binding is dropped, a live one stays. -/
def settle (dead : Deadline → Bool) (store : Store Key Value Deadline) (key : Key) :
    Store Key Value Deadline :=
  match store key with
  | some binding => if dead binding.2 then drop store key else store
  | none => store

def sweep (dead : Deadline → Bool) (store : Store Key Value Deadline) :
    Store Key Value Deadline :=
  fun key => (store key).filter fun binding => !dead binding.2

def putAll (rows : List (Key × Value × Deadline)) (store : Store Key Value Deadline) :
    Store Key Value Deadline :=
  rows.foldl (fun store row => put store row.1 row.2.1 row.2.2) store

theorem put_same (store : Store Key Value Deadline) (key : Key) (value : Value)
    (deadline : Deadline) : put store key value deadline key = some (value, deadline) := by
  simp [put]

theorem put_other (store : Store Key Value Deadline) (key other : Key) (value : Value)
    (deadline : Deadline) (different : other ≠ key) :
    put store key value deadline other = store other := by
  simp [put, different]

theorem drop_absent (store : Store Key Value Deadline) (key : Key) (absent : store key = none) :
    drop store key = store := by
  funext other
  by_cases same : other = key
  · simp [drop, same, absent]
  · simp [drop, same]

theorem settle_other (dead : Deadline → Bool) (store : Store Key Value Deadline)
    (key other : Key) (different : other ≠ key) : settle dead store key other = store other := by
  unfold settle
  cases store key with
  | none => rfl
  | some binding =>
      dsimp only
      split <;> simp [drop, different]

/-- What a reader does not get is not there after the read. -/
theorem settle_dead (dead : Deadline → Bool) (store : Store Key Value Deadline) (key : Key)
    (gone : fetch dead store key = none) : settle dead store key key = none := by
  unfold fetch at gone
  unfold settle
  cases bound : store key with
  | none => exact bound
  | some binding =>
      rw [bound, Option.filter_some] at gone
      have passed : dead binding.2 = true := by simpa using gone
      simp [passed, drop]

/-- A binding that a reader gets stays where it is. -/
theorem settle_live (dead : Deadline → Bool) (store : Store Key Value Deadline) (key : Key)
    (binding : Value × Deadline) (live : fetch dead store key = some binding) :
    settle dead store key = store ∧ store key = some binding := by
  unfold fetch at live
  obtain ⟨bound, alive⟩ := Option.filter_eq_some_iff.mp live
  have passed : dead binding.2 = false := by simpa using alive
  exact ⟨by simp [settle, bound, passed], bound⟩

/-- Writing a key makes it irrelevant what a read of it dropped. -/
theorem put_settle (dead : Deadline → Bool) (store : Store Key Value Deadline) (key : Key)
    (value : Value) (deadline : Deadline) :
    put (settle dead store key) key value deadline = put store key value deadline := by
  funext other
  by_cases same : other = key
  · simp [put, same]
  · simp [put, same, settle_other dead store key other same]

/-- What a read drops, every later sweep drops as well. -/
theorem sweep_settle (dead later : Deadline → Bool) (store : Store Key Value Deadline) (key : Key)
    (lasting : ∀ deadline, dead deadline = true → later deadline = true) :
    sweep later (settle dead store key) = sweep later store := by
  unfold settle
  cases bound : store key with
  | none => rfl
  | some binding =>
      dsimp only
      split
      case isFalse => rfl
      case isTrue gone =>
        funext other
        by_cases same : other = key
        · subst same
          have later := lasting _ gone
          simp [sweep, drop, bound, Option.filter, later]
        · simp [sweep, drop, same]

/-- A sweep and a later read may change places. -/
theorem sweep_settle_comm (dead later : Deadline → Bool) (store : Store Key Value Deadline)
    (key : Key) (lasting : ∀ deadline, dead deadline = true → later deadline = true) :
    sweep dead (settle later store key) = settle later (sweep dead store) key := by
  unfold settle
  cases bound : store key with
  | none => simp [sweep, bound]
  | some binding =>
      cases early : dead binding.2 with
      | true =>
          have gone := lasting _ early
          have swept : sweep dead store key = none := by simp [sweep, bound, Option.filter, early]
          simp only [gone, ↓reduceIte, swept]
          funext other
          by_cases same : other = key
          · subst same
            simp [sweep, drop, bound, Option.filter, early]
          · simp [sweep, drop, same]
      | false =>
          have stays : sweep dead store key = some binding := by
            simp [sweep, bound, Option.filter, early]
          simp only [stays]
          split
          · funext other
            by_cases same : other = key
            · simp [sweep, drop, same]
            · simp [sweep, drop, same]
          · rfl

omit [DecidableEq Key] in
/-- A later reader gets the same from what a sweep left. -/
theorem fetch_sweep (dead later : Deadline → Bool) (store : Store Key Value Deadline) (key : Key)
    (lasting : ∀ deadline, dead deadline = true → later deadline = true) :
    fetch later (sweep dead store) key = fetch later store key := by
  simp only [fetch, sweep, Option.filter_filter]
  congr 1
  funext binding
  cases gone : dead binding.2 with
  | false => simp
  | true => simp [lasting _ gone]

theorem sweep_put (dead : Deadline → Bool) (first second : Store Key Value Deadline)
    (same : sweep dead first = sweep dead second) (key : Key) (value : Value) (deadline : Deadline) :
    sweep dead (put first key value deadline) = sweep dead (put second key value deadline) := by
  funext other
  have elsewhere := congrFun same other
  by_cases here : other = key
  · simp [sweep, put, here]
  · simpa [sweep, put, here] using elsewhere

theorem sweep_drop (dead : Deadline → Bool) (store : Store Key Value Deadline) (key : Key) :
    sweep dead (drop store key) = drop (sweep dead store) key := by
  funext other
  by_cases here : other = key
  · simp [sweep, drop, here]
  · simp [sweep, drop, here]

section Fading

/-- A binding that stays, or goes once its deadline has passed. -/
def Fades (dead : Deadline → Bool) (before after : Option (Value × Deadline)) : Prop :=
  after = before ∨ (after = none ∧ ∃ binding, before = some binding ∧ dead binding.2 = true)

variable {dead : Deadline → Bool} {first second third : Option (Value × Deadline)}

theorem Fades.trans (early : Fades dead first second) (late : Fades dead second third) :
    Fades dead first third := by
  rcases early with rfl | ⟨rfl, gone⟩
  · exact late
  · rcases late with rfl | ⟨rfl, -⟩
    · exact .inr ⟨rfl, gone⟩
    · exact .inr ⟨rfl, gone⟩

theorem Fades.absent (fades : Fades dead none second) : second = none := by
  rcases fades with same | ⟨same, -⟩
  · exact same
  · exact same

theorem Fades.live {binding : Value × Deadline} (fades : Fades dead (some binding) second)
    (live : dead binding.2 = false) : second = some binding := by
  rcases fades with same | ⟨-, other, same, gone⟩
  · exact same
  · rw [← Option.some.inj same, live] at gone
    cases gone

/-- A reader for whom the dead bindings are dead gets the same. -/
theorem Fades.filter (fades : Fades dead first second) :
    (second.filter fun binding => !dead binding.2) = first.filter fun binding => !dead binding.2 := by
  rcases fades with rfl | ⟨rfl, binding, rfl, gone⟩
  · rfl
  · simp [Option.filter, gone]

theorem settle_fades (dead later : Deadline → Bool) (store : Store Key Value Deadline)
    (key other : Key) (lasting : ∀ deadline, dead deadline = true → later deadline = true) :
    Fades later (store other) (settle dead store key other) := by
  unfold settle
  cases bound : store key with
  | none => exact .inl rfl
  | some binding =>
      dsimp only
      split
      case isFalse => exact .inl rfl
      case isTrue gone =>
        by_cases same : other = key
        · subst same
          exact .inr ⟨by simp [drop], binding, bound, lasting _ gone⟩
        · exact .inl (by simp [drop, same])

omit [DecidableEq Key] in
theorem sweep_fades (dead later : Deadline → Bool) (store : Store Key Value Deadline) (key : Key)
    (lasting : ∀ deadline, dead deadline = true → later deadline = true) :
    Fades later (store key) (sweep dead store key) := by
  unfold sweep
  cases bound : store key with
  | none => exact .inl rfl
  | some binding =>
      cases gone : dead binding.2 with
      | false => exact .inl (by simp [Option.filter, gone])
      | true => exact .inr ⟨by simp [Option.filter, gone], binding, rfl, lasting _ gone⟩

end Fading

section Rows

variable (rows : List (Key × Value × Deadline)) (store : Store Key Value Deadline)

theorem put_all_other (key : Key) (absent : key ∉ rows.map Prod.fst) : putAll rows store key = store key := by
  induction rows generalizing store with
  | nil => rfl
  | cons row rest ih =>
      simp only [List.map_cons, List.mem_cons, not_or] at absent
      have tail := ih (put store row.1 row.2.1 row.2.2) absent.2
      rw [put_other _ _ _ _ _ absent.1] at tail
      exact tail

/-- The last row of a key is the one that stays. -/
theorem put_all_last (front back : List (Key × Value × Deadline)) (row : Key × Value × Deadline)
    (split : rows = front ++ row :: back) (last : row.1 ∉ back.map Prod.fst) :
    putAll rows store row.1 = some row.2 := by
  subst split
  induction front generalizing store with
  | nil => exact (put_all_other back _ row.1 last).trans (put_same store row.1 row.2.1 row.2.2)
  | cons first front ih => exact ih (put store first.1 first.2.1 first.2.2)

omit [DecidableEq Key] in
theorem last_row (key : Key) (member : key ∈ rows.map Prod.fst) :
    ∃ front row back, rows = front ++ row :: back ∧ row.1 = key ∧ key ∉ back.map Prod.fst := by
  induction rows with
  | nil => simp at member
  | cons row rest ih =>
      by_cases later : key ∈ rest.map Prod.fst
      · obtain ⟨front, last, back, split, named, behind⟩ := ih later
        exact ⟨row :: front, last, back, by rw [split, List.cons_append], named, behind⟩
      · have here : row.1 = key := by
          rw [List.map_cons, List.mem_cons] at member
          exact (member.resolve_right later).symm
        exact ⟨[], row, rest, rfl, here, later⟩

/-- Rows change nothing exactly when the last one of each key is bound already. -/
theorem put_all_same_iff :
    putAll rows store = store ↔
      ∀ front row back, rows = front ++ row :: back → row.1 ∉ back.map Prod.fst →
        store row.1 = some row.2 := by
  constructor
  · intro same front row back split last
    rw [← same]
    exact put_all_last rows store front back row split last
  · intro bound
    funext key
    by_cases member : key ∈ rows.map Prod.fst
    · obtain ⟨front, row, back, split, rfl, last⟩ := last_row rows key member
      rw [put_all_last rows store front back row split last, bound front row back split last]
    · exact put_all_other rows store key member

end Rows

end DeadlineMap
