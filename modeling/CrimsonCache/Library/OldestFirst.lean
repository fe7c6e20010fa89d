import Mathlib.Data.List.Sort

/-!
Taking out an oldest row again and again. A scan remembers the first row that is
older than all before it and than a limit; what repeated scans take out, one row
after the other, is the stable order of the rows by age.
-/

namespace OldestFirst

universe u v
variable {Entry : Type u} {Age : Type v} [LinearOrder Age] (age : Entry → Age)

/-- Oldest first; rows of one age in the order they stand in. -/
def oldestFirst (rows : List Entry) : List Entry := rows.insertionSort fun a b => age a ≤ age b

/-- `a` is older, or as old and stands in front. -/
def Ahead (rows : List Entry) (a b : Entry) : Prop :=
  age a < age b ∨ age a = age b ∧ [a, b].Sublist rows

section Order

theorem oldest_first_perm (rows : List Entry) : (oldestFirst age rows).Perm rows :=
  List.perm_insertionSort _ rows

theorem ahead_mono (rows more : List Entry) (inside : rows.Sublist more) (a b : Entry)
    (ahead : Ahead age rows a b) : Ahead age more a b :=
  ahead.imp_right fun same => ⟨same.1, same.2.trans inside⟩

theorem insert_ahead (rows sorted : List Entry) (entry : Entry)
    (members : ∀ other ∈ sorted, other ∈ rows) (ahead : sorted.Pairwise (Ahead age rows)) :
    (sorted.orderedInsert (fun a b => age a ≤ age b) entry).Pairwise
      (Ahead age (entry :: rows)) := by
  induction sorted with
  | nil => simp
  | cons first rest ih =>
      obtain ⟨least, later⟩ := List.pairwise_cons.mp ahead
      have tail := ih (fun other member => members other (List.mem_cons_of_mem _ member)) later
      have weaker := ahead_mono age rows (entry :: rows) (List.sublist_cons_self entry rows)
      by_cases older : age entry ≤ age first
      · rw [List.orderedInsert_cons, if_pos older]
        refine List.pairwise_cons.mpr ⟨?_, ahead.imp fun pair => weaker _ _ pair⟩
        intro other member
        have behind : age first ≤ age other := by
          rcases List.mem_cons.mp member with rfl | inside
          · exact le_refl _
          · exact (least other inside).elim le_of_lt fun same => same.1.le
        rcases (older.trans behind).lt_or_eq with below | same
        · exact Or.inl below
        · exact Or.inr ⟨same,
            List.Sublist.cons_cons _ (List.singleton_sublist.mpr (members other member))⟩
      · rw [List.orderedInsert_cons, if_neg older]
        refine List.pairwise_cons.mpr ⟨?_, tail⟩
        intro other member
        rcases (List.mem_orderedInsert _).mp member with rfl | inside
        · exact Or.inl (lt_of_not_ge older)
        · exact weaker _ _ (least other inside)

/-- The order is by age, and by place among rows of one age. -/
theorem oldest_first_ahead (rows : List Entry) :
    (oldestFirst age rows).Pairwise (Ahead age rows) := by
  induction rows with
  | nil => exact List.Pairwise.nil
  | cons entry rest ih =>
      exact insert_ahead age rest _ entry
        (fun other member => (List.mem_insertionSort _).mp member) ih

/-- The first of the oldest rows leads the order, and the order of the others is theirs. -/
theorem oldest_first_split (before after : List Entry) (victim : Entry)
    (first : ∀ other ∈ before, age victim < age other)
    (least : ∀ other ∈ after, age victim ≤ age other) :
    oldestFirst age (before ++ victim :: after) = victim :: oldestFirst age (before ++ after) := by
  induction before with
  | nil => exact List.insertionSort_cons_of_forall_rel _ least
  | cons entry rest ih =>
      have younger : ¬ age entry ≤ age victim := not_le_of_gt (first entry List.mem_cons_self)
      have tail := ih fun other member => first other (List.mem_cons_of_mem entry member)
      simp only [oldestFirst, List.cons_append, List.insertionSort_cons] at tail ⊢
      rw [tail, List.orderedInsert_cons, if_neg younger]

end Order

section Place

theorem insert_in_front (first second : List Entry) (entry : Entry)
    (below : ∀ other ∈ second, age entry ≤ age other) :
    (first ++ second).orderedInsert (fun a b => age a ≤ age b) entry =
      first.orderedInsert (fun a b => age a ≤ age b) entry ++ second := by
  induction first with
  | nil =>
      cases second with
      | nil => rfl
      | cons other rest => simp [below other List.mem_cons_self]
  | cons other rest ih =>
      by_cases older : age entry ≤ age other
      · simp [older]
      · simpa [older] using ih

theorem insert_behind (first second : List Entry) (entry : Entry)
    (above : ∀ other ∈ first, age other < age entry) :
    (first ++ second).orderedInsert (fun a b => age a ≤ age b) entry =
      first ++ second.orderedInsert (fun a b => age a ≤ age b) entry := by
  induction first with
  | nil => rfl
  | cons other rest ih =>
      have younger : ¬ age entry ≤ age other := not_le_of_gt (above other List.mem_cons_self)
      simpa [younger] using ih fun later member => above later (List.mem_cons_of_mem other member)

/-- Rows that are older than all others come first, in the order they have by themselves. -/
theorem oldest_first_partition (older : Entry → Bool) (rows : List Entry)
    (apart : ∀ a ∈ rows, ∀ b ∈ rows, older a = true → older b = false → age a < age b) :
    oldestFirst age rows =
      oldestFirst age (rows.filter older) ++
        oldestFirst age (rows.filter fun entry => older entry = false) := by
  induction rows with
  | nil => rfl
  | cons entry rest ih =>
      have tail := ih fun a inA b inB =>
        apart a (List.mem_cons_of_mem entry inA) b (List.mem_cons_of_mem entry inB)
      have front : oldestFirst age (entry :: rest) =
          (oldestFirst age rest).orderedInsert (fun a b => age a ≤ age b) entry := rfl
      rw [front, tail]
      cases kind : older entry with
      | true =>
          rw [insert_in_front]
          · simp [kind, oldestFirst]
          · intro other member
            have inside := List.mem_filter.mp ((List.mem_insertionSort _).mp member)
            exact (apart entry List.mem_cons_self other (List.mem_cons_of_mem entry inside.1) kind
              (by simpa using inside.2)).le
      | false =>
          rw [insert_behind]
          · simp [kind, oldestFirst]
          · intro other member
            have inside := List.mem_filter.mp ((List.mem_insertionSort _).mp member)
            exact apart other (List.mem_cons_of_mem entry inside.1) entry List.mem_cons_self
              inside.2 kind

theorem oldest_first_same (rows : List Entry) (common : Age)
    (same : ∀ entry ∈ rows, age entry = common) : oldestFirst age rows = rows := by
  apply List.Pairwise.insertionSort_eq
  exact List.pairwise_of_forall_mem_list fun a inA b inB => ((same a inA).trans (same b inB).symm).le

/-- What comes before one row: all that are older, then those of its age that stand in front. -/
theorem oldest_first_place (before after : List Entry) (entry : Entry) :
    ∃ later, oldestFirst age (before ++ entry :: after) =
      oldestFirst age ((before ++ after).filter fun other => age other < age entry) ++
        (before.filter fun other => age other = age entry) ++ entry :: later := by
  -- First the rows that are older, then among the others those of the same age.
  have older := oldest_first_partition age (fun other => age other < age entry)
    (before ++ entry :: after) fun a _ b _ below above =>
      (of_decide_eq_true below).trans_le (le_of_not_gt (of_decide_eq_false above))
  have among := oldest_first_partition age (fun other => age other = age entry)
    ((before ++ entry :: after).filter fun other => decide (age other < age entry) = false)
    fun a _ b inB equal different => by
      have least : age entry ≤ age b := by
        simpa using (List.mem_filter.mp inB).2
      have apart : age b ≠ age entry := of_decide_eq_false different
      rw [of_decide_eq_true equal]
      exact lt_of_le_of_ne least (Ne.symm apart)
  have equals : ((before ++ entry :: after).filter fun other =>
        decide (age other < age entry) = false).filter (fun other => age other = age entry) =
      before.filter (fun other => age other = age entry) ++
        entry :: after.filter (fun other => age other = age entry) := by
    rw [List.filter_filter]
    have merged : (fun other => decide (age other = age entry) &&
        decide (decide (age other < age entry) = false)) =
          fun other => decide (age other = age entry) := by
      funext other
      by_cases same : age other = age entry <;> simp [same]
    rw [merged, List.filter_append, List.filter_cons_of_pos (by simp)]
  refine ⟨after.filter (fun other => age other = age entry) ++
    oldestFirst age (((before ++ entry :: after).filter fun other =>
      decide (age other < age entry) = false).filter fun other =>
        decide (age other = age entry) = false), ?_⟩
  have sorted := oldest_first_same age (before.filter (fun other => age other = age entry) ++
    entry :: after.filter (fun other => age other = age entry)) (age entry) (by
      intro other member
      rcases List.mem_append.mp member with front | behind
      · simpa using (List.mem_filter.mp front).2
      · rcases List.mem_cons.mp behind with rfl | later
        · rfl
        · simpa using (List.mem_filter.mp later).2)
  rw [older, among, equals, sorted, List.filter_append, List.filter_cons_of_neg (by simp)]
  simp only [List.filter_append, List.append_assoc, List.cons_append]

end Place

section Scan

variable (limit : Age)

/-- The rows a scan can choose, in the order repeated scans choose them. -/
def takingOrder (rows : List Entry) : List Entry :=
  oldestFirst age (rows.filter fun entry => age entry < limit)

/-- What a scan of the rows has found: the first of the oldest below the limit. -/
inductive Oldest : List Entry → Option Entry → Prop where
  | absent {rows : List Entry} (young : ∀ entry ∈ rows, limit ≤ age entry) : Oldest rows none
  | found (before after : List Entry) (victim : Entry) (older : age victim < limit)
      (first : ∀ other ∈ before, age victim < age other)
      (least : ∀ other ∈ after, age victim ≤ age other) :
      Oldest (before ++ victim :: after) (some victim)

/-- The age a scan compares with. -/
def bar (found : Option Entry) : Age := found.elim limit age

/-- One more row: a strictly older one replaces what was found. -/
theorem Oldest.snoc {rows : List Entry} {found : Option Entry} (oldest : Oldest age limit rows found)
    (entry : Entry) :
    Oldest age limit (rows ++ [entry])
      (if age entry < bar age limit found then some entry else found) := by
  cases oldest with
  | absent young =>
      by_cases older : age entry < limit
      · simp only [bar, Option.elim_none, older, ↓reduceIte]
        exact .found rows [] entry older (fun other member => older.trans_le (young other member))
          (by simp)
      · simp only [bar, Option.elim_none, older, ↓reduceIte]
        refine .absent fun other member => ?_
        rcases List.mem_append.mp member with old | new
        · exact young other old
        · exact List.mem_singleton.mp new ▸ le_of_not_gt older
  | found before after victim below first least =>
      by_cases older : age entry < age victim
      · simp only [bar, Option.elim_some, older, ↓reduceIte]
        refine .found _ [] entry (older.trans below) (fun other member => ?_) (by simp)
        rcases List.mem_append.mp member with front | behind
        · exact older.trans (first other front)
        · rcases List.mem_cons.mp behind with rfl | later
          · exact older
          · exact older.trans_le (least other later)
      · simp only [bar, Option.elim_some, older, ↓reduceIte, List.append_assoc, List.cons_append]
        refine .found before _ victim below first fun other member => ?_
        rcases List.mem_append.mp member with old | new
        · exact least other old
        · exact List.mem_singleton.mp new ▸ le_of_not_gt older

theorem Oldest.nothing_left {rows : List Entry} (oldest : Oldest age limit rows none) :
    takingOrder age limit rows = [] := by
  cases oldest with
  | absent young =>
      have empty : rows.filter (fun entry => age entry < limit) = [] := by
        simpa [List.filter_eq_nil_iff] using young
      simp [takingOrder, empty, oldestFirst]

/-- A scan chooses the head of the order, and leaves its tail to the next scan. -/
theorem Oldest.leads {rows : List Entry} {victim : Entry}
    (oldest : Oldest age limit rows (some victim)) :
    ∃ before after, rows = before ++ victim :: after ∧
      takingOrder age limit rows = victim :: takingOrder age limit (before ++ after) := by
  cases oldest with
  | found before after victim older first least =>
      refine ⟨before, after, rfl, ?_⟩
      simp only [takingOrder, List.filter_append, List.filter_cons, older, decide_true, ↓reduceIte]
      exact oldest_first_split age _ _ victim
        (fun other member => first other (List.mem_of_mem_filter member))
        fun other member => least other (List.mem_of_mem_filter member)

end Scan

end OldestFirst
