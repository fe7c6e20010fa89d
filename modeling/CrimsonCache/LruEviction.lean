import CrimsonCache.Library.OldestFirst
import CrimsonCache.TableRuns

/-!
What `dict_evict_lru_if_needed` takes out of a table. Its scan finds the first of
the least recently used entries, so its recursion takes the entries one by one in
the order of their access times, and of their place in the table where the times
are the same, until the memory counter is within the limit.
-/

namespace CrimsonCache.LruEviction

open CString Dictionary ChainedTable TableRuns OldestFirst Runs

def lastAccess (entry : DictEntry) : Nat := entry.val.lastAccess

/-- The entries an eviction can take, in the order it takes them. -/
def evictionOrder (d : Dict) : List DictEntry :=
  takingOrder lastAccess (2 ^ 64 - 1) d.table.flatten

/-- The memory counter once the first entries of the order are gone. -/
def memoryLeft (d : Dict) (count : Nat) : Nat :=
  (weight d.table.flatten - weight ((evictionOrder d).take count)) % 2 ^ 64

/-- The calls of the recursion that evict an entry: the table as they find it and the entry. -/
def evictSteps : Nat → Dict → List (Dict × DictEntry)
  | 0, _ => []
  | rounds + 1, d =>
      if d.maxMemory = 0 ∨ d.usedMemory ≤ d.maxMemory then []
      else match lruEntry d with
        | none => []
        | some (idx, position, victim) =>
            (d, victim) :: evictSteps rounds (evictEntry d idx position victim)

/-- The first `count` entries of the order are gone, and not one of them too many. -/
structure Evicted (d : Dict) (count : Nat) (after : Dict) : Prop where
  within : count ≤ (evictionOrder d).length
  table : after.table =
    d.table.map (List.filter fun entry => entry ∉ (evictionOrder d).take count)
  used : after.used = d.used - count
  usedMemory : after.usedMemory = memoryLeft d count
  size : after.size = d.size
  mask : after.mask = d.mask
  maxMemory : after.maxMemory = d.maxMemory
  exceeded : ∀ earlier < count, d.maxMemory < memoryLeft d earlier
  settled : memoryLeft d count ≤ d.maxMemory ∨ count = (evictionOrder d).length

section Scan

/-- The scan holds what the entries it has passed give. -/
structure Sees (seen : List DictEntry) (scan : LruScan) : Prop where
  oldest : Oldest lastAccess (2 ^ 64 - 1) seen (scan.lru.map fun place => place.2.2)
  access : scan.oldestAccess =
    bar lastAccess (2 ^ 64 - 1) (scan.lru.map fun place => place.2.2)

theorem scan_step_sees (seen : List DictEntry) (scan : LruScan) (sees : Sees seen scan)
    (idx position : Nat) (entry : DictEntry) :
    Sees (seen ++ [entry])
      (if entry.val.lastAccess < scan.oldestAccess then
        ⟨entry.val.lastAccess, some (idx, position, entry)⟩
      else scan) := by
  have next := sees.oldest.snoc lastAccess (2 ^ 64 - 1) entry
  rw [← sees.access] at next
  by_cases older : entry.val.lastAccess < scan.oldestAccess
  · rw [if_pos older]
    exact ⟨by simpa [lastAccess, older] using next, rfl⟩
  · rw [if_neg older]
    exact ⟨by simpa [lastAccess, older] using next, sees.access⟩

theorem scan_chain_sees (idx position : Nat) (seen rows : List DictEntry) (scan : LruScan)
    (sees : Sees seen scan) : Sees (seen ++ rows) (scanChain idx position rows scan) := by
  induction rows generalizing seen position scan with
  | nil => simpa [scanChain] using sees
  | cons entry rest ih =>
      have tail := ih (position + 1) (seen ++ [entry]) _
        (scan_step_sees seen scan sees idx position entry)
      simpa [scanChain] using tail

theorem scan_table_sees (idx : Nat) (seen : List DictEntry) (table : Table DictEntry)
    (scan : LruScan) (sees : Sees seen scan) :
    Sees (seen ++ table.flatten) (scanTable idx table scan) := by
  induction table generalizing seen idx scan with
  | nil => simpa [scanTable] using sees
  | cons rows rest ih =>
      have tail := ih (idx + 1) (seen ++ rows) _ (scan_chain_sees idx 0 seen rows scan sees)
      simpa [scanTable] using tail

/-- The scan of the table finds the first of the least recently used entries. -/
theorem lru_entry_oldest (d : Dict) :
    Oldest lastAccess (2 ^ 64 - 1) d.table.flatten ((lruEntry d).map fun place => place.2.2) := by
  have start : Sees [] ⟨2 ^ 64 - 1, none⟩ := ⟨.absent (by simp), rfl⟩
  simpa [lruEntry] using (scan_table_sees 0 [] d.table _ start).oldest

end Scan

section Removal

theorem filter_apart (before after : List DictEntry) (victim : DictEntry)
    (distinct : (before ++ victim :: after).Nodup) :
    (before ++ victim :: after).filter (fun entry => entry ≠ victim) = before ++ after := by
  obtain ⟨front, back, apart⟩ := List.nodup_append.mp distinct
  have kept : before.filter (fun entry => entry ≠ victim) = before := by
    rw [List.filter_eq_self]
    intro entry member
    simpa using apart entry member victim List.mem_cons_self
  have rest : after.filter (fun entry => entry ≠ victim) = after := by
    rw [List.filter_eq_self]
    intro entry member
    have different : entry ≠ victim := fun same =>
      (List.nodup_cons.mp back).1 (same ▸ member)
    simpa using different
  rw [List.filter_append, List.filter_cons_of_neg (by simp), kept, rest]

/-- Unlinking the entry at its place takes it out of the table and nothing else. -/
theorem evict_entry_table (d : Dict) (table : Structured d) (idx position : Nat)
    (victim : DictEntry) (stored : (chain d.table idx)[position]? = some victim) :
    (evictEntry d idx position victim).table =
      d.table.map (List.filter fun entry => entry ≠ victim) := by
  obtain ⟨inside, same⟩ := List.getElem?_eq_some_iff.mp stored
  have bound := chain_in_range d.table idx position victim stored
  apply table_ext
  · simp [evictEntry]
  intro index
  rw [chain_map_filter]
  by_cases home : idx = index
  · subst home
    simp only [evictEntry, chain_update_same _ _ _ bound]
    have split : chain d.table idx =
        (chain d.table idx).take position ++ victim :: (chain d.table idx).drop (position + 1) := by
      rw [← same, List.getElem_cons_drop, List.take_append_drop]
    have distinct : (chain d.table idx).Nodup := (table.valid.distinct idx).of_map
    rw [split] at distinct
    conv_rhs => rw [split, filter_apart _ _ _ distinct]
    exact List.eraseIdx_eq_take_drop_succ _ _
  · simp only [evictEntry, chain_update_other _ _ _ _ home]
    symm
    rw [List.filter_eq_self]
    intro entry member
    have elsewhere : entry ≠ victim := by
      rintro rfl
      have here := table.valid.home idx entry (List.mem_of_getElem? stored)
      exact home (here.symm.trans (table.valid.home index entry member))
    simpa using elsewhere

/-- An evicted entry led the order, and its size leaves the table with it. -/
theorem lru_leads (d : Dict) (table : Structured d) (idx position : Nat) (victim : DictEntry)
    (found : lruEntry d = some (idx, position, victim)) :
    evictionOrder d = victim :: evictionOrder (evictEntry d idx position victim) ∧
      weight d.table.flatten =
        victim.val.size + weight (evictEntry d idx position victim).table.flatten := by
  have oldest := lru_entry_oldest d
  rw [found, Option.map_some] at oldest
  obtain ⟨before, after, rows, leads⟩ := oldest.leads
  have distinct : d.table.flatten.Nodup := table.valid.distinct_flatten.of_map
  have left : (evictEntry d idx position victim).table.flatten = before ++ after := by
    rw [evict_entry_table d table idx position victim (lru_entry_points d idx position victim found),
      flatten_filter]
    rw [rows] at distinct ⊢
    exact filter_apart before after victim distinct
  constructor
  · rw [evictionOrder, leads, evictionOrder, left]
  · rw [left, rows]
    simp only [weight_append, weight_cons]
    omega

end Removal

section Rounds

@[simp] theorem memory_left_none (d : Dict) (sums : Accounted d) : memoryLeft d 0 = d.usedMemory := by
  simpa [memoryLeft] using sums.symm

/-- What is left of the counter after one more entry is what is left without it. -/
theorem memory_left_step (d : Dict) (table : Structured d) (idx position : Nat) (victim : DictEntry)
    (found : lruEntry d = some (idx, position, victim)) (count : Nat) :
    memoryLeft d (count + 1) = memoryLeft (evictEntry d idx position victim) count := by
  obtain ⟨leads, whole⟩ := lru_leads d table idx position victim found
  simp only [memoryLeft, leads, List.take_succ_cons, weight_cons, whole]
  congr 1
  omega

theorem nothing_evicted (d : Dict) (sums : Accounted d)
    (settled : d.usedMemory ≤ d.maxMemory ∨ evictionOrder d = []) : Evicted d 0 d where
  within := Nat.zero_le _
  table := by
    have all (rows : List DictEntry) :
        rows.filter (fun entry => entry ∉ (evictionOrder d).take 0) = rows := by simp
    exact (List.map_id'' all d.table).symm
  used := rfl
  usedMemory := (memory_left_none d sums).symm
  size := rfl
  mask := rfl
  maxMemory := rfl
  exceeded := fun _ impossible => absurd impossible (Nat.not_lt_zero _)
  settled := by
    rw [memory_left_none d sums]
    exact settled.imp_right fun none => by simp [none]

/-- One evicted entry in front of what the rest of the recursion evicts. -/
theorem evicted_step (d : Dict) (table : Structured d) (sums : Accounted d) (idx position : Nat)
    (victim : DictEntry) (found : lruEntry d = some (idx, position, victim))
    (exceeded : d.maxMemory < d.usedMemory) (count : Nat) (after : Dict)
    (evicted : Evicted (evictEntry d idx position victim) count after) :
    Evicted d (count + 1) after := by
  have leads := (lru_leads d table idx position victim found).1
  have left := memory_left_step d table idx position victim found
  constructor
  · simpa [leads] using evicted.within
  · rw [evicted.table, evict_entry_table d table idx position victim
      (lru_entry_points d idx position victim found), List.map_map, leads, List.take_succ_cons]
    congr 1
    funext rows
    simp only [Function.comp_apply, List.filter_filter]
    congr 1
    funext entry
    simp [Bool.and_comm]
  · rw [evicted.used]
    simp only [evictEntry]
    omega
  · rw [evicted.usedMemory, left]
  · exact evicted.size
  · exact evicted.mask
  · exact evicted.maxMemory
  · intro earlier before
    cases earlier with
    | zero => rwa [memory_left_none d sums]
    | succ earlier =>
        rw [left]
        exact evicted.exceeded earlier (by omega)
  · rw [left, leads, List.length_cons]
    exact evicted.settled.imp_right (congrArg (· + 1))

theorem rounds_evict (rounds : Nat) (d : Dict) (table : Structured d) (sums : Accounted d)
    (limited : d.maxMemory ≠ 0) (enough : (evictionOrder d).length ≤ rounds) :
    ∃ count, Evicted d count (evictRounds rounds d) ∧
      (evictSteps rounds d).map Prod.snd = (evictionOrder d).take count := by
  induction rounds generalizing d with
  | zero =>
      have none : evictionOrder d = [] := List.length_eq_zero_iff.mp (Nat.le_zero.mp enough)
      exact ⟨0, nothing_evicted d sums (Or.inr none), rfl⟩
  | succ rounds ih =>
      simp only [evictRounds, evictSteps, limited, false_or]
      by_cases within : d.usedMemory ≤ d.maxMemory
      · rw [if_pos within, if_pos within]
        exact ⟨0, nothing_evicted d sums (Or.inl within), rfl⟩
      · rw [if_neg within, if_neg within]
        cases found : lruEntry d with
        | none =>
            have oldest := lru_entry_oldest d
            rw [found] at oldest
            exact ⟨0, nothing_evicted d sums (Or.inr oldest.nothing_left), rfl⟩
        | some place =>
            obtain ⟨idx, position, victim⟩ := place
            have stored := lru_entry_points d idx position victim found
            have leads := (lru_leads d table idx position victim found).1
            rw [leads, List.length_cons] at enough
            obtain ⟨count, evicted, taken⟩ := ih (evictEntry d idx position victim)
              (evict_entry_structured d table idx position victim stored)
              (evict_entry_accounted d idx position victim sums stored) limited (by omega)
            refine ⟨count + 1, evicted_step d table sums idx position victim found (by omega) count _
              evicted, ?_⟩
            simp [leads, taken]

theorem order_within (d : Dict) : (evictionOrder d).length ≤ d.table.flatten.length := by
  rw [evictionOrder, takingOrder, (oldest_first_perm lastAccess _).length_eq]
  exact List.length_filter_le _ _

/-- Any number of rounds that lets the recursion come to its end evicts the same. -/
theorem rounds_agree (rounds : Nat) (d : Dict) (enough : d.table.flatten.length ≤ rounds) :
    evictRounds rounds d = dictEvictLruIfNeeded d := by
  suffices same : ∀ fewer more (d : Dict), d.table.flatten.length ≤ fewer → fewer ≤ more →
      evictRounds more d = evictRounds fewer d from same _ rounds d (Nat.le_refl _) enough
  intro fewer
  induction fewer with
  | zero =>
      intro more d none _
      have blank : lruEntry d = Option.none := by
        cases found : lruEntry d with
        | none => rfl
        | some place =>
            have shorter := evict_entry_length d place.1 place.2.1 place.2.2
              (lru_entry_points d place.1 place.2.1 place.2.2 found)
            omega
      cases more with
      | zero => rfl
      | succ more => simp [evictRounds, blank]
  | succ fewer ih =>
      intro more d enough greater
      obtain ⟨more, rfl⟩ : ∃ rest, more = rest + 1 := ⟨more - 1, by omega⟩
      simp only [evictRounds]
      split
      · rfl
      · split
        · rfl
        case h_2 idx position victim found =>
          have shorter := evict_entry_length d idx position victim
            (lru_entry_points d idx position victim found)
          exact ih more _ (by omega) (by omega)

/-- An eviction takes the first entries of the order, as few as bring the counter within the
    limit. -/
theorem eviction_takes (d : Dict) (table : Structured d) (sums : Accounted d)
    (limited : d.maxMemory ≠ 0) :
    ∃ count, Evicted d count (dictEvictLruIfNeeded d) ∧
      (evictSteps d.table.flatten.length d).map Prod.snd = (evictionOrder d).take count :=
  rounds_evict _ d table sums limited (order_within d)

/-- An evicted entry's size never exceeds the counter it is taken from. -/
theorem steps_covered (rounds : Nat) (d : Dict) (table : Structured d) (sums : Accounted d)
    (fits : weight d.table.flatten < 2 ^ 64) :
    ∀ call ∈ evictSteps rounds d, call.2.val.size ≤ call.1.usedMemory := by
  induction rounds generalizing d with
  | zero => simp [evictSteps]
  | succ rounds ih =>
      simp only [evictSteps]
      split
      · simp
      · split
        · simp
        case h_2 idx position victim found =>
          have whole := (lru_leads d table idx position victim found).2
          have stored := lru_entry_points d idx position victim found
          intro call member
          rcases List.mem_cons.mp member with rfl | later
          · simp only [Accounted, Nat.mod_eq_of_lt fits] at sums
            dsimp only
            omega
          · exact ih _ (evict_entry_structured d table idx position victim stored)
              (evict_entry_accounted d idx position victim sums stored) (by omega) call later

end Rounds

section Exactness

/-- When every entry can be evicted, the order lists the whole table. -/
theorem order_lists_table (d : Dict)
    (dated : ∀ entry ∈ d.table.flatten, entry.val.lastAccess < 2 ^ 64 - 1) :
    (evictionOrder d).Perm d.table.flatten ∧
      (evictionOrder d).Pairwise (Ahead lastAccess d.table.flatten) := by
  have all : d.table.flatten.filter (fun entry => lastAccess entry < 2 ^ 64 - 1) =
      d.table.flatten := by
    rw [List.filter_eq_self]
    exact fun entry member => decide_eq_true (dated entry member)
  rw [evictionOrder, takingOrder, all]
  exact ⟨oldest_first_perm lastAccess _, oldest_first_ahead lastAccess _⟩

/-- The counter is then the weight of the entries that are still to come in the order. -/
theorem memory_left_weight (d : Dict) (fits : weight d.table.flatten < 2 ^ 64)
    (listed : (evictionOrder d).Perm d.table.flatten) (count : Nat) :
    memoryLeft d count = weight ((evictionOrder d).drop count) := by
  have whole := weight_perm _ _ listed
  rw [← List.take_append_drop count (evictionOrder d), weight_append] at whole
  simp only [memoryLeft]
  omega

/-- An eviction takes the first entries by access time and place, as few as bring the sum of the
    sizes within the limit, and leaves all others as they stand in their chains. -/
theorem eviction_exact (d : Dict) (table : Structured d) (sums : Accounted d)
    (limited : 0 < d.maxMemory) (fits : weight d.table.flatten < 2 ^ 64)
    (dated : ∀ entry ∈ d.table.flatten, entry.val.lastAccess < 2 ^ 64 - 1) :
    ∃ (order : List DictEntry) (count : Nat),
      order.Perm d.table.flatten ∧ order.Pairwise (Ahead lastAccess d.table.flatten) ∧
      (∀ rounds ≥ d.table.flatten.length, evictRounds rounds d = dictEvictLruIfNeeded d) ∧
      (∀ call ∈ evictSteps d.table.flatten.length d, call.2.val.size ≤ call.1.usedMemory) ∧
      (evictSteps d.table.flatten.length d).map Prod.snd = order.take count ∧
      (dictEvictLruIfNeeded d).usedMemory = weight (order.drop count) ∧
      weight (order.drop count) ≤ d.maxMemory ∧
      (∀ fewer < count, d.maxMemory < weight (order.drop fewer)) ∧
      (dictEvictLruIfNeeded d).table =
        d.table.map (List.filter fun entry => entry ∉ order.take count) ∧
      (dictEvictLruIfNeeded d).used = d.used - count := by
  obtain ⟨count, evicted, taken⟩ := eviction_takes d table sums (Nat.pos_iff_ne_zero.mp limited)
  obtain ⟨listed, ahead⟩ := order_lists_table d dated
  have left := memory_left_weight d fits listed
  refine ⟨evictionOrder d, count, listed, ahead, fun rounds => rounds_agree rounds d,
    steps_covered _ d table sums fits, taken, ?_, ?_, ?_, evicted.table, evicted.used⟩
  · rw [evicted.usedMemory, left]
  · rcases evicted.settled with within | none
    · rwa [← left]
    -- With nothing left in the table the counter is zero.
    · simp [none]
  · intro fewer before
    rw [← left]
    exact evicted.exceeded fewer before

/-- A new table of four buckets. -/
def fourBuckets : Dict := (dictCreate true 4).getD ⟨[], 0, 0, 0, 0, 0⟩

theorem four_buckets_created : dictCreate true 4 = some fourBuckets := rfl

/-- Three entries, of which the second is the oldest. -/
def threeAdded : List TableStep :=
  [.call (.add ⟨true, true, true⟩ 2 (ascii "a") ⟨ascii "vv", .string, 0, 3, 0⟩),
    .call (.add ⟨true, true, true⟩ 1 (ascii "b") ⟨ascii "www", .string, 0, 4, 0⟩),
    .call (.add ⟨true, true, true⟩ 2 (ascii "c") ⟨ascii "x", .string, 0, 2, 0⟩)]

/-- A limit that the newer two do not fit either. -/
def crowded : Dict := { run tableStep fourBuckets threeAdded with maxMemory := 4 }

theorem crowded_eviction_exact :
    ∃ (order : List DictEntry) (count : Nat),
      order.Perm crowded.table.flatten ∧
      (dictEvictLruIfNeeded crowded).usedMemory = weight (order.drop count) ∧
      weight (order.drop count) ≤ 4 := by
  have fresh := (create_represents true 4 _ four_buckets_created).1.structured
  have table := run_structured _ fresh threeAdded
  obtain ⟨order, count, listed, -, -, -, -, used, within, -⟩ := eviction_exact crowded
    ⟨table.valid, table.length, table.mask, table.power, table.used⟩
    (by rw [Accounted]; decide +kernel) (by decide +kernel) (by decide +kernel) (by decide +kernel)
  exact ⟨order, count, listed, used, within⟩

end Exactness

end CrimsonCache.LruEviction
