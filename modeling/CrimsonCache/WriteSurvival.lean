import CrimsonCache.LruEviction

/-!
Whether a value is still in the table when the `dict_add` that wrote it returns.
The eviction inside the insertion takes what was accessed before the new value's
own clock reading, and of what was accessed in the same millisecond whatever
stands in front of it; the new value is next. It stays when the limit is met by
then.
-/

namespace CrimsonCache.WriteSurvival

open CString Dictionary ChainedTable TableRuns OldestFirst LruEviction Runs

/-- The table `dict_add` searches. -/
def grown (alloc : DictAlloc) (d : Dict) : Dict :=
  if d.used ≥ d.size then dictResize alloc.table d else d

/-- The entry an insertion makes. -/
def written (now : Nat) (key : Bytes) (val : CcObj) : DictEntry :=
  ⟨key, { val with lastAccess := now }⟩

/-- The entries the scan passes before the place of a key. A new key goes to the head of its
    bucket. -/
def inFront (d : Dict) (key : Bytes) : List DictEntry :=
  let rows := chain d.table (place d.mask key)
  (d.table.take (place d.mask key)).flatten ++
    if (lookup DictEntry.key key rows).isSome then rows.takeWhile fun entry => entry.key ≠ key
    else []

def behind (d : Dict) (key : Bytes) : List DictEntry :=
  let rows := chain d.table (place d.mask key)
  (if (lookup DictEntry.key key rows).isSome then
      (rows.dropWhile fun entry => entry.key ≠ key).tail
    else rows) ++ (d.table.drop (place d.mask key + 1)).flatten

/-- What an eviction takes before it comes to a value written at `now`. -/
def goFirst (now : Nat) (d : Dict) (key : Bytes) : List DictEntry :=
  oldestFirst lastAccess
      ((inFront d key ++ behind d key).filter fun entry => lastAccess entry < now) ++
    (inFront d key).filter fun entry => lastAccess entry = now

/-- The sizes that are left, the new one among them, come within the limit before its turn. At
    `UINT64_MAX` it has none. -/
def Spared (now : Nat) (d : Dict) (key : Bytes) (val : CcObj) : Prop :=
  2 ^ 64 - 1 ≤ now ∨
    ∃ count ≤ (goFirst now d key).length,
      (weight (inFront d key) + val.size + weight (behind d key) -
        weight ((goFirst now d key).take count)) % 2 ^ 64 ≤ d.maxMemory

section Place

/-- The scan reads the chains in front, the chain of the key, the chains behind. -/
theorem flatten_around (table : Table DictEntry) (index : Nat) (bound : index < table.length) :
    table.flatten = (table.take index).flatten ++ (chain table index ++
      (table.drop (index + 1)).flatten) := by
  have here : chain table index = table[index] := by
    simp [chain, List.getD_eq_getElem?_getD, List.getElem?_eq_getElem bound]
  rw [here]
  conv_lhs => rw [← List.take_append_drop index table, List.drop_eq_getElem_cons bound]
  rw [List.flatten_append, List.flatten_cons]

theorem update_around (table : Table DictEntry) (index : Nat) (bound : index < table.length)
    (change : List DictEntry → List DictEntry) :
    (update table index change).flatten = (table.take index).flatten ++
      (change (chain table index) ++ (table.drop (index + 1)).flatten) := by
  rw [flatten_around (update table index change) index (by simpa using bound),
    chain_update_same table index change bound]
  congr 2
  · rw [update, List.take_modify, List.modify_eq_self (by simp)]
  · rw [update, List.drop_modify_of_lt _ _ _ _ (by omega)]

theorem overwrite_walk (key : Bytes) (rows : List DictEntry) (entry : DictEntry)
    (found : lookup DictEntry.key key rows = some entry) (change : DictEntry → DictEntry) :
    overwrite DictEntry.key key change rows =
      (rows.takeWhile fun other => other.key ≠ key) ++
        change entry :: (rows.dropWhile fun other => other.key ≠ key).tail := by
  induction rows with
  | nil => simp [lookup] at found
  | cons first rest ih =>
      by_cases hit : first.key = key
      · have same : first = entry := by simpa [lookup, hit] using found
        subst same
        simp [overwrite, hit]
      · simpa [hit, overwrite] using ih (by simpa [lookup, hit] using found)

/-- The new entry stands between the entries in front of its place and those behind it. -/
theorem placed_rows (now : Nat) (d : Dict) (table : Structured d) (key : Bytes) (val : CcObj) :
    (placed now d key val).table.flatten =
      inFront d key ++ written now key val :: behind d key := by
  have bound := table.inRange key
  simp only [placed, inFront, behind]
  cases found : lookup DictEntry.key key (chain d.table (place d.mask key)) with
  | some entry =>
      have same : entry.key = key := lookup_key DictEntry.key key _ entry found
      have changed := overwrite_walk key _ entry found
      simp only [update_around d.table _ bound, changed, Option.isSome_some, ↓reduceIte, setVal, same,
        written, List.append_assoc, List.cons_append]
  | none =>
      simp only [update_around d.table _ bound, Option.isSome_none, Bool.false_eq_true, ↓reduceIte,
        written, List.append_nil, List.cons_append]

theorem placed_limit (now : Nat) (d : Dict) (key : Bytes) (val : CcObj) :
    (placed now d key val).maxMemory = d.maxMemory := by
  simp only [placed]
  split <;> rfl

end Place

section Survival

variable (now : Nat) (d : Dict) (key : Bytes) (val : CcObj)

theorem filter_earlier (rows : List DictEntry) (early : now < 2 ^ 64 - 1) (keep : Nat → Bool)
    (least : ∀ access, keep access = true → access ≤ now) :
    (rows.filter fun entry => lastAccess entry < 2 ^ 64 - 1).filter (fun entry =>
        keep (lastAccess entry)) = rows.filter fun entry => keep (lastAccess entry) := by
  rw [List.filter_filter]
  congr 1
  funext entry
  cases kept : keep (lastAccess entry) with
  | false => rfl
  | true =>
      have before := least _ kept
      simp only [Bool.true_and, decide_eq_true_eq]
      omega

/-- The turn of the new entry in the order of eviction. -/
theorem written_turn (table : Structured d) (early : now < 2 ^ 64 - 1) :
    ∃ later, evictionOrder (placed now d key val) =
      goFirst now d key ++ written now key val :: later := by
  have access : lastAccess (written now key val) = now := rfl
  have listed : decide (lastAccess (written now key val) < 2 ^ 64 - 1) = true := decide_eq_true early
  have rows := placed_rows now d table key val
  obtain ⟨later, order⟩ := oldest_first_place lastAccess
    ((inFront d key).filter fun entry => lastAccess entry < 2 ^ 64 - 1)
    ((behind d key).filter fun entry => lastAccess entry < 2 ^ 64 - 1) (written now key val)
  refine ⟨later, ?_⟩
  have older := filter_earlier now (inFront d key ++ behind d key) early (fun access => access < now)
    fun access below => by
      have strictly : access < now := of_decide_eq_true below
      omega
  have equals := filter_earlier now (inFront d key) early (fun access => access = now)
    fun access same => (of_decide_eq_true same).le
  rw [evictionOrder, takingOrder, rows, List.filter_append,
    List.filter_cons, if_pos listed]
  rw [access, ← List.filter_append, older, equals] at order
  exact order

/-- The eviction stops before the new entry exactly when it is spared. -/
theorem spared_iff_kept (table : Structured d) (count : Nat) (after : Dict)
    (evicted : Evicted (placed now d key val) count after) :
    written now key val ∉ (evictionOrder (placed now d key val)).take count ↔
      Spared now d key val := by
  have distinct : (evictionOrder (placed now d key val)).Nodup :=
    (oldest_first_perm lastAccess _).nodup_iff.mpr
      ((placed_structured now d table key val).valid.distinct_flatten.of_map.filter _)
  by_cases late : 2 ^ 64 - 1 ≤ now
  · simp only [Spared, late, true_or, iff_true]
    intro member
    have listed := (oldest_first_perm lastAccess _).mem_iff.mp (List.mem_of_mem_take member)
    have early : now < 2 ^ 64 - 1 := of_decide_eq_true (List.mem_filter.mp listed).2
    omega
  · obtain ⟨later, turn⟩ := written_turn now d key val table (by omega)
    have whole : weight (placed now d key val).table.flatten =
        weight (inFront d key) + val.size + weight (behind d key) := by
      have size : (written now key val).val.size = val.size := rfl
      rw [placed_rows now d table key val, weight_append, weight_cons, size]
      omega
    -- Up to the new entry's turn the order is what goes first.
    have left (fewer : Nat) (within : fewer ≤ (goFirst now d key).length) :
        memoryLeft (placed now d key val) fewer =
          (weight (inFront d key) + val.size + weight (behind d key) -
            weight ((goFirst now d key).take fewer)) % 2 ^ 64 := by
      rw [memoryLeft, whole, turn, List.take_append_of_le_length within]
    have limit := placed_limit now d key val
    rw [turn] at distinct ⊢
    simp only [Spared, late, false_or]
    constructor
    · intro kept
      have within : count ≤ (goFirst now d key).length := by
        by_contra beyond
        apply kept
        obtain ⟨more, rfl⟩ : ∃ more, count = (goFirst now d key).length + (more + 1) :=
          ⟨count - (goFirst now d key).length - 1, by omega⟩
        rw [List.take_length_add_append, List.take_succ_cons]
        exact List.mem_append_right _ List.mem_cons_self
      refine ⟨count, within, ?_⟩
      rcases evicted.settled with settled | none
      · rwa [left count within, limit] at settled
      · have some := congrArg List.length turn
        simp only [List.length_append, List.length_cons] at some
        omega
    · rintro ⟨fewer, within, fits⟩ taken
      have enough : count ≤ fewer := by
        by_contra beyond
        have exceeded := evicted.exceeded fewer (by omega)
        rw [left fewer within, limit] at exceeded
        omega
      rw [List.take_append_of_le_length (by omega)] at taken
      have apart := (List.nodup_append.mp distinct).2.2
      exact apart _ (List.mem_of_mem_take taken) _ List.mem_cons_self rfl

/-- A lookup after the eviction finds the new value exactly when it was not taken. -/
theorem kept_iff_found (table : Structured d) (unexpired : expired now val.expire = false)
    (count : Nat) (after : Dict) (structured : Structured after)
    (evicted : Evicted (placed now d key val) count after) :
    (dictGet now after key).2 = some (touch now val) ↔
      written now key val ∉ (evictionOrder (placed now d key val)).take count := by
  have made := placed_structured now d table key val
  have member : written now key val ∈ (placed now d key val).table.flatten := by
    rw [placed_rows now d table key val]
    exact List.mem_append_right _ List.mem_cons_self
  have stored := (lookup_some DictEntry.key key _ _ made.valid.unique).mpr ⟨member, rfl⟩
  have found : lookup DictEntry.key key after.table.flatten =
      (some (written now key val)).filter fun entry =>
        entry ∉ (evictionOrder (placed now d key val)).take count := by
    rw [evicted.table, flatten_filter, lookup_filter _ _ _ _ made.valid.distinct_flatten, stored]
  simp only [dictGet, structured.search key, found]
  by_cases taken : written now key val ∈ (evictionOrder (placed now d key val)).take count
  · simp [Option.filter, taken]
  · have alive : expired now (written now key val).val.expire = false := unexpired
    rw [Option.filter_some, if_pos (decide_eq_true taken)]
    simp only [alive, Bool.false_eq_true, ↓reduceIte]
    exact iff_of_true rfl taken

end Survival

section Fit

theorem weight_parts (keep : DictEntry → Bool) (rows : List DictEntry) :
    weight rows = weight (rows.filter keep) + weight (rows.filter fun entry => !keep entry) := by
  induction rows with
  | nil => rfl
  | cons entry rest ih =>
      cases kept : keep entry <;> simp only [List.filter_cons, kept, Bool.not_true, Bool.not_false,
        Bool.false_eq_true, ↓reduceIte, weight_cons] <;> omega

/-- What goes first is all but the entries accessed later and those of the same millisecond
    behind the place of the key. -/
theorem go_first_weight (now : Nat) (d : Dict) (key : Bytes) :
    weight (inFront d key) + weight (behind d key) = weight (goFirst now d key) +
      weight ((inFront d key).filter fun entry => now < lastAccess entry) +
      weight ((behind d key).filter fun entry => now ≤ lastAccess entry) := by
  have sorted := weight_perm _ _ (oldest_first_perm lastAccess
    ((inFront d key ++ behind d key).filter fun entry => lastAccess entry < now))
  have front := weight_parts (fun entry => lastAccess entry < now) (inFront d key)
  have back := weight_parts (fun entry => lastAccess entry < now) (behind d key)
  have rest := weight_parts (fun entry => lastAccess entry = now)
    ((inFront d key).filter fun entry => !decide (lastAccess entry < now))
  have later : (fun entry => !decide (lastAccess entry < now)) =
      fun entry => decide (now ≤ lastAccess entry) := by
    funext entry
    rw [Bool.eq_iff_iff]
    simp
  have same : (fun entry => decide (lastAccess entry = now) && decide (now ≤ lastAccess entry)) =
      fun entry => decide (lastAccess entry = now) := by
    funext entry
    by_cases equal : lastAccess entry = now <;> simp [equal]
  have younger : (fun entry => !decide (lastAccess entry = now) && decide (now ≤ lastAccess entry)) =
      fun entry => decide (now < lastAccess entry) := by
    funext entry
    rw [Bool.eq_iff_iff]
    simp only [Bool.and_eq_true, Bool.not_eq_true', decide_eq_false_iff_not, decide_eq_true_eq]
    omega
  rw [later] at back
  rw [later, List.filter_filter, List.filter_filter, same, younger] at rest
  rw [later] at front
  rw [List.filter_append] at sorted
  simp only [goFirst, weight_append, List.filter_append] at sorted ⊢
  omega

/-- While all sizes together fit a `size_t`, the new value stays when it and the entries whose turn
    comes after it fit into the limit. -/
theorem spared_iff_fits (now : Nat) (d : Dict) (key : Bytes) (val : CcObj)
    (early : now < 2 ^ 64 - 1)
    (fits : weight (inFront d key) + val.size + weight (behind d key) < 2 ^ 64) :
    Spared now d key val ↔
      val.size + weight ((inFront d key).filter fun entry => now < lastAccess entry) +
        weight ((behind d key).filter fun entry => now ≤ lastAccess entry) ≤ d.maxMemory := by
  have whole := go_first_weight now d key
  have taken (count : Nat) : weight ((goFirst now d key).take count) ≤ weight (goFirst now d key) := by
    conv_rhs => rw [← List.take_append_drop count (goFirst now d key), weight_append]
    omega
  simp only [Spared, show ¬ 2 ^ 64 - 1 ≤ now by omega, false_or]
  constructor
  · rintro ⟨count, -, within⟩
    have less := taken count
    omega
  · intro within
    refine ⟨(goFirst now d key).length, Nat.le_refl _, ?_⟩
    rw [List.take_length]
    omega

end Fit

section Reachable

variable (alloc : DictAlloc) (now : Nat) (key : Bytes) (val : CcObj)

/-- Under any limit, a write that `dict_add` reports as done is read back at the same clock
    reading exactly when it is spared. -/
theorem write_survives_iff (created : Bool) (initialSize : Nat) (start : Dict)
    (made : dictCreate created initialSize = some start) (steps : List TableStep)
    (limited : 0 < (run tableStep start steps).maxMemory)
    (unexpired : expired now val.expire = false)
    (added : (dictAdd alloc now (run tableStep start steps) key val).2 = true) :
    (dictGet now (dictAdd alloc now (run tableStep start steps) key val).1 key).2 =
        some (touch now val) ↔
      Spared now (grown alloc (run tableStep start steps)) key val := by
  obtain ⟨fresh, nothing⟩ := create_represents created initialSize start made
  have structured := run_structured start fresh.structured steps
  have sums := run_accounted start fresh.structured (created_accounted _ _ _ made) steps
  generalize run tableStep start steps = d at limited added structured sums ⊢
  have table : Structured (grown alloc d) := grow_structured alloc.table d structured
  have limit : (grown alloc d).maxMemory = d.maxMemory := grow_limit alloc.table d
  have kept : (placed now (grown alloc d) key val).maxMemory ≠ 0 := by
    rw [placed_limit, limit]
    exact Nat.pos_iff_ne_zero.mp limited
  have sole : dictAdd alloc now d key val =
      (dictEvictLruIfNeeded (placed now (grown alloc d) key val), true) := by
    rcases add_entry_cases alloc now (grown alloc d) key val with done | failed
    · exact done
    · have refused : dictAdd alloc now d key val = (grown alloc d, false) := failed
      simp [refused] at added
  obtain ⟨count, evicted, -⟩ := eviction_takes (placed now (grown alloc d) key val)
    (placed_structured now _ table key val)
    (placed_accounted now _ table (grow_accounted alloc.table d structured sums) key val) kept
  rw [sole, kept_iff_found now _ key val table unexpired count _
    (evict_structured _ (placed_structured now _ table key val)) evicted]
  exact spared_iff_kept now _ key val table count _ evicted

def plenty : DictAlloc := ⟨true, true, true⟩

/-- A limit that only one of two entries of size three fits. -/
def tightSteps : List TableStep :=
  [.limit 5, .call (.add plenty 1 (ascii "a") ⟨ascii "vv", .string, 0, 3, 0⟩)]

theorem later_write_survives :
    (dictGet 2 (dictAdd plenty 2 (run tableStep fourBuckets tightSteps) (ascii "c")
      ⟨ascii "ww", .string, 0, 3, 0⟩).1 (ascii "c")).2 = some ⟨ascii "ww", .string, 0, 3, 2⟩ := by
  have spared := (spared_iff_fits 2 (grown plenty (run tableStep fourBuckets tightSteps)) (ascii "c")
    ⟨ascii "ww", .string, 0, 3, 0⟩ (by decide) (by decide +kernel)).mpr (by decide +kernel)
  exact (write_survives_iff plenty 2 (ascii "c") ⟨ascii "ww", .string, 0, 3, 0⟩ true 4 fourBuckets
    four_buckets_created tightSteps (by decide +kernel) rfl (by decide +kernel)).mpr spared

/-- Of two entries of one millisecond the new one is evicted, as its bucket comes first. -/
theorem tie_evicts_write :
    dictCreate true 4 = some fourBuckets ∧
      (run tableStep fourBuckets tightSteps).maxMemory = 5 ∧
      (dictAdd plenty 1 (run tableStep fourBuckets tightSteps) (ascii "c")
        ⟨ascii "ww", .string, 0, 3, 0⟩).2 = true ∧
      expired 1 0 = false ∧ 3 ≤ 5 ∧
      (dictGet 1 (dictAdd plenty 1 (run tableStep fourBuckets tightSteps) (ascii "c")
        ⟨ascii "ww", .string, 0, 3, 0⟩).1 (ascii "c")).2 = none := by
  decide +kernel

end Reachable

end CrimsonCache.WriteSurvival
