import CrimsonCache.DataCommands
import CrimsonCache.DictionaryRefinement
import CrimsonCache.Library.Runs

/-!
Runs of the hash table's interface under any memory limit, clock and allocation
failures. Next to the structure of the table stand its two counters: the memory
counter is the sum of the stored sizes as `size_t` has it, and `used` stays
within the bucket count as long as growing the table succeeds.
-/

namespace CrimsonCache.TableRuns

open CString Dictionary ChainedTable DataCommands Runs

section Memory

/-- What the stored values occupy, before `size_t` wraps it. -/
def weight (rows : List DictEntry) : Nat := (rows.map fun entry => entry.val.size).sum

@[simp] theorem weight_nil : weight [] = 0 := rfl

@[simp] theorem weight_cons (entry : DictEntry) (rows : List DictEntry) :
    weight (entry :: rows) = entry.val.size + weight rows := by
  simp [weight]

@[simp] theorem weight_append (first second : List DictEntry) :
    weight (first ++ second) = weight first + weight second := by
  simp [weight]

theorem weight_perm (first second : List DictEntry) (same : first.Perm second) :
    weight first = weight second :=
  (same.map _).sum_nat

def Accounted (d : Dict) : Prop := d.usedMemory = weight d.table.flatten % 2 ^ 64

theorem add_size_mod (a b : Nat) : addSize (a % 2 ^ 64) b = (a + b) % 2 ^ 64 := by
  simp only [addSize]
  omega

theorem sub_size_mod (a b : Nat) : subSize ((a + b) % 2 ^ 64) b = a % 2 ^ 64 := by
  simp only [subSize]
  omega

/-- An edit of one chain moves the weight of the table as it moves the chain's. -/
theorem edit_weight (table : Table DictEntry) (index : Nat) (bound : index < table.length)
    (change : List DictEntry → List DictEntry) :
    weight (update table index change).flatten + weight (chain table index) =
      weight table.flatten + weight (change (chain table index)) := by
  obtain ⟨before, after, old, new⟩ := flatten_update table index bound change
  simp only [old, new, weight_append]
  omega

/-- An edit that puts other entries where one stood in its chain. -/
theorem replace_weight (table : Table DictEntry) (index : Nat) (bound : index < table.length)
    (change : List DictEntry → List DictEntry) (before after replacement : List DictEntry)
    (entry : DictEntry) (old : chain table index = before ++ entry :: after)
    (new : change (chain table index) = before ++ (replacement ++ after)) :
    ∃ base, weight table.flatten = base + entry.val.size ∧
      weight (update table index change).flatten = base + weight replacement := by
  obtain ⟨front, back, whole, edited⟩ := flatten_update table index bound change
  refine ⟨weight front + weight before + weight after + weight back, ?_, ?_⟩
  · simp only [whole, old, weight_append, weight_cons]
    omega
  · simp only [edited, new, weight_append]
    omega

/-- A chain edit that takes one entry out. -/
theorem shorten_accounted (d : Dict) (sums : Accounted d) (index : Nat)
    (bound : index < d.table.length) (change : List DictEntry → List DictEntry)
    (before after : List DictEntry) (entry : DictEntry)
    (old : chain d.table index = before ++ entry :: after)
    (new : change (chain d.table index) = before ++ after) (used : Nat) :
    Accounted { d with
      table := update d.table index change
      used := used
      usedMemory := subSize d.usedMemory entry.val.size } := by
  obtain ⟨base, whole, rest⟩ := replace_weight d.table index bound change before after [] entry old new
  simp only [Accounted] at sums ⊢
  rw [sums, whole, sub_size_mod, rest, weight_nil, Nat.add_zero]

theorem delete_accounted (d : Dict) (table : Structured d) (sums : Accounted d) (key : Bytes) :
    Accounted (dictDelete d key).1 := by
  simp only [dictDelete]
  split
  case h_1 => exact sums
  case h_2 entry found =>
    obtain ⟨before, after, old, _, rest⟩ := lookup_split DictEntry.key key _ entry found
    exact shorten_accounted d sums (place d.mask key) (table.inRange key) (unlink DictEntry.key key)
      before after entry old rest (d.used - 1)

/-- Writes through an object pointer that leave the size alone. -/
theorem update_obj_accounted (d : Dict) (table : Structured d) (sums : Accounted d) (key : Bytes)
    (change : CcObj → CcObj) (kept : ∀ obj, (change obj).size = obj.size) :
    Accounted (updateObj d key change) := by
  have chained : weight (overwrite DictEntry.key key (setVal change)
      (chain d.table (place d.mask key))) = weight (chain d.table (place d.mask key)) := by
    simp only [weight]
    rw [overwrite_map DictEntry.key _ key (setVal change) _ fun entry => kept entry.val]
  have moved := edit_weight d.table (place d.mask key) (table.inRange key)
    (overwrite DictEntry.key key (setVal change))
  have whole : weight (updateObj d key change).table.flatten = weight d.table.flatten := by
    simp only [updateObj]
    omega
  simp only [Accounted, whole]
  exact sums

theorem get_accounted (now : Nat) (d : Dict) (table : Structured d) (sums : Accounted d)
    (key : Bytes) : Accounted (dictGet now d key).1 := by
  simp only [dictGet]
  split
  case h_1 => exact sums
  case h_2 =>
    split
    · exact delete_accounted d table sums key
    · exact update_obj_accounted d table sums key (touch now) fun _ => rfl

theorem resize_accounted (alloc : Bool) (d : Dict) (table : Structured d) (sums : Accounted d) :
    Accounted (dictResize alloc d) := by
  simp only [dictResize]
  split
  · have positive := table.size_pos
    have sized : ∀ key, place (d.size * 2 - 1) key < (empty (d.size * 2) : Table DictEntry).length := by
      intro key
      simpa [empty] using place_lt (d.size * 2) key (by omega)
    have moved := relink_perm (place (d.size * 2 - 1)) DictEntry.key d.table.flatten _ sized
    simp only [flatten_empty, List.append_nil] at moved
    simp only [Accounted, foldl_relink, weight_perm _ _ moved]
    exact sums
  · exact sums

theorem evict_entry_accounted (d : Dict) (idx position : Nat) (victim : DictEntry)
    (sums : Accounted d) (stored : (chain d.table idx)[position]? = some victim) :
    Accounted (evictEntry d idx position victim) := by
  obtain ⟨inside, same⟩ := List.getElem?_eq_some_iff.mp stored
  have old : chain d.table idx =
      (chain d.table idx).take position ++ victim :: (chain d.table idx).drop (position + 1) := by
    rw [← same, List.getElem_cons_drop, List.take_append_drop]
  exact shorten_accounted d sums idx (chain_in_range _ _ _ _ stored)
    (fun rows => rows.eraseIdx position) _ _ victim old (List.eraseIdx_eq_take_drop_succ _ _)
    (d.used - 1)

theorem evict_accounted (d : Dict) (sums : Accounted d) : Accounted (dictEvictLruIfNeeded d) :=
  evict_invariant Accounted evict_entry_accounted d sums

theorem placed_accounted (now : Nat) (d : Dict) (table : Structured d) (sums : Accounted d)
    (key : Bytes) (val : CcObj) : Accounted (placed now d key val) := by
  simp only [placed]
  split
  case h_1 entry found =>
    obtain ⟨before, after, old, changed, _⟩ := lookup_split DictEntry.key key _ entry found
    obtain ⟨base, whole, edited⟩ := replace_weight d.table (place d.mask key) (table.inRange key)
      (overwrite DictEntry.key key (setVal fun _ => { val with lastAccess := now })) before after
      [setVal (fun _ => { val with lastAccess := now }) entry] entry old (changed _)
    simp only [Accounted] at sums ⊢
    -- The old size leaves the counter before the new one enters it.
    rw [sums, whole, sub_size_mod, add_size_mod, edited, weight_cons, weight_nil]
    rfl
  case h_2 =>
    have moved := edit_weight d.table (place d.mask key) (table.inRange key)
      (fun rows => { key := key, val := { val with lastAccess := now } } :: rows)
    simp only [weight_cons] at moved
    simp only [Accounted] at sums ⊢
    rw [sums, add_size_mod]
    congr 1
    omega

theorem add_entry_accounted (alloc : DictAlloc) (now : Nat) (d : Dict) (table : Structured d)
    (sums : Accounted d) (key : Bytes) (val : CcObj) :
    Accounted (addEntry alloc now d key val).1 := by
  rcases add_entry_cases alloc now d key val with same | same <;> rw [same]
  · exact evict_accounted _ (placed_accounted now d table sums key val)
  · exact sums

theorem grow_accounted (alloc : Bool) (d : Dict) (table : Structured d) (sums : Accounted d) :
    Accounted (if d.used ≥ d.size then dictResize alloc d else d) := by
  split
  · exact resize_accounted alloc d table sums
  · exact sums

theorem add_accounted (alloc : DictAlloc) (now : Nat) (d : Dict) (table : Structured d)
    (sums : Accounted d) (key : Bytes) (val : CcObj) :
    Accounted (dictAdd alloc now d key val).1 :=
  add_entry_accounted alloc now _ (grow_structured alloc.table d table)
    (grow_accounted alloc.table d table sums) key val

-- The sweep's counter covers what it has yet to visit and `rest`, what it has left behind.
theorem clear_chain_memory (now : Nat) (rows : List DictEntry) (counters : Counters) (rest : Nat)
    (sums : counters.usedMemory = (weight rows + rest) % 2 ^ 64) :
    (clearChain now rows counters).2.usedMemory =
      (weight (rows.filter (live now)) + rest) % 2 ^ 64 := by
  induction rows generalizing counters rest with
  | nil => exact sums
  | cons entry tail ih =>
      simp only [clearChain]
      split
      case isTrue gone =>
        have dropped : (entry :: tail).filter (live now) = tail.filter (live now) := by
          simp [live, gone]
        rw [dropped]
        apply ih
        have order : weight (entry :: tail) + rest = weight tail + rest + entry.val.size := by
          rw [weight_cons]
          omega
        rw [sums, order, sub_size_mod]
      case isFalse kept =>
        have stays : (entry :: tail).filter (live now) = entry :: tail.filter (live now) := by
          simp [live, kept]
        have later := ih counters (entry.val.size + rest) (by
          rw [sums, weight_cons]
          congr 1
          omega)
        rw [stays, weight_cons]
        dsimp only
        rw [later]
        congr 1
        omega

theorem clear_table_memory (now : Nat) (table : Table DictEntry) (counters : Counters) (rest : Nat)
    (sums : counters.usedMemory = (weight table.flatten + rest) % 2 ^ 64) :
    (clearTable now table counters).2.usedMemory =
      (weight (table.flatten.filter (live now)) + rest) % 2 ^ 64 := by
  induction table generalizing counters rest with
  | nil => exact sums
  | cons rows tail ih =>
      have head := clear_chain_memory now rows counters (weight tail.flatten + rest) (by
        rw [sums, List.flatten_cons, weight_append]
        congr 1
        omega)
      have later := ih (clearChain now rows counters).2 (weight (rows.filter (live now)) + rest) (by
        rw [head]
        congr 1
        omega)
      simp only [clearTable, List.flatten_cons, List.filter_append, weight_append, later]
      congr 1
      omega

theorem clear_expired_accounted (now : Nat) (d : Dict) (sums : Accounted d) :
    Accounted (dictClearExpired now d) := by
  have cleared := clear_table_memory now d.table ⟨d.used, d.usedMemory⟩ 0 sums
  simp only [Accounted, clear_expired_table, flatten_filter]
  exact cleared

end Memory

section Limit

theorem evict_entry_length (d : Dict) (idx position : Nat) (victim : DictEntry)
    (stored : (chain d.table idx)[position]? = some victim) :
    (evictEntry d idx position victim).table.flatten.length + 1 = d.table.flatten.length := by
  obtain ⟨inside, _⟩ := List.getElem?_eq_some_iff.mp stored
  obtain ⟨before, after, old, new⟩ := flatten_update d.table idx (chain_in_range _ _ _ _ stored)
    fun rows => rows.eraseIdx position
  simp only [evictEntry, old, new, List.length_append, List.length_eraseIdx_of_lt inside]
  omega

theorem rounds_settle (rounds : Nat) (d : Dict) (enough : d.table.flatten.length ≤ rounds) :
    (evictRounds rounds d).maxMemory = 0 ∨
      (evictRounds rounds d).usedMemory ≤ (evictRounds rounds d).maxMemory ∨
      lruEntry (evictRounds rounds d) = none := by
  induction rounds generalizing d with
  | zero =>
      -- An empty table has nothing to point at.
      refine Or.inr (Or.inr ?_)
      cases found : lruEntry d with
      | none => exact found
      | some place =>
          have stored := lru_entry_points d place.1 place.2.1 place.2.2 found
          have shorter := evict_entry_length d place.1 place.2.1 place.2.2 stored
          omega
  | succ rounds ih =>
      simp only [evictRounds]
      split
      case isTrue settled => exact settled.imp_right Or.inl
      case isFalse =>
        split
        case h_1 none => exact Or.inr (Or.inr none)
        case h_2 idx position victim found =>
          have shorter := evict_entry_length d idx position victim
            (lru_entry_points d idx position victim found)
          exact ih _ (by omega)

/-- The recursion of an eviction ends within the limit or without a victim. -/
theorem eviction_settles (d : Dict) :
    (dictEvictLruIfNeeded d).maxMemory = 0 ∨
      (dictEvictLruIfNeeded d).usedMemory ≤ (dictEvictLruIfNeeded d).maxMemory ∨
      lruEntry (dictEvictLruIfNeeded d) = none :=
  rounds_settle _ d (Nat.le_refl _)

end Limit

section Room

theorem evict_room (d : Dict) (room : d.used ≤ d.size) :
    (dictEvictLruIfNeeded d).used ≤ (dictEvictLruIfNeeded d).size :=
  evict_invariant (fun after => after.used ≤ after.size)
    (fun d _ _ _ room _ => Nat.le_trans (Nat.sub_le d.used 1) room) d room

theorem delete_room (d : Dict) (key : Bytes) (room : d.used ≤ d.size) :
    (dictDelete d key).1.used ≤ (dictDelete d key).1.size := by
  simp only [dictDelete]
  split
  case h_1 => exact room
  case h_2 => exact Nat.le_trans (Nat.sub_le d.used 1) room

theorem get_room (now : Nat) (d : Dict) (key : Bytes) (room : d.used ≤ d.size) :
    (dictGet now d key).1.used ≤ (dictGet now d key).1.size := by
  simp only [dictGet]
  split
  case h_1 => exact room
  case h_2 =>
    split
    · exact delete_room d key room
    · exact room

theorem resize_room (alloc : Bool) (d : Dict) (room : d.used ≤ d.size) :
    (dictResize alloc d).used ≤ (dictResize alloc d).size := by
  simp only [dictResize]
  split
  · dsimp only
    omega
  · exact room

theorem clear_expired_room (now : Nat) (d : Dict) (table : Structured d) (room : d.used ≤ d.size) :
    (dictClearExpired now d).used ≤ (dictClearExpired now d).size := by
  have counted := (clear_expired_structured now d table).used
  rw [clear_expired_table, flatten_filter] at counted
  have shorter := List.length_filter_le (live now) d.table.flatten
  rw [← table.used] at shorter
  rw [counted]
  exact Nat.le_trans shorter room

/-- A full table doubles before the insertion, so there is room for one more. -/
theorem add_room (alloc : DictAlloc) (now : Nat) (d : Dict) (table : Structured d) (key : Bytes)
    (val : CcObj) (room : d.used ≤ d.size)
    (grows : d.size ≤ d.used → calloc alloc.table (d.size * 2) 8 = true) :
    (dictAdd alloc now d key val).1.used ≤ (dictAdd alloc now d key val).1.size := by
  have positive := table.size_pos
  have grown : (if d.used ≥ d.size then dictResize alloc.table d else d).used <
      (if d.used ≥ d.size then dictResize alloc.table d else d).size := by
    split
    case isTrue full =>
      simp only [dictResize, grows full, ↓reduceIte]
      omega
    case isFalse space => omega
  simp only [dictAdd, addEntry]
  split
  case h_1 => exact evict_room _ (Nat.le_of_lt grown)
  case h_2 =>
    split
    · exact evict_room _ grown
    · exact Nat.le_of_lt grown

end Room

section Steps

/-- A call of the interface, or a write its callers make in place. -/
inductive TableStep where
  | call (c : DictCall)
  | evict
  | expire (key : Bytes) (deadline : Nat)
  /-- The second clock reading of a lookup, which dates the access. -/
  | access (key : Bytes) (now : Nat)
  | limit (maxMemory : Nat)

def tableStep (d : Dict) : TableStep → Dict
  | .call c => (call d c).1
  | .evict => dictEvictLruIfNeeded d
  | .expire key deadline => updateObj d key (setDeadline deadline)
  | .access key now => updateObj d key (touch now)
  | .limit maxMemory => { d with maxMemory := maxMemory }

/-- The table allocation of an insertion into a full table succeeds. -/
def Grows (d : Dict) : TableStep → Prop
  | .call (.add alloc _ _ _) => d.size ≤ d.used → calloc alloc.table (d.size * 2) 8 = true
  | _ => True

theorem step_structured (d : Dict) (table : Structured d) (step : TableStep) :
    Structured (tableStep d step) := by
  cases step with
  | call c =>
      cases c with
      | add alloc now key val => exact add_structured alloc now d table key val
      | get now key => exact get_structured now d table key
      | delete key => exact delete_structured d table key
      | resize alloc => exact resize_structured alloc d table
      | clearExpired now => exact clear_expired_structured now d table
  | evict => exact evict_structured d table
  | expire key deadline => exact update_obj_structured d table key _
  | access key now => exact update_obj_structured d table key _
  | limit maxMemory => exact ⟨table.valid, table.length, table.mask, table.power, table.used⟩

theorem step_accounted (d : Dict) (table : Structured d) (sums : Accounted d) (step : TableStep) :
    Accounted (tableStep d step) := by
  cases step with
  | call c =>
      cases c with
      | add alloc now key val => exact add_accounted alloc now d table sums key val
      | get now key => exact get_accounted now d table sums key
      | delete key => exact delete_accounted d table sums key
      | resize alloc => exact resize_accounted alloc d table sums
      | clearExpired now => exact clear_expired_accounted now d sums
  | evict => exact evict_accounted d sums
  | expire key deadline => exact update_obj_accounted d table sums key _ fun _ => rfl
  | access key now => exact update_obj_accounted d table sums key _ fun _ => rfl
  | limit maxMemory => exact sums

theorem step_room (d : Dict) (table : Structured d) (room : d.used ≤ d.size) (step : TableStep)
    (grows : Grows d step) : (tableStep d step).used ≤ (tableStep d step).size := by
  cases step with
  | call c =>
      cases c with
      | add alloc now key val => exact add_room alloc now d table key val room grows
      | get now key => exact get_room now d key room
      | delete key => exact delete_room d key room
      | resize alloc => exact resize_room alloc d room
      | clearExpired now => exact clear_expired_room now d table room
  | evict => exact evict_room d room
  | expire key deadline => exact room
  | access key now => exact room
  | limit maxMemory => exact room

theorem run_structured (d : Dict) (table : Structured d) (steps : List TableStep) :
    Structured (run tableStep d steps) :=
  run_invariant (fun _ _ => True) tableStep (fun d step table _ => step_structured d table step) d
    table steps (admitted_each _ _ d steps fun _ _ => trivial)

theorem run_accounted (d : Dict) (table : Structured d) (sums : Accounted d)
    (steps : List TableStep) : Accounted (run tableStep d steps) := by
  have preserved : ∀ d step, Structured d ∧ Accounted d → True →
      Structured (tableStep d step) ∧ Accounted (tableStep d step) :=
    fun d step kept _ => ⟨step_structured d kept.1 step, step_accounted d kept.1 kept.2 step⟩
  exact (run_invariant (fun _ _ => True) tableStep preserved d ⟨table, sums⟩ steps
    (admitted_each _ _ d steps fun _ _ => trivial)).2

theorem run_room (d : Dict) (table : Structured d) (room : d.used ≤ d.size)
    (steps : List TableStep) (grow : Admitted Grows tableStep d steps) :
    (run tableStep d steps).used ≤ (run tableStep d steps).size := by
  have preserved : ∀ d step, Structured d ∧ d.used ≤ d.size → Grows d step →
      Structured (tableStep d step) ∧ (tableStep d step).used ≤ (tableStep d step).size :=
    fun d step kept grows =>
      ⟨step_structured d kept.1 step, step_room d kept.1 kept.2 step grows⟩
  exact (run_invariant Grows tableStep preserved d ⟨table, room⟩ steps grow).2

theorem created_accounted (alloc : Bool) (initialSize : Nat) (d : Dict)
    (created : dictCreate alloc initialSize = some d) : Accounted d := by
  have nothing := (create_represents alloc initialSize d created).2
  have memory : d.usedMemory = 0 := by
    simp only [dictCreate] at created
    split at created
    case h_1 => simp at created
    case h_2 =>
      split at created
      case isTrue => exact (Option.some.inj created) ▸ rfl
      case isFalse => simp at created
  rw [Accounted, nothing, memory]
  rfl

/-- Every table a run of calls can reach: its size and mask, the place and the uniqueness of
    its keys, both counters, and the load factor of one while the table can grow. -/
theorem reached_table_is_sound (alloc : Bool) (initialSize : Nat) (d : Dict)
    (created : dictCreate alloc initialSize = some d) (steps : List TableStep) :
    (∃ bits, 2 ≤ bits ∧ (run tableStep d steps).size = 2 ^ bits) ∧
      (run tableStep d steps).mask = (run tableStep d steps).size - 1 ∧
      (run tableStep d steps).table.length = (run tableStep d steps).size ∧
      (∀ index, ∀ entry ∈ chain (run tableStep d steps).table index,
        dictHash entry.key &&& (run tableStep d steps).mask = index) ∧
      ((run tableStep d steps).table.flatten.map DictEntry.key).Nodup ∧
      (run tableStep d steps).used = (run tableStep d steps).table.flatten.length ∧
      (run tableStep d steps).usedMemory =
        ((run tableStep d steps).table.flatten.map fun entry => entry.val.size).sum % 2 ^ 64 ∧
      (Admitted Grows tableStep d steps →
        (run tableStep d steps).used ≤ (run tableStep d steps).size) := by
  obtain ⟨fresh, nothing⟩ := create_represents alloc initialSize d created
  have sums := created_accounted alloc initialSize d created
  have room : d.used ≤ d.size := by
    rw [fresh.used, nothing]
    exact Nat.zero_le _
  have table := run_structured d fresh.structured steps
  exact ⟨table.power, table.mask, table.length, table.valid.home, table.valid.distinct_flatten,
    table.used, run_accounted d fresh.structured sums steps, run_room d fresh.structured room steps⟩

/-- Two insertions under a limit that only one of them fits, then a deadline and a lookup
    past it. -/
def sampleSteps : List TableStep :=
  [.limit 5,
    .call (.add ⟨true, true, true⟩ 1 (ascii "a") ⟨ascii "vv", .string, 0, 3, 0⟩),
    .call (.add ⟨true, true, true⟩ 2 (ascii "b") ⟨ascii "www", .string, 0, 4, 0⟩),
    .expire (ascii "b") 5,
    .call (.get 9 (ascii "b"))]

theorem sample_table_is_sound :
    ∃ d, dictCreate true 4 = some d ∧
      (run tableStep d sampleSteps).used = (run tableStep d sampleSteps).table.flatten.length ∧
      (run tableStep d sampleSteps).usedMemory =
        ((run tableStep d sampleSteps).table.flatten.map fun entry => entry.val.size).sum %
          2 ^ 64 ∧
      (run tableStep d sampleSteps).used ≤ (run tableStep d sampleSteps).size := by
  obtain ⟨_, _, _, _, _, used, memory, room⟩ :=
    reached_table_is_sound true 4 _ rfl sampleSteps
  exact ⟨_, rfl, used, memory,
    room ⟨trivial, fun _ => rfl, fun _ => rfl, trivial, trivial, trivial⟩⟩

end Steps

end CrimsonCache.TableRuns
