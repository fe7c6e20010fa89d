import Mathlib.Data.Nat.Bitwise
import CrimsonCache.Dictionary

/-!
The representation invariant of the hash table and its preservation by each
operation of dict.c, eviction included. Placement and key uniqueness are the
library's validity; the count is tied to the stored entries. `Represents` adds
that memory is unlimited, as it is in every table the server makes: eviction
then never runs.
-/

namespace CrimsonCache.Dictionary

open CString ChainedTable

/-- The table under any memory limit. -/
structure Structured (d : Dict) : Prop where
  valid : Valid (place d.mask) DictEntry.key d.table
  length : d.table.length = d.size
  mask : d.mask = d.size - 1
  power : ∃ bits, 2 ≤ bits ∧ d.size = 2 ^ bits
  used : d.used = d.table.flatten.length

/-- Keys sit in the bucket their hash names under the mask, once each, and the
    counters describe the stored entries. -/
structure Represents (d : Dict) : Prop where
  valid : Valid (place d.mask) DictEntry.key d.table
  length : d.table.length = d.size
  mask : d.mask = d.size - 1
  power : ∃ bits, 2 ≤ bits ∧ d.size = 2 ^ bits
  used : d.used = d.table.flatten.length
  unlimited : d.maxMemory = 0

theorem place_lt (size : Nat) (key : Bytes) (positive : 0 < size) :
    place (size - 1) key < size := by
  have bound : place (size - 1) key ≤ size - 1 := Nat.and_le_right
  omega

theorem Represents.structured {d : Dict} (rep : Represents d) : Structured d :=
  ⟨rep.valid, rep.length, rep.mask, rep.power, rep.used⟩

theorem Structured.represents {d : Dict} (table : Structured d) (unlimited : d.maxMemory = 0) :
    Represents d :=
  ⟨table.valid, table.length, table.mask, table.power, table.used, unlimited⟩

theorem Structured.size_pos {d : Dict} (table : Structured d) : 0 < d.size := by
  rcases table.power with ⟨bits, _, same⟩
  rw [same]
  exact Nat.two_pow_pos bits

theorem Structured.inRange {d : Dict} (table : Structured d) (key : Bytes) :
    place d.mask key < d.table.length := table.valid.inRange key

/-- A search of the home chain finds what the whole table stores. -/
theorem Structured.search {d : Dict} (table : Structured d) (key : Bytes) :
    lookup DictEntry.key key (chain d.table (place d.mask key)) =
      lookup DictEntry.key key d.table.flatten :=
  (table.valid.lookup_flatten key).symm

theorem Represents.size_pos {d : Dict} (rep : Represents d) : 0 < d.size := rep.structured.size_pos

theorem Represents.inRange {d : Dict} (rep : Represents d) (key : Bytes) :
    place d.mask key < d.table.length := rep.valid.inRange key

theorem Represents.search {d : Dict} (rep : Represents d) (key : Bytes) :
    lookup DictEntry.key key (chain d.table (place d.mask key)) =
      lookup DictEntry.key key d.table.flatten := rep.structured.search key

theorem no_eviction (d : Dict) (unlimited : d.maxMemory = 0) : dictEvictLruIfNeeded d = d := by
  unfold dictEvictLruIfNeeded
  cases d.table.flatten.length with
  | zero => rfl
  | succ rounds => simp [evictRounds, unlimited]

section Creation

theorem round_up_power (rounds size initial result bits : Nat) (power : size = 2 ^ bits)
    (done : roundUp rounds size initial = some result) (bound : bits + rounds ≤ 66)
    (four : 4 ≤ initial) : ∃ last, 2 ≤ last ∧ result = 2 ^ last := by
  induction rounds generalizing size bits with
  | zero => simp [roundUp] at done
  | succ rounds ih =>
      simp only [roundUp] at done
      split at done
      case isTrue small =>
        by_cases fits : bits + 1 < 64
        · have doubled : size * 2 % 2 ^ 64 = 2 ^ (bits + 1) := by
            rw [power, ← Nat.pow_succ]
            exact Nat.mod_eq_of_lt (Nat.pow_lt_pow_right Nat.one_lt_two fits)
          exact ih _ (bits + 1) doubled done (by omega)
        · -- From here the size has wrapped to zero and stays zero.
          have wrapped : size * 2 % 2 ^ 64 = 0 := by
            rw [power, ← Nat.pow_succ]
            exact Nat.mod_eq_zero_of_dvd (Nat.pow_dvd_pow 2 (by omega))
          rw [wrapped] at done
          have stuck : ∀ rounds, roundUp rounds 0 initial = none := by
            intro rounds
            induction rounds with
            | zero => rfl
            | succ rounds stays => simp [roundUp, show 0 < initial by omega, stays]
          simp [stuck rounds] at done
      case isFalse reached =>
        refine ⟨bits, ?_, by simpa [power] using done.symm⟩
        by_contra tiny
        have upper : 2 ^ bits ≤ 2 ^ 1 := Nat.pow_le_pow_right Nat.two_pos (by omega)
        omega

theorem create_represents (alloc : Bool) (initialSize : Nat) (d : Dict)
    (created : dictCreate alloc initialSize = some d) :
    Represents d ∧ d.table.flatten = [] := by
  simp only [dictCreate] at created
  split at created
  case h_1 => simp at created
  case h_2 size done =>
    split at created
    case isFalse => simp at created
    case isTrue =>
      have same := Option.some.inj created
      subst same
      have power := round_up_power 65 1 _ size 0 rfl done (by omega) (by split <;> omega)
      have positive : 0 < size := by
        rcases power with ⟨bits, _, same⟩
        rw [same]
        exact Nat.two_pow_pos bits
      refine ⟨⟨⟨?_, ?_, ?_⟩, ?_, rfl, power, ?_, rfl⟩, flatten_empty size⟩
      · intro key
        simpa [empty] using place_lt size key positive
      · intro index entry member
        simp at member
      · intro index
        simp
      · simp [empty]
      · simp [empty]

end Creation

section Resize

theorem foldl_relink (placing : Bytes → Nat) (chains : Table DictEntry)
    (table : Table DictEntry) :
    chains.foldl (fun newTable chain => relink placing DictEntry.key chain newTable) table =
      relink placing DictEntry.key chains.flatten table := by
  induction chains generalizing table with
  | nil => rfl
  | cons chain rest ih => simp [ih, relink_append]

theorem resize_entries (alloc : Bool) (d : Dict) (rep : Represents d) (entry : DictEntry) :
    entry ∈ (dictResize alloc d).table.flatten ↔ entry ∈ d.table.flatten := by
  simp only [dictResize]
  split
  · have positive := rep.size_pos
    simp only [foldl_relink]
    exact mem_relink _ _ _ _ (fun key => place_lt _ key (by omega)) entry
  · rfl

theorem resize_structured (alloc : Bool) (d : Dict) (table : Structured d) :
    Structured (dictResize alloc d) := by
  simp only [dictResize]
  split
  · have positive := table.size_pos
    have inRange : ∀ key, place (d.size * 2 - 1) key < d.size * 2 :=
      fun key => place_lt _ key (by omega)
    have sized : ∀ key, place (d.size * 2 - 1) key < (empty (d.size * 2) : Table DictEntry).length := by
      simpa [empty] using inRange
    rcases table.power with ⟨bits, two, same⟩
    constructor
    · simpa only [foldl_relink] using
        relink_valid _ _ _ _ inRange table.valid.distinct_flatten
    · simp only [foldl_relink, length_relink]
      simp [empty]
    · rfl
    · exact ⟨bits + 1, by omega, by simp only [same, Nat.pow_succ]⟩
    · simp only [foldl_relink, relink_length _ _ _ _ sized, flatten_empty]
      simpa using table.used
  · exact table

theorem resize_limit (alloc : Bool) (d : Dict) : (dictResize alloc d).maxMemory = d.maxMemory := by
  simp only [dictResize]
  split <;> rfl

theorem resize_represents (alloc : Bool) (d : Dict) (rep : Represents d) :
    Represents (dictResize alloc d) :=
  (resize_structured alloc d rep.structured).represents ((resize_limit alloc d).trans rep.unlimited)

end Resize

section Updates

theorem set_val_key (change : CcObj → CcObj) (key : Bytes) (entry : DictEntry)
    (same : entry.key = key) : (setVal change entry).key = key := same

/-- An edit of one chain that leaves its keys at home and distinct, the count
    moved by what the chain gained or lost. -/
theorem edit_structured (d : Dict) (table : Structured d) (index : Nat)
    (bound : index < d.table.length) (change : List DictEntry → List DictEntry)
    (home : ∀ entry ∈ change (chain d.table index), place d.mask entry.key = index)
    (distinct : ((change (chain d.table index)).map DictEntry.key).Nodup) (used memory : Nat)
    (counted : used + (chain d.table index).length =
      d.used + (change (chain d.table index)).length) :
    Structured { d with
      table := update d.table index change
      used := used
      usedMemory := memory } := by
  constructor
  · exact table.valid.update index change home distinct
  · simpa using table.length
  · exact table.mask
  · exact table.power
  · obtain ⟨before, after, old, new⟩ := flatten_update d.table index bound change
    have stored := table.used
    simp only [old, new, List.length_append] at stored ⊢
    omega

/-- Edit one chain without changing which keys it holds. -/
theorem overwrite_structured (d : Dict) (table : Structured d) (key : Bytes)
    (change : DictEntry → DictEntry) (kept : ∀ entry, entry.key = key → (change entry).key = key)
    (memory : Nat) :
    Structured { d with
      table := update d.table (place d.mask key) (overwrite DictEntry.key key change)
      usedMemory := memory } := by
  have keys := overwrite_keys DictEntry.key key change kept (chain d.table (place d.mask key))
  apply edit_structured d table (place d.mask key) (table.inRange key)
    (overwrite DictEntry.key key change)
  · intro entry member
    have listed : entry.key ∈ (chain d.table (place d.mask key)).map DictEntry.key := by
      rw [← keys]
      exact List.mem_map_of_mem member
    obtain ⟨old, stored, same⟩ := List.mem_map.mp listed
    rw [← same]
    exact table.valid.home _ old stored
  · rw [keys]
    exact table.valid.distinct _
  -- An overwrite keeps the length of its chain, so `used` still counts the entries.
  · have sameLength : (overwrite DictEntry.key key change (chain d.table (place d.mask key))).length =
        (chain d.table (place d.mask key)).length := by
      simpa using congrArg List.length keys
    rw [sameLength]

theorem prepend_structured (d : Dict) (table : Structured d) (entry : DictEntry)
    (absent : lookup DictEntry.key entry.key d.table.flatten = none) (memory : Nat) :
    Structured { d with
      table := update d.table (place d.mask entry.key) fun rows => entry :: rows
      used := d.used + 1
      usedMemory := memory } := by
  rw [← table.search entry.key, lookup_none] at absent
  apply edit_structured d table (place d.mask entry.key) (table.inRange entry.key)
    (fun rows => entry :: rows)
  · intro other member
    rcases List.mem_cons.mp member with same | old
    · rw [same]
    · exact table.valid.home _ other old
  · simp only [List.map_cons, List.nodup_cons]
    constructor
    · intro listed
      obtain ⟨old, stored, same⟩ := List.mem_map.mp listed
      exact absent old stored same
    · exact table.valid.distinct _
  · simp only [List.length_cons]
    omega

/-- Take one entry out of a chain, wherever it stands there. -/
theorem shorten_structured (d : Dict) (table : Structured d) (index : Nat)
    (bound : index < d.table.length) (change : List DictEntry → List DictEntry)
    (shorter : (change (chain d.table index)).Sublist (chain d.table index))
    (removed : (change (chain d.table index)).length + 1 = (chain d.table index).length)
    (memory : Nat) :
    Structured { d with
      table := update d.table index change
      used := d.used - 1
      usedMemory := memory } := by
  apply edit_structured d table index bound change
  · exact fun other member => table.valid.home _ other (shorter.subset member)
  · exact (table.valid.distinct _).sublist (shorter.map DictEntry.key)
  -- The table holds the entry, so the count does not start at zero.
  · obtain ⟨before, after, old, _⟩ := flatten_update d.table index bound change
    have stored := table.used
    simp only [old, List.length_append] at stored
    omega

theorem unlink_structured (d : Dict) (table : Structured d) (key : Bytes) (entry : DictEntry)
    (found : lookup DictEntry.key key d.table.flatten = some entry) (memory : Nat) :
    Structured { d with
      table := update d.table (place d.mask key) (unlink DictEntry.key key)
      used := d.used - 1
      usedMemory := memory } := by
  rw [← table.search key] at found
  exact shorten_structured d table (place d.mask key) (table.inRange key) _
    (unlink_sublist DictEntry.key key _) (unlink_length DictEntry.key key _ entry found) memory

theorem delete_structured (d : Dict) (table : Structured d) (key : Bytes) :
    Structured (dictDelete d key).1 := by
  simp only [dictDelete, table.search key]
  split
  case h_1 => exact table
  case h_2 entry found => exact unlink_structured d table key entry found _

theorem delete_limit (d : Dict) (key : Bytes) : (dictDelete d key).1.maxMemory = d.maxMemory := by
  simp only [dictDelete]
  split <;> rfl

theorem delete_represents (d : Dict) (rep : Represents d) (key : Bytes) :
    Represents (dictDelete d key).1 :=
  (delete_structured d rep.structured key).represents ((delete_limit d key).trans rep.unlimited)

theorem update_obj_structured (d : Dict) (table : Structured d) (key : Bytes)
    (change : CcObj → CcObj) : Structured (updateObj d key change) :=
  overwrite_structured d table key (setVal change) (set_val_key change key) d.usedMemory

theorem update_obj_represents (d : Dict) (rep : Represents d) (key : Bytes)
    (change : CcObj → CcObj) : Represents (updateObj d key change) :=
  (update_obj_structured d rep.structured key change).represents rep.unlimited

theorem get_structured (now : Nat) (d : Dict) (table : Structured d) (key : Bytes) :
    Structured (dictGet now d key).1 := by
  simp only [dictGet]
  split
  case h_1 => exact table
  case h_2 =>
    split
    · exact delete_structured d table key
    · exact update_obj_structured d table key (touch now)

theorem get_limit (now : Nat) (d : Dict) (key : Bytes) :
    (dictGet now d key).1.maxMemory = d.maxMemory := by
  simp only [dictGet]
  split
  case h_1 => rfl
  case h_2 =>
    split
    · exact delete_limit d key
    · rfl

theorem get_represents (now : Nat) (d : Dict) (rep : Represents d) (key : Bytes) :
    Represents (dictGet now d key).1 :=
  (get_structured now d rep.structured key).represents ((get_limit now d key).trans rep.unlimited)

end Updates

section Eviction

/-- Where a scan says it saw the oldest entry, the entry stands. -/
def Points (table : Table DictEntry) (scan : LruScan) : Prop :=
  ∀ idx position victim, scan.lru = some (idx, position, victim) →
    (chain table idx)[position]? = some victim

theorem scan_chain_points (table : Table DictEntry) (idx : Nat) (before rows : List DictEntry)
    (scan : LruScan) (split : chain table idx = before ++ rows) (points : Points table scan) :
    Points table (scanChain idx before.length rows scan) := by
  induction rows generalizing before scan with
  | nil => exact points
  | cons entry rest ih =>
      simp only [scanChain]
      have tail := ih (before ++ [entry])
        (if entry.val.lastAccess < scan.oldestAccess then
          ⟨entry.val.lastAccess, some (idx, before.length, entry)⟩ else scan) (by simp [split])
      rw [List.length_append, List.length_singleton] at tail
      apply tail
      by_cases older : entry.val.lastAccess < scan.oldestAccess
      · rw [if_pos older]
        intro seen position victim same
        obtain ⟨rfl, rfl, rfl⟩ : idx = seen ∧ before.length = position ∧ entry = victim := by
          simpa using same
        simp [split]
      · rw [if_neg older]
        exact points

theorem scan_table_points (before rest : Table DictEntry) (scan : LruScan)
    (points : Points (before ++ rest) scan) :
    Points (before ++ rest) (scanTable before.length rest scan) := by
  induction rest generalizing before scan with
  | nil => exact points
  | cons rows rest ih =>
      have here : chain (before ++ rows :: rest) before.length = [] ++ rows := by
        simp [chain, List.getD_eq_getElem?_getD]
      have step := scan_chain_points _ before.length [] rows scan here points
      have tail := ih (before ++ [rows]) (scanChain before.length 0 rows scan)
      simp only [List.append_assoc, List.singleton_append, List.length_append,
        List.length_singleton] at tail
      exact tail step

theorem lru_entry_points (d : Dict) (idx position : Nat) (victim : DictEntry)
    (found : lruEntry d = some (idx, position, victim)) :
    (chain d.table idx)[position]? = some victim :=
  scan_table_points [] d.table ⟨2 ^ 64 - 1, none⟩ (fun _ _ _ none => by simp at none)
    idx position victim found

theorem chain_in_range (table : Table DictEntry) (idx position : Nat) (entry : DictEntry)
    (stored : (chain table idx)[position]? = some entry) : idx < table.length := by
  by_contra outside
  simp [chain, List.getD_eq_getElem?_getD, List.getElem?_eq_none (Nat.le_of_not_lt outside)]
    at stored

theorem evict_entry_structured (d : Dict) (table : Structured d) (idx position : Nat)
    (victim : DictEntry) (stored : (chain d.table idx)[position]? = some victim) :
    Structured (evictEntry d idx position victim) := by
  obtain ⟨inside, _⟩ := List.getElem?_eq_some_iff.mp stored
  exact shorten_structured d table idx (chain_in_range _ _ _ _ stored)
    (fun rows => rows.eraseIdx position) (List.eraseIdx_sublist _ _)
    (by simp only [List.length_eraseIdx_of_lt inside]; omega) _

/-- What evicting one stored entry preserves, the whole eviction preserves. -/
theorem evict_invariant (Kept : Dict → Prop)
    (preserved : ∀ d idx position victim, Kept d →
      (chain d.table idx)[position]? = some victim → Kept (evictEntry d idx position victim))
    (d : Dict) (kept : Kept d) : Kept (dictEvictLruIfNeeded d) := by
  unfold dictEvictLruIfNeeded
  generalize d.table.flatten.length = rounds
  induction rounds generalizing d with
  | zero => exact kept
  | succ rounds ih =>
      simp only [evictRounds]
      split
      case isTrue => exact kept
      case isFalse =>
        split
        case h_1 => exact kept
        case h_2 idx position victim found =>
          exact ih _ (preserved d idx position victim kept
            (lru_entry_points d idx position victim found))

theorem evict_structured (d : Dict) (table : Structured d) :
    Structured (dictEvictLruIfNeeded d) :=
  evict_invariant Structured (fun d idx position victim table stored =>
    evict_entry_structured d table idx position victim stored) d table

theorem evict_limit (d : Dict) : (dictEvictLruIfNeeded d).maxMemory = d.maxMemory :=
  evict_invariant (fun after => after.maxMemory = d.maxMemory)
    (fun _ _ _ _ same _ => same) d rfl

end Eviction

section Insertion

theorem grow_structured (alloc : Bool) (d : Dict) (table : Structured d) :
    Structured (if d.used ≥ d.size then dictResize alloc d else d) := by
  split
  · exact resize_structured alloc d table
  · exact table

theorem grow_limit (alloc : Bool) (d : Dict) :
    (if d.used ≥ d.size then dictResize alloc d else d).maxMemory = d.maxMemory := by
  split
  · exact resize_limit alloc d
  · rfl

theorem grow_represents (alloc : Bool) (d : Dict) (rep : Represents d) :
    Represents (if d.used ≥ d.size then dictResize alloc d else d) :=
  (grow_structured alloc d rep.structured).represents ((grow_limit alloc d).trans rep.unlimited)

/-- The table with the new value in it, as the eviction of an insertion finds it. -/
def placed (now : Nat) (d : Dict) (key : Bytes) (val : CcObj) : Dict :=
  let idx := place d.mask key
  let val := { val with lastAccess := now }
  match lookup DictEntry.key key (chain d.table idx) with
  | some entry =>
      { d with
        table := update d.table idx (overwrite DictEntry.key key (setVal fun _ => val))
        usedMemory := addSize (subSize d.usedMemory entry.val.size) val.size }
  | none =>
      { d with
        table := update d.table idx fun rows => { key := key, val := val } :: rows
        used := d.used + 1
        usedMemory := addSize d.usedMemory val.size }

/-- An insertion places the value and evicts, or fails and changes nothing. -/
theorem add_entry_cases (alloc : DictAlloc) (now : Nat) (d : Dict) (key : Bytes) (val : CcObj) :
    addEntry alloc now d key val = (dictEvictLruIfNeeded (placed now d key val), true) ∨
      addEntry alloc now d key val = (d, false) := by
  simp only [addEntry, placed]
  cases lookup DictEntry.key key (chain d.table (place d.mask key)) with
  | some entry => exact Or.inl rfl
  | none =>
      dsimp only
      split
      · exact Or.inl rfl
      · exact Or.inr rfl

theorem placed_structured (now : Nat) (d : Dict) (table : Structured d) (key : Bytes)
    (val : CcObj) : Structured (placed now d key val) := by
  simp only [placed, table.search key]
  split
  case h_1 entry found =>
    exact overwrite_structured d table key (setVal fun _ => { val with lastAccess := now })
      (set_val_key _ key) _
  case h_2 absent => exact prepend_structured d table ⟨key, _⟩ absent _

theorem add_entry_structured (alloc : DictAlloc) (now : Nat) (d : Dict) (table : Structured d)
    (key : Bytes) (val : CcObj) : Structured (addEntry alloc now d key val).1 := by
  rcases add_entry_cases alloc now d key val with same | same <;> rw [same]
  · exact evict_structured _ (placed_structured now d table key val)
  · exact table

theorem add_entry_limit (alloc : DictAlloc) (now : Nat) (d : Dict) (key : Bytes) (val : CcObj) :
    (addEntry alloc now d key val).1.maxMemory = d.maxMemory := by
  have kept : (placed now d key val).maxMemory = d.maxMemory := by
    simp only [placed]
    split <;> rfl
  rcases add_entry_cases alloc now d key val with same | same <;> rw [same]
  exact (evict_limit _).trans kept

theorem add_entry_represents (alloc : DictAlloc) (now : Nat) (d : Dict) (rep : Represents d)
    (key : Bytes) (val : CcObj) : Represents (addEntry alloc now d key val).1 :=
  (add_entry_structured alloc now d rep.structured key val).represents
    ((add_entry_limit alloc now d key val).trans rep.unlimited)

theorem add_structured (alloc : DictAlloc) (now : Nat) (d : Dict) (table : Structured d)
    (key : Bytes) (val : CcObj) : Structured (dictAdd alloc now d key val).1 :=
  add_entry_structured alloc now _ (grow_structured alloc.table d table) key val

theorem add_represents (alloc : DictAlloc) (now : Nat) (d : Dict) (rep : Represents d)
    (key : Bytes) (val : CcObj) : Represents (dictAdd alloc now d key val).1 :=
  add_entry_represents alloc now _ (grow_represents alloc.table d rep) key val

end Insertion

section Sweep

def live (now : Nat) (entry : DictEntry) : Bool := !expired now entry.val.expire

theorem clear_chain_filter (now : Nat) (rows : List DictEntry) (counters : Counters) :
    (clearChain now rows counters).1 = rows.filter (live now) := by
  induction rows generalizing counters with
  | nil => rfl
  | cons entry rest ih =>
      simp only [clearChain]
      split
      case isTrue gone => simpa [live, gone] using ih _
      case isFalse kept => simpa [live, kept] using ih counters

theorem clear_chain_used (now : Nat) (rows : List DictEntry) (counters : Counters)
    (counted : rows.length ≤ counters.used) :
    (clearChain now rows counters).2.used + rows.length =
      counters.used + (rows.filter (live now)).length := by
  induction rows generalizing counters with
  | nil => simp [clearChain]
  | cons entry rest ih =>
      simp only [List.length_cons] at counted ⊢
      simp only [clearChain]
      split
      case isTrue gone =>
        -- The counter stays above the rest of the chain, so it never underflows.
        have tail := ih ⟨counters.used - 1, subSize counters.usedMemory entry.val.size⟩
          (by simp only; omega)
        have dropped : (entry :: rest).filter (live now) = rest.filter (live now) := by
          simp [live, gone]
        rw [dropped]
        simp only at tail
        omega
      case isFalse kept =>
        have tail := ih counters (by omega)
        have stays : (entry :: rest).filter (live now) = entry :: rest.filter (live now) := by
          simp [live, kept]
        rw [stays, List.length_cons]
        dsimp only
        omega

theorem clear_table_filter (now : Nat) (table : Table DictEntry) (counters : Counters) :
    (clearTable now table counters).1 = table.map (List.filter (live now)) := by
  induction table generalizing counters with
  | nil => rfl
  | cons rows rest ih => simp [clearTable, clear_chain_filter, ih]

theorem clear_table_used (now : Nat) (table : Table DictEntry) (counters : Counters)
    (counted : table.flatten.length ≤ counters.used) :
    (clearTable now table counters).2.used + table.flatten.length =
      counters.used + (table.flatten.filter (live now)).length := by
  induction table generalizing counters with
  | nil => simp [clearTable]
  | cons rows rest ih =>
      simp only [List.flatten_cons, List.length_append, List.filter_append] at counted ⊢
      have head := clear_chain_used now rows counters (by omega)
      have shorter := List.length_filter_le (live now) rows
      have tail := ih (clearChain now rows counters).2 (by omega)
      simp only [clearTable]
      omega

theorem clear_expired_table (now : Nat) (d : Dict) :
    (dictClearExpired now d).table = d.table.map (List.filter (live now)) := by
  simp [dictClearExpired, clear_table_filter]

theorem clear_expired_structured (now : Nat) (d : Dict) (structured : Structured d) :
    Structured (dictClearExpired now d) := by
  have table := clear_expired_table now d
  constructor
  · rw [table]
    exact structured.valid.filter (live now)
  · rw [table, List.length_map]
    exact structured.length
  · exact structured.mask
  · exact structured.power
  · rw [table, flatten_filter]
    have counted := clear_table_used now d.table ⟨d.used, d.usedMemory⟩ (by simp [structured.used])
    have used := structured.used
    simp only [dictClearExpired] at counted ⊢
    omega

theorem clear_expired_represents (now : Nat) (d : Dict) (rep : Represents d) :
    Represents (dictClearExpired now d) :=
  (clear_expired_structured now d rep.structured).represents rep.unlimited

end Sweep

end CrimsonCache.Dictionary
