import CrimsonCache.DictionaryInvariant
import CrimsonCache.Library.DeadlineMap

/-!
The hash table as a finite map from keys to values with deadlines. `mapping`
reads the stored entries and forgets buckets, chain order and access times.
Each operation of dict.c is related to one operation of the map, and a whole
run of calls to the run of the map on the same arguments and clock readings.
-/

namespace CrimsonCache.Dictionary

open CString ChainedTable DeadlineMap

abbrev Mapping := Store Bytes Bytes Nat

def binding (entry : DictEntry) : Bytes × Nat := (entry.val.ptr, entry.val.expire)

def mapping (d : Dict) : Mapping :=
  fun key => (lookup DictEntry.key key d.table.flatten).map binding

theorem mapping_mem (d : Dict) (rep : Represents d) (key : Bytes) (bound : Bytes × Nat) :
    mapping d key = some bound ↔
      ∃ entry ∈ d.table.flatten, entry.key = key ∧ binding entry = bound := by
  simp only [mapping, Option.map_eq_some_iff]
  constructor
  · rintro ⟨entry, found, same⟩
    exact ⟨entry, lookup_mem _ _ _ _ found, lookup_key _ _ _ _ found, same⟩
  · rintro ⟨entry, stored, hit, same⟩
    exact ⟨entry, (lookup_some _ _ _ _ rep.valid.unique).mpr ⟨stored, hit⟩, same⟩

/-- Equal entry sets give equal maps, whatever the bucket layout. -/
theorem mapping_congr (d d' : Dict) (rep : Represents d) (rep' : Represents d')
    (same : ∀ entry, entry ∈ d'.table.flatten ↔ entry ∈ d.table.flatten) :
    mapping d' = mapping d := by
  funext key
  apply Option.ext
  intro bound
  rw [mapping_mem d' rep', mapping_mem d rep]
  simp only [same]

theorem mapping_empty (d : Dict) (fresh : d.table.flatten = []) : mapping d = fun _ => none := by
  funext key
  simp [mapping, fresh, lookup]

theorem resize_mapping (alloc : Bool) (d : Dict) (rep : Represents d) :
    mapping (dictResize alloc d) = mapping d :=
  mapping_congr d _ rep (resize_represents alloc d rep) (resize_entries alloc d rep)

theorem grow_mapping (alloc : Bool) (d : Dict) (rep : Represents d) :
    mapping (if d.used ≥ d.size then dictResize alloc d else d) = mapping d := by
  split
  · exact resize_mapping alloc d rep
  · rfl

/-- Rebinding a key in its chain rebinds it in the map. -/
theorem update_mapping (d : Dict) (rep : Represents d) (key : Bytes)
    (change : List DictEntry → List DictEntry) (result : Option DictEntry) (used memory : Nat)
    (edited : Represents { d with
      table := update d.table (place d.mask key) change, used := used, usedMemory := memory })
    (rebinds : ∀ other, lookup DictEntry.key other (change (chain d.table (place d.mask key))) =
      if other = key then result
      else lookup DictEntry.key other (chain d.table (place d.mask key)))
    (other : Bytes) :
    mapping { d with
      table := update d.table (place d.mask key) change, used := used, usedMemory := memory }
      other = if other = key then result.map binding else mapping d other := by
  have view := rep.valid.lookup_update key change result edited.valid rebinds other
  simp only [mapping, view]
  split <;> rfl

theorem mapping_delete (d : Dict) (rep : Represents d) (key : Bytes) :
    mapping (dictDelete d key).1 = drop (mapping d) key ∧
      (dictDelete d key).2 = (mapping d key).isSome := by
  have deleted := delete_represents d rep key
  have shape : mapping d key = (lookup DictEntry.key key d.table.flatten).map binding := rfl
  simp only [dictDelete, rep.search key] at deleted ⊢
  cases found : lookup DictEntry.key key d.table.flatten with
  | none =>
      rw [found] at shape
      simp only [shape, Option.map_none, Option.isSome_none, and_true]
      exact (drop_absent (mapping d) key shape).symm
  | some entry =>
      rw [found] at shape
      simp only [found] at deleted
      simp only [shape, Option.map_some, Option.isSome_some, and_true]
      funext other
      exact update_mapping d rep key _ none _ _ deleted
        (fun other => lookup_unlink DictEntry.key key other _ (rep.valid.distinct _)) other

/-- A write through an object pointer changes the binding of its key alone. -/
theorem mapping_update_obj (d : Dict) (rep : Represents d) (key : Bytes)
    (change : CcObj → CcObj) (other : Bytes) :
    mapping (updateObj d key change) other =
      if other = key then
        (lookup DictEntry.key key d.table.flatten).map
          fun entry => ((change entry.val).ptr, (change entry.val).expire)
      else mapping d other := by
  have written := update_mapping d rep key (overwrite DictEntry.key key (setVal change))
    ((lookup DictEntry.key key (chain d.table (place d.mask key))).map (setVal change))
    d.used d.usedMemory (update_obj_represents d rep key change)
    (fun other => lookup_overwrite DictEntry.key key other _ (set_val_key change key) _) other
  rw [rep.search key, Option.map_map] at written
  exact written

theorem mapping_touch (now : Nat) (d : Dict) (rep : Represents d) (key : Bytes) :
    mapping (updateObj d key (touch now)) = mapping d := by
  funext other
  rw [mapping_update_obj d rep key (touch now) other]
  split
  case isTrue same =>
    subst same
    rfl
  case isFalse => rfl

/-- A lookup settles the key in the map and answers what the map then binds. -/
theorem mapping_get (now : Nat) (d : Dict) (rep : Represents d) (key : Bytes) :
    mapping (dictGet now d key).1 = settle (expired now) (mapping d) key ∧
      (dictGet now d key).2.map (fun obj => (obj.ptr, obj.expire)) =
        fetch (expired now) (mapping d) key := by
  have shape : mapping d key = (lookup DictEntry.key key d.table.flatten).map binding := rfl
  simp only [dictGet, rep.search key]
  cases found : lookup DictEntry.key key d.table.flatten with
  | none =>
      rw [found] at shape
      simp [settle, fetch, shape]
  | some entry =>
      rw [found] at shape
      cases gone : expired now entry.val.expire with
      | true => simp [settle, fetch, shape, binding, Option.filter, gone, (mapping_delete d rep key).1]
      | false =>
          simp [settle, fetch, shape, binding, Option.filter, gone, mapping_touch now d rep key,
            touch]

/-- An insertion that reports success binds the key. -/
theorem mapping_add_entry (alloc : DictAlloc) (now : Nat) (d : Dict) (rep : Represents d)
    (key : Bytes) (val : CcObj) (success : (addEntry alloc now d key val).2 = true) :
    mapping (addEntry alloc now d key val).1 = put (mapping d) key val.ptr val.expire := by
  have added := add_entry_represents alloc now d rep key val
  simp only [addEntry, rep.search key] at added success ⊢
  cases found : lookup DictEntry.key key d.table.flatten with
  | some entry =>
      simp only [found] at added
      dsimp only
      rw [no_eviction _ (by exact rep.unlimited)] at added ⊢
      funext other
      rw [update_mapping d rep key _ 
        (some (setVal (fun _ => { val with lastAccess := now }) entry)) _ _ added (by
          intro other
          rw [lookup_overwrite DictEntry.key key other _ (set_val_key _ key), rep.search key,
            found]
          rfl) other]
      rfl
  | none =>
      simp only [found] at added success
      dsimp only
      split at success
      case isFalse => simp at success
      case isTrue allocated =>
        simp only [allocated, ↓reduceIte] at added ⊢
        rw [no_eviction _ (by exact rep.unlimited)] at added ⊢
        funext other
        rw [update_mapping d rep key _ (some ⟨key, { val with lastAccess := now }⟩)
          _ _ added (by
            intro other
            by_cases same : other = key
            · simp [lookup, same]
            · simp [lookup, same, Ne.symm same]) other]
        rfl

theorem add_mapping (alloc : DictAlloc) (now : Nat) (d : Dict) (rep : Represents d)
    (key : Bytes) (val : CcObj) (success : (dictAdd alloc now d key val).2 = true) :
    mapping (dictAdd alloc now d key val).1 = put (mapping d) key val.ptr val.expire := by
  have grown := mapping_add_entry alloc now _ (grow_represents alloc.table d rep) key val success
  rw [grow_mapping alloc.table d rep] at grown
  exact grown

theorem add_succeeds (alloc : DictAlloc) (now : Nat) (d : Dict) (key : Bytes) (val : CcObj)
    (entryOk : alloc.entry = true) (keyOk : alloc.key = true) :
    (dictAdd alloc now d key val).2 = true := by
  simp only [dictAdd, addEntry, entryOk, keyOk, Bool.and_self, ↓reduceIte]
  split <;> rfl

theorem add_result (alloc : DictAlloc) (clock : Nat) (db : Dict) (rep : Represents db) (key : Bytes)
    (val : CcObj) :
    (dictAdd alloc clock db key val).2 =
      ((alloc.entry && alloc.key) || (mapping db key).isSome) := by
  have grown := grow_represents alloc.table db rep
  have view := congrFun (grow_mapping alloc.table db rep) key
  simp only [dictAdd, addEntry, grown.search key]
  rw [← view]
  simp only [mapping]
  cases lookup DictEntry.key key
      (if db.used ≥ db.size then dictResize alloc.table db else db).table.flatten with
  | none =>
      dsimp only
      split
      case isTrue allocated => simp [allocated]
      case isFalse denied => simpa using denied
  | some entry => simp

theorem add_failed (alloc : DictAlloc) (now : Nat) (db : Dict) (rep : Represents db) (key : Bytes)
    (val : CcObj) (failed : (dictAdd alloc now db key val).2 = false) :
    mapping (dictAdd alloc now db key val).1 = mapping db := by
  rw [← grow_mapping alloc.table db rep]
  simp only [dictAdd, addEntry] at failed ⊢
  split at failed
  case h_1 => simp at failed
  case h_2 =>
    split at failed
    case isTrue => simp at failed
    case isFalse refused => simp [refused]

theorem mapping_add (alloc : DictAlloc) (now : Nat) (d : Dict) (rep : Represents d)
    (key : Bytes) (val : CcObj) (entryOk : alloc.entry = true) (keyOk : alloc.key = true) :
    mapping (dictAdd alloc now d key val).1 = put (mapping d) key val.ptr val.expire ∧
      (dictAdd alloc now d key val).2 = true := by
  have success := add_succeeds alloc now d key val entryOk keyOk
  exact ⟨add_mapping alloc now d rep key val success, success⟩

theorem mapping_clear_expired (now : Nat) (d : Dict) (rep : Represents d) :
    mapping (dictClearExpired now d) = sweep (expired now) (mapping d) := by
  funext key
  simp only [mapping, sweep, clear_expired_table, flatten_filter]
  rw [lookup_filter DictEntry.key key (live now) _ rep.valid.distinct_flatten]
  cases lookup DictEntry.key key d.table.flatten with
  | none => rfl
  | some entry =>
      cases gone : expired now entry.val.expire <;>
        simp [Option.filter, live, binding, gone]

section Runs

/-- One call of the hash table's interface with what it reads from outside. -/
inductive DictCall where
  | add (alloc : DictAlloc) (now : Nat) (key : Bytes) (val : CcObj)
  | get (now : Nat) (key : Bytes)
  | delete (key : Bytes)
  | resize (alloc : Bool)
  | clearExpired (now : Nat)

inductive DictReply where
  | added (ok : Bool)
  | got (object : Option (Bytes × Nat))
  | deleted (ok : Bool)
  | done
  deriving DecidableEq

def call (d : Dict) : DictCall → Dict × DictReply
  | .add alloc now key val =>
      ((dictAdd alloc now d key val).1, .added (dictAdd alloc now d key val).2)
  | .get now key =>
      ((dictGet now d key).1,
        .got ((dictGet now d key).2.map fun obj => (obj.ptr, obj.expire)))
  | .delete key => ((dictDelete d key).1, .deleted (dictDelete d key).2)
  | .resize alloc => (dictResize alloc d, .done)
  | .clearExpired now => (dictClearExpired now d, .done)

/-- The reference map on the same call. -/
def refCall (m : Mapping) : DictCall → Mapping × DictReply
  | .add _ _ key val => (put m key val.ptr val.expire, .added true)
  | .get now key => (settle (expired now) m key, .got (fetch (expired now) m key))
  | .delete key => (drop m key, .deleted (m key).isSome)
  | .resize _ => (m, .done)
  | .clearExpired now => (sweep (expired now) m, .done)

def runCalls {State : Type} (step : State → DictCall → State × DictReply) :
    State → List DictCall → State × List DictReply
  | state, [] => (state, [])
  | state, first :: rest =>
      let (state, reply) := step state first
      let (state, replies) := runCalls step state rest
      (state, reply :: replies)

/-- The allocations of an insertion succeed. A table that cannot grow is not a
    failure: `dict_resize` then leaves it as it is. -/
def DictCall.Allocates : DictCall → Prop
  | .add alloc _ _ _ => alloc.entry = true ∧ alloc.key = true
  | _ => True

theorem call_represents (d : Dict) (rep : Represents d) (c : DictCall) :
    Represents (call d c).1 := by
  cases c with
  | add alloc now key val => exact add_represents alloc now d rep key val
  | get now key => exact get_represents now d rep key
  | delete key => exact delete_represents d rep key
  | resize alloc => exact resize_represents alloc d rep
  | clearExpired now => exact clear_expired_represents now d rep

theorem call_refines (d : Dict) (rep : Represents d) (c : DictCall) (allocates : c.Allocates) :
    refCall (mapping d) c = (mapping (call d c).1, (call d c).2) := by
  cases c with
  | add alloc now key val =>
      obtain ⟨contents, added⟩ := mapping_add alloc now d rep key val allocates.1 allocates.2
      simp [refCall, call, contents, added]
  | get now key =>
      obtain ⟨contents, answer⟩ := mapping_get now d rep key
      simp [refCall, call, contents, answer]
  | delete key =>
      obtain ⟨contents, answer⟩ := mapping_delete d rep key
      simp [refCall, call, contents, answer]
  | resize alloc => simp [refCall, call, resize_mapping alloc d rep]
  | clearExpired now => simp [refCall, call, mapping_clear_expired now d rep]

-- `call_represents` hands the invariant on to the state of the next call.
theorem run_refines (d : Dict) (rep : Represents d) (calls : List DictCall)
    (allocate : ∀ c ∈ calls, c.Allocates) :
    runCalls refCall (mapping d) calls =
      (mapping (runCalls call d calls).1, (runCalls call d calls).2) := by
  induction calls generalizing d with
  | nil => rfl
  | cons first rest ih =>
      have step := call_refines d rep first (allocate first List.mem_cons_self)
      have tail := ih (call d first).1 (call_represents d rep first)
        (fun c member => allocate c (List.mem_cons_of_mem first member))
      simp only [runCalls, step, tail]

/-- Every run of calls on a fresh table answers, and ends, as the reference map does. -/
theorem dict_refines_map (alloc : Bool) (initialSize : Nat) (d : Dict)
    (created : dictCreate alloc initialSize = some d) (calls : List DictCall)
    (allocate : ∀ c ∈ calls, c.Allocates) :
    (runCalls call d calls).2 = (runCalls refCall (fun _ => none) calls).2 ∧
      mapping (runCalls call d calls).1 = (runCalls refCall (fun _ => none) calls).1 := by
  obtain ⟨rep, fresh⟩ := create_represents alloc initialSize d created
  have refined := run_refines d rep calls allocate
  -- A fresh table is the empty map, where the reference run starts.
  rw [mapping_empty d fresh] at refined
  simp [refined]

/-- An insertion, an overwrite with a deadline, a late lookup. -/
def sampleCalls : List DictCall :=
  [.add ⟨true, true, true⟩ 1 (ascii "k") ⟨ascii "v", .string, 0, 2, 0⟩,
    .add ⟨true, true, true⟩ 2 (ascii "k") ⟨ascii "w", .string, 5, 2, 0⟩,
    .get 6 (ascii "k")]

theorem sample_calls_refine :
    ∃ d, dictCreate true 4 = some d ∧
      (runCalls call d sampleCalls).2 = (runCalls refCall (fun _ => none) sampleCalls).2 ∧
      mapping (runCalls call d sampleCalls).1 =
        (runCalls refCall (fun _ => none) sampleCalls).1 := by
  refine ⟨_, rfl, dict_refines_map true 4 _ rfl sampleCalls fun c member => ?_⟩
  simp only [sampleCalls, List.mem_cons, List.not_mem_nil, or_false] at member
  rcases member with rfl | rfl | rfl
  · exact ⟨rfl, rfl⟩
  · exact ⟨rfl, rfl⟩
  · trivial

end Runs

end CrimsonCache.Dictionary
