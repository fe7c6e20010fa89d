import CrimsonCache.CString
import CrimsonCache.Library.ChainedTable

/-!
dict.c: the hash table of the database. A chain lists its entries from the
bucket head on. Sizes are `size_t`, deadlines and access times `uint64_t`
milliseconds; `used_memory` wraps as in C, while `used` counts heap blocks and
is kept exact. A call is given one reading of the clock; where the code makes a
second one, that only dates the access. An allocation site fails when the
caller's oracle says so, and `calloc` also when its byte count overflows.
-/

namespace CrimsonCache.Dictionary

open CString ChainedTable

inductive CcType where
  | string
  | list
  | set
  | int
  | float
  | bool
  deriving DecidableEq

structure CcObj where
  ptr : Bytes
  type : CcType
  expire : Nat
  size : Nat
  lastAccess : Nat
  deriving DecidableEq

structure DictEntry where
  key : Bytes
  val : CcObj
  deriving DecidableEq

def setVal (change : CcObj → CcObj) (entry : DictEntry) : DictEntry :=
  { entry with val := change entry.val }

structure Dict where
  table : Table DictEntry
  size : Nat
  used : Nat
  mask : Nat
  maxMemory : Nat
  usedMemory : Nat
  deriving DecidableEq

/-- Outcomes of the allocations one `dict_add` can make. -/
structure DictAlloc where
  table : Bool
  entry : Bool
  key : Bool

def addSize (a b : Nat) : Nat := (a + b) % 2 ^ 64

def subSize (a b : Nat) : Nat := (a + 2 ^ 64 - b % 2 ^ 64) % 2 ^ 64

def calloc (ok : Bool) (count size : Nat) : Bool := ok && count * size < 2 ^ 64

/-- A `char` widened to `size_t`: bytes from 128 on are negative. -/
def charToSize (c : UInt8) : Nat := if c < 128 then c.toNat else 2 ^ 64 + c.toNat - 256

-- djb2; the shift and the sum wrap together at the end of each round.
def dictHash (key : Bytes) : Nat :=
  key.foldl (fun hash c => (hash <<< 5 + hash + charToSize c) % 2 ^ 64) 5381

def place (mask : Nat) (key : Bytes) : Nat := dictHash key &&& mask

/-- `while (size < initial_size) size *= 2;`, which past `2 ^ 63` wraps to zero
    and never ends: `none`. -/
def roundUp : Nat → Nat → Nat → Option Nat
  | 0, _, _ => none
  | rounds + 1, size, initial =>
      if size < initial then roundUp rounds (size * 2 % 2 ^ 64) initial else some size

def dictCreate (alloc : Bool) (initialSize : Nat) : Option Dict :=
  let initialSize := if initialSize < 4 then 4 else initialSize
  -- After 65 doublings from one the size is zero for good.
  match roundUp 65 1 initialSize with
  | none => none
  | some size =>
      if calloc alloc size 8 then
        some
          { table := empty size
            size := size
            used := 0
            mask := size - 1
            maxMemory := 0
            usedMemory := 0 }
      else none

def expired (now expire : Nat) : Bool := expire ≠ 0 && expire < now

section Eviction

structure LruScan where
  oldestAccess : Nat
  lru : Option (Nat × Nat × DictEntry)

/-- One bucket of the scan. The position in the chain stands for `lru_prev`. -/
def scanChain (idx : Nat) : Nat → List DictEntry → LruScan → LruScan
  | _, [], scan => scan
  | position, entry :: rest, scan =>
      -- Strictly older: of equal access times the first in scan order is kept.
      scanChain idx (position + 1) rest
        (if entry.val.lastAccess < scan.oldestAccess then
          ⟨entry.val.lastAccess, some (idx, position, entry)⟩
        else scan)

def scanTable : Nat → Table DictEntry → LruScan → LruScan
  | _, [], scan => scan
  | idx, chain :: rest, scan => scanTable (idx + 1) rest (scanChain idx 0 chain scan)

def lruEntry (d : Dict) : Option (Nat × Nat × DictEntry) :=
  (scanTable 0 d.table ⟨2 ^ 64 - 1, none⟩).lru

def evictEntry (d : Dict) (idx position : Nat) (victim : DictEntry) : Dict :=
  { d with
    table := update d.table idx fun rows => rows.eraseIdx position
    used := d.used - 1
    usedMemory := subSize d.usedMemory victim.val.size }

/-- The recursion of `dict_evict_lru_if_needed`. Each round removes an entry, so
    the number of stored entries bounds the rounds; with none left the scan
    finds no victim either. -/
def evictRounds : Nat → Dict → Dict
  | 0, d => d
  | rounds + 1, d =>
      if d.maxMemory = 0 ∨ d.usedMemory ≤ d.maxMemory then d
      else match lruEntry d with
        | none => d
        | some (idx, position, victim) => evictRounds rounds (evictEntry d idx position victim)

def dictEvictLruIfNeeded (d : Dict) : Dict := evictRounds d.table.flatten.length d

end Eviction

def dictResize (alloc : Bool) (d : Dict) : Dict :=
  let newSize := d.size * 2
  if calloc alloc newSize 8 then
    { d with
      table := d.table.foldl
        (fun newTable chain => relink (place (newSize - 1)) DictEntry.key chain newTable)
        (empty newSize)
      size := newSize
      mask := newSize - 1 }
  else d

/-- `dict_add` once the table has been grown. -/
def addEntry (alloc : DictAlloc) (now : Nat) (d : Dict) (key : Bytes) (val : CcObj) :
    Dict × Bool :=
  let idx := place d.mask key
  let val := { val with lastAccess := now }
  match lookup DictEntry.key key (chain d.table idx) with
  | some entry =>
      (dictEvictLruIfNeeded
        { d with
          table := update d.table idx
            (overwrite DictEntry.key key (setVal fun _ => val))
          usedMemory := addSize (subSize d.usedMemory entry.val.size) val.size }, true)
  | none =>
      -- The entry and the copy of its key; the value was allocated by the caller.
      if alloc.entry && alloc.key then
        (dictEvictLruIfNeeded
          { d with
            table := update d.table idx fun rows => { key := key, val := val } :: rows
            used := d.used + 1
            usedMemory := addSize d.usedMemory val.size }, true)
      else (d, false)

def dictAdd (alloc : DictAlloc) (now : Nat) (d : Dict) (key : Bytes) (val : CcObj) :
    Dict × Bool :=
  addEntry alloc now (if d.used ≥ d.size then dictResize alloc.table d else d) key val

def dictDelete (d : Dict) (key : Bytes) : Dict × Bool :=
  let idx := place d.mask key
  match lookup DictEntry.key key (chain d.table idx) with
  | none => (d, false)
  | some entry =>
      ({ d with
        table := update d.table idx (unlink DictEntry.key key)
        used := d.used - 1
        usedMemory := subSize d.usedMemory entry.val.size }, true)

/-- A write through the object pointer a lookup of `key` returned. -/
def updateObj (d : Dict) (key : Bytes) (change : CcObj → CcObj) : Dict :=
  { d with
    table := update d.table (place d.mask key)
      (overwrite DictEntry.key key (setVal change)) }

def touch (now : Nat) (obj : CcObj) : CcObj := { obj with lastAccess := now }

def dictGet (now : Nat) (d : Dict) (key : Bytes) : Dict × Option CcObj :=
  match lookup DictEntry.key key (chain d.table (place d.mask key)) with
  | none => (d, none)
  | some entry =>
      if expired now entry.val.expire then ((dictDelete d key).1, none)
      else (updateObj d key (touch now), some (touch now entry.val))

/-- The `used` and `used_memory` a sweep carries from entry to entry. -/
structure Counters where
  used : Nat
  usedMemory : Nat

def clearChain (now : Nat) : List DictEntry → Counters → List DictEntry × Counters
  | [], counters => ([], counters)
  | entry :: rest, counters =>
      if expired now entry.val.expire then
        clearChain now rest
          ⟨counters.used - 1, subSize counters.usedMemory entry.val.size⟩
      else
        let (kept, counters) := clearChain now rest counters
        (entry :: kept, counters)

def clearTable (now : Nat) : Table DictEntry → Counters → Table DictEntry × Counters
  | [], counters => ([], counters)
  | chain :: rest, counters =>
      let (chain, counters) := clearChain now chain counters
      let (rest, counters) := clearTable now rest counters
      (chain :: rest, counters)

def dictClearExpired (now : Nat) (d : Dict) : Dict :=
  let (table, counters) := clearTable now d.table ⟨d.used, d.usedMemory⟩
  { d with table := table, used := counters.used, usedMemory := counters.usedMemory }

end CrimsonCache.Dictionary
