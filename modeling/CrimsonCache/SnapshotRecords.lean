import CrimsonCache.DictionaryRefinement
import CrimsonCache.Library.StepParsers
import CrimsonCache.Persistence

/-!
The records of a snapshot file apart from the table they are loaded into. A load
parses a record, then stores it or skips it; what it parses depends on the file,
the clock and the allocations only, and what it leaves behind is the map with the
stored records put into it one after the other.
-/

namespace CrimsonCache.SnapshotRecords

open CString Dictionary DeadlineMap LittleEndian Persistence StepParsers

section Model

/-- A record as `dict_add` gets it. -/
structure Record where
  key : Bytes
  value : Bytes
  size : Nat
  expire : Nat
  deriving DecidableEq

def Record.obj (now : Nat) (record : Record) : CcObj :=
  { ptr := record.value
    type := .string
    expire := record.expire
    size := record.size
    lastAccess := now }

/-- The value of a record that is to be stored. -/
def readValue (alloc : LoadAlloc) (key : Bytes) (expire : Nat) : Parser UInt8 Record :=
  andThen (fread 1) fun cmd =>
    if cmd = [rdbSet] then
      andThen (rdbLoadString alloc.val) fun val =>
        if alloc.obj then fun file => some (⟨cstr key, cstr val, val.length + 1, expire⟩, file)
        else fun _ => none
    else fun _ => none

/-- The value of a record that is passed over. -/
def passValue (alloc : LoadAlloc) : Parser UInt8 Unit :=
  andThen (fread 1) fun cmd =>
    if cmd = [rdbSet] then andThen (rdbLoadString alloc.val) fun _ file => some ((), file)
    else fun file => some ((), file)

/-- One record of the file: `none` is one that the reader's clock has passed. -/
def readRecord (alloc : LoadAlloc) (now : Nat) : Parser UInt8 (Option Record) :=
  andThen (rdbLoadString alloc.key) fun key =>
    andThen (fread 4) fun _ =>
      andThen (fread 1) fun flag =>
        andThen (loadExpire (flag ≠ [0])) fun expire =>
          if flag ≠ [0] && expire < now then
            andThen (passValue alloc) fun _ file => some (none, file)
          else andThen (readValue alloc key expire) fun record file => some (some record, file)

/-- The records that are stored, given the keys that are bound already, and what is left of the
    file. A new key needs the memory for its entry. -/
def storedRecords (now : Nat) :
    Nat → (Nat → LoadAlloc) → (Bytes → Bool) → Bytes → List Record × Option Bytes
  | 0, _, _, file => ([], some file)
  | count + 1, alloc, bound, file =>
      match readRecord (alloc 0) now file with
      | none => ([], none)
      | some (none, file) => storedRecords now count (fun index => alloc (index + 1)) bound file
      | some (some record, file) =>
          if ((alloc 0).dict.entry && (alloc 0).dict.key) || bound record.key then
            let (more, rest) := storedRecords now count (fun index => alloc (index + 1))
              (fun key => key = record.key || bound key) file
            (record :: more, rest)
          else ([], none)

/-- The header, with the count it gives. -/
def readHeader : Parser UInt8 Nat :=
  andThen (fread 4) fun magic =>
    if magic = rdbMagic then
      andThen (fread 4) fun version =>
        if decode version = rdbVersion then
          andThen (fread 8) fun count file => some (decode count, file)
        else fun _ => none
    else fun _ => none

/-- The records that a load of the file stores. -/
def fileRecords (alloc : Nat → LoadAlloc) (now : Nat) (bound : Bytes → Bool) (file : Bytes) :
    List Record :=
  match readHeader file with
  | none => []
  | some (count, file) => (storedRecords now count alloc bound file).1

def Record.row (record : Record) : Bytes × Bytes × Nat := (record.key, record.value, record.expire)

def storeAll (records : List Record) (m : Mapping) : Mapping := putAll (records.map Record.row) m

end Model

section Loading

theorem load_value_read (alloc : LoadAlloc) (now : Nat) (db : Dict) (key : Bytes) (expire : Nat)
    (file : Bytes) :
    loadValue alloc now db key expire file =
      match readValue alloc key expire file with
      | none => (db, none)
      | some (record, file) =>
          let (db, added) := dictAdd alloc.dict now db record.key (record.obj now)
          (db, if added then some file else none) := by
  simp only [loadValue, readValue, andThen]
  cases fread 1 file with
  | none => rfl
  | some taken =>
      obtain ⟨cmd, file⟩ := taken
      simp only [Option.bind_some]
      by_cases known : cmd = [rdbSet]
      · simp only [known, ↓reduceIte, andThen]
        cases rdbLoadString alloc.val file with
        | none => rfl
        | some taken =>
            cases allocated : alloc.obj with
            | true => rfl
            | false => simp
      · simp [known]

theorem skip_value_read (alloc : LoadAlloc) (file : Bytes) :
    skipValue alloc file = (passValue alloc file).map Prod.snd := by
  simp only [skipValue, passValue, andThen]
  cases fread 1 file with
  | none => rfl
  | some taken =>
      obtain ⟨cmd, file⟩ := taken
      simp only [Option.bind_some]
      by_cases known : cmd = [rdbSet]
      · simp only [known, ↓reduceIte, andThen]
        cases rdbLoadString alloc.val file with
        | none => rfl
        | some taken => rfl
      · simp [known]

/-- Loading a record is reading it, and storing what was read. -/
theorem load_record_read (alloc : LoadAlloc) (now : Nat) (db : Dict) (file : Bytes) :
    loadRecord alloc now db file =
      match readRecord alloc now file with
      | none => (db, none)
      | some (none, file) => (db, some file)
      | some (some record, file) =>
          let (db, added) := dictAdd alloc.dict now db record.key (record.obj now)
          (db, if added then some file else none) := by
  simp only [loadRecord, readRecord, andThen]
  cases rdbLoadString alloc.key file with
  | none => rfl
  | some taken =>
      obtain ⟨key, file⟩ := taken
      simp only [Option.bind_some]
      cases fread 4 file with
      | none => rfl
      | some taken =>
          obtain ⟨type, file⟩ := taken
          simp only [Option.bind_some]
          cases fread 1 file with
          | none => rfl
          | some taken =>
              obtain ⟨flag, file⟩ := taken
              simp only [Option.bind_some]
              cases loadExpire (flag ≠ [0]) file with
              | none => rfl
              | some taken =>
                  obtain ⟨expire, file⟩ := taken
                  simp only [Option.bind_some]
                  by_cases passed : (decide (flag ≠ [0]) && decide (expire < now)) = true
                  · simp only [passed, ↓reduceIte, andThen, skip_value_read]
                    cases passValue alloc file with
                    | none => rfl
                    | some taken => rfl
                  · simp only [passed, Bool.false_eq_true, ↓reduceIte, andThen, load_value_read]
                    cases readValue alloc key expire file with
                    | none => rfl
                    | some taken => rfl

/-- What a load leaves in the map is what the stored records put into it. -/
theorem load_entries_stored (now count : Nat) (alloc : Nat → LoadAlloc) (db : Dict)
    (rep : Represents db) (bound : Bytes → Bool)
    (bounds : ∀ key, bound key = (mapping db key).isSome) (file : Bytes) :
    mapping (loadEntries now count alloc db file).1 =
        storeAll (storedRecords now count alloc bound file).1 (mapping db) ∧
      (loadEntries now count alloc db file).2 = (storedRecords now count alloc bound file).2 := by
  induction count generalizing alloc db bound file with
  | zero => exact ⟨rfl, rfl⟩
  | succ count ih =>
      simp only [loadEntries, storedRecords, load_record_read]
      cases readRecord (alloc 0) now file with
      | none => exact ⟨rfl, rfl⟩
      | some taken =>
          obtain ⟨record, file⟩ := taken
          cases record with
          | none => exact ih _ db rep bound bounds file
          | some record =>
              have result := add_result (alloc 0).dict now db rep record.key (record.obj now)
              rw [← bounds] at result
              simp only [← result]
              cases added : (dictAdd (alloc 0).dict now db record.key (record.obj now)).2 with
              | false =>
                  exact ⟨add_failed _ _ db rep _ _ added, rfl⟩
              | true =>
                  have stored := add_mapping _ now db rep record.key (record.obj now) added
                  have later := ih (fun index => alloc (index + 1))
                    (dictAdd (alloc 0).dict now db record.key (record.obj now)).1
                    (add_represents _ now db rep _ _) (fun key => key = record.key || bound key)
                    (by
                      intro key
                      rw [stored]
                      by_cases same : key = record.key
                      · simp [same, put_same]
                      · simp [same, put_other _ _ _ _ _ same, bounds]) file
                  simp only [↓reduceIte]
                  rw [stored] at later
                  exact later

theorem load_rdb_header (alloc : Nat → LoadAlloc) (now : Nat) (db : Dict) (file : Bytes) :
    loadRdb alloc now db file =
      match readHeader file with
      | none => (db, false)
      | some (count, file) =>
          match loadEntries now count alloc db file with
          | (db, none) => (db, false)
          | (db, some file) => (db, checkEndMarker file) := by
  simp only [loadRdb, readHeader, andThen]
  cases fread 4 file with
  | none => rfl
  | some taken =>
      obtain ⟨magic, file⟩ := taken
      simp only [Option.bind_some]
      by_cases known : magic = rdbMagic
      · simp only [known, ↓reduceIte, andThen]
        cases fread 4 file with
        | none => rfl
        | some taken =>
            obtain ⟨version, file⟩ := taken
            simp only [Option.bind_some]
            by_cases supported : decode version = rdbVersion
            · simp only [supported, ↓reduceIte, andThen]
              cases fread 8 file with
              | none => rfl
              | some taken => rfl
            · simp [supported]
      · simp [known]

/-- The header as the writer writes it. -/
theorem header_read (used : Nat) (fits : used < 2 ^ 64) (rest : Bytes) :
    readHeader (rdbMagic ++ (encode 4 rdbVersion ++ (encode 8 used ++ rest))) = some (used, rest) := by
  have magic : fread 4 (rdbMagic ++ (encode 4 rdbVersion ++ (encode 8 used ++ rest))) =
      some (rdbMagic, encode 4 rdbVersion ++ (encode 8 used ++ rest)) := takeExact_append 4 _ _ rfl
  have version : fread 4 (encode 4 rdbVersion ++ (encode 8 used ++ rest)) =
      some (encode 4 rdbVersion, encode 8 used ++ rest) := takeExact_append 4 _ _ rfl
  have count : fread 8 (encode 8 used ++ rest) = some (encode 8 used, rest) :=
    takeExact_append 8 _ _ (length_encode 8 _)
  have number : decode (encode 4 rdbVersion) = rdbVersion := decode_encode 4 _ (by decide)
  have total : decode (encode 8 used) = used := decode_encode 8 _ (by simpa using fits)
  rw [readHeader, and_then_eq _ _ _ _ _ magic, if_pos rfl, and_then_eq _ _ _ _ _ version, if_pos number,
    and_then_eq _ _ _ _ _ count, total]

theorem load_rdb_mapping (alloc : Nat → LoadAlloc) (now : Nat) (db : Dict) (rep : Represents db)
    (file : Bytes) :
    mapping (loadRdb alloc now db file).1 =
      storeAll (fileRecords alloc now (fun key => (mapping db key).isSome) file) (mapping db) := by
  rw [load_rdb_header, fileRecords]
  cases readHeader file with
  | none => rfl
  | some taken =>
      obtain ⟨count, file⟩ := taken
      obtain ⟨contents, -⟩ := load_entries_stored now count alloc db rep _ (fun _ => rfl) file
      rw [← contents]
      dsimp only
      split
      case h_1 after loaded => rw [loaded]
      case h_2 after rest loaded => rw [loaded]

end Loading

end CrimsonCache.SnapshotRecords
