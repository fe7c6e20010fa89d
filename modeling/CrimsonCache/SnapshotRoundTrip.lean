import CrimsonCache.SnapshotRecords

/-!
Reading back a snapshot. The header counts every stored entry while the writer
skips those its clock has passed; the reader trusts the header and skips by its
own clock. A load therefore succeeds exactly when the writer skipped nothing,
and then restores what is still live for the reader.
-/

namespace CrimsonCache.Persistence

open CString Dictionary LittleEndian ChainedTable DeadlineMap StepParsers SnapshotRecords

/-- What the encoding needs of an entry: C strings whose sizes, and a deadline
    that, fit their fields. -/
structure Storable (entry : DictEntry) : Prop where
  key : 0 ∉ entry.key
  keyLength : entry.key.length < 2 ^ 31
  ptr : 0 ∉ entry.val.ptr
  ptrLength : entry.val.ptr.length < 2 ^ 31
  type : entry.val.type = .string
  expire : entry.val.expire < 2 ^ 64

/-- No allocation of the load fails. -/
def LoadAlloc.Succeeds (alloc : LoadAlloc) : Prop :=
  (∀ size, alloc.key size = true) ∧ (∀ size, alloc.val size = true) ∧ alloc.obj = true ∧
    alloc.dict.entry = true ∧ alloc.dict.key = true

def stringBytes (str : Bytes) : Bytes := encode 8 str.length ++ str

def expireBytes (expire : Nat) : Bytes := if expire ≠ 0 then 1 :: encode 8 expire else [0]

/-- The bytes of one record. -/
def recordBytes (entry : DictEntry) : Bytes :=
  stringBytes entry.key ++ (encode 4 0 ++ (expireBytes entry.val.expire ++
    (rdbSet :: stringBytes entry.val.ptr)))

section Writing

theorem save_string_bytes (str : Bytes) (free : 0 ∉ str) :
    (rdbSaveString str (strlen str)).flatten = stringBytes str := by
  have whole : strlen str = str.length := by rw [strlen, cstr_of_nul_free str free]
  rw [whole]
  cases str with
  | nil => rfl
  | cons c rest => simp [rdbSaveString, stringBytes]

theorem save_entry_bytes (now : Nat) (entry : DictEntry) (storable : Storable entry) :
    (saveEntry now entry).flatten = if live now entry then recordBytes entry else [] := by
  cases gone : expired now entry.val.expire with
  | true => simp [saveEntry, live, gone]
  | false =>
      have name := save_string_bytes entry.key storable.key
      have value := save_string_bytes entry.val.ptr storable.ptr
      simp only [saveEntry, gone, saveValue, storable.type, live, Bool.not_false,
        Bool.false_eq_true, ↓reduceIte, List.flatten_append, List.flatten_cons, name, value,
        recordBytes, expireBytes, typeCode]
      split <;> simp

theorem save_rows_bytes (now : Nat) (rows : List DictEntry)
    (storable : ∀ entry ∈ rows, Storable entry) :
    (rows.flatMap (saveEntry now)).flatten = (rows.filter (live now)).flatMap recordBytes := by
  induction rows with
  | nil => rfl
  | cons entry rest ih =>
      have tail := ih fun later member => storable later (List.mem_cons_of_mem entry member)
      rw [List.flatMap_cons, List.flatten_append, tail,
        save_entry_bytes now entry (storable entry List.mem_cons_self), List.filter_cons]
      split <;> simp

theorem flatMap_chains (write : DictEntry → List Bytes) (table : Table DictEntry) :
    table.flatMap (fun chain => chain.flatMap write) = table.flatten.flatMap write := by
  induction table with
  | nil => rfl
  | cons chain rest ih => simp [ih]

/-- The encoding: a header with the entry count, a record for each entry that is
    live for the writer, the end marker. -/
theorem encoding_bytes (now : Nat) (db : Dict)
    (storable : ∀ entry ∈ db.table.flatten, Storable entry) :
    rdbEncoding now db =
      rdbMagic ++ (encode 4 rdbVersion ++ (encode 8 db.used ++
        ((db.table.flatten.filter (live now)).flatMap recordBytes ++ [rdbEnd]))) := by
  simp only [rdbEncoding, saveChunks, flatMap_chains, List.flatten_append, List.flatten_cons,
    List.flatten_nil, save_rows_bytes now _ storable, List.append_assoc, List.append_nil]

end Writing

section Reading

theorem load_string_bytes (malloc : Nat → Bool) (str rest : Bytes) (short : str.length < 2 ^ 31)
    (ok : ∀ size, malloc size = true) :
    rdbLoadString malloc (stringBytes str ++ rest) = some (str, rest) := by
  have header : fread 8 (stringBytes str ++ rest) = some (encode 8 str.length, str ++ rest) := by
    rw [stringBytes, List.append_assoc]
    exact takeExact_append 8 _ _ (length_encode 8 _)
  have length : decode (encode 8 str.length) = str.length := decode_encode 8 _ (by omega)
  simp only [rdbLoadString, header, length, ok, ↓reduceIte]
  split
  case isTrue => exact takeExact_append _ _ _ rfl
  case isFalse empty =>
    have none : str = [] := List.length_eq_zero_iff.mp (by omega)
    simp [none]

theorem load_expire_bytes (expire : Nat) (rest : Bytes) (bound : expire < 2 ^ 64) :
    ∃ flag, fread 1 (expireBytes expire ++ rest) = some (flag,
        if expire ≠ 0 then encode 8 expire ++ rest else rest) ∧
      (flag ≠ [0] ↔ expire ≠ 0) ∧
      loadExpire (flag ≠ [0]) (if expire ≠ 0 then encode 8 expire ++ rest else rest) =
        some (expire, rest) := by
  by_cases none : expire = 0
  · refine ⟨[0], ?_, by simp [none], ?_⟩
    · simp [none, expireBytes, fread, takeExact]
    · simp [none, loadExpire]
  · refine ⟨[1], ?_, by simp [none], ?_⟩
    · simp [none, expireBytes, fread, takeExact]
    · have read : fread 8 (encode 8 expire ++ rest) = some (encode 8 expire, rest) :=
        takeExact_append 8 _ _ (length_encode 8 _)
      simp [none, loadExpire, read, decode_encode 8 expire (by simpa using bound)]

/-- The object a load makes of a record. -/
def restored (now : Nat) (entry : DictEntry) : CcObj :=
  { ptr := entry.val.ptr
    type := .string
    expire := entry.val.expire
    size := entry.val.ptr.length + 1
    lastAccess := now }

/-- One record: to be stored when it is live for the reader, skipped otherwise. -/
theorem read_record_bytes (alloc : LoadAlloc) (now : Nat) (entry : DictEntry) (rest : Bytes)
    (storable : Storable entry) (ok : alloc.Succeeds) :
    readRecord alloc now (recordBytes entry ++ rest) =
      some (if live now entry then
        some ⟨entry.key, entry.val.ptr, entry.val.ptr.length + 1, entry.val.expire⟩ else none, rest) := by
  rcases ok with ⟨keyOk, valOk, objOk, -, -⟩
  -- The record from the front: key, type, expiry, value command, value.
  have whole : recordBytes entry ++ rest = stringBytes entry.key ++ (encode 4 0 ++
      (expireBytes entry.val.expire ++ (rdbSet :: (stringBytes entry.val.ptr ++ rest)))) := by
    simp [recordBytes]
  have name := load_string_bytes alloc.key entry.key
    (encode 4 0 ++ (expireBytes entry.val.expire ++ (rdbSet :: (stringBytes entry.val.ptr ++ rest))))
    storable.keyLength keyOk
  have type : fread 4 (encode 4 0 ++ (expireBytes entry.val.expire ++
      (rdbSet :: (stringBytes entry.val.ptr ++ rest)))) = some (encode 4 0,
        expireBytes entry.val.expire ++ (rdbSet :: (stringBytes entry.val.ptr ++ rest))) :=
    takeExact_append 4 _ _ (length_encode 4 _)
  obtain ⟨flag, hasExpiry, flagged, expire⟩ := load_expire_bytes entry.val.expire
    (rdbSet :: (stringBytes entry.val.ptr ++ rest)) storable.expire
  have command : fread 1 (rdbSet :: (stringBytes entry.val.ptr ++ rest)) =
      some ([rdbSet], stringBytes entry.val.ptr ++ rest) := takeExact_append 1 [rdbSet] _ rfl
  have value := load_string_bytes alloc.val entry.val.ptr rest storable.ptrLength valOk
  -- A zero deadline has no flag, so flag and clock together are `expired`.
  have clock : (decide (flag ≠ [0]) && decide (entry.val.expire < now)) =
      expired now entry.val.expire := by
    simp only [expired, decide_eq_decide.mpr flagged]
  rw [whole, readRecord, and_then_eq _ _ _ _ _ name, and_then_eq _ _ _ _ _ type,
    and_then_eq _ _ _ _ _ hasExpiry, and_then_eq _ _ _ _ _ expire, clock]
  cases gone : expired now entry.val.expire with
  | true => simp [live, gone, passValue, andThen, command, value]
  | false =>
      simp [live, gone, readValue, andThen, command, value, objOk, cstr_of_nul_free _ storable.key,
        cstr_of_nul_free _ storable.ptr]

theorem load_record_bytes (alloc : LoadAlloc) (now : Nat) (db : Dict) (entry : DictEntry)
    (rest : Bytes) (storable : Storable entry) (ok : alloc.Succeeds) (rep : Represents db) :
    loadRecord alloc now db (recordBytes entry ++ rest) =
      (if live now entry then (dictAdd alloc.dict now db entry.key (restored now entry)).1 else db,
        some rest) := by
  have added := (mapping_add alloc.dict now db rep entry.key (restored now entry) ok.2.2.2.1
    ok.2.2.2.2).2
  rw [load_record_read, read_record_bytes alloc now entry rest storable ok]
  cases alive : live now entry with
  | true =>
      simp only [restored] at added
      simp [Record.obj, restored, added]
  | false => rfl

/-- The table after the records of `rows` were loaded into it. -/
def restoreRows (now : Nat) : (Nat → LoadAlloc) → Dict → List DictEntry → Dict
  | _, db, [] => db
  | alloc, db, entry :: rest =>
      restoreRows now (fun index => alloc (index + 1))
        (if live now entry then
          (dictAdd (alloc 0).dict now db entry.key (restored now entry)).1
        else db) rest

theorem load_entries_bytes (now : Nat) (rows : List DictEntry) (count : Nat)
    (alloc : Nat → LoadAlloc) (db : Dict) (rest : Bytes)
    (storable : ∀ entry ∈ rows, Storable entry) (ok : ∀ index, (alloc index).Succeeds)
    (rep : Represents db) :
    loadEntries now (rows.length + count) alloc db (rows.flatMap recordBytes ++ rest) =
      loadEntries now count (fun index => alloc (index + rows.length))
        (restoreRows now alloc db rows) rest := by
  induction rows generalizing alloc db with
  | nil => simp [restoreRows]
  | cons entry tail ih =>
      have stored := storable entry List.mem_cons_self
      have first := load_record_bytes (alloc 0) now db entry (tail.flatMap recordBytes ++ rest)
        stored (ok 0) rep
      have kept : Represents (if live now entry then
          (dictAdd (alloc 0).dict now db entry.key (restored now entry)).1 else db) := by
        split
        · exact add_represents _ now db rep _ _
        · exact rep
      have later := ih (fun index => alloc (index + 1)) _
        (fun other member => storable other (List.mem_cons_of_mem entry member))
        (fun index => ok (index + 1)) kept
      -- The header's count is what makes the reader go on, so it is peeled off here.
      rw [show (entry :: tail).length + count = (tail.length + count) + 1 by simp; omega]
      simp only [loadEntries, List.flatMap_cons, List.append_assoc, first, later, restoreRows]
      simp [Nat.add_assoc]

theorem restore_rows_mapping (now : Nat) (rows : List DictEntry) (alloc : Nat → LoadAlloc)
    (db : Dict) (distinct : (rows.map DictEntry.key).Nodup)
    (ok : ∀ index, (alloc index).Succeeds) (rep : Represents db) (key : Bytes) :
    mapping (restoreRows now alloc db rows) key =
      match lookup DictEntry.key key (rows.filter (live now)) with
      | some entry => some (binding entry)
      | none => mapping db key := by
  induction rows generalizing alloc db with
  | nil => rfl
  | cons entry tail ih =>
      obtain ⟨fresh, apart⟩ := List.nodup_cons.mp (by simpa using distinct :
        (entry.key :: tail.map DictEntry.key).Nodup)
      obtain ⟨_, _, _, entryOk, copyOk⟩ := ok 0
      cases alive : live now entry with
      | false =>
          simp only [restoreRows, alive, List.filter_cons, Bool.false_eq_true, ↓reduceIte]
          exact ih _ db apart (fun index => ok (index + 1)) rep
      | true =>
          have stored := mapping_add (alloc 0).dict now db rep entry.key (restored now entry)
            entryOk copyOk
          simp only [restoreRows, alive, List.filter_cons, ↓reduceIte]
          rw [ih _ _ apart (fun index => ok (index + 1)) (add_represents _ now db rep _ _)]
          -- Keys are distinct, so no later record binds this one again.
          by_cases hit : entry.key = key
          · have absent : lookup DictEntry.key key (tail.filter (live now)) = none := by
              rw [lookup_none]
              intro later member same
              exact fresh (List.mem_map.mpr
                ⟨later, (List.mem_filter.mp member).1, same.trans hit.symm⟩)
            have found : lookup DictEntry.key key (entry :: tail.filter (live now)) =
                some entry := by simp [lookup, hit]
            rw [absent, found]
            simp only [stored.1, ← hit, put_same]
            rfl
          · have skipped : lookup DictEntry.key key (entry :: tail.filter (live now)) =
                lookup DictEntry.key key (tail.filter (live now)) := by simp [lookup, hit]
            rw [skipped]
            split
            · rfl
            · rw [stored.1, put_other _ _ _ _ _ (Ne.symm hit)]

end Reading

/-- Loading an encoding reads the records and then as many more as the writer
    skipped, of which the file holds none. -/
theorem load_encoding (alloc : Nat → LoadAlloc) (now saved : Nat) (db fresh : Dict)
    (rep : Represents db) (storable : ∀ entry ∈ db.table.flatten, Storable entry)
    (fits : db.used < 2 ^ 64) (ok : ∀ index, (alloc index).Succeeds) (blank : Represents fresh) :
    (loadRdb alloc now fresh (rdbEncoding saved db)).1 =
        restoreRows now alloc fresh (db.table.flatten.filter (live saved)) ∧
      ((loadRdb alloc now fresh (rdbEncoding saved db)).2 = true ↔
        ∀ entry ∈ db.table.flatten, expired saved entry.val.expire = false) := by
  -- The header counts the records and the skipped entries.
  have shorter := List.length_filter_le (live saved) db.table.flatten
  obtain ⟨skipped, split⟩ := Nat.exists_eq_add_of_le shorter
  rw [← rep.used] at split
  have records := load_entries_bytes now (db.table.flatten.filter (live saved)) skipped alloc fresh
    [rdbEnd] (fun entry member => storable entry (List.mem_filter.mp member).1) ok blank
  rw [load_rdb_header, encoding_bytes saved db storable, header_read db.used fits]
  dsimp only
  rw [split, records]
  have complete : skipped = 0 ↔
      ∀ entry ∈ db.table.flatten, expired saved entry.val.expire = false := by
    have kept : (db.table.flatten.filter (live saved)).length = db.table.flatten.length ↔
        ∀ entry ∈ db.table.flatten, live saved entry = true := List.length_filter_eq_length_iff
    rw [← rep.used] at kept
    simp only [live, Bool.not_eq_eq_eq_not, Bool.not_true] at kept
    rw [← kept]
    omega
  cases skipped with
  | zero => exact ⟨rfl, by simpa [loadEntries, checkEndMarker, fread, takeExact] using complete⟩
  | succ more =>
      -- One byte is left, the end marker, and a record starts with eight.
      have short : rdbLoadString (alloc (0 + (db.table.flatten.filter (live saved)).length)).key
          [rdbEnd] = none := by
        simp [rdbLoadString, fread, takeExact]
      simp only [loadEntries, loadRecord, short, true_and]
      simpa using complete

/-- What a load restores of a table: the entries live for the writer, as far as
    they are live for the reader. -/
theorem restored_mapping (alloc : Nat → LoadAlloc) (now saved : Nat) (db fresh : Dict)
    (rep : Represents db) (ok : ∀ index, (alloc index).Succeeds) (blank : Represents fresh)
    (unused : fresh.table.flatten = []) :
    mapping (restoreRows now alloc fresh (db.table.flatten.filter (live saved))) =
      sweep (expired now) (sweep (expired saved) (mapping db)) := by
  funext key
  have distinct := rep.valid.distinct_flatten
  have apart := distinct.sublist
    ((List.filter_sublist (p := live saved) (l := db.table.flatten)).map DictEntry.key)
  rw [restore_rows_mapping now _ alloc fresh apart ok blank key,
    lookup_filter DictEntry.key key (live now) _ apart,
    lookup_filter DictEntry.key key (live saved) _ distinct, mapping_empty fresh unused]
  simp only [sweep, mapping]
  cases lookup DictEntry.key key db.table.flatten with
  | none => rfl
  | some entry =>
      cases gone : expired saved entry.val.expire <;> cases past : expired now entry.val.expire <;>
        simp [Option.filter, live, binding, gone, past]

end CrimsonCache.Persistence
