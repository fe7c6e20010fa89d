import Mathlib.Logic.Function.Basic
import CrimsonCache.Dictionary
import CrimsonCache.Library.LittleEndian

/-!
persistence.c: the snapshot file. A save is the list of its `fwrite` calls in
program order, cut at the first one that fails; what stdio still buffers at
`fclose` may be lost, and only `fclose` says so. A load consumes the file from
the front and inserts records as it parses them, all at one reading of the
clock. File names map to contents.
-/

namespace CrimsonCache.Persistence

open CString Dictionary LittleEndian

abbrev Files := Bytes → Option Bytes

def rdbMagic : Bytes := ascii "CCDB"
def rdbVersion : Nat := 1
def rdbSet : UInt8 := 1
def rdbEnd : UInt8 := 255
def dumpRdb : Bytes := ascii "dump.rdb"

section Save

/-- The constants of `cc_type` in declaration order. -/
def typeCode : CcType → Nat
  | .string => 0
  | .list => 1
  | .set => 2
  | .int => 3
  | .float => 4
  | .bool => 5

def rdbSaveString (str : Bytes) (len : Nat) : List Bytes :=
  encode 8 len :: if len > 0 then [str.take len] else []

def saveValue (obj : CcObj) : List Bytes :=
  match obj.type with
  | .string => [rdbSet] :: rdbSaveString obj.ptr (strlen obj.ptr)
  | _ => []

def saveEntry (now : Nat) (entry : DictEntry) : List Bytes :=
  if expired now entry.val.expire then []
  else
    rdbSaveString entry.key (strlen entry.key) ++
      [encode 4 (typeCode entry.val.type)] ++
      [[if entry.val.expire ≠ 0 then 1 else 0]] ++
      (if entry.val.expire ≠ 0 then [encode 8 entry.val.expire] else []) ++
      saveValue entry.val

/-- Every `fwrite` of a save in which none of them fails. -/
def saveChunks (now : Nat) (db : Dict) : List Bytes :=
  [rdbMagic, encode 4 rdbVersion, encode 8 db.used] ++
    db.table.flatMap (fun chain => chain.flatMap (saveEntry now)) ++
    [[rdbEnd]]

def rdbEncoding (now : Nat) (db : Dict) : Bytes := (saveChunks now db).flatten

/-- Outcomes of the stdio calls of one save. `fclose := some kept` is a flush
    that failed after `kept` bytes had reached the file. -/
structure SaveIo where
  fopen : Bool
  fwrite : Nat → Bool
  fclose : Option Nat
  rename : Bool

def fwriteAll (ok : Nat → Bool) : Nat → List Bytes → Bool × Bytes
  | _, [] => (true, [])
  | index, chunk :: rest =>
      if ok index then
        let (result, written) := fwriteAll ok (index + 1) rest
        (result, chunk ++ written)
      else (false, [])

/-- What the file holds once it is closed. -/
def flushed (io : SaveIo) (written : Bytes) : Bytes :=
  match io.fclose with
  | none => written
  | some kept => written.take kept

def tempFilename (filename : Bytes) : Bytes := snprintf 256 (filename ++ ascii ".tmp")

def saveRdbToFile (io : SaveIo) (now : Nat) (db : Dict) (filename : Bytes) (files : Files) :
    Files × Bool :=
  let temp := tempFilename filename
  if io.fopen then
    let (result, written) := fwriteAll io.fwrite 0 (saveChunks now db)
    -- The result of fclose is not looked at.
    let content := flushed io written
    if result then
      if io.rename then
        (Function.update (Function.update files temp none) filename (some content), true)
      else (Function.update files temp (some content), false)
    else (Function.update files temp none, false)
  else (files, false)

end Save

section Load

/-- Outcomes of the allocations made for one record. A string of the file is
    allocated by its length prefix plus one, as a `size_t`. -/
structure LoadAlloc where
  key : Nat → Bool
  val : Nat → Bool
  obj : Bool
  dict : DictAlloc

def fread (count : Nat) (file : Bytes) : Option (Bytes × Bytes) := takeExact count file

def rdbLoadString (malloc : Nat → Bool) (file : Bytes) : Option (Bytes × Bytes) :=
  match fread 8 file with
  | none => none
  | some (raw, file) =>
      let len := decode raw
      -- The largest prefix asks for no byte at all.
      if malloc ((len + 1) % 2 ^ 64) then
        if len > 0 then fread len file else some ([], file)
      else none

/-- From the value command on: `none` is a jump to `cleanup`. -/
def loadValue (alloc : LoadAlloc) (now : Nat) (db : Dict) (key : Bytes) (expire : Nat)
    (file : Bytes) : Dict × Option Bytes :=
  match fread 1 file with
  | none => (db, none)
  | some (cmd, file) =>
      if cmd = [rdbSet] then
        match rdbLoadString alloc.val file with
        | none => (db, none)
        | some (val, file) =>
            if alloc.obj then
              let obj : CcObj :=
                { ptr := cstr val
                  type := .string
                  expire := expire
                  size := val.length + 1
                  lastAccess := now }
              let (db, added) := dictAdd alloc.dict now db (cstr key) obj
              (db, if added then some file else none)
            else (db, none)
      else (db, none)

/-- The value of a record that the reader's clock already passed. -/
def skipValue (alloc : LoadAlloc) (file : Bytes) : Option Bytes :=
  match fread 1 file with
  | none => none
  | some (cmd, file) =>
      -- Unlike `loadValue`, an unknown command is passed over here.
      if cmd = [rdbSet] then (rdbLoadString alloc.val file).map Prod.snd else some file

def loadExpire (hasExpiry : Bool) (file : Bytes) : Option (Nat × Bytes) :=
  if hasExpiry then (fread 8 file).map fun (raw, file) => (decode raw, file)
  else some (0, file)

def loadRecord (alloc : LoadAlloc) (now : Nat) (db : Dict) (file : Bytes) :
    Dict × Option Bytes :=
  match rdbLoadString alloc.key file with
  | none => (db, none)
  | some (key, file) =>
      match fread 4 file with
      | none => (db, none)
      -- The type is read and not used: the value command decides.
      | some (_, file) =>
          match fread 1 file with
          | none => (db, none)
          | some (flag, file) =>
              let hasExpiry : Bool := flag ≠ [0]
              match loadExpire hasExpiry file with
              | none => (db, none)
              | some (expire, file) =>
                  if hasExpiry && expire < now then (db, skipValue alloc file)
                  else loadValue alloc now db key expire file

def loadEntries (now : Nat) : Nat → (Nat → LoadAlloc) → Dict → Bytes → Dict × Option Bytes
  | 0, _, db, file => (db, some file)
  | count + 1, alloc, db, file =>
      match loadRecord (alloc 0) now db file with
      | (db, none) => (db, none)
      | (db, some file) => loadEntries now count (fun index => alloc (index + 1)) db file

def checkEndMarker (file : Bytes) : Bool :=
  match fread 1 file with
  | none => false
  | some (marker, _) => marker = [rdbEnd]

/-- `load_rdb_from_file` once the file is open. -/
def loadRdb (alloc : Nat → LoadAlloc) (now : Nat) (db : Dict) (file : Bytes) : Dict × Bool :=
  match fread 4 file with
  | none => (db, false)
  | some (magic, file) =>
      if magic = rdbMagic then
        match fread 4 file with
        | none => (db, false)
        | some (version, file) =>
            if decode version = rdbVersion then
              match fread 8 file with
              | none => (db, false)
              | some (count, file) =>
                  match loadEntries now (decode count) alloc db file with
                  | (db, none) => (db, false)
                  | (db, some file) => (db, checkEndMarker file)
            else (db, false)
      else (db, false)

def loadRdbFromFile (fopen : Bool) (alloc : Nat → LoadAlloc) (now : Nat) (db : Dict)
    (filename : Bytes) (files : Files) : Dict × Bool :=
  match files filename with
  | none => (db, true)
  | some file => if fopen then loadRdb alloc now db file else (db, false)

end Load

end CrimsonCache.Persistence
