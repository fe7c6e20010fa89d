import CrimsonCache.ServerState

/-!
The handlers of commands.c that work on the database alone. Each of them makes
exactly one reply. Arithmetic on deadlines is that of `uint64_t`; a signed
product that overflows is taken to wrap.
-/

namespace CrimsonCache.DataCommands

open CString Dictionary Replies ServerState

/-- What a handler did to the database, what it replied and what it returned. -/
structure Answer where
  db : Dict
  reply : Reply
  result : CmdResult

def arg (argv : List Bytes) (index : Nat) : Bytes := argv.getD index []

/-- The common end of the handlers that store a string. -/
def storeString (env : Env) (reading : Nat) (db : Dict) (key value : Bytes) (expire : Nat)
    (reply : Reply) : Answer :=
  if env.alloc .obj && env.alloc .objPtr then
    let obj : CcObj :=
      { ptr := value
        type := .string
        expire := expire
        size := value.length + 1
        lastAccess := env.clock reading }
    let (db, added) := dictAdd env.dict (env.clock (reading + 1)) db key obj
    if added then ⟨db, reply, .ok⟩ else ⟨db, .error (ascii "ERR could not set key"), .err⟩
  else ⟨db, .error (ascii "ERR out of memory"), .err⟩

def setExpire (env : Env) (argv : List Bytes) : Nat :=
  if argv.length ≥ 5 then
    if strcaseeq (arg argv 3) (ascii "EX") then
      wrap64 (env.clock 0 + mulLong (atoll (arg argv 4)) 1000)
    else if strcaseeq (arg argv 3) (ascii "PX") then
      wrap64 (env.clock 0 + atoll (arg argv 4))
    -- Any other option is passed over, and so is what follows the fifth argument.
    else 0
  else 0

def setCommand (env : Env) (argv : List Bytes) (db : Dict) : Answer :=
  storeString env 1 db (arg argv 1) (arg argv 2) (setExpire env argv) (.string (ascii "OK"))

def getCommand (env : Env) (argv : List Bytes) (db : Dict) : Answer :=
  let (db, obj) := dictGet (env.clock 0) db (arg argv 1)
  match obj with
  | none => ⟨db, .nullBulk, .ok⟩
  | some obj => ⟨db, if obj.type = .string then .bulk obj.ptr else .nullBulk, .ok⟩

def deleteKeys : List Bytes → Dict → Dict × Nat
  | [], db => (db, 0)
  | key :: rest, db =>
      let (db, deleted) := dictDelete db key
      let (db, count) := deleteKeys rest db
      (db, if deleted then count + 1 else count)

def delCommand (argv : List Bytes) (db : Dict) : Answer :=
  let (db, deleted) := deleteKeys argv.tail db
  ⟨db, .integer deleted, .ok⟩

def existsKeys : (Nat → Nat) → List Bytes → Dict → Dict × Nat
  | _, [], db => (db, 0)
  | clock, key :: rest, db =>
      let (db, obj) := dictGet (clock 0) db key
      let (db, count) := existsKeys (fun index => clock (index + 1)) rest db
      (db, if obj.isSome then count + 1 else count)

def existsCommand (env : Env) (argv : List Bytes) (db : Dict) : Answer :=
  let (db, count) := existsKeys env.clock argv.tail db
  ⟨db, .integer count, .ok⟩

def setDeadline (expire : Nat) (obj : CcObj) : CcObj := { obj with expire := expire }

def expireCommand (env : Env) (argv : List Bytes) (db : Dict) : Answer :=
  match dictGet (env.clock 0) db (arg argv 1) with
  | (db, none) => ⟨db, .integer 0, .ok⟩
  | (db, some _) =>
      let seconds := atol (arg argv 2)
      let expire := wrap64 (env.clock 1 + mulLong seconds 1000)
      ⟨updateObj db (arg argv 1) (setDeadline expire), .integer 1, .ok⟩

def ttlCommand (env : Env) (argv : List Bytes) (db : Dict) : Answer :=
  match dictGet (env.clock 0) db (arg argv 1) with
  | (db, none) => ⟨db, .integer (-2), .ok⟩
  | (db, some obj) =>
      if obj.expire = 0 then ⟨db, .integer (-1), .ok⟩
      -- At the deadline itself the lookup still finds the key.
      else if obj.expire ≤ env.clock 1 then ⟨db, .integer (-2), .ok⟩
      else ⟨db, .integer ((obj.expire - env.clock 1) / 1000), .ok⟩

def notAnInteger : Reply := .error (ascii "ERR value is not an integer or out of range")

/-- The number INCR starts from, or `none` for an error. -/
def incrValue : Option CcObj → Option Int
  | none => some 0
  | some obj =>
      if obj.type ≠ .string then none
      else
        -- A numeral out of range saturates; errno is not looked at.
        let (value, rest) := strtoll obj.ptr
        if rest = [] then some value else none

def incrCommand (env : Env) (argv : List Bytes) (db : Dict) : Answer :=
  let key := arg argv 1
  let (db, obj) := dictGet (env.clock 0) db key
  match incrValue obj with
  | none => ⟨db, notAnInteger, .err⟩
  | some value =>
      let value := Int.bmod (value + 1) (2 ^ 64)
      let expire := match obj with
        | none => 0
        | some obj => obj.expire
      storeString env 1 db key (snprintf 32 (decimalInt value)) expire (.integer value)

end CrimsonCache.DataCommands
