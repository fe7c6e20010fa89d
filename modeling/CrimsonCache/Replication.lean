import CrimsonCache.Library.Framing
import CrimsonCache.Replies

/-!
replication.c and the line loop of the replication thread. A stream handed to a
replica is the sequence of its `write` calls with the result of each. The log
lines, the delays between writes and the replication id are left out, and the
unchecked copy of a replica's address is taken to succeed.
-/

namespace CrimsonCache.Replication

open CString Dictionary Replies Framing

inductive Role where
  | primary
  | replica
  deriving DecidableEq

inductive ReplState where
  | none
  | connecting
  | sync
  | connected
  deriving DecidableEq

structure Replica where
  fd : Int
  ip : Bytes
  port : Int
  lastAckTime : Nat
  deriving DecidableEq

structure ReplicationInfo where
  role : Role
  primaryHost : Bytes
  primaryPort : Int
  state : ReplState
  primaryFd : Int
  replOffset : Nat
  replicas : List Replica
  deriving DecidableEq

def replicationInit : ReplicationInfo where
  role := .primary
  primaryHost := []
  primaryPort := 0
  state := .none
  primaryFd := -1
  replOffset := 0
  replicas := []

def countReplicas (repl : ReplicationInfo) : Nat := repl.replicas.length

section Sync

/-- What the world contributes to one entry of `sync_replica`. `overrun` is the
    memory behind `cmd_buffer`. -/
structure SyncEnv where
  check : Nat
  ttl : Nat
  set : WriteResult
  expire : WriteResult
  overrun : Nat → UInt8

/-- `write(fd, cmd_buffer, cmd_len)` with the length `snprintf` returned, which
    for a line that was cut reaches beyond the buffer. -/
def formatted (overrun : Nat → UInt8) (line : Bytes) : Bytes :=
  if line.length < 4096 then line
  else line.take 4095 ++ 0 :: (List.range (line.length - 4096)).map overrun

def needsQuotes (value : Bytes) : Bool := 32 ∈ value || 9 ∈ value || quote ∈ value

def setLine (key value : Bytes) : Bytes :=
  if needsQuotes value then
    ascii "SET " ++ key ++ ascii " \"" ++ value ++ ascii "\"\r\n"
  else ascii "SET " ++ key ++ ascii " " ++ value ++ crlf

def expireLine (key : Bytes) (seconds : Nat) : Bytes :=
  ascii "EXPIRE " ++ key ++ ascii " " ++ decimal seconds ++ crlf

def syncExpire (env : SyncEnv) (fd : Int) (entry : DictEntry) : List Event :=
  if entry.val.expire ≠ 0 ∧ entry.val.expire > env.ttl then
    let seconds := (entry.val.expire - env.ttl) / 1000
    if seconds > 0 then
      [.replicaWrite fd (formatted env.overrun (expireLine entry.key seconds)) env.expire]
    else []
  else []

def syncEntry (env : SyncEnv) (fd : Int) (entry : DictEntry) : List Event :=
  if expired env.check entry.val.expire then []
  else match entry.val.type with
    | .string =>
        let line := setLine entry.key entry.val.ptr
        .replicaWrite fd (formatted env.overrun line) env.set ::
          -- After a SET that was not taken whole its EXPIRE is not sent.
          if env.set = .wrote line.length then syncExpire env fd entry else []
    | _ => []

def syncEntries (fd : Int) : (Nat → SyncEnv) → List DictEntry → List Event
  | _, [] => []
  | env, entry :: rest =>
      syncEntry (env 0) fd entry ++ syncEntries fd (fun index => env (index + 1)) rest

/-- Every bucket in order and every chain from its head. -/
def syncReplica (env : Nat → SyncEnv) (fd : Int) (db : Dict) : List Event :=
  syncEntries fd env db.table.flatten

end Sync

section Replicas

/-- `malloc` is the outcome of the node's allocation. -/
def addReplica (malloc : Bool) (now : Nat) (env : Nat → SyncEnv) (fd : Int) (ip : Bytes)
    (port : Int) (db : Dict) (repl : ReplicationInfo) : ReplicationInfo × List Event :=
  if malloc then
    ({ repl with replicas := ⟨fd, ip, port, now / 1000⟩ :: repl.replicas },
      syncReplica env fd db)
  else (repl, [])

def removeReplica (replicas : List Replica) (fd : Int) : List Replica :=
  replicas.eraseP (·.fd = fd)

end Replicas

section Feed

/-- One `write` of the feed loop and the clock after it. -/
structure Delivery where
  result : WriteResult
  now : Nat

/-- The state of the loop that later iterations and the removals read. -/
structure Feed where
  offset : Nat
  toRemove : List Int
  deriving DecidableEq

-- Without memory for the copy the command goes out as it came.
def framed (malloc : Bool) (cmd : Bytes) : Bytes :=
  if crlf <:+ cmd then cmd else if malloc then cmd ++ crlf else cmd

def feedReplica (cmd : Bytes) (delivery : Delivery) (feed : Feed) (replica : Replica) :
    Feed × Replica :=
  if delivery.result = .wrote cmd.length then
    ({ feed with offset := (feed.offset + cmd.length) % 2 ^ 64 },
      { replica with lastAckTime := delivery.now / 1000 })
  -- The retry that the log announces is nowhere made.
  else if delivery.result = .wouldBlock then (feed, replica)
  -- The array of removals has 100 places; a later failure is only logged.
  else if feed.toRemove.length < 100 then
    ({ feed with toRemove := feed.toRemove ++ [replica.fd] }, replica)
  else (feed, replica)

def feedReplicas (cmd : Bytes) : (Nat → Delivery) → Feed → List Replica → Feed × List Replica
  | _, feed, [] => (feed, [])
  | delivery, feed, replica :: rest =>
      let (feed, replica) := feedReplica cmd (delivery 0) feed replica
      let (feed, rest) := feedReplicas cmd (fun index => delivery (index + 1)) feed rest
      (feed, replica :: rest)

def feedWrites (cmd : Bytes) : (Nat → Delivery) → List Replica → List Event
  | _, [] => []
  | delivery, replica :: rest =>
      .replicaWrite replica.fd cmd (delivery 0).result ::
        feedWrites cmd (fun index => delivery (index + 1)) rest

def replicationFeedSlaves (malloc : Bool) (delivery : Nat → Delivery) (cmd : Bytes)
    (repl : ReplicationInfo) : ReplicationInfo × List Event :=
  if repl.role = .primary then
    let cmd := framed malloc cmd
    let (feed, replicas) := feedReplicas cmd delivery ⟨repl.replOffset, []⟩ repl.replicas
    ({ repl with
      replOffset := feed.offset
      replicas := feed.toRemove.foldl removeReplica replicas },
      feedWrites cmd delivery repl.replicas)
  else (repl, [])

end Feed

section Primary

/-- What resolving a host and connecting to it comes to. -/
inductive Connect where
  | unresolved
  | refused
  | connected (fd : Int)
  deriving DecidableEq

def closePrimary (repl : ReplicationInfo) : ReplicationInfo × List Event :=
  if repl.primaryFd ≠ -1 then ({ repl with primaryFd := -1 }, [.closed repl.primaryFd])
  else (repl, [])

def replicationSetPrimary (connect : Connect) (listenPort : Int) (host : Bytes) (port : Int)
    (repl : ReplicationInfo) : ReplicationInfo × Bool × List Event :=
  let (repl, events) := closePrimary repl
  let repl : ReplicationInfo :=
    { repl with
      role := .replica
      primaryHost := host.take 255
      primaryPort := port
      state := .connecting }
  match connect with
  | .unresolved => (repl, false, events)
  | .refused => (repl, false, events)
  | .connected fd =>
      ({ repl with primaryFd := fd, state := .sync }, true,
        events ++
          [.write fd (snprintf 64 (ascii "REPLCONF listening-port " ++ decimalInt listenPort ++ crlf)),
            .write fd (ascii "PSYNC ? -1\r\n")])

def replicationUnsetPrimary (repl : ReplicationInfo) : ReplicationInfo × List Event :=
  let (repl, events) := closePrimary repl
  ({ repl with role := .primary, state := .none }, events)

end Primary

section LineLoop

/-- The `strstr` loop over the receive buffer. A `\r\n` is found when its `\n`
    is reached, and a NUL hides everything behind it. With each line comes the
    offset of the byte behind it. -/
def crlfLines : Nat → Bytes → Bytes → List (Bytes × Nat) × Bytes
  | _, line, [] => ([], line)
  | pos, line, c :: rest =>
      if c = 0 then ([], line ++ c :: rest)
      else if c = lf ∧ line.getLast? = some cr then
        let (more, left) := crlfLines (pos + 1) [] rest
        ((line.dropLast, pos + 1) :: more, left)
      else crlfLines (pos + 1) (line ++ [c]) rest

/-- The lines of the buffer that reach `execute_command`. -/
def replicaLines (buffer : Bytes) : List Bytes :=
  ((crlfLines 0 [] buffer).1.map Prod.fst).filter (· ≠ [])

theorem crlf_lines_frames (pos : Nat) (line buffer : Bytes) (free : 0 ∉ buffer) :
    ((crlfLines pos line buffer).1.map Prod.fst, (crlfLines pos line buffer).2) =
      frames cr lf line buffer := by
  -- The loop is the library's scanner with an offset beside each line.
  induction buffer generalizing pos line with
  | nil => rfl
  | cons c rest ih =>
      have nonzero : c ≠ 0 := fun zero => free (by simp [zero])
      have freeRest : 0 ∉ rest := fun member => free (List.mem_cons_of_mem c member)
      simp only [crlfLines, frames, nonzero, ↓reduceIte]
      split
      · rw [← ih (pos + 1) [] freeRest]
        rfl
      · exact ih (pos + 1) (line ++ [c]) freeRest

theorem crlf_lines_free (pos : Nat) (line buffer : Bytes) (free : 0 ∉ line) :
    ∀ found ∈ (crlfLines pos line buffer).1, 0 ∉ found.1 := by
  induction buffer generalizing pos line with
  | nil => simp [crlfLines]
  | cons c rest ih =>
      simp only [crlfLines]
      split
      · simp
      case isFalse nonzero =>
        split
        · intro found member
          rcases List.mem_cons.mp member with rfl | later
          · exact fun zero => free ((List.dropLast_sublist line).subset zero)
          · exact ih (pos + 1) [] (by simp) found later
        · exact ih (pos + 1) (line ++ [c]) (by simp [free, Ne.symm nonzero])

/-- The strings handed to `execute_command` are whole lines. -/
theorem replica_lines_free (buffer line : Bytes) (member : line ∈ replicaLines buffer) :
    0 ∉ line := by
  obtain ⟨found, there, rfl⟩ := List.mem_map.mp (List.mem_of_mem_filter member)
  exact crlf_lines_free 0 [] buffer (by simp) found there

/-- On a buffer without NULs the loop finds its frames. -/
theorem replica_lines_frames (buffer : Bytes) (free : 0 ∉ buffer) :
    replicaLines buffer = (frames cr lf [] buffer).1.filter (· ≠ []) := by
  have same := crlf_lines_frames 0 [] buffer free
  simp [replicaLines, ← same]

end LineLoop

end CrimsonCache.Replication
