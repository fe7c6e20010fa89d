import CrimsonCache.Dictionary

/-!
What the server does to the outside world. An event is one call whose effect
leaves the process: a reply helper, a plain `write`, a `write` whose result the
code looks at, the hand-over of a command to the replicas. `sentTo` recovers
the byte stream of a socket.
-/

namespace CrimsonCache.Replies

open CString Dictionary

/-- The reply helpers of commands.c with their arguments. -/
inductive Reply where
  | string (text : Bytes)
  | error (text : Bytes)
  | integer (num : Int)
  | bulk (text : Bytes)
  | nullBulk
  deriving DecidableEq

/-- The `write` calls a helper makes. -/
def Reply.writes : Reply → List Bytes
  | .string text => [snprintf 1024 (ascii "+" ++ text ++ crlf)]
  | .error text => [snprintf 1024 (ascii "-" ++ text ++ crlf)]
  | .integer num => [snprintf 32 (ascii ":" ++ decimalInt num ++ crlf)]
  | .bulk text =>
      snprintf 1024 (ascii "$" ++ decimal (strlen text) ++ crlf) ::
        if strlen text > 0 then [cstr text, crlf] else []
  | .nullBulk => [ascii "$-1" ++ crlf]

/-- The result of a `write` on a non-blocking socket. -/
inductive WriteResult where
  | wrote (count : Nat)
  | wouldBlock
  | failed
  deriving DecidableEq

/-- The bytes the socket took. -/
def WriteResult.taken (data : Bytes) : WriteResult → Bytes
  | .wrote count => data.take count
  | .wouldBlock => []
  | .failed => []

inductive Event where
  | reply (fd : Int) (answer : Reply)
  | write (fd : Int) (data : Bytes)
  | replicaWrite (fd : Int) (data : Bytes) (result : WriteResult)
  | fed (cmd : Bytes)
  | executing (fd : Int) (input : Bytes)
  | forked (db : Dict)
  | closed (fd : Int)
  deriving DecidableEq

def Event.sent (fd : Int) : Event → Bytes
  | .reply target answer => if target = fd then answer.writes.flatten else []
  | .write target data => if target = fd then data else []
  | .replicaWrite target data result => if target = fd then result.taken data else []
  | _ => []

def sentTo (fd : Int) (events : List Event) : Bytes := events.flatMap (Event.sent fd)

/-- The commands handed to `replication_feed_slaves`, in order. -/
def fedCommands (events : List Event) : List Bytes :=
  events.filterMap fun
    | .fed cmd => some cmd
    | _ => none

/-- The queued inputs that EXEC passes to `execute_command`, in order. -/
def executedInputs (fd : Int) (events : List Event) : List Bytes :=
  events.filterMap fun
    | .executing target input => if target = fd then some input else none
    | _ => none

@[simp] theorem sent_to_append (fd : Int) (left right : List Event) :
    sentTo fd (left ++ right) = sentTo fd left ++ sentTo fd right := by
  simp [sentTo]

@[simp] theorem executed_append (fd : Int) (left right : List Event) :
    executedInputs fd (left ++ right) = executedInputs fd left ++ executedInputs fd right := by
  simp [executedInputs]

@[simp] theorem executed_executing (fd : Int) (input : Bytes) (rest : List Event) :
    executedInputs fd (.executing fd input :: rest) = input :: executedInputs fd rest := by
  simp [executedInputs]

@[simp] theorem fed_append (left right : List Event) :
    fedCommands (left ++ right) = fedCommands left ++ fedCommands right := by
  simp [fedCommands]

end CrimsonCache.Replies
