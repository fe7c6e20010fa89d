import CrimsonCache.RespValues
import CrimsonCache.ServerRuns

/-!
The frames that handlers format into buffers of their own, and the values they
stand for. Each is a front of the encoding of its value, so it decodes to it
exactly when the whole encoding fits.
-/

namespace CrimsonCache.FixedFrames

open CString Numerals Replies Pubsub Replication ServerState Commands Connections ServerRuns
  StepParsers RespValues

section Sizes

/-- The bytes of a bulk string with its header. -/
def bulkSize (text : Bytes) : Nat := (decimal text.length).length + text.length + 5

def integerSize (num : Int) : Nat := (decimalInt num).length + 3

def headerSize (count : Nat) : Nat := (decimal count).length + 3

theorem bulk_size (text : Bytes) : (encode (.bulk text)).length = bulkSize text := by
  have mark : (ascii "$").length = 1 := rfl
  have ending : crlf.length = 2 := rfl
  simp only [encode, List.length_append, mark, ending, bulkSize]
  omega

theorem integer_size (num : Int) : (encode (.integer num)).length = integerSize num := by
  have mark : (ascii ":").length = 1 := rfl
  have ending : crlf.length = 2 := rfl
  simp only [encode, List.length_append, mark, ending, integerSize]
  omega

theorem array_size (items : List Value) :
    (encode (.array items)).length = headerSize items.length + (encodeAll items).length := by
  have mark : (ascii "*").length = 1 := rfl
  have ending : crlf.length = 2 := rfl
  simp only [encode, List.length_append, mark, ending, headerSize]
  omega

end Sizes

theorem decimal_int_nat (n : Nat) : decimalInt n = decimal n := by
  rw [decimalInt, if_neg (by omega), Int.natAbs_natCast]

theorem take_whole_iff (size : Nat) (text : Bytes) (room : 0 < size) :
    snprintf size text = text ↔ text.length < size := by
  rw [snprintf, List.take_eq_self_iff]
  omega

/-- A formatted encoding decodes to its value exactly when the buffer holds all of it. -/
theorem formatted_decodes_iff (value : Value) (clean : Clean value) (size : Nat) (room : 0 < size) :
    decode (snprintf size (encode value)) = some value ↔ (encode value).length < size := by
  have front : snprintf size (encode value) <+: encode value := List.take_prefix _ _
  rw [front_decodes_iff value clean _ front, take_whole_iff size _ room]

/-- What is cut off by the buffer is no value. -/
theorem formatted_undecoded (value : Value) (clean : Clean value) (size : Nat) (room : 0 < size)
    (long : size ≤ (encode value).length) : decode (snprintf size (encode value)) = none := by
  refine cut_undecoded value clean _ ((encode value).drop (size - 1))
    (List.take_append_drop _ _).symm fun none => ?_
  rw [List.drop_eq_nil_iff] at none
  omega

section Confirmations

def confirmationValue (kind name : Bytes) (count : Nat) : Value :=
  .array [.bulk kind, .bulk (cstr name), .integer count]

def confirmationSize (kind name : Bytes) (count : Nat) : Nat :=
  4 + bulkSize kind + bulkSize (cstr name) + integerSize count

theorem confirmation_encodes (kind name : Bytes) (count : Nat) :
    confirmation kind name count = snprintf 256 (encode (confirmationValue kind name count)) := by
  have start : ascii "*3\r\n$" = ascii "*" ++ (decimal 3 ++ (crlf ++ ascii "$")) := by decide
  simp only [confirmation, confirmationValue, encode, encodeAll, strlen, decimal_int_nat, start,
    List.length_cons, List.length_nil, Nat.reduceAdd, List.append_assoc, List.append_nil]

theorem confirmation_size (kind name : Bytes) (count : Nat) :
    (encode (confirmationValue kind name count)).length = confirmationSize kind name count := by
  have header : headerSize 3 = 4 := by decide
  simp only [confirmationValue, array_size, encodeAll, List.length_append, bulk_size, integer_size,
    List.length_cons, List.length_nil, header, confirmationSize]
  omega

theorem confirmation_decodes_iff (kind name : Bytes) (count : Nat) :
    decode (confirmation kind name count) = some (confirmationValue kind name count) ↔
      confirmationSize kind name count < 256 := by
  rw [confirmation_encodes, ← confirmation_size]
  exact formatted_decodes_iff (confirmationValue kind name count) ⟨trivial, trivial, trivial, trivial⟩
    256 (by decide)

/-- Which count a confirmation is read with. -/
theorem confirmation_reads_iff (kind name : Bytes) (count other : Nat) :
    decode (confirmation kind name count) = some (confirmationValue kind name other) ↔
      confirmationSize kind name count < 256 ∧ other = count := by
  by_cases fits : confirmationSize kind name count < 256
  · rw [(confirmation_decodes_iff kind name count).mpr fits]
    simp [confirmationValue, fits, eq_comm]
  · have cut : decode (confirmation kind name count) = none := by
      rw [confirmation_encodes]
      refine formatted_undecoded (confirmationValue kind name count)
        ⟨trivial, trivial, trivial, trivial⟩ 256 (by decide) ?_
      rw [confirmation_size]
      omega
    simp [cut, fits]

/-- The confirmation of an UNSUBSCRIBE that left no channel. -/
theorem no_channel_decodes :
    decode (ascii "*3\r\n$11\r\nunsubscribe\r\n$-1\r\n:0\r\n") =
      some (.array [.bulk (ascii "unsubscribe"), .nullBulk, .integer 0]) := by
  have text : ascii "*3\r\n$11\r\nunsubscribe\r\n$-1\r\n:0\r\n" =
      encode (.array [.bulk (ascii "unsubscribe"), .nullBulk, .integer 0]) := by decide
  rw [text]
  exact decode_encode (.array _) ⟨trivial, trivial, trivial, trivial⟩

end Confirmations

section Messages

def messageValue (channelName message : Bytes) : Value :=
  .array [.bulk (ascii "message"), .bulk (cstr channelName), .bulk (cstr message)]

def messageSize (channelName message : Bytes) : Nat :=
  17 + bulkSize (cstr channelName) + bulkSize (cstr message)

theorem message_encodes (channelName message : Bytes) :
    messageFrame channelName message = snprintf 1024 (encode (messageValue channelName message)) := by
  have start : ascii "*3\r\n$7\r\nmessage\r\n$" = ascii "*" ++ (decimal 3 ++ (crlf ++ (ascii "$" ++
      (decimal (ascii "message").length ++ (crlf ++ (ascii "message" ++ (crlf ++ ascii "$"))))))) := by
    decide
  simp only [messageFrame, messageValue, encode, encodeAll, strlen, start, List.length_cons,
    List.length_nil, Nat.reduceAdd, List.append_assoc, List.append_nil]

theorem message_size (channelName message : Bytes) :
    (encode (messageValue channelName message)).length = messageSize channelName message := by
  have header : headerSize 3 = 4 := by decide
  have kind : bulkSize (ascii "message") = 13 := by decide
  simp only [messageValue, array_size, encodeAll, List.length_append, bulk_size, List.length_cons,
    List.length_nil, header, kind, messageSize]
  omega

theorem message_decodes_iff (channelName message : Bytes) :
    decode (messageFrame channelName message) = some (messageValue channelName message) ↔
      messageSize channelName message < 1024 := by
  rw [message_encodes, ← message_size]
  exact formatted_decodes_iff (messageValue channelName message) ⟨trivial, trivial, trivial, trivial⟩
    1024 (by decide)

end Messages

section Role

def roleEntry (now : Nat) (replica : Replica) : Value :=
  .array [.bulk replica.ip, .integer replica.port, .integer (now / 1000 - replica.lastAckTime)]

def roleEntries : (Nat → Nat) → List Replica → List Value
  | _, [] => []
  | clock, replica :: rest => roleEntry (clock 0) replica :: roleEntries (fun index => clock (index + 1)) rest

/-- What ROLE means to say: of a primary its offset and every replica, of a replica its link. -/
def roleValue (env : Env) (repl : ReplicationInfo) : Value :=
  match repl.role with
  | .primary =>
      .array [.bulk (ascii "master"), .integer repl.replOffset,
        .array (roleEntries env.clock repl.replicas)]
  | .replica =>
      .array [.bulk (ascii "slave"), .bulk repl.primaryHost, .integer repl.primaryPort,
        .bulk (if repl.state = .connected then ascii "connected" else ascii "connecting"),
        .integer repl.replOffset]

def entrySize (now : Nat) (replica : Replica) : Nat :=
  4 + bulkSize replica.ip + integerSize replica.port + integerSize (now / 1000 - replica.lastAckTime)

def primaryHeaderSize (repl : ReplicationInfo) : Nat :=
  16 + integerSize repl.replOffset + headerSize repl.replicas.length

/-- The text, `length` bytes long so far, leaves a hundred bytes in front of each entry and one
    behind the last. -/
def EntriesFit : (Nat → Nat) → Nat → List Replica → Prop
  | _, length, [] => length < 1024
  | clock, length, replica :: rest =>
      length < 924 ∧
        EntriesFit (fun index => clock (index + 1)) (length + entrySize (clock 0) replica) rest

def RoleFits (env : Env) (repl : ReplicationInfo) : Prop :=
  match repl.role with
  | .primary => EntriesFit env.clock (primaryHeaderSize repl) repl.replicas
  | .replica =>
      15 + bulkSize repl.primaryHost + integerSize repl.primaryPort +
        (if repl.state = .connected then 15 else 17) + integerSize repl.replOffset < 1024

theorem entry_encodes (now : Nat) (replica : Replica) :
    roleReplica now replica = encode (roleEntry now replica) := by
  have start : ascii "*3\r\n$" = ascii "*" ++ (decimal 3 ++ (crlf ++ ascii "$")) := by decide
  simp only [roleReplica, roleEntry, encode, encodeAll, start, List.length_cons, List.length_nil,
    Nat.reduceAdd, List.append_assoc, List.append_nil]

theorem entry_size (now : Nat) (replica : Replica) :
    (roleReplica now replica).length = entrySize now replica := by
  have header : headerSize 3 = 4 := by decide
  simp only [entry_encodes, roleEntry, array_size, encodeAll, List.length_append, bulk_size,
    integer_size, List.length_cons, List.length_nil, header, entrySize]
  omega

theorem entries_length (clock : Nat → Nat) (replicas : List Replica) :
    (roleEntries clock replicas).length = replicas.length := by
  induction replicas generalizing clock with
  | nil => rfl
  | cons replica rest ih => simp [roleEntries, ih]

theorem entries_clean (clock : Nat → Nat) (replicas : List Replica) :
    CleanAll (roleEntries clock replicas) := by
  induction replicas generalizing clock with
  | nil => trivial
  | cons replica rest ih => exact ⟨⟨trivial, trivial, trivial, trivial⟩, ih _⟩

/-- The loop writes a front of the entries. -/
theorem replicas_front (clock : Nat → Nat) (response : Bytes) (replicas : List Replica) :
    roleReplicas clock response replicas <+: response ++ encodeAll (roleEntries clock replicas) := by
  induction replicas generalizing clock response with
  | nil => exact List.prefix_append _ _
  | cons replica rest ih =>
      simp only [roleReplicas, roleEntries, encodeAll]
      split
      · have later := ih (fun index => clock (index + 1)) (response ++ roleReplica (clock 0) replica)
        rw [List.append_assoc] at later
        rwa [← entry_encodes]
      · exact List.prefix_append _ _

/-- What the buffer takes of the loop is all entries exactly when they fit. -/
theorem replicas_whole_iff (clock : Nat → Nat) (response : Bytes) (replicas : List Replica) :
    snprintf 1024 (roleReplicas clock response replicas) =
        response ++ encodeAll (roleEntries clock replicas) ↔
      EntriesFit clock response.length replicas := by
  induction replicas generalizing clock response with
  | nil =>
      rw [roleReplicas, roleEntries, encodeAll, List.append_nil, EntriesFit]
      exact take_whole_iff 1024 response (by decide)
  | cons replica rest ih =>
      simp only [roleReplicas, roleEntries, encodeAll, EntriesFit]
      split
      case isTrue room =>
        have later := ih (fun index => clock (index + 1)) (response ++ roleReplica (clock 0) replica)
        rw [List.append_assoc, List.length_append, entry_size] at later
        rw [← entry_encodes, later]
        exact (and_iff_right room).symm
      case isFalse full =>
        refine iff_of_false (fun whole => ?_) fun fits => full fits.1
        -- The loop has stopped in front of an entry, which has some bytes.
        have longer := congrArg List.length whole
        have taken : (snprintf 1024 response).length ≤ response.length := List.length_take_le' _ _
        have some := entry_size (clock 0) replica
        rw [entry_encodes] at some
        simp only [List.length_append, some, entrySize] at longer
        omega

/-- The text of a primary in front of its replicas. -/
def primaryHeader (repl : ReplicationInfo) : Bytes :=
  ascii "*3\r\n$6\r\nmaster\r\n:" ++ decimal repl.replOffset ++ crlf ++ ascii "*" ++
    decimal (countReplicas repl) ++ crlf

theorem primary_encodes (env : Env) (repl : ReplicationInfo) (primary : repl.role = .primary) :
    encode (roleValue env repl) =
      primaryHeader repl ++ encodeAll (roleEntries env.clock repl.replicas) := by
  have start : ascii "*3\r\n$6\r\nmaster\r\n:" = ascii "*" ++ (decimal 3 ++ (crlf ++ (ascii "$" ++
      (decimal (ascii "master").length ++ (crlf ++ (ascii "master" ++ (crlf ++ ascii ":"))))))) := by
    decide
  simp only [primaryHeader, roleValue, primary, encode, encodeAll, start, entries_length,
    countReplicas, decimal_int_nat, List.length_cons, List.length_nil, Nat.reduceAdd,
    List.append_assoc, List.append_nil]

theorem primary_header_size (repl : ReplicationInfo) :
    (primaryHeader repl).length = primaryHeaderSize repl := by
  have start : (ascii "*3\r\n$6\r\nmaster\r\n:").length = 17 := by decide
  have mark : (ascii "*").length = 1 := rfl
  have ending : crlf.length = 2 := rfl
  simp only [primaryHeader, List.length_append, start, mark, ending, primaryHeaderSize, integerSize,
    headerSize, decimal_int_nat, countReplicas]
  omega

theorem replica_encodes (env : Env) (repl : ReplicationInfo) (replica : repl.role = .replica) :
    encode (roleValue env repl) = roleResponse env repl := by
  have start : ascii "*5\r\n$5\r\nslave\r\n$" = ascii "*" ++ (decimal 5 ++ (crlf ++ (ascii "$" ++
      (decimal (ascii "slave").length ++ (crlf ++ (ascii "slave" ++ (crlf ++ ascii "$"))))))) := by
    decide
  simp only [roleResponse, roleValue, replica, encode, encodeAll, start, decimal_int_nat,
    List.length_cons, List.length_nil, Nat.reduceAdd, List.append_assoc, List.append_nil]

theorem replica_size (env : Env) (repl : ReplicationInfo) (replica : repl.role = .replica) :
    (encode (roleValue env repl)).length =
      15 + bulkSize repl.primaryHost + integerSize repl.primaryPort +
        (if repl.state = .connected then 15 else 17) + integerSize repl.replOffset := by
  have header : headerSize 5 = 4 := by decide
  have kind : bulkSize (ascii "slave") = 11 := by decide
  have state : bulkSize (if repl.state = .connected then ascii "connected" else ascii "connecting") =
      if repl.state = .connected then 15 else 17 := by
    split <;> decide
  simp only [roleValue, replica, array_size, encodeAll, List.length_append, bulk_size, integer_size,
    List.length_cons, List.length_nil, header, kind, state]
  omega

theorem role_clean (env : Env) (repl : ReplicationInfo) : Clean (roleValue env repl) := by
  simp only [roleValue]
  split
  · exact ⟨trivial, trivial, entries_clean _ _, trivial⟩
  · exact ⟨trivial, trivial, trivial, trivial, trivial, trivial⟩

theorem role_decodes_iff (env : Env) (repl : ReplicationInfo) :
    decode (snprintf 1024 (roleResponse env repl)) = some (roleValue env repl) ↔
      RoleFits env repl := by
  cases role : repl.role with
  | primary =>
      have text : roleResponse env repl = roleReplicas env.clock (primaryHeader repl) repl.replicas := by
        simp only [roleResponse, role, primaryHeader]
      have front : snprintf 1024 (roleReplicas env.clock (primaryHeader repl) repl.replicas) <+: _ :=
        (List.take_prefix _ _).trans (replicas_front env.clock (primaryHeader repl) repl.replicas)
      rw [← primary_encodes env repl role] at front
      rw [text, front_decodes_iff _ (role_clean env repl) _ front, primary_encodes env repl role,
        replicas_whole_iff, primary_header_size]
      simp only [RoleFits, role]
  | replica =>
      rw [← replica_encodes env repl role, formatted_decodes_iff _ (role_clean env repl) 1024 (by decide),
        replica_size env repl role]
      simp only [RoleFits, role]

end Role

/-- Each frame decodes to what it is to say exactly when its encoding fits the buffer: 256 bytes
    for confirmations, 1024 for messages and for ROLE, whose loop wants a hundred of them free. -/
theorem frames_complete_iff (name channelName message : Bytes) (count : Nat) (env : Env) (sock : Int)
    (server : Server) :
    (decode (confirmation (ascii "subscribe") name count) =
        some (confirmationValue (ascii "subscribe") name count) ↔
      strlen name + (decimal (strlen name)).length + (decimal count).length + 27 < 256) ∧
    (decode (confirmation (ascii "unsubscribe") name 0) =
        some (confirmationValue (ascii "unsubscribe") name 0) ↔
      strlen name + (decimal (strlen name)).length + 31 < 256) ∧
    decode (ascii "*3\r\n$11\r\nunsubscribe\r\n$-1\r\n:0\r\n") =
      some (.array [.bulk (ascii "unsubscribe"), .nullBulk, .integer 0]) ∧
    (decode (messageFrame channelName message) = some (messageValue channelName message) ↔
      strlen channelName + (decimal (strlen channelName)).length + strlen message +
        (decimal (strlen message)).length + 27 < 1024) ∧
    (decode (sentTo sock (roleCommand env sock server).events) = some (roleValue env server.repl) ↔
      RoleFits env server.repl) := by
  have subscribe : bulkSize (ascii "subscribe") = 15 := by decide
  have unsubscribe : bulkSize (ascii "unsubscribe") = 18 := by decide
  have zero : (decimal 0).length = 1 := rfl
  refine ⟨?_, ?_, no_channel_decodes, ?_, ?_⟩
  · rw [confirmation_decodes_iff]
    rw [confirmationSize, subscribe, bulkSize, integerSize, decimal_int_nat, strlen]
    omega
  · rw [confirmation_decodes_iff]
    rw [confirmationSize, unsubscribe, bulkSize, integerSize, decimal_int_nat, zero, strlen]
    omega
  · rw [message_decodes_iff]
    simp only [messageSize, bulkSize, strlen]
    omega
  · have sent : sentTo sock (roleCommand env sock server).events =
        snprintf 1024 (roleResponse env server.repl) := by
      simp [roleCommand, sentTo, Event.sent]
    rw [sent, role_decodes_iff]

/-- A channel of 230 letters. -/
def longChannel : Bytes := List.replicate 230 97

/-- The confirmation of its subscription is cut within the CRLF behind the name. -/
theorem long_channel_cut :
    Reachable oneClient ∧
      Possible oneClient (.receive (calm 0) 7 (ascii "SUBSCRIBE " ++ longChannel)) ∧
      sentTo 7 (stepServer oneClient (.receive (calm 0) 7 (ascii "SUBSCRIBE " ++ longChannel))).2 =
        confirmation (ascii "subscribe") longChannel 1 ∧
      decode (confirmation (ascii "subscribe") longChannel 1) ≠
        some (confirmationValue (ascii "subscribe") longChannel 1) := by
  refine ⟨one_client_reachable, ⟨one_client_open, by decide +kernel⟩, by decide +kernel, ?_⟩
  rw [Ne, confirmation_decodes_iff]
  decide +kernel

end CrimsonCache.FixedFrames
