import CrimsonCache.ServerRuns
import CrimsonCache.WriteEffects

/-!
Calls of `execute_command` seen from the map. Outside of a transaction a command
does to the map what its tokens and its clock say, whether a client or the
replication thread brings it, and a replica that is sent lines applies them one
after the other however the stream was cut.
-/

namespace CrimsonCache.AppliedWrites

open CString Dictionary DeadlineMap Replies Transaction Replication Tokenizer ServerState DataCommands
  StoredData Commands TransactionSteps WriteEffects ReplicationThread ServerRuns Framing

/-- The lookups of EXISTS drop what has expired. -/
def existsMap : (Nat → Nat) → List Bytes → Mapping → Mapping
  | _, [], m => m
  | clock, key :: rest, m =>
      existsMap (fun index => clock (index + 1)) rest (settle (expired (clock 0)) m key)

/-- What a handler does to the map, with what the lookups of the reads drop. -/
def handlerMap (env : Env) (argv : List Bytes) (m : Mapping) : Command → Mapping
  | .get => settle (expired (env.clock 0)) m (arg argv 1)
  | .ttl => settle (expired (env.clock 0)) m (arg argv 1)
  | .exist => existsMap env.clock argv.tail m
  | command => writeMap env argv m command

/-- What a command does to the map. One with a wrong number of arguments is refused. -/
def applyWords (env : Env) (words : List Bytes) (m : Mapping) : Mapping :=
  match commands.find? (·.name = arg (lower words) 0) with
  | none => m
  | some row => if wrongArity row words.length then m else handlerMap env (lower words) m row.command

section Calls

theorem exists_mapping (clock : Nat → Nat) (keys : List Bytes) (db : Dict) (rep : Represents db) :
    mapping (existsKeys clock keys db).1 = existsMap clock keys (mapping db) := by
  induction keys generalizing clock db with
  | nil => rfl
  | cons key rest ih =>
      have got := get_represents (clock 0) db rep key
      simp only [existsKeys, existsMap]
      rw [ih _ _ got, (mapping_get (clock 0) db rep key).1]

/-- INCR of something that is no number still drops what has expired. -/
theorem incr_applies (env : Env) (allocates : ∀ site, env.alloc site = true) (argv : List Bytes)
    (db : Dict) (sound : Sound db) :
    mapping (incrCommand env argv db).db = incrMap env argv (mapping db) := by
  by_cases ok : (incrCommand env argv db).result = .ok
  · exact incr_mapping env argv db sound ok
  · have refused := (not_congr (incr_ok env argv db sound allocates)).mp ok
    rw [ne_eq, not_not] at refused
    have start := incr_value env argv db sound
    rw [refused] at start
    have contents := (mapping_get (env.clock 0) db sound.rep (arg argv 1)).1
    simp only [incrCommand, start, incrMap, refused]
    exact contents

/-- Without an open transaction EXEC does nothing. -/
theorem exec_refused (execute : Nat → Bytes → Server → Outcome) (env : Env) (sock : Int)
    (server : Server) (outside : (findClient sock server).any (·.inTransaction) = false) :
    (execCommand execute env sock server).server = server := by
  simp only [execCommand]
  cases found : findClient sock server with
  | none => rfl
  | some client =>
      have idle : client.inTransaction = false := by simpa [found] using outside
      simp [idle, replied]

theorem handler_applies (execute : Nat → Bytes → Server → Outcome) (env : Env)
    (allocates : ∀ site, env.alloc site = true) (sock : Int) (argv : List Bytes) (server : Server)
    (sound : Sound server.db) (outside : (findClient sock server).any (·.inTransaction) = false)
    (command : Command) :
    mapping (runHandler execute env sock argv server command).server.db =
      handlerMap env argv (mapping server.db) command := by
  cases command with
  | set =>
      exact store_string_mapping env server.db sound _ _ _ _ _
        (store_string_ok env server.db allocates _ _ _ _ _)
  | del => exact delete_keys_mapping server.db argv.tail sound.rep
  | expire => exact expire_mapping env argv server.db sound
  | incr => exact incr_applies env allocates argv server.db sound
  | exist => exact exists_mapping env.clock argv.tail server.db sound.rep
  | get =>
      simp only [runHandler, answered, getCommand]
      split <;> exact (mapping_get (env.clock 0) server.db sound.rep (arg argv 1)).1
  | ttl =>
      have read := (mapping_get (env.clock 0) server.db sound.rep (arg argv 1)).1
      simp only [runHandler, answered, ttlCommand]
      split
      case h_1 after got => rwa [got] at read
      case h_2 after obj got =>
        rw [got] at read
        split
        · exact read
        · split <;> exact read
  | exec => exact congrArg (fun server => mapping server.db) (exec_refused execute env sock server outside)
  | ping | save | bgsave | replicaof | role | replconf | multi | discard | subscribe | unsubscribe
  | publish =>
      rw [(handler_untouched execute env sock argv server _ (by decide)).db rfl]
      rfl

/-- A command outside of a transaction, on any connection. -/
theorem call_applies (execute : Nat → Bytes → Server → Outcome) (env : Env)
    (allocates : ∀ site, env.alloc site = true) (sock : Int) (buffer : Bytes) (server : Server)
    (sound : Sound server.db) (outside : (findClient sock server).any (·.inTransaction) = false) :
    mapping (executeWith execute env sock buffer server).server.db =
      applyWords env (tokens (cstr buffer)) (mapping server.db) := by
  have unopened : inTransaction sock server = false := by simp [inTransaction, outside]
  by_cases empty : tokens (cstr buffer) = []
  · have nameless : commands.find? (·.name = arg (lower []) 0) = none := by decide
    have whole : tokenizeCommand true (cstr buffer) = some [] := congrArg some empty
    simp [executeWith, allocates, whole, refuse, applyWords, empty, nameless]
  · rw [execute_allocated _ _ _ _ _ (allocates _) (allocates _) empty, unopened]
    simp only [Bool.false_and, Bool.false_eq_true, ↓reduceIte, propagate_db, dispatch, applyWords]
    cases commands.find? (·.name = arg (lower (tokens (cstr buffer))) 0) with
    | none => rfl
    | some row =>
        simp only [lower_length]
        split
        · rfl
        · exact handler_applies execute env allocates sock _ server sound outside row.command

end Calls

section Lines

/-- The lines of a stream in order, each in its world; empty ones are passed over. -/
def applyLines (worlds : Nat → Oracle) : Nat → List Bytes → Mapping → Mapping
  | _, [], m => m
  | index, line :: rest, m =>
      applyLines worlds (index + 1) rest
        (if line = [] then m else applyWords (worlds index []) (tokens (cstr line)) m)

theorem apply_lines_append (worlds : Nat → Oracle) (index : Nat) (first second : List Bytes)
    (m : Mapping) :
    applyLines worlds index (first ++ second) m =
      applyLines worlds (index + first.length) second (applyLines worlds index first m) := by
  induction first generalizing index m with
  | nil => rfl
  | cons line rest ih =>
      simp only [List.cons_append, applyLines, ih, List.length_cons]
      rw [show index + (rest.length + 1) = index + 1 + rest.length by omega]

theorem apply_lines_shift (worlds : Nat → Oracle) (done index : Nat) (lines : List Bytes)
    (m : Mapping) :
    applyLines (fun index => worlds (done + index)) index lines m =
      applyLines worlds (done + index) lines m := by
  induction lines generalizing index m with
  | nil => rfl
  | cons line rest ih => simp only [applyLines, ih, ← Nat.add_assoc]

/-- What the thread keeps of a server while it runs lines. -/
structure Thread (before after : Server) : Prop where
  clientList : after.clientList = before.clientList
  sound : Sound after.db

theorem line_applies (oracle : Oracle) (allocates : oracle.Allocates) (line : Bytes)
    (short : line.length < 2 ^ 31) (server : Server) (ready : QueuesReady server.clientList)
    (sound : Sound server.db) :
    mapping (executeCommand oracle (-1) line server).server.db =
        applyWords (oracle []) (tokens (cstr line)) (mapping server.db) ∧
      Thread server (executeCommand oracle (-1) line server).server := by
  have absent : findClient (-1) server = none := ready.thread_absent
  constructor
  · exact call_applies _ (oracle []) (allocates []) (-1) line server sound (by simp [absent])
  · exact ⟨(thread_line oracle line server ready).1,
      (execute_sound oracle (-1) line server short ready.queueable sound).1⟩

theorem lines_apply (worlds : Nat → Oracle) (allocates : ∀ index, (worlds index).Allocates)
    (lines : List (Bytes × Nat)) (short : ∀ line ∈ lines, line.1.length < 2 ^ 31)
    (index : Nat) (server : Server) (ready : QueuesReady server.clientList)
    (sound : Sound server.db) :
    mapping (executeLines worlds index lines server).1.db =
        applyLines worlds index (lines.map Prod.fst) (mapping server.db) ∧
      Thread server (executeLines worlds index lines server).1 := by
  induction lines generalizing index server with
  | nil => exact ⟨rfl, rfl, sound⟩
  | cons line rest ih =>
      rcases line with ⟨text, stop⟩
      have later := fun line member => short line (List.mem_cons_of_mem _ member)
      simp only [executeLines, List.map_cons, applyLines]
      split
      case isTrue =>
        obtain ⟨rest, clients, after⟩ :=
          ih later (index + 1) (advanceOffset stop server) ready sound
        exact ⟨rest, clients, after⟩
      case isFalse nonempty =>
        have fits := short (text, stop) List.mem_cons_self
        obtain ⟨applied, same, kept⟩ :=
          line_applies (worlds index) (allocates index) text fits server ready sound
        obtain ⟨rest, clients, after⟩ := ih later (index + 1)
          (advanceOffset stop (executeCommand (worlds index) (-1) text server).server)
          (by simpa [advanceOffset, same] using ready) kept
        constructor
        · rw [rest, ← applied]
          rfl
        · exact ⟨clients.trans same, after⟩

end Lines

section Chunks

/-- A stream as the thread receives it, chunk by chunk, with a world for each of its lines. -/
def receiveChunks (worlds : Nat → Oracle) : Nat → List Bytes → Server → Server
  | _, [], server => server
  | index, chunk :: rest, server =>
      let lines := (crlfLines 0 [] (server.replicaBuffer ++ chunk)).1
      receiveChunks worlds (index + lines.length) rest
        (receiveFromPrimary (fun line => worlds (index + line)) chunk server).1

/-- What one chunk does: its complete lines are applied and the rest is held. -/
theorem chunk_applies (worlds : Nat → Oracle) (allocates : ∀ index, (worlds index).Allocates)
    (chunk : Bytes) (server : Server) (ready : QueuesReady server.clientList)
    (sound : Sound server.db) (free : 0 ∉ server.replicaBuffer ++ chunk)
    (short : ∀ line ∈ (frames cr lf [] (server.replicaBuffer ++ chunk)).1, line.length < 2 ^ 31) :
    mapping (receiveFromPrimary worlds chunk server).1.db =
        applyLines worlds 0 (frames cr lf [] (server.replicaBuffer ++ chunk)).1
          (mapping server.db) ∧
      Thread server (receiveFromPrimary worlds chunk server).1 ∧
      (receiveFromPrimary worlds chunk server).1.replicaBuffer =
        (frames cr lf [] (server.replicaBuffer ++ chunk)).2 := by
  have same := crlf_lines_frames 0 [] (server.replicaBuffer ++ chunk) free
  have lines := congrArg Prod.fst same
  have left := congrArg Prod.snd same
  simp only at lines left
  rw [← lines] at short
  obtain ⟨applied, clients, kept⟩ := lines_apply worlds allocates
    (crlfLines 0 [] (server.replicaBuffer ++ chunk)).1
    (fun line member => short line.1 (List.mem_map_of_mem member)) 0 server ready sound
  rw [← lines, ← left]
  exact ⟨applied, ⟨clients, kept⟩, rfl⟩

/-- However the stream is cut into chunks, the replica applies its lines. -/
theorem chunks_apply (worlds : Nat → Oracle) (allocates : ∀ index, (worlds index).Allocates)
    (chunks : List Bytes) (index : Nat) (server : Server) (ready : QueuesReady server.clientList)
    (sound : Sound server.db) (held : Undivided cr lf server.replicaBuffer)
    (free : 0 ∉ server.replicaBuffer ++ chunks.flatten)
    (short : ∀ line ∈ (frames cr lf [] (server.replicaBuffer ++ chunks.flatten)).1,
      line.length < 2 ^ 31) :
    mapping (receiveChunks worlds index chunks server).db =
      applyLines worlds index (frames cr lf [] (server.replicaBuffer ++ chunks.flatten)).1
        (mapping server.db) := by
  induction chunks generalizing index server with
  | nil =>
      have none := frames_undivided cr lf [] server.replicaBuffer held
      simp only [List.nil_append] at none
      simp [receiveChunks, none, applyLines]
  | cons chunk rest ih =>
      simp only [List.flatten_cons, ← List.append_assoc] at free short ⊢
      rw [frames_append] at short ⊢
      have freeHere : 0 ∉ server.replicaBuffer ++ chunk :=
        fun zero => free (List.mem_append_left _ zero)
      obtain ⟨applied, thread, left⟩ := chunk_applies (fun line => worlds (index + line))
        (fun line => allocates (index + line)) chunk server ready sound freeHere
        fun line member => short line (List.mem_append_left _ member)
      have lines : (crlfLines 0 [] (server.replicaBuffer ++ chunk)).1.length =
          (frames cr lf [] (server.replicaBuffer ++ chunk)).1.length := by
        rw [← crlf_lines_frames 0 [] _ freeHere, List.length_map]
      -- What is held after the chunk has no complete line in it.
      have heldNext := frames_held cr lf [] (server.replicaBuffer ++ chunk) (undivided_nil cr lf)
      have resumed : (frames cr lf [] ((frames cr lf [] (server.replicaBuffer ++ chunk)).2 ++
          rest.flatten)).1 =
            (frames cr lf (frames cr lf [] (server.replicaBuffer ++ chunk)).2 rest.flatten).1 := by
        rw [frames_append, frames_undivided cr lf [] _ (by simpa using heldNext)]
        simp
      have subset : ∀ c ∈ (frames cr lf [] (server.replicaBuffer ++ chunk)).2,
          c ∈ server.replicaBuffer ++ chunk := by
        intro c member
        rw [← List.nil_append (server.replicaBuffer ++ chunk),
          ← frames_join cr lf [] (server.replicaBuffer ++ chunk)]
        exact List.mem_append_right _ member
      have freeNext : 0 ∉ (frames cr lf [] (server.replicaBuffer ++ chunk)).2 ++ rest.flatten := by
        rw [List.mem_append]
        rintro (early | late)
        · exact freeHere (subset 0 early)
        · exact free (List.mem_append_right _ late)
      have later := ih (index + (crlfLines 0 [] (server.replicaBuffer ++ chunk)).1.length)
        (receiveFromPrimary (fun line => worlds (index + line)) chunk server).1
        (thread.clientList ▸ ready) thread.sound (left ▸ heldNext) (left ▸ freeNext)
        (by
          rw [left, resumed]
          exact fun line member => short line (List.mem_append_right _ member))
      rw [receiveChunks, later, left, resumed, applied, apply_lines_append, lines,
        apply_lines_shift]
      rfl

end Chunks

end CrimsonCache.AppliedWrites
