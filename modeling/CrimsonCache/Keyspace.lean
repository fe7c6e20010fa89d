import CrimsonCache.StepRuns

/-!
What the server is to its clients: a machine on the map from keys to values with
deadlines. Each command that reaches a handler is one step of it, with the reply
that the map gives, and so is each sweep; every run of the server, with its
connections, transactions and threads, is a run of this machine.
-/

namespace CrimsonCache.Keyspace

open CString Dictionary DeadlineMap Replies Transaction Replication Tokenizer ServerState DataCommands
  StoredData Commands TransactionSteps Connections WriteEffects ReplicationThread ServerRuns
  AppliedWrites ExecLoop StepRuns Runs

section Machine

/-- The keys that DEL finds, expired ones included. -/
def delCount : List Bytes → Mapping → Nat
  | [], _ => 0
  | key :: rest, m => delCount rest (drop m key) + if (m key).isSome then 1 else 0

def existsCount : (Nat → Nat) → List Bytes → Mapping → Nat
  | _, [], _ => 0
  | clock, key :: rest, m =>
      existsCount (fun index => clock (index + 1)) rest (settle (expired (clock 0)) m key) +
        if (fetch (expired (clock 0)) m key).isSome then 1 else 0

def ttlReply (env : Env) (argv : List Bytes) (m : Mapping) : Reply :=
  match fetch (expired (env.clock 0)) m (arg argv 1) with
  | none => .integer (-2)
  | some (_, deadline) =>
      if deadline = 0 then .integer (-1)
      else if deadline ≤ env.clock 1 then .integer (-2)
      else .integer ((deadline - env.clock 1) / 1000)

/-- What a command on the database replies, given the map. -/
def handlerReply (env : Env) (argv : List Bytes) (m : Mapping) : Command → Option Reply
  | .set => some okReply
  | .get => some (match fetch (expired (env.clock 0)) m (arg argv 1) with
      | none => .nullBulk
      | some (value, _) => .bulk value)
  | .del => some (.integer (delCount argv.tail m))
  | .exist => some (.integer (existsCount env.clock argv.tail m))
  | .expire =>
      some (.integer (if (fetch (expired (env.clock 0)) m (arg argv 1)).isSome then 1 else 0))
  | .ttl => some (ttlReply env argv m)
  | .incr => some (match startValue (fetch (expired (env.clock 0)) m (arg argv 1)) with
      | none => notAnInteger
      | some value => .integer (Int.bmod (value + 1) (2 ^ 64)))
  | _ => none

def replyWords (env : Env) (words : List Bytes) (m : Mapping) : Option Reply :=
  match commands.find? (·.name = arg (lower words) 0) with
  | none => none
  | some row =>
      if wrongArity row words.length then none else handlerReply env (lower words) m row.command

/-- A step of the machine: the words of a command, for a socket and in a world of which
    they use the clock, or a sweep. -/
inductive KeyStep where
  | call (env : Env) (sock : Int) (words : List Bytes)
  | sweep (now : Nat)

def actKeys (m : Mapping) : KeyStep → Mapping
  | .call env _ words => applyWords env words m
  | .sweep now => sweep (expired now) m

/-- What a client is told about the words that it sent. -/
structure Exchange where
  sock : Int
  words : List Bytes
  reply : Reply
deriving DecidableEq

def sayKeys (m : Mapping) : KeyStep → List Exchange
  | .call env sock words => (replyWords env words m).toList.map fun reply => ⟨sock, words, reply⟩
  | .sweep _ => []

end Machine

section Handlers

variable (env : Env) (argv : List Bytes) (db : Dict)

theorem delete_keys_count (keys : List Bytes) (rep : Represents db) :
    (deleteKeys keys db).2 = delCount keys (mapping db) := by
  induction keys generalizing db with
  | nil => rfl
  | cons key rest ih =>
      obtain ⟨contents, found⟩ := mapping_delete db rep key
      simp only [deleteKeys, delCount, ih _ (delete_represents db rep key), contents, found]
      split <;> rfl

theorem exists_keys_count (clock : Nat → Nat) (keys : List Bytes) (rep : Represents db) :
    (existsKeys clock keys db).2 = existsCount clock keys (mapping db) := by
  induction keys generalizing clock db with
  | nil => rfl
  | cons key rest ih =>
      obtain ⟨contents, found⟩ := mapping_get (clock 0) db rep key
      have here : (dictGet (clock 0) db key).2.isSome =
          (fetch (expired (clock 0)) (mapping db) key).isSome := by
        rw [← found, Option.isSome_map]
      simp only [existsKeys, existsCount, ih _ _ (get_represents (clock 0) db rep key), contents, here]
      split <;> rfl

variable (sound : Sound db)

include sound

theorem get_answer :
    (getCommand env argv db).reply =
      match fetch (expired (env.clock 0)) (mapping db) (arg argv 1) with
      | none => .nullBulk
      | some (value, _) => .bulk value := by
  have found := (mapping_get (env.clock 0) db sound.rep (arg argv 1)).2
  rw [← found]
  simp only [getCommand]
  cases got : (dictGet (env.clock 0) db (arg argv 1)).2 with
  | none => rfl
  | some obj =>
      obtain ⟨entry, stored, -, rfl⟩ := get_found _ db sound (arg argv 1) obj got
      simp [touch, (sound.storable entry stored).type]

theorem expire_answer :
    (expireCommand env argv db).reply =
      .integer (if (fetch (expired (env.clock 0)) (mapping db) (arg argv 1)).isSome then 1 else 0) := by
  have found := (mapping_get (env.clock 0) db sound.rep (arg argv 1)).2
  rw [← found]
  simp only [expireCommand]
  rcases dictGet (env.clock 0) db (arg argv 1) with ⟨after, obj⟩
  cases obj <;> rfl

theorem ttl_answer : (ttlCommand env argv db).reply = ttlReply env argv (mapping db) := by
  have found := (mapping_get (env.clock 0) db sound.rep (arg argv 1)).2
  simp only [ttlReply, ← found, ttlCommand]
  rcases dictGet (env.clock 0) db (arg argv 1) with ⟨after, obj⟩
  cases obj with
  | none => rfl
  | some obj =>
      dsimp only [Option.map_some]
      split
      · rfl
      · split <;> rfl

theorem incr_answer (allocates : ∀ site, env.alloc site = true) :
    (incrCommand env argv db).reply =
      match startValue (fetch (expired (env.clock 0)) (mapping db) (arg argv 1)) with
      | none => notAnInteger
      | some value => .integer (Int.bmod (value + 1) (2 ^ 64)) := by
  have start := incr_value env argv db sound
  rw [← start]
  cases value : incrValue (dictGet (env.clock 0) db (arg argv 1)).2 with
  | none => simp [incrCommand, value]
  | some number =>
      rw [incr_started_store env argv db number value]
      exact store_string_reply env _ _ _ _ _ _ (store_string_ok env _ allocates _ _ _ _ _)

end Handlers

section Calls

/-- The words of a command that reaches a handler of the database. -/
def isData (words : List Bytes) : Bool :=
  (commands.find? (·.name = arg (lower words) 0)).any fun row =>
    !wrongArity row words.length && onDatabase row.command

def repliesOf (events : List Event) : List (Int × Reply) :=
  events.filterMap fun
    | .reply fd answer => some (fd, answer)
    | _ => none

/-- A handler of the database takes a step of the machine; the others take none. -/
theorem handler_step (execute : Nat → Bytes → Server → Outcome) (env : Env)
    (allocates : ∀ site, env.alloc site = true) (sock : Int) (argv : List Bytes) (server : Server)
    (sound : Sound server.db) (command : Command) (direct : command ≠ .exec) :
    mapping (runHandler execute env sock argv server command).server.db =
        handlerMap env argv (mapping server.db) command ∧
      if onDatabase command then
        ∃ reply, handlerReply env argv (mapping server.db) command = some reply ∧
          (runHandler execute env sock argv server command).events = [.reply sock reply]
      else handlerReply env argv (mapping server.db) command = none := by
  cases command with
  | exec => exact absurd rfl direct
  | set =>
      have ok := store_string_ok env server.db allocates 1 (arg argv 1) (arg argv 2)
        (setExpire env argv) okReply
      refine ⟨store_string_mapping env server.db sound _ _ _ _ _ ok, okReply, rfl, ?_⟩
      simp only [runHandler, answered, setCommand]
      rw [← store_string_reply env server.db 1 _ _ _ okReply ok]
      rfl
  | get =>
      have applied := handler_applies execute env allocates sock argv { server with clientList := [] } sound
        rfl .get
      exact ⟨applied, _, rfl, by simp only [runHandler, answered, get_answer env argv server.db sound]⟩
  | del =>
      refine ⟨delete_keys_mapping server.db argv.tail sound.rep, _, rfl, ?_⟩
      simp only [runHandler, answered, delCommand, delete_keys_count server.db _ sound.rep]
  | exist =>
      refine ⟨exists_mapping env.clock argv.tail server.db sound.rep, _, rfl, ?_⟩
      simp only [runHandler, answered, existsCommand, exists_keys_count server.db _ _ sound.rep]
  | expire =>
      refine ⟨expire_mapping env argv server.db sound, _, rfl, ?_⟩
      simp only [runHandler, answered, expire_answer env argv server.db sound]
  | ttl =>
      have applied := handler_applies execute env allocates sock argv { server with clientList := [] } sound
        rfl .ttl
      exact ⟨applied, _, rfl, by simp only [runHandler, answered, ttl_answer env argv server.db sound]⟩
  | incr =>
      refine ⟨incr_applies env allocates argv server.db sound, _, rfl, ?_⟩
      simp only [runHandler, answered, incr_answer env argv server.db sound allocates]
  | ping | save | bgsave | replicaof | role | replconf | multi | discard | subscribe | unsubscribe
  | publish =>
      exact ⟨congrArg mapping ((handler_untouched execute env sock argv server _ direct).db rfl), rfl⟩

theorem replies_of_fed (env : Env) (sock : Int) (input name : Bytes) (outcome : Outcome) :
    repliesOf (propagate env sock input name outcome).events = repliesOf outcome.events := by
  have fed : repliesOf (fedEvents env input outcome.server) = [] := by
    rw [repliesOf, List.filterMap_eq_nil_iff]
    intro event member
    rcases List.mem_cons.mp member with rfl | write
    · rfl
    · simp only [replicationFeedSlaves] at write
      split at write
      · obtain ⟨fd, result, rfl⟩ := feed_writes_data _ _ _ event write
        rfl
      · simp at write
  rw [propagate_eq]
  split
  · rw [repliesOf, List.filterMap_append]
    exact (congrArg _ fed).trans (List.append_nil _)
  · rfl

/-- An input that is neither queued nor runs a queue is one step of the machine. -/
theorem input_step (execute : Nat → Bytes → Server → Outcome) (env : Env)
    (allocates : ∀ site, env.alloc site = true) (sock : Int) (buffer : Bytes) (server : Server)
    (sound : Sound server.db)
    (runs : (inTransaction sock server && !isTxCommand (commandName (cstr buffer))) = false)
    (direct : lower (tokens (cstr buffer)) ≠ [ascii "exec"]) :
    mapping (executeWith execute env sock buffer server).server.db =
        applyWords env (tokens (cstr buffer)) (mapping server.db) ∧
      (if isData (tokens (cstr buffer)) then
          repliesOf (executeWith execute env sock buffer server).events else []) =
        (replyWords env (tokens (cstr buffer)) (mapping server.db)).toList.map
          fun reply => (sock, reply) := by
  by_cases empty : tokens (cstr buffer) = []
  · have nameless : commands.find? (·.name = arg (lower []) 0) = none := by decide
    have whole : tokenizeCommand true (cstr buffer) = some [] := congrArg some empty
    simp [executeWith, allocates, whole, refuse, applyWords, replyWords, isData, empty, nameless]
  · rw [execute_allocated _ _ _ _ _ (allocates _) (allocates _) empty, runs]
    simp only [Bool.false_eq_true, ↓reduceIte, propagate_db, replies_of_fed, dispatch, applyWords,
      replyWords, isData]
    cases found : commands.find? (·.name = arg (lower (tokens (cstr buffer))) 0) with
    | none => simp [refuse]
    | some row =>
        simp only [lower_length, Option.any_some]
        cases arity : wrongArity row (tokens (cstr buffer)).length with
        | true => simp [refuse]
        | false =>
            have member := List.mem_of_find?_eq_some found
            have apart : row.command ≠ .exec := by
              intro exec
              have named : row.name = commandName (cstr buffer) := by
                simpa [commandName] using List.find?_some found
              exact direct (exec_alone row member exec _ arity named)
            obtain ⟨applied, said⟩ := handler_step execute env allocates sock
              (lower (tokens (cstr buffer))) server sound row.command apart
            refine ⟨applied, ?_⟩
            cases data : onDatabase row.command with
            | true =>
                rw [data] at said
                obtain ⟨reply, known, events⟩ := said
                simp [known, events, repliesOf]
            | false =>
                rw [data] at said
                simpa using said

end Calls

section Steps

def runStep (sock : Int) (run : HandlerRun) : KeyStep := .call run.env sock (tokens run.input)

def runExchanges (run : HandlerRun) : List Exchange :=
  (if isData (tokens run.input) then repliesOf run.outcome.events else []).map
    fun answer => ⟨answer.1, tokens run.input, answer.2⟩

/-- The steps of the machine in one step of the server. -/
def keySteps (server : Server) : ServerStep → List KeyStep
  | .sweep now => [.sweep now]
  | step => (stepRuns server step).2.map (runStep (stepRuns server step).1)

/-- What the handlers of the database reply in one step of the server. -/
def exchanges (server : Server) (step : ServerStep) : List Exchange :=
  (stepRuns server step).2.flatMap runExchanges

end Steps

section Simulation

/-- The runs of handlers lead from one map to the other and reply as the machine does. -/
def Follows (sock : Int) (before after : Mapping) (runs : List HandlerRun) : Prop :=
  after = run actKeys before (runs.map (runStep sock)) ∧
    runs.flatMap runExchanges = outputs actKeys sayKeys before (runs.map (runStep sock))

variable (sock : Int)

theorem Follows.nil (m : Mapping) : Follows sock m m [] := ⟨rfl, rfl⟩

variable {sock} in
theorem Follows.append {first second third : Mapping} {runs more : List HandlerRun}
    (left : Follows sock first second runs) (right : Follows sock second third more) :
    Follows sock first third (runs ++ more) := by
  constructor
  · rw [List.map_append, run_append, ← left.1]
    exact right.1
  · rw [List.flatMap_append, List.map_append, outputs_append, ← left.1, left.2, right.2]

/-- An input that is not queued and runs no queue. -/
theorem call_follows (execute : Nat → Bytes → Server → Outcome) (env : Env)
    (allocates : ∀ site, env.alloc site = true) (buffer : Bytes) (server : Server)
    (sound : Sound server.db)
    (runs : (inTransaction sock server && !isTxCommand (commandName (cstr buffer))) = false)
    (direct : lower (tokens (cstr buffer)) ≠ [ascii "exec"]) :
    Follows sock (mapping server.db) (mapping (executeWith execute env sock buffer server).server.db)
      [⟨env, server, cstr buffer, executeWith execute env sock buffer server⟩] := by
  obtain ⟨applied, said⟩ := input_step execute env allocates sock buffer server sound runs direct
  constructor
  · exact applied
  · simp [runExchanges, outputs, sayKeys, runStep, said]

theorem follows_rule (sock : Int) :
    RunRule (fun env => ∀ site, env.alloc site = true) sock fun runs before after =>
      Follows sock (mapping before.db) (mapping after.db) runs where
  quiet before after db _ := by
    rw [db]
    exact Follows.nil sock _
  append _ _ _ _ _ left right := left.append right
  call execute env buffer server allocates sound runs direct :=
    call_follows sock execute env allocates buffer server sound runs direct

/-- The worlds of a step allocate whatever it asks for. -/
def Allocating : ServerStep → Prop := Worlds fun env => ∀ site, env.alloc site = true

/-- One step of the server is a run of the machine. -/
theorem step_keys (server : Server) (wf : Wellformed server) (step : ServerStep)
    (possible : Possible server step) (allocates : Allocating step) :
    mapping (next server step).db = run actKeys (mapping server.db) (keySteps server step) ∧
      exchanges server step = outputs actKeys sayKeys (mapping server.db) (keySteps server step) := by
  cases step with
  | autoSave now saveNow io =>
      refine ⟨congrArg mapping ?_, rfl⟩
      simp only [next, stepServer, autoSave]
      split
      · split <;> rfl
      · rfl
  | sweep now => exact ⟨mapping_clear_expired now server.db wf.sound.rep, rfl⟩
  | connect ptr socket => exact ⟨rfl, rfl⟩
  | receive oracle sock chunk =>
      exact step_rule follows_rule server wf (.receive oracle sock chunk) trivial possible allocates
  | replication oracle received connect =>
      exact step_rule follows_rule server wf (.replication oracle received connect) trivial possible
        allocates

/-- An input outside of a transaction, EXEC apart, is a single step of the machine. -/
theorem input_keys (oracle : Oracle) (sock : Int) (chunk : Bytes) (server : Server) (client : Client)
    (found : attended sock server = some client) (more : chunk ≠ [])
    (runs : (inTransaction client.socket server &&
      !isTxCommand (commandName (cstr (client.buffer ++ chunk)))) = false)
    (direct : lower (tokens (cstr (client.buffer ++ chunk))) ≠ [ascii "exec"]) :
    keySteps server (.receive oracle sock chunk) =
      [.call (oracle []) client.socket (tokens (cstr (client.buffer ++ chunk)))] := by
  rw [keySteps, input_runs oracle sock chunk server client found more runs direct]
  · rfl
  · simp

/-- Every run of the server is a run of the machine. -/
theorem run_keys (start : Server) (wf : Wellformed start) (steps : List ServerStep)
    (admitted : Admitted Possible next start steps) (allocates : ∀ step ∈ steps, Allocating step) :
    mapping (run next start steps).db =
        run actKeys (mapping start.db) (outputs next keySteps start steps) ∧
      outputs next exchanges start steps =
        outputs actKeys sayKeys (mapping start.db) (outputs next keySteps start steps) := by
  have both := (admitted_and _ _ _ start steps).mpr
    ⟨admitted, admitted_each next Allocating start steps allocates⟩
  exact run_abstracts _ next (fun server => mapping server.db) actKeys sayKeys keySteps exchanges
    (fun server step wf taken => next_wellformed server step wf taken.1)
    (fun server step wf taken => step_keys server wf step taken.1 taken.2) start wf steps both

theorem start_empty (start : Server) (starts : Starts start) : mapping start.db = fun _ => none := by
  rcases starts with ⟨⟨alloc, created⟩, -⟩
  exact mapping_empty start.db (create_represents alloc 1024 start.db created).2

/-- What a server that has started stores and what it replies about its keys are what the
    machine stores and replies that starts without keys. -/
theorem server_refines_keyspace (start : Server) (starts : Starts start) (steps : List ServerStep)
    (admitted : Admitted Possible next start steps) (allocates : ∀ step ∈ steps, Allocating step) :
    mapping (run next start steps).db =
        run actKeys (fun _ => none) (outputs next keySteps start steps) ∧
      outputs next exchanges start steps =
        outputs actKeys sayKeys (fun _ => none) (outputs next keySteps start steps) := by
  rw [← start_empty start starts]
  exact run_keys start (start_wellformed start starts) steps admitted allocates

end Simulation

section Example

set_option maxRecDepth 4000

/-- A client that stores a value and reads it. -/
def storesAndReads : List ServerStep :=
  [.connect 1 7, .receive (calm 0) 7 (ascii "SET a 1\r\n"), .receive (calm 0) 7 (ascii "GET a\r\n")]

theorem stores_and_reads_admitted : Admitted Possible next emptyServer storesAndReads :=
  ⟨empty_connects, ⟨one_client_open, by decide⟩, ⟨by decide, by decide⟩, trivial⟩

theorem stores_and_reads_allocates : ∀ step ∈ storesAndReads, Allocating step := by
  intro step member
  simp only [storesAndReads, List.mem_cons, List.not_mem_nil, or_false] at member
  rcases member with rfl | rfl | rfl
  · trivial
  · exact calm_allocates 0
  · exact calm_allocates 0

/-- It is told what it stored. -/
theorem stored_value_is_read :
    outputs next exchanges emptyServer storesAndReads = [⟨7, [ascii "SET", ascii "a", ascii "1"], okReply⟩,
        ⟨7, [ascii "GET", ascii "a"], .bulk (ascii "1")⟩] ∧
      mapping (run next emptyServer storesAndReads).db =
        run actKeys (fun _ => none) (outputs next keySteps emptyServer storesAndReads) :=
  ⟨by decide,
    (server_refines_keyspace emptyServer empty_starts storesAndReads stores_and_reads_admitted
      stores_and_reads_allocates).1⟩

end Example

end CrimsonCache.Keyspace
