import CrimsonCache.AppliedWrites
import CrimsonCache.ExecLoop

/-!
A step of the server as the runs of handlers that it makes, whichever way they
come about: from a client, from the queue of a transaction or from the primary's
stream. What holds of one run and composes holds of every step.
-/

namespace CrimsonCache.StepRuns

open CString Dictionary Replies Transaction Replication Tokenizer ServerState StoredData Commands
  TransactionSteps Connections ReplicationThread ServerRuns AppliedWrites ExecLoop

section Steps

/-- The runs of handlers that an input leads to; one that is queued leads to none. -/
def inputRuns (oracle : Oracle) (sock : Int) (buffer : Bytes) (server : Server) : List HandlerRun :=
  if inTransaction sock server && !isTxCommand (commandName (cstr buffer)) then []
  else handlerRuns oracle sock buffer server

/-- The runs of the lines of the replication thread. -/
def lineRuns (oracle : Nat → Oracle) : Nat → List (Bytes × Nat) → Server → List HandlerRun
  | _, [], _ => []
  | index, (line, stop) :: rest, server =>
      if line = [] then lineRuns oracle (index + 1) rest (advanceOffset stop server)
      else
        let outcome := executeCommand (oracle index) (-1) line server
        inputRuns (oracle index) (-1) line server ++
          lineRuns oracle (index + 1) rest (advanceOffset stop outcome.server)

/-- The client that the handlers of a connection work for. -/
def attended (sock : Int) (server : Server) : Option Client :=
  match server.config.concurrencyModel with
  | .threaded => openClient sock server
  | .eventLoop => findClient sock server

/-- The runs of handlers in one step of the server, with the socket they reply to. -/
def stepRuns (server : Server) : ServerStep → Int × List HandlerRun
  | .receive oracle sock chunk =>
      match attended sock server with
      | none => (sock, [])
      | some client =>
          if chunk = [] then (sock, [])
          else (client.socket, inputRuns oracle client.socket (client.buffer ++ chunk) server)
  | .replication oracle received _ =>
      match server.repl.role, server.repl.state, received with
      | .replica, .sync, .data chunk | .replica, .connected, .data chunk =>
          (-1, lineRuns oracle 0 (crlfLines 0 [] (server.replicaBuffer ++ chunk)).1 server)
      | _, _, _ => (-1, [])
  | _ => (-1, [])

/-- An input outside of a transaction, EXEC apart, is a single run. -/
theorem input_runs (oracle : Oracle) (sock : Int) (chunk : Bytes) (server : Server) (client : Client)
    (found : attended sock server = some client) (more : chunk ≠ [])
    (runs : (inTransaction client.socket server &&
      !isTxCommand (commandName (cstr (client.buffer ++ chunk)))) = false)
    (direct : lower (tokens (cstr (client.buffer ++ chunk))) ≠ [ascii "exec"]) :
    stepRuns server (.receive oracle sock chunk) =
      (client.socket, [⟨oracle [], server, cstr (client.buffer ++ chunk),
        executeCommand oracle client.socket (client.buffer ++ chunk) server⟩]) := by
  simp only [stepRuns, found, more, ↓reduceIte, inputRuns, runs, Bool.false_eq_true, handlerRuns, direct]

/-- The worlds of the commands in a step. -/
def Worlds (Fair : Env → Prop) : ServerStep → Prop
  | .receive oracle _ _ => ∀ path, Fair (oracle path)
  | .replication oracle _ _ => ∀ index path, Fair (oracle index path)
  | _ => True

end Steps

section Rule

/-- A relation between runs of handlers for a socket and the states around them. It looks at
    the database and the files only, composes, and holds of every single run. -/
structure RunRule (Fair : Env → Prop) (sock : Int)
    (Holds : List HandlerRun → Server → Server → Prop) : Prop where
  quiet : ∀ before after, after.db = before.db → after.files = before.files → Holds [] before after
  append : ∀ first second start middle final,
    Holds first start middle → Holds second middle final → Holds (first ++ second) start final
  call : ∀ execute env buffer server, Fair env → Sound server.db →
    (inTransaction sock server && !isTxCommand (commandName (cstr buffer))) = false →
    lower (tokens (cstr buffer)) ≠ [ascii "exec"] →
    Holds [⟨env, server, cstr buffer, executeWith execute env sock buffer server⟩] server
      (executeWith execute env sock buffer server).server

variable {Fair : Env → Prop} {sock : Int} {Holds : List HandlerRun → Server → Server → Prop}
variable (rule : RunRule Fair sock Holds)

include rule

theorem RunRule.then_quiet (runs : List HandlerRun) (start middle final : Server)
    (holds : Holds runs start middle) (db : final.db = middle.db) (files : final.files = middle.files) :
    Holds runs start final := by
  have silent := rule.quiet middle final db files
  simpa using rule.append runs [] start middle final holds silent

theorem RunRule.queue (oracle : Oracle) (fair : ∀ path, Fair (oracle path)) (cmds : List Bytes)
    (queueable : ∀ cmd ∈ cmds, Queueable cmd) (index : Nat) (server : Server)
    (sound : Sound server.db) (outside : inTransaction sock server = false) :
    Holds (queuedRuns oracle sock index cmds server) server
      (runQueued (fun index cmd server => executeCommandAt 0 (oracle.inner index) sock cmd
        server) sock index cmds server).1 := by
  induction cmds generalizing index server with
  | nil => exact rule.quiet server server rfl rfl
  | cons cmd rest ih =>
      have fits := queueable cmd List.mem_cons_self
      obtain ⟨text, apart, kept⟩ := queued_run_sound (oracle.inner index) sock cmd fits server sound
      have plain : isTxCommand (commandName (cstr cmd)) = false := by rw [text, fits.direct]
      have first := rule.call (fun _ _ server => ⟨server, [], .unknown⟩) (oracle.inner index [])
        cmd server (fair [index]) sound (by simp [outside]) (by rwa [text])
      have same := (direct_execution (fun _ _ server => ⟨server, [], .unknown⟩)
        (oracle.inner index []) sock cmd server outside plain).1
      have later := ih (fun other member => queueable other (List.mem_cons_of_mem cmd member))
        (index + 1) (executeCommandAt 0 (oracle.inner index) sock cmd server).server kept
        (by rw [← outside]; exact same.inTransaction sock)
      rw [text] at first
      exact rule.append _ _ _ _ _ first later

/-- An input on any connection, in a transaction or not. -/
theorem RunRule.input (oracle : Oracle) (fair : ∀ path, Fair (oracle path)) (buffer : Bytes)
    (server : Server) (sound : Sound server.db) (ready : QueuesReady server.clientList) :
    Holds (inputRuns oracle sock buffer server) server (executeCommand oracle sock buffer server).server := by
  unfold inputRuns
  split
  case isTrue queued =>
    obtain ⟨inside, plain⟩ := Bool.and_eq_true_iff.mp queued
    have ran := execute_with_cases
      (fun index cmd server => executeCommandAt 0 (oracle.inner index) sock cmd server) (oracle [])
      sock buffer server
    rw [executeCommand, executeCommandAt]
    generalize executeWith _ (oracle []) sock buffer server = outcome at ran
    cases ran with
    | refused => exact rule.quiet _ _ rfl rfl
    | queued =>
        simp only [queueInput]
        split
        · exact rule.quiet _ _ rfl rfl
        · split <;> exact rule.quiet _ _ rfl rfl
    | ran row member named arity allowed => simp [allowed inside] at plain
  case isFalse runs =>
    simp only [handlerRuns]
    split
    case isTrue alone =>
      have ended := exec_cases oracle sock buffer server alone
      simp only [execRuns]
      cases queue : execQueue oracle sock server with
      | none =>
          simp only [queue] at ended
          generalize executeCommand oracle sock buffer server = outcome at ended
          cases ended <;> exact rule.quiet _ _ rfl rfl
      | some cmds =>
          simp only [queue] at ended
          obtain ⟨client, member, -, same⟩ := exec_queue_client oracle sock server cmds queue
          rw [ended]
          have cleaned := rule.quiet server (modifyClient sock txCleanup server) rfl rfl
          have queued := rule.queue oracle fair cmds
            (fun cmd inside => ready.queueable client member cmd (same ▸ inside)) 0
            (modifyClient sock txCleanup server) sound (cleaned_outside sock server)
          exact rule.then_quiet _ _ _ _ (rule.append _ _ _ _ _ cleaned queued) rfl rfl
    case isFalse direct =>
      exact rule.call _ (oracle []) buffer server (fair []) sound (by simpa using runs) direct

end Rule

section Server

variable {Fair : Env → Prop}

/-- The lines that a replica is sent. -/
theorem RunRule.lines {Holds : List HandlerRun → Server → Server → Prop}
    (rule : RunRule Fair (-1) Holds) (oracle : Nat → Oracle) (fair : ∀ index path, Fair (oracle index path))
    (lines : List (Bytes × Nat))
    (short : ∀ line ∈ lines, line.1.length < 2 ^ 31) (index : Nat) (server : Server)
    (wf : Wellformed server) :
    Holds (lineRuns oracle index lines server) server (executeLines oracle index lines server).1 := by
  induction lines generalizing index server with
  | nil => exact rule.quiet server server rfl rfl
  | cons line rest ih =>
      rcases line with ⟨text, stop⟩
      have later := fun line member => short line (List.mem_cons_of_mem _ member)
      simp only [executeLines, lineRuns]
      split
      case isTrue =>
        have advanced := advance_wellformed stop server wf
        have rest := ih later (index + 1) (advanceOffset stop server) advanced
        exact rule.append [] _ _ _ _ (rule.quiet server (advanceOffset stop server) rfl rfl) rest
      case isFalse nonempty =>
        have kept := execute_wellformed (oracle index) (-1) text server wf
          (short (text, stop) List.mem_cons_self)
        have first := rule.input (oracle index) (fair index) text server wf.sound wf.ready
        have advanced := rule.then_quiet _ _ _
          (advanceOffset stop (executeCommand (oracle index) (-1) text server).server) first rfl rfl
        exact rule.append _ _ _ _ _ advanced
          (ih later (index + 1) _ (advance_wellformed stop _ kept))

/-- Without a client or a byte a connection changes neither the database nor a file. -/
theorem serve_attended (oracle : Oracle) (sock : Int) (chunk : Bytes) (server : Server) :
    match attended sock server with
    | none => (serve oracle sock chunk server).server.db = server.db ∧
        (serve oracle sock chunk server).server.files = server.files
    | some client => client ∈ openClients server ∧
        if chunk = [] then (serve oracle sock chunk server).server.db = server.db ∧
          (serve oracle sock chunk server).server.files = server.files
        else serve oracle sock chunk server = readInput oracle client chunk server := by
  cases model : server.config.concurrencyModel with
  | threaded =>
      simp only [attended, serve, model, handleClient]
      cases found : openClient sock server with
      | none => exact ⟨rfl, rfl⟩
      | some client =>
          refine ⟨(open_client_mem sock server client found).1, ?_⟩
          split
          · exact ⟨rfl, rfl⟩
          · rfl
  | eventLoop =>
      simp only [attended, serve, model, handleClientMessage]
      cases found : findClient sock server with
      | none => exact ⟨rfl, rfl⟩
      | some client =>
          refine ⟨(open_mem server client).mpr (Or.inl (get_mem _ _ _ found).1), ?_⟩
          split
          · exact ⟨rfl, rfl⟩
          · rfl

/-- The steps that run handlers, or none of them. -/
def Commanded : ServerStep → Prop
  | .sweep _ => False
  | .autoSave _ _ _ => False
  | _ => True

/-- A step of the server that is neither a sweep nor a save. -/
theorem step_rule {Holds : Int → List HandlerRun → Server → Server → Prop}
    (rule : ∀ sock, RunRule Fair sock (Holds sock)) (server : Server) (wf : Wellformed server)
    (step : ServerStep) (commanded : Commanded step) (possible : Possible server step)
    (fair : Worlds Fair step) :
    Holds (stepRuns server step).1 (stepRuns server step).2 server (next server step) := by
  cases step with
  | sweep => exact commanded.elim
  | autoSave => exact commanded.elim
  | connect ptr socket => exact (rule (-1)).quiet _ _ rfl rfl
  | receive oracle sock chunk =>
      have served := serve_attended oracle sock chunk server
      simp only [next, stepServer, stepRuns]
      cases found : attended sock server with
      | none =>
          simp only [found] at served
          exact (rule sock).quiet _ _ served.1 served.2
      | some client =>
          simp only [found] at served
          rcases served with ⟨member, served⟩
          split at served
          case isTrue ended =>
            simp only [ended, ↓reduceIte]
            rw [ended] at served
            exact (rule sock).quiet _ _ served.1 served.2
          case isFalse more =>
            have ran := read_executes oracle client chunk server wf member possible.2
            simp only [more, ↓reduceIte, served, ran]
            exact (rule client.socket).input oracle fair (client.buffer ++ chunk) server wf.sound wf.ready
  | replication oracle received connect =>
      have lines (chunk : Bytes)
          (room : server.replicaBuffer.length + chunk.length < server.config.bufferSize) :=
        (rule (-1)).lines oracle fair (crlfLines 0 [] (server.replicaBuffer ++ chunk)).1
          (received_short server chunk wf room) 0 server wf
      simp only [next, stepServer, stepRuns, replicationThread]
      cases server.repl.role with
      | primary => exact (rule (-1)).quiet _ _ rfl rfl
      | replica =>
          cases server.repl.state with
          | none => exact (rule (-1)).quiet _ _ rfl rfl
          | connecting =>
              dsimp only
              split <;> exact (rule (-1)).quiet _ _ rfl rfl
          | sync | connected =>
              cases received with
              | data chunk => exact (rule (-1)).then_quiet _ _ _ _ (lines chunk possible) rfl rfl
              | wouldBlock => exact (rule (-1)).quiet _ _ rfl rfl
              | lost => exact (rule (-1)).quiet _ _ rfl rfl

end Server

section Inputs

theorem attended_socket (sock : Int) (server : Server) (client : Client)
    (found : attended sock server = some client) : client.socket = sock := by
  simp only [attended] at found
  split at found
  · simpa using List.find?_some found
  · exact (get_mem sock server.clientList client found).2

theorem runs_socket (oracle : Oracle) (sock : Int) (chunk : Bytes) (server : Server) :
    (stepRuns server (.receive oracle sock chunk)).1 = sock := by
  simp only [stepRuns]
  cases found : attended sock server with
  | none => rfl
  | some client =>
      dsimp only
      split
      · rfl
      · exact attended_socket sock server client found

variable (fd : Int) (server : Server) (oracle : Oracle) (chunk : Bytes)

/-- An input that is read from an open connection in no transaction. -/
structure Heard : Prop where
  possible : Possible server (.receive oracle fd chunk)
  attended : (attended fd server).isSome
  more : chunk ≠ []
  outside : inTransaction fd server = false

variable {fd server oracle chunk} (wf : Wellformed server) (heard : Heard fd server oracle chunk)

include wf heard

theorem heard_connected : 0 ≤ fd := by
  obtain ⟨client, member, rfl⟩ := List.mem_map.mp heard.possible.1
  exact wf.positive client member

/-- The input goes to `execute_command` as it was sent. -/
theorem heard_executes :
    next server (.receive oracle fd chunk) = (executeCommand oracle fd chunk server).server ∧
      (stepServer server (.receive oracle fd chunk)).2 = (executeCommand oracle fd chunk server).events ∧
      stepRuns server (.receive oracle fd chunk) = (fd, inputRuns oracle fd chunk server) := by
  obtain ⟨client, found⟩ := Option.isSome_iff_exists.mp heard.attended
  have socket := attended_socket fd server client found
  have served := serve_attended oracle fd chunk server
  simp only [found, heard.more, ↓reduceIte] at served
  obtain ⟨member, read⟩ := served
  have empty := wf.buffers client member
  have ran := read_executes oracle client chunk server wf member heard.possible.2
  simp only [next, stepServer, stepRuns, found, heard.more, ↓reduceIte, read, ran, socket, empty, List.nil_append]
  refine ⟨trivial, ?_, trivial⟩
  simp only [readInput, socket, empty, List.nil_append]

end Inputs

end CrimsonCache.StepRuns
