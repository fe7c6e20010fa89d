import CrimsonCache.StepRuns

/-!
One server in two models of concurrency. The threads of the one know their
client, the event loop of the other looks it up by its socket. As long as every
connection finds a slot in `client_list` nobody can tell them apart.
-/

namespace CrimsonCache.ConcurrencyModels

open CString Dictionary Persistence Replies Transaction Pubsub Replication Tokenizer ServerState DataCommands Commands
  TransactionSteps Connections ReplicationThread ServerRuns StepRuns Runs

/-- The same server, configured for another model. -/
def remodel (model : ConcurrencyModel) (server : Server) : Server :=
  { server with config := { server.config with concurrencyModel := model } }

def remodelled (model : ConcurrencyModel) (outcome : Outcome) : Outcome :=
  ⟨remodel model outcome.server, outcome.events, outcome.result⟩

section Handlers

@[simp] theorem remodel_db (model : ConcurrencyModel) (server : Server) :
    (remodel model server).db = server.db := rfl

@[simp] theorem remodel_files (model : ConcurrencyModel) (server : Server) :
    (remodel model server).files = server.files := rfl

@[simp] theorem remodel_repl (model : ConcurrencyModel) (server : Server) :
    (remodel model server).repl = server.repl := rfl

@[simp] theorem remodel_channels (model : ConcurrencyModel) (server : Server) :
    (remodel model server).channels = server.channels := rfl

@[simp] theorem remodel_port (model : ConcurrencyModel) (server : Server) :
    (remodel model server).config.port = server.config.port := rfl

@[simp] theorem remodel_find (model : ConcurrencyModel) (sock : Int) (server : Server) :
    findClient sock (remodel model server) = findClient sock server := rfl

@[simp] theorem remodel_inside (model : ConcurrencyModel) (sock : Int) (server : Server) :
    inTransaction sock (remodel model server) = inTransaction sock server := rfl

variable (model : ConcurrencyModel) (execute : Nat → Bytes → Server → Outcome)

/-- The commands of a queue do not ask for the model. -/
def Indifferent : Prop :=
  ∀ index cmd server, execute index cmd (remodel model server) = remodelled model (execute index cmd server)

variable (indifferent : Indifferent model execute) (env : Env) (sock : Int) (argv : List Bytes) (server : Server)

include indifferent

theorem queue_remodelled (index : Nat) (cmds : List Bytes) :
    runQueued execute sock index cmds (remodel model server) =
      (remodel model (runQueued execute sock index cmds server).1,
        (runQueued execute sock index cmds server).2) := by
  induction cmds generalizing index server with
  | nil => rfl
  | cons cmd rest ih => simp only [runQueued, indifferent index cmd server, remodelled, ih]

theorem exec_remodelled :
    execCommand execute env sock (remodel model server) =
      remodelled model (execCommand execute env sock server) := by
  have cleaned (client : Client) : modifyClient client.socket txCleanup (remodel model server) =
      remodel model (modifyClient client.socket txCleanup server) := rfl
  simp only [execCommand, remodel_find]
  cases findClient sock server with
  | none => rfl
  | some client =>
      dsimp only
      split
      case isFalse => rfl
      case isTrue =>
        simp only [txExecuteCommands, cleaned, queue_remodelled model execute indifferent]
        split
        · rfl
        · split <;> rfl

theorem handler_remodelled (command : Command) :
    runHandler execute env sock argv (remodel model server) command =
      remodelled model (runHandler execute env sock argv server command) := by
  cases command with
  | exec => exact exec_remodelled model execute indifferent env sock server
  | set | get | del | exist | expire | ttl | incr | role => rfl
  | ping | bgsave | publish | replconf =>
      simp only [runHandler, pingCommand, bgsaveCommand, publishCommand, replconfCommand, remodel_db,
        remodel_channels, remodel_repl]
      split <;> rfl
  | save =>
      simp only [runHandler, saveCommand, remodel_db, remodel_files]
      by_cases saved : (saveRdbToFile env.save (env.clock 0) server.db dumpRdb server.files).2 = true
      · simp only [saved, ↓reduceIte]
        rfl
      · simp only [saved]
        rfl
  | multi | discard =>
      simp only [runHandler, multiCommand, discardCommand, remodel_find]
      split
      · rfl
      · split <;> rfl
  | subscribe | unsubscribe =>
      simp only [runHandler, subscribeCommand, unsubscribeCommand, remodel_find, remodel_channels]
      split <;> rfl
  | replicaof =>
      simp only [runHandler, replicaofCommand, remodel_repl, remodel_port]
      split
      · rfl
      · split
        · rfl
        · by_cases connected : (replicationSetPrimary env.connect server.config.port (arg argv 1)
            (atoi (arg argv 2)) server.repl).2.1 = true
          · simp only [connected, ↓reduceIte]
            rfl
          · simp only [connected]
            rfl

omit indifferent in
theorem queue_input_remodelled (input : Bytes) :
    queueInput env sock input (remodel model server) = remodelled model (queueInput env sock input server) := by
  simp only [queueInput, remodel_find]
  split
  · rfl
  · split <;> rfl

omit indifferent in
theorem propagate_remodelled (input name : Bytes) (outcome : Outcome) :
    propagate env sock input name (remodelled model outcome) =
      remodelled model (propagate env sock input name outcome) := by
  unfold propagate
  rw [apply_ite (remodelled model)]
  rfl

theorem execute_with_remodelled (buffer : Bytes) :
    executeWith execute env sock buffer (remodel model server) =
      remodelled model (executeWith execute env sock buffer server) := by
  have dispatched (argv : List Bytes) : dispatch execute env sock argv (remodel model server) =
      remodelled model (dispatch execute env sock argv server) := by
    simp only [dispatch]
    split
    · rfl
    · split
      · rfl
      · exact handler_remodelled model execute indifferent env sock argv server _
  simp only [executeWith, remodel_inside, dispatched, propagate_remodelled, queue_input_remodelled]
  split
  · split
    · rfl
    · rfl
    · split <;> rfl
  · rfl

end Handlers

section Steps

variable (model : ConcurrencyModel)

theorem execute_remodelled (oracle : Oracle) (sock : Int) (buffer : Bytes) (server : Server) :
    executeCommand oracle sock buffer (remodel model server) =
      remodelled model (executeCommand oracle sock buffer server) := by
  refine execute_with_remodelled model _ (fun index cmd server => ?_) (oracle []) sock server buffer
  exact execute_with_remodelled model _ (fun _ _ _ => rfl) _ sock server cmd

theorem lines_remodelled (oracle : Nat → Oracle) (index : Nat) (lines : List (Bytes × Nat))
    (server : Server) :
    executeLines oracle index lines (remodel model server) =
      (remodel model (executeLines oracle index lines server).1,
        (executeLines oracle index lines server).2) := by
  induction lines generalizing index server with
  | nil => rfl
  | cons line rest ih =>
      rcases line with ⟨text, stop⟩
      have advanced (server : Server) : advanceOffset stop (remodel model server) =
          remodel model (advanceOffset stop server) := rfl
      simp only [executeLines, execute_remodelled, remodelled, advanced, ih]
      split <;> rfl

theorem thread_remodelled (oracle : Nat → Oracle) (received : Received) (connect : Connect)
    (server : Server) :
    replicationThread oracle received connect (remodel model server) =
      (remodel model (replicationThread oracle received connect server).1,
        (replicationThread oracle received connect server).2) := by
  simp only [replicationThread, remodel_repl]
  cases server.repl.role with
  | primary => rfl
  | replica =>
      cases server.repl.state with
      | none => rfl
      | connecting =>
          by_cases absent : server.repl.primaryFd = -1
          · simp only [absent, ↓reduceIte]
            rfl
          · simp only [absent]
            rfl
      | sync | connected =>
          cases received with
          | wouldBlock | lost => rfl
          | data chunk =>
              have buffer : (remodel model server).replicaBuffer = server.replicaBuffer := rfl
              simp only [receiveFromPrimary, buffer, lines_remodelled]
              rfl

/-- Every open connection has a slot. -/
def Seated (server : Server) : Prop := server.unlisted = []

/-- The event loop and a thread find the same client. -/
theorem attended_same (server : Server) (seated : Seated server) (sock : Int) :
    openClient sock server = findClient sock server := by
  rw [openClient, openClients, seated, List.append_nil, findClient, get_listed]

/-- What the handler of a connection does, in either model. -/
theorem serve_same (server : Server) (seated : Seated server) (oracle : Oracle) (sock : Int) (chunk : Bytes)
    (opened : sock ∈ (openClients server).map (·.socket)) :
    handleClientMessage oracle sock chunk server = handleClient oracle sock chunk server := by
  rw [handleClient, attended_same server seated, handleClientMessage]
  cases found : findClient sock server with
  | some client => rfl
  | none =>
      rw [← attended_same server seated, openClient, List.find?_eq_none] at found
      obtain ⟨client, member, same⟩ := List.mem_map.mp opened
      exact absurd (decide_eq_true same) (found client member)

theorem client_remodelled (oracle : Oracle) (sock : Int) (chunk : Bytes) (server : Server) :
    handleClient oracle sock chunk (remodel model server) =
      { handleClient oracle sock chunk server with
        server := remodel model (handleClient oracle sock chunk server).server } := by
  have found : openClient sock (remodel model server) = openClient sock server := rfl
  simp only [handleClient, found]
  cases openClient sock server with
  | none => rfl
  | some client =>
      dsimp only
      split
      · rfl
      · simp only [readInput, execute_remodelled]
        rfl

theorem step_remodelled (server : Server) (seated : Seated server) (step : ServerStep)
    (possible : Possible server step) :
    stepServer (remodel model server) step =
      (remodel model (stepServer server step).1, (stepServer server step).2) := by
  cases step with
  | connect ptr socket => rfl
  | sweep now => rfl
  | autoSave now saveNow io =>
      have due : saveDue now (remodel model server) = saveDue now server := rfl
      simp only [stepServer, autoSave, due, remodel_db, remodel_files]
      split
      · by_cases saved : (saveRdbToFile io saveNow server.db dumpRdb server.files).2 = true
        · simp only [saved, ↓reduceIte]
          rfl
        · simp only [saved]
          rfl
      · rfl
  | replication oracle received connect => exact thread_remodelled model oracle received connect server
  | receive oracle sock chunk =>
      have threads : ∀ model, serve oracle sock chunk (remodel model server) =
          { handleClient oracle sock chunk server with
            server := remodel model (handleClient oracle sock chunk server).server } := by
        intro model
        rw [← client_remodelled]
        cases model with
        | threaded => rfl
        | eventLoop => exact serve_same (remodel .eventLoop server) seated oracle sock chunk possible.1
      have here : serve oracle sock chunk server = _ := threads server.config.concurrencyModel
      simp only [stepServer, threads model, here]
      rfl

/-- A new connection finds a slot. -/
def Finds (server : Server) : ServerStep → Prop
  | .connect _ _ => none ∈ server.clientList
  | _ => True

theorem step_seated (server : Server) (wf : Wellformed server) (seated : Seated server) (step : ServerStep)
    (possible : Possible server step) (finds : Finds server step) : Seated (next server step) := by
  cases step with
  | connect ptr socket =>
      have free : none ∈ server.clientList := finds
      simpa [Seated, next, stepServer, connectClient, free] using seated
  | sweep now => exact seated
  | autoSave now saveNow io =>
      simp only [next, stepServer, autoSave]
      split
      · split <;> exact seated
      · exact seated
  | replication oracle received connect =>
      have same := replication_same_clients oracle received connect server wf possible
      exact same.unlisted.trans seated
  | receive oracle sock chunk =>
      have served := serve_cases oracle sock chunk server
      simp only [next, stepServer]
      generalize serve oracle sock chunk server = reading at served
      cases served with
      | closed client =>
          have none : server.unlisted = [] := seated
          simp [Seated, disconnectClient, none]
      | dropped =>
          have none : server.unlisted = [] := seated
          simp [Seated, none]
      | absent => exact seated
      | read client member =>
          rw [read_executes oracle client chunk server wf member possible.2]
          obtain ⟨-, fixed⟩ := execute_sound oracle client.socket (client.buffer ++ chunk) server
            (wf.input_short client member chunk possible.2) wf.queueable wf.sound
          exact (congrArg Prod.fst fixed).trans seated

end Steps

section Example

set_option maxRecDepth 4000

def countsTwice : List ServerStep :=
  [.connect 1 7, .receive (calm 0) 7 (ascii "INCR n\r\n"), .receive (calm 0) 7 (ascii "MULTI\r\n"),
    .receive (calm 0) 7 (ascii "INCR n\r\n"), .receive (calm 0) 7 (ascii "EXEC\r\n"), .receive (calm 0) 7 []]

theorem counts_twice_admitted :
    Admitted (fun server step => Possible server step ∧ Finds server step) next emptyServer countsTwice :=
  ⟨⟨empty_connects, show none ∈ emptyServer.clientList by decide⟩, ⟨⟨one_client_open, by decide⟩, trivial⟩,
    ⟨⟨by decide, by decide⟩, trivial⟩, ⟨⟨by decide, by decide⟩, trivial⟩,
    ⟨⟨by decide, by decide⟩, trivial⟩, ⟨⟨by decide, by decide⟩, trivial⟩, trivial⟩

end Example

end CrimsonCache.ConcurrencyModels
