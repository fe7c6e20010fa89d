import CrimsonCache.AlikeDatabases
import CrimsonCache.DelayedReplication
import CrimsonCache.ExecLoop

/-!
Two servers that run the same commands and sweep at different times. What the
sweeps leave apart are entries whose deadline has passed, and the servers answer
alike as long as no command answers for such an entry.
-/

namespace CrimsonCache.SweepVisibility

open CString Dictionary DeadlineMap Persistence Replies Transaction Pubsub Replication Tokenizer
  ServerState DataCommands StoredData Commands TransactionSteps Connections ReplicationThread
  ServerRuns LiveContents ExecLoop DelayedReplication AlikeDatabases Runs

section Servers

/-- What a client may hear of: everything but the writes to the replicas and the forks. -/
def audible : Event → Bool
  | .replicaWrite _ _ _ => false
  | .forked _ => false
  | _ => true

def heard (events : List Event) : List Event := events.filter audible

@[simp] theorem heard_append (left right : List Event) :
    heard (left ++ right) = heard left ++ heard right := List.filter_append ..

theorem heard_executing (sock : Int) (input : Bytes) (events : List Event) :
    heard (.executing sock input :: events) = .executing sock input :: heard events := rfl

/-- The same server with another database and other files. -/
def restock (db : Dict) (files : Files) (server : Server) : Server :=
  { server with db := db, files := files }

@[simp] theorem restock_repl (db : Dict) (files : Files) (server : Server) :
    (restock db files server).repl = server.repl := rfl

@[simp] theorem restock_config (db : Dict) (files : Files) (server : Server) :
    (restock db files server).config = server.config := rfl

@[simp] theorem restock_channels (db : Dict) (files : Files) (server : Server) :
    (restock db files server).channels = server.channels := rfl

@[simp] theorem restock_find (db : Dict) (files : Files) (server : Server) (sock : Int) :
    findClient sock (restock db files server) = findClient sock server := rfl

def restocked (db : Dict) (files : Files) (outcome : Outcome) : Outcome :=
  { outcome with server := restock db files outcome.server }

/-- The servers differ in the database and the files only, and the databases are alike. -/
structure ServersAlike (now : Nat) (server other : Server) : Prop where
  dbs : Alike now server.db other.db
  rest : other = restock other.db other.files server

structure OutcomesAlike (now : Nat) (outcome other : Outcome) : Prop where
  heard : heard outcome.events = heard other.events
  result : outcome.result = other.result
  servers : ServersAlike now outcome.server other.server

theorem restocked_alike {now : Nat} (db : Dict) (files : Files) (outcome : Outcome)
    (dbs : Alike now outcome.server.db db) : OutcomesAlike now outcome (restocked db files outcome) :=
  ⟨rfl, rfl, dbs, rfl⟩

theorem answered_alike {now : Nat} (server other : Server) (alike : ServersAlike now server other)
    (sock : Int) (answer answerOther : Answer) (answers : AnswersAlike now answer answerOther) :
    OutcomesAlike now (answered server sock answer) (answered other sock answerOther) := by
  refine ⟨?_, answers.result, answers.dbs, ?_⟩
  · simp only [answered, answers.reply]
  · simp only [answered]
    rw [alike.rest]
    rfl

/-- Handlers that have nothing to do with the database. -/
def stockless : Command → Bool
  | .ping | .replicaof | .role | .multi | .discard | .subscribe | .unsubscribe | .publish => true
  | _ => false

theorem stockless_restock (execute : Nat → Bytes → Server → Outcome) (env : Env) (sock : Int)
    (argv : List Bytes) (server : Server) (db : Dict) (files : Files) (command : Command)
    (apart : stockless command = true) :
    runHandler execute env sock argv (restock db files server) command =
      restocked db files (runHandler execute env sock argv server command) := by
  cases command with
  | set | get | del | exist | expire | ttl | incr | save | bgsave | replconf | exec => cases apart
  | role => rfl
  | ping | publish =>
      simp only [runHandler, pingCommand, publishCommand, restock_channels,
        apply_ite (restocked db files)]
      rfl
  | replicaof =>
      simp only [runHandler, replicaofCommand, restock_repl, restock_config,
        apply_ite (restocked db files)]
      rfl
  | multi =>
      simp only [runHandler, multiCommand, restock_find]
      cases findClient sock server with
      | none => rfl
      | some client =>
          dsimp only
          cases client.inTransaction <;> rfl
  | discard =>
      simp only [runHandler, discardCommand, restock_find]
      cases findClient sock server with
      | none => rfl
      | some client =>
          dsimp only
          cases client.inTransaction <;> rfl
  | subscribe =>
      simp only [runHandler, subscribeCommand, restock_find]
      cases findClient sock server <;> rfl
  | unsubscribe =>
      simp only [runHandler, unsubscribeCommand, restock_find]
      cases findClient sock server <;> rfl

theorem stockless_db (execute : Nat → Bytes → Server → Outcome) (env : Env) (sock : Int)
    (argv : List Bytes) (server : Server) (command : Command) (apart : stockless command = true) :
    (runHandler execute env sock argv server command).server.db = server.db := by
  cases command with
  | set | get | del | exist | expire | ttl | incr | save | bgsave | replconf | exec => cases apart
  | ping | replicaof | role | multi | discard | subscribe | unsubscribe | publish =>
      exact (handler_untouched execute env sock argv server _ (by decide)).db rfl

theorem sync_unheard (env : Nat → SyncEnv) (fd : Int) (entries : List DictEntry) :
    heard (syncEntries fd env entries) = [] := by
  induction entries generalizing env with
  | nil => rfl
  | cons entry rest ih =>
      have first : heard (syncEntry (env 0) fd entry) = [] := by
        simp only [syncEntry, syncExpire]
        split
        · rfl
        · split
          · split
            · split
              · split <;> rfl
              · rfl
            · rfl
          · rfl
      rw [syncEntries, heard_append, first, ih, List.nil_append]

/-- Every handler but that of EXEC answers the two servers alike. -/
theorem handler_alike {now : Nat} (execute : Nat → Bytes → Server → Outcome) (env : Env)
    (passed : ∀ index, now ≤ env.clock index) (sock : Int) (argv : List Bytes)
    (plain : ∀ token ∈ argv, Plain token) (server other : Server)
    (alike : ServersAlike now server other) (command : Command) (direct : command ≠ .exec)
    (meets : Meets env argv (mapping server.db) command)
    (meetsOther : Meets env argv (mapping other.db) command) :
    OutcomesAlike now (runHandler execute env sock argv server command)
      (runHandler execute env sock argv other command) := by
  cases command with
  | exec => exact absurd rfl direct
  | ping | replicaof | role | multi | discard | subscribe | unsubscribe | publish =>
      rw [alike.rest, stockless_restock execute env sock argv server _ _ _ rfl]
      apply restocked_alike
      rw [stockless_db execute env sock argv server _ rfl]
      exact alike.dbs
  | set =>
      apply answered_alike server other alike
      apply store_string_alike now env 1 _ _ alike.dbs _ _ (plain_arg argv plain 1)
        (plain_arg argv plain 2) _ (set_expire_bound env argv)
      rcases meets with allocated | fresh
      · exact Or.inl allocated
      · rcases meetsOther with allocated | freshOther
        · exact Or.inl allocated
        · exact Or.inr (alike.dbs.absent (passed 0) _ fresh freshOther)
  | del =>
      apply answered_alike server other alike
      obtain ⟨counts, after⟩ := delete_keys_alike now (env.clock 0) (passed 0) argv.tail server.db
        other.db alike.dbs meets meetsOther
      exact ⟨by simp only [delCommand, counts], rfl, after⟩
  | exist =>
      apply answered_alike server other alike
      obtain ⟨counts, after⟩ := exists_keys_alike now env.clock passed argv.tail server.db other.db
        alike.dbs
      exact ⟨by simp only [existsCommand, counts], rfl, after⟩
  | get =>
      exact answered_alike server other alike sock _ _
        (get_command_alike now env passed argv _ _ alike.dbs)
  | expire =>
      exact answered_alike server other alike sock _ _ (expire_alike now env passed argv _ _ alike.dbs)
  | ttl =>
      exact answered_alike server other alike sock _ _ (ttl_alike now env passed argv _ _ alike.dbs)
  | incr =>
      exact answered_alike server other alike sock _ _
        (incr_alike now env passed argv plain _ _ alike.dbs)
  | save =>
      have result := save_result_alike alike.dbs env.save (env.clock 0) (passed 0) dumpRdb
        server.files other.files
      simp only [runHandler, saveCommand, ← result]
      split
      · refine ⟨rfl, rfl, alike.dbs, ?_⟩
        rw [alike.rest]
        rfl
      · refine ⟨rfl, rfl, alike.dbs, ?_⟩
        rw [alike.rest]
        rfl
  | bgsave =>
      simp only [runHandler, bgsaveCommand]
      split
      · exact ⟨rfl, rfl, alike⟩
      · exact ⟨rfl, rfl, alike⟩
  | replconf =>
      have repl : other.repl = server.repl := by
        rw [alike.rest]
        rfl
      simp only [runHandler, replconfCommand, addReplica, repl]
      split
      · split
        · refine ⟨?_, rfl, alike.dbs, ?_⟩
          · simp only [heard_append, syncReplica, sync_unheard]
          · rw [alike.rest]
            rfl
        · refine ⟨rfl, rfl, alike.dbs, ?_⟩
          rw [alike.rest]
          rfl
      · exact ⟨rfl, rfl, alike⟩

end Servers

section Execution

variable {now : Nat}

theorem ServersAlike.inTransaction {server other : Server} (alike : ServersAlike now server other)
    (sock : Int) : inTransaction sock other = inTransaction sock server := by
  rw [alike.rest]
  rfl

theorem ServersAlike.find {server other : Server} (alike : ServersAlike now server other)
    (sock : Int) : findClient sock other = findClient sock server := by
  rw [alike.rest]
  rfl

theorem ServersAlike.modify {server other : Server} (alike : ServersAlike now server other)
    (sock : Int) (change : Client → Client) :
    ServersAlike now (modifyClient sock change server) (modifyClient sock change other) := by
  refine ⟨alike.dbs, ?_⟩
  rw [alike.rest]
  rfl

theorem propagate_alike (env : Env) (sock : Int) (input name : Bytes) (outcome other : Outcome)
    (alike : OutcomesAlike now outcome other) :
    OutcomesAlike now (propagate env sock input name outcome) (propagate env sock input name other) := by
  have repl : other.server.repl = outcome.server.repl := by
    rw [alike.servers.rest]
    rfl
  have goes : propagated sock name other = propagated sock name outcome := by
    simp only [propagated, ← alike.result, alike.servers.inTransaction, repl]
  simp only [propagate_eq, goes]
  split
  · refine ⟨?_, alike.result, alike.servers.dbs, ?_⟩
    · simp only [heard_append, alike.heard, fedEvents, repl]
    · simp only [fedServer, repl]
      rw [alike.servers.rest]
      rfl
  · exact alike

/-- A call answers alike if the handler that it gets to does. -/
theorem execute_with_alike (execute : Nat → Bytes → Server → Outcome) (env : Env) (sock : Int)
    (buffer : Bytes) (server other : Server) (alike : ServersAlike now server other)
    (ran : ∀ row, acceptedRow (tokens (cstr buffer)) = some row →
      (inTransaction sock server = true → isTxCommand (commandName (cstr buffer)) = true) →
      env.alloc .inputCopy = true → env.alloc .tokens = true →
      OutcomesAlike now (runHandler execute env sock (lower (tokens (cstr buffer))) server row.command)
        (runHandler execute env sock (lower (tokens (cstr buffer))) other row.command)) :
    OutcomesAlike now (executeWith execute env sock buffer server)
      (executeWith execute env sock buffer other) := by
  simp only [executeWith, alike.inTransaction]
  split
  case isFalse => exact ⟨rfl, rfl, alike⟩
  case isTrue copied =>
    split
    case h_1 => exact ⟨rfl, rfl, alike⟩
    case h_2 => exact ⟨rfl, rfl, alike⟩
    case h_3 argv _ tokenized =>
      have whole : env.alloc .tokens = true ∧ tokens (cstr buffer) = argv := by
        simp only [tokenizeCommand] at tokenized
        split at tokenized
        case isTrue allocated => exact ⟨allocated, Option.some.inj tokenized⟩
        case isFalse => simp at tokenized
      obtain ⟨allocated, rfl⟩ := whole
      split
      case isTrue queues =>
        simp only [queueInput, alike.find]
        split
        · exact ⟨rfl, rfl, alike⟩
        · split
          · exact ⟨rfl, rfl, alike.modify _ _⟩
          · exact ⟨rfl, rfl, alike.modify _ _⟩
      case isFalse goes =>
        apply propagate_alike
        simp only [dispatch]
        cases found : commands.find? (·.name = arg (lower (tokens (cstr buffer))) 0) with
        | none => exact ⟨rfl, rfl, alike⟩
        | some row =>
            dsimp only
            split
            case isTrue => exact ⟨rfl, rfl, alike⟩
            case isFalse arity =>
              rw [lower_length] at arity
              have accepted : acceptedRow (tokens (cstr buffer)) = some row := by
                simp [acceptedRow, found, Option.filter, arity]
              refine ran row accepted (fun inside => ?_) copied allocated
              simpa [inside, commandName] using goes

/-- What one input meets on its way: a DEL or a SET as `Meets` allows them. -/
def Spared (sock : Int) (run : HandlerRun) : Prop :=
  inTransaction sock run.server = false →
    ∀ row, acceptedRow (tokens run.input) = some row →
      Meets run.env (lower (tokens run.input)) (mapping run.server.db) row.command

theorem accepted_mem (words : List Bytes) (row : CommandDef) (accepted : acceptedRow words = some row) :
    row ∈ commands ∧ row.name = arg (lower words) 0 := by
  obtain ⟨found, -⟩ := Option.filter_eq_some_iff.mp accepted
  exact ⟨List.mem_of_find?_eq_some found, by simpa using List.find?_some found⟩

/-- A transaction command meets nothing. -/
theorem tx_meets (env : Env) (argv : List Bytes) (m : Mapping) (row : CommandDef)
    (member : row ∈ commands) (tx : isTxCommand row.name = true) : Meets env argv m row.command := by
  rcases (tx_rows row member tx).1 with same | same | same <;> rw [same] <;> trivial

/-- An input that is not EXEC. -/
theorem direct_alike (execute : Nat → Bytes → Server → Outcome) (env : Env)
    (passed : ∀ index, now ≤ env.clock index) (sock : Int) (buffer : Bytes)
    (plain : Plain (cstr buffer)) (ordinary : lower (tokens (cstr buffer)) ≠ [ascii "exec"])
    (server other : Server) (alike : ServersAlike now server other) (outcome outcomeOther : Outcome)
    (spared : Spared sock ⟨env, server, cstr buffer, outcome⟩)
    (sparedOther : Spared sock ⟨env, other, cstr buffer, outcomeOther⟩) :
    OutcomesAlike now (executeWith execute env sock buffer server)
      (executeWith execute env sock buffer other) := by
  apply execute_with_alike execute env sock buffer server other alike
  intro row accepted allowed _ _
  obtain ⟨member, named⟩ := accepted_mem _ row accepted
  have met : Meets env (lower (tokens (cstr buffer))) (mapping server.db) row.command ∧
      Meets env (lower (tokens (cstr buffer))) (mapping other.db) row.command := by
    cases inside : inTransaction sock server with
    | false =>
        exact ⟨spared inside row accepted,
          sparedOther ((alike.inTransaction sock).trans inside) row accepted⟩
    | true =>
        have tx : isTxCommand row.name = true := named ▸ allowed inside
        exact ⟨tx_meets _ _ _ row member tx, tx_meets _ _ _ row member tx⟩
  apply handler_alike execute env passed sock _ (lower_plain _ (tokens_plain _ plain)) server other
    alike row.command ?_ met.1 met.2
  intro exec
  have arity : wrongArity row (tokens (cstr buffer)).length = false := by
    simpa using (Option.filter_eq_some_iff.mp accepted).2
  exact ordinary (exec_alone row member exec (tokens (cstr buffer)) arity named)

theorem queued_alike (oracle : Oracle) (passed : ∀ path index, now ≤ (oracle path).clock index)
    (sock : Int) (cmds : List Bytes) (queueable : ∀ cmd ∈ cmds, Queueable cmd) (index : Nat)
    (server other : Server) (alike : ServersAlike now server other)
    (spared : ∀ run ∈ queuedRuns oracle sock index cmds server, Spared sock run)
    (sparedOther : ∀ run ∈ queuedRuns oracle sock index cmds other, Spared sock run) :
    let execute := fun index cmd server => executeCommandAt 0 (oracle.inner index) sock cmd server
    heard (runQueued execute sock index cmds server).2 =
        heard (runQueued execute sock index cmds other).2 ∧
      ServersAlike now (runQueued execute sock index cmds server).1
        (runQueued execute sock index cmds other).1 := by
  induction cmds generalizing index server other with
  | nil => exact ⟨rfl, alike⟩
  | cons cmd rest ih =>
      have proper := queueable cmd List.mem_cons_self
      have text : cstr cmd = cmd := cstr_of_nul_free cmd proper.plain.free
      simp only [queuedRuns, List.forall_mem_cons] at spared sparedOther
      have ordinary : lower (tokens (cstr cmd)) ≠ [ascii "exec"] := by
        rw [text]
        exact (queued_run_sound oracle sock cmd proper server alike.dbs.sound).2.1
      have first := direct_alike (fun _ _ server => ⟨server, [], .unknown⟩) (oracle.inner index [])
        (passed [index]) sock cmd (text.symm ▸ proper.plain) ordinary server other alike
        (executeCommandAt 0 (oracle.inner index) sock cmd server)
        (executeCommandAt 0 (oracle.inner index) sock cmd other)
        (text.symm ▸ spared.1) (text.symm ▸ sparedOther.1)
      obtain ⟨events, last⟩ := ih (fun later member => queueable later (List.mem_cons_of_mem cmd member))
        (index + 1) _ _ first.servers spared.2 sparedOther.2
      simp only [runQueued]
      constructor
      · rw [heard_append, heard_append, heard_executing, heard_executing]
        exact congrArg₂ (· ++ ·) (congrArg (.executing sock cmd :: ·) first.heard) events
      · exact last

theorem exec_of_name : ∀ row ∈ commands, row.name = ascii "exec" → row.command = .exec := by decide

/-- A whole call, with what it runs in the loop of EXEC. -/
theorem execute_alike (oracle : Oracle) (passed : ∀ path index, now ≤ (oracle path).clock index)
    (sock : Int) (buffer : Bytes) (short : buffer.length < 2 ^ 31) (server other : Server)
    (queueable : ∀ client ∈ listed server.clientList, ∀ cmd ∈ client.queuedCommands, Queueable cmd)
    (alike : ServersAlike now server other)
    (spared : ∀ run ∈ handlerRuns oracle sock buffer server, Spared sock run)
    (sparedOther : ∀ run ∈ handlerRuns oracle sock buffer other, Spared sock run) :
    OutcomesAlike now (executeCommand oracle sock buffer server)
      (executeCommand oracle sock buffer other) := by
  have plain := cstr_plain buffer short
  by_cases exec : lower (tokens (cstr buffer)) = [ascii "exec"]
  · simp only [handlerRuns, exec, ↓reduceIte, execRuns, execQueue, alike.find] at spared sparedOther
    apply execute_with_alike _ _ sock buffer server other alike
    intro row accepted _ copied tokenized
    obtain ⟨member, named⟩ := accepted_mem _ row accepted
    have isExec : row.command = .exec := exec_of_name row member (by rw [named, exec]; rfl)
    simp only [isExec, runHandler, execCommand, alike.find]
    cases found : findClient sock server with
    | none => exact ⟨rfl, rfl, alike⟩
    | some client =>
        obtain ⟨listedClient, socket⟩ := get_mem sock server.clientList client found
        dsimp only
        cases inside : client.inTransaction with
        | false => exact ⟨rfl, rfl, alike⟩
        | true =>
            simp only [↓reduceIte, txExecuteCommands, socket]
            cases errors : client.transactionErrors with
            | true => exact ⟨rfl, rfl, (alike.modify sock txCleanup).modify sock leaveTransaction⟩
            | false =>
                cases allocated : (oracle []).alloc .txCommands with
                | false => exact ⟨rfl, rfl, (alike.modify sock txCleanup).modify sock leaveTransaction⟩
                | true =>
                    have taken : (client.inTransaction && !client.transactionErrors &&
                        (oracle []).alloc .inputCopy && (oracle []).alloc .tokens &&
                        (oracle []).alloc .txCommands) = true := by
                      simp [inside, errors, copied, tokenized, allocated]
                    simp only [found, taken, ↓reduceIte] at spared sparedOther
                    obtain ⟨events, last⟩ := queued_alike oracle passed sock client.queuedCommands
                      (queueable client listedClient) 0 _ _ (alike.modify sock txCleanup) spared
                      sparedOther
                    refine ⟨?_, rfl, last.modify sock leaveTransaction⟩
                    exact congrArg (.write sock (arrayHeader client.queuedCommands.length) :: ·) events
  · simp only [handlerRuns, exec, ↓reduceIte, List.forall_mem_singleton] at spared sparedOther
    exact direct_alike _ _ (passed []) sock buffer plain exec server other alike _ _ spared sparedOther

end Execution

section Steps

variable {now : Nat}

/-- No handler that the input of a read gets to meets a stale key that it would answer for. -/
def StepSpared (server : Server) : ServerStep → Prop
  | .receive oracle sock chunk =>
      ∀ input ∈ (serve oracle sock chunk server).passed,
        ∀ run ∈ handlerRuns oracle sock input server, Spared sock run
  | _ => True

/-- The readings of the clock that a step makes. -/
def Reads (reading : Nat) : ServerStep → Prop
  | .connect _ _ => False
  | .receive oracle _ _ => ∃ path index, (oracle path).clock index = reading
  | .replication oracle _ _ => ∃ line path index, (oracle line path).clock index = reading
  | .sweep now => now = reading
  | .autoSave now saveNow _ => now = reading ∨ saveNow = reading

def fromClient : ServerStep → Bool
  | .connect _ _ => true
  | .receive _ _ _ => true
  | _ => false

def isSweep : ServerStep → Bool
  | .sweep _ => true
  | _ => false

theorem read_alike (oracle : Oracle) (passed : ∀ path index, now ≤ (oracle path).clock index)
    (client : Client) (chunk : Bytes) (server other : Server) (wf : Wellformed server)
    (short : (client.buffer ++ chunk).length < 2 ^ 31) (alike : ServersAlike now server other)
    (spared : ∀ run ∈ handlerRuns oracle client.socket (client.buffer ++ chunk) server,
      Spared client.socket run)
    (sparedOther : ∀ run ∈ handlerRuns oracle client.socket (client.buffer ++ chunk) other,
      Spared client.socket run) :
    heard (readInput oracle client chunk server).events =
        heard (readInput oracle client chunk other).events ∧
      ServersAlike now (readInput oracle client chunk server).server
        (readInput oracle client chunk other).server := by
  have ran := execute_alike oracle passed client.socket (client.buffer ++ chunk) short server other
    wf.queueable alike spared sparedOther
  refine ⟨ran.heard, ran.servers.dbs, ?_⟩
  simp only [readInput]
  rw [ran.servers.rest]
  rfl

theorem disconnect_alike (client : Client) (server other : Server)
    (alike : ServersAlike now server other) :
    ServersAlike now (disconnectClient client server).1 (disconnectClient client other).1 := by
  refine ⟨alike.dbs, ?_⟩
  rw [alike.rest]
  rfl

theorem serve_alike (oracle : Oracle) (passed : ∀ path index, now ≤ (oracle path).clock index)
    (sock : Int) (chunk : Bytes) (server other : Server) (wf : Wellformed server)
    (fits : chunk.length < server.config.bufferSize) (alike : ServersAlike now server other)
    (spared : StepSpared server (.receive oracle sock chunk))
    (sparedOther : StepSpared other (.receive oracle sock chunk)) :
    heard (serve oracle sock chunk server).events = heard (serve oracle sock chunk other).events ∧
      ServersAlike now (serve oracle sock chunk server).server
        (serve oracle sock chunk other).server := by
  have config : other.config = server.config := by
    rw [alike.rest]
    rfl
  have opened : openClient sock other = openClient sock server := by
    rw [alike.rest]
    rfl
  have short (client : Client) (member : client ∈ openClients server) :
      (client.buffer ++ chunk).length < 2 ^ 31 := wf.input_short client member chunk fits
  simp only [StepSpared, serve, config] at spared sparedOther ⊢
  cases model : server.config.concurrencyModel with
  | threaded =>
      simp only [model, handleClient, opened] at spared sparedOther ⊢
      cases found : openClient sock server with
      | none => exact ⟨rfl, alike⟩
      | some client =>
          obtain ⟨member, rfl⟩ := open_client_mem sock server client found
          simp only [found] at spared sparedOther ⊢
          split
          case isTrue => exact ⟨rfl, disconnect_alike client server other alike⟩
          case isFalse more =>
            simp only [more, ↓reduceIte, readInput, List.forall_mem_singleton] at spared sparedOther
            exact read_alike oracle passed client chunk server other wf (short client member) alike
              spared sparedOther
  | eventLoop =>
      simp only [model, handleClientMessage, alike.find] at spared sparedOther ⊢
      cases found : findClient sock server with
      | none =>
          refine ⟨rfl, alike.dbs, ?_⟩
          dsimp only
          rw [alike.rest]
          rfl
      | some client =>
          obtain ⟨member, rfl⟩ := get_mem sock server.clientList client found
          simp only [found] at spared sparedOther ⊢
          split
          case isTrue => exact ⟨rfl, disconnect_alike client server other alike⟩
          case isFalse more =>
            simp only [more, ↓reduceIte, readInput, List.forall_mem_singleton] at spared sparedOther
            exact read_alike oracle passed client chunk server other wf
              (short client (List.mem_append_left _ member)) alike spared sparedOther

theorem client_alike (step : ServerStep) (client : fromClient step = true) (server other : Server)
    (wf : Wellformed server) (alike : ServersAlike now server other)
    (passed : ∀ reading, Reads reading step → now ≤ reading) (possible : Possible server step)
    (spared : StepSpared server step) (sparedOther : StepSpared other step) :
    heard (stepServer server step).2 = heard (stepServer other step).2 ∧
      ServersAlike now (next server step) (next other step) := by
  cases step with
  | replication | sweep | autoSave => cases client
  | connect ptr socket =>
      refine ⟨rfl, alike.dbs, ?_⟩
      simp only [next, stepServer]
      rw [alike.rest]
      rfl
  | receive oracle sock chunk =>
      exact serve_alike oracle (fun path index => passed _ ⟨path, index, rfl⟩) sock chunk server other wf
        possible.2 alike spared sparedOther

/-- A sweep moves the time from which on the two servers are alike. -/
theorem sweep_alike (clock : Nat) (server other : Server) (alike : ServersAlike now server other) :
    ServersAlike (max now clock) (cleanupExpiredKeys clock server) other := by
  have later := alike.dbs.later (Nat.le_max_left now clock)
  refine ⟨⟨clear_expired_sound clock server.db alike.dbs.sound, alike.dbs.soundOther, ?_⟩, alike.rest⟩
  rw [← later.live]
  simp only [liveMapping, cleanupExpiredKeys, mapping_clear_expired clock server.db alike.dbs.sound.rep]
  exact sweep_passed clock (max now clock) (Nat.le_max_right now clock) (mapping server.db)

theorem ServersAlike.symm {server other : Server} (alike : ServersAlike now server other) :
    ServersAlike now other server := by
  refine ⟨⟨alike.dbs.soundOther, alike.dbs.sound, alike.dbs.live.symm⟩, ?_⟩
  rw [alike.rest]
  rfl

theorem ServersAlike.refl (server : Server) (sound : Sound server.db) :
    ServersAlike now server server := ⟨⟨sound, sound, rfl⟩, rfl⟩

end Steps

section Runs

/-- The clock never runs backwards from one step to a later one. -/
def Nondecreasing (steps : List ServerStep) : Prop :=
  steps.Pairwise fun earlier later =>
    ∀ before after, Reads before earlier → Reads after later → before ≤ after

/-- Two lists of steps with the same commands in them. -/
inductive Aligned : List ServerStep → List ServerStep → Prop where
  | done : Aligned [] []
  | command (step : ServerStep) (client : fromClient step = true) {first second : List ServerStep}
      (rest : Aligned first second) : Aligned (step :: first) (step :: second)
  | left (clock : Nat) {first second : List ServerStep} (rest : Aligned first second) :
      Aligned (.sweep clock :: first) second
  | right (clock : Nat) {first second : List ServerStep} (rest : Aligned first second) :
      Aligned first (.sweep clock :: second)

theorem sweep_of_step (step : ServerStep) (kind : (fromClient step || isSweep step) = true)
    (apart : fromClient step = false) : ∃ clock, step = .sweep clock := by
  cases step with
  | sweep clock => exact ⟨clock, rfl⟩
  | connect | receive | replication | autoSave => simp_all [fromClient, isSweep]

theorem aligned_of_commands (first second : List ServerStep)
    (kinds : ∀ step ∈ first, (fromClient step || isSweep step) = true)
    (kindsOther : ∀ step ∈ second, (fromClient step || isSweep step) = true)
    (same : first.filter fromClient = second.filter fromClient) : Aligned first second := by
  induction first generalizing second with
  | nil =>
      induction second with
      | nil => exact .done
      | cons step rest ih =>
          rw [List.forall_mem_cons] at kindsOther
          cases client : fromClient step with
          | true => simp [client] at same
          | false =>
              obtain ⟨clock, rfl⟩ := sweep_of_step step kindsOther.1 client
              exact .right clock (ih kindsOther.2 (by simpa [fromClient] using same))
  | cons step rest ih =>
      rw [List.forall_mem_cons] at kinds
      cases client : fromClient step with
      | false =>
          obtain ⟨clock, rfl⟩ := sweep_of_step step kinds.1 client
          exact .left clock (ih second kinds.2 kindsOther (by simpa [fromClient] using same))
      | true =>
          induction second with
          | nil => simp [client] at same
          | cons other later inner =>
              rw [List.forall_mem_cons] at kindsOther
              cases clientOther : fromClient other with
              | false =>
                  obtain ⟨clock, rfl⟩ := sweep_of_step other kindsOther.1 clientOther
                  exact .right clock (inner kindsOther.2 (by simpa [fromClient] using same))
              | true =>
                  simp only [List.filter_cons, client, clientOther, ↓reduceIte, List.cons.injEq] at same
                  obtain ⟨rfl, rest⟩ := same
                  exact .command step client (ih later kinds.2 kindsOther.2 rest)

theorem Aligned.commands {first second : List ServerStep} (aligned : Aligned first second) :
    first.filter fromClient = second.filter fromClient := by
  induction aligned with
  | done => rfl
  | command step client rest ih => simp [client, ih]
  | left clock rest ih => simpa [fromClient] using ih
  | right clock rest ih => simpa [fromClient] using ih

/-- What is heard in a run, without what the sweeps do. -/
def replies (server : Server) (steps : List ServerStep) : List Event :=
  outputs next (fun server step => heard (stepServer server step).2) server steps

theorem runs_alike (first second : List ServerStep) (aligned : Aligned first second) (now : Nat)
    (server other : Server) (wf : Wellformed server) (wfOther : Wellformed other)
    (alike : ServersAlike now server other) (ordered : Nondecreasing first)
    (orderedOther : Nondecreasing second)
    (passed : ∀ step ∈ first.filter fromClient, ∀ reading, Reads reading step → now ≤ reading)
    (admitted : Admitted (fun server step => Possible server step ∧ StepSpared server step) next
      server first)
    (admittedOther : Admitted (fun server step => Possible server step ∧ StepSpared server step) next
      other second) :
    replies server first = replies other second ∧
      ∀ later, now ≤ later → (∀ step ∈ first ++ second, ∀ reading, Reads reading step →
          reading ≤ later) →
        ServersAlike later (run next server first) (run next other second) := by
  induction aligned generalizing now server other with
  | done => exact ⟨rfl, fun later reached _ => ⟨alike.dbs.later reached, alike.rest⟩⟩
  | command step client rest ih =>
      rcases admitted with ⟨⟨possible, spared⟩, admitted⟩
      rcases admittedOther with ⟨⟨possibleOther, sparedOther⟩, admittedOther⟩
      simp only [List.filter_cons, client, ↓reduceIte, List.forall_mem_cons] at passed
      obtain ⟨same, after⟩ := client_alike step client server other wf alike passed.1 possible spared
        sparedOther
      obtain ⟨events, ends⟩ := ih now _ _ (next_wellformed server step wf possible)
        (next_wellformed other step wfOther possibleOther) after (List.pairwise_cons.mp ordered).2
        (List.pairwise_cons.mp orderedOther).2 passed.2 admitted admittedOther
      refine ⟨congrArg₂ (· ++ ·) same events, fun later reached bound => ends later reached ?_⟩
      intro taken member
      apply bound taken
      simp only [List.mem_append, List.mem_cons] at member ⊢
      tauto
  | @left clock first second rest ih =>
      obtain ⟨before, ordered⟩ := List.pairwise_cons.mp ordered
      have passed' : ∀ step ∈ first.filter fromClient, ∀ reading, Reads reading step →
          max now clock ≤ reading := by
        intro step member reading reads
        exact Nat.max_le.mpr ⟨passed step member reading reads,
          before step (List.mem_of_mem_filter member) clock reading rfl reads⟩
      obtain ⟨events, ends⟩ := ih (max now clock) _ _ (next_wellformed server _ wf admitted.1.1) wfOther
        (sweep_alike clock server other alike) ordered orderedOther passed' admitted.2 admittedOther
      refine ⟨events, fun later reached bound => ends later (Nat.max_le.mpr ⟨reached, ?_⟩) ?_⟩
      · exact bound (.sweep clock) List.mem_cons_self clock rfl
      · exact fun step member => bound step (List.mem_cons_of_mem _ member)
  | @right clock first second rest ih =>
      obtain ⟨before, orderedOther⟩ := List.pairwise_cons.mp orderedOther
      have passed' : ∀ step ∈ first.filter fromClient, ∀ reading, Reads reading step →
          max now clock ≤ reading := by
        intro step member reading reads
        have there := rest.commands ▸ member
        exact Nat.max_le.mpr ⟨passed step member reading reads,
          before step (List.mem_of_mem_filter there) clock reading rfl reads⟩
      obtain ⟨events, ends⟩ := ih (max now clock) _ _ wf
        (next_wellformed other _ wfOther admittedOther.1.1)
        (sweep_alike clock other server alike.symm).symm ordered orderedOther passed' admitted
        admittedOther.2
      refine ⟨events, fun later reached bound => ends later (Nat.max_le.mpr ⟨reached, ?_⟩) ?_⟩
      · exact bound (.sweep clock) (List.mem_append_right _ List.mem_cons_self) clock rfl
      · intro step member
        apply bound step
        simp only [List.mem_append, List.mem_cons] at member ⊢
        tauto

/-- Where the same commands meet sweeps at different times, the clients are answered alike and the
    databases show the same. -/
theorem sweeps_invisible (server : Server) (reachable : Reachable server)
    (first second : List ServerStep)
    (kinds : ∀ step ∈ first, (fromClient step || isSweep step) = true)
    (kindsOther : ∀ step ∈ second, (fromClient step || isSweep step) = true)
    (same : first.filter fromClient = second.filter fromClient) (ordered : Nondecreasing first)
    (orderedOther : Nondecreasing second)
    (admitted : Admitted (fun server step => Possible server step ∧ StepSpared server step) next
      server first)
    (admittedOther : Admitted (fun server step => Possible server step ∧ StepSpared server step) next
      server second) :
    replies server first = replies server second ∧
      ∀ now, (∀ step ∈ first ++ second, ∀ reading, Reads reading step → reading ≤ now) →
        liveMapping now (run next server first).db = liveMapping now (run next server second).db := by
  have wf := reachable_wellformed server reachable
  obtain ⟨events, ends⟩ := runs_alike first second (aligned_of_commands first second kinds kindsOther same)
    0 server server wf wf (ServersAlike.refl server wf.sound) ordered orderedOther
    (fun _ _ reading _ => Nat.zero_le reading) admitted admittedOther
  exact ⟨events, fun now bound => (ends now (Nat.zero_le now) bound).dbs.live⟩

end Runs

section Samples

/-- With memory for a new entry only DEL answers for stale keys. -/
theorem spared_without_del (sock : Int) (run : HandlerRun)
    (allocated : (run.env.dict.entry && run.env.dict.key) = true)
    (apart : commandName run.input ≠ ascii "del") : Spared sock run := by
  intro _ row accepted
  obtain ⟨member, named⟩ := accepted_mem _ row accepted
  have name : ∀ row ∈ commands, row.command = .del → row.name = ascii "del" := by decide
  cases kind : row.command with
  | del => exact absurd (named.symm.trans (name row member kind)) apart
  | set => exact Or.inl allocated
  | ping | get | exist | expire | ttl | save | bgsave | replicaof | role | incr | replconf | multi
  | exec | discard | subscribe | unsubscribe | publish => trivial

def getLate : ServerStep := .receive (calm 5) 7 (ascii "GET k\r\n")

def delLate : ServerStep := .receive (calm 5) 7 (ascii "DEL k\r\n")

theorem late_reads (input : Bytes) (reading : Nat) (reads : Reads reading (.receive (calm 5) 7 input)) :
    reading = 5 := by
  obtain ⟨path, index, same⟩ := reads
  exact same.symm

theorem swept_then_read (input : Bytes) : Nondecreasing [.sweep 5, .receive (calm 5) 7 input] := by
  simp only [Nondecreasing, List.pairwise_cons, List.mem_singleton, forall_eq, List.not_mem_nil,
    false_implies, implies_true, List.Pairwise.nil, and_self, and_true]
  intro before after reads later
  rw [late_reads input after later]
  exact Nat.le_of_eq reads.symm

/-- Between reads the buffers are empty, so an input is what was read. -/
theorem passed_chunk (server : Server) (wf : Wellformed server) (oracle : Oracle) (sock : Int)
    (chunk : Bytes) : ∀ input ∈ (serve oracle sock chunk server).passed, input = chunk := by
  have served := serve_cases oracle sock chunk server
  generalize serve oracle sock chunk server = reading at served
  cases served with
  | closed | dropped | absent => simp
  | read client member => simp [readInput, wf.whole_input client member]

theorem get_spared (server : Server) (wf : Wellformed server) : StepSpared server getLate := by
  intro input passed run member
  obtain rfl := passed_chunk server wf (calm 5) 7 _ input passed
  have direct : lower (tokens (cstr (ascii "GET k\r\n"))) ≠ [ascii "exec"] := by decide
  simp only [handlerRuns, direct, ↓reduceIte, List.mem_singleton] at member
  have apart : commandName (cstr (ascii "GET k\r\n")) ≠ ascii "del" := by decide
  rw [member]
  exact spared_without_del 7 _ rfl apart

theorem late_get_unswept :
    replies (storing "SET k v PX 1\r\n") [.sweep 5, getLate] =
        replies (storing "SET k v PX 1\r\n") [getLate] ∧
      liveMapping 5 (run next (storing "SET k v PX 1\r\n") [.sweep 5, getLate]).db =
        liveMapping 5 (run next (storing "SET k v PX 1\r\n") [getLate]).db := by
  have reachable := storing_reachable "SET k v PX 1\r\n" (by decide)
  have wf := reachable_wellformed _ reachable
  have swept := next_wellformed _ (.sweep 5) wf trivial
  have unswept : Possible (storing "SET k v PX 1\r\n") getLate :=
    ⟨by decide +kernel, by decide +kernel⟩
  have after : Possible (next (storing "SET k v PX 1\r\n") (.sweep 5)) getLate :=
    ⟨by decide +kernel, by decide +kernel⟩
  obtain ⟨events, live⟩ := sweeps_invisible _ reachable [.sweep 5, getLate] [getLate]
    (by simp [fromClient, isSweep, getLate]) (by simp [fromClient, getLate]) rfl (swept_then_read _)
    (List.pairwise_singleton _ _) ⟨⟨trivial, trivial⟩, ⟨after, get_spared _ swept⟩, trivial⟩
    ⟨⟨unswept, get_spared _ wf⟩, trivial⟩
  refine ⟨events, live 5 ?_⟩
  intro step member reading reads
  simp only [List.cons_append, List.nil_append, List.mem_cons, List.not_mem_nil, or_false] at member
  rcases member with rfl | rfl | rfl
  · exact Nat.le_of_eq reads.symm
  · exact Nat.le_of_eq (late_reads _ reading reads)
  · exact Nat.le_of_eq (late_reads _ reading reads)

/-- A key that a sweep has taken is not counted by a DEL. -/
theorem swept_key_uncounted :
    Reachable (storing "SET k v PX 1\r\n") ∧ Nondecreasing [.sweep 5, delLate] ∧
      Nondecreasing [delLate] ∧
      Admitted Possible next (storing "SET k v PX 1\r\n") [.sweep 5, delLate] ∧
      Admitted Possible next (storing "SET k v PX 1\r\n") [delLate] ∧
      replies (storing "SET k v PX 1\r\n") [.sweep 5, delLate] ≠
        replies (storing "SET k v PX 1\r\n") [delLate] := by
  refine ⟨storing_reachable _ (by decide), swept_then_read _, List.pairwise_singleton _ _, ?_, ?_, ?_⟩
  · exact ⟨trivial, ⟨by decide +kernel, by decide +kernel⟩, trivial⟩
  · exact ⟨⟨by decide +kernel, by decide +kernel⟩, trivial⟩
  · decide +kernel

end Samples

end CrimsonCache.SweepVisibility
