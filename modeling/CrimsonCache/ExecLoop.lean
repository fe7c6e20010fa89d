import CrimsonCache.ServerRuns

/-!
The runs of handlers inside one call of `execute_command`. EXEC runs one after
the other in its loop; every other call runs one at most. An EXEC that does not
get to its loop ends with one error reply.
-/

namespace CrimsonCache.ExecLoop

open CString Replies Transaction Tokenizer ServerState DataCommands StoredData Commands TransactionSteps
  ServerRuns

/-- A run of one handler, with the world and the state it met. -/
structure HandlerRun where
  env : Env
  server : Server
  input : Bytes
  outcome : Outcome

/-- The runs of the loop of EXEC. -/
def queuedRuns (oracle : Oracle) (sock : Int) : Nat → List Bytes → Server → List HandlerRun
  | _, [], _ => []
  | index, cmd :: rest, server =>
      let outcome := executeCommandAt 0 (oracle.inner index) sock cmd server
      ⟨oracle.inner index [], server, cmd, outcome⟩ ::
        queuedRuns oracle sock (index + 1) rest outcome.server

/-- The queue that an EXEC runs, if it gets to its loop. -/
def execQueue (oracle : Oracle) (sock : Int) (server : Server) : Option (List Bytes) :=
  match findClient sock server with
  | none => none
  | some client =>
      if client.inTransaction && !client.transactionErrors && (oracle []).alloc .inputCopy &&
          (oracle []).alloc .tokens && (oracle []).alloc .txCommands then
        some client.queuedCommands
      else none

/-- The runs of an EXEC. -/
def execRuns (oracle : Oracle) (sock : Int) (server : Server) : List HandlerRun :=
  match execQueue oracle sock server with
  | none => []
  | some cmds => queuedRuns oracle sock 0 cmds (modifyClient sock txCleanup server)

/-- The runs of handlers other than EXEC's own in a call of `execute_command`. -/
def handlerRuns (oracle : Oracle) (sock : Int) (buffer : Bytes) (server : Server) :
    List HandlerRun :=
  if lower (tokens (cstr buffer)) = [ascii "exec"] then execRuns oracle sock server
  else [⟨oracle [], server, cstr buffer, executeCommand oracle sock buffer server⟩]

/-- What EXEC makes of its queue, in the state after the cleanup. -/
def queueOutcome (oracle : Oracle) (sock : Int) (cmds : List Bytes) (server : Server) :
    Server × List Event :=
  runQueued (fun index cmd server => executeCommandAt 0 (oracle.inner index) sock cmd server) sock 0
    cmds (modifyClient sock txCleanup server)

section Loop

theorem queued_runs_length (oracle : Oracle) (sock : Int) (index : Nat) (cmds : List Bytes)
    (server : Server) : (queuedRuns oracle sock index cmds server).length = cmds.length := by
  induction cmds generalizing index server with
  | nil => rfl
  | cons cmd rest ih => simp [queuedRuns, ih]

/-- The events of the loop are those of its runs. -/
theorem queued_runs_events (oracle : Oracle) (sock : Int) (index : Nat) (cmds : List Bytes)
    (server : Server) :
    (runQueued (fun index cmd server => executeCommandAt 0 (oracle.inner index) sock cmd server) sock
      index cmds server).2 =
      (queuedRuns oracle sock index cmds server).flatMap fun run =>
        .executing sock run.input :: run.outcome.events := by
  induction cmds generalizing index server with
  | nil => rfl
  | cons cmd rest ih => simp [queuedRuns, runQueued, ih]

/-- What each run establishes while it keeps an invariant, all of them establish. -/
theorem queued_runs_each (oracle : Oracle) (sock : Int) (Invariant : Server → Prop)
    (Holds : HandlerRun → Prop) (cmds : List Bytes)
    (each : ∀ index, ∀ cmd ∈ cmds, ∀ server, Invariant server →
      Holds ⟨oracle.inner index [], server, cmd,
          executeCommandAt 0 (oracle.inner index) sock cmd server⟩ ∧
        Invariant (executeCommandAt 0 (oracle.inner index) sock cmd server).server)
    (index : Nat) (server : Server) (holds : Invariant server) :
    ∀ run ∈ queuedRuns oracle sock index cmds server, Holds run := by
  induction cmds generalizing index server with
  | nil => simp [queuedRuns]
  | cons cmd rest ih =>
      obtain ⟨first, kept⟩ := each index cmd List.mem_cons_self server holds
      intro run member
      rcases List.mem_cons.mp member with rfl | later
      · exact first
      · exact ih (fun index other there => each index other (List.mem_cons_of_mem cmd there)) _ _ kept
          run later

/-- A queued input stays a text, is not EXEC and keeps the database sound. -/
theorem queued_run_sound (oracle : Oracle) (sock : Int) (cmd : Bytes) (queueable : Queueable cmd)
    (server : Server) (sound : Sound server.db) :
    cstr cmd = cmd ∧ lower (tokens cmd) ≠ [ascii "exec"] ∧
      Sound (executeCommandAt 0 oracle sock cmd server).server.db := by
  have text : cstr cmd = cmd := cstr_of_nul_free cmd queueable.plain.free
  refine ⟨text, ?_, ?_⟩
  · intro same
    have tx := queueable.direct
    rw [(alone_tx cmd _ same).2, exec_tx] at tx
    contradiction
  · refine (execute_with_sound (Fixed server) _ _ _ _ _ (text.symm ▸ queueable.plain) ?_
      ⟨sound, rfl⟩).1
    exact fun _ _ _ _ _ _ _ kept => kept

end Loop

section Exec

/-- The ends of an EXEC that does not get to its loop. -/
inductive ExecEnded (sock : Int) (server : Server) : Outcome → Prop where
  | refused (message : String) : ExecEnded sock server (refuse server sock message)
  | rejected (message : String) :
      ExecEnded sock server (replied server sock (.error (ascii message)) .err)
  | discarded (message : String) :
      ExecEnded sock server
        ⟨modifyClient sock leaveTransaction (modifyClient sock txCleanup server),
          [.reply sock (.error (ascii message))], .ok⟩

theorem unallocated_refused (oracle : Oracle) (sock : Int) (buffer : Bytes) (server : Server)
    (missing : (oracle []).alloc .inputCopy = false ∨ (oracle []).alloc .tokens = false) :
    ∃ message, executeCommand oracle sock buffer server = refuse server sock message := by
  cases copied : (oracle []).alloc .inputCopy with
  | false =>
      exact ⟨"err out of memory", by simp [executeCommand, executeCommandAt, executeWith, copied]⟩
  | true =>
      have tokenized : (oracle []).alloc .tokens = false := by simpa [copied] using missing
      exact ⟨"err empty command", by
        simp [executeCommand, executeCommandAt, executeWith, copied, tokenizeCommand, tokenized]⟩

/-- The queue is that of a listed client. -/
theorem exec_queue_client (oracle : Oracle) (sock : Int) (server : Server) (cmds : List Bytes)
    (queue : execQueue oracle sock server = some cmds) :
    ∃ client ∈ listed server.clientList, client.socket = sock ∧ client.queuedCommands = cmds := by
  simp only [execQueue] at queue
  cases found : findClient sock server with
  | none => simp [found] at queue
  | some client =>
      simp only [found] at queue
      split at queue
      · obtain ⟨member, socket⟩ := get_mem sock _ client found
        exact ⟨client, member, socket, Option.some.inj queue⟩
      · simp at queue

/-- An EXEC runs its queue, or ends. -/
theorem exec_cases (oracle : Oracle) (sock : Int) (buffer : Bytes) (server : Server)
    (alone : lower (tokens (cstr buffer)) = [ascii "exec"]) :
    match execQueue oracle sock server with
    | none => ExecEnded sock server (executeCommand oracle sock buffer server)
    | some cmds =>
        executeCommand oracle sock buffer server =
          ⟨modifyClient sock leaveTransaction (queueOutcome oracle sock cmds server).1,
            .write sock (arrayHeader cmds.length) :: (queueOutcome oracle sock cmds server).2, .ok⟩ := by
  by_cases refused : (oracle []).alloc .inputCopy = false ∨ (oracle []).alloc .tokens = false
  · have none : execQueue oracle sock server = none := by
      simp only [execQueue]
      split
      · rfl
      · rcases refused with missing | missing
        · simp [missing]
        · simp [missing]
    simp only [none]
    obtain ⟨message, same⟩ := unallocated_refused oracle sock buffer server refused
    exact same ▸ .refused message
  · simp only [not_or, Bool.not_eq_false] at refused
    rcases refused with ⟨copied, tokenized⟩
    have ran := tx_runs oracle sock buffer server copied tokenized _ exec_row exec_tx alone
    simp only [runHandler, execCommand] at ran
    cases found : findClient sock server with
    | none =>
        simp only [found] at ran
        simp only [execQueue, found, ran]
        exact .rejected _
    | some client =>
        obtain ⟨-, socket⟩ := get_mem sock server.clientList client found
        simp only [found] at ran
        cases inside : client.inTransaction with
        | false =>
            simp only [inside, Bool.false_eq_true, ↓reduceIte] at ran
            simp only [execQueue, found, inside, Bool.false_and, Bool.false_eq_true, ↓reduceIte, ran]
            exact .rejected _
        | true =>
            simp only [inside, ↓reduceIte, txExecuteCommands, socket] at ran
            cases errors : client.transactionErrors with
            | true =>
                simp only [errors, ↓reduceIte] at ran
                simp only [execQueue, found, inside, errors, Bool.not_true, Bool.and_false,
                  Bool.false_and, Bool.false_eq_true, ↓reduceIte, ran]
                exact .discarded _
            | false =>
                cases allocated : (oracle []).alloc .txCommands with
                | false =>
                    simp only [errors, allocated, Bool.false_eq_true, ↓reduceIte] at ran
                    simp only [execQueue, found, allocated, Bool.and_false, Bool.false_eq_true,
                      ↓reduceIte, ran]
                    exact .discarded _
                | true =>
                    simp only [errors, allocated, Bool.false_eq_true, ↓reduceIte] at ran
                    simp only [execQueue, found, inside, errors, copied, tokenized, allocated,
                      Bool.not_false, Bool.and_self, ↓reduceIte, queueOutcome, ran]

end Exec

end CrimsonCache.ExecLoop
