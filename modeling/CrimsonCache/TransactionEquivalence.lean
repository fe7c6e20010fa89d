import CrimsonCache.ServerRuns

/-!
MULTI, a list of inputs and EXEC against the same inputs sent directly. While
the transaction is open the server differs from its start in the client alone,
and the cleanup of EXEC takes that difference back before the first input runs.
-/

namespace CrimsonCache.TransactionEquivalence

open CString Dictionary Persistence Replies Transaction Pubsub Replication Tokenizer ServerState
  DataCommands StoredData Commands TransactionSteps Connections ServerRuns

/-- Inputs of one connection, one after the other. -/
def runDirect (oracle : Nat → Oracle) (sock : Int) :
    Nat → List Bytes → Server → Server × List Event
  | _, [], server => (server, [])
  | index, input :: rest, server =>
      let outcome := executeCommand (oracle index) sock input server
      let (server, events) := runDirect oracle sock (index + 1) rest outcome.server
      (server, outcome.events ++ events)

/-- MULTI, the inputs, EXEC. -/
def runTransaction (opening : Oracle) (queueing : Nat → Oracle) (closing : Oracle) (sock : Int)
    (multi : Bytes) (inputs : List Bytes) (exec : Bytes) (server : Server) : Server × List Event :=
  let opened := executeCommand opening sock multi server
  let (queued, answers) := runDirect queueing sock 0 inputs opened.server
  let closed := executeCommand closing sock exec queued
  (closed.server, opened.events ++ answers ++ closed.events)

/-- What the client is sent ahead of the replies to its inputs: OK, QUEUED for
    each of them, the array header. -/
def preamble (count : Nat) : Bytes :=
  okReply.writes.flatten ++ (List.replicate count queuedReply.writes.flatten).flatten ++
    arrayHeader count

/-- An input whose first token is a name other than multi, exec and discard. -/
def Ordinary (input : Bytes) : Prop :=
  tokens (cstr input) ≠ [] ∧ isTxCommand (commandName (cstr input)) = false

/-- The client in the middle of a transaction that it opened idle. -/
def pending (queue : List Bytes) (capacity : Nat) (client : Client) : Client :=
  { client with
    inTransaction := true
    transactionErrors := false
    queuedCommands := queue
    queueCapacity := capacity }

theorem pending_keeps (queue : List Bytes) (capacity : Nat) : KeepsSocket (pending queue capacity) :=
  fun _ => rfl

section Single

variable (sock : Int) (server : Server) (client : Client)
variable (found : findClient sock server = some client)

include found

/-- A change of the one client, given by what it makes of that client. -/
theorem modify_congr (first second : Client → Client) (same : first client = second client) :
    modifyClient sock first server = modifyClient sock second server := by
  unfold modifyClient
  rw [update_congr sock first second server.clientList]
  intro other there
  rw [Option.some.inj (there.symm.trans found)]
  exact same

theorem modify_same (change : Client → Client) (same : change client = client) :
    modifyClient sock change server = server := by
  rw [modify_congr sock server client found change (fun client => client) same]
  simp [modifyClient, update_id]

theorem multi_step (oracle : Oracle) (multi : Bytes) (allocates : oracle.Allocates)
    (isMulti : lower (tokens (cstr multi)) = [ascii "multi"]) (idle : Idle client) :
    executeCommand oracle sock multi server =
      ⟨modifyClient sock (pending [] 0) server, [.reply sock okReply], .ok⟩ := by
  rw [tx_runs oracle sock multi server (allocates [] _) (allocates [] _) _ multi_row multi_tx isMulti]
  have begun : beginTransaction client = pending [] 0 client := by
    simp [beginTransaction, pending, idle.queuedCommands, idle.queueCapacity]
  have opens := modify_congr sock server client found beginTransaction (pending [] 0) begun
  simp [runHandler, multiCommand, found, idle.inTransaction, replied, opens, okReply]

theorem queue_step (positive : 0 ≤ sock) (oracle : Oracle) (input : Bytes)
    (allocates : oracle.Allocates) (ordinary : Ordinary input) (queue : List Bytes)
    (capacity : Nat) :
    ∃ larger, executeCommand oracle sock input (modifyClient sock (pending queue capacity) server) =
      ⟨modifyClient sock (pending (queue ++ [cstr input]) larger) server,
        [.reply sock queuedReply], .ok⟩ := by
  rcases ordinary with ⟨nonempty, direct⟩
  have there : findClient sock (modifyClient sock (pending queue capacity) server) =
      some (pending queue capacity client) := by
    rw [find_modify sock _ (pending_keeps queue capacity), found]
    rfl
  have inside : inTransaction sock (modifyClient sock (pending queue capacity) server) = true := by
    simp [inTransaction, there, positive, pending]
  have space : ∀ site, (oracle []).alloc site = true := allocates []
  simp only [executeCommand, executeCommandAt]
  rw [execute_allocated _ _ _ _ _ (space _) (space _) nonempty]
  simp only [inside, direct, Bool.not_false, Bool.and_self, ↓reduceIte, queueInput, there, space]
  rcases queue_command_cases true true (pending queue capacity client) (cstr input) with
    ⟨larger, taken⟩ | ⟨larger, wrong⟩
  · refine ⟨larger, ?_⟩
    simp only [taken, ↓reduceIte, replied]
    have merged := update_update sock (pending queue capacity)
      (fun _ => enqueue (cstr input) larger (pending queue capacity client))
      (pending_keeps queue capacity) server.clientList
    have grown := modify_congr sock server client found
      (fun _ => enqueue (cstr input) larger (pending queue capacity client))
      (pending (queue ++ [cstr input]) larger) rfl
    simp only [modifyClient, merged] at grown ⊢
    rw [grown]
    rfl
  · have success := queue_command_success (pending queue capacity client) (cstr input)
    simp [wrong] at success

theorem queue_run (positive : 0 ≤ sock) (oracle : Nat → Oracle) (inputs : List Bytes)
    (allocates : ∀ index, (oracle index).Allocates) (ordinary : ∀ input ∈ inputs, Ordinary input)
    (index : Nat) (queue : List Bytes) (capacity : Nat) :
    ∃ larger, runDirect oracle sock index inputs
        (modifyClient sock (pending queue capacity) server) =
      (modifyClient sock (pending (queue ++ inputs.map cstr) larger) server,
        List.replicate inputs.length (.reply sock queuedReply)) := by
  induction inputs generalizing index queue capacity with
  | nil => exact ⟨capacity, by simp [runDirect]⟩
  | cons input rest ih =>
      obtain ⟨larger, queued⟩ := queue_step sock server client found positive (oracle index) input
        (allocates index) (ordinary input List.mem_cons_self) queue capacity
      obtain ⟨last, later⟩ := ih (fun other member => ordinary other (List.mem_cons_of_mem input member))
        (index + 1) (queue ++ [cstr input]) larger
      exact ⟨last, by simp [runDirect, queued, later, List.replicate_succ]⟩

end Single

section Answers

theorem queued_sent (sock fd : Int) (count : Nat) :
    sentTo fd (List.replicate count (.reply sock queuedReply)) =
      if fd = sock then (List.replicate count queuedReply.writes.flatten).flatten else [] := by
  induction count with
  | zero => simp [sentTo]
  | succ count ih =>
      rw [List.replicate_succ, ← List.singleton_append, sent_to_append, ih]
      by_cases same : fd = sock
      · simp [sentTo, Event.sent, same, List.replicate_succ]
      · simp [sentTo, Event.sent, same, Ne.symm same]

theorem queued_fed (sock : Int) (count : Nat) :
    fedCommands (List.replicate count (.reply sock queuedReply)) = [] := by
  induction count with
  | zero => rfl
  | succ count ih =>
      rw [List.replicate_succ, ← List.singleton_append, fed_append, ih]
      rfl

/-- The bytes of a transaction: the preamble to its client, then those of the inputs. -/
theorem transaction_sent (sock fd : Int) (count : Nat) (events : List Event) :
    sentTo fd ([.reply sock okReply] ++ List.replicate count (.reply sock queuedReply) ++
        .write sock (arrayHeader count) :: events) =
      (if fd = sock then preamble count else []) ++ sentTo fd events := by
  rw [← List.singleton_append, sent_to_append, sent_to_append, sent_to_append, queued_sent]
  by_cases same : fd = sock
  · simp [sentTo, Event.sent, same, preamble]
  · simp [sentTo, Event.sent, same, Ne.symm same]

theorem transaction_fed (sock : Int) (count : Nat) (header : Bytes) (events : List Event) :
    fedCommands ([.reply sock okReply] ++ List.replicate count (.reply sock queuedReply) ++
      .write sock header :: events) = fedCommands events := by
  rw [← List.singleton_append, fed_append, fed_append, fed_append, queued_fed]
  rfl

end Answers

section Loop

/-- The loop of EXEC makes the calls of the direct run. -/
theorem queued_run_direct (execute : Nat → Bytes → Server → Outcome)
    (nested : Nat → Nat → Bytes → Server → Outcome) (oracle : Nat → Oracle) (sock : Int)
    (runs : ∀ index cmd server, execute index cmd server =
      executeWith (nested index) (oracle index []) sock cmd server)
    (inputs : List Bytes) (ordinary : ∀ input ∈ inputs, Ordinary input) (index : Nat)
    (server : Server) (outside : inTransaction sock server = false) :
    (runQueued execute sock index (inputs.map cstr) server).1 =
        (runDirect oracle sock index inputs server).1 ∧
      (∀ fd, sentTo fd (runQueued execute sock index (inputs.map cstr) server).2 =
        sentTo fd (runDirect oracle sock index inputs server).2) ∧
      fedCommands (runQueued execute sock index (inputs.map cstr) server).2 =
        fedCommands (runDirect oracle sock index inputs server).2 ∧
      SameClients server (runDirect oracle sock index inputs server).1 := by
  induction inputs generalizing index server with
  | nil => exact ⟨rfl, fun _ => rfl, rfl, SameClients.refl server⟩
  | cons input rest ih =>
      obtain ⟨-, direct⟩ := ordinary input List.mem_cons_self
      obtain ⟨same, agree⟩ := direct_execution
        (fun position cmd server => executeCommandAt 0 ((oracle index).inner position) sock cmd server)
        (oracle index []) sock input server outside direct
      -- The queue holds the C string of an input, which is all that the call reads.
      have step : execute index (cstr input) server = executeCommand (oracle index) sock input server := by
        rw [runs, execute_cstr]
        exact agree (nested index)
      have stays : SameClients server (executeCommand (oracle index) sock input server).server := same
      obtain ⟨final, sent, fed, later⟩ := ih
        (fun other member => ordinary other (List.mem_cons_of_mem input member)) (index + 1)
        (executeCommand (oracle index) sock input server).server (by rw [stays.inTransaction, outside])
      simp only [List.map_cons, runQueued, runDirect, step]
      refine ⟨final, fun fd => ?_, ?_, stays.trans later⟩
      · rw [List.cons_append, ← List.singleton_append, sent_to_append, sent_to_append, sent_to_append,
          sent fd]
        rfl
      · rw [List.cons_append, ← List.singleton_append, fed_append, fed_append, fed_append, fed]
        rfl

/-- The transaction ends in the state of the direct run, sends every socket the same
    bytes behind the preamble and feeds the same commands. -/
theorem exec_equals_direct (server : Server) (reachable : Reachable server) (sock : Int)
    (client : Client) (found : findClient sock server = some client)
    (outside : client.inTransaction = false) (opening : Oracle) (queueing : Nat → Oracle)
    (closing : Oracle) (openAllocates : opening.Allocates)
    (queueAllocates : ∀ index, (queueing index).Allocates) (closeAllocates : closing.Allocates)
    (multi exec : Bytes) (isMulti : lower (tokens (cstr multi)) = [ascii "multi"])
    (isExec : lower (tokens (cstr exec)) = [ascii "exec"]) (inputs : List Bytes)
    (ordinary : ∀ input ∈ inputs, Ordinary input) :
    (runTransaction opening queueing closing sock multi inputs exec server).1 =
        (runDirect closing.inner sock 0 inputs server).1 ∧
      (∀ fd, sentTo fd (runTransaction opening queueing closing sock multi inputs exec server).2 =
        (if fd = sock then preamble inputs.length else []) ++
          sentTo fd (runDirect closing.inner sock 0 inputs server).2) ∧
      fedCommands (runTransaction opening queueing closing sock multi inputs exec server).2 =
        fedCommands (runDirect closing.inner sock 0 inputs server).2 := by
  have wf := reachable_wellformed server reachable
  obtain ⟨member, socket⟩ := get_mem sock server.clientList client found
  have positive : 0 ≤ sock := socket ▸ wf.ready.positive client member
  have idle := wf.idle client member outside
  obtain ⟨capacity, queued⟩ := queue_run sock server client found positive queueing inputs
    queueAllocates ordinary 0 [] 0
  have there : findClient sock (modifyClient sock (pending (inputs.map cstr) capacity) server) =
      some (pending (inputs.map cstr) capacity client) := by
    rw [find_modify sock _ (pending_keeps _ _), found]
    rfl
  -- The cleanup leaves the client as MULTI found it.
  have cleaned : modifyClient sock txCleanup
      (modifyClient sock (pending (inputs.map cstr) capacity) server) = server := by
    have merged := update_update sock (pending (inputs.map cstr) capacity) txCleanup
      (pending_keeps _ _) server.clientList
    simp only [modifyClient, merged]
    exact modify_same sock server client found _ (cleanup_of_idle client idle)
  obtain ⟨final, sent, fed, same⟩ := queued_run_direct
    (fun index cmd server => executeCommandAt 0 (closing.inner index) sock cmd server)
    (fun _ _ _ server => ⟨server, [], .unknown⟩) closing.inner sock (fun _ _ _ => rfl) inputs ordinary
    0 server (outside_of_found sock server client found outside)
  have leaves : modifyClient sock leaveTransaction (runDirect closing.inner sock 0 inputs server).1 =
      (runDirect closing.inner sock 0 inputs server).1 := by
    have still : findClient sock (runDirect closing.inner sock 0 inputs server).1 = some client := by
      rw [findClient, same.clientList]
      exact found
    apply modify_same sock _ client still
    simp [leaveTransaction, ← outside]
  have closed : executeCommand closing sock exec
      (modifyClient sock (pending (inputs.map cstr) capacity) server) =
      ⟨(runDirect closing.inner sock 0 inputs server).1,
        .write sock (arrayHeader inputs.length) :: (runQueued
          (fun index cmd server => executeCommandAt 0 (closing.inner index) sock cmd server) sock 0
          (inputs.map cstr) server).2, .ok⟩ := by
    rw [tx_runs closing sock exec _ (closeAllocates [] _) (closeAllocates [] _) _ exec_row exec_tx isExec]
    simp [runHandler, execCommand, there, txExecuteCommands, pending, closeAllocates [] .txCommands]
    rw [socket, cleaned, final]
    exact ⟨leaves, rfl, rfl⟩
  simp only [runTransaction, multi_step sock server client found opening multi openAllocates isMulti idle,
    queued, List.nil_append, closed]
  refine ⟨trivial, fun fd => ?_, ?_⟩
  · rw [← sent fd, transaction_sent]
  · rw [← fed, transaction_fed]

/-- A queued SET on the only connection of an empty server. -/
theorem sample_exec_equals_direct :
    let ran := runTransaction (calm 0) (fun _ => calm 0) (calm 0) 7 (ascii "MULTI\r\n")
      [ascii "SET k v\r\n"] (ascii "exec") oneClient
    ran.1 = (runDirect (calm 0).inner 7 0 [ascii "SET k v\r\n"] oneClient).1 ∧
      (∀ fd, sentTo fd ran.2 = (if fd = 7 then preamble 1 else []) ++
        sentTo fd (runDirect (calm 0).inner 7 0 [ascii "SET k v\r\n"] oneClient).2) ∧
      fedCommands ran.2 =
        fedCommands (runDirect (calm 0).inner 7 0 [ascii "SET k v\r\n"] oneClient).2 := by
  have ordinary : ∀ input ∈ [ascii "SET k v\r\n"], Ordinary input := by
    intro input member
    rw [List.mem_singleton.mp member]
    exact ⟨by decide, by decide⟩
  exact exec_equals_direct oneClient one_client_reachable 7 _ one_client_found rfl (calm 0)
    (fun _ => calm 0) (calm 0) (calm_allocates 0) (fun _ => calm_allocates 0) (calm_allocates 0)
    (ascii "MULTI\r\n") (ascii "exec") (by decide) (by decide) _ ordinary

end Loop

end CrimsonCache.TransactionEquivalence
