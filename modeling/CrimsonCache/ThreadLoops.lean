import CrimsonCache.ExecLoop

/-!
The threads of the threaded model between two command handlers. A thread reads
an input and runs its handler in one step; an EXEC goes on with one command of
its queue at a time, and other threads may step in between. The database has no
lock, so that only the order of the steps decides what an EXEC sees.
-/

namespace CrimsonCache.ThreadLoops

open CString Replies Transaction Replication Tokenizer ServerState DataCommands StoredData Commands
  TransactionSteps Connections ServerRuns ExecLoop

/-- A thread inside the loop of EXEC: the inputs it has not run yet and the index of the first. -/
structure Loop where
  sock : Int
  oracle : Oracle
  index : Nat
  cmds : List Bytes

structure Threads where
  server : Server
  loops : List Loop

inductive ThreadStep where
  | connect (ptr : Nat) (socket : Int)
  | receive (oracle : Oracle) (sock : Int) (chunk : Bytes)
  | proceed (sock : Int)

/-- What `handle_client` does behind `execute_command`. -/
def finishRead (sock : Int) (server : Server) : Server :=
  { server with
    clientList := updateClient sock resetBuffer server.clientList
    unlisted := resetUnlisted sock server.unlisted }

/-- The end of EXEC and of the read that brought it. -/
def leaveLoop (sock : Int) (server : Server) : Server :=
  finishRead sock (modifyClient sock leaveTransaction server)

/-- The next command of a loop; behind the last one the thread leaves it. -/
def runNext (loop : Loop) (server : Server) : Option Loop × Server × List Event :=
  match loop.cmds with
  | [] => (none, leaveLoop loop.sock server, [])
  | cmd :: rest =>
      let outcome := executeCommandAt 0 (loop.oracle.inner loop.index) loop.sock cmd server
      if rest = [] then
        (none, leaveLoop loop.sock outcome.server, .executing loop.sock cmd :: outcome.events)
      else
        (some { loop with index := loop.index + 1, cmds := rest }, outcome.server,
          .executing loop.sock cmd :: outcome.events)

/-- The queue an input of the connection starts to run. -/
def starts (oracle : Oracle) (sock : Int) (chunk : Bytes) (server : Server) : Option (List Bytes) :=
  match openClient sock server with
  | none => none
  | some client =>
      if chunk ≠ [] ∧ lower (tokens (cstr (client.buffer ++ chunk))) = [ascii "exec"] then
        execQueue oracle sock server
      else none

def stepThreads (threads : Threads) : ThreadStep → Threads × List Event
  | .connect ptr socket =>
      ({ threads with
        server := connectClient (newClient ptr socket threads.server.config) threads.server }, [])
  | .receive oracle sock chunk =>
      match starts oracle sock chunk threads.server with
      | none =>
          ({ threads with server := (handleClient oracle sock chunk threads.server).server },
            (handleClient oracle sock chunk threads.server).events)
      | some cmds =>
          -- Up to the first command of the queue nothing but the thread's own client is touched.
          let (loop, server, events) :=
            runNext ⟨sock, oracle, 0, cmds⟩ (modifyClient sock txCleanup threads.server)
          (⟨server, loop.toList ++ threads.loops⟩, .write sock (arrayHeader cmds.length) :: events)
  | .proceed sock =>
      match threads.loops.find? (·.sock = sock) with
      | none => (threads, [])
      | some loop =>
          let (loop, server, events) := runNext loop threads.server
          (⟨server, loop.toList ++ threads.loops.filter (·.sock ≠ sock)⟩, events)

def nextThreads (threads : Threads) (step : ThreadStep) : Threads := (stepThreads threads step).1

/-- A thread inside the loop does not read, and only such a thread goes on in it. -/
def Steps (threads : Threads) : ThreadStep → Prop
  | .connect ptr socket => Possible threads.server (.connect ptr socket)
  | .receive oracle sock chunk =>
      Possible threads.server (.receive oracle sock chunk) ∧ ∀ loop ∈ threads.loops, loop.sock ≠ sock
  | .proceed sock => ∃ loop ∈ threads.loops, loop.sock = sock

/-- Whether the input gets to a command handler: it is neither refused nor queued. -/
def runsHandler (env : Env) (sock : Int) (buffer : Bytes) (server : Server) : Bool :=
  env.alloc .inputCopy && env.alloc .tokens && tokens (cstr buffer) ≠ [] &&
    !(inTransaction sock server && !isTxCommand (commandName (cstr buffer))) &&
    commands.any fun row =>
      row.name = commandName (cstr buffer) && !wrongArity row (tokens (cstr buffer)).length

/-- While a thread has commands of its queue left, no other thread gets to a handler
    and no connection is closed. -/
def Undisturbed (threads : Threads) : ThreadStep → Prop
  | .connect _ _ => True
  | .receive oracle sock chunk => threads.loops = [] ∨
      (chunk ≠ [] ∧ ∀ client, openClient sock threads.server = some client →
        runsHandler (oracle []) sock (client.buffer ++ chunk) threads.server = false)
  | .proceed sock => ∀ loop ∈ threads.loops, loop.sock = sock

/-- The serial order: every input at once with all that it runs. -/
def serial (steps : List ThreadStep) : List ServerStep :=
  steps.filterMap fun
    | .connect ptr socket => some (.connect ptr socket)
    | .receive oracle sock chunk => some (.receive oracle sock chunk)
    | .proceed _ => none

section Loops

/-- The rest of a loop without a step of another thread. -/
def complete (loop : Loop) (server : Server) : Server × List Event :=
  let (after, events) := runQueued
    (fun index cmd server => executeCommandAt 0 (loop.oracle.inner index) loop.sock cmd server)
    loop.sock loop.index loop.cmds server
  (leaveLoop loop.sock after, events)

theorem run_next_complete (loop : Loop) (server : Server) :
    complete loop server =
      match (runNext loop server).1 with
      | none => (runNext loop server).2
      | some later =>
          ((complete later (runNext loop server).2.1).1,
            (runNext loop server).2.2 ++ (complete later (runNext loop server).2.1).2) := by
  obtain ⟨sock, oracle, index, cmds⟩ := loop
  cases cmds with
  | nil => rfl
  | cons cmd rest =>
      by_cases last : rest = []
      · subst last
        simp [complete, runNext, runQueued]
      · simp [complete, runNext, last, runQueued]

/-- The input of a loop is an EXEC alone, and its inputs are the queue. -/
theorem starts_cases (oracle : Oracle) (sock : Int) (chunk : Bytes) (server : Server)
    (cmds : List Bytes) (started : starts oracle sock chunk server = some cmds) :
    ∃ client, openClient sock server = some client ∧ chunk ≠ [] ∧
      lower (tokens (cstr (client.buffer ++ chunk))) = [ascii "exec"] ∧
      execQueue oracle sock server = some cmds := by
  simp only [starts] at started
  cases found : openClient sock server with
  | none => simp [found] at started
  | some client =>
      simp only [found] at started
      split at started
      case isFalse => simp at started
      case isTrue input => exact ⟨client, rfl, input.1, input.2, started⟩

/-- An input that starts a loop does in one call what the loop does when it is completed. -/
theorem starts_complete (oracle : Oracle) (sock : Int) (chunk : Bytes) (server : Server)
    (cmds : List Bytes) (started : starts oracle sock chunk server = some cmds) :
    (handleClient oracle sock chunk server).server =
        (complete ⟨sock, oracle, 0, cmds⟩ (modifyClient sock txCleanup server)).1 ∧
      (handleClient oracle sock chunk server).events =
        .write sock (arrayHeader cmds.length) ::
          (complete ⟨sock, oracle, 0, cmds⟩ (modifyClient sock txCleanup server)).2 := by
  obtain ⟨client, found, nonempty, alone, queue⟩ := starts_cases oracle sock chunk server cmds started
  obtain ⟨-, rfl⟩ := open_client_mem sock server client found
  have ran := exec_cases oracle client.socket (client.buffer ++ chunk) server alone
  simp only [queue] at ran
  simp only [handleClient, found, nonempty, ↓reduceIte, readInput, ran]
  exact ⟨rfl, rfl⟩

end Loops

section Locality

/-- The same server with other clients. -/
def reseat (clients : ClientList) (others : List Client) (server : Server) : Server :=
  { server with clientList := clients, unlisted := others }

@[simp] theorem reseat_db (clients : ClientList) (others : List Client) (server : Server) :
    (reseat clients others server).db = server.db := rfl

@[simp] theorem reseat_files (clients : ClientList) (others : List Client) (server : Server) :
    (reseat clients others server).files = server.files := rfl

@[simp] theorem reseat_repl (clients : ClientList) (others : List Client) (server : Server) :
    (reseat clients others server).repl = server.repl := rfl

@[simp] theorem reseat_config (clients : ClientList) (others : List Client) (server : Server) :
    (reseat clients others server).config = server.config := rfl

@[simp] theorem reseat_channels (clients : ClientList) (others : List Client) (server : Server) :
    (reseat clients others server).channels = server.channels := rfl

def reseated (clients : ClientList) (others : List Client) (outcome : Outcome) : Outcome :=
  { outcome with server := reseat clients others outcome.server }

/-- A command that does not control transactions looks at its own client only. -/
theorem handler_reseat (execute : Nat → Bytes → Server → Outcome) (env : Env) (sock : Int)
    (argv : List Bytes) (server : Server) (clients : ClientList) (others : List Client)
    (same : getClientBySocket sock clients = getClientBySocket sock server.clientList)
    (command : Command) (direct : command ≠ .multi ∧ command ≠ .exec ∧ command ≠ .discard) :
    runHandler execute env sock argv (reseat clients others server) command =
      reseated clients others (runHandler execute env sock argv server command) := by
  have found : findClient sock (reseat clients others server) = findClient sock server := same
  cases command with
  | multi => exact absurd rfl direct.1
  | exec => exact absurd rfl direct.2.1
  | discard => exact absurd rfl direct.2.2
  | set | get | del | exist | expire | ttl | role | incr => rfl
  | ping | save | bgsave | replconf | publish =>
      simp only [runHandler, pingCommand, saveCommand, bgsaveCommand, replconfCommand, publishCommand,
        reseat_db, reseat_files, reseat_repl, reseat_channels, apply_ite (reseated clients others)]
      rfl
  | replicaof =>
      simp only [runHandler, replicaofCommand, reseat_repl, reseat_config,
        apply_ite (reseated clients others)]
      rfl
  | subscribe =>
      simp only [runHandler, subscribeCommand, found]
      cases findClient sock server <;> rfl
  | unsubscribe =>
      simp only [runHandler, unsubscribeCommand, found]
      cases findClient sock server <;> rfl

theorem refuse_reseat (clients : ClientList) (others : List Client) (server : Server) (sock : Int)
    (message : String) :
    refuse (reseat clients others server) sock message =
      reseated clients others (refuse server sock message) := rfl

theorem propagate_reseat (env : Env) (sock : Int) (input name : Bytes) (clients : ClientList)
    (others : List Client) (outcome : Outcome)
    (same : getClientBySocket sock clients = getClientBySocket sock outcome.server.clientList) :
    propagate env sock input name (reseated clients others outcome) =
      reseated clients others (propagate env sock input name outcome) := by
  have inside : inTransaction sock (reseated clients others outcome).server =
      inTransaction sock outcome.server := by
    have found : findClient sock (reseat clients others outcome.server) =
        findClient sock outcome.server := same
    simp only [inTransaction, reseated, found]
  have goes : propagated sock name (reseated clients others outcome) =
      propagated sock name outcome := by
    simp only [propagated, inside]
    rfl
  simp only [propagate_eq, goes]
  split <;> rfl

theorem execute_reseat (execute : Nat → Bytes → Server → Outcome) (env : Env) (sock : Int)
    (buffer : Bytes) (server : Server) (clients : ClientList) (others : List Client)
    (same : getClientBySocket sock clients = getClientBySocket sock server.clientList)
    (outside : inTransaction sock server = false)
    (direct : isTxCommand (commandName (cstr buffer)) = false) :
    executeWith execute env sock buffer (reseat clients others server) =
      reseated clients others (executeWith execute env sock buffer server) := by
  have still : inTransaction sock (reseat clients others server) = false := by
    have found : findClient sock (reseat clients others server) = findClient sock server := same
    rw [← outside]
    simp only [inTransaction, found]
  simp only [executeWith, outside, still, Bool.false_and, Bool.false_eq_true, ↓reduceIte]
  split
  case isFalse => exact refuse_reseat ..
  case isTrue =>
    split
    case h_1 => exact refuse_reseat ..
    case h_2 => exact refuse_reseat ..
    case h_3 argv _ tokenized =>
      have whole : tokens (cstr buffer) = argv := by
        simp only [tokenizeCommand] at tokenized
        split at tokenized
        · exact Option.some.inj tokenized
        · simp at tokenized
      have name : isTxCommand (arg (lower argv) 0) = false := whole ▸ direct
      simp only [dispatch]
      cases found : commands.find? (·.name = arg (lower argv) 0) with
      | none =>
          simp only
          rw [refuse_reseat, propagate_reseat _ _ _ _ _ _ _ same]
      | some row =>
          have named : row.name = arg (lower argv) 0 := by simpa using List.find?_some found
          have apart := direct_row row (List.mem_of_find?_eq_some found) (named ▸ name)
          simp only
          split
          · rw [refuse_reseat, propagate_reseat _ _ _ _ _ _ _ same]
          · have kept := handler_same_clients execute env sock (lower argv) server row.command apart
            rw [handler_reseat execute env sock _ server clients others same row.command apart,
              propagate_reseat _ _ _ _ _ _ _ (kept.clientList ▸ same)]

theorem queue_reseat (oracle : Oracle) (sock : Int) (cmds : List Bytes)
    (direct : ∀ cmd ∈ cmds, isTxCommand (commandName (cstr cmd)) = false) (index : Nat)
    (server : Server) (outside : inTransaction sock server = false) (clients : ClientList)
    (others : List Client)
    (same : getClientBySocket sock clients = getClientBySocket sock server.clientList) :
    let execute := fun index cmd server => executeCommandAt 0 (oracle.inner index) sock cmd server
    runQueued execute sock index cmds (reseat clients others server) =
      (reseat clients others (runQueued execute sock index cmds server).1,
        (runQueued execute sock index cmds server).2) := by
  induction cmds generalizing index server with
  | nil => rfl
  | cons cmd rest ih =>
      have first := execute_reseat (fun _ _ server => ⟨server, [], .unknown⟩) (oracle.inner index [])
        sock cmd server clients others same outside (direct cmd List.mem_cons_self)
      have kept := (direct_execution (fun _ _ server => ⟨server, [], .unknown⟩)
        (oracle.inner index []) sock cmd server outside (direct cmd List.mem_cons_self)).1
      have later := ih (fun other member => direct other (List.mem_cons_of_mem cmd member)) (index + 1)
        (executeCommandAt 0 (oracle.inner index) sock cmd server).server
        ((kept.inTransaction sock).trans outside) (same.trans (by rw [← kept.clientList]; rfl))
      have ran : executeCommandAt 0 (oracle.inner index) sock cmd (reseat clients others server) =
          reseated clients others (executeCommandAt 0 (oracle.inner index) sock cmd server) := first
      simp only [runQueued, ran, reseated]
      simp only at later
      rw [later]

/-- The list behind a loop. -/
def leaveList (sock : Int) (clients : ClientList) : ClientList :=
  updateClient sock resetBuffer (updateClient sock leaveTransaction clients)

/-- A loop of ordinary commands whose client is connected and outside of its transaction. -/
structure Looping (loop : Loop) (server : Server) : Prop where
  present : loop.sock ∈ (openClients server).map (·.socket)
  outside : inTransaction loop.sock server = false
  direct : ∀ cmd ∈ loop.cmds, isTxCommand (commandName (cstr cmd)) = false

theorem complete_reseat (loop : Loop) (server : Server) (looping : Looping loop server)
    (clients : ClientList) (others : List Client)
    (same : getClientBySocket loop.sock clients = getClientBySocket loop.sock server.clientList) :
    complete loop (reseat clients others server) =
      (reseat (leaveList loop.sock clients) (resetUnlisted loop.sock others) (complete loop server).1,
        (complete loop server).2) := by
  have ran := queue_reseat loop.oracle loop.sock loop.cmds looping.direct loop.index server
    looping.outside clients others same
  simp only at ran
  simp only [complete, ran]
  rfl

theorem complete_seats (loop : Loop) (server : Server) (looping : Looping loop server) :
    (complete loop server).1.clientList = leaveList loop.sock server.clientList ∧
      (complete loop server).1.unlisted = resetUnlisted loop.sock server.unlisted ∧
      (complete loop server).1.config = server.config := by
  have kept := (run_queued_direct
    (fun index cmd server => executeCommandAt 0 (loop.oracle.inner index) loop.sock cmd server)
    (fun _ _ _ server => ⟨server, [], .unknown⟩) (fun index => loop.oracle.inner index []) loop.sock
    (fun _ _ _ => rfl) loop.cmds looping.direct loop.index server looping.outside).1
  simp only [complete, leaveLoop, finishRead, modifyClient, leaveList, kept.clientList, kept.unlisted,
    kept.config, and_self]

/-- An input that gets to no handler changes its own client only, whatever the rest is. -/
theorem handlerless_local (execute : Nat → Bytes → Server → Outcome) (env : Env) (sock : Int)
    (buffer : Bytes) (server : Server) (quiet : runsHandler env sock buffer server = false) :
    ∃ change events, KeepsSocket change ∧ ∀ other : Server,
      findClient sock other = findClient sock server →
        (executeWith execute env sock buffer other).events = events ∧
          (executeWith execute env sock buffer other).server = modifyClient sock change other := by
  have unchanged (other : Server) : other = modifyClient sock (fun client => client) other := by
    simp [modifyClient, update_id]
  have refused (message : String)
      (same : ∀ other, findClient sock other = findClient sock server →
        executeWith execute env sock buffer other = refuse other sock message) :
      ∃ change events, KeepsSocket change ∧ ∀ other : Server,
        findClient sock other = findClient sock server →
          (executeWith execute env sock buffer other).events = events ∧
            (executeWith execute env sock buffer other).server = modifyClient sock change other := by
    refine ⟨fun client => client, (refuse server sock message).events, fun _ => rfl, ?_⟩
    intro other found
    rw [same other found]
    exact ⟨rfl, unchanged other⟩
  cases copied : env.alloc .inputCopy with
  | false => exact refused "err out of memory" fun other _ => by simp [executeWith, copied]
  | true =>
    cases tokenized : env.alloc .tokens with
    | false =>
        exact refused "err empty command" fun other _ => by
          simp [executeWith, copied, tokenizeCommand, tokenized]
    | true =>
      by_cases empty : tokens (cstr buffer) = []
      · have whole : tokenizeCommand true (cstr buffer) = some (tokens (cstr buffer)) := rfl
        exact refused "err empty command" fun other _ => by
          simp [executeWith, copied, tokenized, whole, empty]
      · have inside (other : Server) (found : findClient sock other = findClient sock server) :
            inTransaction sock other = inTransaction sock server := by
          simp only [inTransaction, found]
        have shape (other : Server) := execute_allocated execute env sock buffer other copied tokenized
          empty
        by_cases queues : (inTransaction sock server && !isTxCommand (commandName (cstr buffer))) = true
        · obtain ⟨client, found, -⟩ := found_of_inside sock server (Bool.and_eq_true_iff.mp queues).1
          have constant (other : Server) (there : findClient sock other = findClient sock server)
              (change : Client → Client) :
              modifyClient sock (fun _ => change client) other = modifyClient sock change other := by
            have same := update_congr sock (fun _ => change client) change other.clientList
              fun old present => by rw [Option.some.inj (present.symm.trans (there.trans found))]
            simp only [modifyClient, same]
          rcases queue_command_cases (env.alloc .queueArray) (env.alloc .queueCopy) client (cstr buffer)
            with ⟨capacity, result⟩ | ⟨capacity, result⟩
          · refine ⟨enqueue (cstr buffer) capacity, [.reply sock queuedReply], enqueue_keeps _ _, ?_⟩
            intro other there
            rw [shape other, inside other there, if_pos queues]
            simp only [queueInput, there.trans found, result, ↓reduceIte, replied]
            exact ⟨rfl, constant other there (enqueue (cstr buffer) capacity)⟩
          · refine ⟨fun client => markFailed (grow capacity client), [.reply sock queueFailedReply],
              failed_keeps capacity, ?_⟩
            intro other there
            rw [shape other, inside other there, if_pos queues]
            simp only [queueInput, there.trans found, result, Bool.false_eq_true, ↓reduceIte, replied]
            exact ⟨rfl, constant other there fun client => markFailed (grow capacity client)⟩
        · have refuses : ∃ message, ∀ other, dispatch execute env sock (lower (tokens (cstr buffer)))
              other = refuse other sock message := by
            simp only [dispatch]
            cases found : commands.find? (·.name = arg (lower (tokens (cstr buffer))) 0) with
            | none => exact ⟨"err unknown command", fun _ => rfl⟩
            | some row =>
                have named : row.name = arg (lower (tokens (cstr buffer))) 0 := by
                  simpa using List.find?_some found
                have wrong : wrongArity row (tokens (cstr buffer)).length = true := by
                  by_contra right
                  have unqueued : (inTransaction sock server &&
                      !isTxCommand (commandName (cstr buffer))) = false := Bool.not_eq_true _ ▸ queues
                  have taken : commands.any (fun row => row.name = commandName (cstr buffer) &&
                      !wrongArity row (tokens (cstr buffer)).length) = true :=
                    List.any_eq_true.mpr ⟨row, List.mem_of_find?_eq_some found, by
                      simp [commandName, named, right]⟩
                  have handled : runsHandler env sock buffer server = true := by
                    simp [runsHandler, copied, tokenized, empty, unqueued, taken]
                  simp [handled] at quiet
                exact ⟨"err wrong number of arguments", fun other => by simp [lower_length, wrong]⟩
          obtain ⟨message, refuses⟩ := refuses
          exact refused message fun other there => by
            rw [shape other, inside other there, if_neg queues, refuses, propagate_refused]

end Locality

section Others

theorem reset_other (sock other : Int) (apart : other ≠ sock) (clients : List Client) :
    (resetUnlisted sock clients).find? (·.socket = other) = clients.find? (·.socket = other) := by
  induction clients with
  | nil => rfl
  | cons client rest ih =>
      simp only [resetUnlisted, List.map_cons, List.find?_cons] at ih ⊢
      by_cases own : client.socket = sock
      · have differs : client.socket ≠ other := fun same => apart (same.symm.trans own)
        have reset : (resetBuffer client).socket ≠ other := differs
        simpa [own, reset, differs, Ne.symm apart] using ih
      · simp only [own, ↓reduceIte]
        split
        · rfl
        · exact ih

theorem reset_comm (sock other : Int) (clients : List Client) :
    resetUnlisted sock (resetUnlisted other clients) =
      resetUnlisted other (resetUnlisted sock clients) := by
  have socket (fd : Int) (client : Client) :
      (if client.socket = fd then resetBuffer client else client).socket = client.socket := by
    split <;> rfl
  simp only [resetUnlisted, List.map_map]
  refine List.map_congr_left fun client _ => ?_
  simp only [Function.comp_apply, socket]
  split <;> split <;> rfl

theorem leave_keeps : KeepsSocket fun client => resetBuffer (leaveTransaction client) := fun _ => rfl

theorem leave_list (sock : Int) (clients : ClientList) :
    leaveList sock clients =
      updateClient sock (fun client => resetBuffer (leaveTransaction client)) clients :=
  update_update sock leaveTransaction resetBuffer (fun _ => rfl) clients

/-- A loop that is completed leaves the other clients as they are. -/
theorem complete_others (loop : Loop) (server : Server) (looping : Looping loop server) (other : Int)
    (apart : other ≠ loop.sock) :
    findClient other (complete loop server).1 = findClient other server ∧
      openClient other (complete loop server).1 = openClient other server := by
  obtain ⟨clients, others, -⟩ := complete_seats loop server looping
  have found : getClientBySocket other (leaveList loop.sock server.clientList) =
      getClientBySocket other server.clientList := by
    rw [leave_list, get_update _ _ _ leave_keeps, if_neg apart]
  constructor
  · rw [findClient, clients, found, findClient]
  · simp only [openClient, openClients, clients, others, List.find?_append, ← get_listed, found,
      reset_other _ _ apart]

theorem complete_open (loop : Loop) (server : Server) (looping : Looping loop server)
    {Field : Type} (field : Client → Field)
    (keeps : ∀ client, field (resetBuffer client) = field client ∧
      field (leaveTransaction client) = field client) :
    (openClients (complete loop server).1).map field = (openClients server).map field := by
  obtain ⟨clients, others, -⟩ := complete_seats loop server looping
  have left : (listed (leaveList loop.sock server.clientList)).map field =
      (listed server.clientList).map field := by
    rw [leaveList, update_map field _ _ (fun client => (keeps client).1),
      update_map field _ _ (fun client => (keeps client).2)]
  have right : (resetUnlisted loop.sock server.unlisted).map field = server.unlisted.map field := by
    simp only [resetUnlisted, List.map_map]
    refine List.map_congr_left fun client _ => ?_
    simp only [Function.comp_apply]
    split
    · exact (keeps client).1
    · rfl
  simp only [openClients, clients, others, List.map_append, left, right]

/-- A thread whose input gets to no handler does the same before and behind a loop. -/
theorem handlerless_commutes (loop : Loop) (server : Server) (looping : Looping loop server)
    (oracle : Oracle) (other : Int) (chunk : Bytes) (apart : other ≠ loop.sock) (input : chunk ≠ [])
    (quiet : ∀ client, openClient other server = some client →
      runsHandler (oracle []) other (client.buffer ++ chunk) server = false) :
    let coarse := (complete loop server).1
    (handleClient oracle other chunk coarse).events = (handleClient oracle other chunk server).events ∧
      complete loop (handleClient oracle other chunk server).server =
        ((handleClient oracle other chunk coarse).server, (complete loop server).2) ∧
      Looping loop (handleClient oracle other chunk server).server := by
  obtain ⟨clients, others, -⟩ := complete_seats loop server looping
  obtain ⟨sameFound, sameOpen⟩ := complete_others loop server looping other apart
  simp only [handleClient, sameOpen]
  cases found : openClient other server with
  | none => exact ⟨rfl, rfl, looping⟩
  | some client =>
      obtain ⟨-, rfl⟩ := open_client_mem other server client found
      obtain ⟨change, events, keeps, acts⟩ := handlerless_local
        (fun index cmd server => executeCommandAt 0 (oracle.inner index) client.socket cmd server)
        (oracle []) client.socket (client.buffer ++ chunk) server (quiet client found)
      obtain ⟨here, moved⟩ := acts server rfl
      obtain ⟨there, alike⟩ := acts (complete loop server).1 sameFound
      -- Both reads end with the same two writes to the client of the connection.
      have read (state : Server)
          (result : (executeCommand oracle client.socket (client.buffer ++ chunk) state).server =
            modifyClient client.socket change state) :
          (readInput oracle client chunk state).server =
            reseat (updateClient client.socket (fun client => resetBuffer (change client))
              state.clientList) (resetUnlisted client.socket state.unlisted) state := by
        have twice := update_update client.socket change resetBuffer keeps state.clientList
        simp only [readInput, result, modifyClient, reseat, twice]
      have composed : KeepsSocket fun client => resetBuffer (change client) := keeps
      have first := read server moved
      have second := read (complete loop server).1 alike
      simp only [input, ↓reduceIte]
      have lookup : getClientBySocket loop.sock (updateClient client.socket
          (fun client => resetBuffer (change client)) server.clientList) =
            getClientBySocket loop.sock server.clientList := by
        rw [get_update _ _ _ composed, if_neg (Ne.symm apart)]
      refine ⟨there.trans here.symm, ?_, ?_⟩
      · rw [first, complete_reseat loop server looping _ _ lookup, second, clients, others]
        have lists : leaveList loop.sock (updateClient client.socket
            (fun client => resetBuffer (change client)) server.clientList) =
              updateClient client.socket (fun client => resetBuffer (change client))
                (leaveList loop.sock server.clientList) := by
          rw [leave_list, leave_list, update_comm _ _ (Ne.symm apart) _ _ leave_keeps composed]
        rw [lists, reset_comm]
      · rw [first]
        constructor
        · have sockets : (openClients (reseat (updateClient client.socket
              (fun client => resetBuffer (change client)) server.clientList)
              (resetUnlisted client.socket server.unlisted) server)).map (·.socket) =
                (openClients server).map (·.socket) := by
            have left := update_map (fun client => client.socket) client.socket
              (fun client => resetBuffer (change client)) keeps server.clientList
            have right : (resetUnlisted client.socket server.unlisted).map (·.socket) =
                server.unlisted.map (·.socket) := by
              simp only [resetUnlisted, List.map_map]
              refine List.map_congr_left fun client _ => ?_
              simp only [Function.comp_apply]
              split <;> rfl
            simp only [openClients, reseat, List.map_append, left, right]
          rw [sockets]
          exact looping.present
        · rw [← looping.outside]
          simp only [inTransaction, findClient, reseat, lookup]
        · exact looping.direct

/-- A new connection is the same before and behind a loop. -/
theorem connect_commutes (loop : Loop) (server : Server) (looping : Looping loop server) (ptr : Nat)
    (socket : Int) (fresh : socket ∉ (openClients server).map (·.socket)) :
    complete loop (connectClient (newClient ptr socket server.config) server) =
        (connectClient (newClient ptr socket server.config) (complete loop server).1,
          (complete loop server).2) ∧
      Looping loop (connectClient (newClient ptr socket server.config) server) := by
  obtain ⟨clients, others, -⟩ := complete_seats loop server looping
  have apart : (newClient ptr socket server.config).socket ≠ loop.sock := by
    intro (same : socket = loop.sock)
    exact fresh (same ▸ looping.present)
  have lookup := get_register (newClient ptr socket server.config) loop.sock apart server.clientList
  have connected : connectClient (newClient ptr socket server.config) server =
      reseat (registerClient (newClient ptr socket server.config) server.clientList)
        (if none ∈ server.clientList then server.unlisted
          else newClient ptr socket server.config :: server.unlisted) server := rfl
  constructor
  · rw [connected, complete_reseat loop server looping _ _ lookup]
    have lists : leaveList loop.sock (registerClient (newClient ptr socket server.config)
        server.clientList) = registerClient (newClient ptr socket server.config)
          (leaveList loop.sock server.clientList) := by
      rw [leave_list, leave_list, register_update _ _ apart]
    have free : none ∈ leaveList loop.sock server.clientList ↔ none ∈ server.clientList := by
      rw [leave_list, free_update]
    have rest : resetUnlisted loop.sock (if none ∈ server.clientList then server.unlisted
        else newClient ptr socket server.config :: server.unlisted) =
          if none ∈ server.clientList then resetUnlisted loop.sock server.unlisted
          else newClient ptr socket server.config :: resetUnlisted loop.sock server.unlisted := by
      split
      · rfl
      · simp only [resetUnlisted, List.map_cons, apart, ↓reduceIte]
    rw [lists, rest]
    simp only [connectClient, clients, others, free]
    rfl
  · constructor
    · have opened := connect_open ptr socket server
      exact (opened.map (·.socket)).symm.subset (List.mem_cons_of_mem _ looping.present)
    · rw [← looping.outside, connected]
      simp only [inTransaction, findClient, reseat, lookup]
    · exact looping.direct

end Others

end CrimsonCache.ThreadLoops
