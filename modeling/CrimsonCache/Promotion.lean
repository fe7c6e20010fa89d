import CrimsonCache.ExecLoop

/-!
Promotion against the replication threads. A thread tests the role at the head
of its loop and then goes on by itself: it receives, finds the connection lost,
sleeps, and connects again, with the commands of the clients in between. A call
of `replication_set_primary` has two stages, before and after it blocks.
-/

namespace CrimsonCache.Promotion

open CString Replies Replication Tokenizer ServerState DataCommands Commands TransactionSteps
  Connections ReplicationThread ServerRuns ExecLoop Runs

section Thread

/-- `replication_set_primary` up to the resolving of the host. -/
def startPrimary (host : Bytes) (port : Int) (repl : ReplicationInfo) :
    ReplicationInfo × List Event :=
  let (repl, events) := closePrimary repl
  ({ repl with
    role := .replica
    primaryHost := host.take 255
    primaryPort := port
    state := .connecting }, events)

/-- What it does once `connect` has returned, in the state it then finds. -/
def finishPrimary (connect : Connect) (listenPort : Int) (repl : ReplicationInfo) :
    ReplicationInfo × List Event :=
  match connect with
  | .unresolved => (repl, [])
  | .refused => (repl, [])
  | .connected fd =>
      ({ repl with primaryFd := fd, state := .sync },
        [.write fd (snprintf 64 (ascii "REPLCONF listening-port " ++ decimalInt listenPort ++ crlf)),
          .write fd (ascii "PSYNC ? -1\r\n")])

/-- Where a replication thread stands. Between `tested` or `sleeping` and
    `connecting` lies the first stage of `replication_set_primary`. -/
inductive Point where
  | head
  | receiving
  | sleeping
  | tested
  | connecting
  deriving DecidableEq

structure Failover where
  server : Server
  threads : Nat → Point

inductive FailoverStep where
  | serve (step : ServerStep)
  | advance (thread : Nat) (oracle : Nat → Oracle) (received : Received) (connect : Connect)

/-- The role and the state tested at the head of the loop. -/
def testRole (repl : ReplicationInfo) : Point :=
  match repl.role, repl.state with
  | .primary, _ => .head
  | .replica, .none => .head
  | .replica, .connecting => if repl.primaryFd = -1 then .tested else .head
  | .replica, _ => .receiving

def stepThread (oracle : Nat → Oracle) (received : Received) (connect : Connect) (server : Server) :
    Point → Point × Server × List Event
  | .head => (testRole server.repl, server, [])
  | .receiving =>
      match received with
      | .data chunk => (.head, receiveFromPrimary oracle chunk server)
      | .wouldBlock => (.head, server, [])
      | .lost =>
          let (repl, events) := losePrimary server.repl
          (.sleeping, { server with repl := repl }, events)
  | .sleeping | .tested =>
      -- The host and the port are read when the call is made.
      let (repl, events) := startPrimary server.repl.primaryHost server.repl.primaryPort server.repl
      (.connecting, { server with repl := repl }, events)
  | .connecting =>
      let (repl, events) := finishPrimary connect server.config.port server.repl
      (.head, { server with repl := repl }, events)

def stepFailover (state : Failover) : FailoverStep → Failover × List Event
  | .serve step =>
      ({ state with server := (stepServer state.server step).1 }, (stepServer state.server step).2)
  | .advance thread oracle received connect =>
      let (point, server, events) :=
        stepThread oracle received connect state.server (state.threads thread)
      (⟨server, Function.update state.threads thread point⟩, events)

def nextFailover (state : Failover) (step : FailoverStep) : Failover := (stepFailover state step).1

def isLost : Received → Bool
  | .lost => true
  | _ => false

/-- The threads step by themselves, and a receive from no descriptor is an error. -/
def interleaved (state : Failover) : FailoverStep → Bool
  | .serve (.replication _ _ _) => false
  | .serve _ => true
  | .advance thread _ received _ =>
      state.threads thread ≠ .receiving || state.server.repl.primaryFd ≠ -1 || isLost received

end Thread

section Orders

/-- What a REPLICAOF asks for. -/
inductive Order where
  | promote
  | follow
  deriving DecidableEq

def orderOf (argv : List Bytes) : Option Order :=
  if arg argv 0 = ascii "replicaof" ∧ argv.length = 3 then
    if strcaseeq (arg argv 1) (ascii "NO") && strcaseeq (arg argv 2) (ascii "ONE") then some .promote
    else if atoi (arg argv 2) ≤ 0 ∨ atoi (arg argv 2) > 65535 then none
    else some .follow
  else none

/-- The order of a run whose input is not queued or turned away. -/
def runOrder (sock : Int) (run : HandlerRun) : Option Order :=
  if run.env.alloc .inputCopy && run.env.alloc .tokens && !inTransaction sock run.server then
    orderOf (lower (tokens (cstr run.input)))
  else none

/-- The orders that clients give in a step. -/
def stepOrders (state : Failover) : FailoverStep → List Order
  | .serve (.receive oracle sock chunk) =>
      (serve oracle sock chunk state.server).passed.flatMap fun buffer =>
        (handlerRuns oracle sock buffer state.server).filterMap (runOrder sock)
  | _ => []

/-- The last order of a client in a run is to be a primary. -/
def Promoted (start : Failover) (steps : List FailoverStep) : Prop :=
  (outputs nextFailover stepOrders start steps).getLast? = some .promote

end Orders

section Property

def Standing (server : Server) : Prop :=
  server.repl.role = .primary ∧ server.repl.state = .none ∧ server.repl.primaryFd = -1

def isConnected : Connect → Bool
  | .connected _ => true
  | _ => false

/-- A thread completes a connection. -/
def opens (state : Failover) : FailoverStep → Bool
  | .serve _ => false
  | .advance thread _ _ connect => state.threads thread = .connecting && isConnected connect

/-- Through a run a promoted server stays one, and no thread connects to a primary. -/
def Sticks (start : Failover) (steps : List FailoverStep) : Prop :=
  (∀ before, before <+: steps → Promoted start before →
      Standing (run nextFailover start before).server) ∧
    ∀ before next, before ++ [next] <+: steps → Promoted start before →
      opens (run nextFailover start before) next = false

/-- A thread reports a loss, calls `replication_set_primary` or completes a connection. -/
def acts (state : Failover) : FailoverStep → Bool
  | .serve _ => false
  | .advance thread _ received connect =>
      match state.threads thread with
      | .head => false
      | .receiving => isLost received
      | .sleeping => true
      | .tested => true
      | .connecting => isConnected connect

/-- No thread acts on a role that it tested before the promotion. -/
def Heeded (start : Failover) (steps : List FailoverStep) : Prop :=
  ∀ before next, before ++ [next] <+: steps → Promoted start before →
    acts (run nextFailover start before) next = true →
      (run nextFailover start before).server.repl.role = .replica

end Property

section Links

def link (server : Server) : Role × ReplState × Int :=
  (server.repl.role, server.repl.state, server.repl.primaryFd)

theorem standing_link (before after : Server) (same : link after = link before)
    (standing : Standing before) : Standing after := by
  simp only [link, Prod.mk.injEq] at same
  rcases same with ⟨role, state, fd⟩
  exact ⟨role.trans standing.1, state.trans standing.2.1, fd.trans standing.2.2⟩

/-- What a last order makes of the link to the primary. Without one it stays as it is. -/
def Ordered (order : Option Order) (before after : Server) : Prop :=
  match order with
  | none => link after = link before
  | some .promote => Standing after
  | some .follow => True

theorem ordered_same (order : Option Order) (before middle after : Server)
    (same : link after = link middle) (ordered : Ordered order before middle) :
    Ordered order before after := by
  cases order with
  | none => exact same.trans ordered
  | some order =>
      cases order with
      | promote => exact standing_link middle after same ordered
      | follow => trivial

theorem ordered_append (first second : List Order) (before middle after : Server)
    (left : Ordered first.getLast? before middle) (right : Ordered second.getLast? middle after) :
    Ordered (first ++ second).getLast? before after := by
  rw [List.getLast?_append]
  cases last : second.getLast? with
  | none =>
      rw [last] at right
      exact ordered_same _ before middle after right left
  | some order =>
      rw [last] at right
      cases order with
      | promote => exact right
      | follow => trivial

theorem unset_standing (repl : ReplicationInfo) :
    (replicationUnsetPrimary repl).1.role = .primary ∧
      (replicationUnsetPrimary repl).1.state = .none ∧
        (replicationUnsetPrimary repl).1.primaryFd = -1 := by
  refine ⟨rfl, rfl, ?_⟩
  simp only [replicationUnsetPrimary, closePrimary]
  split
  · rfl
  case isFalse unset => exact not_not.mp unset

theorem propagate_link (env : Env) (sock : Int) (input name : Bytes) (outcome : Outcome) :
    link (propagate env sock input name outcome).server = link outcome.server := by
  simp only [propagate, replicationFeedSlaves]
  split
  · split <;> rfl
  · rfl

theorem queue_link (env : Env) (sock : Int) (input : Bytes) (server : Server) :
    link (queueInput env sock input server).server = link server := by
  simp only [queueInput]
  split
  · rfl
  · split <;> rfl

theorem exec_link (execute : Nat → Bytes → Server → Outcome)
    (keeps : ∀ index cmd server, link (execute index cmd server).server = link server)
    (env : Env) (sock : Int) (server : Server) :
    link (execCommand execute env sock server).server = link server := by
  simp only [execCommand, txExecuteCommands]
  split
  · rfl
  case h_2 client _ =>
    split
    case isFalse => rfl
    case isTrue =>
      split
      · rfl
      · split
        · exact run_queued_invariant (fun after => link after = link server) execute
            client.socket client.queuedCommands
            (fun index cmd _ middle same => (keeps index cmd middle).trans same) 0
            (modifyClient client.socket Transaction.txCleanup server) rfl
        · rfl

/-- Only REPLICAOF and the queue of an EXEC touch the link. -/
theorem handler_link (execute : Nat → Bytes → Server → Outcome) (env : Env) (sock : Int)
    (argv : List Bytes) (server : Server) (command : Command) (other : command ≠ .replicaof)
    (keeps : command = .exec → ∀ index cmd server,
      link (execute index cmd server).server = link server) :
    link (runHandler execute env sock argv server command).server = link server := by
  by_cases exec : command = .exec
  · subst exec
    exact exec_link execute (keeps rfl) env sock server
  · by_cases joining : command = .replconf
    · subst joining
      simp only [runHandler, replconfCommand, addReplica]
      split
      · split <;> rfl
      · rfl
    · have untouched := handler_untouched execute env sock argv server command exec
      simp only [link, untouched.repl other joining]

theorem replicaof_ordered (env : Env) (sock : Int) (argv : List Bytes) (server : Server)
    (name : arg argv 0 = ascii "replicaof" ∧ argv.length = 3) :
    Ordered (orderOf argv) server (replicaofCommand env sock argv server).server := by
  simp only [orderOf, if_pos name, replicaofCommand]
  split
  · exact unset_standing server.repl
  · split
    · rfl
    · trivial

theorem replicaof_row : ⟨.replicaof, ascii "replicaof", 3, 3⟩ ∈ commands := by simp [commands]

theorem replicaof_name : ∀ row ∈ commands, row.command = .replicaof →
    row.name = ascii "replicaof" ∧ row.minArgs = 3 ∧ row.maxArgs = 3 := by decide

theorem dispatch_ordered (execute : Nat → Bytes → Server → Outcome) (env : Env) (sock : Int)
    (words : List Bytes) (server : Server)
    (keeps : lower words = [ascii "exec"] → ∀ index cmd server,
      link (execute index cmd server).server = link server) :
    Ordered (orderOf (lower words)) server
      (dispatch execute env sock (lower words) server).server := by
  by_cases asks : arg (lower words) 0 = ascii "replicaof" ∧ (lower words).length = 3
  · have row := row_of_name _ replicaof_row
    have ran : dispatch execute env sock (lower words) server =
        replicaofCommand env sock (lower words) server := by
      simp [dispatch, asks.1, row, wrongArity, asks.2, runHandler]
    rw [ran]
    exact replicaof_ordered env sock (lower words) server asks
  · have order : orderOf (lower words) = none := by simp [orderOf, if_neg asks]
    rw [order]
    rcases dispatch_cases execute env sock (lower words) server with
      ⟨message, _, refused⟩ | ⟨row, member, named, arity, ran⟩
    · rw [refused]
      rfl
    · rw [ran]
      apply handler_link
      · intro same
        obtain ⟨name, least, most⟩ := replicaof_name row member same
        apply asks
        refine ⟨by rw [← named, name], ?_⟩
        simp [wrongArity, least, most] at arity
        omega
      · intro exec
        rw [lower_length] at arity
        exact keeps (exec_alone row member exec words arity named)

/-- A call of `execute_command` leaves the link as its order says. -/
theorem run_ordered (execute : Nat → Bytes → Server → Outcome) (env : Env) (sock : Int)
    (buffer input : Bytes) (text : cstr input = cstr buffer) (server : Server)
    (keeps : lower (tokens (cstr buffer)) = [ascii "exec"] → ∀ index cmd server,
      link (execute index cmd server).server = link server) :
    Ordered (runOrder sock ⟨env, server, input, executeWith execute env sock buffer server⟩)
      server (executeWith execute env sock buffer server).server := by
  have ordered := dispatch_ordered execute env sock (tokens (cstr buffer)) server keeps
  simp only [runOrder, text]
  by_cases allocated : env.alloc .inputCopy = true ∧ env.alloc .tokens = true
  · rcases allocated with ⟨copied, tokenized⟩
    by_cases nonempty : tokens (cstr buffer) = []
    · have refused : executeWith execute env sock buffer server =
          refuse server sock "err empty command" := by
        have whole : tokenizeCommand true (cstr buffer) = some (tokens (cstr buffer)) := rfl
        simp [executeWith, copied, tokenized, whole, nonempty]
      have order : orderOf (lower (tokens (cstr buffer))) = none := by
        simp [orderOf, nonempty, lower]
      rw [refused, order, ite_self]
      rfl
    · rw [execute_allocated execute env sock buffer server copied tokenized nonempty]
      simp only [copied, tokenized, Bool.true_and]
      cases inside : inTransaction sock server with
      | false =>
          simp only [Bool.false_and, Bool.false_eq_true, ↓reduceIte, Bool.not_false]
          exact ordered_same _ _ _ _ (propagate_link ..) ordered
      | true =>
          simp only [Bool.not_true, Bool.false_eq_true, ↓reduceIte]
          split
          · exact queue_link env sock (cstr buffer) server
          case isFalse direct =>
            -- MULTI, EXEC and DISCARD give no order.
            have order : orderOf (lower (tokens (cstr buffer))) = none := by
              have apart : commandName (cstr buffer) ≠ ascii "replicaof" := by
                intro same
                apply direct
                rw [same]
                decide
              simp only [orderOf]
              rw [if_neg fun asks => apart asks.1]
            rw [order] at ordered
            exact (propagate_link ..).trans ordered
  · have order : (env.alloc .inputCopy && env.alloc .tokens && !inTransaction sock server) = false := by
      simp only [not_and] at allocated
      cases copied : env.alloc .inputCopy with
      | false => rfl
      | true => simp [allocated copied]
    rw [order]
    have refused : ∃ message, executeWith execute env sock buffer server =
        refuse server sock message := by
      cases copied : env.alloc .inputCopy with
      | false => exact ⟨"err out of memory", by simp [executeWith, copied]⟩
      | true =>
          have tokenized : env.alloc .tokens = false := by simpa [copied] using allocated
          exact ⟨"err empty command", by simp [executeWith, copied, tokenizeCommand, tokenized]⟩
    obtain ⟨message, same⟩ := refused
    rw [same]
    rfl

theorem last_order (sock : Int) (run : HandlerRun) :
    ([run].filterMap (runOrder sock)).getLast? = runOrder sock run := by
  cases order : runOrder sock run <;> simp [order]

theorem queued_ordered (oracle : Oracle) (sock : Int) (index : Nat) (cmds : List Bytes)
    (server : Server) :
    Ordered ((queuedRuns oracle sock index cmds server).filterMap (runOrder sock)).getLast? server
      (runQueued (fun index cmd server => executeCommandAt 0 (oracle.inner index) sock cmd server)
        sock index cmds server).1 := by
  induction cmds generalizing index server with
  | nil => rfl
  | cons cmd rest ih =>
      have first := run_ordered (fun _ _ server => ⟨server, [], .unknown⟩) (oracle.inner index [])
        sock cmd cmd rfl server fun _ _ _ _ => rfl
      have later := ih (index + 1)
        (executeCommandAt 0 (oracle.inner index) sock cmd server).server
      rw [queuedRuns, ← List.singleton_append, List.filterMap_append]
      apply ordered_append _ _ _ _ _ _ later
      rw [last_order]
      exact first

/-- An input leaves the link as the orders of its runs say. -/
theorem execute_ordered (oracle : Oracle) (sock : Int) (buffer : Bytes) (server : Server) :
    Ordered ((handlerRuns oracle sock buffer server).filterMap (runOrder sock)).getLast? server
      (executeCommand oracle sock buffer server).server := by
  by_cases alone : lower (tokens (cstr buffer)) = [ascii "exec"]
  · have ran := exec_cases oracle sock buffer server alone
    simp only [handlerRuns, alone, ↓reduceIte, execRuns]
    cases queue : execQueue oracle sock server with
    | none =>
        simp only [queue] at ran
        generalize executeCommand oracle sock buffer server = outcome at ran
        cases ran <;> rfl
    | some cmds =>
        simp only [queue] at ran
        rw [ran]
        exact queued_ordered oracle sock 0 cmds (modifyClient sock Transaction.txCleanup server)
  · simp only [handlerRuns, alone, ↓reduceIte, last_order]
    exact run_ordered _ (oracle []) sock buffer (cstr buffer) (cstr_cstr buffer) server fun exec =>
      absurd exec alone

theorem step_ordered (state : Failover) (step : ServerStep)
    (apart : ∀ oracle received connect, step ≠ .replication oracle received connect) :
    Ordered (stepOrders state (.serve step)).getLast? state.server (next state.server step) := by
  cases step with
  | replication oracle received connect => exact absurd rfl (apart oracle received connect)
  | connect => rfl
  | sweep => rfl
  | autoSave now saveNow io =>
      show link (autoSave now saveNow io state.server) = link state.server
      simp only [autoSave]
      split
      · split <;> rfl
      · rfl
  | receive oracle sock chunk =>
      have served := serve_cases oracle sock chunk state.server
      simp only [stepOrders, next, stepServer]
      generalize serve oracle sock chunk state.server = reading at served
      cases served with
      | closed => rfl
      | dropped => rfl
      | absent => rfl
      | read client member same =>
          subst same
          have ordered := execute_ordered oracle client.socket (client.buffer ++ chunk) state.server
          simp only [readInput, List.flatMap_cons, List.flatMap_nil, List.append_nil]
          exact ordered_same _ _ _ _ rfl ordered

end Links

section Runs

/-- A thread that does not act leaves a primary alone. -/
theorem standing_advance (state : Failover) (thread : Nat) (oracle : Nat → Oracle)
    (received : Received) (connect : Connect)
    (allowed : interleaved state (.advance thread oracle received connect) = true)
    (idle : acts state (.advance thread oracle received connect) = false)
    (standing : Standing state.server) :
    Standing (nextFailover state (.advance thread oracle received connect)).server := by
  simp only [acts] at idle
  simp only [nextFailover, stepFailover]
  cases point : state.threads thread with
  | head => exact standing
  | receiving =>
      -- The promotion closed the descriptor, so that the receive fails.
      simp [interleaved, point, standing.2.2] at allowed
      simp [point, allowed] at idle
  | sleeping => simp [point] at idle
  | tested => simp [point] at idle
  | connecting =>
      cases connect with
      | unresolved => exact standing
      | refused => exact standing
      | connected fd => simp [point, isConnected] at idle

/-- A thread that acts makes a replica of the server, or connects it. -/
theorem acting_breaks (state : Failover) (step : FailoverStep) (acting : acts state step = true)
    (standing : Standing (nextFailover state step).server) : opens state step = true := by
  cases step with
  | serve => simp [acts] at acting
  | advance thread oracle received connect =>
      simp only [acts] at acting
      simp only [nextFailover, stepFailover] at standing
      cases point : state.threads thread with
      | head => simp [point] at acting
      | receiving =>
          simp only [point] at acting
          cases received with
          | lost => simp [point, stepThread, losePrimary, Standing] at standing
          | data => simp [isLost] at acting
          | wouldBlock => simp [isLost] at acting
      | sleeping => simp [point, stepThread, startPrimary, Standing] at standing
      | tested => simp [point, stepThread, startPrimary, Standing] at standing
      | connecting =>
          simp only [point] at acting
          simp [opens, point, acting]

theorem opens_acts (state : Failover) (step : FailoverStep) (opening : opens state step = true) :
    acts state step = true := by
  cases step with
  | serve => simp [opens] at opening
  | advance thread oracle received connect =>
      simp only [opens, Bool.and_eq_true, decide_eq_true_eq] at opening
      simp [acts, opening.1, opening.2]

theorem acts_quiet (state : Failover) (step : FailoverStep) (acting : acts state step = true) :
    stepOrders state step = [] := by
  cases step with
  | serve => simp [acts] at acting
  | advance => rfl

theorem promoted_quiet (start : Failover) (before : List FailoverStep) (next : FailoverStep)
    (quiet : stepOrders (run nextFailover start before) next = []) :
    Promoted start (before ++ [next]) ↔ Promoted start before := by
  simp [Promoted, outputs_append, outputs, quiet]

/-- A promotion stands through a run in which no thread acts on the old role. -/
theorem heeded_standing (start : Failover) (steps : List FailoverStep)
    (admitted : Admitted (interleaved · ·) nextFailover start steps) (heeded : Heeded start steps)
    (before : List FailoverStep) (inside : before <+: steps) (promoted : Promoted start before) :
    Standing (run nextFailover start before).server := by
  induction before using List.reverseRecOn with
  | nil => simp [Promoted, outputs] at promoted
  | append_singleton before next ih =>
      have earlier : before <+: steps := (List.prefix_append before [next]).trans inside
      have allowed : interleaved (run nextFailover start before) next = true := by
        rcases inside with ⟨rest, rfl⟩
        rw [admitted_append, admitted_append] at admitted
        exact admitted.1.2.1
      rw [run_append]
      cases next with
      | serve step =>
          have ordered := step_ordered (run nextFailover start before) step (by
            rintro oracle received connect rfl
            simp [interleaved] at allowed)
          simp only [Promoted, outputs_append, outputs, List.append_nil,
            List.getLast?_append] at promoted
          cases last : (stepOrders (run nextFailover start before) (.serve step)).getLast? with
          | none =>
              rw [last] at ordered promoted
              exact standing_link _ _ ordered (ih earlier promoted)
          | some order =>
              rw [last] at ordered promoted
              cases Option.some.inj promoted
              exact ordered
      | advance thread oracle received connect =>
          have still := (promoted_quiet start before _ rfl).mp promoted
          have standing := ih earlier still
          apply standing_advance _ thread oracle received connect allowed _ standing
          rw [Bool.eq_false_iff]
          intro acting
          have replica := heeded before _ inside still acting
          simp [standing.1] at replica

/-- A promotion sticks exactly when no thread acts on a role that it tested before. -/
theorem promotion_sticks_iff (start : Failover) (steps : List FailoverStep)
    (admitted : Admitted (interleaved · ·) nextFailover start steps) :
    Sticks start steps ↔ Heeded start steps := by
  constructor
  · rintro ⟨standing, unopened⟩ before next inside promoted acting
    have still := (promoted_quiet start before next (acts_quiet _ next acting)).mpr promoted
    have after := standing _ inside still
    rw [run_append] at after
    have opening := acting_breaks _ next acting after
    simp [unopened before next inside promoted] at opening
  · intro heeded
    have standing := heeded_standing start steps admitted heeded
    constructor
    · exact standing
    · intro before next inside promoted
      rw [Bool.eq_false_iff]
      intro opening
      have replica := heeded before next inside promoted (opens_acts _ next opening)
      have earlier : before <+: steps := (List.prefix_append before [next]).trans inside
      simp [(standing before earlier promoted).1] at replica

end Runs

section Passes

theorem set_primary_stages (connect : Connect) (listenPort : Int) (host : Bytes) (port : Int)
    (repl : ReplicationInfo) :
    replicationSetPrimary connect listenPort host port repl =
      ((finishPrimary connect listenPort (startPrimary host port repl).1).1, isConnected connect,
        (startPrimary host port repl).2 ++
          (finishPrimary connect listenPort (startPrimary host port repl).1).2) := by
  cases connect <;> simp [replicationSetPrimary, startPrimary, finishPrimary, isConnected]

/-- The thread with the server, after so many of its steps. -/
def walk (oracle : Nat → Oracle) (received : Received) (connect : Connect) :
    Nat → Point → Server → Point × Server × List Event
  | 0, point, server => (point, server, [])
  | count + 1, point, server =>
      let (point, server, events) := stepThread oracle received connect server point
      let (point, server, more) := walk oracle received connect count point server
      (point, server, events ++ more)

theorem walk_run (oracle : Nat → Oracle) (received : Received) (connect : Connect) (thread : Nat)
    (count : Nat) (server : Server) (threads : Nat → Point) :
    let steps := List.replicate count (.advance thread oracle received connect)
    let walked := walk oracle received connect count (threads thread) server
    run nextFailover ⟨server, threads⟩ steps =
        ⟨walked.2.1, Function.update threads thread walked.1⟩ ∧
      outputs nextFailover (fun state step => (stepFailover state step).2) ⟨server, threads⟩ steps =
        walked.2.2 := by
  induction count generalizing server threads with
  | zero => simp [walk, run, outputs]
  | succ count ih =>
      obtain ⟨state, events⟩ := ih
        (stepThread oracle received connect server (threads thread)).2.1
        (Function.update threads thread
          (stepThread oracle received connect server (threads thread)).1)
      simp only [Function.update_self, Function.update_idem] at state events
      simp only [List.replicate_succ, run, List.foldl_cons, outputs, nextFailover, stepFailover,
        walk] at state events ⊢
      exact ⟨state, by rw [events]⟩

/-- A thread that nothing comes between makes a pass of the loop. -/
theorem pass_alone (server : Server) (oracle : Nat → Oracle) (received : Received)
    (connect : Connect) :
    ∃ count, walk oracle received connect count .head server =
      (.head, replicationThread oracle received connect server) := by
  cases role : server.repl.role with
  | primary => exact ⟨1, by simp [walk, stepThread, testRole, role, replicationThread]⟩
  | replica =>
      have receives (state : server.repl.state = .sync ∨ server.repl.state = .connected) :
          ∃ count, walk oracle received connect count .head server =
            (.head, replicationThread oracle received connect server) := by
        have connected : testRole server.repl = .receiving := by
          rcases state with state | state <;> simp [testRole, role, state]
        cases received with
        | data chunk =>
            refine ⟨2, ?_⟩
            rcases state with state | state <;>
              simp [walk, stepThread, connected, replicationThread, role, state]
        | wouldBlock =>
            refine ⟨2, ?_⟩
            rcases state with state | state <;>
              simp [walk, stepThread, connected, replicationThread, role, state]
        | lost =>
            refine ⟨4, ?_⟩
            rcases state with state | state <;>
              simp [walk, stepThread, connected, replicationThread, role, state, reconnect,
                set_primary_stages]
      cases state : server.repl.state with
      | none => exact ⟨1, by simp [walk, stepThread, testRole, role, state, replicationThread]⟩
      | connecting =>
          by_cases unset : server.repl.primaryFd = -1
          · exact ⟨3, by
              simp [walk, stepThread, testRole, role, state, unset, replicationThread, reconnect,
                set_primary_stages]⟩
          · exact ⟨1, by
              simp [walk, stepThread, testRole, role, state, unset, replicationThread]⟩
      | sync => exact receives (Or.inl state)
      | connected => exact receives (Or.inr state)

/-- In a run these steps of the thread are its pass. -/
theorem pass_run (server : Server) (threads : Nat → Point) (thread : Nat)
    (head : threads thread = .head) (oracle : Nat → Oracle) (received : Received)
    (connect : Connect) :
    ∃ count, run nextFailover ⟨server, threads⟩
        (List.replicate count (.advance thread oracle received connect)) =
      ⟨(replicationThread oracle received connect server).1, threads⟩ := by
  obtain ⟨count, passed⟩ := pass_alone server oracle received connect
  obtain ⟨state, -⟩ := walk_run oracle received connect thread count server threads
  exists count
  rw [state, head, passed, ← head, Function.update_eq_self]

end Passes

section Samples

/-- Threads at their heads beside a server with one connection. -/
def fresh : Failover := ⟨oneClient, fun _ => .head⟩

/-- A world at a fixed time in which a connection gets descriptor 9. -/
def reachablePrimary : Oracle := fun path => { calm 0 path with connect := .connected 9 }

def sends (text : String) : FailoverStep :=
  .serve (.receive reachablePrimary 7 (ascii text))

def thread (received : Received) : FailoverStep :=
  .advance 0 (fun _ => reachablePrimary) received (.connected 10)

/-- The promotion comes between two passes. -/
def betweenPasses : List FailoverStep :=
  [sends "REPLICAOF h 6379\r\n", thread .wouldBlock, thread .wouldBlock,
    sends "REPLICAOF NO ONE\r\n", thread .lost, thread .lost]

theorem heeded_of_trace (start : Failover) (steps : List FailoverStep)
    (all : ∀ visited ∈ trace nextFailover start steps, acts visited.1 visited.2 = true →
      visited.1.server.repl.role = .replica) : Heeded start steps := by
  intro before next inside _ acting
  have taken := trace_prefix nextFailover start steps before next inside
  exact all _ taken acting

theorem promotion_between_passes_sticks :
    Sticks fresh betweenPasses ∧ Promoted fresh betweenPasses := by
  constructor
  · apply (promotion_sticks_iff fresh betweenPasses (by decide +kernel)).mpr
    exact heeded_of_trace fresh betweenPasses (by decide +kernel)
  · show _ = _
    decide +kernel

/-- The thread has found the connection lost and sleeps when the promotion comes. -/
def duringSleep : List FailoverStep :=
  [sends "REPLICAOF h 6379\r\n", thread .wouldBlock, thread .lost,
    sends "REPLICAOF NO ONE\r\n", thread .wouldBlock, thread .wouldBlock]

/-- The thread wakes, makes a replica of the server again and connects it. -/
theorem promotion_during_sleep_is_undone :
    Admitted (interleaved · ·) nextFailover fresh duringSleep ∧ Promoted fresh duringSleep ∧
      (run nextFailover fresh duringSleep).server.repl.role = .replica ∧
        ¬ Sticks fresh duringSleep := by
  have promoted : Promoted fresh duringSleep := by
    show _ = _
    decide +kernel
  have role : (run nextFailover fresh duringSleep).server.repl.role = .replica := by
    decide +kernel
  refine ⟨by decide +kernel, promoted, role, fun sticks => ?_⟩
  have standing := sticks.1 duringSleep (List.prefix_refl _) promoted
  simp [standing.1] at role

end Samples

end CrimsonCache.Promotion
