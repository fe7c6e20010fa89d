import CrimsonCache.ExecIsolation
import CrimsonCache.RequestReplies
import CrimsonCache.SocketFrames

/-!
The threads of the threaded model between two `write` calls. A handler works in
one step and then makes its calls one at a time; the thread goes on when the
last of them is made. No lock keeps the calls of one reply or of one EXEC
together, so that a message of another thread may come in between.
-/

namespace CrimsonCache.WriteInterleaving

open CString Replies Transaction Pubsub Replication Tokenizer ServerState DataCommands Commands
  TransactionSteps Connections ReplicationThread ServerRuns ExecLoop
  RequestReplies ThreadLoops SocketFrames Runs

section Model

/-- The server, the loop of EXEC each thread is in, the calls it has still to make, and the
    calls made so far to each socket. -/
structure Wires where
  server : Server
  loops : Int → Option Loop
  pending : Int → List Call
  delivered : Int → List Call

def idle (server : Server) : Wires := ⟨server, fun _ => none, fun _ => [], fun _ => []⟩

inductive WireStep where
  | connect (ptr : Nat) (socket : Int)
  | receive (oracle : Oracle) (sock : Int) (chunk : Bytes)
  | proceed (sock : Int)
  | write (sock : Int)
  | sweep (now : Nat)

/-- What a handler's own `write` sends: PUBLISH to its subscribers, REPLICAOF to its primary. -/
def writeKind (name : Bytes) : Kind :=
  if name = ascii "publish" then .message
  else if name = ascii "replicaof" then .line
  else .plain

/-- The calls of an input, in their order. -/
def inputCalls (input : Bytes) (events : List Event) : List Call :=
  events.flatMap (eventCalls (writeKind (commandName input)))

def inputOf (sock : Int) (chunk : Bytes) (server : Server) : Bytes :=
  match openClient sock server with
  | none => []
  | some client => cstr (client.buffer ++ chunk)

def stepWires (wires : Wires) : WireStep → Wires
  | .connect ptr socket =>
      { server := connectClient (newClient ptr socket wires.server.config) wires.server
        loops := Function.update wires.loops socket none
        pending := Function.update wires.pending socket []
        delivered := Function.update wires.delivered socket [] }
  | .receive oracle sock chunk =>
      match starts oracle sock chunk wires.server with
      | none =>
          { wires with
            server := (handleClient oracle sock chunk wires.server).server
            pending := Function.update wires.pending sock
              (inputCalls (inputOf sock chunk wires.server)
                (handleClient oracle sock chunk wires.server).events) }
      | some cmds =>
          { wires with
            server := modifyClient sock txCleanup wires.server
            loops := Function.update wires.loops sock (some ⟨sock, oracle, 0, cmds⟩)
            pending := Function.update wires.pending sock [headerCall sock cmds.length] }
  | .proceed sock =>
      match wires.loops sock with
      | none => wires
      | some loop =>
          match loop.cmds with
          | [] =>
              { wires with
                server := leaveLoop sock wires.server
                loops := Function.update wires.loops sock none }
          | cmd :: rest =>
              let outcome := executeCommandAt 0 (loop.oracle.inner loop.index) sock cmd wires.server
              { wires with
                server := outcome.server
                loops := Function.update wires.loops sock
                  (some { loop with index := loop.index + 1, cmds := rest })
                pending := Function.update wires.pending sock
                  (inputCalls (cstr cmd) outcome.events) }
  | .write sock =>
      match wires.pending sock with
      | [] => wires
      | call :: rest =>
          { wires with
            pending := Function.update wires.pending sock rest
            delivered := Function.update wires.delivered call.fd
              (wires.delivered call.fd ++ [call]) }
  | .sweep now => { wires with server := cleanupExpiredKeys now wires.server }

/-- A thread goes on when it has made its calls, and reads when it is in no loop. -/
def Steps (wires : Wires) : WireStep → Prop
  | .connect ptr socket => Possible wires.server (.connect ptr socket)
  | .receive oracle sock chunk =>
      Possible wires.server (.receive oracle sock chunk) ∧ 0 ≤ sock ∧
        wires.loops sock = none ∧ wires.pending sock = []
  | .proceed sock => (wires.loops sock).isSome = true ∧ wires.pending sock = []
  | .write sock => wires.pending sock ≠ []
  | .sweep _ => True

/-- The calls of a connection's own replies. -/
def ownCalls (sock : Int) (calls : List Call) : List Call :=
  calls.filter fun call => call.fd = sock && call.kind ≠ .message && call.kind ≠ .line

/-- The connection's thread is between the calls of a reply, or has announced replies of an EXEC
    that it has still to make. -/
def midFrame (sock : Int) (wires : Wires) : Bool :=
  match wires.loops sock, ownCalls sock (wires.pending sock) with
  | none, [] => false
  | none, call :: _ => call.kind = .more
  | some loop, [] => loop.cmds ≠ []
  | some loop, call :: _ => call.kind ≠ .header loop.cmds.length

/-- An UNSUBSCRIBE from named channels leaves one of them. -/
def Leaves (sock : Int) (input : Bytes) (server : Server) : Prop :=
  commandName input = ascii "unsubscribe" → 2 ≤ (tokens input).length →
    ∀ client, findClient sock server = some client →
      ∃ name ∈ (tokens input).tail, isSubscribed client.ptr name server.channels = true

/-- Nothing comes to the socket within a frame, each reply fits its buffer and is none of an empty
    value, the connection is no replica's, and what EXEC runs replies. -/
def Calm (sock : Int) (wires : Wires) : WireStep → Prop
  | .write thread => ∀ call rest, wires.pending thread = call :: rest → call.fd = sock →
      call.kind ≠ .line ∧ Complete call ∧ (call.kind = .message → midFrame sock wires = false)
  | .proceed thread => thread = sock → ∀ loop cmd rest, wires.loops sock = some loop →
      loop.cmds = cmd :: rest → Leaves sock (cstr cmd) wires.server
  | _ => True

end Model

section Answers

variable (kind : Kind) (sock : Int)

/-- The calls of an event that make up a reply on the connection. -/
def answer : Event → Option (List Call)
  | .reply fd answer => if fd = sock then some (replyCalls sock answer) else none
  | .write fd data => if fd = sock ∧ kind = .plain then some [⟨sock, .plain, data⟩] else none
  | _ => none

def answers (events : List Event) : List (List Call) := events.filterMap (answer kind sock)

@[simp] theorem answers_nil : answers kind sock [] = [] := rfl

@[simp] theorem answers_append (first second : List Event) :
    answers kind sock (first ++ second) = answers kind sock first ++ answers kind sock second := by
  simp [answers]

@[simp] theorem answers_reply (fd : Int) (reply : Reply) (rest : List Event) :
    answers kind sock (.reply fd reply :: rest) =
      if fd = sock then replyCalls sock reply :: answers kind sock rest
      else answers kind sock rest := by
  by_cases hit : fd = sock <;> simp [answers, answer, hit]

@[simp] theorem answers_write (fd : Int) (data : Bytes) (rest : List Event) :
    answers kind sock (.write fd data :: rest) =
      if fd = sock ∧ kind = .plain then [⟨sock, .plain, data⟩] :: answers kind sock rest
      else answers kind sock rest := by
  by_cases hit : fd = sock ∧ kind = .plain
  · simp [answers, answer, hit]
  · simp only [answers, List.filterMap_cons, answer, hit, ↓reduceIte]

theorem answers_skip (event : Event) (rest : List Event) (silent : answer kind sock event = none) :
    answers kind sock (event :: rest) = answers kind sock rest := List.filterMap_cons_none silent

@[simp] theorem answers_executing (fd : Int) (input : Bytes) (rest : List Event) :
    answers kind sock (.executing fd input :: rest) = answers kind sock rest :=
  answers_skip kind sock _ rest rfl

@[simp] theorem answers_closed (fd : Int) (rest : List Event) :
    answers kind sock (.closed fd :: rest) = answers kind sock rest := answers_skip kind sock _ rest rfl

@[simp] theorem answers_forked (db : Dictionary.Dict) (rest : List Event) :
    answers kind sock (.forked db :: rest) = answers kind sock rest := answers_skip kind sock _ rest rfl

theorem answers_silent (events : List Event)
    (silent : ∀ event ∈ events, answer kind sock event = none) : answers kind sock events = [] :=
  List.filterMap_eq_nil_iff.mpr silent

theorem answers_each (events : List Event) :
    ∀ calls ∈ answers kind sock events, Answer sock calls := by
  intro calls member
  obtain ⟨event, -, same⟩ := List.mem_filterMap.mp member
  cases event with
  | reply fd reply =>
      simp only [answer] at same
      split at same
      · exact Option.some.inj same ▸ .reply reply
      · simp at same
  | write fd data =>
      simp only [answer] at same
      split at same
      · exact Option.some.inj same ▸ .plain data
      · simp at same
  | replicaWrite | fed | executing | forked | closed => simp [answer] at same

/-- What a handler writes of its own: replies, messages, or commands for another server. -/
theorem write_kinds (name : Bytes) :
    writeKind name = .plain ∨ writeKind name = .message ∨ writeKind name = .line := by
  simp only [writeKind]
  split
  · exact Or.inr (Or.inl rfl)
  · split
    · exact Or.inr (Or.inr rfl)
    · exact Or.inl rfl

theorem own_append (first second : List Call) :
    ownCalls sock (first ++ second) = ownCalls sock first ++ ownCalls sock second := by
  simp [ownCalls]

theorem own_reply (fd : Int) (reply : Reply) :
    ownCalls sock (replyCalls fd reply) = if fd = sock then replyCalls sock reply else [] := by
  have inner (left : List Bytes) :
      ownCalls sock (continued fd left) = if fd = sock then continued sock left else [] := by
    by_cases hit : fd = sock <;> simp [ownCalls, continued, hit]
  simp only [replyCalls]
  cases reply.writes with
  | nil => simp [ownCalls]
  | cons first after =>
      have later := inner after
      by_cases hit : fd = sock
      · subst hit
        simpa [ownCalls] using later
      · simpa [ownCalls, hit] using later

/-- A connection's calls among those of an input are its replies. -/
theorem own_events (kinds : kind = .plain ∨ kind = .message ∨ kind = .line) (events : List Event) :
    ownCalls sock (events.flatMap (eventCalls kind)) = (answers kind sock events).flatten := by
  induction events with
  | nil => rfl
  | cons event rest ih =>
      rw [List.flatMap_cons, own_append, ih]
      cases event with
      | reply fd reply =>
          by_cases hit : fd = sock <;> simp [eventCalls, own_reply, hit]
      | write fd data =>
          rcases kinds with rfl | rfl | rfl
          · by_cases hit : fd = sock <;> simp [eventCalls, ownCalls, hit]
          · simp [eventCalls, ownCalls]
          · simp [eventCalls, ownCalls]
      | replicaWrite fd data result =>
          rw [answers_skip kind sock _ rest rfl]
          simp [eventCalls, ownCalls]
      | fed | executing | forked | closed =>
          rw [answers_skip kind sock _ rest rfl]
          rfl

theorem own_input (input : Bytes) (events : List Event) :
    ownCalls sock (inputCalls input events) =
      (answers (writeKind (commandName input)) sock events).flatten :=
  own_events _ sock (write_kinds _) events

end Answers

section Handlers

variable (kind : Kind) (sock : Int)

/-- Where the connection is sent nothing, it is sent no reply. -/
theorem answers_quiet (events : List Event) (quiet : replies sock events = []) :
    answers kind sock events = [] := by
  apply answers_silent
  intro event member
  have skipped := List.filter_eq_nil_iff.mp quiet event member
  cases event with
  | reply fd reply => simpa [isReply, answer] using skipped
  | write fd data =>
      have apart : fd ≠ sock := by simpa [isReply] using skipped
      simp [answer, apart]
  | replicaWrite | fed | executing | forked | closed => rfl

theorem answers_set_primary (foreign : kind ≠ .plain) (connect : Connect) (port : Int) (host : Bytes)
    (primaryPort : Int) (repl : ReplicationInfo) :
    answers kind sock (replicationSetPrimary connect port host primaryPort repl).2.2 = [] := by
  have closing := answers_quiet kind sock _ (replies_close sock repl)
  simp only [replicationSetPrimary]
  cases connect with
  | unresolved => exact closing
  | refused => exact closing
  | connected fd => simp [closing, foreign]

theorem answers_publish (foreign : kind ≠ .plain) (name message : Bytes) (channels : List Channel) :
    answers kind sock (pubsubPublishMessage name message channels).1 = [] := by
  simp only [pubsubPublishMessage]
  split
  · rfl
  · apply answers_silent
    intro event member
    obtain ⟨node, -, rfl⟩ := List.mem_map.mp member
    simp [answer, foreign]

theorem run_queued_answers (execute : Nat → Bytes → Server → Outcome) (other : Int)
    (nested : ∀ index cmd server, answers kind sock (execute index cmd server).events = [])
    (index : Nat) (cmds : List Bytes) (server : Server) :
    answers kind sock (runQueued execute other index cmds server).2 = [] := by
  induction cmds generalizing index server with
  | nil => rfl
  | cons cmd rest ih => simp [runQueued, nested, ih]

/-- A handler replies to its own connection only. -/
theorem handler_answers_elsewhere (execute : Nat → Bytes → Server → Outcome) (env : Env) (other : Int)
    (apart : other ≠ sock) (argv : List Bytes) (server : Server) (command : Command)
    (nested : command = .exec →
      ∀ index cmd server, answers kind sock (execute index cmd server).events = [])
    (foreign : command = .publish ∨ command = .replicaof → kind ≠ .plain) :
    answers kind sock (runHandler execute env other argv server command).events = [] := by
  by_cases exec : command = .exec
  · simp only [exec, runHandler, execCommand, replied]
    split
    · simp [apart]
    case h_2 client found =>
      have socket : client.socket ≠ sock := (get_mem other _ client found).2 ▸ apart
      have queued := run_queued_answers kind sock execute client.socket (nested exec) 0
        client.queuedCommands (modifyClient client.socket txCleanup server)
      split
      · simp only [txExecuteCommands]
        split
        · simp [socket]
        · split <;> simp [socket, queued]
      · simp [apart]
  by_cases publish : command = .publish
  · simp only [publish, runHandler, publishCommand, replied]
    split
    · simp [apart]
    · simp [answers_publish kind sock (foreign (Or.inl publish)), apart]
  by_cases replicaof : command = .replicaof
  · have closing := answers_quiet kind sock _ (replies_close sock server.repl)
    have connecting := answers_set_primary kind sock (foreign (Or.inr replicaof)) env.connect
      server.config.port (arg argv 1) (atoi (arg argv 2)) server.repl
    simp only [replicaof, runHandler, replicaofCommand, replied]
    split
    · simp [replicationUnsetPrimary, closing, apart]
    · split
      · simp [apart]
      · split <;> simp [connecting, apart]
  -- The other handlers write to nobody else.
  · exact answers_quiet kind sock _ (handler_elsewhere execute env sock other apart argv server command
      (fun same => absurd same replicaof) (fun same => absurd same publish) exec)

theorem subscribe_answered (channel node : Nat → Bool) (client : Client)
    (names : List Bytes) (some : names ≠ []) (channels : List Channel) :
    answers .plain client.socket (subscribeChannels channel node client 0 0 names channels).2 ≠ [] := by
  cases names with
  | nil => exact absurd rfl some
  | cons name rest =>
      simp only [subscribeChannels]
      split <;> simp

theorem unsubscribe_writes (client : Client) (name : Bytes) (channels : List Channel)
    (heard : isSubscribed client.ptr name channels = true) :
    (unsubscribeFromChannel client name channels).2 = true := by
  induction channels with
  | nil => simp [isSubscribed] at heard
  | cons channel rest ih =>
      simp only [unsubscribeFromChannel]
      by_cases here : channel.name = name
      · have node : channel.subscribers.any (·.ptr = client.ptr) = true := by
          simpa [isSubscribed, here] using heard
        simp only [here, ↓reduceIte, node]
      · have later : isSubscribed client.ptr name rest = true := by
          simpa [isSubscribed, here] using heard
        simpa only [here, ↓reduceIte] using ih later

theorem unsubscribe_keeps (client : Client) (name other : Bytes) (apart : other ≠ name)
    (channels : List Channel) :
    isSubscribed client.ptr other (unsubscribeFromChannel client name channels).1 =
      isSubscribed client.ptr other channels := by
  induction channels with
  | nil => rfl
  | cons channel rest ih =>
      simp only [unsubscribeFromChannel]
      by_cases here : channel.name = name
      · have missed : channel.name ≠ other := here ▸ apart.symm
        simp only [here, ↓reduceIte]
        split <;> simp [isSubscribed, missed, apart.symm]
      · simp only [here, ↓reduceIte]
        by_cases there : channel.name = other
        · simp [isSubscribed, there]
        · simpa [isSubscribed, there] using ih

theorem unsubscribe_answered (client : Client) (names : List Bytes) (channels : List Channel)
    (leaves : ∃ name ∈ names, isSubscribed client.ptr name channels = true) :
    answers .plain client.socket (unsubscribeChannels client names channels).2 ≠ [] := by
  induction names generalizing channels with
  | nil => simp at leaves
  | cons name rest ih =>
      simp only [unsubscribeChannels]
      by_cases heard : isSubscribed client.ptr name channels = true
      · simp [unsubscribe_writes client name channels heard]
      · obtain ⟨other, member, there⟩ := leaves
        have apart : other ≠ name := fun same => heard (same ▸ there)
        have later := ih (unsubscribeFromChannel client name channels).1
          ⟨other, (List.mem_cons.mp member).resolve_left apart, by
            rw [unsubscribe_keeps client name other apart, there]⟩
        split
        · simp
        · exact later

theorem unsubscribe_all_answered (client : Client) (channels : List Channel)
    (some : (unsubscribeAll client channels).2 ≠ []) :
    answers .plain client.socket (unsubscribeAll client channels).2 ≠ [] := by
  induction channels with
  | nil => exact absurd rfl some
  | cons channel rest ih =>
      simp only [unsubscribeAll] at some ⊢
      split
      case isTrue => simp
      case isFalse missed =>
        simp only [missed, Bool.false_eq_true, ↓reduceIte] at some
        exact ih some

/-- On its own connection a handler replies, unless it is an UNSUBSCRIBE that leaves nothing. -/
theorem handler_answered (execute : Nat → Bytes → Server → Outcome) (env : Env) (argv : List Bytes)
    (server : Server) (command : Command)
    (plain : command ≠ .publish → command ≠ .replicaof → kind = .plain)
    (subscribes : command = .subscribe → 2 ≤ argv.length)
    (leaves : command = .unsubscribe → 1 ≤ argv.length ∧ (2 ≤ argv.length →
      ∀ client, findClient sock server = some client →
        ∃ name ∈ argv.tail, isSubscribed client.ptr name server.channels = true)) :
    answers kind sock (runHandler execute env sock argv server command).events ≠ [] := by
  cases command with
  | set | get | del | exist | expire | ttl | incr => simp [runHandler, answered]
  | role =>
      obtain rfl := plain (by decide) (by decide)
      simp [runHandler, roleCommand]
  | ping | save | bgsave =>
      simp only [runHandler, pingCommand, saveCommand, bgsaveCommand, replied]
      split <;> simp
  | multi | discard =>
      simp only [runHandler, multiCommand, discardCommand, replied]
      split
      · simp
      · split <;> simp
  | exec =>
      obtain rfl := plain (by decide) (by decide)
      simp only [runHandler, execCommand, replied]
      split
      · simp
      case h_2 client found =>
        obtain ⟨-, socket⟩ := get_mem sock _ client found
        split
        · simp only [txExecuteCommands, socket]
          split
          · simp
          · split <;> simp
        · simp
  | replicaof =>
      simp only [runHandler, replicaofCommand, replied]
      split
      · simp
      · split
        · simp
        · split <;> simp
  | replconf =>
      simp only [runHandler, replconfCommand, replied]
      split <;> simp
  | publish =>
      simp only [runHandler, publishCommand, replied]
      split <;> simp
  | subscribe =>
      obtain rfl := plain (by decide) (by decide)
      have count := subscribes rfl
      simp only [runHandler, subscribeCommand, pubsubSubscribeClient, replied]
      split
      · simp
      case h_2 client found =>
        obtain ⟨-, rfl⟩ := get_mem sock _ client found
        have enough : ¬ argv.length < 2 := by omega
        simp only [enough, ↓reduceIte]
        apply subscribe_answered
        intro none
        have length := congrArg List.length none
        simp only [List.length_tail, List.length_nil] at length
        omega
  | unsubscribe =>
      obtain rfl := plain (by decide) (by decide)
      obtain ⟨least, named⟩ := leaves rfl
      simp only [runHandler, unsubscribeCommand, pubsubUnsubscribeClient, replied]
      split
      · simp
      case h_2 client found =>
        obtain ⟨-, rfl⟩ := get_mem sock _ client found
        split
        case isTrue alone =>
          dsimp only
          split
          · simp
          case isFalse some =>
            apply unsubscribe_all_answered
            intro none
            simp [none] at some
        case isFalse several =>
          exact unsubscribe_answered client _ _ (named (by omega) client found)

end Handlers

section Inputs

variable (sock : Int)

theorem foreign_rows : ∀ row ∈ commands,
    (row.command = .publish ∨ row.command = .replicaof → writeKind row.name ≠ .plain) ∧
      (row.command ≠ .publish → row.command ≠ .replicaof → writeKind row.name = .plain) ∧
      (row.command = .subscribe → row.minArgs = 2) ∧
      (row.command = .unsubscribe → row.name = ascii "unsubscribe" ∧ row.minArgs = 1) := by
  decide

theorem arity_least (row : CommandDef) (argc : Nat) (positive : 0 < row.minArgs)
    (arity : wrongArity row argc = false) : row.minArgs ≤ argc := by
  simp only [wrongArity, Bool.or_eq_false_iff, Bool.and_eq_false_iff, decide_eq_false_iff_not] at arity
  omega

theorem propagate_answers (kind : Kind) (env : Env) (other : Int) (input name : Bytes)
    (outcome : Outcome) :
    answers kind sock (propagate env other input name outcome).events =
      answers kind sock outcome.events := by
  rw [propagate_eq]
  split
  · simp [answers_quiet kind sock _ (replies_fed sock env input outcome.server)]
  · rfl

/-- What another connection's input makes the server write is no reply on this one. -/
theorem execute_answers_elsewhere (execute : Nat → Bytes → Server → Outcome) (env : Env)
    (other : Int) (apart : other ≠ sock) (buffer : Bytes) (server : Server)
    (nested : lower (tokens (cstr buffer)) = [ascii "exec"] → ∀ index cmd server,
      answers (writeKind (commandName (cstr buffer))) sock (execute index cmd server).events = []) :
    answers (writeKind (commandName (cstr buffer))) sock
      (executeWith execute env other buffer server).events = [] := by
  have ran := execute_with_cases execute env other buffer server
  generalize executeWith execute env other buffer server = outcome at ran
  cases ran with
  | refused message =>
      simp only [refuse]
      split <;> simp [apart]
  | queued _ inside =>
      obtain ⟨client, found, -⟩ := found_of_inside other server inside
      simp only [queueInput, found, replied]
      split <;> simp [apart]
  | ran row member named arity =>
      rw [propagate_answers]
      apply handler_answers_elsewhere _ sock execute env other apart
      · exact fun exec => nested (exec_alone row member exec (tokens (cstr buffer)) arity named)
      · intro own
        exact named ▸ (foreign_rows row member).1 own

/-- At its turn a queued input replies to its own connection. -/
theorem queued_answered (oracle : Oracle) (connected : 0 ≤ sock) (cmd : Bytes) (server : Server)
    (leaves : Leaves sock (cstr cmd) server) :
    answers (writeKind (commandName (cstr cmd))) sock
      (executeCommandAt 0 oracle sock cmd server).events ≠ [] := by
  have ran := execute_with_cases (fun _ _ server => ⟨server, [], .unknown⟩) (oracle []) sock cmd server
  simp only [executeCommandAt]
  generalize executeWith (fun _ _ server => ⟨server, [], .unknown⟩) (oracle []) sock cmd server =
    outcome at ran
  cases ran with
  | refused message => simp [refuse, connected]
  | queued _ inside =>
      obtain ⟨client, found, -⟩ := found_of_inside sock server inside
      simp only [queueInput, found, replied]
      split <;> simp
  | ran row member named arity =>
      obtain ⟨-, plain, subscribes, unsubscribes⟩ := foreign_rows row member
      rw [propagate_answers]
      apply handler_answered
      · intro noPublish noReplicaof
        exact named ▸ plain noPublish noReplicaof
      · intro same
        have least := arity_least row _ (by simp [subscribes same]) arity
        rw [subscribes same] at least
        rw [lower_length]
        omega
      · intro same
        obtain ⟨name, one⟩ := unsubscribes same
        have least := arity_least row _ (by simp [one]) arity
        rw [one] at least
        have tail : (lower (tokens (cstr cmd))).tail = (tokens (cstr cmd)).tail := by
          cases tokens (cstr cmd) <;> rfl
        rw [lower_length, tail]
        exact ⟨by omega, leaves (named.symm.trans name)⟩

/-- One read of another connection, short of a loop of EXEC, writes no reply on this one. -/
theorem read_answers_elsewhere (oracle : Oracle) (other : Int) (apart : other ≠ sock) (chunk : Bytes)
    (server : Server) (unstarted : starts oracle other chunk server = none) :
    ownCalls sock (inputCalls (inputOf other chunk server)
      (handleClient oracle other chunk server).events) = [] := by
  rw [own_input]
  simp only [starts] at unstarted
  simp only [inputOf, handleClient]
  cases found : openClient other server with
  | none => simp
  | some client =>
      obtain ⟨-, socket⟩ := open_client_mem other server client found
      simp only [found] at unstarted
      by_cases ended : chunk = []
      · simp [ended, disconnectClient]
      · simp only [ended, ↓reduceIte, readInput, List.flatten_eq_nil_iff, socket]
        by_cases alone : lower (tokens (cstr (client.buffer ++ chunk))) = [ascii "exec"]
        · have queue : execQueue oracle other server = none := by simpa [ended, alone] using unstarted
          have ran := exec_cases oracle other (client.buffer ++ chunk) server alone
          simp only [queue] at ran
          generalize executeCommand oracle other (client.buffer ++ chunk) server = outcome at ran
          cases ran with
          | refused message =>
              simp only [refuse]
              split <;> simp [apart]
          | rejected message => simp [replied, apart]
          | discarded message => simp [apart]
        · have silent := execute_answers_elsewhere sock
            (fun index cmd server => executeCommandAt 0 (oracle.inner index) other cmd server)
            (oracle []) other apart (client.buffer ++ chunk) server (fun exec => absurd exec alone)
          simp only [executeCommand, executeCommandAt] at silent ⊢
          simp [silent]

end Inputs

section Invariant

variable (sock : Int)

/-- The reader stands within a frame only while the thread still has the rest of it to write. -/
def Owes (loop : Option Loop) (own : List Call) (now later : Reader) : Prop :=
  readAll now own = some later ∧
    match loop with
    | none => now.owed = 0 ∧ later = atRest ∧ ∀ call ∈ own, ∀ count, call.kind ≠ .header count
    | some loop => later.rest = [] ∧ later.owed ≤ loop.cmds.length

structure Orderly (wires : Wires) : Prop where
  foreign : ∀ thread, thread ≠ sock → ownCalls sock (wires.pending thread) = []
  connected : ∀ loop, wires.loops sock = some loop → 0 ≤ sock
  whole : ∀ call ∈ wires.delivered sock, call.fd = sock ∧ Complete call
  read : ∃ now later, readAll atRest (wires.delivered sock) = some now ∧
    Owes (wires.loops sock) (ownCalls sock (wires.pending sock)) now later

theorem idle_orderly (server : Server) : Orderly sock (idle server) where
  foreign := fun _ _ => rfl
  connected := fun _ wrong => by simp [idle] at wrong
  whole := fun _ member => by simp [idle] at member
  read := ⟨atRest, atRest, rfl, rfl, rfl, rfl, by simp [idle, ownCalls]⟩

/-- Between frames the reader is at rest. -/
theorem between_rest (wires : Wires) (now later : Reader)
    (owes : Owes (wires.loops sock) (ownCalls sock (wires.pending sock)) now later)
    (between : midFrame sock wires = false) : now = atRest := by
  obtain ⟨goes, stage⟩ := owes
  simp only [midFrame] at between
  obtain ⟨rest, owed⟩ := now
  cases loop : wires.loops sock with
  | none =>
      simp only [loop] at between stage
      obtain ⟨rfl, rfl, -⟩ := stage
      cases own : ownCalls sock (wires.pending sock) with
      | nil => exact Option.some.inj (by simpa [own, readAll] using goes)
      | cons call others =>
          simp only [own, decide_eq_false_iff_not] at between
          cases rest with
          | nil => rfl
          | cons data after =>
              have stuck : read ⟨data :: after, 0⟩ call = none := by
                cases kind : call.kind <;> simp_all [SocketFrames.read]
              simp [own, readAll, stuck] at goes
  | some loop =>
      simp only [loop] at between stage
      obtain ⟨ended, few⟩ := stage
      cases own : ownCalls sock (wires.pending sock) with
      | nil =>
          simp only [own, ne_eq, decide_not, Bool.not_eq_eq_eq_not, Bool.not_false,
            decide_eq_true_eq] at between
          obtain rfl := Option.some.inj (by simpa [own, readAll] using goes)
          simp only [between, List.length_nil, Nat.le_zero] at few ended
          simp [atRest, few, ended]
      | cons call others =>
          simp only [own, ne_eq, decide_not, Bool.not_eq_eq_eq_not, Bool.not_false,
            decide_eq_true_eq] at between
          cases rest with
          | nil =>
              by_cases free : owed = 0
              · simp [atRest, free]
              · have stuck : SocketFrames.read ⟨[], owed⟩ call = none := by
                  simp [SocketFrames.read, between, free]
                simp [own, readAll, stuck] at goes
          | cons data after =>
              have stuck : SocketFrames.read ⟨data :: after, owed⟩ call = none := by
                simp [SocketFrames.read, between]
              simp [own, readAll, stuck] at goes

end Invariant

section Steps

variable (sock : Int)

/-- Steps of other threads that write nothing to the socket. -/
theorem aside_orderly (wires after : Wires) (orderly : Orderly sock wires)
    (loops : after.loops sock = wires.loops sock) (pending : after.pending sock = wires.pending sock)
    (delivered : after.delivered sock = wires.delivered sock)
    (foreign : ∀ thread, thread ≠ sock → ownCalls sock (after.pending thread) = []) :
    Orderly sock after where
  foreign := foreign
  connected := loops ▸ orderly.connected
  whole := delivered ▸ orderly.whole
  read := by
    rw [loops, pending, delivered]
    exact orderly.read

theorem update_foreign (wires : Wires) (orderly : Orderly sock wires) (thread : Int)
    (calls : List Call) (silent : thread ≠ sock → ownCalls sock calls = []) (other : Int)
    (apart : other ≠ sock) : ownCalls sock (Function.update wires.pending thread calls other) = [] := by
  by_cases same : other = thread
  · subst same
    simp [silent apart]
  · simp [same, orderly.foreign other apart]

/-- The thread of the connection puts up its next calls. -/
theorem own_orderly (wires after : Wires) (orderly : Orderly sock wires) (calls : List Call)
    (pending : after.pending = Function.update wires.pending sock calls)
    (delivered : after.delivered = wires.delivered)
    (connected : ∀ loop, after.loops sock = some loop → 0 ≤ sock)
    (owes : ∀ now, readAll atRest (wires.delivered sock) = some now →
      Owes (wires.loops sock) [] now now →
      ∃ later, Owes (after.loops sock) (ownCalls sock calls) now later)
    (done : wires.pending sock = []) : Orderly sock after where
  foreign := fun thread apart => by
    rw [pending]
    exact update_foreign sock wires orderly sock calls (fun wrong => absurd rfl wrong) thread apart
  connected := connected
  whole := delivered ▸ orderly.whole
  read := by
    obtain ⟨now, later, reads, owed⟩ := orderly.read
    have none : ownCalls sock (wires.pending sock) = [] := by simp [done, ownCalls]
    rw [none] at owed
    obtain rfl : now = later := Option.some.inj owed.1
    obtain ⟨final, owing⟩ := owes now reads owed
    exact ⟨now, final, by rw [delivered, reads], by simpa [pending] using owing⟩

theorem connect_orderly (wires : Wires) (orderly : Orderly sock wires) (ptr : Nat) (socket : Int) :
    Orderly sock (stepWires wires (.connect ptr socket)) := by
  have foreign := update_foreign sock wires orderly socket [] fun _ => rfl
  by_cases same : socket = sock
  · subst same
    exact ⟨foreign, by simp [stepWires], by simp [stepWires],
      atRest, atRest, by simp [stepWires, readAll], by simp [stepWires, Owes, ownCalls, readAll, atRest]⟩
  · have other : sock ≠ socket := Ne.symm same
    exact aside_orderly sock wires _ orderly (by simp [stepWires, other]) (by simp [stepWires, other])
      (by simp [stepWires, other]) foreign

theorem receive_orderly (wires : Wires) (orderly : Orderly sock wires) (oracle : Oracle)
    (thread : Int) (chunk : Bytes) (allowed : Steps wires (.receive oracle thread chunk)) :
    Orderly sock (stepWires wires (.receive oracle thread chunk)) := by
  obtain ⟨-, positive, outside, done⟩ := allowed
  simp only [stepWires]
  cases started : starts oracle thread chunk wires.server with
  | none =>
      by_cases same : thread = sock
      · subst same
        refine own_orderly thread wires _ orderly _ rfl rfl orderly.connected (fun now _ owed => ?_) done
        obtain ⟨-, stage⟩ := owed
        simp only [outside] at stage ⊢
        obtain ⟨-, rfl, -⟩ := stage
        rw [own_input]
        have reads := read_answers thread 0 _ (answers_each (writeKind (commandName
          (inputOf thread chunk wires.server))) thread
          (handleClient oracle thread chunk wires.server).events)
        refine ⟨atRest, by simpa [atRest] using reads, rfl, rfl, ?_⟩
        intro call member count
        obtain ⟨calls, there, inside⟩ := List.mem_flatten.mp member
        exact answer_inner thread calls (answers_each _ _ _ calls there) call inside count
      · have silent := read_answers_elsewhere sock oracle thread same chunk wires.server started
        exact aside_orderly sock wires _ orderly rfl (by simp [Ne.symm same]) rfl
          (update_foreign sock wires orderly thread _ fun _ => silent)
  | some cmds =>
      by_cases same : thread = sock
      · subst same
        refine own_orderly thread wires _ orderly _ rfl rfl (fun _ _ => positive) (fun now _ owed => ?_)
          done
        obtain ⟨-, stage⟩ := owed
        simp only [outside] at stage
        obtain ⟨-, rfl, -⟩ := stage
        refine ⟨⟨[], cmds.length⟩, ?_, ?_⟩
        · simp [ownCalls, headerCall, readAll, SocketFrames.read, atRest]
        · simp
      · refine aside_orderly sock wires _ orderly (by simp [Ne.symm same]) (by simp [Ne.symm same]) rfl
          (update_foreign sock wires orderly thread _ fun _ => ?_)
        simp [ownCalls, headerCall, same]

theorem proceed_orderly (wires : Wires) (orderly : Orderly sock wires) (thread : Int)
    (allowed : Steps wires (.proceed thread)) (calm : Calm sock wires (.proceed thread)) :
    Orderly sock (stepWires wires (.proceed thread)) := by
  obtain ⟨-, done⟩ := allowed
  simp only [stepWires]
  cases inside : wires.loops thread with
  | none => exact orderly
  | some loop =>
      obtain ⟨owner, oracle, index, cmds⟩ := loop
      dsimp only
      cases cmds with
      | nil =>
          by_cases same : thread = sock
          · subst same
            refine own_orderly thread wires _ orderly [] (by simp [← done]) rfl (by simp)
              (fun now _ owed => ?_) done
            obtain ⟨-, stage⟩ := owed
            simp only [inside, List.length_nil, Nat.le_zero] at stage
            obtain ⟨ended, paid⟩ := stage
            obtain rfl : now = atRest := by
              cases now
              simp_all [atRest]
            exact ⟨atRest, by simp [Owes, ownCalls, readAll, atRest]⟩
          · exact aside_orderly sock wires _ orderly (by simp [Ne.symm same]) rfl rfl orderly.foreign
      | cons cmd rest =>
          by_cases same : thread = sock
          · subst same
            have connected := orderly.connected _ inside
            refine own_orderly thread wires _ orderly _ rfl rfl (fun _ _ => connected)
              (fun now _ owed => ?_) done
            obtain ⟨-, stage⟩ := owed
            simp only [inside, List.length_cons] at stage
            obtain ⟨ended, few⟩ := stage
            have some := List.length_pos_of_ne_nil (queued_answered thread (oracle.inner index) connected
              cmd wires.server (calm rfl _ cmd rest inside rfl))
            obtain ⟨now, owed⟩ := now
            obtain rfl : now = [] := ended
            rw [own_input]
            have reads := read_answers thread owed _ (answers_each (writeKind (commandName (cstr cmd)))
              thread (executeCommandAt 0 (oracle.inner index) thread cmd wires.server).events)
            refine ⟨_, reads, ?_⟩
            simp only [Function.update_self]
            dsimp only at few
            exact ⟨trivial, by omega⟩
          · refine aside_orderly sock wires _ orderly (by simp [Ne.symm same]) (by simp [Ne.symm same])
              rfl (update_foreign sock wires orderly thread _ fun _ => ?_)
            rw [own_input, List.flatten_eq_nil_iff]
            have silent := execute_answers_elsewhere sock (fun _ _ server => ⟨server, [], .unknown⟩)
              (oracle.inner index []) thread same cmd wires.server fun _ _ _ _ => rfl
            simp only [executeCommandAt]
            simp [silent]

theorem own_cons (call : Call) (rest : List Call) :
    ownCalls sock (call :: rest) =
      if call.fd = sock ∧ call.kind ≠ .message ∧ call.kind ≠ .line then call :: ownCalls sock rest
      else ownCalls sock rest := by
  simp only [ownCalls, List.filter_cons, Bool.and_eq_true, decide_eq_true_eq, and_assoc]

/-- A call that is none of the connection's own leaves what it has still to read. -/
theorem rest_unchanged (wires : Wires) (thread : Int) (call : Call) (rest : List Call)
    (waiting : wires.pending thread = call :: rest)
    (other : ¬ (call.fd = sock ∧ call.kind ≠ .message ∧ call.kind ≠ .line)) :
    ownCalls sock (Function.update wires.pending thread rest sock) =
      ownCalls sock (wires.pending sock) := by
  by_cases same : sock = thread
  · subst same
    rw [Function.update_self, waiting, own_cons, if_neg other]
  · rw [Function.update_of_ne same]

theorem rest_foreign (wires : Wires) (orderly : Orderly sock wires) (thread : Int) (call : Call)
    (rest : List Call) (waiting : wires.pending thread = call :: rest) (other : Int)
    (apart : other ≠ sock) : ownCalls sock (Function.update wires.pending thread rest other) = [] := by
  refine update_foreign sock wires orderly thread rest (fun strange => ?_) other apart
  have none := orderly.foreign thread strange
  rw [waiting, own_cons] at none
  split at none
  · simp at none
  · exact none

/-- The reader takes the next of the connection's own calls, and owes the rest. -/
theorem owes_next (loop : Option Loop) (call : Call) (own : List Call) (now later : Reader)
    (owes : Owes loop (call :: own) now later) :
    ∃ middle, SocketFrames.read now call = some middle ∧ Owes loop own middle later := by
  obtain ⟨goes, stage⟩ := owes
  rw [readAll] at goes
  cases taken : SocketFrames.read now call with
  | none => simp [taken] at goes
  | some middle =>
      rw [taken, Option.bind_some] at goes
      refine ⟨middle, rfl, goes, ?_⟩
      cases loop with
      | some loop => exact stage
      | none =>
          obtain ⟨paid, ended, inner⟩ := stage
          have less := read_owed now middle call (inner call List.mem_cons_self) taken
          exact ⟨by omega, ended, fun other member => inner other (List.mem_cons_of_mem _ member)⟩

section Write

variable (wires : Wires) (orderly : Orderly sock wires) (thread : Int) (call : Call)
  (rest : List Call) (waiting : wires.pending thread = call :: rest)

include orderly waiting

theorem elsewhere_orderly (away : call.fd ≠ sock) :
    Orderly sock { wires with
      pending := Function.update wires.pending thread rest
      delivered := Function.update wires.delivered call.fd (wires.delivered call.fd ++ [call]) } := by
  have elsewhere : sock ≠ call.fd := Ne.symm away
  obtain ⟨now, later, reads, owed⟩ := orderly.read
  have unchanged := rest_unchanged sock wires thread call rest waiting fun own => away own.1
  refine ⟨rest_foreign sock wires orderly thread call rest waiting, orderly.connected,
    by simpa [elsewhere] using orderly.whole, now, later, ?_, ?_⟩
  · simpa [elsewhere] using reads
  · simpa only [unchanged] using owed

/-- A call that the reader takes is read after all that was delivered. -/
theorem taken_orderly (here : call.fd = sock) (complete : Complete call) (now middle later : Reader)
    (reads : readAll atRest (wires.delivered sock) = some now)
    (taken : SocketFrames.read now call = some middle)
    (owed : Owes (wires.loops sock)
      (ownCalls sock (Function.update wires.pending thread rest sock)) middle later) :
    Orderly sock { wires with
      pending := Function.update wires.pending thread rest
      delivered := Function.update wires.delivered call.fd (wires.delivered call.fd ++ [call]) } := by
  have whole : ∀ other ∈ wires.delivered sock ++ [call], other.fd = sock ∧ Complete other := by
    intro other member
    rcases List.mem_append.mp member with old | new
    · exact orderly.whole other old
    · exact List.mem_singleton.mp new ▸ ⟨here, complete⟩
  refine ⟨rest_foreign sock wires orderly thread call rest waiting, orderly.connected,
    by simpa [here] using whole, middle, later, ?_, owed⟩
  simp only [here, Function.update_self]
  rw [read_all_snoc atRest now _ call reads, taken]

end Write

/-- What comes to the socket: the next call of its own thread, or a message between frames. -/
theorem write_orderly (wires : Wires) (orderly : Orderly sock wires) (thread : Int)
    (calm : Calm sock wires (.write thread)) :
    Orderly sock (stepWires wires (.write thread)) := by
  simp only [stepWires]
  cases waiting : wires.pending thread with
  | nil => exact orderly
  | cons call rest =>
      by_cases here : call.fd = sock
      · obtain ⟨notLine, complete, between⟩ := calm call rest waiting here
        obtain ⟨now, later, reads, owed⟩ := orderly.read
        have taken := taken_orderly sock wires orderly thread call rest waiting here complete now
        by_cases message : call.kind = .message
        · obtain rfl := between_rest sock wires now later owed (between message)
          have unchanged := rest_unchanged sock wires thread call rest waiting
            fun own => own.2.1 message
          have skipped : SocketFrames.read atRest call = some atRest := by
            simp [SocketFrames.read, message, atRest]
          exact taken atRest later reads skipped (by rwa [unchanged])
        · have own : call.fd = sock ∧ call.kind ≠ .message ∧ call.kind ≠ .line :=
            ⟨here, message, notLine⟩
          obtain rfl : thread = sock := by
            by_contra apart
            have none := orderly.foreign thread apart
            rw [waiting, own_cons, if_pos own] at none
            simp at none
          rw [waiting, own_cons, if_pos own] at owed
          obtain ⟨middle, read, owing⟩ := owes_next _ call _ now later owed
          exact taken middle later reads read (by rwa [Function.update_self])
      · exact elsewhere_orderly sock wires orderly thread call rest waiting here

theorem step_orderly (wires : Wires) (step : WireStep) (orderly : Orderly sock wires)
    (allowed : Steps wires step ∧ Calm sock wires step) : Orderly sock (stepWires wires step) := by
  cases step with
  | connect ptr socket => exact connect_orderly sock wires orderly ptr socket
  | receive oracle thread chunk => exact receive_orderly sock wires orderly oracle thread chunk allowed.1
  | proceed thread => exact proceed_orderly sock wires orderly thread allowed.1 allowed.2
  | write thread => exact write_orderly sock wires orderly thread allowed.2
  | sweep now => exact aside_orderly sock wires _ orderly rfl rfl rfl orderly.foreign

end Steps

section Runs

/-- In a run without such interleavings the calls to a connection are whole frames, each a RESP
    value, and at most the beginning of one more; when its thread is at rest there is none. -/
theorem calls_stay_framed (sock : Int) (server : Server) (steps : List WireStep)
    (admitted : Admitted (fun wires step => Steps wires step ∧ Calm sock wires step) stepWires
      (idle server) steps) :
    let wires := run stepWires (idle server) steps
    ∃ (frames : List (List Call)) (current more : List Call),
      wires.delivered sock = frames.flatten ++ current ∧
        bytes (wires.delivered sock) = (frames.map bytes).flatten ++ bytes current ∧
        (∀ frame ∈ frames, Frame sock frame ∧ Resp (bytes frame)) ∧ Frame sock (current ++ more) ∧
        (wires.pending sock = [] → wires.loops sock = none → current = []) := by
  intro wires
  have orderly : Orderly sock wires :=
    run_invariant _ stepWires (step_orderly sock) (idle server) (idle_orderly sock server) steps admitted
  obtain ⟨now, later, reads, goes, stage⟩ := orderly.read
  obtain ⟨frames, current, same, whole, opened⟩ :=
    read_all_splits sock _ (fun call member => (orderly.whole call member).1) now reads
  obtain ⟨more, part⟩ := opened_part sock now current opened
  refine ⟨frames, current, more, same, ?_, ?_, part, ?_⟩
  · rw [same, ← bytes_flatten]
    exact List.flatMap_append
  · intro frame member
    refine ⟨whole frame member, frame_resp sock frame (whole frame member) fun call there => ?_⟩
    have inside : call ∈ wires.delivered sock := by
      rw [same]
      exact List.mem_append_left _ (List.mem_flatten.mpr ⟨frame, member, there⟩)
    exact (orderly.whole call inside).2
  · intro done outside
    rw [done] at goes
    rw [outside] at stage
    obtain rfl : now = later := Option.some.inj goes
    obtain ⟨-, rfl, -⟩ := stage
    obtain ⟨front, begun, rfl, inside, awaits⟩ := opened
    obtain rfl : front = [] := by simpa [Awaits, atRest] using awaits
    simpa [Begun, atRest] using inside

instance (wires : Wires) : ∀ step, Decidable (Steps wires step)
  | .connect _ _ => inferInstanceAs (Decidable (_ ∧ _ ∧ _))
  | .receive _ _ _ => inferInstanceAs (Decidable ((_ ∧ _) ∧ _ ∧ _ ∧ _))
  | .proceed _ => inferInstanceAs (Decidable (_ ∧ _))
  | .write _ => inferInstanceAs (Decidable (_ ≠ _))
  | .sweep _ => inferInstanceAs (Decidable True)

/-- A bulk reply in three calls. -/
def bulkSteps : List WireStep :=
  [.connect 1 7, .receive (calm 0) 7 (ascii "PING v\r\n"), .write 7, .write 7, .write 7]

theorem bulk_stays_framed :
    let wires := run stepWires (idle emptyServer) bulkSteps
    ∃ (frames : List (List Call)) (current more : List Call),
      wires.delivered 7 = frames.flatten ++ current ∧
        bytes (wires.delivered 7) = (frames.map bytes).flatten ++ bytes current ∧
        (∀ frame ∈ frames, Frame 7 frame ∧ Resp (bytes frame)) ∧ Frame 7 (current ++ more) ∧
        (wires.pending 7 = [] → wires.loops 7 = none → current = []) := by
  apply calls_stay_framed 7 emptyServer bulkSteps
  have first : (run stepWires (idle emptyServer) (bulkSteps.take 2)).pending 7 =
      replyCalls 7 (.bulk (ascii "v")) := by decide +kernel
  have second : (run stepWires (idle emptyServer) (bulkSteps.take 3)).pending 7 =
      continued 7 [ascii "v", crlf] := by decide +kernel
  have third : (run stepWires (idle emptyServer) (bulkSteps.take 4)).pending 7 =
      continued 7 [crlf] := by decide +kernel
  rw [admitted_and]
  refine ⟨by decide +kernel, trivial, trivial, ?_, ?_, ?_, trivial⟩
  · intro call rest same _
    obtain ⟨rfl, -⟩ := List.cons.inj (same.symm.trans first)
    exact ⟨by decide, show Fits (.bulk (ascii "v")) by decide +kernel, by simp⟩
  · intro call rest same _
    obtain ⟨rfl, -⟩ := List.cons.inj (same.symm.trans second)
    exact ⟨by decide, trivial, by simp⟩
  · intro call rest same _
    obtain ⟨rfl, -⟩ := List.cons.inj (same.symm.trans third)
    exact ⟨by decide, trivial, by simp⟩

/-- A message comes between the calls of a bulk reply. -/
def tornSteps : List WireStep :=
  [.connect 1 7, .connect 2 8, .receive (calm 0) 7 (ascii "SUBSCRIBE c\r\n"), .write 7,
    .receive (calm 0) 8 (ascii "PUBLISH c m\r\n"), .receive (calm 0) 7 (ascii "PING v\r\n"),
    .write 7, .write 8, .write 7, .write 7, .write 8]

theorem message_tears_bulk :
    Starts emptyServer ∧ Admitted Steps stepWires (idle emptyServer) tornSteps ∧
      let wires := run stepWires (idle emptyServer) tornSteps
      wires.pending 7 = [] ∧ wires.pending 8 = [] ∧ wires.loops 7 = none ∧
        ¬ ∃ values : List Bytes, (∀ value ∈ values, Resp value) ∧
          bytes (wires.delivered 7) = values.flatten := by
  refine ⟨empty_starts, by decide +kernel, by decide +kernel, by decide +kernel, by decide +kernel, ?_⟩
  rintro ⟨values, each, same⟩
  have taken := stream_taken values each
  rw [← same] at taken
  exact absurd taken (by decide +kernel)

end Runs

end CrimsonCache.WriteInterleaving
