import CrimsonCache.Library.Shipping
import CrimsonCache.RequestReplies
import CrimsonCache.UntimedKeys

/-!
What a primary sends to a replica that takes it whole: the lines of the writes that its clients
made, and nothing else, whatever else they do. The lines are a log of what happened to
the keys without a deadline.
-/

namespace CrimsonCache.ReplicaLines

open CString Dictionary DeadlineMap KeyEffects Framing Shipping Replies Transaction Pubsub Replication
  Tokenizer ServerState DataCommands StoredData Commands TransactionSteps Connections WriteEffects
  ReplicationThread ServerRuns AppliedWrites ReplicaAgreement DelayedReplication WritePropagation
  SplitWrites ReplicaList RequestReplies ExecLoop StepRuns Keyspace UntimedKeys Runs
open FullSync (Whole)

section Connection

variable (fd : Int)

/-- A write to a replica on the connection. -/
def relays : Event → Bool
  | .replicaWrite target _ _ => target = fd
  | _ => false

def relayed (events : List Event) : List Event := events.filter (relays fd)

@[simp] theorem relayed_nil : relayed fd [] = [] := rfl

@[simp] theorem relayed_append (first second : List Event) :
    relayed fd (first ++ second) = relayed fd first ++ relayed fd second := by
  simp [relayed]

@[simp] theorem relayed_reply (sock : Int) (answer : Reply) (rest : List Event) :
    relayed fd (.reply sock answer :: rest) = relayed fd rest := rfl

@[simp] theorem relayed_write (sock : Int) (data : Bytes) (rest : List Event) :
    relayed fd (.write sock data :: rest) = relayed fd rest := rfl

@[simp] theorem relayed_forked (db : Dict) (rest : List Event) :
    relayed fd (.forked db :: rest) = relayed fd rest := rfl

@[simp] theorem relayed_closed (sock : Int) (rest : List Event) :
    relayed fd (.closed sock :: rest) = relayed fd rest := rfl

@[simp] theorem relayed_replica (sock : Int) (other : sock ≠ fd) (data : Bytes) (result : WriteResult)
    (rest : List Event) : relayed fd (.replicaWrite sock data result :: rest) = relayed fd rest := by
  simp [relayed, relays, other]

/-- Replies and writes to replicas are all that is sent. -/
theorem sent_replies (events : List Event) (unrelayed : relayed fd events = []) :
    sentTo fd events = sentTo fd (replies fd events) := by
  induction events with
  | nil => rfl
  | cons event rest ih =>
      have tail : relayed fd rest = [] := by
        rw [relayed, List.filter_eq_nil_iff] at unrelayed ⊢
        exact fun later member => unrelayed later (List.mem_cons_of_mem event member)
      have first : ¬ relays fd event = true := List.filter_eq_nil_iff.mp unrelayed event List.mem_cons_self
      have later := ih tail
      simp only [sentTo, List.flatMap_cons] at later ⊢
      by_cases answer : isReply fd event = true
      · rw [replies, List.filter_cons_of_pos answer, List.flatMap_cons, later]
        rfl
      · rw [replies, List.filter_cons_of_neg answer, later]
        cases event with
        | reply target text =>
            have other : target ≠ fd := by simpa [isReply] using answer
            simp [Event.sent, other, replies]
        | write target text =>
            have other : target ≠ fd := by simpa [isReply] using answer
            simp [Event.sent, other, replies]
        | replicaWrite target text result =>
            have other : target ≠ fd := by simpa [relays] using first
            simp [Event.sent, other, replies]
        | fed | executing | forked | closed => rfl

theorem sent_nothing (events : List Event) (unreplied : replies fd events = [])
    (unrelayed : relayed fd events = []) : sentTo fd events = [] := by
  rw [sent_replies fd events unrelayed, unreplied]
  rfl

theorem relayed_sync (sock : Int) (apart : sock ≠ fd) (envs : Nat → SyncEnv) (entries : List DictEntry) :
    relayed fd (syncEntries sock envs entries) = [] := by
  induction entries generalizing envs with
  | nil => rfl
  | cons entry rest ih =>
      have first : relayed fd (syncEntry (envs 0) sock entry) = [] := by
        simp only [syncEntry, syncExpire]
        repeat' split
        all_goals simp [apart]
      rw [syncEntries, relayed_append, first, ih, List.append_nil]

theorem relayed_close (repl : ReplicationInfo) : relayed fd (closePrimary repl).2 = [] := by
  simp only [closePrimary]
  split <;> rfl

theorem relayed_set_primary (connect : Connect) (port : Int) (host : Bytes) (primaryPort : Int)
    (repl : ReplicationInfo) :
    relayed fd (replicationSetPrimary connect port host primaryPort repl).2.2 = [] := by
  have closing := relayed_close fd repl
  simp only [replicationSetPrimary]
  cases connect with
  | unresolved => exact closing
  | refused => exact closing
  | connected other => simp [closing]

theorem relayed_publish (name message : Bytes) (channels : List Channel) :
    relayed fd (pubsubPublishMessage name message channels).1 = [] := by
  simp only [pubsubPublishMessage]
  split
  · rfl
  · rw [relayed, List.filter_eq_nil_iff]
    intro event member
    obtain ⟨node, -, rfl⟩ := List.mem_map.mp member
    simp [relays]

theorem relayed_subscribe (channel node : Nat → Bool) (client : Client) (index count : Nat)
    (names : List Bytes) (channels : List Channel) :
    relayed fd (subscribeChannels channel node client index count names channels).2 = [] := by
  induction names generalizing index count channels with
  | nil => rfl
  | cons name rest ih =>
      simp only [subscribeChannels]
      split <;> simp [ih]

theorem relayed_unsubscribe_all (client : Client) (channels : List Channel) :
    relayed fd (unsubscribeAll client channels).2 = [] := by
  induction channels with
  | nil => rfl
  | cons channel rest ih =>
      simp only [unsubscribeAll]
      split <;> simp [ih]

theorem relayed_unsubscribe (client : Client) (names : List Bytes) (channels : List Channel) :
    relayed fd (unsubscribeChannels client names channels).2 = [] := by
  induction names generalizing channels with
  | nil => rfl
  | cons name rest ih =>
      simp only [unsubscribeChannels]
      split <;> simp [ih]

/-- No handler writes to a replica but REPLCONF, and that to its own client. -/
theorem handler_relayed (execute : Nat → Bytes → Server → Outcome) (env : Env) (sock : Int)
    (argv : List Bytes) (server : Server) (command : Command) (direct : command ≠ .exec)
    (apart : command = .replconf → sock ≠ fd) :
    relayed fd (runHandler execute env sock argv server command).events = [] := by
  cases command with
  | exec => exact absurd rfl direct
  | set | get | del | exist | expire | ttl | incr | role => rfl
  | ping | save | bgsave =>
      simp only [runHandler, pingCommand, saveCommand, bgsaveCommand, replied]
      split <;> rfl
  | multi | discard =>
      simp only [runHandler, multiCommand, discardCommand, replied]
      split
      · rfl
      · split <;> rfl
  | replicaof =>
      have closing := relayed_close fd server.repl
      have connecting := relayed_set_primary fd env.connect server.config.port (arg argv 1)
        (atoi (arg argv 2)) server.repl
      simp only [runHandler, replicaofCommand, replied]
      split
      · simp [replicationUnsetPrimary, closing]
      · split
        · simp
        · split <;> simp [connecting]
  | replconf =>
      simp only [runHandler, replconfCommand, addReplica, replied]
      split
      · split
        · simp [syncReplica, relayed_sync fd sock (apart rfl)]
        · simp
      · simp
  | subscribe =>
      simp only [runHandler, subscribeCommand, pubsubSubscribeClient, replied]
      split
      · simp
      · split
        · simp
        · exact relayed_subscribe fd _ _ _ _ _ _ _
  | unsubscribe =>
      simp only [runHandler, unsubscribeCommand, pubsubUnsubscribeClient, replied]
      split
      · simp
      · split
        · dsimp only
          split
          · simp
          · exact relayed_unsubscribe_all fd _ _
        · exact relayed_unsubscribe fd _ _ _
  | publish =>
      simp only [runHandler, publishCommand, replied]
      split
      · simp
      · simp [relayed_publish]

end Connection

section Commands

variable (region : Bytes → Bool) (fd : Int)

/-- What the link asks of a command of the primary. The connection stands once in the list of
    replicas and takes its copy whole, nothing else is sent on it, and a write goes out as one
    line and gives no key of the region a deadline. -/
structure Ships (run : HandlerRun) : Prop where
  role : run.server.repl.role = .primary
  attached : (fds run.server).count fd = 1
  whole : Whole fd (fedEvents run.env run.input run.server)
  unheard : Unheard fd run.server.channels
  elsewhere : run.env.connect ≠ .connected fd
  line : isWriteCommand (commandName run.input) = true →
    SingleLine (run.env.alloc .feedCopy) run.input
  lasts : Lasts region (tokens run.input)

/-- A line that the replica reads as one, and that gives no key of the region a deadline. -/
structure Line (line : Bytes) : Prop where
  nonempty : line ≠ []
  undivided : Undivided cr lf line
  free : 0 ∉ line
  short : line.length < 2 ^ 31
  lasts : Lasts region (tokens line)

theorem write_plain (name : Bytes) (write : isWriteCommand name = true) : isTxCommand name = false := by
  by_contra tx
  simp only [isTxCommand, Bool.or_eq_true, decide_eq_true_eq, Bool.not_eq_false] at tx
  rcases tx with (rfl | rfl) | rfl
  · exact absurd write (by decide)
  · exact absurd write (by decide)
  · exact absurd write (by decide)

theorem read_effects : ∀ row ∈ commands, isWriteCommand row.name = false →
    ∀ argv key, valueEffect argv key row.command = .same := by
  intro row member reads argv key
  have apart : ∀ row ∈ commands, isWriteCommand row.name = false →
      row.command ≠ .set ∧ row.command ≠ .del ∧ row.command ≠ .incr := by decide
  obtain ⟨set, del, incr⟩ := apart row member reads
  cases command : row.command with
  | set => exact absurd command set
  | del => exact absurd command del
  | incr => exact absurd command incr
  | _ => rfl

theorem words_read (input key : Bytes) (reads : isWriteCommand (commandName input) = false) :
    keyEffect key (tokens input) = .same := by
  simp only [keyEffect]
  cases accepted : acceptedRow (tokens input) with
  | none => rfl
  | some row =>
      obtain ⟨found, -⟩ := Option.filter_eq_some_iff.mp accepted
      have named : row.name = commandName input := by
        simpa [commandName] using List.find?_some found
      exact read_effects row (List.mem_of_find?_eq_some found) (named ▸ reads) _ key

variable (sock : Int) (apart : sock ≠ fd) (execute : Nat → Bytes → Server → Outcome) (env : Env)
  (buffer : Bytes) (server : Server)

include apart

/-- A command that is not a successful write sends nothing on the connection. -/
theorem call_events (unheard : Unheard fd server.channels) (elsewhere : env.connect ≠ .connected fd)
    (direct : lower (tokens (cstr buffer)) ≠ [ascii "exec"]) :
    let outcome := executeWith execute env sock buffer server
    (outcome.result = .ok ∧ isWriteCommand (commandName (cstr buffer)) = true) ∨
      fedCommands outcome.events = [] ∧ sentTo fd outcome.events = [] := by
  have unreplied := direct_elsewhere execute env fd sock apart elsewhere buffer server unheard direct
  have ran := execute_with_cases execute env sock buffer server
  dsimp only
  generalize executeWith execute env sock buffer server = outcome at ran unreplied
  cases ran with
  | refused message =>
      refine .inr ⟨(refuse_silent env server sock message).unfed, ?_⟩
      refine sent_nothing fd _ unreplied ?_
      simp only [refuse]
      split <;> rfl
  | queued =>
      refine .inr ⟨?_, sent_nothing fd _ unreplied ?_⟩
      · simp only [queueInput, replied]
        split
        · rfl
        · split <;> rfl
      · simp only [queueInput, replied]
        split
        · rfl
        · split <;> rfl
  | ran row member named arity =>
      have other : row.command ≠ .exec := fun exec => direct (exec_alone row member exec _ arity named)
      rw [propagate_eq] at unreplied ⊢
      split
      case isTrue goes =>
        simp only [propagated, Bool.and_eq_true, decide_eq_true_eq] at goes
        exact .inl ⟨goes.1.1.1.1, goes.2⟩
      case isFalse stays =>
        rw [if_neg stays] at unreplied
        exact .inr ⟨(handler_unfed execute env sock _ server row.command other).1,
          sent_nothing fd _ unreplied (handler_relayed fd execute env sock _ server _ other fun _ => apart)⟩

/-- What a single line of the primary sends. -/
theorem write_line (ships : Ships region fd ⟨env, server, cstr buffer, executeWith execute env sock buffer server⟩)
    (connected : 0 ≤ sock) (outside : inTransaction sock server = false)
    (write : isWriteCommand (commandName (cstr buffer)) = true)
    (ok : (executeWith execute env sock buffer server).result = .ok) :
    ∃ line, Line region line ∧ tokens line = tokens (cstr buffer) ∧
      sentTo fd (executeWith execute env sock buffer server).events = line ++ crlf := by
  obtain ⟨answer, events⟩ := write_fed execute env sock buffer server connected ships.role outside write ok
  have sent := (fed_once_each env (cstr buffer) server ships.role fd ships.whole).1
  have feed : sentTo fd (fedEvents env (cstr buffer) server) =
      sentTo fd (executeWith execute env sock buffer server).events := by
    have role : server.repl.role = .primary := ships.role
    rw [events]
    simp [fedEvents, replicationFeedSlaves, role, sentTo, Event.sent, apart]
  obtain ⟨free, line, framing, nonempty, undivided, short⟩ := ships.line write
  dsimp only at free framing
  have clean := framed_free (env.alloc .feedCopy) (cstr buffer) free
  rw [framing] at clean
  have words : tokens (line ++ crlf) = tokens line := by
    simpa using tokens_surrounded [] line crlf (by simp) crlf_blank
  have same : tokens line = tokens (cstr buffer) := by rw [← words, ← framing, framed_tokens]
  refine ⟨line, ⟨nonempty, undivided, fun zero => clean (List.mem_append_left _ zero), short,
    same ▸ ships.lasts⟩, same, ?_⟩
  · rw [← feed, sent, ships.attached, framing]
    simp

omit apart in
theorem untimed_lasting (m : Mapping) (key : Bytes) (untimed : Untimed m key) :
    lasting m key = stored m key := by
  rw [lasting, untimed]
  cases stored m key <;> rfl

omit apart in
/-- What sends nothing changes nothing in the region. -/
theorem call_silent (allocates : ∀ site, env.alloc site = true) (sound : Sound server.db)
    (connected : 0 ≤ sock) (isPrimary : server.repl.role = .primary)
    (runs : (inTransaction sock server && !isTxCommand (commandName (cstr buffer))) = false)
    (direct : lower (tokens (cstr buffer)) ≠ [ascii "exec"])
    (timeless : Timeless region (mapping server.db)) (lasts : Lasts region (tokens (cstr buffer)))
    (unfed : fedCommands (executeWith execute env sock buffer server).events = []) :
    shown region (applyWords env (tokens (cstr buffer)) (mapping server.db)) =
      shown region (mapping server.db) := by
  obtain ⟨applied, -⟩ := input_step execute env allocates sock buffer server sound runs direct
  funext key
  by_cases inside : region key = true
  · simp only [shown, inside, ↓reduceIte]
    have there := timeless key inside
    have after := words_timeless (mapping server.db) timeless env _ lasts key inside
    cases write : isWriteCommand (commandName (cstr buffer)) with
    | false =>
        have done := words_untimed _ key there env _ (lasts key inside)
        rw [words_read _ key write, Effect.run] at done
        rw [stored, done, ← there, stored]
    | true =>
        have plain := write_plain _ write
        have outside : inTransaction sock server = false := by simpa [plain] using runs
        have same : executeCommand (fun _ => env) sock (cstr buffer) server =
            executeWith execute env sock buffer server := by
          have direct : executeCommand (fun _ => env) sock (cstr buffer) server = executeWith
              (fun _ cmd server => executeCommandAt 0 (fun _ => env) sock cmd server) env sock
              (cstr buffer) server := rfl
          rw [direct, execute_cstr]
          exact (direct_execution execute env sock buffer server outside plain).2 _
        have ran := primary_writes (fun _ => env) sock connected (cstr buffer) (cstr_nul_free buffer) server
          sound isPrimary outside write
        rw [same, unfed, applied] at ran
        rcases ran with ⟨fed, -⟩ | ⟨-, stays⟩
        · cases fed
        · have value := congrFun stays key
          rwa [untimed_lasting _ key after, untimed_lasting _ key there] at value
  · simp [shown, inside]

end Commands

section Runs

variable (region : Bytes → Bool)

/-- The steps of the machine lead from one map to the other, and the bytes are the lines in which
    they log what they do in the region. -/
structure Shipped (before after : Mapping) (steps : List KeyStep) (sent : Bytes) : Prop where
  follows : after = run actKeys before steps
  timeless : Timeless region after
  logged : ∃ lines, (∀ line ∈ lines, Line region line) ∧ sent = (lines.flatMap fun line => line ++ crlf) ∧
    Logs actKeys (shown region) (redoLine region) before steps lines

variable {region}

theorem Shipped.quiet (m : Mapping) (timeless : Timeless region m) : Shipped region m m [] [] :=
  ⟨rfl, timeless, [], by simp, rfl, .nil m⟩

theorem Shipped.append {first second third : Mapping} {steps more : List KeyStep} {sent later : Bytes}
    (early : Shipped region first second steps sent) (late : Shipped region second third more later) :
    Shipped region first third (steps ++ more) (sent ++ later) := by
  obtain ⟨lines, whole, bytes, logs⟩ := early.logged
  obtain ⟨others, wholeToo, bytesToo, logsToo⟩ := late.logged
  rw [early.follows] at logsToo
  refine ⟨?_, late.timeless, lines ++ others, ?_, ?_, logs.append logsToo⟩
  · rw [run_append, ← early.follows]
    exact late.follows
  · intro line member
    exact (List.mem_append.mp member).elim (whole line) (wholeToo line)
  · rw [List.flatMap_append, bytes, bytesToo]

variable (fd : Int) {sock : Int}

/-- What the runs of handlers send on the connection. -/
def runsSent (runs : List HandlerRun) : Bytes := runs.flatMap fun run => sentTo fd run.outcome.events

theorem call_shipped (apart : sock ≠ fd) (connected : 0 ≤ sock)
    (execute : Nat → Bytes → Server → Outcome) (env : Env) (allocates : ∀ site, env.alloc site = true)
    (buffer : Bytes) (server : Server) (sound : Sound server.db)
    (runs : (inTransaction sock server && !isTxCommand (commandName (cstr buffer))) = false)
    (direct : lower (tokens (cstr buffer)) ≠ [ascii "exec"])
    (ships : Ships region fd ⟨env, server, cstr buffer, executeWith execute env sock buffer server⟩)
    (timeless : Timeless region (mapping server.db)) :
    Shipped region (mapping server.db)
      (mapping (executeWith execute env sock buffer server).server.db)
      [.call env sock (tokens (cstr buffer))]
      (sentTo fd (executeWith execute env sock buffer server).events) := by
  obtain ⟨applied, -⟩ := input_step execute env allocates sock buffer server sound runs direct
  have after := words_timeless (mapping server.db) timeless env _ ships.lasts
  rcases call_events fd sock apart execute env buffer server ships.unheard ships.elsewhere direct with
    ⟨ok, write⟩ | ⟨unfed, unsent⟩
  · have outside : inTransaction sock server = false := by simpa [write_plain _ write] using runs
    obtain ⟨line, whole, words, sent⟩ :=
      write_line region fd sock apart execute env buffer server ships connected outside write ok
    refine ⟨applied, applied ▸ after, [line], by simpa using whole, by simp [sent], ?_⟩
    refine .logged ?_ (.nil _)
    have done := words_shown (mapping server.db) timeless env line (words ▸ ships.lasts)
    rwa [words] at done
  · have same := call_silent region sock execute env buffer server allocates sound connected
      ships.role runs direct timeless ships.lasts unfed
    exact ⟨applied, applied ▸ after, [], by simp, unsent, .silent same (.nil _)⟩

theorem ships_rule (sock : Int) :
    RunRule (fun env => ∀ site, env.alloc site = true) sock fun runs before after =>
      sock ≠ fd → 0 ≤ sock → (∀ run ∈ runs, Ships region fd run) → Timeless region (mapping before.db) →
        Shipped region (mapping before.db) (mapping after.db) (runs.map (runStep sock)) (runsSent fd runs) where
  quiet before after db _ _ _ _ timeless := by
    rw [db]
    exact Shipped.quiet _ timeless
  append first second _ _ _ early late apart connected ships timeless := by
    obtain ⟨shipsFirst, shipsSecond⟩ := List.forall_mem_append.mp ships
    have led := early apart connected shipsFirst timeless
    rw [List.map_append, runsSent, List.flatMap_append]
    exact led.append (late apart connected shipsSecond led.timeless)
  call execute env buffer server allocates sound runs direct apart connected ships timeless := by
    have shipped := call_shipped fd apart connected execute env allocates buffer server sound runs direct
      (ships _ List.mem_cons_self) timeless
    simpa [runStep, runsSent] using shipped

/-- Besides its runs a call sends on its own connection only. -/
theorem input_sent (apart : sock ≠ fd) (oracle : Oracle) (buffer : Bytes) (server : Server) :
    sentTo fd (executeCommand oracle sock buffer server).events =
      runsSent fd (inputRuns oracle sock buffer server) := by
  unfold inputRuns
  split
  case isTrue queued =>
    obtain ⟨inside, plain⟩ := Bool.and_eq_true_iff.mp queued
    have ran := execute_with_cases
      (fun index cmd server => executeCommandAt 0 (oracle.inner index) sock cmd server) (oracle [])
      sock buffer server
    rw [executeCommand, executeCommandAt]
    generalize executeWith _ (oracle []) sock buffer server = outcome at ran
    cases ran with
    | refused =>
        simp only [refuse]
        split <;> simp [sentTo, Event.sent, apart, runsSent]
    | queued =>
        simp only [queueInput, replied]
        split
        · rfl
        · split <;> simp [sentTo, Event.sent, apart, runsSent]
    | ran row member named arity allowed => simp [allowed inside] at plain
  case isFalse runs =>
    simp only [handlerRuns]
    split
    case isTrue alone =>
      have ended := exec_cases oracle sock buffer server alone
      simp only [execRuns]
      cases queue : execQueue oracle sock server with
      | none =>
          simp only [queue] at ended
          generalize executeCommand oracle sock buffer server = outcome at ended
          cases ended with
          | refused message =>
              simp only [refuse]
              split <;> simp [sentTo, Event.sent, apart, runsSent]
          | rejected | discarded => simp [replied, sentTo, Event.sent, apart, runsSent]
      | some cmds =>
          simp only [queue] at ended
          rw [ended]
          simp only [queueOutcome, queued_runs_events]
          simp [sentTo, Event.sent, apart, runsSent, List.flatMap_assoc]
    case isFalse direct => simp [runsSent]

end Runs

section Primary

variable (region : Bytes → Bool) (fd : Int)

/-- What the link asks of a step of the primary. The connection of the replica stays open and sends
    nothing. -/
structure Sends (server : Server) (step : ServerStep) : Prop where
  role : server.repl.role = .primary
  apart : ∀ oracle sock chunk, step = .receive oracle sock chunk → sock ≠ fd
  ships : ∀ run ∈ (stepRuns server step).2, Ships region fd run

theorem serve_sent (oracle : Oracle) (sock : Int) (apart : sock ≠ fd) (chunk : Bytes) (server : Server) :
    sentTo fd (serve oracle sock chunk server).events =
      runsSent fd (stepRuns server (.receive oracle sock chunk)).2 := by
  have socket := attended_socket sock server
  simp only [attended] at socket
  simp only [serve, stepRuns, attended]
  cases model : server.config.concurrencyModel with
  | threaded =>
      simp only [model] at socket
      simp only [handleClient]
      cases found : openClient sock server with
      | none => rfl
      | some client =>
          have other : client.socket ≠ fd := (socket client found).symm ▸ apart
          dsimp only
          split
          · rfl
          · exact input_sent fd other oracle (client.buffer ++ chunk) server
  | eventLoop =>
      simp only [model] at socket
      simp only [handleClientMessage]
      cases found : findClient sock server with
      | none => rfl
      | some client =>
          have other : client.socket ≠ fd := (socket client found).symm ▸ apart
          dsimp only
          split
          · rfl
          · exact input_sent fd other oracle (client.buffer ++ chunk) server

/-- One step of the primary. -/
theorem step_shipped (server : Server) (wf : Wellformed server) (step : ServerStep)
    (possible : Possible server step) (allocates : Allocating step) (sends : Sends region fd server step)
    (timeless : Timeless region (mapping server.db)) :
    Shipped region (mapping server.db) (mapping (next server step).db) (keySteps server step)
      (sentTo fd (stepServer server step).2) := by
  have followed := (step_keys server wf step possible allocates).1
  cases step with
  | connect ptr socket => exact Shipped.quiet _ timeless
  | autoSave now saveNow io =>
      have same : mapping (next server (.autoSave now saveNow io)).db = mapping server.db := followed
      rw [same]
      exact Shipped.quiet _ timeless
  | sweep now =>
      obtain ⟨stays, same⟩ := sweep_timeless (mapping server.db) timeless now
      exact ⟨followed, followed ▸ stays, [], by simp, rfl, .silent same (.nil _)⟩
  | replication oracle received connect =>
      have idle : replicationThread oracle received connect server = (server, []) := by
        simp [replicationThread, sends.role]
      have none : keySteps server (.replication oracle received connect) = [] := by
        simp [keySteps, stepRuns, sends.role]
      rw [none]
      simp only [next, stepServer, idle]
      exact Shipped.quiet _ timeless
  | receive oracle sock chunk =>
      have apart := sends.apart oracle sock chunk rfl
      have connected : 0 ≤ sock := by
        obtain ⟨client, member, rfl⟩ := List.mem_map.mp possible.1
        exact wf.positive client member
      have socket := runs_socket oracle sock chunk server
      have shipped := step_rule (@ships_rule region fd) server wf (.receive oracle sock chunk)
        trivial possible allocates (by rwa [socket]) (by rwa [socket]) sends.ships timeless
      rw [← serve_sent fd oracle sock apart chunk server] at shipped
      exact shipped

end Primary

end CrimsonCache.ReplicaLines
