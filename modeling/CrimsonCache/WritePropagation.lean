import CrimsonCache.ExecLoop
import CrimsonCache.LiveContents

/-!
Which runs of a handler reach the replicas. A run that changes the live part of
the database on a primary is fed once and counted once, and a call that fails
does neither.
-/

namespace CrimsonCache.WritePropagation

open CString Dictionary Persistence Replies Transaction Pubsub Replication Tokenizer ServerState
  DataCommands StoredData Commands TransactionSteps Connections ServerRuns WriteEffects LiveContents
  ExecLoop Runs

/-- Nothing that is live changed, nothing was counted and nothing was fed. -/
structure Silent (env : Env) (server : Server) (outcome : Outcome) : Prop where
  live : ∀ now, (∀ index, env.clock index ≤ now) →
    liveMapping now outcome.server.db = liveMapping now server.db
  uncounted : outcome.server.changesSinceSave = server.changesSinceSave
  unfed : fedCommands outcome.events = []

/-- The input was fed once and counted once. -/
structure Propagated (server : Server) (input : Bytes) (outcome : Outcome) : Prop where
  counted : outcome.server.changesSinceSave = server.changesSinceSave + 1
  fed : fedCommands outcome.events = [input]

section Events

theorem unfed_reply (sock : Int) (answer : Reply) : fedCommands [.reply sock answer] = [] := rfl

theorem unfed_feed (cmd : Bytes) (delivery : Nat → Delivery) (replicas : List Replica) :
    fedCommands (feedWrites cmd delivery replicas) = [] := by
  induction replicas generalizing delivery with
  | nil => rfl
  | cons replica rest ih => simpa [feedWrites, fedCommands] using ih fun index => delivery (index + 1)

theorem fed_once (env : Env) (input : Bytes) (server : Server) :
    fedCommands (fedEvents env input server) = [input] := by
  simp only [fedEvents, replicationFeedSlaves]
  split
  · have unfed := unfed_feed (framed (env.alloc .feedCopy) input) env.delivery server.repl.replicas
    simpa [fedCommands] using unfed
  · rfl

theorem unfed_sync (fd : Int) (envs : Nat → SyncEnv) (entries : List DictEntry) :
    fedCommands (syncEntries fd envs entries) = [] := by
  induction entries generalizing envs with
  | nil => rfl
  | cons entry rest ih =>
      have first : fedCommands (syncEntry (envs 0) fd entry) = [] := by
        simp only [syncEntry, syncExpire]
        split
        · rfl
        · split
          · split
            · split
              · split <;> rfl
              · rfl
            · rfl
          · rfl
      simp [syncEntries, first, ih]

theorem unfed_close (repl : ReplicationInfo) : fedCommands (closePrimary repl).2 = [] := by
  simp only [closePrimary]
  split <;> rfl

theorem unfed_set_primary (connect : Connect) (port : Int) (host : Bytes) (primaryPort : Int)
    (repl : ReplicationInfo) :
    fedCommands (replicationSetPrimary connect port host primaryPort repl).2.2 = [] := by
  have closing := unfed_close repl
  simp only [replicationSetPrimary]
  split
  · exact closing
  · exact closing
  · rw [fed_append, closing]
    rfl

theorem unfed_subscribe (channel node : Nat → Bool) (client : Client) (index count : Nat)
    (names : List Bytes) (channels : List Channel) :
    fedCommands (subscribeChannels channel node client index count names channels).2 = [] := by
  induction names generalizing index count channels with
  | nil => rfl
  | cons name rest ih =>
      simp only [subscribeChannels]
      split
      · simpa [fedCommands] using ih _ _ _
      · simpa [fedCommands] using ih _ _ _

theorem unfed_unsubscribe_all (client : Client) (channels : List Channel) :
    fedCommands (unsubscribeAll client channels).2 = [] := by
  induction channels with
  | nil => rfl
  | cons channel rest ih =>
      simp only [unsubscribeAll]
      split
      · simpa [fedCommands] using ih
      · exact ih

theorem unfed_unsubscribe (client : Client) (names : List Bytes) (channels : List Channel) :
    fedCommands (unsubscribeChannels client names channels).2 = [] := by
  induction names generalizing channels with
  | nil => rfl
  | cons name rest ih =>
      simp only [unsubscribeChannels]
      split
      · simpa [fedCommands] using ih _
      · exact ih _

theorem unfed_publish (name message : Bytes) (channels : List Channel) :
    fedCommands (pubsubPublishMessage name message channels).1 = [] := by
  simp only [pubsubPublishMessage]
  split
  · rfl
  · simp [fedCommands, List.filterMap_map]

end Events

theorem fed_executing (sock : Int) (input : Bytes) (rest : List Event) :
    fedCommands (.executing sock input :: rest) = fedCommands rest := rfl

section Handlers

/-- No handler feeds or counts on its own. -/
theorem handler_unfed (execute : Nat → Bytes → Server → Outcome) (env : Env) (sock : Int)
    (argv : List Bytes) (server : Server) (command : Command) (direct : command ≠ .exec) :
    fedCommands (runHandler execute env sock argv server command).events = [] ∧
      (runHandler execute env sock argv server command).server.changesSinceSave =
        server.changesSinceSave := by
  refine ⟨?_, (handler_untouched execute env sock argv server command direct).changesSinceSave⟩
  cases command with
  | exec => exact absurd rfl direct
  | set | get | del | exist | expire | ttl | role | incr => rfl
  | ping | save | bgsave =>
      simp only [runHandler, pingCommand, saveCommand, bgsaveCommand]
      split <;> rfl
  | multi | discard =>
      simp only [runHandler, multiCommand, discardCommand]
      split
      · rfl
      · split <;> rfl
  | replicaof =>
      have closing := unfed_close server.repl
      have connecting := unfed_set_primary env.connect server.config.port (arg argv 1)
        (atoi (arg argv 2)) server.repl
      simp only [runHandler, replicaofCommand]
      split
      · simp [replicationUnsetPrimary, closing, unfed_reply]
      · split
        · rfl
        · split
          · simp [connecting, unfed_reply]
          · simp [connecting, unfed_reply]
  | replconf =>
      simp only [runHandler, replconfCommand, addReplica]
      split
      · split
        · simp [syncReplica, unfed_sync, unfed_reply]
        · rfl
      · rfl
  | subscribe =>
      simp only [runHandler, subscribeCommand, pubsubSubscribeClient]
      split
      · rfl
      · split
        · rfl
        · exact unfed_subscribe _ _ _ _ _ _ _
  | unsubscribe =>
      simp only [runHandler, unsubscribeCommand, pubsubUnsubscribeClient]
      split
      · rfl
      · split
        · dsimp only
          split
          · rfl
          · exact unfed_unsubscribe_all _ _
        · exact unfed_unsubscribe _ _ _
  | publish =>
      simp only [runHandler, publishCommand]
      split
      · rfl
      · simp [unfed_publish, unfed_reply]

end Handlers

section Calls

/-- A run that fails is silent, one on a primary is silent or propagated, and
    whatever is counted is fed. -/
structure Accounted (run : HandlerRun) : Prop where
  failed : run.outcome.result = .err → Silent run.env run.server run.outcome
  primary : run.server.repl.role = .primary →
    Silent run.env run.server run.outcome ∨ Propagated run.server run.input run.outcome
  counted : run.outcome.server.changesSinceSave =
    run.server.changesSinceSave + (fedCommands run.outcome.events).length

theorem Accounted.of_silent {run : HandlerRun} (silent : Silent run.env run.server run.outcome) :
    Accounted run :=
  ⟨fun _ => silent, fun _ => Or.inl silent, by simp [silent.uncounted, silent.unfed]⟩

theorem refuse_silent (env : Env) (server : Server) (sock : Int) (message : String) :
    Silent env server (refuse server sock message) := by
  refine ⟨fun _ _ => rfl, rfl, ?_⟩
  simp only [refuse]
  split <;> rfl

theorem queue_silent (env : Env) (sock : Int) (input : Bytes) (server : Server) :
    Silent env server (queueInput env sock input server) := by
  simp only [queueInput]
  split
  · exact ⟨fun _ _ => rfl, rfl, rfl⟩
  · split <;> exact ⟨fun _ _ => rfl, rfl, rfl⟩

/-- The run of a row other than EXEC's. A write that answers without an error was made
    outside of a transaction, so that on a primary nothing holds its propagation back. -/
theorem row_accounted (execute : Nat → Bytes → Server → Outcome) (env : Env) (sock : Int)
    (connected : 0 ≤ sock) (input : Bytes) (argv : List Bytes) (server : Server)
    (rep : Represents server.db) (row : CommandDef) (member : row ∈ commands)
    (apart : row.command ≠ .exec)
    (allowed : inTransaction sock server = true → isTxCommand row.name = true) :
    Accounted ⟨env, server, input,
      propagate env sock input row.name (runHandler execute env sock argv server row.command)⟩ := by
  generalize handled : runHandler execute env sock argv server row.command = outcome
  obtain ⟨unfed, uncounted⟩ := handler_unfed execute env sock argv server row.command apart
  rw [handled] at unfed uncounted
  have live (now : Nat) (past : ∀ index, env.clock index ≤ now) :=
    handler_live execute env sock argv server rep now past row member apart
  rw [handled] at live
  rw [propagate_eq]
  by_cases goes : propagated sock row.name outcome = true
  · rw [if_pos goes]
    simp only [propagated, Bool.and_eq_true, decide_eq_true_eq] at goes
    have fed : fedCommands (outcome.events ++ fedEvents env input outcome.server) = [input] := by
      rw [fed_append, unfed, fed_once, List.nil_append]
    have counted : (fedServer env input outcome.server).changesSinceSave =
        server.changesSinceSave + 1 := by
      rw [← uncounted]
      rfl
    constructor
    · intro (failed : outcome.result = .err)
      simp [goes.1.1.1.1] at failed
    · exact fun _ => Or.inr ⟨counted, fed⟩
    · rw [fed]
      exact counted
  · rw [if_neg goes]
    constructor
    · intro (failed : outcome.result = .err)
      refine ⟨fun now past => ?_, uncounted, unfed⟩
      rcases live now past with same | ⟨-, ok⟩
      · exact same
      · simp [failed] at ok
    · intro isPrimary
      left
      refine ⟨fun now past => ?_, uncounted, unfed⟩
      rcases live now past with same | ⟨write, ok⟩
      · exact same
      · exfalso
        obtain ⟨answer, answers⟩ := write_answers execute env sock argv server row member write
        rw [handled] at answers
        have outside : inTransaction sock server = false := by
          cases inside : inTransaction sock server with
          | false => rfl
          | true =>
              have tx := allowed inside
              rw [write_direct row member write] at tx
              contradiction
        apply goes
        rw [answers] at ok ⊢
        have still : inTransaction sock (answered server sock answer).server = false := outside
        have role : (answered server sock answer).server.repl.role = .primary := isPrimary
        simp [propagated, ok, still, role, connected, write]
    · simp [uncounted, unfed]

theorem run_accounted (execute : Nat → Bytes → Server → Outcome) (env : Env) (sock : Int)
    (connected : 0 ≤ sock) (buffer : Bytes) (server : Server) (rep : Represents server.db)
    (direct : lower (tokens (cstr buffer)) ≠ [ascii "exec"]) :
    Accounted ⟨env, server, cstr buffer, executeWith execute env sock buffer server⟩ := by
  have ran := execute_with_cases execute env sock buffer server
  generalize executeWith execute env sock buffer server = outcome at ran
  cases ran with
  | refused message => exact Accounted.of_silent (refuse_silent env server sock message)
  | queued => exact Accounted.of_silent (queue_silent env sock _ server)
  | ran row member named arity allowed =>
      have apart : row.command ≠ .exec := fun exec =>
        direct (exec_alone row member exec (tokens (cstr buffer)) arity named)
      rw [← named] at allowed ⊢
      exact row_accounted execute env sock connected _ _ server rep row member apart allowed

/-- The loop of EXEC feeds and counts what its runs feed and count. -/
theorem queued_runs_accounted (oracle : Oracle) (sock : Int) (connected : 0 ≤ sock)
    (cmds : List Bytes) (queueable : ∀ cmd ∈ cmds, Queueable cmd) (index : Nat) (server : Server)
    (sound : Sound server.db) :
    let ran := runQueued
      (fun index cmd server => executeCommandAt 0 (oracle.inner index) sock cmd server) sock index cmds
      server
    (∀ run ∈ queuedRuns oracle sock index cmds server, Accounted run) ∧
      fedCommands ran.2 = ((queuedRuns oracle sock index cmds server).flatMap fun run =>
        fedCommands run.outcome.events) ∧
      ran.1.changesSinceSave = server.changesSinceSave + (fedCommands ran.2).length := by
  induction cmds generalizing index server with
  | nil => exact ⟨by simp [queuedRuns], rfl, rfl⟩
  | cons cmd rest ih =>
      obtain ⟨text, direct, after⟩ := queued_run_sound (oracle.inner index) sock cmd
        (queueable cmd List.mem_cons_self) server sound
      have first := run_accounted (fun _ _ server => ⟨server, [], .unknown⟩) (oracle.inner index [])
        sock connected cmd server sound.rep (text.symm ▸ direct)
      rw [text] at first
      obtain ⟨later, fed, counted⟩ := ih
        (fun other member => queueable other (List.mem_cons_of_mem cmd member)) (index + 1) _ after
      refine ⟨?_, ?_, ?_⟩
      · intro run member
        rcases List.mem_cons.mp member with rfl | tail
        · exact first
        · exact later run tail
      · simp only [queuedRuns, runQueued, List.flatMap_cons, ← fed]
        rw [← fed_append]
        rfl
      · have once := first.counted
        simp only [runQueued, fed_executing, fed_append, List.length_append]
        rw [counted, ← Nat.add_assoc]
        exact congrArg (· + _) once

/-- An EXEC that does not get to its loop is silent. -/
theorem ended_silent (sock : Int) (server : Server) (outcome : Outcome)
    (ended : ExecEnded sock server outcome) (env : Env) :
    (outcome.result = .err → Silent env server outcome) ∧ fedCommands outcome.events = [] ∧
      outcome.server.changesSinceSave = server.changesSinceSave := by
  cases ended with
  | refused message =>
      have silent := refuse_silent env server sock message
      exact ⟨fun _ => silent, silent.unfed, silent.uncounted⟩
  | rejected message => exact ⟨fun _ => ⟨fun _ _ => rfl, rfl, rfl⟩, rfl, rfl⟩
  | discarded message => exact ⟨by simp, rfl, rfl⟩

theorem exec_accounted (oracle : Oracle) (sock : Int) (connected : 0 ≤ sock) (buffer : Bytes)
    (server : Server) (wf : Wellformed server)
    (alone : lower (tokens (cstr buffer)) = [ascii "exec"]) :
    ((executeCommand oracle sock buffer server).result = .err →
        Silent (oracle []) server (executeCommand oracle sock buffer server)) ∧
      (∀ run ∈ execRuns oracle sock server, Accounted run) ∧
      fedCommands (executeCommand oracle sock buffer server).events =
        ((execRuns oracle sock server).flatMap fun run => fedCommands run.outcome.events) ∧
      (executeCommand oracle sock buffer server).server.changesSinceSave =
        server.changesSinceSave +
          (fedCommands (executeCommand oracle sock buffer server).events).length := by
  have ran := exec_cases oracle sock buffer server alone
  cases queue : execQueue oracle sock server with
  | none =>
      simp only [queue] at ran
      obtain ⟨silent, unfed, uncounted⟩ := ended_silent sock server _ ran (oracle [])
      exact ⟨silent, by simp [execRuns, queue], by simp [execRuns, queue, unfed],
        by simp [uncounted, unfed]⟩
  | some cmds =>
      simp only [queue] at ran
      obtain ⟨client, member, -, same⟩ := exec_queue_client oracle sock server cmds queue
      obtain ⟨each, fed, counted⟩ := queued_runs_accounted oracle sock connected cmds
        (same ▸ wf.queueable client member) 0 (modifyClient sock txCleanup server) wf.sound
      rw [ran]
      simp only [execRuns, queue]
      exact ⟨by simp, each, fed, counted⟩

end Calls

section Claims

/-- On a primary a run of a handler that changes what is live is fed once and counted
    once, nothing else is fed, and a call that fails changes, counts and feeds nothing. -/
theorem live_changes_are_propagated (server : Server) (reachable : Reachable server) (sock : Int)
    (connected : 0 ≤ sock) (oracle : Oracle) (buffer : Bytes) :
    (∀ run ∈ handlerRuns oracle sock buffer server, run.server.repl.role = .primary →
      ∀ now, (∀ index, run.env.clock index ≤ now) →
        liveMapping now run.outcome.server.db ≠ liveMapping now run.server.db →
          Propagated run.server run.input run.outcome) ∧
      fedCommands (executeCommand oracle sock buffer server).events =
        ((handlerRuns oracle sock buffer server).flatMap fun run =>
          fedCommands run.outcome.events) ∧
      (executeCommand oracle sock buffer server).server.changesSinceSave =
        server.changesSinceSave +
          (fedCommands (executeCommand oracle sock buffer server).events).length ∧
      ((executeCommand oracle sock buffer server).result = .err →
        Silent (oracle []) server (executeCommand oracle sock buffer server)) ∧
      ∀ run ∈ handlerRuns oracle sock buffer server, run.outcome.result = .err →
        Silent run.env run.server run.outcome := by
  have wf := reachable_wellformed server reachable
  have changes (run : HandlerRun) (accounted : Accounted run)
      (isPrimary : run.server.repl.role = .primary) (now : Nat)
      (past : ∀ index, run.env.clock index ≤ now)
      (changed : liveMapping now run.outcome.server.db ≠ liveMapping now run.server.db) :
      Propagated run.server run.input run.outcome := by
    rcases accounted.primary isPrimary with silent | propagated
    · exact absurd (silent.live now past) changed
    · exact propagated
  by_cases alone : lower (tokens (cstr buffer)) = [ascii "exec"]
  · obtain ⟨failed, each, fed, counted⟩ := exec_accounted oracle sock connected buffer server wf alone
    simp only [handlerRuns, alone, ↓reduceIte]
    exact ⟨fun run member => changes run (each run member), fed, counted, failed,
      fun run member => (each run member).failed⟩
  · have accounted := run_accounted
      (fun index cmd server => executeCommandAt 0 (oracle.inner index) sock cmd server) (oracle []) sock
      connected buffer server wf.sound.rep alone
    simp only [handlerRuns, alone, ↓reduceIte, List.mem_singleton, forall_eq, List.flatMap_cons,
      List.flatMap_nil, List.append_nil]
    exact ⟨changes _ accounted, trivial, accounted.counted, accounted.failed, accounted.failed⟩

theorem set_is_propagated :
    ∃ run ∈ handlerRuns (calm 0) 7 (ascii "SET k v\r\n") oneClient,
      Propagated run.server run.input run.outcome := by
  have direct : lower (tokens (cstr (ascii "SET k v\r\n"))) ≠ [ascii "exec"] := by decide +kernel
  have world : (handlerRuns (calm 0) 7 (ascii "SET k v\r\n") oneClient)[0]?.map (·.env) =
      some (calm 0 []) := by
    rw [handlerRuns, if_neg direct]
    rfl
  obtain ⟨run, first, calmly⟩ := Option.map_eq_some_iff.mp world
  have facts : (handlerRuns (calm 0) 7 (ascii "SET k v\r\n") oneClient)[0]?.all (fun run =>
      run.server.repl.role = .primary ∧
        liveMapping 0 run.outcome.server.db (ascii "k") ≠ liveMapping 0 run.server.db (ascii "k")) =
          true := by decide +kernel
  rw [first] at facts
  simp only [Option.all_some, decide_eq_true_eq] at facts
  obtain ⟨propagates, -⟩ := live_changes_are_propagated oneClient one_client_reachable 7 (by decide)
    (calm 0) (ascii "SET k v\r\n")
  exact ⟨run, List.mem_of_getElem? first, propagates run (List.mem_of_getElem? first) facts.1 0
    (fun _ => calmly ▸ le_refl 0) fun same => facts.2 (congrFun same (ascii "k"))⟩

/-- A primary with a REPLICAOF and a SET in the queue of its client. -/
def turning : Server :=
  run next oneClient (["MULTI\r\n", "REPLICAOF h 6379\r\n", "SET k v\r\n"].map fun input =>
    .receive (calm 0) 7 (ascii input))

theorem turning_reachable : Reachable turning := by
  obtain ⟨start, steps, starts, admitted, same⟩ := one_client_reachable
  refine ⟨start, steps ++ ["MULTI\r\n", "REPLICAOF h 6379\r\n", "SET k v\r\n"].map fun input =>
    .receive (calm 0) 7 (ascii input), starts, ?_, by rw [run_append, ← same]; rfl⟩
  rw [admitted_append, ← same]
  exact ⟨admitted, ⟨one_client_open, by decide⟩, ⟨by decide, by decide⟩,
    ⟨by decide, by decide⟩, trivial⟩

/-- The REPLICAOF takes the role away, and the SET behind it is applied all the same. -/
theorem turned_write_is_silent :
    Reachable turning ∧ turning.repl.role = .primary ∧
      ∃ run ∈ handlerRuns (calm 0) 7 (ascii "EXEC\r\n") turning,
        liveMapping 0 run.outcome.server.db ≠ liveMapping 0 run.server.db ∧
          ¬ Propagated run.server run.input run.outcome := by
  have runs : (handlerRuns (calm 0) 7 (ascii "EXEC\r\n") turning)[1]?.isSome = true := by
    decide +kernel
  obtain ⟨run, second⟩ := Option.isSome_iff_exists.mp runs
  have facts : (handlerRuns (calm 0) 7 (ascii "EXEC\r\n") turning)[1]?.all (fun run =>
      liveMapping 0 run.outcome.server.db (ascii "k") ≠ liveMapping 0 run.server.db (ascii "k") ∧
        fedCommands run.outcome.events ≠ [run.input]) = true := by decide +kernel
  rw [second] at facts
  simp only [Option.all_some, decide_eq_true_eq] at facts
  refine ⟨turning_reachable, by decide +kernel, run, List.mem_of_getElem? second, ?_, ?_⟩
  · exact fun same => facts.1 (congrFun same (ascii "k"))
  · exact fun propagated => facts.2 propagated.fed

end Claims

end CrimsonCache.WritePropagation
