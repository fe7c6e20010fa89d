import CrimsonCache.ServerRuns

/-!
What EXEC runs, told from the outside. A trace records what each connection
sent and what the server did about it; a session is what the trace says of one
socket since its latest successful MULTI. The sessions of a run are the queues
that the server keeps, whichever connection holds a socket number.
-/

namespace CrimsonCache.TransactionQueue

open CString Dictionary Persistence Replies Transaction Pubsub Replication Tokenizer ServerState
  DataCommands StoredData Commands TransactionSteps Connections ServerRuns Runs

inductive Record where
  | connected (socket : Int)
  | input (socket : Int) (input : Bytes) (events : List Event)
  | closed (socket : Int) (events : List Event)

/-- Since the latest successful MULTI: the inputs answered QUEUED, and whether
    one was answered otherwise. -/
structure Session where
  inputs : List Bytes
  failed : Bool
  deriving DecidableEq

def Session.queue (input : Bytes) (session : Session) : Session :=
  { session with inputs := session.inputs ++ [input] }

def Session.fail (session : Session) : Session := { session with failed := true }

/-- What one input of the connection itself means for its session. -/
def observeInput (sock : Int) (input : Bytes) (events : List Event) (session : Option Session) :
    Option Session :=
  if lower (tokens input) = [ascii "multi"] ∧ .reply sock okReply ∈ events then some ⟨[], false⟩
  else if lower (tokens input) = [ascii "exec"] ∨ lower (tokens input) = [ascii "discard"] then none
  else if .reply sock queuedReply ∈ events then session.map (Session.queue input)
  else if .reply sock queueFailedReply ∈ events then session.map Session.fail
  else session

def observe (sock : Int) (session : Option Session) : Record → Option Session
  | .connected socket => if socket = sock then none else session
  | .closed socket _ => if socket = sock then none else session
  | .input socket input events =>
      if socket = sock then observeInput sock input events session else session

def sessionOf (sock : Int) (trace : List Record) : Option Session := trace.foldl (observe sock) none

/-- The inputs an EXEC has to run: all that were queued, or none. -/
def due : Option Session → List Bytes
  | none => []
  | some session => if session.failed then [] else session.inputs

/-- A record in which exactly the due inputs are executed. -/
def Exact (before : List Record) : Record → Prop
  | .connected _ => True
  | .closed socket events => executedInputs socket events = []
  | .input socket input events =>
      executedInputs socket events =
        if lower (tokens input) = [ascii "exec"] then due (sessionOf socket before) else []

structure Traced where
  server : Server
  trace : List Record

def records (server : Server) : ServerStep → List Record
  | .connect _ socket => [.connected socket]
  | .receive oracle socket chunk =>
      let reading := serve oracle socket chunk server
      match reading.passed with
      | [] => [.closed socket reading.events]
      | buffer :: _ => [.input socket (cstr buffer) reading.events]
  | _ => []

def tracedStep (traced : Traced) (step : ServerStep) : Traced where
  server := next traced.server step
  trace := traced.trace ++ records traced.server step

/-- Only the allocations of `tx_queue_command` may fail. -/
def QueueMayFail (oracle : Oracle) : Prop :=
  ∀ path site, site ≠ .queueArray → site ≠ .queueCopy → (oracle path).alloc site = true

def Allowed (traced : Traced) : ServerStep → Prop
  | .receive oracle socket chunk =>
      Possible traced.server (.receive oracle socket chunk) ∧ QueueMayFail oracle
  | step => Possible traced.server step

section Session

/-- The session that the server keeps for a client. -/
def view (client : Client) : Option Session :=
  if client.inTransaction then some ⟨client.queuedCommands, client.transactionErrors⟩ else none

def held (sock : Int) (clients : ClientList) : Option Session :=
  (getClientBySocket sock clients).bind view

theorem held_inside (sock : Int) (clients : ClientList) (client : Client)
    (found : getClientBySocket sock clients = some client) (inside : client.inTransaction = true) :
    held sock clients = some ⟨client.queuedCommands, client.transactionErrors⟩ := by
  simp [held, found, view, inside]

theorem held_update (sock : Int) (change : Client → Client) (keeps : KeepsSocket change)
    (clients : ClientList) (client : Client)
    (found : getClientBySocket sock clients = some client) :
    held sock (updateClient sock change clients) = view (change client) := by
  simp [held, get_update sock sock change keeps, found]

theorem held_other (sock other : Int) (change : Client → Client) (keeps : KeepsSocket change)
    (clients : ClientList) (different : other ≠ sock) :
    held other (updateClient sock change clients) = held other clients := by
  simp [held, get_update sock other change keeps, different]

theorem transition_other (ok : Bool) (sock other : Int) (input : Bytes)
    (before after : ClientList) (events : List Event) (different : other ≠ sock)
    (transition : Transition ok sock input before after events) :
    held other after = held other before := by
  cases transition with
  | quiet same => rw [same]
  | queued client found inside capacity nonempty direct updated =>
      rw [updated]
      exact held_other sock other _ (enqueue_keeps input capacity) before different
  | failed client found inside capacity direct updated =>
      rw [updated]
      exact held_other sock other _ (failed_keeps capacity) before different
  | started client found outside alone updated =>
      rw [updated]
      exact held_other sock other _ begin_keeps before different
  | executed client found inside alone updated =>
      rw [updated]
      exact held_other sock other _ cleanup_keeps before different
  | discarded client found inside alone updated =>
      rw [updated]
      exact held_other sock other _ cleanup_keeps before different

theorem direct_apart (input : Bytes) (direct : isTxCommand (commandName input) = false) (name : Bytes)
    (tx : isTxCommand name = true) : lower (tokens input) ≠ [name] := by
  intro alone
  rw [(alone_tx input name alone).2, tx] at direct
  contradiction

/-- The session that an observer of the events deduces is the one the server keeps,
    and an EXEC runs what is due. -/
theorem execute_session (oracle : Oracle) (sock : Int) (buffer : Bytes) (server : Server)
    (wf : Wellformed server) (fine : QueueMayFail oracle) :
    observeInput sock (cstr buffer) (executeCommand oracle sock buffer server).events
        (held sock server.clientList) =
      held sock (executeCommand oracle sock buffer server).server.clientList ∧
      executedInputs sock (executeCommand oracle sock buffer server).events =
        if lower (tokens (cstr buffer)) = [ascii "exec"] then due (held sock server.clientList)
        else [] := by
  obtain ⟨execMulti, execDiscard, discardMulti⟩ := tx_names
  have space : (oracle []).alloc .txCommands = true := fine _ _ (by simp) (by simp)
  have copied : (oracle []).alloc .inputCopy = true := fine _ _ (by simp) (by simp)
  have tokenized : (oracle []).alloc .tokens = true := fine _ _ (by simp) (by simp)
  have transition := execute_transition oracle sock buffer server wf.ready
  rw [space] at transition
  cases transition with
  | quiet same silent unopened =>
      obtain ⟨noQueued, noFailed⟩ := silent.answers sock
      have nothing := silent.executed sock
      have notOpened : ¬ (lower (tokens (cstr buffer)) = [ascii "multi"] ∧
          .reply sock okReply ∈ (executeCommand oracle sock buffer server).events) :=
        fun ⟨alone, answer⟩ => unopened alone answer
      rw [same, nothing]
      -- A quiet EXEC or DISCARD found no open transaction.
      have closed : lower (tokens (cstr buffer)) = [ascii "exec"] ∨
          lower (tokens (cstr buffer)) = [ascii "discard"] → held sock server.clientList = none := by
        intro closing
        cases found : getClientBySocket sock server.clientList with
        | none => simp [held, found]
        | some client =>
            cases inside : client.inTransaction with
            | false => simp [held, found, view, inside]
            | true =>
                exfalso
                have cleaned : (executeCommand oracle sock buffer server).server.clientList =
                    updateClient sock txCleanup server.clientList := by
                  rcases closing with alone | alone
                  · rw [tx_runs oracle sock buffer server copied tokenized _ exec_row exec_tx alone]
                    exact (exec_accepted _ (fun _ _ _ server => ⟨server, [], .unknown⟩)
                      (fun index => oracle.inner index []) _ sock (fun _ _ _ => rfl) _ server wf.ready
                      client found inside).1
                  · rw [tx_runs oracle sock buffer server copied tokenized _ discard_row discard_tx
                      alone]
                    exact (discard_accepted _ _ sock _ server client found inside).1
                have kept := held_inside sock server.clientList client found inside
                rw [← same, cleaned, held_update sock txCleanup cleanup_keeps _ client found] at kept
                simp [view, txCleanup] at kept
      constructor
      · simp only [observeInput, notOpened, noQueued, noFailed, ↓reduceIte]
        split
        case isTrue closing => exact (closed closing).symm
        case isFalse => rfl
      · split
        case isTrue alone => rw [closed (Or.inl alone)]; rfl
        case isFalse => rfl
  | queued client found inside capacity nonempty direct updated answer =>
      have noExec := direct_apart _ direct _ exec_tx
      rw [updated, held_update sock _ (enqueue_keeps _ _) _ client found,
        held_inside sock _ client found inside, answer]
      simp [observeInput, direct_apart _ direct _ multi_tx, noExec, direct_apart _ direct _ discard_tx,
        Session.queue, view, enqueue, inside, executedInputs]
  | failed client found inside capacity direct updated answer =>
      have noExec := direct_apart _ direct _ exec_tx
      have different : queuedReply ≠ queueFailedReply := by decide
      rw [updated, held_update sock _ (failed_keeps _) _ client found,
        held_inside sock _ client found inside, answer]
      simp [observeInput, direct_apart _ direct _ multi_tx, noExec, direct_apart _ direct _ discard_tx,
        Session.fail, view, markFailed, grow, inside, executedInputs, different]
  | started client found outside alone updated answer =>
      have idle := wf.idle client (get_mem _ _ _ found).1 outside
      rw [updated, held_update sock _ begin_keeps _ client found, answer]
      simp [observeInput, alone, view, beginTransaction, idle.queuedCommands, executedInputs,
        Ne.symm execMulti]
  | executed client found inside alone updated ran silent =>
      rw [updated, held_update sock _ cleanup_keeps _ client found, ran,
        held_inside sock _ client found inside]
      simp [observeInput, alone, execMulti, view, txCleanup, due]
  | discarded client found inside alone updated silent =>
      rw [updated, held_update sock _ cleanup_keeps _ client found, silent.executed sock]
      simp [observeInput, alone, discardMulti, Ne.symm execDiscard, view, txCleanup]

end Session

section Steps

theorem listed_distinct (server : Server) (wf : Wellformed server) :
    ((listed server.clientList).map (·.socket)).Nodup :=
  wf.sockets.sublist ((List.sublist_append_left _ _).map _)

/-- A lookup depends on which clients are listed, not on their slots. -/
theorem held_congr (before after : Server) (wf : Wellformed before) (wf' : Wellformed after)
    (sock : Int) (same : ∀ client : Client, client.socket = sock →
      (client ∈ listed after.clientList ↔ client ∈ listed before.clientList)) :
    held sock after.clientList = held sock before.clientList := by
  have lookups : getClientBySocket sock after.clientList = getClientBySocket sock before.clientList := by
    apply Option.ext
    intro client
    rw [get_iff _ (listed_distinct after wf'), get_iff _ (listed_distinct before wf)]
    constructor
    · exact fun ⟨member, socket⟩ => ⟨(same client socket).mp member, socket⟩
    · exact fun ⟨member, socket⟩ => ⟨(same client socket).mpr member, socket⟩
  simp [held, lookups]

theorem held_none (server : Server) (sock : Int)
    (idle : ∀ client ∈ listed server.clientList, client.socket = sock → client.inTransaction = false) :
    held sock server.clientList = none := by
  cases found : getClientBySocket sock server.clientList with
  | none => simp [held, found]
  | some client =>
      obtain ⟨member, socket⟩ := get_mem sock _ client found
      simp [held, found, view, idle client member socket]

theorem connect_session (ptr : Nat) (socket : Int) (server : Server) (wf : Wellformed server)
    (possible : Possible server (.connect ptr socket)) (sock : Int) :
    observe sock (held sock server.clientList) (.connected socket) =
      held sock (next server (.connect ptr socket)).clientList := by
  have after := next_wellformed server (.connect ptr socket) wf possible
  rcases possible with ⟨-, fresh, -⟩
  simp only [observe]
  split
  case isTrue same =>
    subst same
    symm
    apply held_none
    intro client member socket
    rcases connect_listed ptr _ server client member with rfl | old
    · rfl
    · exact absurd (socket ▸ List.mem_map_of_mem ((open_mem server client).mpr (Or.inl old))) fresh
  case isFalse different =>
    symm
    apply held_congr server _ wf after
    intro client there
    constructor
    · intro member
      rcases connect_listed ptr _ server client member with rfl | old
      · exact absurd there different
      · exact old
    · intro old
      by_cases free : none ∈ server.clientList
      · exact (register_listed (newClient ptr socket server.config) _ free).symm.subset
          (List.mem_cons_of_mem _ old)
      · simpa [next, stepServer, connectClient, register_full _ _ free] using old

theorem disconnect_session (client : Client) (server : Server) (wf : Wellformed server)
    (member : client ∈ openClients server) (sock : Int) :
    (if client.socket = sock then none else held sock server.clientList) =
      held sock (disconnectClient client server).1.clientList := by
  have after := disconnect_wellformed client server wf
  obtain ⟨rest, -⟩ := disconnect_open client server wf
  have same (other : Client) (old : other ∈ listed server.clientList) :=
    open_socket_ptr server wf client other member ((open_mem server other).mpr (Or.inl old))
  split
  case isTrue socket =>
    symm
    apply held_none
    intro other remains there
    rw [rest] at remains
    obtain ⟨old, apart⟩ := List.mem_filter.mp remains
    rw [decide_eq_true_eq, ne_eq, same other old] at apart
    -- Whoever remains has another address and so another socket.
    exact absurd (there.trans socket.symm) apart
  case isFalse different =>
    symm
    apply held_congr server _ wf after
    intro other there
    rw [rest, List.mem_filter]
    constructor
    · exact fun both => both.1
    · intro old
      refine ⟨old, ?_⟩
      rw [decide_eq_true_eq, ne_eq, same other old, there]
      exact Ne.symm different

end Steps

section Invariant

/-- The trace tells what the server holds, and every record so far is exact. -/
structure Faithful (traced : Traced) : Prop where
  wf : Wellformed traced.server
  sessions : ∀ sock, sessionOf sock traced.trace = held sock traced.server.clientList
  exact : ∀ before record, (before ++ [record]) <+: traced.trace → Exact before record

theorem session_append (sock : Int) (trace : List Record) (record : Record) :
    sessionOf sock (trace ++ [record]) = observe sock (sessionOf sock trace) record := by
  simp [sessionOf]

theorem faithful_append (traced : Traced) (faithful : Faithful traced) (server : Server)
    (wf : Wellformed server) (record : Record)
    (sessions : ∀ sock, observe sock (held sock traced.server.clientList) record =
      held sock server.clientList)
    (exact : Exact traced.trace record) : Faithful ⟨server, traced.trace ++ [record]⟩ := by
  constructor
  · exact wf
  · intro sock
    rw [session_append, faithful.sessions]
    exact sessions sock
  -- The last record is the new one, and all others were there before.
  · intro before other inside
    rcases List.prefix_concat_iff.mp inside with last | earlier
    · obtain ⟨rfl, rfl⟩ := List.append_inj' last rfl |>.imp id List.singleton_inj.mp
      exact exact
    · exact faithful.exact before other earlier

/-- A step that no connection notices. -/
theorem faithful_silent (traced : Traced) (faithful : Faithful traced) (server : Server)
    (wf : Wellformed server) (same : server.clientList = traced.server.clientList) :
    Faithful ⟨server, traced.trace ++ []⟩ := by
  rw [List.append_nil]
  exact ⟨wf, fun sock => by rw [faithful.sessions, same], faithful.exact⟩

theorem input_session (oracle : Oracle) (socket : Int) (buffer : Bytes) (server : Server)
    (wf : Wellformed server) (fine : QueueMayFail oracle) (sock : Int) :
    observe sock (held sock server.clientList)
        (.input socket (cstr buffer) (executeCommand oracle socket buffer server).events) =
      held sock (executeCommand oracle socket buffer server).server.clientList := by
  simp only [observe]
  split
  case isTrue same =>
    subst same
    exact (execute_session oracle socket buffer server wf fine).1
  case isFalse different =>
    exact (transition_other _ socket sock _ _ _ _ (Ne.symm different)
      (execute_transition oracle socket buffer server wf.ready)).symm

theorem serve_faithful (traced : Traced) (faithful : Faithful traced) (oracle : Oracle)
    (socket : Int) (chunk : Bytes) (possible : Possible traced.server (.receive oracle socket chunk))
    (fine : QueueMayFail oracle) :
    Faithful (tracedStep traced (.receive oracle socket chunk)) := by
  rcases traced with ⟨server, trace⟩
  have wf : Wellformed server := faithful.wf
  have after : Wellformed (serve oracle socket chunk server).server :=
    next_wellformed server (.receive oracle socket chunk) wf possible
  simp only [tracedStep, records, next, stepServer]
  have served := serve_cases oracle socket chunk server
  generalize serve oracle socket chunk server = reading at served after
  cases served with
  | closed client member same ended =>
      apply faithful_append ⟨server, trace⟩ faithful _ after
      · intro sock
        subst same
        exact disconnect_session client server wf member sock
      · rfl
  | read client member same =>
      subst same
      have buffer := wf.input_short client member chunk possible.2
      have state := read_executes oracle client chunk server wf member possible.2
      apply faithful_append ⟨server, trace⟩ faithful _ after
      · intro sock
        rw [state]
        exact input_session oracle client.socket (client.buffer ++ chunk) server wf fine sock
      · show executedInputs client.socket _ = _
        rw [faithful.sessions client.socket]
        exact (execute_session oracle client.socket (client.buffer ++ chunk) server wf fine).2
  | dropped loop missing =>
      apply faithful_append ⟨server, trace⟩ faithful _ after
      · intro sock
        simp only [observe]
        split
        case isTrue same =>
          subst same
          exact (by simp [held, show getClientBySocket socket server.clientList = none from missing])
        case isFalse => rfl
      · rfl
  | absent missing => exact absurd possible.1 missing

/-- One step of the server adds an exact record, or none. -/
theorem step_faithful (traced : Traced) (step : ServerStep) (faithful : Faithful traced)
    (allowed : Allowed traced step) : Faithful (tracedStep traced step) := by
  cases step with
  | connect ptr socket =>
      have possible : Possible traced.server (.connect ptr socket) := allowed
      exact faithful_append traced faithful _ (next_wellformed _ _ faithful.wf possible) _
        (connect_session ptr socket traced.server faithful.wf possible) trivial
  | receive oracle socket chunk =>
      exact serve_faithful traced faithful oracle socket chunk allowed.1 allowed.2
  | replication oracle received connect =>
      have possible : Possible traced.server (.replication oracle received connect) := allowed
      exact faithful_silent traced faithful _ (next_wellformed _ _ faithful.wf possible)
        (replication_same_clients oracle received connect traced.server faithful.wf possible).clientList
  | sweep now =>
      have possible : Possible traced.server (.sweep now) := trivial
      exact faithful_silent traced faithful _ (next_wellformed _ _ faithful.wf possible) rfl
  | autoSave now saveNow io =>
      have possible : Possible traced.server (.autoSave now saveNow io) := trivial
      apply faithful_silent traced faithful _ (next_wellformed _ _ faithful.wf possible)
      simp only [next, stepServer, ReplicationThread.autoSave]
      split
      · split <;> rfl
      · rfl

theorem start_faithful (server : Server) (starts : Starts server) : Faithful ⟨server, []⟩ := by
  constructor
  · exact start_wellformed server starts
  · intro sock
    rcases starts with ⟨-, now, files, config, same, -⟩
    symm
    apply held_none
    intro client member
    have empty : listed server.clientList = [] := by
      rw [same]
      exact listed_empty config.maxClients
    simp [empty] at member
  · intro before record inside
    simp at inside

/-- In every run each EXEC executes what its own connection had queued since its
    latest successful MULTI, all of it or nothing, nothing else executes queued
    inputs, and a connection outside of a transaction has none. -/
theorem exec_runs_what_was_queued (server : Server) (starts : Starts server)
    (steps : List ServerStep) (admitted : Admitted Allowed tracedStep ⟨server, []⟩ steps) :
    (∀ before record, (before ++ [record]) <+: (run tracedStep ⟨server, []⟩ steps).trace →
      Exact before record) ∧
      ∀ client ∈ openClients (run tracedStep ⟨server, []⟩ steps).server,
        client.inTransaction = false → client.queuedCommands = [] := by
  have faithful := run_invariant Allowed tracedStep step_faithful ⟨server, []⟩
    (start_faithful server starts) steps admitted
  constructor
  · exact faithful.exact
  · intro client member outside
    rcases (open_mem _ client).mp member with inside | unlisted
    · exact (faithful.wf.idle client inside outside).queuedCommands
    · exact (faithful.wf.outside client unlisted).queuedCommands

/-- A connection that queues one input and executes it. -/
def sampleSteps : List ServerStep :=
  .connect 1 7 :: [ascii "MULTI\r\n", ascii "SET k v\r\n", ascii "EXEC\r\n"].map (.receive (calm 0) 7)

theorem sample_run_exact :
    (∀ before record,
      (before ++ [record]) <+: (run tracedStep ⟨emptyServer, []⟩ sampleSteps).trace →
        Exact before record) ∧
      ∀ client ∈ openClients (run tracedStep ⟨emptyServer, []⟩ sampleSteps).server,
        client.inTransaction = false → client.queuedCommands = [] := by
  have fine : QueueMayFail (calm 0) := fun _ _ _ _ => rfl
  apply exec_runs_what_was_queued emptyServer empty_starts sampleSteps
  refine ⟨empty_connects, ⟨⟨one_client_open, by decide⟩, fine⟩, ⟨⟨?_, by decide⟩, fine⟩,
    ⟨⟨?_, by decide⟩, fine⟩, trivial⟩
  · decide +kernel
  · decide +kernel

end Invariant

end CrimsonCache.TransactionQueue
