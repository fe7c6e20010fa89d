import CrimsonCache.Library.EdgeEvents
import CrimsonCache.ServerRuns

/-!
eventloop.c: the loop around `epoll_wait`. The listening socket and every
client's socket are watched edge-triggered; a report of the first is answered by
one `accept`, a report of a client by one `read` of at most what is free in its
buffer.
-/

namespace CrimsonCache.EventLoop

open CString Transaction ServerState Commands TransactionSteps Connections ServerRuns Runs EdgeEvents

section Model

/-- What the loop watches. -/
inductive Descriptor where
  | listening
  | client (sock : Int)
  deriving DecidableEq

/-- The server with what the kernel holds for it: the connections not yet accepted with the
    bytes they have sent, and for each socket the bytes received since it was accepted, those
    not yet read, those handed to `execute_command`, and whether the peer has closed. -/
structure Polled where
  server : Server
  backlog : List Bytes
  received : Int → Bytes
  unread : Int → Bytes
  passed : Int → Bytes
  ended : Int → Bool
  events : Notifier Descriptor

/-- Right after `event_loop_run` has added the listening socket. -/
def listening (server : Server) : Polled :=
  ⟨server, [], fun _ => [], fun _ => [], fun _ => [], fun _ => false, ⟨[], []⟩⟩

inductive PollStep where
  | arrive
  | early (index : Nat) (chunk : Bytes)
  | send (sock : Int) (chunk : Bytes)
  | finish (sock : Int)
  | wait (report : List Descriptor)
  | accept (ptr : Nat) (socket : Int)
  | message (oracle : Oracle) (sock : Int)

/-- What `read` is asked for. -/
def readSize (sock : Int) (server : Server) : Nat :=
  match findClient sock server with
  | none => 0
  | some client => server.config.bufferSize - client.buffer.length - 1

/-- The socket is closed by its handler: it has no client, or the read returns nothing. -/
def dropped (sock : Int) (polled : Polled) : Bool :=
  (findClient sock polled.server).isNone ||
    (polled.unread sock).take (readSize sock polled.server) = []

def stepPolled (polled : Polled) : PollStep → Polled
  | .arrive =>
      { polled with backlog := polled.backlog ++ [[]], events := polled.events.arrive .listening }
  | .early index chunk => { polled with backlog := polled.backlog.modify index (· ++ chunk) }
  | .send sock chunk =>
      { polled with
        received := Function.update polled.received sock (polled.received sock ++ chunk)
        unread := Function.update polled.unread sock (polled.unread sock ++ chunk)
        events := polled.events.arrive (.client sock) }
  | .finish sock =>
      { polled with
        ended := Function.update polled.ended sock true
        events := polled.events.arrive (.client sock) }
  | .wait report => { polled with events := polled.events.report report }
  | .accept ptr socket =>
      match polled.backlog with
      | [] => polled
      | sent :: rest =>
          -- What the connection has sent before is there when its socket is added.
          { server := connectClient (newClient ptr socket polled.server.config) polled.server
            backlog := rest
            received := Function.update polled.received socket sent
            unread := Function.update polled.unread socket sent
            passed := Function.update polled.passed socket []
            ended := Function.update polled.ended socket false
            events := if sent = [] then polled.events.next
              else polled.events.next.arrive (.client socket) }
  | .message oracle sock =>
      let size := readSize sock polled.server
      let reading := handleClientMessage oracle sock ((polled.unread sock).take size) polled.server
      { polled with
        server := reading.server
        unread := Function.update polled.unread sock ((polled.unread sock).drop size)
        passed := Function.update polled.passed sock (polled.passed sock ++ reading.passed.flatten)
        events := if dropped sock polled then polled.events.next.forget (.client sock)
          else polled.events.next }

/-- The loop handles a batch in its order and waits behind it. An `accept` with no connection
    and a `read` with nothing to return block. -/
def Steps (polled : Polled) : PollStep → Prop
  | .arrive => True
  | .early index chunk => index < polled.backlog.length ∧ chunk ≠ []
  | .send sock chunk =>
      sock ∈ (openClients polled.server).map (·.socket) ∧ chunk ≠ [] ∧ polled.ended sock = false
  | .finish sock =>
      sock ∈ (openClients polled.server).map (·.socket) ∧ polled.ended sock = false
  | .wait report =>
      polled.events.batch = [] ∧ report ≠ [] ∧ report.Nodup ∧
        report.length ≤ polled.server.config.maxEvents ∧
        ∀ source ∈ report, source ∈ polled.events.ready
  | .accept ptr socket =>
      polled.events.batch.head? = some .listening ∧ polled.backlog ≠ [] ∧
        Possible polled.server (.connect ptr socket)
  | .message _ sock =>
      polled.events.batch.head? = some (.client sock) ∧
        sock ∈ (openClients polled.server).map (·.socket) ∧
        (polled.unread sock ≠ [] ∨ polled.ended sock = true ∨ findClient sock polled.server = none)

/-- A handled report leaves nothing behind that no later arrival tells of. -/
def Drains (polled : Polled) : PollStep → Prop
  | .accept _ _ => polled.backlog.length ≤ 1 ∨ .listening ∈ polled.events.ready
  | .message _ sock =>
      (polled.unread sock).length < polled.server.config.bufferSize ∨
        .client sock ∈ polled.events.ready
  | _ => True

end Model

section Messages

def listedSockets (server : Server) : List Int := (listed server.clientList).map (·.socket)

theorem missing_unlisted (sock : Int) (server : Server) (missing : findClient sock server = none) :
    sock ∉ listedSockets server := by
  intro there
  obtain ⟨client, member, same⟩ := List.mem_map.mp there
  rw [findClient, get_listed] at missing
  simpa [same] using List.find?_eq_none.mp missing client member

/-- A closed connection leaves its slot, and no other client loses one. -/
theorem closed_sockets (client : Client) (server : Server) (wf : Wellformed server)
    (member : client ∈ listed server.clientList) (sock : Int)
    (there : sock ∈ listedSockets (disconnectClient client server).1) :
    sock ∈ listedSockets server ∧ sock ≠ client.socket := by
  obtain ⟨other, remains, same⟩ := List.mem_map.mp there
  rw [(disconnect_open client server wf).1] at remains
  obtain ⟨old, apart⟩ := List.mem_filter.mp remains
  refine ⟨List.mem_map.mpr ⟨other, old, same⟩, ?_⟩
  rintro rfl
  have opened {client : Client} (inside : client ∈ listed server.clientList) :
      client ∈ openClients server := (open_mem server client).mpr (Or.inl inside)
  have ptrs := (open_socket_ptr server wf client other (opened member) (opened old)).mpr same
  simp [ptrs] at apart

/-- A read of a listed client: the input is passed on whole, and everybody keeps the slot. -/
theorem read_passes (oracle : Oracle) (client : Client) (chunk : Bytes) (server : Server)
    (wf : Wellformed server) (member : client ∈ openClients server)
    (fits : chunk.length < server.config.bufferSize) :
    (readInput oracle client chunk server).passed = [chunk] ∧
      listedSockets (readInput oracle client chunk server).server = listedSockets server := by
  have whole := wf.whole_input client member chunk
  have same := transition_map (fun client => client.socket) (fun _ _ _ _ _ _ _ _ _ _ _ _ => rfl) _ _ _
    _ _ _ (execute_transition oracle client.socket (client.buffer ++ chunk) server wf.ready)
  constructor
  · simp only [readInput, whole]
  · rw [read_executes oracle client chunk server wf member fits]
    exact same

end Messages

section Invariant

/-- What is still to be done for a source of events. -/
def work (polled : Polled) : Descriptor → Prop
  | .listening => polled.backlog ≠ []
  | .client sock => sock ∈ listedSockets polled.server ∧ polled.unread sock ≠ []

structure Attended (polled : Polled) : Prop where
  wf : Wellformed polled.server
  streams : ∀ sock ∈ listedSockets polled.server,
    polled.received sock = polled.passed sock ++ polled.unread sock
  covered : Covered (work polled) polled.events

theorem start_attended (server : Server) (starts : Starts server) : Attended (listening server) where
  wf := start_wellformed server starts
  streams := fun _ _ => rfl
  covered := fun source busy => by cases source <;> simp [work, listening] at busy

/-- What arrives is added to what is unread, and reported. -/
theorem send_attended (polled : Polled) (attended : Attended polled) (sock : Int) (chunk : Bytes) :
    Attended (stepPolled polled (.send sock chunk)) where
  wf := attended.wf
  streams := by
    intro other there
    by_cases same : other = sock
    · subst same
      simp [stepPolled, attended.streams other there]
    · simp [stepPolled, same, attended.streams other there]
  covered := by
    apply arrive_covered (work polled) _ _ attended.covered
    intro other apart busy
    cases other with
    | listening => exact busy
    | client other =>
        have different : other ≠ sock := fun same => apart (by rw [same])
        simpa [work, stepPolled, different] using busy

theorem accept_attended (polled : Polled) (attended : Attended polled) (ptr : Nat) (socket : Int)
    (allowed : Steps polled (.accept ptr socket)) (drains : Drains polled (.accept ptr socket)) :
    Attended (stepPolled polled (.accept ptr socket)) := by
  obtain ⟨front, waiting, possible⟩ := allowed
  obtain ⟨rest, inHand⟩ := List.head?_eq_some_iff.mp front
  cases backlog : polled.backlog with
  | nil => exact absurd backlog waiting
  | cons sent others =>
      simp only [stepPolled, backlog]
      have wf := connect_wellformed ptr socket polled.server attended.wf possible
      have old : ∀ sock ∈ listedSockets
          (connectClient (newClient ptr socket polled.server.config) polled.server),
          sock ≠ socket → sock ∈ listedSockets polled.server := by
        intro sock there apart
        obtain ⟨client, member, rfl⟩ := List.mem_map.mp there
        rcases connect_listed ptr socket polled.server client member with rfl | older
        · exact absurd rfl apart
        · exact List.mem_map_of_mem older
      refine ⟨wf, ?_, ?_⟩
      · intro sock there
        by_cases same : sock = socket
        · subst same
          simp
        · simpa [same] using attended.streams sock (old sock there same)
      · -- Behind the accept, before the new socket is added.
        have handled : Covered (fun
            | .listening => others ≠ []
            | .client sock => sock ≠ socket ∧ work polled (.client sock)) polled.events.next := by
          apply next_covered (work polled) _ _ attended.covered .listening rest inHand
          · intro other apart busy
            cases other with
            | listening => exact absurd rfl apart
            | client sock => exact busy.2
          · intro more
            refine drains.resolve_left fun few => more ?_
            simp only [backlog, List.length_cons] at few
            exact List.length_eq_zero_iff.mp (by omega)
        by_cases quiet : sent = []
        · simp only [quiet, ↓reduceIte]
          intro other busy
          refine handled other ?_
          cases other with
          | listening => exact busy
          | client sock =>
              obtain ⟨there, left⟩ := busy
              by_cases same : sock = socket
              · simp [same] at left
              · exact ⟨same, old sock there same, by simpa [same] using left⟩
        · simp only [quiet, ↓reduceIte]
          apply arrive_covered _ _ _ handled
          intro other apart busy
          cases other with
          | listening => exact busy
          | client sock =>
              have different : sock ≠ socket := fun same => apart (by rw [same])
              exact ⟨different, old sock busy.1 different, by simpa [different] using busy.2⟩

/-- A socket that is closed is given up, whatever was left to read of it. -/
theorem closed_attended (polled : Polled) (attended : Attended polled) (sock : Int)
    (rest : List Descriptor) (inHand : polled.events.batch = .client sock :: rest) (server : Server)
    (wf : Wellformed server) (unread : Int → Bytes)
    (others : ∀ other, other ≠ sock → unread other = polled.unread other)
    (left : ∀ other ∈ listedSockets server, other ∈ listedSockets polled.server ∧ other ≠ sock) :
    Attended
      { polled with
        server := server
        unread := unread
        passed := Function.update polled.passed sock (polled.passed sock ++ [])
        events := polled.events.next.forget (.client sock) } := by
  refine ⟨wf, ?_, ?_⟩
  · intro other there
    obtain ⟨old, apart⟩ := left other there
    simpa [apart, others other apart] using attended.streams other old
  · have gone : ¬ work { polled with server := server, unread := unread } (.client sock) :=
      fun busy => (left sock busy.1).2 rfl
    apply forget_covered (work { polled with server := server, unread := unread }) _ ?_ _ gone
    apply next_covered (work polled) _ _ attended.covered (.client sock) rest inHand
    · intro other apart busy
      cases other with
      | listening => exact busy
      | client other =>
          obtain ⟨old, different⟩ := left other busy.1
          exact ⟨old, by rw [← others other different]; exact busy.2⟩
    · exact fun busy => absurd busy gone

/-- A read passes on what it takes, and the next report is due where that was not all. -/
theorem read_attended (polled : Polled) (attended : Attended polled) (sock : Int)
    (rest : List Descriptor) (inHand : polled.events.batch = .client sock :: rest) (server : Server)
    (wf : Wellformed server) (sockets : listedSockets server = listedSockets polled.server)
    (size : Nat) (drained : (polled.unread sock).drop size ≠ [] → .client sock ∈ polled.events.ready) :
    Attended
      { polled with
        server := server
        unread := Function.update polled.unread sock ((polled.unread sock).drop size)
        passed := Function.update polled.passed sock
          (polled.passed sock ++ (polled.unread sock).take size)
        events := polled.events.next } := by
  refine ⟨wf, ?_, ?_⟩
  · intro other there
    rw [sockets] at there
    have before := attended.streams other there
    by_cases same : other = sock
    · subst same
      simp [before]
    · simpa [same] using before
  · apply next_covered (work polled) _ _ attended.covered (.client sock) rest inHand
    · intro other apart busy
      cases other with
      | listening => exact busy
      | client other =>
          have different : other ≠ sock := fun same => apart (by rw [same])
          simp only [work, sockets] at busy ⊢
          exact ⟨busy.1, by simpa [different] using busy.2⟩
    · exact fun busy => drained (by simpa using busy.2)

theorem message_attended (polled : Polled) (attended : Attended polled) (oracle : Oracle) (sock : Int)
    (allowed : Steps polled (.message oracle sock)) (drains : Drains polled (.message oracle sock)) :
    Attended (stepPolled polled (.message oracle sock)) := by
  obtain ⟨front, -, -⟩ := allowed
  obtain ⟨rest, inHand⟩ := List.head?_eq_some_iff.mp front
  have untouched (size : Nat) (other : Int) (apart : other ≠ sock) :
      Function.update polled.unread sock ((polled.unread sock).drop size) other =
        polled.unread other := by simp [apart]
  simp only [stepPolled]
  cases found : findClient sock polled.server with
  | none =>
      have dropping : dropped sock polled = true := by simp [dropped, found]
      simp only [handleClientMessage, found, dropping, ↓reduceIte, List.flatten_nil]
      refine closed_attended polled attended sock rest inHand _ ?_ _ (untouched _) ?_
      · exact shrink_wellformed polled.server _ attended.wf rfl rfl (List.Sublist.refl _)
          List.filter_sublist
      · intro other there
        exact ⟨there, fun same => missing_unlisted sock polled.server found (same ▸ there)⟩
  | some client =>
      obtain ⟨member, rfl⟩ := get_mem sock polled.server.clientList client found
      have opened := (open_mem polled.server client).mpr (Or.inl member)
      have size : readSize client.socket polled.server = polled.server.config.bufferSize - 1 := by
        simp only [readSize, found, attended.wf.buffers client opened, List.length_nil, Nat.sub_zero]
      by_cases ended : (polled.unread client.socket).take (readSize client.socket polled.server) = []
      · have dropping : dropped client.socket polled = true := by simp [dropped, ended]
        simp only [handleClientMessage, found, ended, dropping, ↓reduceIte, List.flatten_nil]
        exact closed_attended polled attended client.socket rest inHand _
          (disconnect_wellformed client polled.server attended.wf) _ (untouched _)
          (closed_sockets client polled.server attended.wf member)
      · have reading : dropped client.socket polled = false := by simp [dropped, found, ended]
        have fits : ((polled.unread client.socket).take
            (readSize client.socket polled.server)).length < polled.server.config.bufferSize := by
          have some := List.length_pos_of_ne_nil ended
          simp only [List.length_take, size] at some ⊢
          omega
        obtain ⟨passed, sockets⟩ := read_passes oracle client _ polled.server attended.wf opened fits
        simp only [handleClientMessage, found, ended, reading, passed, Bool.false_eq_true, ↓reduceIte,
          List.flatten_cons, List.flatten_nil, List.append_nil]
        apply read_attended polled attended client.socket rest inHand _
          (read_wellformed oracle client _ polled.server attended.wf opened fits) sockets
        intro left
        refine drains.resolve_left fun short => left ?_
        rw [List.drop_eq_nil_iff, size]
        omega

theorem step_attended (polled : Polled) (step : PollStep) (attended : Attended polled)
    (allowed : Steps polled step ∧ Drains polled step) : Attended (stepPolled polled step) := by
  cases step with
  | arrive =>
      refine ⟨attended.wf, attended.streams, ?_⟩
      apply arrive_covered (work polled) _ _ attended.covered
      intro other apart busy
      cases other with
      | listening => exact absurd rfl apart
      | client sock => exact busy
  | early index chunk =>
      refine ⟨attended.wf, attended.streams, fun source busy => attended.covered source ?_⟩
      cases source with
      | client sock => exact busy
      | listening =>
          intro empty
          simp [work, stepPolled, empty] at busy
  | send sock chunk => exact send_attended polled attended sock chunk
  | finish sock =>
      refine ⟨attended.wf, attended.streams, ?_⟩
      exact arrive_covered (work polled) _ _ attended.covered _ fun _ _ busy => busy
  | wait report =>
      exact ⟨attended.wf, attended.streams,
        report_covered (work polled) _ attended.covered allowed.1.1 report⟩
  | accept ptr socket => exact accept_attended polled attended ptr socket allowed.1 allowed.2
  | message oracle sock => exact message_attended polled attended oracle sock allowed.1 allowed.2

end Invariant

section Runs

/-- Where the loop blocks, every connection is accepted and every byte of a client has been passed
    on, if no report it handled left something behind. -/
theorem blocked_loop_is_done (server : Server) (starts : Starts server) (steps : List PollStep)
    (admitted : Admitted (fun polled step => Steps polled step ∧ Drains polled step) stepPolled
      (listening server) steps)
    (blocked : (run stepPolled (listening server) steps).events.Blocked) :
    (run stepPolled (listening server) steps).backlog = [] ∧
      ∀ sock ∈ listedSockets (run stepPolled (listening server) steps).server,
        (run stepPolled (listening server) steps).unread sock = [] ∧
          (run stepPolled (listening server) steps).passed sock =
            (run stepPolled (listening server) steps).received sock := by
  have attended : Attended (run stepPolled (listening server) steps) :=
    run_invariant _ stepPolled step_attended (listening server) (start_attended server starts) steps
      admitted
  have done := blocked_done (work _) _ attended.covered blocked
  constructor
  · by_contra waiting
    exact done .listening waiting
  · intro sock there
    have read : (run stepPolled (listening server) steps).unread sock = [] := by
      by_contra left
      exact done (.client sock) ⟨there, left⟩
    exact ⟨read, by rw [attended.streams sock there, read, List.append_nil]⟩

instance (polled : Polled) : ∀ step, Decidable (Steps polled step)
  | .arrive => inferInstanceAs (Decidable True)
  | .early _ _ => inferInstanceAs (Decidable (_ ∧ _))
  | .send _ _ => inferInstanceAs (Decidable (_ ∧ _ ∧ _))
  | .finish _ => inferInstanceAs (Decidable (_ ∧ _))
  | .wait _ => inferInstanceAs (Decidable (_ ∧ _ ∧ _ ∧ _ ∧ _))
  | .accept _ _ => inferInstanceAs (Decidable (_ ∧ _ ∧ _ ∧ _ ∧ _))
  | .message _ _ => inferInstanceAs (Decidable (_ ∧ _ ∧ _))

instance (polled : Polled) : ∀ step, Decidable (Drains polled step)
  | .arrive | .early _ _ | .send _ _ | .finish _ | .wait _ => inferInstanceAs (Decidable True)
  | .accept _ _ => inferInstanceAs (Decidable (_ ∨ _))
  | .message _ _ => inferInstanceAs (Decidable (_ ∨ _))

/-- The server that `main` starts for the loop. -/
def loopServer : Server :=
  initServer ⟨ChainedTable.empty 1024, 1024, 0, 1023, 0, 0⟩ 0 (fun _ => none)
    { loadDefaultConfig with concurrencyModel := .eventLoop }

theorem loop_starts : Starts loopServer :=
  ⟨⟨true, rfl⟩, 0, fun _ => none, { loadDefaultConfig with concurrencyModel := .eventLoop }, rfl,
    by decide⟩

/-- One connection and one input at a time. -/
def slowSteps : List PollStep :=
  [.arrive, .wait [.listening], .accept 1 7, .send 7 (ascii "PING\r\n"), .wait [.client 7],
    .message (calm 0) 7, .arrive, .wait [.listening], .accept 2 8]

theorem slow_loop_is_done :
    (run stepPolled (listening loopServer) slowSteps).backlog = [] ∧
      ∀ sock ∈ listedSockets (run stepPolled (listening loopServer) slowSteps).server,
        (run stepPolled (listening loopServer) slowSteps).unread sock = [] ∧
          (run stepPolled (listening loopServer) slowSteps).passed sock =
            (run stepPolled (listening loopServer) slowSteps).received sock :=
  blocked_loop_is_done loopServer loop_starts slowSteps (by decide +kernel) (by decide +kernel)

/-- Two connections arrive before the loop is told of the first; one report answers for both. -/
theorem second_connection_waits :
    Starts loopServer ∧
      Admitted Steps stepPolled (listening loopServer)
        [.arrive, .arrive, .wait [.listening], .accept 1 7] ∧
      (run stepPolled (listening loopServer)
        [.arrive, .arrive, .wait [.listening], .accept 1 7]).events.Blocked ∧
      (run stepPolled (listening loopServer)
        [.arrive, .arrive, .wait [.listening], .accept 1 7]).backlog ≠ [] :=
  ⟨loop_starts, by decide +kernel, by decide +kernel, by decide +kernel⟩

end Runs

end CrimsonCache.EventLoop
