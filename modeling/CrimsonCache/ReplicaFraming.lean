import CrimsonCache.Promotion
import CrimsonCache.ReplicaAgreement

/-!
The receive buffer of the replication thread over many passes. What a pass
leaves behind its last line end stays in front of what the next one receives,
so the lines that are executed are those of the bytes received, however recv
cut them, as long as the connection is the same.
-/

namespace CrimsonCache.ReplicaFraming

open CString Dictionary Replies Transaction Replication Tokenizer ServerState Commands TransactionSteps
  ExecLoop Connections ReplicationThread ServerRuns ReplicaAgreement Promotion Runs Framing

/-- The replication thread calls `recv` in its next pass. -/
def receiving (repl : ReplicationInfo) : Bool :=
  repl.role = .replica && (repl.state = .sync || repl.state = .connected)

/-- The count that `recv` is asked for. -/
def requested (server : Server) : Nat :=
  server.config.bufferSize - server.replicaBuffer.length - 1

def receivedBytes (server : Server) : ServerStep → Bytes
  | .replication _ (.data chunk) _ => if receiving server.repl then chunk else []
  | _ => []

/-- What the replication thread passes to `execute_command` in a step. -/
def passedLines (server : Server) : ServerStep → List Bytes
  | .replication oracle received connect =>
      executedInputs (-1) (replicationThread oracle received connect server).2
  | _ => []

/-- The orders among the lines of a pass, as they are obeyed. -/
def lineOrders (oracle : Nat → Oracle) : Nat → List (Bytes × Nat) → Server → List Order
  | _, [], _ => []
  | index, (line, stop) :: rest, server =>
      if line = [] then lineOrders oracle (index + 1) rest (advanceOffset stop server)
      else
        (handlerRuns (oracle index) (-1) line server).filterMap (runOrder (-1)) ++
          lineOrders oracle (index + 1) rest
            (advanceOffset stop (executeCommand (oracle index) (-1) line server).server)

/-- The orders that clients give in a step. -/
def clientOrders (server : Server) (step : ServerStep) : List Order :=
  stepOrders ⟨server, fun _ => .head⟩ (.serve step)

/-- The step ends the connection to the primary, or finds none. -/
def relinks (server : Server) : ServerStep → Bool
  | .replication oracle received _ =>
      if receiving server.repl then
        match received with
        | .data chunk =>
            lineOrders oracle 0 (crlfLines 0 [] (server.replicaBuffer ++ chunk)).1 server ≠ []
        | .wouldBlock => false
        | .lost => true
      else true
  | step => clientOrders server step ≠ []

section Buffer

theorem execute_with_buffer (execute : Nat → Bytes → Server → Outcome)
    (keeps : ∀ index cmd server, (execute index cmd server).server.replicaBuffer = server.replicaBuffer)
    (env : Env) (sock : Int) (buffer : Bytes) (server : Server) :
    (executeWith execute env sock buffer server).server.replicaBuffer = server.replicaBuffer := by
  apply execute_with_rule (fun after => after.replicaBuffer = server.replicaBuffer) execute env sock
    buffer server
  · exact fun before clients _ same => same
  · exact fun row _ _ direct _ =>
      (handler_untouched execute env sock _ server row.command direct.2.1).replicaBuffer
  · exact fun before same => same
  · exact fun _ _ _ index cmd _ before same => (keeps index cmd before).trans same
  · rfl

theorem execute_buffer (oracle : Oracle) (sock : Int) (buffer : Bytes) (server : Server) :
    (executeCommand oracle sock buffer server).server.replicaBuffer = server.replicaBuffer :=
  execute_with_buffer _ (fun _ cmd server => execute_with_buffer _ (fun _ _ _ => rfl) _ sock cmd server)
    (oracle []) sock buffer server

/-- Only the passes of the thread itself touch its buffer. -/
theorem step_buffer (server : Server) (step : ServerStep)
    (apart : ∀ oracle received connect, step ≠ .replication oracle received connect) :
    (next server step).replicaBuffer = server.replicaBuffer := by
  cases step with
  | replication oracle received connect => exact absurd rfl (apart oracle received connect)
  | connect => rfl
  | sweep => rfl
  | autoSave now saveNow io =>
      show (autoSave now saveNow io server).replicaBuffer = server.replicaBuffer
      simp only [autoSave]
      split
      · split <;> rfl
      · rfl
  | receive oracle sock chunk =>
      have served := serve_cases oracle sock chunk server
      simp only [next, stepServer]
      generalize serve oracle sock chunk server = reading at served
      cases served with
      | closed => rfl
      | dropped => rfl
      | absent => rfl
      | read client member same => exact execute_buffer oracle client.socket _ server

end Buffer

section Orders

/-- The lines of a pass leave the link as their orders say. -/
theorem lines_ordered (oracle : Nat → Oracle) (lines : List (Bytes × Nat)) (index : Nat)
    (server : Server) :
    Ordered (lineOrders oracle index lines server).getLast? server
      (executeLines oracle index lines server).1 := by
  induction lines generalizing index server with
  | nil => rfl
  | cons line rest ih =>
      rcases line with ⟨text, stop⟩
      simp only [lineOrders, executeLines]
      split
      · have later := ih (index + 1) (advanceOffset stop server)
        have none : Ordered ([] : List Order).getLast? server (advanceOffset stop server) := rfl
        simpa using ordered_append [] _ server _ _ none later
      · have first := execute_ordered (oracle index) (-1) text server
        have later := ih (index + 1)
          (advanceOffset stop (executeCommand (oracle index) (-1) text server).server)
        exact ordered_append _ _ server _ _ (ordered_same _ _ _ _ rfl first) later

/-- The thread has no transaction, so that its lines run nothing but themselves. -/
theorem thread_orders (oracle : Oracle) (line : Bytes) (server : Server)
    (ready : QueuesReady server.clientList) (free : 0 ∉ line)
    (other : commandName line ≠ ascii "replicaof") :
    (handlerRuns oracle (-1) line server).filterMap (runOrder (-1)) = [] := by
  have text := cstr_of_nul_free line free
  simp only [handlerRuns]
  split
  · have absent : execQueue oracle (-1) server = none := by
      rw [execQueue, findClient, ready.thread_absent]
    simp [execRuns, absent]
  · have order : Promotion.orderOf (lower (tokens line)) = none := by
      simp only [Promotion.orderOf]
      exact if_neg fun asks => other asks.1
    simp [runOrder, text, order]

theorem no_line_orders (oracle : Nat → Oracle) (lines : List (Bytes × Nat)) (index : Nat)
    (server : Server) (ready : QueuesReady server.clientList)
    (plain : ∀ line ∈ lines, 0 ∉ line.1 ∧ commandName line.1 ≠ ascii "replicaof") :
    lineOrders oracle index lines server = [] := by
  induction lines generalizing index server with
  | nil => rfl
  | cons line rest ih =>
      rcases line with ⟨text, stop⟩
      obtain ⟨free, other⟩ := plain (text, stop) List.mem_cons_self
      have tail := fun later member => plain later (List.mem_cons_of_mem (text, stop) member)
      simp only [lineOrders]
      split
      · exact ih (index + 1) (advanceOffset stop server) ready tail
      · rw [thread_orders (oracle index) text server ready free other, List.nil_append]
        refine ih (index + 1) _ ?_ tail
        simpa [advanceOffset, (thread_line (oracle index) text server ready).1] using ready

end Orders

section Passes

/-- The connection stays, so that the thread goes on receiving from it. -/
theorem link_receiving (before after : Server) (same : link after = link before) :
    receiving after.repl = receiving before.repl := by
  simp only [link, Prod.mk.injEq] at same
  simp only [receiving, same.1, same.2.1]

theorem marked_receiving (repl : ReplicationInfo) :
    receiving (markConnected repl) = receiving repl := by
  simp only [markConnected]
  split
  case isTrue synced => simp [receiving, synced]
  case isFalse => rfl

theorem receiving_state (repl : ReplicationInfo) (opened : receiving repl = true) :
    repl.role = .replica ∧ (repl.state = .sync ∨ repl.state = .connected) := by
  simpa [receiving] using opened

theorem data_pass (oracle : Nat → Oracle) (chunk : Bytes) (connect : Connect) (server : Server)
    (opened : receiving server.repl = true) :
    replicationThread oracle (.data chunk) connect server = receiveFromPrimary oracle chunk server := by
  rcases receiving_state server.repl opened with ⟨role, synced | connected⟩
  · simp [replicationThread, role, synced]
  · simp [replicationThread, role, connected]

theorem blocked_pass (oracle : Nat → Oracle) (connect : Connect) (server : Server)
    (opened : receiving server.repl = true) :
    replicationThread oracle .wouldBlock connect server = (server, []) := by
  rcases receiving_state server.repl opened with ⟨role, synced | connected⟩
  · simp [replicationThread, role, synced]
  · simp [replicationThread, role, connected]

theorem lost_pass (oracle : Nat → Oracle) (connect : Connect) (server : Server)
    (opened : receiving server.repl = true) :
    replicationThread oracle .lost connect server =
      ((reconnect connect { server with repl := (losePrimary server.repl).1 }).1,
        (losePrimary server.repl).2 ++
          (reconnect connect { server with repl := (losePrimary server.repl).1 }).2) := by
  rcases receiving_state server.repl opened with ⟨role, synced | connected⟩
  · simp [replicationThread, role, synced]
  · simp [replicationThread, role, connected]

/-- A pass that does not receive does nothing or connects. -/
theorem idle_pass (oracle : Nat → Oracle) (received : Received) (connect : Connect) (server : Server)
    (idle : receiving server.repl = false) :
    replicationThread oracle received connect server = (server, []) ∨
      replicationThread oracle received connect server = reconnect connect server := by
  simp only [receiving] at idle
  cases role : server.repl.role with
  | primary => exact Or.inl (by simp [replicationThread, role])
  | replica =>
      cases state : server.repl.state with
      | none => exact Or.inl (by simp [replicationThread, role, state])
      | connecting =>
          by_cases unset : server.repl.primaryFd = -1
          · exact Or.inr (by simp [replicationThread, role, state, unset])
          · exact Or.inl (by simp [replicationThread, role, state, unset])
      | sync => simp [role, state] at idle
      | connected => simp [role, state] at idle

/-- The thread executes nothing while it connects. -/
theorem reconnect_silent (connect : Connect) (server : Server) :
    executedInputs (-1) (reconnect connect server).2 = [] ∧
      (reconnect connect server).1.replicaBuffer = server.replicaBuffer :=
  ⟨(quiet_set_primary connect _ _ _ server.repl).executed (-1), rfl⟩

/-- What a step does for the receive buffer: it receives and scans, or leaves it alone. -/
inductive Pass (server : Server) (step : ServerStep) : Prop where
  | scanned
      (passed : passedLines server step =
        replicaLines (server.replicaBuffer ++ receivedBytes server step))
      (left : (next server step).replicaBuffer =
        (crlfLines 0 [] (server.replicaBuffer ++ receivedBytes server step)).2)
  | silent (received : receivedBytes server step = []) (passed : passedLines server step = [])
      (kept : (next server step).replicaBuffer = server.replicaBuffer)

theorem step_passes (server : Server) (wf : Wellformed server) (step : ServerStep) :
    Pass server step := by
  cases step with
  | connect | receive | sweep | autoSave =>
      exact .silent rfl rfl (step_buffer server _ (by simp))
  | replication oracle received connect =>
      cases opened : receiving server.repl with
      | true =>
          cases received with
          | data chunk =>
              have pass := data_pass oracle chunk connect server opened
              apply Pass.scanned
              · simp only [passedLines, receivedBytes, opened, ↓reduceIte, pass, receiveFromPrimary]
                exact lines_executed oracle _ 0 server wf.ready
              · simp only [next, stepServer, receivedBytes, opened, ↓reduceIte, pass,
                  receiveFromPrimary]
          | wouldBlock =>
              have pass := blocked_pass oracle connect server opened
              exact .silent rfl (by simp [passedLines, pass, executedInputs])
                (by simp [next, stepServer, pass])
          | lost =>
              have pass := lost_pass oracle connect server opened
              obtain ⟨none, same⟩ := reconnect_silent connect
                { server with repl := (losePrimary server.repl).1 }
              refine .silent rfl ?_ (by simp [next, stepServer, pass, same])
              rw [passedLines, pass, executed_append, none]
              rfl
      | false =>
          have idle := idle_pass oracle received connect server opened
          obtain ⟨none, same⟩ := reconnect_silent connect server
          have unread : receivedBytes server (.replication oracle received connect) = [] := by
            cases received <;> simp [receivedBytes, opened]
          rcases idle with idle | idle
          · exact .silent unread (by simp [passedLines, idle, executedInputs])
              (by simp [next, stepServer, idle])
          · exact .silent unread (by rw [passedLines, idle, none])
              (by simp [next, stepServer, idle, same])

end Passes

section Stream

/-- No client gives an order, and the connection is not lost. -/
def Stays (server : Server) : ServerStep → Prop
  | .replication _ .lost _ => False
  | .replication _ _ _ => True
  | step => clientOrders server step = []

/-- A line of the stream of a primary. -/
structure StreamLine (bufferSize : Nat) (line : Bytes) : Prop where
  undivided : Undivided cr lf line
  free : 0 ∉ line
  short : line.length ≤ bufferSize - 3
  other : commandName line ≠ ascii "replicaof"

theorem stays_link (server : Server) (step : ServerStep) (stays : Stays server step)
    (apart : ∀ oracle received connect, step ≠ .replication oracle received connect) :
    receiving (next server step).repl = receiving server.repl := by
  have ordered := step_ordered ⟨server, fun _ => .head⟩ step apart
  have quiet : stepOrders ⟨server, fun _ => .head⟩ (.serve step) = [] := by
    cases step with
    | replication oracle received connect => exact absurd rfl (apart oracle received connect)
    | connect | receive | sweep | autoSave => exact stays
  rw [quiet] at ordered
  exact link_receiving server _ ordered

/-- The thread goes on receiving while its lines and the clients give no order. -/
theorem stays_receiving (server : Server) (wf : Wellformed server) (step : ServerStep)
    (opened : receiving server.repl = true) (stays : Stays server step)
    (plain : ∀ line ∈ (crlfLines 0 [] (server.replicaBuffer ++ receivedBytes server step)).1,
      0 ∉ line.1 ∧ commandName line.1 ≠ ascii "replicaof") :
    receiving (next server step).repl = true := by
  cases step with
  | connect | receive | sweep | autoSave =>
      rw [stays_link server _ stays (by simp), opened]
  | replication oracle received connect =>
      cases received with
      | lost => exact absurd stays id
      | wouldBlock => simp [next, stepServer, blocked_pass oracle connect server opened, opened]
      | data chunk =>
          simp only [receivedBytes, opened, ↓reduceIte] at plain
          have ordered := lines_ordered oracle (crlfLines 0 [] (server.replicaBuffer ++ chunk)).1 0
            server
          rw [no_line_orders oracle _ 0 server wf.ready plain] at ordered
          simp only [next, stepServer, data_pass oracle chunk connect server opened,
            receiveFromPrimary, marked_receiving]
          rw [link_receiving server _ ordered, opened]

theorem frames_resumed (held chunk more : Bytes) :
    frames cr lf [] (held ++ (chunk ++ more)) =
      ((frames cr lf [] (held ++ chunk)).1 ++
          (frames cr lf [] ((frames cr lf [] (held ++ chunk)).2 ++ more)).1,
        (frames cr lf [] ((frames cr lf [] (held ++ chunk)).2 ++ more)).2) := by
  have whole := frames_held cr lf [] (held ++ chunk) (undivided_nil cr lf)
  rw [← List.append_assoc, frames_append, frames_append cr lf [] _ more,
    frames_undivided cr lf [] _ whole]
  rfl

/-- One step executes the frames of what was held and what it receives, and holds the rest. -/
theorem step_frames (server : Server) (wf : Wellformed server) (opened : receiving server.repl = true)
    (step : ServerStep) (stays : Stays server step) (held : Undivided cr lf server.replicaBuffer)
    (free : 0 ∉ server.replicaBuffer ++ receivedBytes server step)
    (plain : ∀ line ∈ (frames cr lf [] (server.replicaBuffer ++ receivedBytes server step)).1,
      commandName line ≠ ascii "replicaof") :
    receiving (next server step).repl = true ∧
      passedLines server step =
        (frames cr lf [] (server.replicaBuffer ++ receivedBytes server step)).1.filter (· ≠ []) ∧
      (next server step).replicaBuffer =
        (frames cr lf [] (server.replicaBuffer ++ receivedBytes server step)).2 := by
  have same := crlf_lines_frames 0 [] (server.replicaBuffer ++ receivedBytes server step) free
  have lines : ∀ line ∈ (crlfLines 0 [] (server.replicaBuffer ++ receivedBytes server step)).1,
      0 ∉ line.1 ∧ commandName line.1 ≠ ascii "replicaof" := by
    intro line member
    refine ⟨crlf_lines_free 0 [] _ (by simp) line member, ?_⟩
    apply plain
    rw [← same]
    exact List.mem_map_of_mem member
  refine ⟨stays_receiving server wf step opened stays lines, ?_⟩
  cases step_passes server wf step with
  | scanned passed left =>
      constructor
      · rw [passed, replica_lines_frames _ free]
      · rw [left, ← same]
  | silent none passed kept =>
      rw [none, List.append_nil, frames_undivided cr lf [] _ held, passed, kept]
      exact ⟨rfl, rfl⟩

/-- On one connection the thread executes the frames of all it has received and holds the
    bytes behind them. -/
theorem run_frames (server : Server) (wf : Wellformed server) (opened : receiving server.repl = true)
    (steps : List ServerStep)
    (admitted : Admitted (fun server step => Possible server step ∧ Stays server step) next server
      steps)
    (held : Undivided cr lf server.replicaBuffer)
    (free : 0 ∉ server.replicaBuffer ++ outputs next receivedBytes server steps)
    (plain : ∀ line ∈ (frames cr lf [] (server.replicaBuffer ++
      outputs next receivedBytes server steps)).1, commandName line ≠ ascii "replicaof") :
    outputs next passedLines server steps =
        (frames cr lf [] (server.replicaBuffer ++
          outputs next receivedBytes server steps)).1.filter (· ≠ []) ∧
      (run next server steps).replicaBuffer =
        (frames cr lf [] (server.replicaBuffer ++ outputs next receivedBytes server steps)).2 := by
  induction steps generalizing server with
  | nil => simp [outputs, run, frames_undivided cr lf [] server.replicaBuffer held]
  | cons step rest ih =>
      obtain ⟨⟨possible, stays⟩, later⟩ := admitted
      simp only [outputs] at free plain ⊢
      rw [frames_resumed] at plain ⊢
      have freeHere : 0 ∉ server.replicaBuffer ++ receivedBytes server step := by
        simp only [List.mem_append] at free ⊢
        tauto
      have after := next_wellformed server step wf possible
      obtain ⟨goes, executed, left⟩ := step_frames server wf opened step stays held freeHere
        fun line member => plain line (List.mem_append_left _ member)
      have tail := ih (next server step) after goes later
        (by
          rw [left]
          exact frames_held cr lf [] _ (undivided_nil cr lf))
        (by
          rw [left, List.mem_append]
          rintro (early | late)
          · apply freeHere
            have joined := frames_join cr lf [] (server.replicaBuffer ++ receivedBytes server step)
            rw [List.nil_append] at joined
            rw [← joined]
            exact List.mem_append_right _ early
          · exact free (List.mem_append_right _ (List.mem_append_right _ late)))
        (by
          rw [left]
          exact fun line member => plain line (List.mem_append_right _ member))
      rw [left] at tail
      rw [executed, tail.1, List.filter_append]
      exact ⟨rfl, tail.2⟩

end Stream

section Segmentation

theorem run_config (server : Server) (wf : Wellformed server) (steps : List ServerStep)
    (admitted : Admitted Possible next server steps) :
    (run next server steps).config = server.config := by
  have preserved : ∀ before step,
      Wellformed before ∧ before.config = server.config → Possible before step →
      Wellformed (next before step) ∧ (next before step).config = server.config := by
    intro before step ⟨wf, same⟩ possible
    exact ⟨next_wellformed before step wf possible, (next_config before step wf possible).trans same⟩
  exact (run_invariant Possible next preserved server ⟨wf, rfl⟩ steps admitted).2

/-- However recv cuts the stream of a primary, the thread executes its nonempty lines, each as
    soon as its CRLF is there, and always asks recv for at least one byte. -/
theorem framing_ignores_segmentation (server : Server) (reachable : Reachable server)
    (opened : receiving server.repl = true) (fresh : server.replicaBuffer = [])
    (roomy : 3 ≤ server.config.bufferSize) (lines : List Bytes)
    (each : ∀ line ∈ lines, StreamLine server.config.bufferSize line) (steps : List ServerStep)
    (admitted : Admitted (fun server step => Possible server step ∧ Stays server step) next server
      steps)
    (delivers : outputs next receivedBytes server steps <+: lines.flatMap fun line => line ++ crlf) :
    outputs next passedLines server steps =
        (lines.take (completed lines (outputs next receivedBytes server steps).length)).filter
          (· ≠ []) ∧
      (outputs next receivedBytes server steps = lines.flatMap (fun line => line ++ crlf) →
        outputs next passedLines server steps = lines.filter (· ≠ [])) ∧
      0 < requested (run next server steps) := by
  have wf := reachable_wellformed server reachable
  have undivided := fun line member => (each line member).undivided
  obtain ⟨closed, held⟩ := frames_initial cr lf lines crlf_distinct undivided _ delivers
  have free : 0 ∉ outputs next receivedBytes server steps := by
    intro zero
    obtain ⟨line, member, inside⟩ := List.mem_flatMap.mp (delivers.subset zero)
    have clean : 0 ∉ crlf := by simp [crlf, cr, lf]
    rcases List.mem_append.mp inside with there | there
    · exact (each line member).free there
    · exact clean there
  obtain ⟨executed, left⟩ := run_frames server wf opened steps admitted
    (by rw [fresh]; exact undivided_nil cr lf) (by simpa [fresh] using free)
    (by
      rw [fresh, List.nil_append, closed]
      exact fun line member => (each line (List.mem_of_mem_take member)).other)
  rw [fresh, List.nil_append] at executed left
  refine ⟨by rw [executed, closed], ?_, ?_⟩
  · intro whole
    have cut := frames_lines cr lf lines crlf_distinct undivided
    rw [executed, whole]
    exact congrArg (fun found => found.1.filter (· ≠ [])) cut
  · have config := run_config server wf steps
      ((admitted_and Possible next Stays server steps).mp admitted).1
    have bound := held (server.config.bufferSize - 2) fun line member => by
      have short := (each line member).short
      omega
    rw [← left] at bound
    rw [requested, config]
    omega

/-- A replica that has just connected. -/
def linked : Server := next oneClient (.receive reachablePrimary 7 (ascii "REPLICAOF h 6379\r\n"))

theorem linked_reachable : Reachable linked :=
  reachable_next _ _ one_client_reachable ⟨one_client_open, by decide⟩

def receives (text : String) : ServerStep :=
  .replication (fun _ => calm 0) (.data (ascii text)) .refused

theorem receives_room (server : Server) (text : String)
    (room : server.replicaBuffer.length + (ascii text).length < server.config.bufferSize) :
    Possible server (receives text) := room

/-- Two lines, cut between CR and LF and within the second one. -/
def cutSteps : List ServerStep := [receives "SET a 1\r", receives "\nSET b", receives " 2\r\n"]

theorem cut_stream_is_executed :
    outputs next passedLines linked cutSteps = [ascii "SET a 1", ascii "SET b 2"] ∧
      0 < requested (run next linked cutSteps) := by
  have line (text : String) (clean : cr ∉ ascii text) (free : 0 ∉ ascii text)
      (short : (ascii text).length ≤ 1021) (other : commandName (ascii text) ≠ ascii "replicaof") :
      StreamLine 1024 (ascii text) := ⟨Undivided.of_free cr lf clean, free, short, other⟩
  have framed := framing_ignores_segmentation linked linked_reachable (by decide +kernel)
    (by decide +kernel) (by decide +kernel) [ascii "SET a 1", ascii "SET b 2"]
    (by
      intro text member
      simp only [List.mem_cons, List.not_mem_nil, or_false] at member
      rcases member with rfl | rfl
      · exact line "SET a 1" (by decide) (by decide) (by decide) (by decide)
      · exact line "SET b 2" (by decide) (by decide) (by decide) (by decide))
    cutSteps
    ⟨⟨receives_room _ _ (by decide +kernel), trivial⟩, ⟨receives_room _ _ (by decide +kernel), trivial⟩,
      ⟨receives_room _ _ (by decide +kernel), trivial⟩, trivial⟩
    (by decide +kernel)
  exact ⟨framed.2.1 (by decide +kernel), framed.2.2⟩

end Segmentation

end CrimsonCache.ReplicaFraming
