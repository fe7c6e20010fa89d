import CrimsonCache.PrimaryOffset
import CrimsonCache.ReplicaReconnect

/-!
What a replica adds to `repl_offset` for the lines it takes from its buffer. The
increment is the distance from the start of the buffer to the end of the line,
so that a line behind others in one pass is counted together with them. The
total is the number of consumed bytes exactly when no pass completes two lines.
-/

namespace CrimsonCache.ReplicaOffset

open CString Replies Transaction Replication Tokenizer ServerState Commands TransactionSteps Connections
  ReplicationThread ServerRuns ReplicaFraming ReplicaReconnect PrimaryOffset Runs Framing

/-- The lines that a step finds complete, each with the position behind it in the buffer. -/
def foundLines (server : Server) : ServerStep → List (Bytes × Nat)
  | .replication _ (.data chunk) _ =>
      if receiving server.repl then (crlfLines 0 [] (server.replicaBuffer ++ chunk)).1 else []
  | _ => []

/-- The lines with the CRLFs that ended them. -/
def lineBytes (lines : List Bytes) : Bytes := lines.flatMap fun line => line ++ crlf

def consumedLines (server : Server) (step : ServerStep) : List Bytes :=
  (foundLines server step).map Prod.fst

/-- What the passes of a run have taken out of the buffer. -/
def consumed (server : Server) (steps : List ServerStep) : Bytes :=
  lineBytes (outputs next consumedLines server steps)

/-- The increase of the offset that is the work of the replication thread. -/
def threadAdvance (server : Server) (step : ServerStep) : Nat :=
  match step with
  | .replication _ _ _ => advance server.repl.replOffset (next server step).repl.replOffset
  | _ => 0

def totalAdvance (server : Server) (steps : List ServerStep) : Nat :=
  (outputs next (fun server step => [threadAdvance server step]) server steps).sum

section Positions

/-- Each line ends its length and a CRLF behind the one in front of it. -/
def Consecutive : Nat → List (Bytes × Nat) → Prop
  | _, [] => True
  | start, (line, stop) :: rest => stop = start + line.length + 2 ∧ Consecutive stop rest

theorem crlf_lines_consecutive (start pos : Nat) (line buffer : Bytes)
    (at_ : pos = start + line.length) : Consecutive start (crlfLines pos line buffer).1 := by
  induction buffer generalizing start pos line with
  | nil => trivial
  | cons c rest ih =>
      simp only [crlfLines]
      split
      · trivial
      · split
        case isTrue closing =>
          obtain ⟨front, rfl⟩ := List.getLast?_eq_some_iff.mp closing.2
          refine ⟨?_, ih (pos + 1) (pos + 1) [] rfl⟩
          simp only [List.length_append, List.length_singleton] at at_
          simp only [List.dropLast_concat]
          omega
        case isFalse =>
          apply ih
          simp only [List.length_append, List.length_singleton]
          omega

def stops (lines : List (Bytes × Nat)) : Nat := (lines.map Prod.snd).sum

theorem line_bytes_cons (line : Bytes) (rest : List Bytes) :
    (lineBytes (line :: rest)).length = line.length + 2 + (lineBytes rest).length := by
  have ending : crlf.length = 2 := rfl
  simp only [lineBytes, List.flatMap_cons, List.length_append, ending]

theorem line_bytes_append (first second : List Bytes) :
    lineBytes (first ++ second) = lineBytes first ++ lineBytes second := List.flatMap_append

theorem stops_at_least (start : Nat) (lines : List (Bytes × Nat))
    (consecutive : Consecutive start lines) :
    (lineBytes (lines.map Prod.fst)).length ≤ stops lines := by
  induction lines generalizing start with
  | nil => simp [lineBytes]
  | cons line rest ih =>
      obtain ⟨here, later⟩ := consecutive
      have tail := ih line.2 later
      rw [List.map_cons, line_bytes_cons]
      simp only [stops, List.map_cons, List.sum_cons] at tail ⊢
      omega

/-- From the start of the buffer the positions add up to the lines' bytes only if there is one
    line or none. -/
theorem stops_exact_iff (lines : List (Bytes × Nat)) (consecutive : Consecutive 0 lines) :
    stops lines = (lineBytes (lines.map Prod.fst)).length ↔ lines.length ≤ 1 := by
  match lines with
  | [] => simp [stops, lineBytes]
  | [line] =>
      obtain ⟨here, -⟩ := consecutive
      have length := line_bytes_cons line.1 []
      have empty : (lineBytes []).length = 0 := rfl
      simp only [stops, List.map_cons, List.map_nil, List.sum_cons, List.sum_nil,
        List.length_singleton, le_refl, iff_true, length, empty]
      omega
  | line :: second :: rest =>
      obtain ⟨here, there, later⟩ := consecutive
      have tail := stops_at_least second.2 rest later
      rw [List.map_cons, List.map_cons, line_bytes_cons, line_bytes_cons]
      simp only [stops, List.map_cons, List.sum_cons, List.length_cons] at tail ⊢
      omega

/-- No position is behind the end of the buffer. -/
theorem stops_bounded (start : Nat) (lines : List (Bytes × Nat))
    (consecutive : Consecutive start lines) :
    stops lines ≤ lines.length * (start + (lineBytes (lines.map Prod.fst)).length) := by
  induction lines generalizing start with
  | nil => simp [stops]
  | cons line rest ih =>
      obtain ⟨here, later⟩ := consecutive
      have tail := ih line.2 later
      rw [List.map_cons, line_bytes_cons]
      simp only [stops, List.map_cons, List.sum_cons, List.length_cons] at tail ⊢
      have same : line.2 + (lineBytes (rest.map Prod.fst)).length =
          start + (line.1.length + 2 + (lineBytes (rest.map Prod.fst)).length) := by omega
      rw [same] at tail
      rw [Nat.add_mul, Nat.one_mul]
      omega

theorem lines_in_bytes (lines : List (Bytes × Nat)) :
    lines.length ≤ (lineBytes (lines.map Prod.fst)).length := by
  induction lines with
  | nil => simp
  | cons line rest ih =>
      rw [List.map_cons, line_bytes_cons, List.length_cons]
      omega

/-- The positions of a buffer's lines add up to less than the range of the offset. -/
theorem stops_in_range (buffer : Bytes) (short : buffer.length < 2 ^ 31) :
    stops (crlfLines 0 [] buffer).1 < 2 ^ 64 := by
  have bounded := stops_bounded 0 _ (crlf_lines_consecutive 0 0 [] buffer rfl)
  have count := lines_in_bytes (crlfLines 0 [] buffer).1
  have joined := congrArg List.length (crlf_lines_join buffer).1
  have same : ((crlfLines 0 [] buffer).1.map Prod.fst).flatMap (fun line => line ++ crlf) =
      lineBytes ((crlfLines 0 [] buffer).1.map Prod.fst) := rfl
  rw [List.length_append, same] at joined
  generalize (lineBytes ((crlfLines 0 [] buffer).1.map Prod.fst)).length = length at *
  have square : (crlfLines 0 [] buffer).1.length * (0 + length) ≤ 2 ^ 31 * 2 ^ 31 :=
    Nat.mul_le_mul (by omega) (by omega)
  omega

end Positions

section Offset

theorem handler_offset (execute : Nat → Bytes → Server → Outcome) (env : Env) (sock : Int)
    (argv : List Bytes) (server : Server) (command : Command) (direct : command ≠ .exec) :
    (runHandler execute env sock argv server command).server.repl.replOffset =
      server.repl.replOffset := by
  have closed : (closePrimary server.repl).1.replOffset = server.repl.replOffset := by
    simp only [closePrimary]
    split <;> rfl
  cases command with
  | exec => exact absurd rfl direct
  | ping | set | get | del | exist | expire | ttl | save | bgsave | role | incr | multi | discard
  | subscribe | unsubscribe | publish =>
      rw [(handler_untouched execute env sock argv server _ direct).repl (by decide) (by decide)]
  | replconf =>
      simp only [runHandler, replconfCommand, addReplica]
      split
      · split <;> rfl
      · rfl
  | replicaof =>
      simp only [runHandler, replicaofCommand, replicationUnsetPrimary, replicationSetPrimary]
      split
      · exact closed
      · split
        · rfl
        · cases env.connect with
          | unresolved | refused | connected => exact closed

/-- What the thread executes is not fed on, so that the line leaves the offset alone. -/
theorem line_offset (oracle : Oracle) (line : Bytes) (server : Server)
    (ready : QueuesReady server.clientList) :
    (executeCommand oracle (-1) line server).server.repl.replOffset = server.repl.replOffset := by
  have absent : findClient (-1) server = none := ready.thread_absent
  have ran := execute_with_cases
    (fun index cmd server => executeCommandAt 0 (oracle.inner index) (-1) cmd server) (oracle []) (-1)
    line server
  rw [executeCommand, executeCommandAt]
  generalize executeWith _ (oracle []) (-1) line server = outcome at ran ⊢
  cases ran with
  | refused => rfl
  | queued _ inside => simp [inTransaction] at inside
  | ran row =>
      have kept (outcome : Outcome) (input name : Bytes) :
          propagate (oracle []) (-1) input name outcome = outcome := by simp [propagate]
      rw [kept]
      by_cases exec : row.command = .exec
      · simp [exec, runHandler, execCommand, absent, replied]
      · exact handler_offset _ _ _ _ _ row.command exec

theorem lines_offset (oracle : Nat → Oracle) (lines : List (Bytes × Nat)) (index : Nat)
    (server : Server) (ready : QueuesReady server.clientList) :
    (executeLines oracle index lines server).1.repl.replOffset % 2 ^ 64 =
      (server.repl.replOffset + stops lines) % 2 ^ 64 := by
  induction lines generalizing index server with
  | nil => simp [executeLines, stops]
  | cons line rest ih =>
      rcases line with ⟨text, stop⟩
      have sum : stops ((text, stop) :: rest) = stop + stops rest := by simp [stops]
      simp only [executeLines]
      split
      · rw [ih (index + 1) (advanceOffset stop server) ready, sum]
        simp only [advanceOffset, Nat.mod_add_mod, Nat.add_assoc]
      · obtain ⟨clients, -⟩ := thread_line (oracle index) text server ready
        have same := line_offset (oracle index) text server ready
        rw [ih (index + 1) _ (by simpa [advanceOffset, clients] using ready), sum]
        simp only [advanceOffset, same, Nat.mod_add_mod, Nat.add_assoc]

theorem advance_none (offset : Nat) : advance offset offset = 0 := by simp [advance, wrap64]

theorem advance_by (before after count : Nat) (moved : after % 2 ^ 64 = (before + count) % 2 ^ 64)
    (small : count < 2 ^ 64) : advance before after = count := by
  simp only [advance, wrap64]
  omega

theorem reconnect_offset (connect : Connect) (server : Server) :
    (reconnect connect server).1.repl.replOffset = server.repl.replOffset := by
  have closed : (closePrimary server.repl).1.replOffset = server.repl.replOffset := by
    simp only [closePrimary]
    split <;> rfl
  simp only [reconnect, replicationSetPrimary]
  split <;> exact closed

end Offset

section Steps

variable (server : Server) (step : ServerStep)

theorem data_found (oracle : Nat → Oracle) (chunk : Bytes) (connect : Connect)
    (opened : receiving server.repl = true) :
    foundLines server (.replication oracle (.data chunk) connect) =
      (crlfLines 0 [] (server.replicaBuffer ++ chunk)).1 := if_pos opened

theorem idle_found (oracle : Nat → Oracle) (received : Received) (connect : Connect)
    (idle : receiving server.repl = false) :
    foundLines server (.replication oracle received connect) = [] := by
  cases received <;> simp [foundLines, idle]

/-- The lines that a step consumes and what it holds are what was held and what it receives. -/
theorem step_consumes :
    lineBytes (consumedLines server step) ++ (next server step).replicaBuffer =
      server.replicaBuffer ++ receivedBytes server step := by
  have silent (none : foundLines server step = []) (unread : receivedBytes server step = [])
      (kept : (next server step).replicaBuffer = server.replicaBuffer) :
      lineBytes (consumedLines server step) ++ (next server step).replicaBuffer =
        server.replicaBuffer ++ receivedBytes server step := by
    simp [consumedLines, none, unread, kept, lineBytes]
  cases step with
  | connect | receive | sweep | autoSave => exact silent rfl rfl (step_buffer server _ (by simp))
  | replication oracle received connect =>
      cases opened : receiving server.repl with
      | true =>
          cases received with
          | data chunk =>
              obtain ⟨joined, -⟩ := crlf_lines_join (server.replicaBuffer ++ chunk)
              simp only [consumedLines, data_found server oracle chunk connect opened, receivedBytes,
                opened, ↓reduceIte, next, stepServer, data_pass oracle chunk connect server opened,
                receiveFromPrimary]
              exact joined
          | wouldBlock =>
              exact silent rfl rfl (by simp [next, stepServer, blocked_pass oracle connect server opened])
          | lost =>
              refine silent rfl rfl ?_
              simp only [next, stepServer, lost_pass oracle connect server opened]
              exact (reconnect_silent connect { server with repl := (losePrimary server.repl).1 }).2
      | false =>
          refine silent (idle_found server oracle received connect opened) ?_ ?_
          · cases received <;> simp [receivedBytes, opened]
          · rcases idle_pass oracle received connect server opened with idle | idle
            · simp [next, stepServer, idle]
            · simp only [next, stepServer, idle]
              exact (reconnect_silent connect server).2

/-- A step of the thread adds the positions of the lines it finds. -/
theorem step_advances (wf : Wellformed server) (possible : Possible server step) :
    threadAdvance server step = stops (foundLines server step) := by
  have none : stops [] = 0 := rfl
  cases step with
  | connect | receive | sweep | autoSave => rfl
  | replication oracle received connect =>
      simp only [threadAdvance, next, stepServer]
      cases opened : receiving server.repl with
      | true =>
          cases received with
          | data chunk =>
              have moved := lines_offset oracle (crlfLines 0 [] (server.replicaBuffer ++ chunk)).1 0
                server wf.ready
              have marked (repl : ReplicationInfo) : (markConnected repl).replOffset =
                  repl.replOffset := by
                simp only [markConnected]
                split <;> rfl
              have room : server.replicaBuffer.length + chunk.length < server.config.bufferSize :=
                possible
              have bound := wf.bufferSize
              have small := stops_in_range (server.replicaBuffer ++ chunk)
                (by rw [List.length_append]; omega)
              rw [data_found server oracle chunk connect opened,
                data_pass oracle chunk connect server opened]
              refine advance_by _ _ _ ?_ small
              simp only [receiveFromPrimary, marked]
              exact moved
          | wouldBlock =>
              rw [blocked_pass oracle connect server opened]
              exact advance_none _
          | lost =>
              rw [lost_pass oracle connect server opened, reconnect_offset]
              exact advance_none _
      | false =>
          rw [idle_found server oracle received connect opened]
          rcases idle_pass oracle received connect server opened with idle | idle
          · rw [idle]
            exact advance_none _
          · rw [idle, reconnect_offset]
            exact advance_none _

theorem found_consecutive : Consecutive 0 (foundLines server step) := by
  cases step with
  | connect | receive | sweep | autoSave => trivial
  | replication oracle received connect =>
      cases received with
      | data chunk =>
          simp only [foundLines]
          split
          · exact crlf_lines_consecutive 0 0 [] _ rfl
          · trivial
      | wouldBlock | lost => trivial

end Steps

section Runs

/-- What has been consumed and what is held make up the stream, however it was cut. -/
theorem run_consumes (server : Server) (steps : List ServerStep) :
    consumed server steps ++ (run next server steps).replicaBuffer =
      server.replicaBuffer ++ outputs next receivedBytes server steps := by
  induction steps generalizing server with
  | nil => simp [consumed, outputs, lineBytes, run]
  | cons step rest ih =>
      have here := step_consumes server step
      have tail := ih (next server step)
      have split : consumed server (step :: rest) =
          lineBytes (consumedLines server step) ++ consumed (next server step) rest := by
        simp only [consumed, outputs, line_bytes_append]
      have ran : run next server (step :: rest) = run next (next server step) rest := rfl
      rw [split, ran, List.append_assoc, tail, ← List.append_assoc, here, outputs, List.append_assoc]

/-- The thread's increases and the consumed bytes, step by step. -/
theorem run_advances (server : Server) (wf : Wellformed server) (steps : List ServerStep)
    (admitted : Admitted Possible next server steps) :
    (consumed server steps).length ≤ totalAdvance server steps ∧
      (totalAdvance server steps = (consumed server steps).length ↔
        ∀ pass ∈ trace next server steps, (foundLines pass.1 pass.2).length ≤ 1) := by
  induction steps generalizing server with
  | nil => simp [consumed, totalAdvance, outputs, lineBytes, trace]
  | cons step rest ih =>
      obtain ⟨possible, later⟩ := admitted
      obtain ⟨least, exactly⟩ := ih (next server step) (next_wellformed server step wf possible) later
      have here := step_advances server step wf possible
      have consecutive := found_consecutive server step
      have covers := stops_at_least 0 _ consecutive
      have precise := stops_exact_iff _ consecutive
      have length : (consumed server (step :: rest)).length =
          (lineBytes (consumedLines server step)).length + (consumed (next server step) rest).length := by
        simp only [consumed, outputs, line_bytes_append, List.length_append]
      have total : totalAdvance server (step :: rest) =
          stops (foundLines server step) + totalAdvance (next server step) rest := by
        simp only [totalAdvance, outputs, List.sum_append, List.sum_cons, List.sum_nil, here,
          Nat.add_zero]
      simp only [consumedLines] at length
      rw [length, total, trace, List.forall_mem_cons, ← precise, ← exactly]
      omega

/-- In every run, however recv cuts what arrives, the lines consumed so far and what is held are
    the bytes received, and the thread has advanced the offset by the bytes of the consumed lines
    exactly when none of its passes completed a second line. -/
theorem offset_counts_consumed_iff (server : Server) (reachable : Reachable server)
    (steps : List ServerStep) (admitted : Admitted Possible next server steps) :
    consumed server steps ++ (run next server steps).replicaBuffer =
        server.replicaBuffer ++ outputs next receivedBytes server steps ∧
      (totalAdvance server steps = (consumed server steps).length ↔
        ∀ pass ∈ trace next server steps, (foundLines pass.1 pass.2).length ≤ 1) :=
  ⟨run_consumes server steps,
    (run_advances server (reachable_wellformed server reachable) steps admitted).2⟩

/-- One line with each read. -/
def lineByLine : List ServerStep := [receives "SET a 1\r\n", receives "SET b 2\r\n"]

theorem line_by_line_counts :
    totalAdvance linked lineByLine = 18 ∧ (consumed linked lineByLine).length = 18 := by
  have length : (consumed linked lineByLine).length = 18 := by decide +kernel
  refine ⟨?_, length⟩
  rw [← length]
  exact (offset_counts_consumed_iff linked linked_reachable lineByLine
    ⟨receives_room _ _ (by decide +kernel), receives_room _ _ (by decide +kernel), trivial⟩).2.mpr
    (by decide +kernel)

/-- Both lines with one read: the second is counted from the start of the buffer. -/
theorem joined_lines_overcount :
    Reachable linked ∧
      Admitted Possible next linked [receives "SET a 1\r\nSET b 2\r\n"] ∧
      (consumed linked [receives "SET a 1\r\nSET b 2\r\n"]).length = 18 ∧
      totalAdvance linked [receives "SET a 1\r\nSET b 2\r\n"] = 27 :=
  ⟨linked_reachable, ⟨receives_room _ _ (by decide +kernel), trivial⟩, by decide +kernel,
    by decide +kernel⟩

end Runs

end CrimsonCache.ReplicaOffset
