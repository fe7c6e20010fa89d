import CrimsonCache.ReplicaFraming

/-!
The receive buffer of the replication thread when the connection changes. The
buffer and its fill position belong to the thread, not to the connection, so a
line that was begun on one connection is finished by what the next one sends.
Lines stay whole exactly as long as no connection ends within a line.
-/

namespace CrimsonCache.ReplicaReconnect

open CString Replies Transaction Replication Tokenizer ServerState Commands TransactionSteps Connections
  ReplicationThread ServerRuns Promotion ReplicaFraming Runs Framing

/-- A line of a stream from one line end to the next. -/
def CompleteLine (stream line : Bytes) : Prop :=
  ∃ before after, stream = before ++ (line ++ crlf) ++ after ∧ (before = [] ∨ crlf <:+ before) ∧
    Undivided cr lf line

/-- The server with all that it received on the connection that is open. -/
structure Tracked where
  server : Server
  stream : Bytes

def track (tracked : Tracked) (step : ServerStep) : Tracked where
  server := next tracked.server step
  stream :=
    if relinks tracked.server step then []
    else tracked.stream ++ receivedBytes tracked.server step

/-- The lines executed in a step, each with what was received on its connection. -/
def executedFrom (tracked : Tracked) (step : ServerStep) : List (Bytes × Bytes) :=
  (passedLines tracked.server step).map fun line =>
    (tracked.stream ++ receivedBytes tracked.server step, line)

/-- A connection that ends in this step ends behind a line end. -/
def EndsWhole (server : Server) (step : ServerStep) : Prop :=
  receiving server.repl = true → relinks server step = true →
    (next server step).replicaBuffer = []

section Lines

/-- Up to the first NUL the loop is the library's scanner; behind it nothing is looked at. -/
theorem crlf_lines_cut (pos : Nat) (line front back : Bytes) (free : 0 ∉ front)
    (stop : ∀ c ∈ back.head?, c = 0) :
    (crlfLines pos line (front ++ back)).1.map Prod.fst = (frames cr lf line front).1 ∧
      (crlfLines pos line (front ++ back)).2 = (frames cr lf line front).2 ++ back := by
  induction front generalizing pos line with
  | nil =>
      cases back with
      | nil => simp [crlfLines, frames]
      | cons c rest => simp [crlfLines, frames, stop c rfl]
  | cons c rest ih =>
      have nonzero : c ≠ 0 := fun zero => free (by simp [zero])
      have freeRest : 0 ∉ rest := fun member => free (List.mem_cons_of_mem c member)
      simp only [List.cons_append, crlfLines, frames, nonzero, ↓reduceIte]
      split
      · obtain ⟨lines, left⟩ := ih (pos + 1) [] freeRest
        simp [lines, left]
      · exact ih (pos + 1) (line ++ [c]) freeRest

/-- The text in front of the first NUL, and the rest. -/
theorem nul_cut (buffer : Bytes) :
    ∃ front back, buffer = front ++ back ∧ 0 ∉ front ∧ ∀ c ∈ back.head?, c = 0 := by
  refine ⟨buffer.takeWhile (· ≠ 0), buffer.dropWhile (· ≠ 0), List.takeWhile_append_dropWhile.symm,
    ?_, ?_⟩
  · intro zero
    simpa using List.mem_takeWhile_imp zero
  · intro c first
    have fails := List.head?_dropWhile_not (· ≠ 0) buffer
    rw [Option.mem_def] at first
    rw [first] at fails
    simpa using fails

/-- The lines of a buffer with their line ends, and what is left, are the buffer. -/
theorem crlf_lines_join (buffer : Bytes) :
    ((crlfLines 0 [] buffer).1.map Prod.fst).flatMap (fun line => line ++ crlf) ++
        (crlfLines 0 [] buffer).2 = buffer ∧
      ∀ line ∈ (crlfLines 0 [] buffer).1.map Prod.fst, Undivided cr lf line := by
  obtain ⟨front, back, rfl, free, stop⟩ := nul_cut buffer
  obtain ⟨lines, left⟩ := crlf_lines_cut 0 [] front back free stop
  have joined := frames_join cr lf [] front
  rw [List.nil_append] at joined
  rw [lines, left, ← List.append_assoc]
  constructor
  · congr 1
  · exact frames_members cr lf [] front (undivided_nil cr lf)

theorem ended_lines (lines : List Bytes) :
    lines.flatMap (fun line => line ++ crlf) = [] ∨
      crlf <:+ lines.flatMap fun line => line ++ crlf := by
  rcases List.eq_nil_or_concat lines with rfl | ⟨front, last, rfl⟩
  · exact Or.inl rfl
  · right
    simp only [List.concat_eq_append, List.flatMap_append, List.flatMap_cons, List.flatMap_nil,
      List.append_nil, ← List.append_assoc]
    exact List.suffix_append _ crlf

theorem ended_append (first second : Bytes) (left : first = [] ∨ crlf <:+ first)
    (right : second = [] ∨ crlf <:+ second) : first ++ second = [] ∨ crlf <:+ first ++ second := by
  rcases right with rfl | right
  · simpa using left
  · exact Or.inr (right.trans (List.suffix_append first second))

end Lines

section Runs

/-- The buffer holds what the open connection has brought since its last line end, and
    nothing while there is none. -/
structure Tail (tracked : Tracked) : Prop where
  wf : Wellformed tracked.server
  whole : ∃ done, tracked.stream = done ++ tracked.server.replicaBuffer ∧
    (done = [] ∨ crlf <:+ done)
  closed : receiving tracked.server.repl = false → tracked.server.replicaBuffer = []

/-- Without an order the thread and the clients leave the connection open. -/
theorem unlinked_receiving (server : Server) (step : ServerStep)
    (opened : receiving server.repl = true) (same : relinks server step = false) :
    receiving (next server step).repl = true := by
  cases step with
  | connect | receive | sweep | autoSave =>
      simp only [relinks, decide_eq_false_iff_not, not_not] at same
      refine (stays_link server _ ?_ (by simp)).trans opened
      exact same
  | replication oracle received connect =>
      simp only [relinks, opened, ↓reduceIte] at same
      cases received with
      | lost => simp at same
      | wouldBlock => simp [next, stepServer, blocked_pass oracle connect server opened, opened]
      | data chunk =>
          have ordered := lines_ordered oracle (crlfLines 0 [] (server.replicaBuffer ++ chunk)).1 0
            server
          have none : lineOrders oracle 0 (crlfLines 0 [] (server.replicaBuffer ++ chunk)).1 server =
              [] := by simpa using same
          rw [none] at ordered
          simp only [next, stepServer, data_pass oracle chunk connect server opened,
            receiveFromPrimary, marked_receiving]
          rw [link_receiving server _ ordered, opened]

theorem closed_unread (server : Server) (step : ServerStep) (closed : receiving server.repl = false) :
    receivedBytes server step = [] := by
  cases step with
  | connect | receive | sweep | autoSave => rfl
  | replication oracle received connect => cases received <;> simp [receivedBytes, closed]

/-- What is in the buffer after a step is again the unfinished end of the stream. -/
theorem track_tail (tracked : Tracked) (tail : Tail tracked) (step : ServerStep)
    (possible : Possible tracked.server step) (ends : EndsWhole tracked.server step) :
    Tail (track tracked step) := by
  obtain ⟨done, whole, ended⟩ := tail.whole
  have passes := step_passes tracked.server tail.wf step
  have closed (shut : receiving tracked.server.repl = false) :
      (next tracked.server step).replicaBuffer = [] := by
    have empty := tail.closed shut
    have unread := closed_unread tracked.server step shut
    cases passes with
    | scanned _ left => rw [left, empty, unread]; rfl
    | silent _ _ kept => rw [kept, empty]
  have relinked (links : relinks tracked.server step = true) :
      (next tracked.server step).replicaBuffer = [] := by
    cases opened : receiving tracked.server.repl with
    | true => exact ends opened links
    | false => exact closed opened
  refine ⟨next_wellformed _ step tail.wf possible, ?_, ?_⟩
  · cases links : relinks tracked.server step with
    | true => exact ⟨[], by simp [track, links, relinked links], Or.inl rfl⟩
    | false =>
        cases passes with
        | silent none _ kept => exact ⟨done, by simp [track, links, none, kept, whole], ended⟩
        | scanned _ left =>
            obtain ⟨joined, -⟩ := crlf_lines_join
              (tracked.server.replicaBuffer ++ receivedBytes tracked.server step)
            refine ⟨_, ?_, ended_append done _ ended (ended_lines
              ((crlfLines 0 [] (tracked.server.replicaBuffer ++
                receivedBytes tracked.server step)).1.map Prod.fst))⟩
            simp only [track, links, Bool.false_eq_true, ↓reduceIte, left, whole,
              List.append_assoc, joined]
  · intro shut
    cases opened : receiving tracked.server.repl with
    | false => exact closed opened
    | true =>
        cases links : relinks tracked.server step with
        | true => exact relinked links
        | false => simp [track, unlinked_receiving tracked.server step opened links] at shut

/-- Each line that is executed lies between two line ends of the stream of its connection. -/
theorem executed_complete (tracked : Tracked) (tail : Tail tracked) (step : ServerStep)
    (found : Bytes × Bytes) (member : found ∈ executedFrom tracked step) :
    CompleteLine found.1 found.2 := by
  obtain ⟨line, passed, rfl⟩ := List.mem_map.mp member
  obtain ⟨done, whole, ended⟩ := tail.whole
  cases step_passes tracked.server tail.wf step with
  | silent _ none _ => simp [none] at passed
  | scanned lines left =>
      rw [lines] at passed
      obtain ⟨joined, undivided⟩ := crlf_lines_join
        (tracked.server.replicaBuffer ++ receivedBytes tracked.server step)
      have inside := List.mem_of_mem_filter passed
      obtain ⟨front, back, split⟩ := List.append_of_mem inside
      rw [split] at joined
      simp only [List.flatMap_append, List.flatMap_cons] at joined
      generalize (crlfLines 0 [] (tracked.server.replicaBuffer ++
        receivedBytes tracked.server step)).2 = rest at joined
      refine ⟨done ++ front.flatMap fun line => line ++ crlf,
        back.flatMap (fun line => line ++ crlf) ++ rest, ?_,
        ended_append done _ ended (ended_lines front), undivided line inside⟩
      have scanned : tracked.stream ++ receivedBytes tracked.server step =
          done ++ (tracked.server.replicaBuffer ++ receivedBytes tracked.server step) := by
        rw [whole, List.append_assoc]
      rw [scanned, ← joined]
      simp only [List.append_assoc]

/-- In every run in which each connection ends behind a line end, every line that the replica
    executes is a complete line of the stream of one connection. -/
theorem connections_stay_apart (server : Server) (starts : Starts server) (steps : List ServerStep)
    (admitted : Admitted (fun tracked step =>
      Possible tracked.server step ∧ EndsWhole tracked.server step) track ⟨server, []⟩ steps) :
    ∀ found ∈ outputs track executedFrom ⟨server, []⟩ steps, CompleteLine found.1 found.2 := by
  have start : Tail ⟨server, []⟩ := by
    have wf := start_wellformed server starts
    rcases starts with ⟨-, now, files, config, same, -⟩
    have empty : server.replicaBuffer = [] := by rw [same]; rfl
    exact ⟨wf, ⟨[], by simp [empty], Or.inl rfl⟩, fun _ => empty⟩
  generalize (⟨server, []⟩ : Tracked) = tracked at start admitted
  induction steps generalizing tracked with
  | nil => simp [outputs]
  | cons step rest ih =>
      obtain ⟨⟨possible, ends⟩, later⟩ := admitted
      intro found member
      rcases List.mem_append.mp member with here | there
      · exact executed_complete tracked start step found here
      · exact ih _ (track_tail tracked start step possible ends) later found there

end Runs

section Samples

/-- The thread finds its connection lost and makes another one. -/
def reconnects : ServerStep := .replication (fun _ => calm 0) .lost (.connected 10)

/-- The steps that make a replica of the server that starts. -/
def linking : List ServerStep :=
  [.connect 1 7, .receive reachablePrimary 7 (ascii "REPLICAOF h 6379\r\n")]

theorem linking_allowed :
    Admitted (fun tracked step => Possible tracked.server step ∧ EndsWhole tracked.server step) track
      ⟨emptyServer, []⟩ linking :=
  ⟨⟨empty_connects, fun opened => absurd opened (by decide)⟩,
    ⟨⟨one_client_open, by decide⟩, fun opened => absurd opened (by decide)⟩, trivial⟩

theorem data_allowed (tracked : Tracked) (text : String)
    (room : tracked.server.replicaBuffer.length + (ascii text).length <
      tracked.server.config.bufferSize)
    (same : relinks tracked.server (receives text) = false) :
    Possible tracked.server (receives text) ∧ EndsWhole tracked.server (receives text) :=
  ⟨room, fun _ links => by simp [same] at links⟩

/-- The connection is lost behind a line end. -/
def lostBetween : List ServerStep :=
  linking ++ [receives "SET a 1\r\n", reconnects, receives "SET b 2\r\n"]

theorem lost_between_lines_stays_apart :
    (ascii "SET b 2\r\n", ascii "SET b 2") ∈ outputs track executedFrom ⟨emptyServer, []⟩ lostBetween ∧
      CompleteLine (ascii "SET b 2\r\n") (ascii "SET b 2") := by
  have executed : (ascii "SET b 2\r\n", ascii "SET b 2") ∈
      outputs track executedFrom ⟨emptyServer, []⟩ lostBetween := by
    decide +kernel
  refine ⟨executed, connections_stay_apart emptyServer empty_starts lostBetween ?_ _ executed⟩
  rw [lostBetween, admitted_append]
  exact ⟨linking_allowed, data_allowed _ _ (by decide +kernel) (by decide +kernel),
    ⟨trivial, fun _ _ => by decide +kernel⟩, data_allowed _ _ (by decide +kernel) (by decide +kernel),
    trivial⟩

/-- The connection is lost within a line. -/
def lostWithin : List ServerStep := linking ++ [receives "SET a 1", reconnects, receives "2\r\n"]

/-- The next connection's first bytes finish the line, and its value is wrong. -/
theorem lost_within_line_is_mixed :
    Starts emptyServer ∧
      Admitted (fun tracked step => Possible tracked.server step) track ⟨emptyServer, []⟩ lostWithin ∧
      (ascii "2\r\n", ascii "SET a 12") ∈
        outputs track executedFrom ⟨emptyServer, []⟩ lostWithin ∧
      ¬ CompleteLine (ascii "2\r\n") (ascii "SET a 12") := by
  refine ⟨empty_starts, ?_, by decide +kernel, ?_⟩
  · exact ⟨empty_connects, ⟨one_client_open, by decide +kernel⟩, receives_room _ _ (by decide +kernel),
      trivial, receives_room _ _ (by decide +kernel), trivial⟩
  · rintro ⟨before, after, same, -⟩
    have length := congrArg List.length same
    have line : (ascii "SET a 12").length = 8 := by decide
    have stream : (ascii "2\r\n").length = 3 := by decide
    simp only [List.length_append, line, stream] at length
    omega

end Samples

end CrimsonCache.ReplicaReconnect
