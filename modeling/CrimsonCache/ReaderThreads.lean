import CrimsonCache.Library.Handover
import CrimsonCache.ReplicaFraming

/-!
The replication threads of the threaded server. `main` starts one of them and
`run_threaded_server` another, each with a receive buffer of its own, and both
receive from the one connection to the primary. A thread cuts what it received
itself and executes the lines one after the other, between the steps of all
the others.
-/

namespace CrimsonCache.ReaderThreads

open CString Replies Replication ServerState Commands ReplicationThread ServerRuns ReplicaFraming
  Runs Framing Handover

/-- What `replication_thread` keeps for itself: the bytes behind the last line end, and the lines
    of its pass that it has not executed yet. -/
structure Reader where
  held : Bytes
  lines : List (Bytes × Nat)
  deriving DecidableEq

/-- Between two passes, with nothing in the buffer. -/
def Reader.idle : Reader := ⟨[], []⟩

/-- What a thread meets in its next turn. -/
structure Meeting where
  received : Received
  connect : Connect
  oracle : Oracle

inductive Seen where
  | took (chunk : Bytes)
  | passed (line : Bytes)
  | did (event : Event)

/-- The end of a pass, behind its last line. -/
def endPass (reader : Reader) (server : Server) : Reader × Server :=
  if reader.lines = [] then
    (reader, { server with replicaBuffer := reader.held, repl := markConnected server.repl })
  else (reader, server)

/-- The bytes that `recv` puts behind those in the buffer. -/
def arrived (repl : ReplicationInfo) : Received → Option Bytes
  | .data chunk => if receiving repl then some chunk else none
  | _ => none

/-- A turn calls `recv` and cuts the lines, or executes the next one of them. -/
def threadTurn (reader : Reader) (server : Server) (meeting : Meeting) :
    (Reader × Server) × List Seen :=
  match reader.lines with
  | line :: rest =>
      let (server, events) := executeLines (fun _ => meeting.oracle) 0 [line] server
      (endPass ⟨reader.held, rest⟩ server, .passed line.1 :: events.map .did)
  | [] =>
      match arrived server.repl meeting.received with
      | some chunk =>
          let (lines, left) := crlfLines 0 [] (reader.held ++ chunk)
          (endPass ⟨left, lines⟩ server, [.took chunk])
      | none =>
          let (server, events) :=
            replicationThread (fun _ => meeting.oracle) meeting.received meeting.connect server
          ((reader, server), events.map .did)

/-- The steps of the rest of the server. -/
abbrev OtherStep :=
  { step : ServerStep // ∀ oracle received connect, step ≠ .replication oracle received connect }

def takeTurn (reader : Reader) (server : Server) (meeting : Meeting) : Reader × Server :=
  (threadTurn reader server meeting).1

def seenInTurn (reader : Reader) (server : Server) (meeting : Meeting) : List Seen :=
  (threadTurn reader server meeting).2

def stepAside (server : Server) (other : OtherStep) : Server := next server other.1

def seenAside (server : Server) (other : OtherStep) : List Seen :=
  (stepServer server other.1).2.map .did

/-- The bytes taken from the connection. -/
def taken (seen : List Seen) : Bytes :=
  seen.flatMap fun
    | .took chunk => chunk
    | _ => []

/-- The lines that were passed over or executed. -/
def passed (seen : List Seen) : List Bytes :=
  seen.flatMap fun
    | .passed line => [line]
    | _ => []

section Cutting

@[simp]
theorem taken_append (first second : List Seen) : taken (first ++ second) = taken first ++ taken second :=
  List.flatMap_append

@[simp]
theorem passed_append (first second : List Seen) :
    passed (first ++ second) = passed first ++ passed second :=
  List.flatMap_append

@[simp]
theorem taken_did (events : List Event) : taken (events.map .did) = [] := by
  induction events with
  | nil => rfl
  | cons event rest ih => exact ih

@[simp]
theorem passed_did (events : List Event) : passed (events.map .did) = [] := by
  induction events with
  | nil => rfl
  | cons event rest ih => exact ih

/-- A buffer as the line loop leaves it. -/
structure Held (text : Bytes) : Prop where
  undivided : Undivided cr lf text
  free : 0 ∉ text

/-- The lines passed and those still to come are the frames of the bytes taken. -/
structure Cuts (before : Reader) (seen : List Seen) (after : Reader) : Prop where
  held : Held after.held
  lines : passed seen ++ after.lines.map Prod.fst =
    before.lines.map Prod.fst ++ (frames cr lf before.held (taken seen)).1
  left : after.held = (frames cr lf before.held (taken seen)).2

/-- A thread that cuts its bytes as they come, if there is no NUL among them. -/
def Reads (before : Reader) (seen : List Seen) (after : Reader) : Prop :=
  Held before.held → 0 ∉ taken seen → Cuts before seen after

theorem reads_quiet (reader : Reader) (seen : List Seen) (nothing : taken seen = [])
    (none : passed seen = []) : Reads reader seen reader := by
  intro held _
  constructor
  · exact held
  · simp [nothing, none, frames]
  · simp [nothing, frames]

theorem Reads.append {before between after : Reader} {first second : List Seen}
    (early : Reads before first between) (late : Reads between second after) :
    Reads before (first ++ second) after := by
  intro held free
  rw [taken_append, List.mem_append, not_or] at free
  have first := early held free.1
  have second := late first.held free.2
  constructor
  · exact second.held
  · rw [passed_append, List.append_assoc, second.lines, ← List.append_assoc, first.lines, taken_append,
      frames_append, List.append_assoc, first.left]
  · rw [second.left, first.left, taken_append, frames_append]

theorem held_cut (held chunk : Bytes) (kept : Held held) (free : 0 ∉ chunk) :
    Held (frames cr lf held chunk).2 := by
  constructor
  · exact frames_held cr lf held chunk kept.undivided
  · intro member
    have inside := List.mem_append_right
      ((frames cr lf held chunk).1.flatMap fun frame => frame ++ [cr, lf]) member
    rw [frames_join cr lf held chunk] at inside
    exact (List.mem_append.mp inside).elim kept.free free

@[simp]
theorem end_pass_reader (reader : Reader) (server : Server) : (endPass reader server).1 = reader := by
  rw [endPass]
  split <;> rfl

theorem cut_lines (held chunk : Bytes) (kept : Held held) (free : 0 ∉ chunk) :
    ((crlfLines 0 [] (held ++ chunk)).1.map Prod.fst, (crlfLines 0 [] (held ++ chunk)).2) =
      frames cr lf held chunk := by
  have bytes : 0 ∉ held ++ chunk := fun member => (List.mem_append.mp member).elim kept.free free
  rw [crlf_lines_frames 0 [] _ bytes, frames_append, frames_undivided cr lf [] held kept.undivided]
  simp

theorem turn_reads (reader : Reader) (server : Server) (meeting : Meeting) :
    Reads reader (seenInTurn reader server meeting) (takeTurn reader server meeting).1 := by
  rcases reader with ⟨held, lines⟩
  cases lines with
  | cons line rest =>
      intro kept _
      have nothing : taken (seenInTurn ⟨held, line :: rest⟩ server meeting) = [] := taken_did _
      have one : passed (seenInTurn ⟨held, line :: rest⟩ server meeting) = [line.1] :=
        congrArg (line.1 :: ·) (passed_did _)
      simp only [takeTurn, threadTurn, end_pass_reader]
      constructor
      · exact kept
      · simp [nothing, one, frames]
      · simp [nothing, frames]
  | nil =>
      cases found : arrived server.repl meeting.received with
      | none =>
          have seen : seenInTurn ⟨held, []⟩ server meeting =
              (replicationThread (fun _ => meeting.oracle) meeting.received meeting.connect server).2.map
                .did := by
            simp [seenInTurn, threadTurn, found]
          have after : (takeTurn ⟨held, []⟩ server meeting).1 = ⟨held, []⟩ := by
            simp [takeTurn, threadTurn, found]
          rw [seen, after]
          exact reads_quiet _ _ (taken_did _) (passed_did _)
      | some chunk =>
          intro kept free
          have seen : seenInTurn ⟨held, []⟩ server meeting = [.took chunk] := by
            simp [seenInTurn, threadTurn, found]
          have after : (takeTurn ⟨held, []⟩ server meeting).1 =
              ⟨(crlfLines 0 [] (held ++ chunk)).2, (crlfLines 0 [] (held ++ chunk)).1⟩ := by
            simp [takeTurn, threadTurn, found]
          have bytes : taken [.took chunk] = chunk := by simp [taken]
          rw [seen, bytes] at free
          have cut := cut_lines held chunk kept free
          rw [seen, after]
          constructor
          · rw [congrArg Prod.snd cut]
            exact held_cut held chunk kept free
          · rw [bytes, ← cut]
            rfl
          · rw [bytes, ← cut]

end Cutting

section Passes

/-- The turns of a thread for the lines of a pass. -/
def lineTurns (thread : Nat) (connect : Connect) (oracle : Nat → Oracle) :
    Nat → List (Bytes × Nat) → List (Turn Meeting OtherStep)
  | _, [] => []
  | index, _ :: rest =>
      .worker thread ⟨.wouldBlock, connect, oracle index⟩ :: lineTurns thread connect oracle (index + 1) rest

/-- A pass of a thread's loop that nobody interrupts, or a step of somebody else. -/
inductive Job where
  | pass (thread : Nat) (oracle : Nat → Oracle) (received : Received) (connect : Connect)
  | aside (other : OtherStep)

def Job.step : Job → ServerStep
  | .pass _ oracle received connect => .replication oracle received connect
  | .aside other => other.1

def jobTurns (server : Server) : Job → List (Turn Meeting OtherStep)
  | .aside other => [.aside other]
  | .pass thread oracle received connect =>
      .worker thread ⟨received, connect, oracle 0⟩ ::
        match arrived server.repl received with
        | some chunk => lineTurns thread connect oracle 0 (crlfLines 0 [] (server.replicaBuffer ++ chunk)).1
        | none => []

def schedule : Server → List Job → List (Turn Meeting OtherStep)
  | _, [] => []
  | server, job :: rest => jobTurns server job ++ schedule (next server job.step) rest

theorem first_line (oracle : Nat → Oracle) (index : Nat) (line : Bytes × Nat) (rest : List (Bytes × Nat))
    (server : Server) :
    executeLines oracle index (line :: rest) server =
      ((executeLines oracle (index + 1) rest (executeLines (fun _ => oracle index) 0 [line] server).1).1,
        (executeLines (fun _ => oracle index) 0 [line] server).2 ++
          (executeLines oracle (index + 1) rest
            (executeLines (fun _ => oracle index) 0 [line] server).1).2) := by
  rcases line with ⟨text, stop⟩
  simp only [executeLines]
  split <;> simp

/-- The lines of a pass, turn by turn. -/
theorem lines_turns (thread : Nat) (connect : Connect) (oracle : Nat → Oracle) (index : Nat)
    (held : Bytes) (lines : List (Bytes × Nat)) (server : Server) :
    run (soloTurn takeTurn stepAside) (endPass ⟨held, lines⟩ server)
        (lineTurns thread connect oracle index lines) =
      endPass ⟨held, []⟩ (executeLines oracle index lines server).1 := by
  induction lines generalizing index server with
  | nil => rfl
  | cons line rest ih =>
      have begun : endPass ⟨held, line :: rest⟩ server = (⟨held, line :: rest⟩, server) := by
        simp [endPass]
      rw [first_line, ← ih, begun]
      rfl

/-- A pass that takes nothing executes nothing and leaves the buffer. -/
theorem unread_pass (oracle other : Nat → Oracle) (received : Received) (connect : Connect) (server : Server)
    (none : arrived server.repl received = none) :
    replicationThread oracle received connect server = replicationThread other received connect server ∧
      (replicationThread oracle received connect server).1.replicaBuffer = server.replicaBuffer := by
  by_cases opened : receiving server.repl = true
  · cases received with
    | data chunk => simp [arrived, opened] at none
    | wouldBlock =>
        rw [blocked_pass oracle connect server opened, blocked_pass other connect server opened]
        exact ⟨rfl, rfl⟩
    | lost =>
        rw [lost_pass oracle connect server opened, lost_pass other connect server opened]
        exact ⟨rfl, rfl⟩
  · have idle := (Bool.not_eq_true _).mp opened
    constructor
    · simp only [receiving] at idle
      cases role : server.repl.role with
      | primary => simp [replicationThread, role]
      | replica => cases state : server.repl.state <;> simp [replicationThread, role, state] at idle ⊢
    · rcases idle_pass oracle received connect server idle with quiet | linked
      · rw [quiet]
      · rw [linked, (reconnect_silent connect server).2]

/-- A pass that nobody interrupts is a step of the server. -/
theorem pass_turns (thread : Nat) (oracle : Nat → Oracle) (received : Received) (connect : Connect)
    (server : Server) :
    run (soloTurn takeTurn stepAside) (⟨server.replicaBuffer, []⟩, server)
        (jobTurns server (.pass thread oracle received connect)) =
      (⟨(next server (.replication oracle received connect)).replicaBuffer, []⟩,
        next server (.replication oracle received connect)) := by
  cases found : arrived server.repl received with
  | some chunk =>
      obtain ⟨rfl, opened⟩ : received = .data chunk ∧ receiving server.repl = true := by
        cases received with
        | data bytes =>
            simp only [arrived, Option.ite_none_right_eq_some, Option.some.injEq] at found
            exact ⟨congrArg Received.data found.2, found.1⟩
        | wouldBlock => simp [arrived] at found
        | lost => simp [arrived] at found
      have cut : takeTurn ⟨server.replicaBuffer, []⟩ server ⟨.data chunk, connect, oracle 0⟩ =
          endPass ⟨(crlfLines 0 [] (server.replicaBuffer ++ chunk)).2,
            (crlfLines 0 [] (server.replicaBuffer ++ chunk)).1⟩ server := by
        simp [takeTurn, threadTurn, found]
      have passes : next server (.replication oracle (.data chunk) connect) =
          (endPass ⟨(crlfLines 0 [] (server.replicaBuffer ++ chunk)).2, []⟩
            (executeLines oracle 0 (crlfLines 0 [] (server.replicaBuffer ++ chunk)).1 server).1).2 := by
        rw [next, stepServer, data_pass oracle chunk connect server opened]
        rfl
      have turns := lines_turns thread connect oracle 0 (crlfLines 0 [] (server.replicaBuffer ++ chunk)).2
        (crlfLines 0 [] (server.replicaBuffer ++ chunk)).1 server
      simp only [jobTurns, found]
      rw [← cut] at turns
      refine Eq.trans turns ?_
      rw [passes]
      rfl
  | none =>
      obtain ⟨same, kept⟩ := unread_pass oracle (fun _ => oracle 0) received connect server found
      have turn : takeTurn ⟨server.replicaBuffer, []⟩ server ⟨received, connect, oracle 0⟩ =
          (⟨server.replicaBuffer, []⟩, (replicationThread (fun _ => oracle 0) received connect server).1) := by
        simp [takeTurn, threadTurn, found]
      simp only [jobTurns, found, run, List.foldl, soloTurn, turn]
      rw [next, stepServer, kept, same]

theorem job_turns (server : Server) (job : Job) :
    run (soloTurn takeTurn stepAside) (⟨server.replicaBuffer, []⟩, server) (jobTurns server job) =
      (⟨(next server job.step).replicaBuffer, []⟩, next server job.step) := by
  cases job with
  | pass thread oracle received connect => exact pass_turns thread oracle received connect server
  | aside other =>
      have same := step_buffer server other.1 other.2
      simp only [jobTurns, run, List.foldl, soloTurn, stepAside, Job.step, same]

theorem schedule_turns (server : Server) (jobs : List Job) :
    run (soloTurn takeTurn stepAside) (⟨server.replicaBuffer, []⟩, server) (schedule server jobs) =
      (⟨(run next server (jobs.map Job.step)).replicaBuffer, []⟩, run next server (jobs.map Job.step)) := by
  induction jobs generalizing server with
  | nil => rfl
  | cons job rest ih =>
      rw [schedule, run_append, job_turns]
      exact ih (next server job.step)

end Passes

section Threads

set_option maxRecDepth 4000

def startThreads (server : Server) : Crew Reader Server := ⟨fun _ => .idle, server⟩

/-- What all threads and the rest of the server do in a run. -/
def seenIn (server : Server) (turns : List (Turn Meeting OtherStep)) : List Seen :=
  outputs (turn takeTurn stepAside) (emission seenInTurn seenAside) (startThreads server) turns

/-- What one of the threads does in a run. -/
def seenBy (thread : Nat) (server : Server) (turns : List (Turn Meeting OtherStep)) : List Seen :=
  outputs (turn takeTurn stepAside) (ownEmission seenInTurn thread) (startThreads server) turns

theorem reads_compose : Composes Reads :=
  ⟨fun reader => reads_quiet reader [] rfl rfl, fun _ _ _ _ _ early late => early.append late⟩

theorem idle_held : Held Reader.idle.held := ⟨undivided_nil cr lf, List.not_mem_nil⟩

/-- Each thread executes the lines of the bytes it took itself, whatever the others take between
    them: a line that two threads share is executed as two commands. -/
theorem threads_frame_apart (server : Server) (turns : List (Turn Meeting OtherStep)) (thread : Nat)
    (free : 0 ∉ taken (seenBy thread server turns)) :
    let reader := (run (turn takeTurn stepAside) (startThreads server) turns).own thread
    (passed (seenBy thread server turns) ++ reader.lines.map Prod.fst, reader.held) =
      frames cr lf [] (taken (seenBy thread server turns)) := by
  have cuts := own_related takeTurn stepAside seenInTurn reads_compose turn_reads thread
    (startThreads server) turns idle_held free
  exact Prod.ext cuts.lines cuts.left

def takes (thread : Nat) (text : String) : Turn Meeting OtherStep :=
  .worker thread ⟨.data (ascii text), .refused, calm 0⟩

def continues (thread : Nat) : Turn Meeting OtherStep := .worker thread ⟨.wouldBlock, .refused, calm 0⟩

/-- The stream of SET k value and SET j 1, divided within the first line. -/
def divided : List (Turn Meeting OtherStep) :=
  [takes 0 "SET k v", takes 1 "alue\r\nSET j 1\r\n", continues 1, continues 1]

theorem divided_line_is_command :
    passed (seenBy 1 linked divided) = [ascii "alue", ascii "SET j 1"] := by
  have framed := threads_frame_apart linked divided 1 (by decide)
  have executed : ((run (turn takeTurn stepAside) (startThreads linked) divided).own 1).lines = [] := by
    decide
  have lines := congrArg Prod.fst framed
  rw [executed, List.map_nil, List.append_nil] at lines
  exact lines.trans (by decide)

theorem clean_stands (server : Server) (turns : List (Turn Meeting OtherStep))
    (clean : Admitted (HandsOver Reader.idle) (turn takeTurn stepAside) (startThreads server) turns) :
    seenIn server turns = outputs (soloTurn takeTurn stepAside) (soloEmission seenInTurn seenAside)
        (.idle, server) turns ∧
      ∃ active, Stands Reader.idle active (run (soloTurn takeTurn stepAside) (.idle, server) turns)
        (run (turn takeTurn stepAside) (startThreads server) turns) :=
  run_stands takeTurn stepAside seenInTurn seenAside Reader.idle 0 (Reader.idle, server)
    (startThreads server) ⟨rfl, fun _ _ => rfl, rfl⟩ turns clean

/-- Threads whose passes do not overlap and end with an empty buffer before another thread
    receives are the one thread of the server's runs. -/
theorem passes_run_server (server : Server) (empty : server.replicaBuffer = []) (jobs : List Job)
    (clean : Admitted (HandsOver Reader.idle) (turn takeTurn stepAside) (startThreads server)
      (schedule server jobs)) :
    (run (turn takeTurn stepAside) (startThreads server) (schedule server jobs)).shared =
      run next server (jobs.map Job.step) := by
  obtain ⟨-, active, stands⟩ := clean_stands server (schedule server jobs) clean
  have solo := schedule_turns server jobs
  rw [empty] at solo
  exact stands.shared.trans (congrArg Prod.snd solo)

/-- Threads that receive only while all the others are between two passes, with nothing in their
    buffers, do together what one thread does: what they execute is the stream. -/
theorem threads_act_as_one (server : Server) (turns : List (Turn Meeting OtherStep))
    (clean : Admitted (HandsOver Reader.idle) (turn takeTurn stepAside) (startThreads server) turns) :
    let threads := run (turn takeTurn stepAside) (startThreads server) turns
    let one := run (soloTurn takeTurn stepAside) (.idle, server) turns
    seenIn server turns = outputs (soloTurn takeTurn stepAside) (soloEmission seenInTurn seenAside)
        (.idle, server) turns ∧
      threads.shared = one.2 ∧
      (∃ active, threads.own active = one.1 ∧ ∀ other, other ≠ active → threads.own other = .idle) ∧
      (0 ∉ taken (seenIn server turns) →
        (passed (seenIn server turns) ++ one.1.lines.map Prod.fst, one.1.held) =
          frames cr lf [] (taken (seenIn server turns))) := by
  obtain ⟨same, active, stands⟩ := clean_stands server turns clean
  refine ⟨same, stands.shared, ⟨active, stands.own, stands.others⟩, fun free => ?_⟩
  have aside : ∀ reader before (other : OtherStep), Reads reader (seenAside before other) reader :=
    fun reader _ _ => reads_quiet reader _ (taken_did _) (passed_did _)
  have cuts := solo_related takeTurn stepAside seenInTurn seenAside reads_compose turn_reads aside
    (Reader.idle, server) turns idle_held
  rw [← same] at cuts
  exact Prod.ext (cuts free).lines (cuts free).left

/-- The same stream, with a line for each of the threads. -/
def inTurn : List (Turn Meeting OtherStep) :=
  [takes 0 "SET k value\r\n", continues 0, takes 1 "SET j 1\r\n", continues 1]

theorem threads_in_turn :
    (run (turn takeTurn stepAside) (startThreads linked) inTurn).shared =
        (run (soloTurn takeTurn stepAside) (.idle, linked) inTurn).2 ∧
      passed (seenIn linked inTurn) = [ascii "SET k value", ascii "SET j 1"] := by
  have done : (run (turn takeTurn stepAside) (startThreads linked)
      [takes 0 "SET k value\r\n", continues 0]).own 0 = .idle := by decide
  have clean : Admitted (HandsOver Reader.idle) (turn takeTurn stepAside) (startThreads linked) inTurn := by
    refine ⟨fun _ _ => rfl, fun worker other => if_neg other, fun worker other => ?_,
      fun worker other => (if_neg other).trans ?_, trivial⟩
    all_goals
      by_cases first : worker = 0
      · exact first ▸ done
      · exact (if_neg first).trans (if_neg first)
  obtain ⟨-, same, -, framed⟩ := threads_act_as_one linked inTurn clean
  have executed : (run (soloTurn takeTurn stepAside) (Reader.idle, linked) inTurn).1.lines = [] := by
    decide
  have lines := congrArg Prod.fst (framed (by decide))
  rw [executed, List.map_nil, List.append_nil] at lines
  exact ⟨same, lines.trans (by decide)⟩

end Threads

end CrimsonCache.ReaderThreads
