import CrimsonCache.ReplicaFraming
import CrimsonCache.ReplicaLines

/-!
A replica is in the past of its primary. Both are whole servers with clients, transactions and
sweeps, and the bytes between them arrive when and in what pieces they please. What the
replica holds of the keys that are given no deadline is what the primary once held of them,
all of it at one moment, and the moment only moves forward.
-/

namespace CrimsonCache.ReplicaPast

open CString Dictionary DeadlineMap Framing Shipping Replies Replication Tokenizer ServerState
  StoredData Commands Connections SubscriberLists ReplicationThread ReplicaFraming ServerRuns AppliedWrites
  DelayedReplication SplitWrites StepRuns Keyspace KeyLifetimes UntimedKeys ReplicaLines Runs

section Link

/-- Two servers and the bytes on their way from the one to the other. -/
structure Pair where
  primary : Server
  replica : Server
  wire : Bytes

inductive PairStep where
  | primary (step : ServerStep)
  | replica (step : ServerStep)
  | deliver (oracle : Nat → Oracle) (count : Nat)

variable (region : Bytes → Bool) (fd : Int)

def nextPair (pair : Pair) : PairStep → Pair
  | .primary step =>
      let (server, events) := stepServer pair.primary step
      { pair with primary := server, wire := pair.wire ++ sentTo fd events }
  | .replica step => { pair with replica := next pair.replica step }
  | .deliver oracle count =>
      { pair with
        replica := next pair.replica (.replication oracle (.data (pair.wire.take count)) .refused)
        wire := pair.wire.drop count }

/-- The steps of the primary's machine. -/
def pairKeys (pair : Pair) : PairStep → List KeyStep
  | .primary step => keySteps pair.primary step
  | _ => []

/-- The primary works as `Sends` says. The clients of the replica write no key of the region and point
    it at no other primary. A delivery is what `recv` takes while the link is up. -/
def Linked (pair : Pair) : PairStep → Prop
  | .primary step =>
      Possible pair.primary step ∧ Allocating step ∧ Sends region fd pair.primary step
  | .replica step =>
      Possible pair.replica step ∧ Allocating step ∧
        (∀ oracle received connect, step ≠ .replication oracle received connect) ∧
        (∀ run ∈ (stepRuns pair.replica step).2, commandName run.input ≠ ascii "replicaof") ∧
        ∀ key, region key = true → ∀ next ∈ keySteps pair.replica step, Leaves key next
  | .deliver oracle count =>
      Possible pair.replica (.replication oracle (.data (pair.wire.take count)) .refused) ∧
        (∀ index, (oracle index).Allocates) ∧ pair.replica.repl.role = .replica ∧
        (pair.replica.repl.state = .sync ∨ pair.replica.repl.state = .connected)

/-- Equal servers in the region, where nothing has a deadline, and nothing on the way. -/
structure Begins (pair : Pair) : Prop where
  primary : Wellformed pair.primary
  replica : Wellformed pair.replica
  timeless : Timeless region (mapping pair.primary.db)
  same : ∀ key, region key = true → mapping pair.replica.db key = mapping pair.primary.db key
  idle : pair.replica.replicaBuffer = []
  unsent : pair.wire = []

/-- The lines that the replica cuts out of its stream. -/
def pairLines (pair : Pair) : PairStep → List Bytes
  | .deliver _ count =>
      (crlfLines 0 [] (pair.replica.replicaBuffer ++ pair.wire.take count)).1.map Prod.fst
  | _ => []

/-- Behind the lines of `front` the replica shows what the primary showed behind the steps that are done
    for it. What the primary has logged since is on its way as well. -/
structure Behind (start : Mapping) (done ahead : List KeyStep) (front pending : List Bytes) (pair : Pair) :
    Prop where
  primary : Wellformed pair.primary
  replica : Wellformed pair.replica
  follows : mapping pair.primary.db = run actKeys start (done ++ ahead)
  lasts : ∀ next ∈ done ++ ahead, StepLasts region next
  timeless : Timeless region (mapping pair.primary.db) ∧ Timeless region (mapping pair.replica.db)
  lines : ∀ line ∈ front ++ pending, Line region line
  bytes : pair.replica.replicaBuffer ++ pair.wire = (front ++ pending).flatMap fun line => line ++ crlf
  logs : Logs actKeys (shown region) (redoLine region) (run actKeys start done) ahead pending
  shows : run (redoLine region) (shown region (mapping pair.replica.db)) front =
    shown region (run actKeys start done)

/-- With the keys and lines of some steps more of the steps are done, and less is left of the front. -/
def Advances (start : Mapping) (done ahead : List KeyStep) (front : List Bytes) (keys : List KeyStep)
    (lines : List Bytes) (pair : Pair) : Prop :=
  ∃ between rest later left, (done ++ between) ++ rest = (done ++ ahead) ++ keys ∧
    later.length ≤ front.length - lines.length ∧
      Behind region start (done ++ between) rest later left pair

variable {region fd} {start : Mapping} {done ahead : List KeyStep}
  {front pending : List Bytes} {pair : Pair}

theorem keys_last (server : Server) (step : ServerStep)
    (ships : ∀ run ∈ (stepRuns server step).2, Ships region fd run) :
    ∀ next ∈ keySteps server step, StepLasts region next := by
  have runs : ∀ next ∈ (stepRuns server step).2.map (runStep (stepRuns server step).1),
      StepLasts region next := by
    intro next member
    obtain ⟨run, there, rfl⟩ := List.mem_map.mp member
    exact (ships run there).lasts
  cases step with
  | sweep now =>
      intro next member
      obtain rfl := List.mem_singleton.mp member
      trivial
  | connect | receive | replication | autoSave => exact runs

/-- A step of the primary whose lines go behind those that are on their way. -/
theorem shipped_behind (behind : Behind region start done ahead front pending pair) (step : ServerStep)
    (possible : Possible pair.primary step)
    (shipped : Shipped region (mapping pair.primary.db) (mapping (next pair.primary step).db)
      (keySteps pair.primary step) (sentTo fd (stepServer pair.primary step).2))
    (lasts : ∀ next ∈ keySteps pair.primary step, StepLasts region next) :
    ∃ left, Behind region start done (ahead ++ keySteps pair.primary step) front left
      (nextPair fd pair (.primary step)) := by
  obtain ⟨lines, whole, sent, logs⟩ := shipped.logged
  rw [behind.follows, run_append] at logs
  refine ⟨pending ++ lines, ?_⟩
  constructor
  · exact next_wellformed pair.primary step behind.primary possible
  · exact behind.replica
  · rw [← List.append_assoc, run_append, ← behind.follows]
    exact shipped.follows
  · rw [← List.append_assoc, List.forall_mem_append]
    exact ⟨behind.lasts, lasts⟩
  · exact ⟨shipped.timeless, behind.timeless.2⟩
  · rw [← List.append_assoc, List.forall_mem_append]
    exact ⟨behind.lines, whole⟩
  · rw [← List.append_assoc, List.flatMap_append, ← behind.bytes, ← sent]
    exact (List.append_assoc _ _ _).symm
  · exact behind.logs.append logs
  · exact behind.shows

theorem primary_behind (behind : Behind region start done ahead front pending pair) (step : ServerStep)
    (linked : Linked region fd pair (.primary step)) :
    ∃ left, Behind region start done (ahead ++ keySteps pair.primary step) front left
      (nextPair fd pair (.primary step)) := by
  obtain ⟨possible, allocates, sends⟩ := linked
  exact shipped_behind behind step possible
    (step_shipped region fd pair.primary behind.primary step possible allocates sends behind.timeless.1)
    (keys_last pair.primary step sends.ships)

theorem replica_behind (behind : Behind region start done ahead front pending pair) (step : ServerStep)
    (linked : Linked region fd pair (.replica step)) :
    Behind region start done ahead front pending (nextPair fd pair (.replica step)) := by
  obtain ⟨possible, allocates, apart, -, leaves⟩ := linked
  have followed := (step_keys pair.replica behind.replica step possible allocates).1
  have stays (key : Bytes) (inside : region key = true) :
      mapping (next pair.replica step).db key = mapping pair.replica.db key := by
    rw [followed]
    exact untimed_stays _ key (behind.timeless.2 key inside) _
      (run_fades key (· ≠ 0) _ (leaves key inside) (fun next _ => within_deadline next) _)
  constructor
  · exact behind.primary
  · exact next_wellformed pair.replica step behind.replica possible
  · exact behind.follows
  · exact behind.lasts
  · refine ⟨behind.timeless.1, fun key inside => ?_⟩
    have same := stays key inside
    simp only [nextPair, Untimed, stored, same]
    exact behind.timeless.2 key inside
  · exact behind.lines
  · rw [← behind.bytes]
    exact congrArg (· ++ pair.wire) (step_buffer pair.replica step apart)
  · exact behind.logs
  · rw [← behind.shows]
    apply congrArg (run (redoLine region) · front)
    funext key
    by_cases inside : region key = true
    · simp only [shown, inside, ↓reduceIte, stored, nextPair, stays key inside]
    · simp [shown, inside]

/-- What a replica makes of the lines that it is sent. -/
theorem lines_shown (worlds : Nat → Oracle) (index : Nat) (lines : List Bytes)
    (whole : ∀ line ∈ lines, Line region line) (m : Mapping) (timeless : Timeless region m) :
    Timeless region (applyLines worlds index lines m) ∧
      shown region (applyLines worlds index lines m) = run (redoLine region) (shown region m) lines := by
  induction lines generalizing index m with
  | nil => exact ⟨timeless, rfl⟩
  | cons line rest ih =>
      obtain ⟨first, later⟩ := List.forall_mem_cons.mp whole
      have text := cstr_of_nul_free line first.free
      have kept := words_timeless m timeless (worlds index []) (tokens line) first.lasts
      have redone := words_shown m timeless (worlds index []) line first.lasts
      obtain ⟨stays, shows⟩ := ih (index + 1) later _ kept
      simp only [applyLines, first.nonempty, ↓reduceIte, text]
      exact ⟨stays, shows.trans (by rw [redone]; rfl)⟩

theorem deliver_behind (behind : Behind region start done ahead front pending pair)
    (oracle : Nat → Oracle) (count : Nat) (linked : Linked region fd pair (.deliver oracle count)) :
    ∃ between rest next left, ahead = between ++ rest ∧
      next.length ≤ front.length - (pairLines pair (.deliver oracle count)).length ∧
      Behind region start (done ++ between) rest next left (nextPair fd pair (.deliver oracle count)) := by
  obtain ⟨possible, allocates, isReplica, up⟩ := linked
  have received : next pair.replica (.replication oracle (.data (pair.wire.take count)) .refused) =
      (receiveFromPrimary oracle (pair.wire.take count) pair.replica).1 := by
    rcases up with sync | connected
    · simp [next, stepServer, replicationThread, isReplica, sync]
    · simp [next, stepServer, replicationThread, isReplica, connected]
  have stream : pair.replica.replicaBuffer ++ pair.wire.take count ++ pair.wire.drop count =
      (front ++ pending).flatMap fun line => line ++ crlf := by
    rw [List.append_assoc, List.take_append_drop]
    exact behind.bytes
  have free : 0 ∉ pair.replica.replicaBuffer ++ pair.wire.take count := by
    intro zero
    have inside := List.mem_append_left (pair.wire.drop count) zero
    rw [stream, List.mem_flatMap] at inside
    obtain ⟨line, member, there⟩ := inside
    rcases List.mem_append.mp there with text | ended
    · exact (behind.lines line member).free text
    · exact absurd ended (by decide)
  have counted : (pairLines pair (.deliver oracle count)).length =
      (frames cr lf [] (pair.replica.replicaBuffer ++ pair.wire.take count)).1.length :=
    congrArg (fun cut => cut.1.length) (crlf_lines_frames 0 [] _ free)
  obtain ⟨cut, -⟩ := frames_initial cr lf (front ++ pending) crlf_distinct
    (fun line member => (behind.lines line member).undivided) _ ⟨_, stream⟩
  have joined := frames_join cr lf [] (pair.replica.replicaBuffer ++ pair.wire.take count)
  generalize completed (front ++ pending) (pair.replica.replicaBuffer ++ pair.wire.take count).length = moved
    at cut
  have whole : ∀ line ∈ (front ++ pending).take moved, Line region line :=
    fun line member => behind.lines line (List.mem_of_mem_take member)
  obtain ⟨contents, -, left⟩ := chunk_applies oracle allocates (pair.wire.take count) pair.replica
    behind.replica.ready behind.replica.sound free
    (by rw [cut]; exact fun line member => (whole line member).short)
  rw [cut] at contents joined counted
  obtain ⟨stays, shows⟩ := lines_shown oracle 0 ((front ++ pending).take moved) whole
    (mapping pair.replica.db) behind.timeless.2
  rw [← contents, ← received] at shows stays
  rw [List.take_append, run_append] at shows
  -- The steps that logged what has arrived are done now.
  have logs := behind.logs
  rw [← List.take_append_drop (moved - front.length) pending] at logs
  obtain ⟨between, rest, rfl, arrived, onTheWay⟩ := logs.cut
  refine ⟨between, rest, front.drop moved, pending.drop (moved - front.length), rfl, ?_, ?_⟩
  · rw [counted, List.length_take, List.length_drop]
    omega
  constructor
  · exact behind.primary
  · exact next_wellformed pair.replica _ behind.replica possible
  · rw [List.append_assoc]
    exact behind.follows
  · rw [List.append_assoc]
    exact behind.lasts
  · exact ⟨behind.timeless.1, stays⟩
  · rw [← List.drop_append]
    exact fun line member => behind.lines line (List.mem_of_mem_drop member)
  · have split : (((front ++ pending).take moved).flatMap fun line => line ++ crlf) ++
        ((nextPair fd pair (.deliver oracle count)).replica.replicaBuffer ++
          (nextPair fd pair (.deliver oracle count)).wire) =
        (((front ++ pending).take moved).flatMap fun line => line ++ crlf) ++
          ((front ++ pending).drop moved).flatMap fun line => line ++ crlf := by
      rw [← List.flatMap_append, List.take_append_drop, ← stream, ← List.append_assoc]
      simp only [nextPair]
      rw [received, left]
      exact congrArg (· ++ pair.wire.drop count) joined
    rw [← List.drop_append]
    exact List.append_cancel_left split
  · rwa [run_append]
  · rw [run_append, arrived.shows, ← behind.shows]
    simp only [nextPair]
    rw [shows]
    -- Either the front has not arrived whole, or it is redone first.
    rcases Nat.le_total moved front.length with early | late
    · rw [Nat.sub_eq_zero_of_le early, List.take_zero]
      simp only [run, List.foldl_nil]
      rw [← List.foldl_append, List.take_append_drop]
    · rw [List.drop_eq_nil_of_le late, List.take_of_length_le late]
      rfl

theorem Advances.still {keys : List KeyStep} {after : Pair} {left : List Bytes}
    (behind : Behind region start done (ahead ++ keys) front left after) :
    Advances region start done ahead front keys [] after :=
  ⟨[], ahead ++ keys, front, left, by simp, by simp, by simpa using behind⟩

theorem step_behind (behind : Behind region start done ahead front pending pair) (step : PairStep)
    (linked : Linked region fd pair step) :
    Advances region start done ahead front (pairKeys pair step) (pairLines pair step)
      (nextPair fd pair step) := by
  cases step with
  | primary step =>
      obtain ⟨left, next⟩ := primary_behind behind step linked
      exact .still next
  | replica step =>
      have next := replica_behind behind step linked
      exact .still (by simpa [pairKeys] using next)
  | deliver oracle count =>
      obtain ⟨between, rest, later, left, rfl, fewer, next⟩ := deliver_behind behind oracle count linked
      exact ⟨between, rest, later, left, by simp [pairKeys], fewer, next⟩

/-- In a run of the two the steps that are done for the replica only become more. -/
theorem run_behind {allowed : Pair → PairStep → Prop}
    (each : ∀ {done ahead front pending pair} (step : PairStep),
      Behind region start done ahead front pending pair → allowed pair step →
        Advances region start done ahead front (pairKeys pair step) (pairLines pair step)
          (nextPair fd pair step))
    (steps : List PairStep) (behind : Behind region start done ahead front pending pair)
    (admitted : Admitted allowed (nextPair fd) pair steps) :
    Advances region start done ahead front (outputs (nextPair fd) pairKeys pair steps)
      (outputs (nextPair fd) pairLines pair steps) (run (nextPair fd) pair steps) := by
  induction steps generalizing done ahead front pending pair with
  | nil => exact .still (by simpa [outputs, run] using behind)
  | cons step steps ih =>
      obtain ⟨now, later⟩ := admitted
      obtain ⟨moved, ahead', front', left, same, fewer, next⟩ := each step behind now
      obtain ⟨between, rest, front'', left, others, fewest, final⟩ := ih next later
      rw [List.append_assoc] at final
      refine ⟨moved ++ between, rest, front'', left, ?_, ?_, final⟩
      · rw [← List.append_assoc, others, same, outputs, ← List.append_assoc]
      · rw [outputs, List.length_append]
        omega

theorem begins_behind (begins : Begins region pair) :
    Behind region (mapping pair.primary.db) [] [] [] [] pair := by
  constructor
  · exact begins.primary
  · exact begins.replica
  · rfl
  · simp
  · refine ⟨begins.timeless, fun key inside => ?_⟩
    have same := begins.same key inside
    simp only [Untimed, stored, same]
    exact begins.timeless key inside
  · simp
  · rw [begins.idle, begins.unsent]
    rfl
  · exact .nil _
  · funext key
    by_cases inside : region key = true
    · simp [shown, stored, inside, begins.same key inside, run]
    · simp [shown, inside, run]

/-- The replica holds in the region what the primary held behind the steps that are done. -/
theorem Behind.held (behind : Behind region start done ahead [] pending pair)
    (timeless : Timeless region start) (key : Bytes) (inside : region key = true) :
    mapping pair.replica.db key = run actKeys start done key := by
  have lasts := fun next member => behind.lasts next (List.mem_append_left ahead member)
  exact shown_agree _ _ behind.timeless.2 (run_timeless start timeless done lasts) behind.shows key inside

/-- With nothing on its way it holds what the primary holds. -/
theorem Behind.caught_up (behind : Behind region start done ahead [] pending pair)
    (arrived : pair.replica.replicaBuffer ++ pair.wire = [])
    (key : Bytes) (inside : region key = true) :
    mapping pair.replica.db key = mapping pair.primary.db key := by
  have none : pending = [] := by
    have bytes := behind.bytes
    rw [arrived] at bytes
    cases pending with
    | nil => rfl
    | cons line rest => simp [crlf] at bytes
  have logs := behind.logs
  rw [none] at logs
  have same : shown region (run actKeys start done) = shown region (mapping pair.primary.db) := by
    rw [behind.follows, run_append, logs.shows]
    rfl
  exact shown_agree _ _ behind.timeless.2 behind.timeless.1 (behind.shows.trans same) key inside

/-- Once the front is through, the replica holds what the primary held at one moment of its past, and the
    moment only moves forward. -/
theorem behind_is_past {allowed : Pair → PairStep → Prop}
    (each : ∀ {done ahead front pending pair} (step : PairStep),
      Behind region start done ahead front pending pair → allowed pair step →
        Advances region start done ahead front (pairKeys pair step) (pairLines pair step)
          (nextPair fd pair step))
    (timeless : Timeless region start) (behind : Behind region start [] [] front pending pair)
    (steps more : List PairStep) (admitted : Admitted allowed (nextPair fd) pair (steps ++ more))
    (through : front.length ≤ (outputs (nextPair fd) pairLines pair steps).length) :
    let now := run (nextPair fd) pair steps
    let later := run (nextPair fd) pair (steps ++ more)
    ∃ early late, early <+: late ∧ early <+: outputs (nextPair fd) pairKeys pair steps ∧
      late <+: outputs (nextPair fd) pairKeys pair (steps ++ more) ∧
      ∀ key, region key = true →
        mapping now.replica.db key = run actKeys start early key ∧
          mapping later.replica.db key = run actKeys start late key ∧
            (later.replica.replicaBuffer ++ later.wire = [] →
              mapping later.replica.db key = mapping later.primary.db key) := by
  obtain ⟨first, second⟩ := (admitted_append _ _ _ _ _).mp admitted
  obtain ⟨early, ahead, unread, left, before, none, now⟩ := run_behind each steps behind first
  obtain rfl : unread = [] := List.eq_nil_of_length_eq_zero (by omega)
  obtain ⟨between, rest, unread, left, after, none, later⟩ := run_behind each more now second
  obtain rfl : unread = [] := List.eq_nil_of_length_eq_zero (by simpa using none)
  simp only [List.nil_append] at before after later now
  rw [before] at after
  refine ⟨early, early ++ between, List.prefix_append _ _, ⟨ahead, before⟩, ⟨rest, ?_⟩, ?_⟩
  · rw [after, outputs_append]
  · intro key inside
    rw [run_append]
    exact ⟨now.held timeless key inside, later.held timeless key inside,
      fun arrived => later.caught_up arrived key inside⟩

end Link

section Example

set_option maxRecDepth 4000

/-- A primary that one client and one replica are connected to. -/
def attaching : List ServerStep :=
  [.connect 1 7, .connect 2 9, .receive (calm 0) 9 (ascii "REPLCONF listening-port 6380\r\n")]

def feeding : Server := run next emptyServer attaching

def linking : Oracle := fun path => { calm 0 path with connect := .connected 4 }

/-- A server that has just connected to its primary. -/
def fed : Server := next oneClient (.receive linking 7 (ascii "REPLICAOF h 6379\r\n"))

def setLine : Bytes := ascii "SET k v" ++ crlf

def takingAll : Oracle := fun path => { calm 0 path with delivery := fun _ => ⟨.wrote 9, 0⟩ }

def linked : Pair := ⟨feeding, fed, []⟩

/-- The line arrives in two pieces. -/
def firstHalf : List PairStep := [.primary (.receive takingAll 7 setLine), .deliver (fun _ => calm 3) 4]

def secondHalf : List PairStep := [.deliver (fun _ => calm 5) 5]

theorem fed_reachable : Reachable fed := by
  refine reachable_next oneClient _ one_client_reachable ⟨one_client_open, ?_⟩
  decide

theorem linked_begins : Begins (fun _ => true) linked := by
  have primary : Reachable feeding := by
    refine ⟨emptyServer, attaching, empty_starts,
      ⟨empty_connects, ⟨by decide, ?_, ?_⟩, ⟨?_, ?_⟩, trivial⟩, rfl⟩
    · decide
    · decide
    · decide
    · decide
  have empty : ∀ key, mapping feeding.db key = none ∧ mapping fed.db key = none := by
    intro key
    have none : feeding.db.table.flatten = [] ∧ fed.db.table.flatten = [] := by decide
    exact ⟨congrFun (mapping_empty _ none.1) key, congrFun (mapping_empty _ none.2) key⟩
  constructor
  · exact reachable_wellformed feeding primary
  · exact reachable_wellformed fed fed_reachable
  · intro key _
    simp [Untimed, stored, linked, (empty key).1]
  · intro key _
    exact (empty key).2.trans (empty key).1.symm
  · decide
  · rfl

theorem set_ships (server : Server)
    (runs : stepRuns server (.receive takingAll 7 setLine) =
      (7, [⟨takingAll [], server, setLine, executeCommand takingAll 7 setLine server⟩]))
    (role : server.repl.role = .primary) (attached : (ReplicaList.fds server).count 9 = 1)
    (silent : server.channels = [])
    (taken : (fedEvents (takingAll []) setLine server).any (FullSync.fallsShort 9) = false) :
    ∀ run ∈ (stepRuns server (.receive takingAll 7 setLine)).2, Ships (fun _ => true) 9 run := by
  rw [runs]
  intro run member
  obtain rfl := List.mem_singleton.mp member
  constructor
  · exact role
  · exact attached
  · exact (FullSync.whole_iff 9 _).mpr taken
  · intro name node there
    simp [silent, subscribersOf] at there
  · exact (by decide : (takingAll []).connect ≠ .connected 9)
  · exact fun _ => single_line (ascii "SET k v") (by decide) (by decide) (by decide) (by decide)
  · intro key _
    have none : timesOf (tokens setLine) = [] := by decide
    simp [none]

theorem halves_admitted :
    Admitted (Linked (fun _ => true) 9) (nextPair 9) linked (firstHalf ++ secondHalf) := by
  have runs : stepRuns feeding (.receive takingAll 7 setLine) =
      (7, [⟨takingAll [], feeding, setLine, executeCommand takingAll 7 setLine feeding⟩]) :=
    input_runs takingAll 7 setLine feeding (newClient 1 7 loadDefaultConfig) (by decide)
      (by decide) (by decide) (by decide)
  have ships := set_ships feeding runs (by decide) (by decide) (by decide)
    (by decide)
  refine ⟨⟨⟨?_, ?_⟩, fun _ _ => rfl, ⟨?_, ?_, ships⟩⟩, ⟨?_, fun _ _ _ => rfl, ?_, ?_⟩,
    ⟨?_, fun _ _ _ => rfl, ?_, ?_⟩, trivial⟩
  · decide
  · decide
  · decide
  · rintro oracle sock chunk same
    injection same with _ socket
    omega
  · show _ + _ < _
    decide
  · decide
  · exact .inl (by decide)
  · show _ + _ < _
    decide
  · decide
  · exact .inr (by decide)

end Example

end CrimsonCache.ReplicaPast
