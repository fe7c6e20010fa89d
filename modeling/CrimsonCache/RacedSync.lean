import CrimsonCache.Library.Runs
import CrimsonCache.SyncRaces

/-!
Runs of a sync among writes. Alone it does what `add_replica` does in one call.
Among writes of other clients the replica stores in the end what the primary
stores, if every step keeps clear of the races: of these the one that matters
most is a sync that comes to a key between a write and its feed.
-/

namespace CrimsonCache.RacedSync

open CString Dictionary ChainedTable KeyEffects TableWalk Replies Replication Tokenizer ServerState
  StoredData Commands ReplicationThread ServerRuns AppliedWrites ReplicaAgreement InitialSync FullSync
  DelayedReplication WalkedTable SplitWrites SyncRaces Framing Runs

section Undisturbed

variable (fd : Int)

theorem sync_entries_append (env : SyncEnv) (first second : List DictEntry) :
    syncEntries fd (fun _ => env) (first ++ second) =
      syncEntries fd (fun _ => env) first ++ syncEntries fd (fun _ => env) second := by
  induction first with
  | nil => rfl
  | cons entry rest ih => simp only [List.cons_append, syncEntries, ih, List.append_assoc]

/-- The rounds of one chain. -/
theorem chain_walked (env : SyncEnv) (rows : List DictEntry) (race : Race) (cursor : Cursor Bytes)
    (valid : Valid (place race.server.db.mask) DictEntry.key race.server.db.table)
    (walk : race.walk = .standing cursor) (shape : left race.server.db cursor = rows) :
    ∃ last, left race.server.db ⟨cursor.bucket, last⟩ = [] ∧
      run (nextRace fd) race (List.replicate rows.length (.walk env)) =
        { race with
          walk := .standing ⟨cursor.bucket, last⟩
          stream := race.stream ++ sentTo fd (syncEntries fd (fun _ => env) rows) } := by
  induction rows generalizing race cursor with
  | nil =>
      refine ⟨cursor.last, shape, ?_⟩
      have same : race.walk = .standing ⟨cursor.bucket, cursor.last⟩ := walk
      simp [run, syncEntries, sentTo, ← same]
  | cons entry rest ih =>
      have visited := rest_visited valid cursor entry rest shape
      obtain ⟨last, done, ran⟩ := ih
        { race with
          walk := .standing ⟨cursor.bucket, some entry.key⟩
          stream := race.stream ++ sentTo fd (syncEntry env fd entry) }
        ⟨cursor.bucket, some entry.key⟩ valid rfl visited
      refine ⟨last, done, ?_⟩
      have step : nextRace fd race (.walk env) =
          { race with
            walk := .standing ⟨cursor.bucket, some entry.key⟩
            stream := race.stream ++ sentTo fd (syncEntry env fd entry) } := by
        simp only [nextRace, walk, syncRound, shape]
      rw [List.length_cons, List.replicate_succ, run, List.foldl_cons, step]
      rw [run] at ran
      rw [ran, syncEntries, sent_to_append, List.append_assoc]

/-- The rounds of the buckets that are left. -/
theorem table_walked (env : SyncEnv) (chains : List (List DictEntry)) (bucket : Nat) (race : Race)
    (rep : Represents race.server.db) (walk : race.walk = .standing ⟨bucket, none⟩)
    (shape : race.server.db.table.drop bucket = chains) (inside : bucket < race.server.db.table.length) :
    run (nextRace fd) race (List.replicate (chains.flatten.length + chains.length) (.walk env)) =
      { race with
        walk := .ended
        stream := race.stream ++
          sentTo fd (syncEntries fd (fun _ => env) chains.flatten ++ [.reply fd (.string (ascii "OK"))]) } := by
  induction chains generalizing bucket race with
  | nil =>
      rw [List.drop_eq_nil_iff] at shape
      omega
  | cons rows rest ih =>
      rw [List.drop_eq_getElem_cons inside] at shape
      have here : left race.server.db ⟨bucket, none⟩ = rows := by
        simp only [left, TableWalk.rest, chain, List.getD_eq_getElem?_getD,
          List.getElem?_eq_getElem inside, Option.getD_some]
        exact (List.cons.inj shape).1
      obtain ⟨last, done, ran⟩ := chain_walked fd env rows race ⟨bucket, none⟩ rep.valid walk here
      have count : (rows :: rest).flatten.length + (rows :: rest).length =
          rows.length + (1 + (rest.flatten.length + rest.length)) := by
        simp only [List.flatten_cons, List.length_append, List.length_cons]
        omega
      have length := rep.length
      rw [count, List.replicate_add, run_append, ran, List.replicate_add, run_append]
      simp only [List.replicate_one, run, List.foldl_cons, List.foldl_nil, nextRace, syncRound, done]
      by_cases further : bucket + 1 < race.server.db.size
      · have within : bucket + 1 < race.server.db.table.length := by omega
        have later := ih (bucket + 1)
          { race with
            walk := .standing ⟨bucket + 1, none⟩
            stream := race.stream ++ sentTo fd (syncEntries fd (fun _ => env) rows) }
          rep rfl (List.cons.inj shape).2 within
        simp only [run] at later
        simp only [further, ↓reduceIte, sentTo, List.flatMap_nil, List.append_nil] at later ⊢
        rw [later, List.flatten_cons, sync_entries_append]
        simp
      · have none : rest = [] := by
          rw [← (List.cons.inj shape).2, List.drop_eq_nil_iff]
          omega
        simp [none, further]

/-- Without writes in between, the steps are those of `add_replica` as REPLCONF calls it. -/
theorem undisturbed_sync (env : SyncEnv) (race : Race) (rep : Represents race.server.db)
    (idle : race.walk = .idle) (ip : Bytes) (port : Int) (now : Nat) :
    let (repl, events) :=
      addReplica true now (fun _ => env) fd ip port race.server.db race.server.repl
    let rounds := race.server.db.table.flatten.length + race.server.db.table.length
    run (nextRace fd) race (.attach ip port now :: List.replicate rounds (.walk env)) =
      { race with
        server := { race.server with repl := repl }
        walk := .ended
        stream := race.stream ++ sentTo fd (events ++ [.reply fd (.string (ascii "OK"))]) } := by
  have positive := rep.inRange []
  have walked := table_walked fd env race.server.db.table 0 (nextRace fd race (.attach ip port now))
    (by simpa [nextRace, idle] using rep) (by simp [nextRace, idle]) (by simp [nextRace, idle])
    (by simp only [nextRace, idle]; omega)
  simp only [nextRace, idle] at walked
  simp only [addReplica, ↓reduceIte, run, List.foldl_cons, nextRace, idle]
  exact walked

end Undisturbed

section Equality

variable (fd : Int) (replica : Server)

/-- No line of the replica finds the key that it looks up expired. -/
def Awake (worlds : Nat → Oracle) : Nat → List Bytes → Mapping → Prop
  | _, [], _ => True
  | index, line :: rest, m =>
      meetsExpired (worlds index []) (tokens (cstr line)) m = false ∧
        Awake worlds (index + 1) rest
          (if line = [] then m else applyWords (worlds index []) (tokens (cstr line)) m)

instance decidableAwake (worlds : Nat → Oracle) :
    ∀ index lines m, Decidable (Awake worlds index lines m)
  | _, [], _ => .isTrue trivial
  | index, line :: rest, m =>
      have := decidableAwake worlds (index + 1) rest
        (if line = [] then m else applyWords (worlds index []) (tokens (cstr line)) m)
      inferInstanceAs (Decidable (_ ∧ _))

theorem lines_value (worlds : Nat → Oracle) (lines : List Bytes)
    (relayed : ∀ line ∈ lines, Relayed line) (index : Nat) (m : Mapping)
    (awake : Awake worlds index lines m) (key : Bytes) :
    stored (applyLines worlds index lines m) key =
      runAll incremented (lines.map fun line => keyEffect key (tokens line)) (stored m key) := by
  induction lines generalizing index m with
  | nil => rfl
  | cons line rest ih =>
      have first := relayed line List.mem_cons_self
      have later := ih fun other member => relayed other (List.mem_cons_of_mem line member)
      simp only [Awake, first.nonempty, ↓reduceIte, cstr_of_nul_free line first.free] at awake
      simp only [applyLines, first.nonempty, ↓reduceIte, cstr_of_nul_free line first.free,
        List.map_cons, run_all_cons]
      rw [later (index + 1) _ awake.2, words_value _ _ m first.write awake.1 key]

theorem run_coherent (start : Race) (begins : Begins fd start) (steps : List RaceStep)
    (admitted : Admitted (Allowed fd) (nextRace fd) start steps)
    (steady : Admitted (Steady replica) (nextRace fd) start steps) :
    Coherent fd replica (run (nextRace fd) start steps) := by
  have both := (admitted_and _ _ _ start steps).mpr ⟨admitted, steady⟩
  exact run_invariant _ _ (next_coherent fd replica) start (begins_coherent fd replica start begins)
    steps both

/-- Once the sync has ended and every write was fed, a replica that has processed the stream
    stores what the primary stores. -/
theorem races_equalize (wf : Wellformed replica) (empty : replica.replicaBuffer = []) (start : Race)
    (begins : Begins fd start) (steps : List RaceStep)
    (admitted : Admitted (Allowed fd) (nextRace fd) start steps)
    (steady : Admitted (Steady replica) (nextRace fd) start steps)
    (ended : (run (nextRace fd) start steps).walk = .ended)
    (fed : (run (nextRace fd) start steps).pending = []) (chunks : List Bytes)
    (whole : chunks.flatten = (run (nextRace fd) start steps).stream) (worlds : Nat → Oracle)
    (allocates : ∀ index, (worlds index).Allocates)
    (awake : Awake worlds 0 (frames cr lf [] chunks.flatten).1 (mapping replica.db)) (key : Bytes) :
    stored (mapping (receiveChunks worlds 0 chunks replica).db) key =
      stored (mapping (run (nextRace fd) start steps).server.db) key := by
  obtain ⟨lines, stream, relayed, values⟩ :=
    (run_coherent fd replica start begins steps admitted steady).accounted
  generalize run (nextRace fd) start steps = race at ended fed whole stream values
  have cut : (frames cr lf [] chunks.flatten).1 = lines := by
    rw [whole, stream]
    exact congrArg Prod.fst (frames_lines cr lf lines crlf_distinct fun line member =>
      (relayed line member).whole)
  have free : 0 ∉ chunks.flatten := by
    rw [whole, stream, List.mem_flatMap]
    rintro ⟨line, member, zero⟩
    rcases List.mem_append.mp zero with inside | ended
    · exact (relayed line member).free inside
    · exact absurd ended (by decide)
  have applied := chunks_apply worlds allocates chunks 0 replica wf.ready wf.sound
    (empty ▸ undivided_nil cr lf) (by simpa [empty] using free) (by
      rw [empty, List.nil_append, cut]
      exact fun line member => (relayed line member).short)
  rw [empty, List.nil_append, cut] at applied
  rw [cut] at awake
  rw [applied, lines_value worlds lines relayed 0 _ awake key]
  have here := values (by simp [ended]) key (by
    rintro ⟨cursor, standing, -⟩
    rw [ended] at standing
    contradiction)
  rw [here, pendingEffects, fed]
  rfl

end Equality

section Samples

set_option maxRecDepth 4000

/-- Rounds of the sync leave the server and the writes on their way, so that what depends on these
    alone holds in each of them. -/
theorem rounds_admitted (fd : Int) (condition : Race → RaceStep → Prop) (env : SyncEnv) (count : Nat)
    (race : Race)
    (holds : ∀ walk stream, condition { race with walk := walk, stream := stream } (.walk env)) :
    Admitted condition (nextRace fd) race (List.replicate count (.walk env)) := by
  induction count generalizing race with
  | zero => trivial
  | succ count ih =>
      refine ⟨holds race.walk race.stream, ?_⟩
      have kept : ∃ walk stream,
          nextRace fd race (.walk env) = { race with walk := walk, stream := stream } := by
        cases walk : race.walk with
        | standing cursor =>
            simp only [nextRace, walk]
            exact ⟨_, _, rfl⟩
        | idle | dangling | ended =>
            simp only [nextRace, walk]
            exact ⟨race.walk, race.stream, rfl⟩
      obtain ⟨walk, stream, same⟩ := kept
      rw [same]
      exact ih _ holds

theorem left_stored (db : Dict) (cursor : Cursor Bytes) (entry : DictEntry)
    (next : (left db cursor).head? = some entry) : entry ∈ db.table.flatten :=
  rest_stored (place db.mask) DictEntry.key db.table cursor entry (List.mem_of_mem_head? next)

def beginning : Race := ⟨oneClient, [], .idle, []⟩

theorem beginning_begins : Begins 9 beginning := by
  constructor
  · exact (reachable_wellformed oneClient one_client_reachable).sound
  · decide
  · decide
  · rfl
  · rfl
  · rfl

/-- A world in which a connection takes eight bytes. -/
def taking : Env := { calm 0 [] with delivery := fun _ => ⟨.wrote 8, 0⟩ }

def write (text : String) : RaceStep := .handle taking 7 (ascii text ++ crlf)

def counted : DictEntry := ⟨ascii "k", ⟨ascii "6", .string, 0, 2, 0⟩⟩

theorem counted_encodable : Encodable counted := by
  refine ⟨⟨clean_bare (ascii "k") (by decide) (by decide), by decide, ?_⟩, by decide⟩
  rw [if_neg (by decide)]
  exact clean_bare (ascii "6") (by decide) (by decide)

/-- A sync of the one entry. -/
theorem counted_rounds (count : Nat) (race : Race)
    (one : race.server.db.table.flatten = [counted]) :
    Admitted (Allowed 9) (nextRace 9) race (List.replicate count (.walk wholeWrites)) := by
  apply rounds_admitted
  intro walk stream cursor standing entry next
  have member := left_stored _ cursor entry next
  rw [one, List.mem_singleton] at member
  subst member
  exact ⟨counted_encodable, by decide⟩

theorem counted_steady (count : Nat) (race : Race) (one : race.server.db.table.flatten = [counted])
    (fed : race.pending = []) :
    Admitted (Steady follower) (nextRace 9) race (List.replicate count (.walk wholeWrites)) := by
  apply rounds_admitted
  intro walk stream cursor standing entry next
  have member := left_stored _ cursor entry next
  rw [one, List.mem_singleton] at member
  subst member
  refine ⟨by decide, ?_⟩
  rw [pendingEffects, fed]
  rfl

theorem write_allowed (race : Race) (text : String)
    (ready : inTransaction 7 race.server = false)
    (write : isWriteCommand (commandName (cstr (ascii text ++ crlf))) = true ∧
      (cstr (ascii text ++ crlf)).length < 2 ^ 31) : Allowed 9 race (RacedSync.write text) :=
  ⟨by decide, by decide, ready, write⟩

/-- A feed of the one write on its way. -/
theorem feed_allowed (race : Race) (line : Bytes) (one : race.pending = [line ++ crlf])
    (text : 0 ∉ line ∧ line ≠ [] ∧ cr ∉ line ∧ line.length < 2 ^ 31)
    (whole : Whole 9 (fedEvents taking (line ++ crlf) race.server)) :
    Allowed 9 race (.feed 0 taking) := by
  intro input first
  rw [one] at first
  obtain rfl := Option.some.inj first
  exact ⟨single_line line text.1 text.2.1 text.2.2.1 text.2.2.2, whole⟩

theorem feed_steady (race : Race) : Steady follower race (.feed 0 taking) := by
  intro input first earlier member
  contradiction

def settledFirst : List RaceStep :=
  [write "SET k 5", .feed 0 taking, .attach [] 6380 0, write "INCR k", .feed 0 taking]

theorem settled_first_allowed : Admitted (Allowed 9) (nextRace 9) beginning settledFirst := by
  refine ⟨?_, ?_, trivial, ?_, ?_, trivial⟩
  · exact write_allowed _ _ (by decide) (by decide)
  · exact feed_allowed _ (ascii "SET k 5") (by decide) (by decide) (by decide)
  · exact write_allowed _ _ (by decide) (by decide)
  · exact feed_allowed _ (ascii "INCR k") (by decide) (by decide) (by decide)

theorem settled_first_steady : Admitted (Steady follower) (nextRace 9) beginning settledFirst := by
  refine ⟨⟨by decide, ?_⟩, feed_steady _, ?_, ⟨by decide, ?_⟩, feed_steady _, trivial⟩
  · intro cursor standing
    contradiction
  · intro key absent
    have none : follower.db.table.flatten = [] := by decide
    rw [mapping_empty follower.db none]
    rfl
  · intro cursor standing
    have start : Walk.standing ⟨0, none⟩ = .standing cursor := Eq.trans (by decide) standing
    obtain rfl := Walk.standing.inj start
    constructor
    · intro key last
      cases last
    · intro _ key ahead
      rw [grown, if_neg (by decide)]
      exact ahead

/-- The INCR is handled and fed before the sync comes to its key. -/
theorem settled_first_equalizes :
    stored (mapping (receiveChunks (fun _ => calm 0) 0 [ascii "INCR k\r\nSET k 6\r\n+OK\r\n"]
        follower).db) (ascii "k") =
      stored (mapping (run (nextRace 9) beginning
        (settledFirst ++ List.replicate 1025 (.walk wholeWrites))).server.db) (ascii "k") := by
  have one : (run (nextRace 9) beginning settledFirst).server.db.table.flatten = [counted] := by
    decide +kernel
  have fed : (run (nextRace 9) beginning settledFirst).pending = [] := by decide +kernel
  have sent : (run (nextRace 9) beginning settledFirst).stream = ascii "INCR k\r\n" := by decide +kernel
  have rep := (run_coherent 9 follower beginning beginning_begins settledFirst settled_first_allowed
    settled_first_steady).sound.rep
  have size : (run (nextRace 9) beginning settledFirst).server.db.table.length = 1024 := by
    decide +kernel
  have walked := table_walked 9 wholeWrites _ 0 (run (nextRace 9) beginning settledFirst) rep
    (by decide +kernel) rfl (by rw [size]; decide)
  simp only [List.drop_zero, one, size, List.length_singleton, Nat.reduceAdd] at walked
  apply races_equalize 9 follower (reachable_wellformed follower follower_reachable) (by decide +kernel)
    beginning beginning_begins
  · rw [admitted_append]
    exact ⟨settled_first_allowed, counted_rounds 1025 _ one⟩
  · rw [admitted_append]
    exact ⟨settled_first_steady, counted_steady 1025 _ one fed⟩
  · rw [run_append, walked]
  · rw [run_append, walked, ← fed]
  · rw [run_append, walked, sent]
    decide +kernel
  · exact fun _ => calm_allocates 0
  · decide +kernel

def handledOnly : List RaceStep := [write "SET k 5", .feed 0 taking, write "INCR k"]

def fedLate : List RaceStep :=
  handledOnly ++ (.attach [] 6380 0 :: List.replicate 1025 (.walk wholeWrites)) ++ [.feed 0 taking]

/-- The sync comes to the key between the INCR and its feed. -/
theorem late_feed_diverges :
    Begins 9 beginning ∧ Admitted (Allowed 9) (nextRace 9) beginning fedLate ∧
      (run (nextRace 9) beginning fedLate).walk = .ended ∧
      (run (nextRace 9) beginning fedLate).pending = [] ∧
      (run (nextRace 9) beginning fedLate).stream = ascii "SET k 6\r\n+OK\r\nINCR k\r\n" ∧
      stored (mapping (run (nextRace 9) beginning fedLate).server.db) (ascii "k") = some (ascii "6") ∧
      stored (mapping (receiveChunks (fun _ => calm 0) 0 [ascii "SET k 6\r\n+OK\r\nINCR k\r\n"]
        follower).db) (ascii "k") = some (ascii "7") := by
  have one : (run (nextRace 9) beginning handledOnly).server.db.table.flatten = [counted] := by
    decide +kernel
  have size : (run (nextRace 9) beginning handledOnly).server.db.table.length = 1024 := by
    decide +kernel
  have idle : (run (nextRace 9) beginning handledOnly).walk = .idle := by decide +kernel
  have begun : Admitted (Allowed 9) (nextRace 9) beginning handledOnly := by
    refine ⟨?_, ?_, ?_, trivial⟩
    · exact write_allowed _ _ (by decide +kernel) (by decide +kernel)
    · exact feed_allowed _ (ascii "SET k 5") (by decide +kernel) (by decide +kernel) (by decide +kernel)
    · exact write_allowed _ _ (by decide +kernel) (by decide +kernel)
  have steady : Admitted (Steady follower) (nextRace 9) beginning handledOnly := by
    refine ⟨⟨by decide +kernel, ?_⟩, feed_steady _, ⟨by decide +kernel, ?_⟩, trivial⟩
    · intro cursor standing
      cases standing
    · intro cursor standing
      have start : Walk.idle = .standing cursor := Eq.trans (by decide +kernel) standing
      cases start
  have rep := (run_coherent 9 follower beginning beginning_begins handledOnly begun steady).sound.rep
  have synced := undisturbed_sync 9 wholeWrites (run (nextRace 9) beginning handledOnly) rep idle [] 6380 0
  simp only [one, size, List.length_singleton, Nat.reduceAdd, addReplica, ↓reduceIte] at synced
  have last : run (nextRace 9) beginning fedLate = nextRace 9 (run (nextRace 9)
      (run (nextRace 9) beginning handledOnly)
        (.attach [] 6380 0 :: List.replicate 1025 (.walk wholeWrites))) (.feed 0 taking) := by
    rw [fedLate, run_snoc, run_append]
  rw [last, synced]
  refine ⟨beginning_begins, ?_, by decide +kernel, by decide +kernel, by decide +kernel, by decide +kernel,
    by decide +kernel⟩
  rw [fedLate, admitted_append, admitted_append, run_append, synced]
  refine ⟨⟨begun, trivial, ?_⟩, ?_, trivial⟩
  · exact counted_rounds 1025 _ (by decide +kernel)
  · exact feed_allowed _ (ascii "INCR k") (by decide +kernel) (by decide +kernel) (by decide +kernel)

end Samples

end CrimsonCache.RacedSync
