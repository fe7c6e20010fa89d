import CrimsonCache.ReplicaPast
import CrimsonCache.SyncRaces

/-!
A replica that attaches to a primary which goes on serving its clients. What it
is sent first sets every key, what follows are the primary's writes, and in
between stand the answers to its own commands. From the end of the first part
on it is in the past of the primary.
-/

namespace CrimsonCache.AttachedReplica

open CString Dictionary Persistence ChainedTable DeadlineMap KeyEffects Framing Shipping Replies
  Replication Tokenizer ServerState DataCommands StoredData Commands Connections ReplicationThread ServerRuns
  AppliedWrites DelayedReplication InitialSync SplitWrites SyncRaces ExecLoop StepRuns Keyspace UntimedKeys WriteEffects
  ReplicaList ReplicaLines ReplicaPast Runs
open FullSync (Whole syncLines entryLines)

section Front

variable {region : Bytes → Bool}

/-- Redoing lines is what their effects make of each key. -/
theorem redo_lines (lines : List Bytes) (values : Bytes → Option Bytes)
    (outside : ∀ key, region key = false → values key = none) (key : Bytes) :
    run (redoLine region) values lines key =
      if region key then runAll incremented (lines.map fun line => keyEffect key (tokens line)) (values key)
      else none := by
  induction lines generalizing values with
  | nil =>
      cases inside : region key with
      | false => simpa [run] using outside key inside
      | true => simp [run, runAll]
  | cons line rest ih =>
      have later := ih (redoLine region values line) fun other apart => by simp [redoLine, apart]
      refine later.trans ?_
      cases inside : region key with
      | false => rfl
      | true => simp [redoLine, inside, run_all_cons]

theorem sync_values (envs : Nat → SyncEnv) (entries : List DictEntry)
    (encodable : ∀ entry ∈ entries, Encodable entry) (key : Bytes)
    (distinct : (entries.map DictEntry.key).Nodup)
    (untimed : ∀ entry ∈ entries, entry.key = key → entry.val.expire = 0) (old : Option Bytes) :
    runAll incremented ((syncLines envs entries).map fun line => keyEffect key (tokens line)) old =
      ((lookup DictEntry.key key entries).map fun entry => entry.val.ptr).or old := by
  induction entries generalizing envs old with
  | nil => simp [syncLines, runAll, lookup]
  | cons entry rest ih =>
      obtain ⟨first, others⟩ := List.forall_mem_cons.mp encodable
      obtain ⟨here, untimedRest⟩ := List.forall_mem_cons.mp untimed
      obtain ⟨apart, distinctRest⟩ := List.nodup_cons.mp distinct
      rw [syncLines, List.map_append, run_all_append, ih _ others distinctRest untimedRest]
      cases gone : expired (envs 0).check entry.val.expire with
      | true =>
          have other : entry.key ≠ key := by
            intro same
            simp [here same, expired] at gone
          simp [entryLines, gone, runAll, lookup, other]
      | false =>
          rw [entry_line_effects (envs 0) entry first gone key old]
          by_cases same : key = entry.key
          · have none : lookup DictEntry.key key rest = none :=
              (lookup_none _ _ _).mpr fun other member hit =>
                apart (List.mem_map.mpr ⟨other, member, hit.trans same⟩)
            rw [none, if_pos same]
            simp [lookup, same]
          · simp [lookup, same, Ne.symm same]

theorem set_times (key value : Bytes) : timesOf [ascii "SET", key, value] = [] := by
  have found := row_of_name _ FullSync.set_row
  have name : (ascii "SET").map tolower = ascii "set" := by decide
  have arity : wrongArity ⟨.set, ascii "set", 3, -1⟩ 3 = false := by decide
  simp only [timesOf, acceptedRow, lower, arg, List.getD_cons_zero, name, found, Option.filter_some,
    List.length_cons, List.length_nil, arity]
  simp [handlerTimes]

theorem expire_times (key : Bytes) (args : List Bytes) :
    ∀ timed ∈ timesOf (ascii "EXPIRE" :: key :: args), timed = key := by
  have found := row_of_name _ FullSync.expire_row
  have name : (ascii "EXPIRE").map tolower = ascii "expire" := by decide
  simp only [timesOf, acceptedRow, lower, arg, List.getD_cons_zero, name, found, Option.filter_some]
  split <;> simp [handlerTimes, arg]

theorem sync_lines_whole (envs : Nat → SyncEnv) (entries : List DictEntry)
    (storable : ∀ entry ∈ entries, Storable entry) (encodable : ∀ entry ∈ entries, Encodable entry)
    (untimed : ∀ entry ∈ entries, region entry.key = true → entry.val.expire = 0) :
    ∀ line ∈ syncLines envs entries, Line region line := by
  induction entries generalizing envs with
  | nil => simp [syncLines]
  | cons entry rest ih =>
      obtain ⟨first, storableRest⟩ := List.forall_mem_cons.mp storable
      obtain ⟨fits, encodableRest⟩ := List.forall_mem_cons.mp encodable
      obtain ⟨here, untimedRest⟩ := List.forall_mem_cons.mp untimed
      rw [syncLines, List.forall_mem_append]
      refine ⟨fun line member => ?_, ih _ storableRest encodableRest untimedRest⟩
      have relayed := entry_lines_relayed (envs 0) entry first fits line member
      refine ⟨relayed.nonempty, relayed.whole, relayed.free, relayed.short, fun key inside timed => ?_⟩
      simp only [entryLines] at member
      split at member
      · contradiction
      · rcases List.mem_cons.mp member with rfl | expire
        · rw [tokens_body _ _ fits.transferable.bareKey fits.transferable.written] at timed
          simp [set_times] at timed
        · split at expire
          case isFalse => contradiction
          case isTrue left =>
            obtain rfl := List.mem_singleton.mp expire
            have blank : isspace 32 = true := by decide
            rw [FullSync.scan_expire, scan_bare entry.key _ fits.transferable.bareKey (by simp [blank])] at timed
            obtain rfl := expire_times _ _ key timed
            simp [FullSync.secondsLeft, here inside] at left

theorem sync_writes_lines (fd : Int) (envs : Nat → SyncEnv) (entries : List DictEntry)
    (storable : ∀ entry ∈ entries, Storable entry) (encodable : ∀ entry ∈ entries, Encodable entry)
    (whole : Whole fd (syncEntries fd envs entries)) :
    sentTo fd (syncEntries fd envs entries) =
      (syncLines envs entries).flatMap fun line => line ++ crlf := by
  induction entries generalizing envs with
  | nil => rfl
  | cons entry rest ih =>
      obtain ⟨first, storableRest⟩ := List.forall_mem_cons.mp storable
      obtain ⟨fits, encodableRest⟩ := List.forall_mem_cons.mp encodable
      have here := FullSync.entry_sent (envs 0) fd entry (fits.fitting first)
        fun data result member => whole data result (List.mem_append_left _ member)
      have later := ih (fun index => envs (index + 1)) storableRest encodableRest
        fun data result member => whole data result (List.mem_append_right _ member)
      rw [syncEntries, sent_to_append, here, later, syncLines, List.flatMap_append]

end Front

section Answers

variable {region : Bytes → Bool}

/-- A line that does nothing. -/
structure Inert (line : Bytes) : Prop where
  whole : ∀ region, Line region line
  unknown : acceptedRow (tokens line) = none

theorem inert_of (line : Bytes) (nonempty : line ≠ []) (free : 0 ∉ line) (whole : cr ∉ line)
    (short : line.length < 2 ^ 31) (unknown : acceptedRow (tokens line) = none) : Inert line := by
  refine ⟨fun region => ⟨nonempty, Undivided.of_free cr lf whole, free, short, fun key _ => ?_⟩, unknown⟩
  simp [timesOf, unknown]

theorem inert_redo (line : Bytes) (inert : Inert line) (m : Mapping) :
    redoLine region (shown region m) line = shown region m := by
  funext key
  cases inside : region key with
  | false => simp [redoLine, shown, inside]
  | true => simp [redoLine, inside, keyEffect, inert.unknown, Effect.run]

def okLine : Bytes := ascii "+OK"

theorem ok_inert : Inert okLine :=
  inert_of okLine (by decide) (by decide) (by decide) (by decide) (by decide)

def refusalLine (message : String) : Bytes := ascii "-" ++ ascii message

theorem refusal_inert (message : String) (known : message ∈ refusals) : Inert (refusalLine message) := by
  have each : ∀ message ∈ refusals, refusalLine message ≠ [] ∧ 0 ∉ refusalLine message ∧
      cr ∉ refusalLine message ∧ (refusalLine message).length < 2 ^ 31 ∧
        acceptedRow (tokens (refusalLine message)) = none := by decide
  obtain ⟨nonempty, free, whole, short, unknown⟩ := each message known
  exact inert_of _ nonempty free whole short unknown

theorem refusal_sent (fd : Int) (connected : 0 ≤ fd) (server : Server) (message : String)
    (known : message ∈ refusals) :
    sentTo fd (refuse server fd message).events = refusalLine message ++ crlf := by
  have each : ∀ message ∈ refusals,
      (Reply.error (ascii message)).writes.flatten = refusalLine message ++ crlf := by decide
  simp [refuse, connected, sentTo, Event.sent, each message known]

end Answers

section Calls

theorem accepted_of (input : Bytes) (row : CommandDef) (member : row ∈ commands)
    (named : row.name = commandName input) (arity : wrongArity row (tokens input).length = false) :
    acceptedRow (tokens input) = some row := by
  have found := row_of_name row member
  rw [named] at found
  exact Option.filter_eq_some_iff.mpr ⟨found, by simp [arity]⟩

variable {fd : Int} {server : Server} {oracle : Oracle} {chunk : Bytes} (wf : Wellformed server)
  (heard : Heard fd server oracle chunk)

include wf heard

/-- An input that no command takes is answered with a line that does nothing. -/
theorem refused_shipped {region : Bytes → Bool} (allocates : ∀ path site, (oracle path).alloc site = true)
    (unknown : acceptedRow (tokens (cstr chunk)) = none) (timeless : Timeless region (mapping server.db)) :
    Shipped region (mapping server.db) (mapping (next server (.receive oracle fd chunk)).db)
        (keySteps server (.receive oracle fd chunk))
        (sentTo fd (stepServer server (.receive oracle fd chunk)).2) ∧
      ∀ next ∈ keySteps server (.receive oracle fd chunk), StepLasts region next := by
  obtain ⟨-, events, runs⟩ := heard_executes wf heard
  have followed := (step_keys server wf (.receive oracle fd chunk) heard.possible allocates).1
  have lasts : Lasts region (tokens (cstr chunk)) := by
    intro key _
    simp [timesOf, unknown]
  have direct : lower (tokens (cstr chunk)) ≠ [ascii "exec"] := by
    intro alone
    have one : (tokens (cstr chunk)).length = 1 := by rw [← lower_length, alone, List.length_singleton]
    rw [acceptedRow, alone, one] at unknown
    exact absurd unknown (by decide)
  have keys : keySteps server (.receive oracle fd chunk) = [.call (oracle []) fd (tokens (cstr chunk))] := by
    simp [keySteps, runs, inputRuns, heard.outside, handlerRuns, direct, runStep]
  obtain ⟨message, known, refused⟩ : ∃ message ∈ refusals,
      executeCommand oracle fd chunk server = refuse server fd message := by
    have ran := execute_with_cases
      (fun index cmd server => executeCommandAt 0 (oracle.inner index) fd cmd server) (oracle []) fd chunk server
    rw [executeCommand, executeCommandAt]
    generalize executeWith _ (oracle []) fd chunk server = outcome at ran
    cases ran with
    | refused message known => exact ⟨message, known, rfl⟩
    | queued _ inside => simp [heard.outside] at inside
    | ran row member named arity =>
        rw [accepted_of _ row member named arity] at unknown
        cases unknown
  have inert := refusal_inert message known
  rw [keys] at followed ⊢
  refine ⟨⟨followed, ?_, [refusalLine message], ?_, ?_, ?_⟩, ?_⟩
  · rw [followed]
    exact words_timeless (mapping server.db) timeless (oracle []) _ lasts
  · simpa using inert.whole region
  · rw [events, refused, refusal_sent fd (heard_connected wf heard) server message known]
    simp
  · refine .logged ?_ (.nil _)
    rw [inert_redo _ inert]
    funext key
    cases inside : region key with
    | false => simp [shown, inside]
    | true =>
        have done := words_untimed _ key (timeless key inside) (oracle []) _ (lasts key inside)
        simp only [shown, inside, ↓reduceIte, stored, actKeys, done, keyEffect, unknown, Option.map_none,
          Option.getD_none, Effect.run]
        cases mapping server.db key <;> rfl
  · simpa [StepLasts] using lasts

omit wf in
/-- The command that attaches the replica writes everything to it and answers. -/
theorem join_executes (allocates : ∀ path site, (oracle path).alloc site = true)
    (asks : joins (cstr chunk) = true) :
    ∃ repl, executeCommand oracle fd chunk server =
      ⟨{ server with repl := repl },
        syncReplica (oracle []).sync fd server.db ++ [.reply fd (.string (ascii "OK"))], .ok⟩ := by
  simp only [joins, Bool.and_eq_true, decide_eq_true_eq] at asks
  obtain ⟨⟨name, long⟩, port⟩ := asks
  have nonempty : tokens (cstr chunk) ≠ [] := by
    intro empty
    simp [empty] at long
  have arity : wrongArity ⟨.replconf, ascii "replconf", 2, -1⟩ (tokens (cstr chunk)).length = false := by
    simp only [wrongArity, Bool.or_eq_false_iff, Bool.and_eq_false_iff, decide_eq_false_iff_not]
    omega
  have ran := write_replayed
    (fun index cmd server => executeCommandAt 0 (oracle.inner index) fd cmd server) (oracle []) (allocates [])
    fd chunk server heard.outside ⟨.replconf, ascii "replconf", 2, -1⟩ (by simp [commands]) name.symm
    nonempty arity
  have quiet : isWriteCommand (ascii "replconf") = false := by decide
  refine ⟨(addReplica true ((oracle []).clock 0) (oracle []).sync fd (oracle []).peer
    (atoi (arg (lower (tokens (cstr chunk))) 2)) server.db server.repl).1, ?_⟩
  rw [executeCommand, executeCommandAt, ran, propagate_eq, name]
  simp only [propagated, quiet, Bool.and_false, Bool.false_eq_true, ↓reduceIte, runHandler, replconfCommand,
    lower_length, long, port, and_self, addReplica, allocates]

end Calls

section Attach

variable (region : Bytes → Bool) (fd : Int) (oracle : Oracle) (chunk : Bytes)

/-- A replica attaches. Of the region it has at most the keys that the primary has; nothing there has a
    deadline. The primary's entries survive the lines of the sync, and the connection takes these whole. -/
structure Attaches (pair : Pair) : Prop where
  primary : Wellformed pair.primary
  replica : Wellformed pair.replica
  timeless : Timeless region (mapping pair.primary.db) ∧ Timeless region (mapping pair.replica.db)
  known : ∀ key, region key = true → mapping pair.primary.db key = none → mapping pair.replica.db key = none
  encodable : ∀ entry ∈ pair.primary.db.table.flatten, Encodable entry
  whole : Whole fd (syncReplica (oracle []).sync fd pair.primary.db)
  idle : pair.replica.replicaBuffer = []
  unsent : pair.wire = []
  heard : Heard fd pair.primary oracle chunk
  allocates : ∀ path site, (oracle path).alloc site = true
  asks : joins (cstr chunk) = true

/-- The primary and the replica right behind the command. -/
def attachedPair (pair : Pair) : Pair := nextPair fd pair (.primary (.receive oracle fd chunk))

/-- What the replica is sent for it. -/
def attachLines (pair : Pair) : List Bytes :=
  syncLines (oracle []).sync pair.primary.db.table.flatten ++ [okLine]

/-- The replica asks for something that the primary does not know. -/
structure Greets (pair : Pair) (oracle : Oracle) (chunk : Bytes) : Prop where
  heard : Heard fd pair.primary oracle chunk
  allocates : ∀ path site, (oracle path).alloc site = true
  unknown : acceptedRow (tokens (cstr chunk)) = none

/-- A step of the link, or a command of the replica that gets an error. -/
def Followed (pair : Pair) (step : PairStep) : Prop :=
  Linked region fd pair step ∨
    ∃ oracle chunk, step = .primary (.receive oracle fd chunk) ∧ Greets fd pair oracle chunk

variable {region fd oracle chunk} {pair : Pair} (attaches : Attaches region fd oracle chunk pair)

include attaches

theorem stored_untimed (entry : DictEntry) (member : entry ∈ pair.primary.db.table.flatten)
    (inside : region entry.key = true) : entry.val.expire = 0 := by
  have bound := (mapping_mem _ attaches.primary.sound.rep entry.key (binding entry)).mpr
    ⟨entry, member, rfl, rfl⟩
  have there := attaches.timeless.1 entry.key inside
  simp only [Untimed, stored, bound] at there
  exact (Prod.mk.inj (Option.some.inj there)).2

/-- The lines of the sync make up what the primary shows. -/
theorem attach_shows :
    run (redoLine region) (shown region (mapping pair.replica.db)) (attachLines oracle pair) =
      shown region (mapping pair.primary.db) := by
  have rep := attaches.primary.sound.rep
  have synced : run (redoLine region) (shown region (mapping pair.replica.db))
      (syncLines (oracle []).sync pair.primary.db.table.flatten) = shown region (mapping pair.primary.db) := by
    funext key
    rw [redo_lines _ _ (fun key apart => by simp [shown, apart])]
    cases inside : region key with
    | false => simp [shown, inside]
    | true =>
        have untimed : ∀ entry ∈ pair.primary.db.table.flatten, entry.key = key → entry.val.expire = 0 :=
          fun entry member hit => stored_untimed attaches entry member (hit ▸ inside)
        rw [sync_values _ _ attaches.encodable key rep.valid.distinct_flatten untimed]
        simp only [shown, inside, ↓reduceIte, stored]
        cases found : lookup DictEntry.key key pair.primary.db.table.flatten with
        | some entry => simp [mapping, found, binding]
        | none =>
            have absent : mapping pair.primary.db key = none := by simp [mapping, found]
            simp [absent, attaches.known key inside absent]
  rw [attachLines, run_append, synced]
  exact inert_redo okLine ok_inert _

theorem attach_behind :
    Behind region (mapping pair.primary.db) [] [] (attachLines oracle pair) []
      (attachedPair fd oracle chunk pair) := by
  obtain ⟨server, events, -⟩ := heard_executes attaches.primary attaches.heard
  obtain ⟨repl, ran⟩ := join_executes attaches.heard attaches.allocates attaches.asks
  rw [ran] at server events
  have storable := attaches.primary.sound.storable
  constructor
  · exact next_wellformed pair.primary _ attaches.primary attaches.heard.possible
  · exact attaches.replica
  · exact congrArg (fun server => mapping server.db) server
  · simp
  · refine ⟨?_, attaches.timeless.2⟩
    have same : mapping (attachedPair fd oracle chunk pair).primary.db = mapping pair.primary.db :=
      congrArg (fun server => mapping server.db) server
    rw [same]
    exact attaches.timeless.1
  · rw [List.append_nil, attachLines, List.forall_mem_append]
    refine ⟨sync_lines_whole _ _ storable attaches.encodable fun entry member inside => ?_, ?_⟩
    · exact stored_untimed attaches entry member inside
    · simpa using ok_inert.whole region
  · have wire : (attachedPair fd oracle chunk pair).wire = pair.wire ++
        sentTo fd (stepServer pair.primary (.receive oracle fd chunk)).2 := rfl
    have held : (attachedPair fd oracle chunk pair).replica.replicaBuffer = [] := attaches.idle
    rw [wire, held, events, attaches.unsent, sent_to_append, syncReplica,
      sync_writes_lines fd _ _ storable attaches.encodable attaches.whole]
    have answer : sentTo fd [.reply fd (.string (ascii "OK"))] = okLine ++ crlf := by
      have text : (Reply.string (ascii "OK")).writes.flatten = okLine ++ crlf := by decide
      simp [sentTo, Event.sent, text]
    rw [answer]
    simp [attachLines]
  · exact .nil _
  · exact attach_shows attaches

end Attach

section Follow

variable {region : Bytes → Bool} {fd : Int} {start : Mapping} {done ahead : List KeyStep}
  {front pending : List Bytes} {pair : Pair}

theorem followed_behind (behind : Behind region start done ahead front pending pair) (step : PairStep)
    (followed : Followed region fd pair step) :
    Advances region start done ahead front (pairKeys pair step) (pairLines pair step)
      (nextPair fd pair step) := by
  rcases followed with linked | ⟨oracle, chunk, rfl, greets⟩
  · exact step_behind behind step linked
  · obtain ⟨shipped, lasts⟩ := refused_shipped behind.primary greets.heard greets.allocates greets.unknown
      behind.timeless.1
    obtain ⟨left, next⟩ := shipped_behind behind _ greets.heard.possible shipped lasts
    exact .still next

end Follow

section Example

set_option maxRecDepth 4000

/-- A primary that holds something, and the connection of the replica to be. -/
def serving : List ServerStep :=
  [.connect 1 7, .receive (calm 0) 7 (ascii "SET k u\r\n"), .connect 2 9]

def holding : Server := run next emptyServer serving

def unlinked : Pair := ⟨holding, fed, []⟩

/-- The connection takes the line of the sync whole. -/
def atJoin : Oracle := fun path => { calm 0 path with sync := fun _ => FullSync.wholeWrites }

def joinChunk : Bytes := ascii "REPLCONF listening-port 6380\r\n"

/-- The replica's second command, and the sync as it arrives, with a piece of the answer. -/
def syncing : List PairStep :=
  [.primary (.receive (calm 0) 9 (ascii "PSYNC ? -1\r\n")), .deliver (fun _ => calm 3) 16]

def following : List PairStep :=
  [.primary (.receive takingAll 7 setLine), .deliver (fun _ => calm 5) 40]

theorem unlinked_attaches : Attaches (fun _ => true) 9 atJoin joinChunk unlinked := by
  have primary : Reachable holding := by
    refine ⟨emptyServer, serving, empty_starts, ⟨empty_connects, ⟨?_, ?_⟩, ⟨by decide, ?_, ?_⟩, trivial⟩, rfl⟩
    · decide
    · decide
    · decide
    · decide
  have wf := reachable_wellformed holding primary
  have entries : holding.db.table.flatten = [⟨ascii "k", ⟨ascii "u", .string, 0, 2, 0⟩⟩] := by decide
  have none : mapping fed.db = fun _ => none := mapping_empty _ (by decide)
  constructor
  · exact wf
  · exact reachable_wellformed fed fed_reachable
  · constructor
    · intro key _
      simp only [unlinked, Untimed, stored, mapping, entries, lookup, List.find?_cons, List.find?_nil]
      split <;> rfl
    · intro key _
      simp [unlinked, Untimed, stored, none]
  · intro key _ _
    simp [unlinked, none]
  · intro entry member
    rw [unlinked, entries] at member
    obtain rfl := List.mem_singleton.mp member
    have value : Bare (ascii "u") := FullSync.clean_bare (ascii "u") (by decide) (by decide)
    exact ⟨⟨FullSync.clean_bare (ascii "k") (by decide) (by decide), by decide, value⟩, by decide⟩
  · exact (FullSync.whole_iff 9 _).mpr (by decide)
  · decide
  · rfl
  · exact ⟨⟨by decide, by decide⟩, by decide, by decide, by decide⟩
  · exact fun path => calm_allocates 0 path
  · decide

theorem following_admitted :
    Admitted (Followed (fun _ => true) 9) (nextPair 9) (attachedPair 9 atJoin joinChunk unlinked)
      (syncing ++ following) := by
  refine ⟨.inr ⟨calm 0, ascii "PSYNC ? -1\r\n", rfl, ⟨⟨⟨?_, ?_⟩, ?_, ?_, ?_⟩, calm_allocates 0, ?_⟩⟩,
    .inl ⟨?_, fun _ => calm_allocates 3, ?_, .inl ?_⟩, .inl ⟨⟨?_, ?_⟩, calm_allocates 0, ⟨?_, ?_, ?_⟩⟩,
    .inl ⟨?_, fun _ => calm_allocates 5, ?_, .inr ?_⟩, trivial⟩
  · decide
  · decide
  · decide
  · decide
  · decide
  · decide
  · show _ + _ < _
    decide
  · decide
  · decide
  · decide
  · decide
  · decide
  · rintro oracle sock chunk same
    injection same with _ socket
    omega
  · refine set_ships _ ?_ (by decide) (by decide) (by decide) (by decide)
    exact input_runs takingAll 7 setLine _ (newClient 1 7 loadDefaultConfig) (by decide)
      (by decide) (by decide) (by decide)
  · show _ + _ < _
    decide
  · decide
  · decide

end Example

end CrimsonCache.AttachedReplica
