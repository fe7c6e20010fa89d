import CrimsonCache.SplitWrites

/-!
An initial sync among writes of other clients. Three kinds of steps interleave:
the handler of a write changes the database, a write that was handled is handed
to the replicas, and the sync visits the next entry and sends what it finds. A
key that the walk has still to meet is sent later as it is then; of any other
key the stream and the writes on their way account for the value.
-/

namespace CrimsonCache.SyncRaces

open CString Dictionary ChainedTable KeyEffects TableWalk Persistence Replies Replication Tokenizer
  ServerState DataCommands StoredData Commands ReplicationThread ServerRuns AppliedWrites ReplicaAgreement
  InitialSync FullSync ReplicaList DelayedReplication WalkedTable SplitWrites Framing

section Model

/-- Where the sync is: the entry that the loop stands on was sent, or its pointer is to freed
    memory. -/
inductive Walk where
  | idle
  | standing (cursor : Cursor Bytes)
  | dangling
  | ended
  deriving DecidableEq

/-- A primary, the writes that were handled and not yet fed, and what was sent to the replica. -/
structure Race where
  server : Server
  pending : List Bytes
  walk : Walk
  stream : Bytes

inductive RaceStep where
  | handle (env : Env) (sock : Int) (buffer : Bytes)
  | feed (index : Nat) (env : Env)
  | attach (ip : Bytes) (port : Int) (now : Nat)
  | walk (env : SyncEnv)

variable (fd : Int)

def left (db : Dict) (cursor : Cursor Bytes) : List DictEntry :=
  rest (place db.mask) DictEntry.key db.table cursor

/-- One round of the loops of `sync_replica`: the next entry, or the next bucket. A table has
    buckets, so that the first round finds one. Behind the last one REPLCONF replies. -/
def syncRound (env : SyncEnv) (db : Dict) (cursor : Cursor Bytes) : Walk × List Event :=
  match left db cursor with
  | entry :: _ => (.standing ⟨cursor.bucket, some entry.key⟩, syncEntry env fd entry)
  | [] =>
      if cursor.bucket + 1 < db.size then (.standing ⟨cursor.bucket + 1, none⟩, [])
      else (.ended, [.reply fd (.string (ascii "OK"))])

/-- Whether a command frees the entry of a key: it is gone, or was found expired and made anew. -/
def frees (env : Env) (words : List Bytes) (before after : Mapping) (key : Bytes) : Bool :=
  (after key).isNone || (meetsExpired env words before && after key ≠ before key)

def walkAfter (env : Env) (words : List Bytes) (before after : Mapping) : Walk → Walk
  | .standing cursor =>
      if cursor.last.any (frees env words before after) then .dangling else .standing cursor
  | walk => walk

def nextRace (race : Race) : RaceStep → Race
  | .handle env sock buffer =>
      let outcome := handled env sock buffer race.server
      { server := outcome.server
        pending :=
          if propagated sock (commandName (cstr buffer)) outcome then race.pending ++ [cstr buffer]
          else race.pending
        walk := walkAfter env (tokens (cstr buffer)) (mapping race.server.db)
          (mapping outcome.server.db) race.walk
        stream := race.stream ++ sentTo fd outcome.events }
  | .feed index env =>
      match race.pending[index]? with
      | none => race
      | some input =>
          { race with
            server := fedServer env input race.server
            pending := race.pending.eraseIdx index
            stream := race.stream ++ sentTo fd (fedEvents env input race.server) }
  | .attach ip port now =>
      match race.walk with
      | .idle =>
          { race with
            server :=
              { race.server with
                repl :=
                  { race.server.repl with
                    replicas := ⟨fd, ip, port, now / 1000⟩ :: race.server.repl.replicas } }
            walk := .standing ⟨0, none⟩ }
      | _ => race
  | .walk env =>
      match race.walk with
      | .standing cursor =>
          let (walk, events) := syncRound fd env race.server.db cursor
          { race with walk := walk, stream := race.stream ++ sentTo fd events }
      -- What follows a freed entry is undefined.
      | _ => race

/-- A stored entry that survives the encoding: its lines fit and are read as they were meant. -/
structure Encodable (entry : DictEntry) : Prop where
  transferable : Transferable entry.key entry.val.ptr
  keyFits : entry.key.length < 4066

theorem Encodable.fitting {entry : DictEntry} (encodable : Encodable entry)
    (storable : Storable entry) : Fitting entry :=
  ⟨storable, encodable.transferable.fits, encodable.keyFits⟩

/-- Writes of other clients outside of a transaction, each fed as one line, and writes to the
    replica that its connection takes whole. -/
def Allowed (race : Race) : RaceStep → Prop
  | .handle _ sock buffer =>
      0 ≤ sock ∧ sock ≠ fd ∧ inTransaction sock race.server = false ∧
        isWriteCommand (commandName (cstr buffer)) = true ∧ (cstr buffer).length < 2 ^ 31
  | .feed index env => ∀ input, race.pending[index]? = some input →
      SingleLine (env.alloc .feedCopy) input ∧ Whole fd (fedEvents env input race.server)
  | .attach _ _ _ => True
  | .walk env => ∀ cursor, race.walk = .standing cursor → ∀ entry,
      (left race.server.db cursor).head? = some entry → Encodable entry ∧ Whole fd (syncEntry env fd entry)

/-- The key is still to be met by the walk. -/
def InFront (race : Race) (key : Bytes) : Prop :=
  ∃ cursor, race.walk = .standing cursor ∧
    Ahead (place race.server.db.mask) DictEntry.key race.server.db.table cursor key

def pendingEffects (race : Race) (key : Bytes) : List (Effect Bytes) :=
  race.pending.map fun input => keyEffect key (tokens input)

variable (replica : Server)

/-- What the steps must keep clear of. A handler meets no expired key, takes out no entry that the
    walk stands on, and does not grow the table so that the walk misses a key. A write is fed
    before another only if they commute. The replica holds no key at the start that the primary
    does not hold. A visited entry has not expired, and the writes on their way, run on the value
    that is sent, give that value. -/
def Steady (race : Race) : RaceStep → Prop
  | .handle env _ buffer =>
      meetsExpired env (tokens (cstr buffer)) (mapping race.server.db) = false ∧
        ∀ cursor, race.walk = .standing cursor →
          (∀ key, cursor.last = some key → key ∉ takenOut (tokens (cstr buffer))) ∧
            (stores (tokens (cstr buffer)) = true → ∀ key,
              Ahead (place race.server.db.mask) DictEntry.key race.server.db.table cursor key →
                Ahead (place (grown env.dict race.server.db).mask) DictEntry.key
                  (grown env.dict race.server.db).table cursor key)
  | .feed index _ => ∀ input, race.pending[index]? = some input →
      ∀ earlier ∈ race.pending.take index, ∀ key,
        (keyEffect key (tokens earlier)).Commutes (keyEffect key (tokens input))
  | .attach _ _ _ => ∀ key, stored (mapping race.server.db) key = none →
      stored (mapping replica.db) key = none
  | .walk env => ∀ cursor, race.walk = .standing cursor → ∀ entry,
      (left race.server.db cursor).head? = some entry →
        expired env.check entry.val.expire = false ∧
          runAll incremented (pendingEffects race entry.key) (some entry.val.ptr) = some entry.val.ptr

/-- No replica has the socket yet. -/
structure Begins (race : Race) : Prop where
  sound : Sound race.server.db
  isPrimary : race.server.repl.role = .primary
  fresh : fd ∉ fds race.server
  unfed : race.pending = []
  idle : race.walk = .idle
  unsent : race.stream = []

end Model

section Invariant

/-- A line that the replica runs as it was meant: a write, or no command. -/
structure Relayed (line : Bytes) : Prop where
  nonempty : line ≠ []
  whole : Undivided cr lf line
  free : 0 ∉ line
  short : line.length < 2 ^ 31
  write : ∀ row, acceptedRow (tokens line) = some row → row ∈ commands ∧ isWriteCommand row.name = true

/-- What the lines make of a key of the replica. -/
def received (replica : Server) (lines : List Bytes) (key : Bytes) : Option Bytes :=
  runAll incremented (lines.map fun line => keyEffect key (tokens line)) (stored (mapping replica.db) key)

variable (fd : Int) (replica : Server)

/-- The stream and the writes on their way account for every key that is not in front of the walk. -/
structure Accounted (race : Race) (lines : List Bytes) : Prop where
  stream : race.stream = lines.flatMap fun line => line ++ crlf
  relayed : ∀ line ∈ lines, Relayed line
  values : race.walk ≠ .idle → ∀ key, ¬ InFront race key →
    stored (mapping race.server.db) key =
      runAll incremented (pendingEffects race key) (received replica lines key)

structure Coherent (race : Race) : Prop where
  sound : Sound race.server.db
  isPrimary : race.server.repl.role = .primary
  writes : ∀ input ∈ race.pending, isWriteCommand (commandName input) = true
  covered : ∀ key, ∃ old, stored (mapping race.server.db) key =
    runAll incremented (pendingEffects race key) old
  held : ∀ cursor key, race.walk = .standing cursor → cursor.last = some key →
    stored (mapping race.server.db) key ≠ none
  steady : race.walk ≠ .dangling
  unlisted : race.walk = .idle → (fds race.server).count fd = 0 ∧ race.stream = []
  listed : race.walk ≠ .idle → (fds race.server).count fd = 1
  accounted : ∃ lines, Accounted replica race lines

theorem begins_coherent (race : Race) (begins : Begins fd race) : Coherent fd replica race := by
  have none : pendingEffects race = fun _ => [] := by
    funext key
    simp [pendingEffects, begins.unfed]
  constructor
  · exact begins.sound
  · exact begins.isPrimary
  · simp [begins.unfed]
  · intro key
    rw [none]
    exact ⟨_, rfl⟩
  · intro cursor key standing
    rw [begins.idle] at standing
    contradiction
  · rw [begins.idle]
    exact Walk.noConfusion
  · exact fun _ => ⟨List.count_eq_zero.mpr begins.fresh, begins.unsent⟩
  · exact fun started => absurd begins.idle started
  · refine ⟨[], ?_, by simp, fun started => absurd begins.idle started⟩
    simp [begins.unsent]

end Invariant

section Handle

variable (fd : Int) (replica : Server)

/-- A write leaves in front of the walk what was in front of it, if it does not take it out. -/
theorem changed_ahead (env : Env) (words : List Bytes) (effect : Bytes → Effect Bytes)
    (gone : List Bytes) (before after : Dict)
    (changed : Changed env (stores words) effect gone before after) (cursor : Cursor Bytes)
    (standing : ∀ last, cursor.last = some last → last ∉ gone)
    (roomy : stores words = true → ∀ key,
      Ahead (place before.mask) DictEntry.key before.table cursor key →
        Ahead (place (grown env.dict before).mask) DictEntry.key (grown env.dict before).table cursor key)
    (key : Bytes) (stays : key ∉ gone)
    (ahead : Ahead (place before.mask) DictEntry.key before.table cursor key) :
    Ahead (place after.mask) DictEntry.key after.table cursor key := by
  rcases changed.order with small | ⟨storing, large⟩
  · rw [small.mask]
    exact ahead_kept _ gone _ _ small.keeps cursor standing key stays ahead
  · rw [large.mask]
    exact ahead_kept _ [] _ _ large.keeps cursor (fun last _ => List.not_mem_nil) key List.not_mem_nil
      (roomy storing key ahead)

/-- A key that was there is there after an effect that does not clear it. -/
theorem effect_stays (effect : Effect Bytes) (kept : effect ≠ .clear) (old : Option Bytes)
    (there : old ≠ none) : effect.run incremented old ≠ none := by
  cases effect with
  | same => exact there
  | put value => exact Option.some_ne_none value
  | clear => exact absurd rfl kept
  | revised => exact Option.some_ne_none _

/-- The walk stands on what is there, so that nothing is freed under it. -/
theorem walk_kept (env : Env) (words : List Bytes) (before after : Mapping) (walk : Walk)
    (live : meetsExpired env words before = false)
    (there : ∀ cursor key, walk = .standing cursor → cursor.last = some key → stored after key ≠ none) :
    walkAfter env words before after walk = walk := by
  cases walk with
  | standing cursor =>
      have safe : cursor.last.any (frees env words before after) = false := by
        cases last : cursor.last with
        | none => rfl
        | some key =>
            have stays := there cursor key rfl last
            cases bound : after key with
            | none => simp [stored, bound] at stays
            | some binding => simp [frees, bound, live]
      simp [walkAfter, safe]
  | idle | dangling | ended => rfl

/-- The two outcomes of a handler in one: an effect on each key, which is what joins the writes on
    their way. -/
theorem handled_effect (env : Env) (sock : Int) (connected : 0 ≤ sock) (buffer : Bytes)
    (short : (cstr buffer).length < 2 ^ 31) (server : Server) (sound : Sound server.db)
    (isPrimary : server.repl.role = .primary) (outside : inTransaction sock server = false)
    (write : isWriteCommand (commandName (cstr buffer)) = true)
    (live : meetsExpired env (tokens (cstr buffer)) (mapping server.db) = false)
    (pending : List Bytes) :
    let outcome := handled env sock buffer server
    let after := if propagated sock (commandName (cstr buffer)) outcome then pending ++ [cstr buffer]
      else pending
    ∃ effect gone, Changed env (stores (tokens (cstr buffer))) effect gone server.db outcome.server.db ∧
      (∀ key, key ∈ gone ↔ effect key = .clear) ∧ (∀ key ∈ gone, key ∈ takenOut (tokens (cstr buffer))) ∧
      ∀ key old, runAll incremented (after.map fun input => keyEffect key (tokens input)) old =
        (effect key).run incremented
          (runAll incremented (pending.map fun input => keyEffect key (tokens input)) old) := by
  obtain ⟨-, ⟨fed, changed⟩ | ⟨unfed, changed⟩⟩ :=
    handled_write env sock connected buffer short server sound isPrimary outside write live
  · refine ⟨_, _, changed, taken_out_iff (tokens (cstr buffer)), fun key inside => inside, ?_⟩
    intro key old
    rw [fed, if_pos rfl, List.map_append, List.map_singleton, run_all_snoc]
  · refine ⟨_, _, changed, by simp, by simp, ?_⟩
    intro key old
    rw [unfed]
    rfl

theorem handle_coherent (race : Race) (coherent : Coherent fd replica race) (env : Env) (sock : Int)
    (buffer : Bytes) (allowed : Allowed fd race (.handle env sock buffer))
    (steady : Steady replica race (.handle env sock buffer)) :
    Coherent fd replica (nextRace fd race (.handle env sock buffer)) := by
  rcases allowed with ⟨connected, apart, outside, write, short⟩
  rcases steady with ⟨live, clear⟩
  obtain ⟨answered, -⟩ := handled_write env sock connected buffer short race.server coherent.sound
    coherent.isPrimary outside write live
  obtain ⟨effect, gone, changed, cleared, sub, pendings⟩ := handled_effect env sock connected buffer
    short race.server coherent.sound coherent.isPrimary outside write live race.pending
  have quiet := answered.quiet fd (Ne.symm apart)
  have frame := answered.frame
  have sound := answered.sound
  have there (cursor : Cursor Bytes) (key : Bytes) (standing : race.walk = .standing cursor)
      (last : cursor.last = some key) :
      stored (mapping (handled env sock buffer race.server).server.db) key ≠ none := by
    rw [changed.values key]
    apply effect_stays
    · intro clears
      exact (clear cursor standing).1 key last (sub key ((cleared key).mpr clears))
    · exact coherent.held cursor key standing last
  have walk := walk_kept env (tokens (cstr buffer)) (mapping race.server.db)
    (mapping (handled env sock buffer race.server).server.db) race.walk live there
  have front (key : Bytes) (stays : key ∉ gone) (front : InFront race key) :
      InFront (nextRace fd race (.handle env sock buffer)) key := by
    rcases front with ⟨cursor, standing, ahead⟩
    refine ⟨cursor, ?_, ?_⟩
    · simpa only [nextRace, walk] using standing
    · exact changed_ahead env (tokens (cstr buffer)) effect gone race.server.db _ changed cursor
        (fun last same inside => (clear cursor standing).1 last same (sub last inside))
        (clear cursor standing).2 key stays ahead
  simp only [nextRace, walk, quiet, List.append_nil] at front ⊢
  generalize handled env sock buffer race.server = outcome at *
  generalize same : (if propagated sock (commandName (cstr buffer)) outcome then
    race.pending ++ [cstr buffer] else race.pending) = pending at *
  constructor
  · exact sound
  · rw [frame]
    exact coherent.isPrimary
  · intro input member
    rw [← same] at member
    split at member
    · rcases List.mem_append.mp member with old | new
      · exact coherent.writes input old
      · rw [List.mem_singleton.mp new]
        exact write
    · exact coherent.writes input member
  · intro key
    obtain ⟨old, whole⟩ := coherent.covered key
    refine ⟨old, ?_⟩
    rw [changed.values key, whole]
    exact (pendings key old).symm
  · exact there
  · exact coherent.steady
  · intro idle
    rw [frame]
    exact coherent.unlisted idle
  · intro started
    rw [frame]
    exact coherent.listed started
  · obtain ⟨lines, stream, relayed, values⟩ := coherent.accounted
    refine ⟨lines, stream, relayed, ?_⟩
    intro started key behind
    rw [changed.values key]
    refine Eq.trans ?_ (pendings key _).symm
    by_cases inside : key ∈ gone
    · rw [(cleared key).mp inside]
      rfl
    · rw [values started key fun front' => behind (front key inside front')]
      rfl

end Handle

section Feed

variable (fd : Int) (replica : Server)

/-- The line that a write is fed as does what the write does. -/
theorem fed_line (malloc : Bool) (input : Bytes) (write : isWriteCommand (commandName input) = true)
    (single : SingleLine malloc input) :
    ∃ line, framed malloc input = line ++ crlf ∧ Relayed line ∧ tokens line = tokens input := by
  obtain ⟨free, line, framing, nonempty, whole, short⟩ := single
  have words : tokens line = tokens input := by
    have ended := framed_tokens malloc input
    rw [framing] at ended
    rw [← ended]
    simpa using (tokens_surrounded [] line crlf (by simp) crlf_blank).symm
  have clean := framed_free malloc input free
  rw [framing, List.mem_append, not_or] at clean
  refine ⟨line, framing, ?_, words⟩
  constructor
  · exact nonempty
  · exact whole
  · exact clean.1
  · exact short
  · intro row accepted
    rw [words] at accepted
    exact accepted_write (tokens input) row accepted write

theorem fed_primary (env : Env) (input : Bytes) (server : Server)
    (isPrimary : server.repl.role = .primary) :
    (fedServer env input server).repl.role = .primary := by
  simp only [fedServer, replicationFeedSlaves, isPrimary, ↓reduceIte]

/-- More lines, and what they do to a key. -/
theorem received_append (lines more : List Bytes) (key : Bytes) :
    received replica (lines ++ more) key =
      runAll incremented (more.map fun line => keyEffect key (tokens line)) (received replica lines key) := by
  simp only [received, List.map_append, run_all_append]

theorem feed_coherent (race : Race) (coherent : Coherent fd replica race) (index : Nat) (env : Env)
    (allowed : Allowed fd race (.feed index env)) (steady : Steady replica race (.feed index env)) :
    Coherent fd replica (nextRace fd race (.feed index env)) := by
  cases chosen : race.pending[index]? with
  | none =>
      simp only [nextRace, chosen]
      exact coherent
  | some input =>
      obtain ⟨single, whole⟩ := allowed input chosen
      have commutes := steady input chosen
      obtain ⟨bound, here⟩ := List.getElem?_eq_some_iff.mp chosen
      have split : race.pending = race.pending.take index ++ input :: race.pending.drop (index + 1) := by
        rw [← here, List.getElem_cons_drop, List.take_append_drop]
      have member : input ∈ race.pending := List.mem_of_getElem? chosen
      obtain ⟨line, framing, relayed, words⟩ := fed_line _ input (coherent.writes input member) single
      obtain ⟨sent, listed⟩ := fed_once_each env input race.server coherent.isPrimary fd whole
      -- The effects that are left, run behind that of the write that is fed.
      have advance (key : Bytes) (old : Option Bytes) :
          runAll incremented (pendingEffects race key) old =
            runAll incremented ((race.pending.eraseIdx index).map fun input => keyEffect key (tokens input))
              ((keyEffect key (tokens input)).run incremented old) := by
        simp only [pendingEffects]
        rw [List.eraseIdx_eq_take_drop_succ, List.map_append]
        conv => lhs; rw [split, List.map_append, List.map_cons]
        apply run_all_advance
        intro other inside
        obtain ⟨earlier, before, rfl⟩ := List.mem_map.mp inside
        exact commutes earlier before key
      simp only [nextRace, chosen]
      constructor
      · exact coherent.sound
      · exact fed_primary env input race.server coherent.isPrimary
      · intro other left
        exact coherent.writes other ((List.eraseIdx_sublist race.pending index).subset left)
      · intro key
        obtain ⟨old, whole⟩ := coherent.covered key
        refine ⟨_, whole.trans (advance key old)⟩
      · exact coherent.held
      · exact coherent.steady
      · intro idle
        obtain ⟨absent, silent⟩ := coherent.unlisted idle
        rw [listed, sent, absent, silent]
        exact ⟨rfl, rfl⟩
      · intro started
        rw [listed]
        exact coherent.listed started
      · obtain ⟨lines, stream, each, values⟩ := coherent.accounted
        by_cases idle : race.walk = .idle
        · refine ⟨lines, ?_, each, fun started => absurd idle started⟩
          rw [sent, (coherent.unlisted idle).1, List.replicate_zero, List.flatten_nil, List.append_nil]
          exact stream
        · refine ⟨lines ++ [line], ?_, ?_, ?_⟩
          · rw [sent, coherent.listed idle, stream, List.flatMap_append, framing]
            simp
          · intro other inside
            rcases List.mem_append.mp inside with old | new
            · exact each other old
            · rw [List.mem_singleton.mp new]
              exact relayed
          · intro started key behind
            rw [received_append, List.map_singleton, words]
            exact (values started key behind).trans (advance key _)

end Feed

section Sync

variable (fd : Int) (replica : Server)

/-- At the start of the walk what is stored is in front of it. -/
theorem start_in_front (db : Dict) (key : Bytes) (there : stored (mapping db) key ≠ none) :
    Ahead (place db.mask) DictEntry.key db.table ⟨0, none⟩ key := by
  cases found : lookup DictEntry.key key db.table.flatten with
  | none => simp [stored, mapping, found] at there
  | some entry =>
      rw [← lookup_key DictEntry.key key db.table.flatten entry found]
      exact ahead_start (place db.mask) DictEntry.key db.table entry
        (lookup_mem DictEntry.key key db.table.flatten entry found)

theorem attach_coherent (race : Race) (coherent : Coherent fd replica race) (ip : Bytes) (port : Int)
    (now : Nat) (steady : Steady replica race (.attach ip port now)) :
    Coherent fd replica (nextRace fd race (.attach ip port now)) := by
  cases walk : race.walk with
  | idle =>
      obtain ⟨unlisted, silent⟩ := coherent.unlisted walk
      simp only [nextRace, walk]
      constructor
      · exact coherent.sound
      · exact coherent.isPrimary
      · exact coherent.writes
      · exact coherent.covered
      · intro cursor key standing last
        cases standing
        contradiction
      · exact Walk.noConfusion
      · exact Walk.noConfusion
      · intro started
        simp only [fds, List.map_cons, List.count_cons_self] at unlisted ⊢
        omega
      · refine ⟨[], silent, by simp, ?_⟩
        intro started key behind
        -- A key that is not in front is not stored, and the writes on their way make it so.
        have absent : stored (mapping race.server.db) key = none := by
          by_contra there
          exact behind ⟨_, rfl, start_in_front race.server.db key there⟩
        obtain ⟨old, whole⟩ := coherent.covered key
        rw [absent] at whole
        have fresh : received replica [] key = none := steady key absent
        rw [absent, fresh]
        exact (run_all_absent incremented _ old whole.symm).symm
  | standing cursor =>
      simp only [nextRace, walk]
      exact coherent
  | dangling =>
      simp only [nextRace, walk]
      exact coherent
  | ended =>
      simp only [nextRace, walk]
      exact coherent

theorem set_effect (key value other : Bytes) :
    keyEffect other [ascii "SET", key, value] = if other = key then .put value else .same := by
  have found := row_of_name _ set_row
  have name : (ascii "SET").map tolower = ascii "set" := by decide
  have arity : wrongArity ⟨.set, ascii "set", 3, -1⟩ 3 = false := by decide
  simp only [keyEffect, acceptedRow, lower, arg, List.getD_cons_zero, name, found, Option.filter_some,
    List.length_cons, List.length_nil, arity]
  simp [valueEffect, arg]

theorem line_writes (args : List Bytes) :
    isWriteCommand (arg (lower (ascii "SET" :: args)) 0) = true ∧
      isWriteCommand (arg (lower (ascii "EXPIRE" :: args)) 0) = true := by
  simp only [lower, arg, List.getD_cons_zero]
  decide

theorem expire_effect (args : List Bytes) (key : Bytes) :
    keyEffect key (ascii "EXPIRE" :: args) = .same := by
  have found := row_of_name _ expire_row
  have name : (ascii "EXPIRE").map tolower = ascii "expire" := by decide
  simp only [keyEffect, acceptedRow, lower, arg, List.getD_cons_zero, name, found, Option.filter_some]
  split <;> rfl

/-- The lines of an entry that is sent, seen from the keys. -/
theorem entry_line_effects (env : SyncEnv) (entry : DictEntry) (encodable : Encodable entry)
    (alive : expired env.check entry.val.expire = false) (key : Bytes) (old : Option Bytes) :
    runAll incremented ((entryLines env entry).map fun line => keyEffect key (tokens line)) old =
      if key = entry.key then some entry.val.ptr else old := by
  have words := tokens_body entry.key entry.val.ptr encodable.transferable.bareKey
    encodable.transferable.written
  have deadline : ∀ after, runAll incremented
      ((if secondsLeft env entry > 0 then [expireBody entry.key (secondsLeft env entry)] else []).map
        fun line => keyEffect key (tokens line)) after = after := by
    intro after
    split
    · rw [List.map_singleton, scan_expire, expire_effect]
      rfl
    · rfl
  simp only [entryLines, alive, Bool.false_eq_true, ↓reduceIte, List.map_cons, run_all_cons, deadline,
    words, set_effect]
  split <;> rfl

theorem entry_lines_relayed (env : SyncEnv) (entry : DictEntry) (storable : Storable entry)
    (encodable : Encodable entry) : ∀ line ∈ entryLines env entry, Relayed line := by
  have transferable := encodable.transferable
  have fits := transferable.fits
  have long := (encodable.fitting storable).expire_fits env
  rw [set_line_body, List.length_append] at fits
  rw [expire_line_body, List.length_append] at long
  intro line member
  simp only [entryLines] at member
  split at member
  · contradiction
  · rcases List.mem_cons.mp member with rfl | expire
    · constructor
      · simp [setBody, ascii]
      · exact body_undivided _ _ transferable.bareKey transferable.cleanValue
      · exact set_body_free _ _ storable.key storable.ptr
      · omega
      · intro row accepted
        rw [tokens_body _ _ transferable.bareKey transferable.written] at accepted
        exact accepted_write _ row accepted (line_writes _).1
    · split at expire
      case isTrue left =>
        obtain rfl := List.mem_singleton.mp expire
        have apart := expire_sync_line entry.key storable.key (bare_free _ transferable.bareKey)
          (secondsLeft env entry)
        constructor
        · simp [expireBody, ascii]
        · exact Undivided.of_free cr lf apart.whole
        · exact apart.free
        · omega
        · intro row accepted
          rw [scan_expire] at accepted
          exact accepted_write _ row accepted (line_writes _).2
      case isFalse => contradiction

/-- A round of the sync leaves the server and the writes on their way. -/
theorem round_coherent (race : Race) (coherent : Coherent fd replica race)
    (started : race.walk ≠ .idle) (walk : Walk) (bytes : Bytes)
    (onward : walk ≠ .idle ∧ walk ≠ .dangling)
    (held : ∀ cursor key, walk = .standing cursor → cursor.last = some key →
      stored (mapping race.server.db) key ≠ none)
    (accounted : ∃ lines,
      Accounted replica { race with walk := walk, stream := race.stream ++ bytes } lines) :
    Coherent fd replica { race with walk := walk, stream := race.stream ++ bytes } := by
  constructor
  · exact coherent.sound
  · exact coherent.isPrimary
  · exact coherent.writes
  · exact coherent.covered
  · exact held
  · exact onward.2
  · exact fun idle => absurd idle onward.1
  · exact fun _ => coherent.listed started
  · exact accounted

/-- A visit sends the value that is there, on which the writes on their way leave it. -/
theorem visit_coherent (race : Race) (coherent : Coherent fd replica race) (env : SyncEnv)
    (cursor : Cursor Bytes) (walk : race.walk = .standing cursor) (entry : DictEntry)
    (more : List DictEntry) (shape : left race.server.db cursor = entry :: more)
    (encodable : Encodable entry) (whole : Whole fd (syncEntry env fd entry))
    (alive : expired env.check entry.val.expire = false)
    (replayed : runAll incremented (pendingEffects race entry.key) (some entry.val.ptr) =
      some entry.val.ptr) :
    Coherent fd replica { race with
      walk := .standing ⟨cursor.bucket, some entry.key⟩
      stream := race.stream ++ sentTo fd (syncEntry env fd entry) } := by
  obtain ⟨lines, stream, relayed, values⟩ := coherent.accounted
  have started : race.walk ≠ .idle := by simp [walk]
  have member : entry ∈ race.server.db.table.flatten := by
    apply rest_stored (place race.server.db.mask) DictEntry.key race.server.db.table cursor
    rw [left] at shape
    simp [shape]
  have storable := coherent.sound.storable entry member
  have fitting := encodable.fitting storable
  have there : stored (mapping race.server.db) entry.key = some entry.val.ptr := by
    have bound := (mapping_mem race.server.db coherent.sound.rep entry.key (binding entry)).mpr
      ⟨entry, member, rfl, rfl⟩
    rw [stored, bound]
    rfl
  apply round_coherent fd replica race coherent started _ _ ⟨Walk.noConfusion, Walk.noConfusion⟩
  · intro next key standing last
    cases standing
    cases last
    rw [there]
    exact Option.some_ne_none _
  · refine ⟨lines ++ entryLines env entry, ?_, ?_, ?_⟩
    · rw [entry_sent env fd entry fitting whole, stream, List.flatMap_append]
    · intro line inside
      rcases List.mem_append.mp inside with old | new
      · exact relayed line old
      · exact entry_lines_relayed env entry storable encodable line new
    · intro _ key behind
      rw [received_append, entry_line_effects env entry encodable alive key]
      by_cases same : key = entry.key
      · rw [if_pos same, same, there]
        exact replayed.symm
      · rw [if_neg same]
        apply values started key
        rintro ⟨before, standing, ahead⟩
        rw [walk] at standing
        cases standing
        rcases ahead_visit coherent.sound.rep.valid cursor entry more shape key ahead with here | further
        · exact same here
        · exact behind ⟨_, rfl, further⟩

theorem ok_sent : sentTo fd [.reply fd (.string (ascii "OK"))] = ascii "+OK" ++ crlf := by
  simp only [sentTo, List.flatMap_cons, List.flatMap_nil, List.append_nil, Event.sent, ↓reduceIte]
  decide

theorem ok_relayed : Relayed (ascii "+OK") ∧ ∀ key, keyEffect key (tokens (ascii "+OK")) = .same := by
  have unknown : acceptedRow (tokens (ascii "+OK")) = none := by decide
  constructor
  · constructor
    · decide
    · exact Undivided.of_free cr lf (by decide)
    · decide
    · decide
    · intro row accepted
      rw [unknown] at accepted
      contradiction
  · intro key
    rw [keyEffect, unknown]
    rfl

theorem walk_coherent (race : Race) (coherent : Coherent fd replica race) (env : SyncEnv)
    (allowed : Allowed fd race (.walk env)) (steady : Steady replica race (.walk env)) :
    Coherent fd replica (nextRace fd race (.walk env)) := by
  cases walk : race.walk with
  | standing cursor =>
      have started : race.walk ≠ .idle := by simp [walk]
      simp only [nextRace, walk, syncRound]
      cases shape : left race.server.db cursor with
      | cons entry more =>
          obtain ⟨encodable, whole⟩ := allowed cursor walk entry (by rw [shape]; rfl)
          obtain ⟨alive, replayed⟩ := steady cursor walk entry (by rw [shape]; rfl)
          exact visit_coherent fd replica race coherent env cursor walk entry more shape encodable whole
            alive replayed
      | nil =>
          obtain ⟨lines, stream, relayed, values⟩ := coherent.accounted
          by_cases further : cursor.bucket + 1 < race.server.db.size
          · simp only [further, ↓reduceIte]
            apply round_coherent fd replica race coherent started _ _ ⟨Walk.noConfusion, Walk.noConfusion⟩
            · intro next key standing last
              cases standing
              contradiction
            · refine ⟨lines, ?_, relayed, ?_⟩
              · simpa [sentTo] using stream
              · intro _ key behind
                apply values started key
                rintro ⟨before, standing, ahead⟩
                rw [walk] at standing
                cases standing
                exact behind ⟨_, rfl, ahead_move _ _ _ cursor shape key ahead⟩
          · simp only [further, ↓reduceIte]
            apply round_coherent fd replica race coherent started _ _ ⟨Walk.noConfusion, Walk.noConfusion⟩
            · intro next key standing
              contradiction
            · refine ⟨lines ++ [ascii "+OK"], ?_, ?_, ?_⟩
              · rw [stream, ok_sent, List.flatMap_append]
                rfl
              · intro line inside
                rcases List.mem_append.mp inside with old | new
                · exact relayed line old
                · rw [List.mem_singleton.mp new]
                  exact ok_relayed.1
              · intro _ key _
                rw [received_append, List.map_singleton, ok_relayed.2]
                apply values started key
                rintro ⟨before, standing, ahead⟩
                rw [walk] at standing
                cases standing
                have length := coherent.sound.rep.length
                exact ahead_over _ _ _ cursor shape (by omega) key ahead
  | idle =>
      simp only [nextRace, walk]
      exact coherent
  | dangling =>
      simp only [nextRace, walk]
      exact coherent
  | ended =>
      simp only [nextRace, walk]
      exact coherent

end Sync

section Step

variable (fd : Int) (replica : Server)

theorem next_coherent (race : Race) (step : RaceStep) (coherent : Coherent fd replica race)
    (taken : Allowed fd race step ∧ Steady replica race step) :
    Coherent fd replica (nextRace fd race step) := by
  cases step with
  | handle env sock buffer => exact handle_coherent fd replica race coherent env sock buffer taken.1 taken.2
  | feed index env => exact feed_coherent fd replica race coherent index env taken.1 taken.2
  | attach ip port now => exact attach_coherent fd replica race coherent ip port now taken.2
  | walk env => exact walk_coherent fd replica race coherent env taken.1 taken.2

end Step

end CrimsonCache.SyncRaces
