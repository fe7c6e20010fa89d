import CrimsonCache.LiveContents
import CrimsonCache.SnapshotCommit

/-!
Two databases that differ in entries whose deadline has passed. Every lookup
treats those as absent, and so does a save; DEL counts them, and a SET that meets
one needs no memory for a new entry. The handlers answer alike while neither
happens.
-/

namespace CrimsonCache.AlikeDatabases

open CString ChainedTable Dictionary DeadlineMap Persistence Replies ServerState DataCommands
  StoredData Commands WriteEffects LiveContents

/-- A key that is stored behind its deadline. -/
def stale (now : Nat) (m : Mapping) (key : Bytes) : Bool :=
  (m key).any fun binding => expired now binding.2

/-- DEL names no stale key, and a SET that names one has the memory for a new entry. -/
def Meets (env : Env) (argv : List Bytes) (m : Mapping) : Command → Prop
  | .del => ∀ key ∈ argv.tail, stale (env.clock 0) m key = false
  | .set => (env.dict.entry && env.dict.key) = true ∨ stale (env.clock 0) m (arg argv 1) = false
  | _ => True

/-- The databases show the same to whoever reads them from now on. -/
structure Alike (now : Nat) (db other : Dict) : Prop where
  sound : Sound db
  soundOther : Sound other
  live : liveMapping now db = liveMapping now other

section Lookups

variable {now : Nat} {db other : Dict} (alike : Alike now db other)

include alike

theorem Alike.later {then_ : Nat} (passed : now ≤ then_) : Alike then_ db other := by
  refine ⟨alike.sound, alike.soundOther, ?_⟩
  have same := congrArg (sweep (expired then_)) alike.live
  simpa only [liveMapping, sweep_passed now then_ passed] using same

theorem Alike.fetch {clock : Nat} (passed : now ≤ clock) (key : Bytes) :
    DeadlineMap.fetch (expired clock) (mapping db) key =
      DeadlineMap.fetch (expired clock) (mapping other) key := by
  have lasting := fun deadline => expired_later now clock deadline passed
  rw [← fetch_sweep (expired now) (expired clock) (mapping db) key lasting,
    ← fetch_sweep (expired now) (expired clock) (mapping other) key lasting]
  exact congrArg (fun m => DeadlineMap.fetch (expired clock) m key) alike.live

/-- A lookup finds the same on both sides and leaves the same live. -/
theorem Alike.get {clock : Nat} (passed : now ≤ clock) (key : Bytes) :
    (dictGet clock db key).2.map (fun obj => (obj.ptr, obj.expire)) =
        (dictGet clock other key).2.map (fun obj => (obj.ptr, obj.expire)) ∧
      Alike now (dictGet clock db key).1 (dictGet clock other key).1 := by
  obtain ⟨left, found⟩ := mapping_get clock db alike.sound.rep key
  obtain ⟨right, foundOther⟩ := mapping_get clock other alike.soundOther.rep key
  constructor
  · rw [found, foundOther]
    exact alike.fetch passed key
  · refine ⟨get_sound clock db alike.sound key, get_sound clock other alike.soundOther key, ?_⟩
    have lasting := fun deadline => expired_later now clock deadline passed
    rw [liveMapping, left, sweep_settle_comm _ _ _ _ lasting, liveMapping, right,
      sweep_settle_comm _ _ _ _ lasting]
    exact congrArg (fun m => settle (expired clock) m key) alike.live

theorem Alike.absent {clock : Nat} (passed : now ≤ clock) (key : Bytes)
    (fresh : stale clock (mapping db) key = false) (freshOther : stale clock (mapping other) key = false) :
    (mapping db key).isSome = (mapping other key).isSome := by
  have stays (m : Mapping) (fresh : stale clock m key = false) :
      DeadlineMap.fetch (expired clock) m key = m key := by
    cases bound : m key with
    | none => simp [DeadlineMap.fetch, bound]
    | some binding =>
        have alive : expired clock binding.2 = false := by simpa [stale, bound] using fresh
        simp [DeadlineMap.fetch, bound, Option.filter, alive]
  have same := alike.fetch passed key
  rw [stays _ fresh, stays _ freshOther] at same
  rw [same]

end Lookups

section Handlers

variable (now : Nat)

structure AnswersAlike (answer other : Answer) : Prop where
  reply : answer.reply = other.reply
  result : answer.result = other.result
  dbs : Alike now answer.db other.db

theorem store_string_alike (env : Env) (reading : Nat) (db other : Dict) (alike : Alike now db other)
    (key value : Bytes) (plainKey : Plain key) (plainValue : Plain value) (expire : Nat)
    (bound : expire < 2 ^ 64) (reply : Reply)
    (stored : (env.dict.entry && env.dict.key) = true ∨
      (mapping db key).isSome = (mapping other key).isSome) :
    AnswersAlike now (storeString env reading db key value expire reply)
      (storeString env reading other key value expire reply) := by
  have soundDb := store_string_sound env reading db alike.sound key value expire reply plainKey
    plainValue bound
  have soundOther := store_string_sound env reading other alike.soundOther key value expire reply
    plainKey plainValue bound
  have left := add_result env.dict (env.clock (reading + 1)) db alike.sound.rep key
    ⟨value, .string, expire, value.length + 1, env.clock reading⟩
  have right := add_result env.dict (env.clock (reading + 1)) other alike.soundOther.rep key
    ⟨value, .string, expire, value.length + 1, env.clock reading⟩
  have both : (dictAdd env.dict (env.clock (reading + 1)) db key
        ⟨value, .string, expire, value.length + 1, env.clock reading⟩).2 =
      (dictAdd env.dict (env.clock (reading + 1)) other key
        ⟨value, .string, expire, value.length + 1, env.clock reading⟩).2 := by
    rw [left, right]
    rcases stored with allocated | same
    · simp [allocated]
    · rw [same]
  have answers : (storeString env reading db key value expire reply).reply =
        (storeString env reading other key value expire reply).reply ∧
      (storeString env reading db key value expire reply).result =
        (storeString env reading other key value expire reply).result := by
    simp only [storeString, both]
    split
    · split <;> exact ⟨rfl, rfl⟩
    · exact ⟨rfl, rfl⟩
  refine ⟨answers.1, answers.2, soundDb, soundOther, ?_⟩
  by_cases ok : (storeString env reading db key value expire reply).result = .ok
  · have okOther := answers.2.symm.trans ok
    rw [liveMapping, store_string_mapping env db alike.sound _ _ _ _ _ ok, liveMapping,
      store_string_mapping env other alike.soundOther _ _ _ _ _ okOther]
    exact sweep_put _ _ _ alike.live key value expire
  · have failed := fun wrong => ok (answers.2.trans wrong)
    rw [liveMapping, store_string_failed env db alike.sound.rep _ _ _ _ _ ok, liveMapping,
      store_string_failed env other alike.soundOther.rep _ _ _ _ _ failed]
    exact alike.live

theorem stale_drop (clock : Nat) (m : Mapping) (key other : Bytes) (fresh : stale clock m other = false) :
    stale clock (drop m key) other = false := by
  by_cases same : other = key
  · simp [stale, drop, same]
  · simpa [stale, drop, same] using fresh

theorem delete_alike (db other : Dict) (alike : Alike now db other) (key : Bytes) :
    Alike now (dictDelete db key).1 (dictDelete other key).1 := by
  refine ⟨delete_sound db alike.sound key, delete_sound other alike.soundOther key, ?_⟩
  rw [liveMapping, (mapping_delete db alike.sound.rep key).1, sweep_drop, liveMapping,
    (mapping_delete other alike.soundOther.rep key).1, sweep_drop]
  exact congrArg (fun m => drop m key) alike.live

/-- DEL drops the same, and counts the same unless it meets a stale key. -/
theorem delete_keys_alike (clock : Nat) (passed : now ≤ clock) (keys : List Bytes) (db other : Dict)
    (alike : Alike now db other)
    (fresh : ∀ key ∈ keys, stale clock (mapping db) key = false)
    (freshOther : ∀ key ∈ keys, stale clock (mapping other) key = false) :
    (deleteKeys keys db).2 = (deleteKeys keys other).2 ∧
      Alike now (deleteKeys keys db).1 (deleteKeys keys other).1 := by
  induction keys generalizing db other with
  | nil => exact ⟨rfl, alike⟩
  | cons key rest ih =>
      rw [List.forall_mem_cons] at fresh freshOther
      obtain ⟨left, deleted⟩ := mapping_delete db alike.sound.rep key
      obtain ⟨right, deletedOther⟩ := mapping_delete other alike.soundOther.rep key
      have both := alike.absent passed key fresh.1 freshOther.1
      obtain ⟨counts, after⟩ := ih _ _ (delete_alike now db other alike key)
        (fun later member => left ▸ stale_drop clock _ key later (fresh.2 later member))
        (fun later member => right ▸ stale_drop clock _ key later (freshOther.2 later member))
      simp only [deleteKeys, deleted, deletedOther, both, counts]
      exact ⟨trivial, after⟩

theorem exists_keys_alike (clock : Nat → Nat) (passed : ∀ index, now ≤ clock index)
    (keys : List Bytes) (db other : Dict) (alike : Alike now db other) :
    (existsKeys clock keys db).2 = (existsKeys clock keys other).2 ∧
      Alike now (existsKeys clock keys db).1 (existsKeys clock keys other).1 := by
  induction keys generalizing clock db other with
  | nil => exact ⟨rfl, alike⟩
  | cons key rest ih =>
      obtain ⟨found, after⟩ := alike.get (passed 0) key
      have seen := congrArg Option.isSome found
      simp only [Option.isSome_map] at seen
      obtain ⟨counts, last⟩ := ih (fun index => clock (index + 1)) (fun index => passed (index + 1)) _ _
        after
      simp only [existsKeys, seen, counts]
      exact ⟨trivial, last⟩

theorem get_string (clock : Nat) (db : Dict) (sound : Sound db) (key : Bytes) (obj : CcObj)
    (found : (dictGet clock db key).2 = some obj) : obj.type = .string := by
  obtain ⟨entry, stored, -, rfl⟩ := get_found clock db sound key obj found
  exact (sound.storable entry stored).type

theorem get_command_alike (env : Env) (passed : ∀ index, now ≤ env.clock index) (argv : List Bytes)
    (db other : Dict) (alike : Alike now db other) :
    AnswersAlike now (getCommand env argv db) (getCommand env argv other) := by
  obtain ⟨found, after⟩ := alike.get (passed 0) (arg argv 1)
  simp only [getCommand]
  cases left : (dictGet (env.clock 0) db (arg argv 1)).2 with
  | none =>
      rw [left, Option.map_none, eq_comm, Option.map_eq_none_iff] at found
      rw [found]
      exact ⟨rfl, rfl, after⟩
  | some obj =>
      rw [left, Option.map_some, eq_comm, Option.map_eq_some_iff] at found
      obtain ⟨objOther, right, same⟩ := found
      have text := congrArg Prod.fst same
      have string := get_string _ db alike.sound _ obj left
      have stringOther := get_string _ other alike.soundOther _ objOther right
      simp only at text
      rw [right]
      simp only [string, stringOther, ↓reduceIte, text]
      exact ⟨rfl, rfl, after⟩

theorem ttl_alike (env : Env) (passed : ∀ index, now ≤ env.clock index) (argv : List Bytes)
    (db other : Dict) (alike : Alike now db other) :
    AnswersAlike now (ttlCommand env argv db) (ttlCommand env argv other) := by
  obtain ⟨found, after⟩ := alike.get (passed 0) (arg argv 1)
  simp only [ttlCommand]
  rcases left : dictGet (env.clock 0) db (arg argv 1) with ⟨first, obj⟩
  rcases right : dictGet (env.clock 0) other (arg argv 1) with ⟨second, objOther⟩
  rw [left, right] at found after
  cases obj with
  | none =>
      rw [Option.map_none, eq_comm, Option.map_eq_none_iff] at found
      subst found
      exact ⟨rfl, rfl, after⟩
  | some obj =>
      rw [Option.map_some, eq_comm, Option.map_eq_some_iff] at found
      obtain ⟨objOther, rfl, same⟩ := found
      have deadline := congrArg Prod.snd same
      simp only at deadline
      simp only [deadline]
      split
      · exact ⟨rfl, rfl, after⟩
      · split <;> exact ⟨rfl, rfl, after⟩

theorem expire_alike (env : Env) (passed : ∀ index, now ≤ env.clock index) (argv : List Bytes)
    (db other : Dict) (alike : Alike now db other) :
    AnswersAlike now (expireCommand env argv db) (expireCommand env argv other) := by
  have found := congrArg Option.isSome (alike.get (passed 0) (arg argv 1)).1
  have lasting := fun deadline => expired_later now (env.clock 0) deadline (passed 0)
  have live : liveMapping now (expireCommand env argv db).db =
      liveMapping now (expireCommand env argv other).db := by
    rw [liveMapping, expire_mapping env argv db alike.sound, liveMapping,
      expire_mapping env argv other alike.soundOther]
    simp only [expireMap, alike.fetch (passed 0) (arg argv 1)]
    split
    · rw [sweep_settle_comm _ _ _ _ lasting, sweep_settle_comm _ _ _ _ lasting]
      exact congrArg (fun m => settle (expired (env.clock 0)) m (arg argv 1)) alike.live
    · exact sweep_put _ _ _ alike.live _ _ _
  have answers : (expireCommand env argv db).reply = (expireCommand env argv other).reply ∧
      (expireCommand env argv db).result = (expireCommand env argv other).result := by
    simp only [Option.isSome_map] at found
    simp only [expireCommand]
    rcases left : dictGet (env.clock 0) db (arg argv 1) with ⟨first, obj⟩
    rcases right : dictGet (env.clock 0) other (arg argv 1) with ⟨second, objOther⟩
    rw [left, right] at found
    cases obj with
    | none =>
        obtain rfl : objOther = none := by simpa using found.symm
        exact ⟨rfl, rfl⟩
    | some obj =>
        obtain ⟨objOther, rfl⟩ := Option.isSome_iff_exists.mp (found.symm.trans rfl)
        exact ⟨rfl, rfl⟩
  exact ⟨answers.1, answers.2, expire_sound env argv db alike.sound,
    expire_sound env argv other alike.soundOther, live⟩

/-- Behind a lookup a key is stored exactly if the lookup found it. -/
theorem got_stored (clock : Nat) (db : Dict) (sound : Sound db) (key : Bytes) :
    (mapping (dictGet clock db key).1 key).isSome = (dictGet clock db key).2.isSome := by
  obtain ⟨contents, found⟩ := mapping_get clock db sound.rep key
  have seen := congrArg Option.isSome found
  rw [Option.isSome_map] at seen
  rw [contents, seen]
  cases live : fetch (expired clock) (mapping db) key with
  | none => rw [settle_dead _ _ _ live]
  | some binding =>
      obtain ⟨stays, bound⟩ := settle_live _ _ _ _ live
      rw [stays, bound]

theorem incr_alike (env : Env) (passed : ∀ index, now ≤ env.clock index) (argv : List Bytes)
    (plain : ∀ token ∈ argv, Plain token) (db other : Dict) (alike : Alike now db other) :
    AnswersAlike now (incrCommand env argv db) (incrCommand env argv other) := by
  obtain ⟨found, after⟩ := alike.get (passed 0) (arg argv 1)
  have start : incrValue (dictGet (env.clock 0) db (arg argv 1)).2 =
      incrValue (dictGet (env.clock 0) other (arg argv 1)).2 := by
    rw [incr_value env argv db alike.sound, incr_value env argv other alike.soundOther,
      alike.fetch (passed 0)]
  cases value : incrValue (dictGet (env.clock 0) other (arg argv 1)).2 with
  | none =>
      simp only [incrCommand, start, value]
      exact ⟨rfl, rfl, after⟩
  | some number =>
      have stored : (mapping (dictGet (env.clock 0) db (arg argv 1)).1 (arg argv 1)).isSome =
          (mapping (dictGet (env.clock 0) other (arg argv 1)).1 (arg argv 1)).isSome := by
        have seen := congrArg Option.isSome found
        simp only [Option.isSome_map] at seen
        rw [got_stored _ db alike.sound, got_stored _ other alike.soundOther, seen]
      have deadline : (dictGet (env.clock 0) db (arg argv 1)).2.map (·.expire) =
          (dictGet (env.clock 0) other (arg argv 1)).2.map (·.expire) := by
        have second := congrArg (Option.map Prod.snd) found
        simpa only [Option.map_map, Function.comp_def] using second
      have bound : ((dictGet (env.clock 0) other (arg argv 1)).2.map (·.expire)).getD 0 < 2 ^ 64 := by
        cases got : (dictGet (env.clock 0) other (arg argv 1)).2 with
        | none => exact Nat.two_pow_pos 64
        | some obj =>
            obtain ⟨entry, member, -, rfl⟩ := get_found _ other alike.soundOther _ _ got
            exact (alike.soundOther.storable entry member).expire
      have plainValue : Plain (snprintf 32 (decimalInt (Int.bmod (number + 1) (2 ^ 64)))) := by
        constructor
        · exact fun zero => decimal_int_nul_free _ (List.mem_of_mem_take zero)
        · have cut := List.length_take_le (32 - 1) (decimalInt (Int.bmod (number + 1) (2 ^ 64)))
          simp only [snprintf]
          omega
      rw [incr_started_store env argv db number (start.trans value),
        incr_started_store env argv other number value, deadline]
      exact store_string_alike now env 1 _ _ after _ _ (plain_arg argv plain 1) plainValue _ bound _
        (Or.inr stored)

end Handlers

section Saves

/-- The bindings a save writes. -/
def liveBindings (clock : Nat) (db : Dict) : List (Bytes × Bytes × Nat) :=
  (db.table.flatten.filter (live clock)).map fun entry => (entry.key, binding entry)

/-- The `fwrite` calls for one binding. -/
def calls (bound : Bytes × Bytes × Nat) : Nat :=
  (rdbSaveString bound.1 (strlen bound.1)).length + (if bound.2.2 ≠ 0 then 3 else 2) +
    ((rdbSaveString bound.2.1 (strlen bound.2.1)).length + 1)

theorem save_entry_calls (clock : Nat) (entry : DictEntry) (storable : Storable entry)
    (alive : expired clock entry.val.expire = false) :
    (saveEntry clock entry).length = calls (entry.key, binding entry) := by
  simp only [saveEntry, alive, Bool.false_eq_true, ↓reduceIte, saveValue, storable.type, calls, binding,
    List.length_append, List.length_cons, List.length_nil]
  by_cases lasting : entry.val.expire = 0
  · simp only [lasting, ne_eq, not_true_eq_false, ↓reduceIte, List.length_nil]
  · simp only [lasting, ne_eq, not_false_eq_true, ↓reduceIte, List.length_cons, List.length_nil]

theorem save_rows_calls (clock : Nat) (rows : List DictEntry)
    (storable : ∀ entry ∈ rows, Storable entry) :
    (rows.flatMap (saveEntry clock)).length =
      (((rows.filter (live clock)).map fun entry => (entry.key, binding entry)).map calls).sum := by
  induction rows with
  | nil => rfl
  | cons entry rest ih =>
      rw [List.forall_mem_cons] at storable
      rw [List.flatMap_cons, List.length_append, ih storable.2]
      cases gone : expired clock entry.val.expire with
      | true => simp [saveEntry, live, gone]
      | false =>
          have kept : live clock entry = true := by simp [live, gone]
          rw [save_entry_calls clock entry storable.1 gone, List.filter_cons_of_pos kept]
          simp

theorem live_bindings_mem (clock : Nat) (db : Dict) (rep : Represents db) (bound : Bytes × Bytes × Nat) :
    bound ∈ liveBindings clock db ↔ fetch (expired clock) (mapping db) bound.1 = some bound.2 := by
  rcases bound with ⟨key, value⟩
  simp only [liveBindings, List.mem_map, List.mem_filter, fetch, Option.filter_eq_some_iff,
    mapping_mem db rep, Prod.mk.injEq]
  constructor
  · rintro ⟨entry, ⟨stored, alive⟩, rfl, rfl⟩
    exact ⟨⟨entry, stored, rfl, rfl⟩, alive⟩
  · rintro ⟨⟨entry, stored, rfl, rfl⟩, alive⟩
    exact ⟨entry, ⟨stored, alive⟩, rfl, rfl⟩

theorem live_bindings_nodup (clock : Nat) (db : Dict) (rep : Represents db) :
    (liveBindings clock db).Nodup := by
  have keys : ((liveBindings clock db).map Prod.fst).Nodup := by
    have distinct := rep.valid.distinct_flatten
    simp only [liveBindings, List.map_map, Function.comp_def]
    exact distinct.sublist (List.filter_sublist.map _)
  exact keys.of_map _

/-- Whoever reads the databases alike saves them with the same number of calls. -/
theorem save_result_alike {now : Nat} {db other : Dict} (alike : Alike now db other) (io : SaveIo)
    (clock : Nat) (passed : now ≤ clock) (filename : Bytes) (files filesOther : Files) :
    (saveRdbToFile io clock db filename files).2 =
      (saveRdbToFile io clock other filename filesOther).2 := by
  have perm : (liveBindings clock db).Perm (liveBindings clock other) := by
    apply (List.perm_ext_iff_of_nodup (live_bindings_nodup clock db alike.sound.rep)
      (live_bindings_nodup clock other alike.soundOther.rep)).mpr
    intro bound
    rw [live_bindings_mem clock db alike.sound.rep, live_bindings_mem clock other alike.soundOther.rep,
      alike.fetch passed]
  have rows := (perm.map calls).sum_nat
  have length : (saveChunks clock db).length = (saveChunks clock other).length := by
    have left := save_rows_calls clock db.table.flatten alike.sound.storable
    have right := save_rows_calls clock other.table.flatten alike.soundOther.storable
    simp only [liveBindings] at rows
    simp only [saveChunks, flatMap_chains, List.length_append, left, right, rows, List.length_cons]
  have result : (fwriteAll io.fwrite 0 (saveChunks clock db)).1 =
      (fwriteAll io.fwrite 0 (saveChunks clock other)).1 := by
    rw [Bool.eq_iff_iff, fwrite_all_true, fwrite_all_true, length]
  simp only [saveRdbToFile, result]
  split
  · split
    · split <;> rfl
    · rfl
  · rfl

end Saves

end CrimsonCache.AlikeDatabases
