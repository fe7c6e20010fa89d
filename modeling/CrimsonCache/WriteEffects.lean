import CrimsonCache.Execution

/-!
The four commands that are propagated, as operations on the map: what SET, DEL,
EXPIRE and INCR leave depends on their arguments, the clock and the map alone,
not on the table behind it.
-/

namespace CrimsonCache.WriteEffects

open CString Dictionary DeadlineMap Persistence Replies Transaction Replication Tokenizer ServerState
  DataCommands StoredData Commands

section Maps

def setMap (env : Env) (argv : List Bytes) (m : Mapping) : Mapping :=
  put m (arg argv 1) (arg argv 2) (setExpire env argv)

def delMap (keys : List Bytes) (m : Mapping) : Mapping := keys.foldl drop m

def expireMap (env : Env) (argv : List Bytes) (m : Mapping) : Mapping :=
  match fetch (expired (env.clock 0)) m (arg argv 1) with
  | none => settle (expired (env.clock 0)) m (arg argv 1)
  | some (value, _) =>
      put m (arg argv 1) value (wrap64 (env.clock 1 + mulLong (atol (arg argv 2)) 1000))

/-- The number INCR starts from, or `none` where the value is not one. -/
def startValue : Option (Bytes × Nat) → Option Int
  | none => some 0
  | some (text, _) => if (strtoll text).2 = [] then some (strtoll text).1 else none

def incrMap (env : Env) (argv : List Bytes) (m : Mapping) : Mapping :=
  let bound := fetch (expired (env.clock 0)) m (arg argv 1)
  match startValue bound with
  | none => settle (expired (env.clock 0)) m (arg argv 1)
  | some value =>
      put m (arg argv 1) (snprintf 32 (decimalInt (Int.bmod (value + 1) (2 ^ 64))))
        ((bound.map Prod.snd).getD 0)

def writeMap (env : Env) (argv : List Bytes) (m : Mapping) : Command → Mapping
  | .set => setMap env argv m
  | .del => delMap argv.tail m
  | .expire => expireMap env argv m
  | .incr => incrMap env argv m
  | _ => m

/-- Of its environment a write command uses the clock only. -/
theorem write_map_clock (first second : Env) (clock : first.clock = second.clock)
    (argv : List Bytes) (m : Mapping) (command : Command) :
    writeMap first argv m command = writeMap second argv m command := by
  have deadline : setExpire first argv = setExpire second argv := by simp only [setExpire, clock]
  cases command with
  | set => simp only [writeMap, setMap, deadline]
  | expire => simp only [writeMap, expireMap, clock]
  | incr => simp only [writeMap, incrMap, clock]
  | del | ping | get | exist | ttl | save | bgsave | replicaof | role | replconf | multi | exec
  | discard | subscribe | unsubscribe | publish => rfl

end Maps

section Handlers

variable (env : Env) (argv : List Bytes) (db : Dict) (sound : Sound db)

include sound

theorem store_string_mapping (reading : Nat) (key value : Bytes) (expire : Nat) (reply : Reply)
    (ok : (storeString env reading db key value expire reply).result = .ok) :
    mapping (storeString env reading db key value expire reply).db =
      put (mapping db) key value expire := by
  simp only [storeString] at ok ⊢
  split at ok
  case isFalse => simp at ok
  case isTrue allocated =>
    simp only [allocated, ↓reduceIte]
    split at ok
    case isFalse => simp at ok
    case isTrue added =>
      simp only [added, ↓reduceIte]
      exact add_mapping env.dict (env.clock (reading + 1)) db sound.rep key _ added

omit sound in
theorem store_string_ok (allocates : ∀ site, env.alloc site = true) (reading : Nat)
    (key value : Bytes) (expire : Nat) (reply : Reply) :
    (storeString env reading db key value expire reply).result = .ok := by
  have added (obj : CcObj) := add_succeeds env.dict (env.clock (reading + 1)) db key obj
    (allocates .dictEntry) (allocates .dictKey)
  simp [storeString, allocates, added]

omit sound in
theorem store_string_reply (reading : Nat) (key value : Bytes) (expire : Nat) (reply : Reply)
    (ok : (storeString env reading db key value expire reply).result = .ok) :
    (storeString env reading db key value expire reply).reply = reply := by
  simp only [storeString] at ok ⊢
  split at ok
  case isFalse => simp at ok
  case isTrue allocated =>
    simp only [allocated, ↓reduceIte]
    split at ok
    case isFalse => simp at ok
    case isTrue added => simp only [added, ↓reduceIte]

omit sound in
theorem del_map_eq (keys : List Bytes) (m : Mapping) (key : Bytes) :
    delMap keys m key = if key ∈ keys then none else m key := by
  induction keys generalizing m with
  | nil => simp [delMap]
  | cons first rest ih =>
      have later := ih (drop m first)
      simp only [delMap, List.foldl_cons] at later ⊢
      rw [later]
      by_cases inside : key ∈ rest
      · simp [inside]
      · by_cases same : key = first
        · simp [drop, same]
        · simp [drop, same, inside]

omit sound in
theorem delete_keys_mapping (keys : List Bytes) (rep : Represents db) :
    mapping (deleteKeys keys db).1 = delMap keys (mapping db) := by
  induction keys generalizing db with
  | nil => rfl
  | cons key rest ih =>
      have first := (mapping_delete db rep key).1
      simp only [deleteKeys, delMap, List.foldl_cons, ← first]
      exact ih _ (delete_represents db rep key)

theorem expire_mapping :
    mapping (expireCommand env argv db).db = expireMap env argv (mapping db) := by
  obtain ⟨contents, answer⟩ := mapping_get (env.clock 0) db sound.rep (arg argv 1)
  simp only [expireCommand]
  split
  case h_1 after got =>
    rw [got] at contents answer
    simp only [expireMap, ← answer, Option.map_none]
    exact contents
  case h_2 after obj got =>
    rw [got] at contents answer
    have rep : Represents after := by
      have kept := get_represents (env.clock 0) db sound.rep (arg argv 1)
      rwa [got] at kept
    -- The lookup found the key live, so it dropped nothing before the write.
    have live := answer.symm
    simp only [Option.map_some] at live
    obtain ⟨stays, bound⟩ := settle_live _ _ _ _ live
    rw [stays] at contents
    simp only [expireMap, live]
    funext other
    rw [mapping_update_obj after rep (arg argv 1) _ other, contents]
    have held : mapping after (arg argv 1) = some (obj.ptr, obj.expire) := by rw [contents, bound]
    by_cases same : other = arg argv 1
    · subst same
      simp only [mapping, Option.map_eq_some_iff] at held
      rcases held with ⟨entry, found, fields⟩
      have text : entry.val.ptr = obj.ptr := congrArg Prod.fst fields
      simp [found, put, setDeadline, text]
    · simp [put, same]

/-- INCR reads the number off the map: only strings are stored. -/
theorem incr_value :
    incrValue (dictGet (env.clock 0) db (arg argv 1)).2 =
      startValue (fetch (expired (env.clock 0)) (mapping db) (arg argv 1)) := by
  obtain ⟨-, answer⟩ := mapping_get (env.clock 0) db sound.rep (arg argv 1)
  rw [← answer]
  cases found : (dictGet (env.clock 0) db (arg argv 1)).2 with
  | none => rfl
  | some obj =>
      obtain ⟨entry, stored, -, rfl⟩ := get_found _ db sound _ _ found
      simp [incrValue, startValue, touch, (sound.storable entry stored).type]

omit sound in
/-- INCR once its lookup found a number. -/
theorem incr_started_store (value : Int)
    (start : incrValue (dictGet (env.clock 0) db (arg argv 1)).2 = some value) :
    incrCommand env argv db =
      storeString env 1 (dictGet (env.clock 0) db (arg argv 1)).1 (arg argv 1)
        (snprintf 32 (decimalInt (Int.bmod (value + 1) (2 ^ 64))))
        (((dictGet (env.clock 0) db (arg argv 1)).2.map (·.expire)).getD 0)
        (.integer (Int.bmod (value + 1) (2 ^ 64))) := by
  simp only [incrCommand, start]
  cases (dictGet (env.clock 0) db (arg argv 1)).2 <;> rfl

theorem incr_mapping (ok : (incrCommand env argv db).result = .ok) :
    mapping (incrCommand env argv db).db = incrMap env argv (mapping db) := by
  obtain ⟨contents, answer⟩ := mapping_get (env.clock 0) db sound.rep (arg argv 1)
  have got := get_sound (env.clock 0) db sound (arg argv 1)
  have start := incr_value env argv db sound
  simp only [incrCommand] at ok ⊢
  cases value : incrValue (dictGet (env.clock 0) db (arg argv 1)).2 with
  | none => simp [value] at ok
  | some number =>
      simp only [value] at ok ⊢
      rw [value] at start
      rw [store_string_mapping env _ got _ _ _ _ _ ok, contents, put_settle]
      simp only [incrMap]
      rw [← start, ← answer]
      cases (dictGet (env.clock 0) db (arg argv 1)).2 <;> rfl

theorem incr_ok (allocates : ∀ site, env.alloc site = true) :
    (incrCommand env argv db).result = .ok ↔
      startValue (fetch (expired (env.clock 0)) (mapping db) (arg argv 1)) ≠ none := by
  rw [← incr_value env argv db sound]
  simp only [incrCommand]
  split
  case h_1 none => simp [none]
  case h_2 number some => simp [some, store_string_ok env _ allocates]

theorem incr_started (ok : (incrCommand env argv db).result = .ok) :
    startValue (fetch (expired (env.clock 0)) (mapping db) (arg argv 1)) ≠ none := by
  rw [← incr_value env argv db sound]
  intro none
  simp [incrCommand, none] at ok

end Handlers

section Commands

/-- The propagated commands have the four handlers. -/
theorem write_rows : ∀ row ∈ commands, isWriteCommand row.name = true →
    row.command = .set ∨ row.command = .del ∨ row.command = .expire ∨ row.command = .incr := by
  decide

theorem handler_mapping (execute : Nat → Bytes → Server → Outcome) (env : Env) (sock : Int)
    (argv : List Bytes) (server : Server) (sound : Sound server.db) (row : CommandDef)
    (member : row ∈ commands) (write : isWriteCommand row.name = true)
    (ok : (runHandler execute env sock argv server row.command).result = .ok) :
    mapping (runHandler execute env sock argv server row.command).server.db =
      writeMap env argv (mapping server.db) row.command := by
  rcases write_rows row member write with same | same | same | same
  · rw [same] at ok ⊢
    exact store_string_mapping env server.db sound _ _ _ _ _ ok
  · rw [same]
    exact delete_keys_mapping server.db argv.tail sound.rep
  · rw [same]
    exact expire_mapping env argv server.db sound
  · rw [same] at ok ⊢
    exact incr_mapping env argv server.db sound ok

/-- Where one server accepted a write, another one with the same map does too. -/
theorem handler_accepts (execute other : Nat → Bytes → Server → Outcome) (env envs : Env)
    (clock : envs.clock = env.clock) (allocates : ∀ site, envs.alloc site = true) (sock fd : Int)
    (argv : List Bytes) (server replica : Server) (sound : Sound server.db)
    (soundReplica : Sound replica.db) (same : mapping replica.db = mapping server.db)
    (row : CommandDef) (member : row ∈ commands) (write : isWriteCommand row.name = true)
    (ok : (runHandler execute env sock argv server row.command).result = .ok) :
    (runHandler other envs fd argv replica row.command).result = .ok := by
  rcases write_rows row member write with kind | kind | kind | kind
  · rw [kind]
    exact store_string_ok envs replica.db allocates _ _ _ _ _
  · rw [kind]
    rfl
  · rw [kind]
    simp only [runHandler, answered, expireCommand]
    split <;> rfl
  · rw [kind] at ok ⊢
    have started := incr_started env argv server.db sound ok
    rw [← same, ← clock] at started
    exact (incr_ok envs argv replica.db soundReplica allocates).mpr started

end Commands

section Execution

/-- An accepted write outside of a transaction ran one row of the table. -/
theorem write_executed (execute : Nat → Bytes → Server → Outcome) (env : Env) (sock : Int)
    (buffer : Bytes) (server : Server) (outside : inTransaction sock server = false)
    (ok : (executeWith execute env sock buffer server).result = .ok) :
    ∃ row ∈ commands, row.name = commandName (cstr buffer) ∧
      wrongArity row (tokens (cstr buffer)).length = false ∧
      (runHandler execute env sock (lower (tokens (cstr buffer))) server row.command).result = .ok ∧
      executeWith execute env sock buffer server =
        propagate env sock (cstr buffer) (commandName (cstr buffer))
          (runHandler execute env sock (lower (tokens (cstr buffer))) server row.command) := by
  have ran := execute_with_cases execute env sock buffer server
  generalize executeWith execute env sock buffer server = outcome at ran ok
  cases ran with
  | refused => simp [refuse] at ok
  | queued nonempty inside => simp [inside] at outside
  | ran row member named arity =>
      rw [propagate_result] at ok
      exact ⟨row, member, named, arity, ok, rfl⟩

/-- The same tokens on a connection outside of any transaction run the same row. -/
theorem write_replayed (execute : Nat → Bytes → Server → Outcome) (env : Env)
    (allocates : ∀ site, env.alloc site = true) (sock : Int) (buffer : Bytes) (server : Server)
    (outside : inTransaction sock server = false) (row : CommandDef) (member : row ∈ commands)
    (named : row.name = commandName (cstr buffer)) (nonempty : tokens (cstr buffer) ≠ [])
    (arity : wrongArity row (tokens (cstr buffer)).length = false) :
    executeWith execute env sock buffer server =
      propagate env sock (cstr buffer) (commandName (cstr buffer))
        (runHandler execute env sock (lower (tokens (cstr buffer))) server row.command) := by
  have first := row_of_name row member
  rw [execute_allocated _ _ _ _ _ (allocates _) (allocates _) nonempty]
  simp only [outside, Bool.false_and, Bool.false_eq_true, ↓reduceIte, dispatch]
  rw [named, commandName] at first
  simp [first, lower_length, arity]

/-- A write answers its client and touches the database alone. -/
theorem write_answers (execute : Nat → Bytes → Server → Outcome) (env : Env) (sock : Int)
    (argv : List Bytes) (server : Server) (row : CommandDef) (member : row ∈ commands)
    (write : isWriteCommand row.name = true) :
    ∃ answer, runHandler execute env sock argv server row.command = answered server sock answer := by
  rcases write_rows row member write with same | same | same | same
  · exact ⟨_, by rw [same]; rfl⟩
  · exact ⟨_, by rw [same]; rfl⟩
  · exact ⟨_, by rw [same]; rfl⟩
  · exact ⟨_, by rw [same]; rfl⟩

/-- On a primary an accepted write is fed to the replicas as it came. -/
theorem write_fed (execute : Nat → Bytes → Server → Outcome) (env : Env) (sock : Int)
    (buffer : Bytes) (server : Server) (connected : 0 ≤ sock) (isPrimary : server.repl.role = .primary)
    (outside : inTransaction sock server = false)
    (write : isWriteCommand (commandName (cstr buffer)) = true)
    (ok : (executeWith execute env sock buffer server).result = .ok) :
    ∃ answer, (executeWith execute env sock buffer server).events =
      .reply sock answer :: .fed (cstr buffer) ::
        feedWrites (framed (env.alloc .feedCopy) (cstr buffer)) env.delivery server.repl.replicas := by
  obtain ⟨row, member, named, -, accepted, ran⟩ := write_executed execute env sock buffer server outside ok
  obtain ⟨answer, answers⟩ := write_answers execute env sock (lower (tokens (cstr buffer))) server row
    member (named ▸ write)
  rw [answers] at accepted ran
  have result : answer.result = .ok := accepted
  have still : inTransaction sock { server with db := answer.db } = false := outside
  rw [ran, propagate_eq]
  simp [propagated, answered, result, still, isPrimary, connected, write, fedEvents,
    replicationFeedSlaves]

theorem feed_writes_data (cmd : Bytes) (delivery : Nat → Delivery) (replicas : List Replica) :
    ∀ event ∈ feedWrites cmd delivery replicas, ∃ fd result, event = .replicaWrite fd cmd result := by
  induction replicas generalizing delivery with
  | nil => simp [feedWrites]
  | cons replica rest ih =>
      intro event member
      rcases List.mem_cons.mp member with rfl | later
      · exact ⟨_, _, rfl⟩
      · exact ih _ event later

end Execution

end CrimsonCache.WriteEffects
