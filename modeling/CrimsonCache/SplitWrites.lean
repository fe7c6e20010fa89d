import CrimsonCache.DelayedReplication
import CrimsonCache.FullSync
import CrimsonCache.ReplicaList
import CrimsonCache.WalkedTable

/-!
A write as the threaded model runs it: the handler changes the database in one
step, and the command is handed to the replicas in a later one. Seen from the
values that are stored, whatever their deadlines, the first step is an effect on
each key that depends on the words of the command alone, as long as the lookups
of the write find nothing expired.
-/

namespace CrimsonCache.SplitWrites

open CString Dictionary DeadlineMap KeyEffects TableWalk Replies Transaction Replication Tokenizer
  ServerState DataCommands StoredData Commands TransactionSteps WriteEffects LiveContents
  AppliedWrites ReplicaList DelayedReplication WalkedTable FullSync

section Values

/-- The value of a key, whatever its deadline. -/
def stored (m : Mapping) (key : Bytes) : Option Bytes := (m key).map Prod.fst

def valueEffect (argv : List Bytes) (key : Bytes) : Command → Effect Bytes
  | .set => if key = arg argv 1 then .put (arg argv 2) else .same
  | .del => if key ∈ argv.tail then .clear else .same
  | .incr => if key = arg argv 1 then .revised else .same
  | _ => .same

/-- What the words of a command do to the value of a key. -/
def keyEffect (key : Bytes) (words : List Bytes) : Effect Bytes :=
  ((acceptedRow words).map fun row => valueEffect (lower words) key row.command).getD .same

/-- The keys whose entries a command takes out. -/
def takenOut (words : List Bytes) : List Bytes :=
  ((acceptedRow words).map fun row => removed (lower words) row.command).getD []

/-- A lookup of the command finds its key expired. -/
def meetsExpired (env : Env) (words : List Bytes) (m : Mapping) : Bool :=
  (acceptedRow words).any fun row => findsExpired env (lower words) m row.command

theorem live_lookup (clock : Nat) (m : Mapping) (key : Bytes)
    (live : (m key).any (fun binding => expired clock binding.2) = false) :
    fetch (expired clock) m key = m key ∧ settle (expired clock) m key = m := by
  simp only [fetch, settle]
  cases bound : m key with
  | none => exact ⟨rfl, rfl⟩
  | some binding =>
      have alive : expired clock binding.2 = false := by simpa [bound] using live
      simp [alive]

theorem stored_put (m : Mapping) (key value : Bytes) (deadline : Nat) (other : Bytes) :
    stored (put m key value deadline) other = if other = key then some value else stored m other := by
  by_cases same : other = key
  · simp [stored, put, same]
  · simp [stored, put, same]

theorem stored_del (keys : List Bytes) (m : Mapping) (key : Bytes) :
    stored (delMap keys m) key = if key ∈ keys then none else stored m key := by
  rw [stored, del_map_eq]
  split
  · rfl
  · rfl

/-- The number that INCR starts from is that of the value. -/
theorem start_stored (m : Mapping) (key : Bytes) :
    startValue (m key) = startValue ((stored m key).map fun value => (value, 0)) := by
  simp only [stored]
  cases m key <;> rfl

theorem incr_value (env : Env) (argv : List Bytes) (m : Mapping) (key : Bytes)
    (live : findsExpired env argv m .incr = false) :
    stored (incrMap env argv m) key = (valueEffect argv key .incr).run incremented (stored m key) := by
  obtain ⟨found, stays⟩ := live_lookup (env.clock 0) m (arg argv 1) live
  have start := start_stored m (arg argv 1)
  simp only [incrMap, found, stays, valueEffect]
  by_cases same : key = arg argv 1
  · subst same
    simp only [↓reduceIte, Effect.run, incremented, ← start]
    cases number : startValue (m (arg argv 1)) with
    | none =>
        -- Only a value that is there fails to be a number.
        cases bound : m (arg argv 1) with
        | none => simp [bound, startValue] at number
        | some binding => simp [stored, bound]
    | some value => simp [stored_put]
  · simp only [same, ↓reduceIte, Effect.run]
    cases startValue (m (arg argv 1)) with
    | none => rfl
    | some value => simp [stored_put, same]

theorem row_value (env : Env) (argv : List Bytes) (m : Mapping) (row : CommandDef)
    (member : row ∈ commands) (write : isWriteCommand row.name = true)
    (live : findsExpired env argv m row.command = false) (key : Bytes) :
    stored (writeMap env argv m row.command) key =
      (valueEffect argv key row.command).run incremented (stored m key) := by
  rcases write_rows row member write with same | same | same | same
  · simp only [same, writeMap, setMap, stored_put, valueEffect]
    by_cases here : key = arg argv 1 <;> simp [here, Effect.run]
  · simp only [same, writeMap, stored_del, valueEffect]
    by_cases inside : key ∈ argv.tail <;> simp [inside, Effect.run]
  · rw [same] at live ⊢
    obtain ⟨found, stays⟩ := live_lookup (env.clock 0) m (arg argv 1) live
    simp only [writeMap, expireMap, found, stays, valueEffect, Effect.run]
    cases bound : m (arg argv 1) with
    | none => rfl
    | some binding =>
        rw [stored_put]
        split
        case isTrue here => simp [here, stored, bound]
        case isFalse => rfl
  · rw [same] at live ⊢
    exact incr_value env argv m key live

/-- A write by its words, seen from the values. -/
theorem words_value (env : Env) (words : List Bytes) (m : Mapping)
    (write : ∀ row, acceptedRow words = some row → row ∈ commands ∧ isWriteCommand row.name = true)
    (live : meetsExpired env words m = false) (key : Bytes) :
    stored (applyWords env words m) key = (keyEffect key words).run incremented (stored m key) := by
  rw [apply_words_row]
  simp only [keyEffect, meetsExpired] at live ⊢
  cases accepted : acceptedRow words with
  | none => rfl
  | some row =>
      obtain ⟨member, isWrite⟩ := write row accepted
      rw [accepted, Option.any_some] at live
      simp only [write_row_map env (lower words) m row member isWrite, Option.map_some,
        Option.getD_some]
      exact row_value env (lower words) m row member isWrite live key

end Values

section Handler

/-- `execute_command` up to the propagation. Only EXEC runs further commands, and it is no write. -/
def handled (env : Env) (sock : Int) (buffer : Bytes) (server : Server) : Outcome :=
  let input := cstr buffer
  if env.alloc .inputCopy then
    match tokenizeCommand (env.alloc .tokens) input with
    | none => refuse server sock "err empty command"
    | some [] => refuse server sock "err empty command"
    | some argv =>
        let argv := lower argv
        if inTransaction sock server && !isTxCommand (arg argv 0) then
          queueInput env sock input server
        else dispatch (fun _ _ server => ⟨server, [], .unknown⟩) env sock argv server
  else refuse server sock "err out of memory"

theorem tokenized_words (malloc : Bool) (input : Bytes) (argv : List Bytes)
    (tokenized : tokenizeCommand malloc input = some argv) : tokens input = argv := by
  simp only [tokenizeCommand] at tokenized
  split at tokenized
  · exact Option.some.inj tokenized
  · simp at tokenized

/-- Outside of a transaction a call is its handler followed by the propagation. -/
theorem handled_then_fed (oracle : Oracle) (sock : Int) (buffer : Bytes) (server : Server)
    (outside : inTransaction sock server = false) :
    executeCommandAt 0 oracle sock buffer server =
      propagate (oracle []) sock (cstr buffer) (commandName (cstr buffer))
        (handled (oracle []) sock buffer server) := by
  simp only [executeCommandAt, executeWith, handled, outside, Bool.false_and, Bool.false_eq_true,
    ↓reduceIte]
  split
  case isFalse => rw [propagate_refused]
  case isTrue =>
    cases tokenized : tokenizeCommand ((oracle []).alloc .tokens) (cstr buffer) with
    | none => simp only [propagate_refused]
    | some argv =>
        have same := tokenized_words _ _ argv tokenized
        cases argv with
        | nil => simp only [propagate_refused]
        | cons name args => simp only [commandName, same]

/-- A handler is refused or runs the row of its words. -/
theorem handled_cases (env : Env) (sock : Int) (buffer : Bytes) (server : Server)
    (outside : inTransaction sock server = false) :
    (∃ message, handled env sock buffer server = refuse server sock message) ∨
      ∃ row, acceptedRow (tokens (cstr buffer)) = some row ∧ handled env sock buffer server =
        runHandler (fun _ _ server => ⟨server, [], .unknown⟩) env sock (lower (tokens (cstr buffer)))
          server row.command := by
  simp only [handled, outside, Bool.false_and, Bool.false_eq_true, ↓reduceIte]
  split
  case isFalse => exact Or.inl ⟨_, rfl⟩
  case isTrue =>
    cases tokenized : tokenizeCommand (env.alloc .tokens) (cstr buffer) with
    | none => exact Or.inl ⟨_, rfl⟩
    | some argv =>
        have same := tokenized_words _ _ argv tokenized
        cases argv with
        | nil => exact Or.inl ⟨_, rfl⟩
        | cons name args =>
            simp only [same, dispatch, acceptedRow]
            cases found : commands.find? (·.name = arg (lower (name :: args)) 0) with
            | none => exact Or.inl ⟨_, rfl⟩
            | some row =>
                cases arity : wrongArity row (name :: args).length with
                | true =>
                    left
                    exact ⟨"err wrong number of arguments", by simp only [lower_length, arity, ↓reduceIte]⟩
                | false =>
                    refine Or.inr ⟨row, ?_, ?_⟩
                    · rw [Option.filter_some, arity]
                      rfl
                    · simp only [lower_length, arity, Bool.false_eq_true, ↓reduceIte]

/-- A write that may grow the table. -/
def stores (words : List Bytes) : Bool :=
  (acceptedRow words).any fun row => row.command = .set || row.command = .incr

/-- What the handler of a write leaves of the values and of the order of the table. -/
structure Changed (env : Env) (grows : Bool) (effect : Bytes → Effect Bytes) (gone : List Bytes)
    (before after : Dict) : Prop where
  values : ∀ key, stored (mapping after) key = (effect key).run incremented (stored (mapping before) key)
  order : Ordered gone before after ∨ grows = true ∧ Ordered [] (grown env.dict before) after

/-- It replies to its client and changes the database alone. -/
structure Answered (sock : Int) (server : Server) (outcome : Outcome) : Prop where
  frame : outcome.server = { server with db := outcome.server.db }
  sound : Sound outcome.server.db
  quiet : ∀ fd, fd ≠ sock → sentTo fd outcome.events = []

theorem changed_nothing (env : Env) (grows : Bool) (db : Dict) :
    Changed env grows (fun _ => .same) [] db db :=
  ⟨fun _ => rfl, Or.inl (ordered_refl db)⟩

/-- A command clears the keys that it takes out. -/
theorem taken_out_iff (words : List Bytes) (key : Bytes) :
    key ∈ takenOut words ↔ keyEffect key words = .clear := by
  simp only [takenOut, keyEffect]
  cases acceptedRow words with
  | none => simp
  | some row =>
      simp only [Option.map_some, Option.getD_some]
      cases row.command with
      | set | del | incr =>
          simp only [removed, valueEffect]
          split <;> simp_all
      | _ => simp [removed, valueEffect]

theorem refused_answered (sock : Int) (server : Server) (sound : Sound server.db) (message : String) :
    Answered sock server (refuse server sock message) := by
  constructor
  · rfl
  · exact sound
  · intro fd other
    simp only [refuse]
    split
    · simp [sentTo, Event.sent, Ne.symm other]
    · rfl

/-- A write that does not succeed leaves the values. -/
theorem failed_values (env : Env) (argv : List Bytes) (server : Server) (sound : Sound server.db)
    (sock : Int) (row : CommandDef) (member : row ∈ commands) (write : isWriteCommand row.name = true)
    (live : findsExpired env argv (mapping server.db) row.command = false)
    (failed : (runHandler (fun _ _ server => ⟨server, [], .unknown⟩) env sock argv server
      row.command).result ≠ .ok) :
    (row.command = .set ∨ row.command = .incr) ∧
      mapping (runHandler (fun _ _ server => ⟨server, [], .unknown⟩) env sock argv server
        row.command).server.db = mapping server.db := by
  rcases write_rows row member write with same | same | same | same
  · rw [same] at failed ⊢
    exact ⟨Or.inl rfl, store_string_failed env server.db sound.rep _ _ _ _ _ failed⟩
  · rw [same] at failed
    exact absurd rfl failed
  · rw [same] at failed
    refine absurd ?_ failed
    simp only [runHandler, answered, expireCommand]
    split <;> rfl
  · rw [same] at live failed ⊢
    have settled := incr_failed_settles env argv server.db sound failed
    rw [(live_lookup (env.clock 0) (mapping server.db) (arg argv 1) live).2] at settled
    exact ⟨Or.inr rfl, settled⟩

/-- What one step of a writing client does: the command goes on to the replicas and has its
    effects, or it does not and has none. -/
theorem handled_write (env : Env) (sock : Int) (connected : 0 ≤ sock) (buffer : Bytes)
    (short : (cstr buffer).length < 2 ^ 31) (server : Server) (sound : Sound server.db)
    (isPrimary : server.repl.role = .primary) (outside : inTransaction sock server = false)
    (write : isWriteCommand (commandName (cstr buffer)) = true)
    (live : meetsExpired env (tokens (cstr buffer)) (mapping server.db) = false) :
    let outcome := handled env sock buffer server
    Answered sock server outcome ∧
      (propagated sock (commandName (cstr buffer)) outcome = true ∧
          Changed env (stores (tokens (cstr buffer))) (keyEffect · (tokens (cstr buffer)))
            (takenOut (tokens (cstr buffer))) server.db outcome.server.db ∨
        propagated sock (commandName (cstr buffer)) outcome = false ∧
          Changed env (stores (tokens (cstr buffer))) (fun _ => .same) [] server.db outcome.server.db) := by
  rcases handled_cases env sock buffer server outside with ⟨message, refused⟩ | ⟨row, accepted, ran⟩
  · rw [refused]
    refine ⟨refused_answered sock server sound message, Or.inr ⟨?_, changed_nothing env _ _⟩⟩
    simp [propagated, refuse]
  · obtain ⟨member, isWrite⟩ := accepted_write _ row accepted write
    have looked : findsExpired env (lower (tokens (cstr buffer))) (mapping server.db) row.command = false := by
      simpa [meetsExpired, accepted] using live
    have plain : ∀ token ∈ lower (tokens (cstr buffer)), Plain token :=
      lower_plain _ (tokens_plain _ ⟨cstr_nul_free buffer, short⟩)
    have apart := direct_row row member (write_direct row member isWrite)
    have kept := handler_sound (fun _ _ server => ⟨server, [], .unknown⟩) env sock
      (lower (tokens (cstr buffer))) plain server sound row.command apart.2.1
    have order := write_ordered (fun _ _ server => ⟨server, [], .unknown⟩) env sock
      (lower (tokens (cstr buffer))) server sound.rep row member isWrite looked
    have done := handler_mapping (fun _ _ server => ⟨server, [], .unknown⟩) env sock
      (lower (tokens (cstr buffer))) server sound row member isWrite
    have undone := failed_values env (lower (tokens (cstr buffer))) server sound sock row member isWrite
      looked
    obtain ⟨answer, answers⟩ := write_answers (fun _ _ server => ⟨server, [], .unknown⟩) env sock
      (lower (tokens (cstr buffer))) server row member isWrite
    have goes : propagated sock (commandName (cstr buffer)) (answered server sock answer) =
        decide (answer.result = .ok) := by
      have still : inTransaction sock (answered server sock answer).server = false := outside
      have role : (answered server sock answer).server.repl.role = .primary := isPrimary
      have result : (answered server sock answer).result = answer.result := rfl
      simp [propagated, still, role, result, connected, write]
    have storing : row.command = .set ∨ row.command = .incr → stores (tokens (cstr buffer)) = true := by
      rintro (same | same) <;> simp [stores, accepted, same]
    rw [ran]
    rw [answers] at kept order done undone ⊢
    refine ⟨⟨rfl, kept, ?_⟩, ?_⟩
    · intro fd other
      simp [answered, sentTo, Event.sent, Ne.symm other]
    · rw [goes]
      by_cases ok : answer.result = .ok
      · refine Or.inl ⟨decide_eq_true ok, ?_, ?_⟩
        · intro key
          rw [done ok, row_value env _ (mapping server.db) row member isWrite looked key]
          simp [keyEffect, accepted]
        · simp only [takenOut, accepted, Option.map_some, Option.getD_some]
          exact order.imp_right fun large => ⟨storing large.1, large.2⟩
      · obtain ⟨kind, same⟩ := undone ok
        refine Or.inr ⟨decide_eq_false ok, fun key => by rw [same]; rfl, ?_⟩
        have none : removed (lower (tokens (cstr buffer))) row.command = [] := by
          rcases kind with kind | kind <;> simp [kind, removed]
        rw [none] at order
        exact order.imp_right fun large => ⟨storing large.1, large.2⟩

end Handler

section Feed

theorem feed_writes_sent (cmd : Bytes) (delivery : Nat → Delivery) (fd : Int) (replicas : List Replica)
    (whole : Whole fd (feedWrites cmd delivery replicas)) :
    sentTo fd (feedWrites cmd delivery replicas) =
      (List.replicate ((replicas.map (·.fd)).count fd) cmd).flatten := by
  induction replicas generalizing delivery with
  | nil => rfl
  | cons replica rest ih =>
      have later := ih (fun index => delivery (index + 1))
        fun data result member => whole data result (List.mem_cons_of_mem _ member)
      simp only [sentTo, feedWrites, List.flatMap_cons, List.map_cons] at later ⊢
      rw [later]
      by_cases here : replica.fd = fd
      · have taken := whole cmd (delivery 0).result (by simp [feedWrites, here])
        simp [Event.sent, here, taken, WriteResult.taken, List.replicate_succ]
      · simp [Event.sent, here]

theorem feed_marks (cmd : Bytes) (delivery : Nat → Delivery) (fd : Int) (feed : Feed)
    (replicas : List Replica) (whole : Whole fd (feedWrites cmd delivery replicas))
    (unmarked : fd ∉ feed.toRemove) : fd ∉ (feedReplicas cmd delivery feed replicas).1.toRemove := by
  induction replicas generalizing delivery feed with
  | nil => exact unmarked
  | cons replica rest ih =>
      have later := fun feed => ih (fun index => delivery (index + 1)) feed
        fun data result member => whole data result (List.mem_cons_of_mem _ member)
      have first : fd ∉ (feedReplica cmd (delivery 0) feed replica).1.toRemove := by
        simp only [feedReplica]
        split
        case isTrue => exact unmarked
        case isFalse failed =>
          have other : replica.fd ≠ fd := by
            intro here
            exact failed (whole cmd (delivery 0).result (by simp [feedWrites, here]))
          split
          · exact unmarked
          · split
            · simp [unmarked, Ne.symm other]
            · exact unmarked
      exact later _ first

theorem removals_count (marked : List Int) (fd : Int) (unmarked : fd ∉ marked) (replicas : List Replica) :
    ((marked.foldl removeReplica replicas).map (·.fd)).count fd = (replicas.map (·.fd)).count fd := by
  induction marked generalizing replicas with
  | nil => rfl
  | cons mark rest ih =>
      rw [List.mem_cons, not_or] at unmarked
      rw [List.foldl_cons, ih unmarked.2]
      induction replicas with
      | nil => rfl
      | cons replica others ihOthers =>
          by_cases hit : replica.fd = mark
          · have other : replica.fd ≠ fd := fun same => unmarked.1 (same.symm.trans hit)
            simp [removeReplica, hit, Ne.symm unmarked.1]
          · simp only [removeReplica] at ihOthers
            simp [removeReplica, hit, List.count_cons, ihOthers]

/-- A connection that takes all writes gets the command once for each of its entries and keeps them. -/
theorem fed_once_each (env : Env) (input : Bytes) (server : Server) (isPrimary : server.repl.role = .primary)
    (fd : Int) (whole : Whole fd (fedEvents env input server)) :
    sentTo fd (fedEvents env input server) =
        (List.replicate ((fds server).count fd) (framed (env.alloc .feedCopy) input)).flatten ∧
      (fds (fedServer env input server)).count fd = (fds server).count fd := by
  simp only [fedEvents, fedServer, replicationFeedSlaves, isPrimary, ↓reduceIte] at whole ⊢
  have writes : Whole fd (feedWrites (framed (env.alloc .feedCopy) input) env.delivery server.repl.replicas) :=
    fun data result member => whole data result (List.mem_cons_of_mem _ member)
  constructor
  · exact feed_writes_sent _ env.delivery fd server.repl.replicas writes
  · have marks := feed_marks (framed (env.alloc .feedCopy) input) env.delivery fd
      ⟨server.repl.replOffset, []⟩ server.repl.replicas writes List.not_mem_nil
    simp only [fds]
    rw [removals_count _ fd marks, feed_replicas_fds]

end Feed

end CrimsonCache.SplitWrites
