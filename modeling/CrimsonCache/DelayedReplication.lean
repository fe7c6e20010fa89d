import CrimsonCache.Library.KeyEffects
import CrimsonCache.AppliedWrites
import CrimsonCache.ReplicaAgreement
import CrimsonCache.WritePropagation

/-!
A primary and a replica with the copies of the writes between them. The two
servers read their own clocks, so that what has a deadline may differ on the way;
what has none agrees, and goes on agreeing while INCR finds a deadline on both
sides or on neither.
-/

namespace CrimsonCache.DelayedReplication

open CString Dictionary DeadlineMap KeyEffects Replies Replication Tokenizer ServerState DataCommands
  StoredData Commands TransactionSteps WriteEffects ReplicationThread ServerRuns LiveContents
  WritePropagation AppliedWrites ReplicaAgreement Framing Runs

section Effects

/-- What stays at a key whatever the clock says. -/
def lasting (m : Mapping) (key : Bytes) : Option Bytes :=
  ((m key).filter fun binding => binding.2 = 0).map Prod.fst

/-- What INCR leaves at a key. What is no number stays. -/
def incremented (old : Option Bytes) : Bytes :=
  match startValue (old.map fun value => (value, 0)) with
  | none => old.getD []
  | some value => snprintf 32 (decimalInt (Int.bmod (value + 1) (2 ^ 64)))

/-- What a write does to what stays at a key, given whether it met or made a deadline. -/
def lastingEffect (argv : List Bytes) (timed : Bool) (key : Bytes) : Command → Effect Bytes
  | .set => if key = arg argv 1 then if timed then .clear else .put (arg argv 2) else .same
  | .del => if key ∈ argv.tail then .clear else .same
  | .expire => if key = arg argv 1 then .clear else .same
  | .incr => if key = arg argv 1 then if timed then .same else .revised else .same
  | _ => .same

/-- SET gives its key a deadline, or INCR finds one. -/
def meetsDeadline (env : Env) (argv : List Bytes) (m : Mapping) : Command → Bool
  | .set => setExpire env argv ≠ 0
  | .incr => (fetch (expired (env.clock 0)) m (arg argv 1)).any fun binding => binding.2 ≠ 0
  | _ => false

/-- The new deadline of an EXPIRE wraps to the number that means there is none. -/
def wrapsToNone (env : Env) (argv : List Bytes) (m : Mapping) : Command → Bool
  | .expire => (fetch (expired (env.clock 0)) m (arg argv 1)).isSome &&
      wrap64 (env.clock 1 + mulLong (atol (arg argv 2)) 1000) = 0
  | _ => false

theorem lasting_put (m : Mapping) (key : Bytes) (value : Bytes) (deadline : Nat) (other : Bytes) :
    lasting (put m key value deadline) other =
      if other = key then if deadline = 0 then some value else none else lasting m other := by
  by_cases same : other = key
  · simp only [lasting, put, same, ↓reduceIte, Option.filter_some]
    by_cases zero : deadline = 0 <;> simp [zero]
  · simp [lasting, put, same]

theorem lasting_settle (clock : Nat) (m : Mapping) (key : Bytes) :
    lasting (settle (expired clock) m key) = lasting m := by
  funext other
  by_cases same : other = key
  · subst same
    simp only [lasting, settle]
    cases bound : m other with
    | none => simp [bound]
    | some binding =>
        by_cases gone : expired clock binding.2 = true
        · have timed : binding.2 ≠ 0 := by
            intro zero
            simp [expired, zero] at gone
          simp [gone, drop, timed]
        · simp [gone, bound]
  · simp only [lasting, settle_other (expired clock) m key other same]

theorem lasting_del (keys : List Bytes) (m : Mapping) (key : Bytes) :
    lasting (delMap keys m) key = if key ∈ keys then none else lasting m key := by
  rw [lasting, del_map_eq]
  split
  · rfl
  · rfl

/-- A lookup that finds no deadline finds what stays. -/
theorem lasting_fetch (clock : Nat) (m : Mapping) (key : Bytes)
    (untimed : ∀ binding, fetch (expired clock) m key = some binding → binding.2 = 0) :
    lasting m key = (fetch (expired clock) m key).map Prod.fst := by
  simp only [fetch, lasting] at untimed ⊢
  cases bound : m key with
  | none => rfl
  | some binding =>
      rw [bound, Option.filter_some] at untimed
      rw [Option.filter_some, Option.filter_some]
      cases gone : expired clock binding.2 with
      | true =>
          have timed : binding.2 ≠ 0 := by
            intro zero
            simp [expired, zero] at gone
          simp [timed]
      | false =>
          have zero := untimed binding (by simp [gone])
          simp [zero]

/-- A lookup that finds a deadline finds nothing that stays. -/
theorem timed_fetch (clock : Nat) (m : Mapping) (key : Bytes) (binding : Bytes × Nat)
    (found : fetch (expired clock) m key = some binding) (timed : binding.2 ≠ 0) :
    lasting m key = none := by
  obtain ⟨-, bound⟩ := settle_live (expired clock) m key binding found
  simp [lasting, bound, timed]

theorem incr_lasting (env : Env) (argv : List Bytes) (m : Mapping) (key : Bytes) :
    lasting (incrMap env argv m) key =
      (lastingEffect argv (meetsDeadline env argv m .incr) key .incr).run incremented
        (lasting m key) := by
  have stays := lasting_fetch (env.clock 0) m (arg argv 1)
  have timed := timed_fetch (env.clock 0) m (arg argv 1)
  cases bound : fetch (expired (env.clock 0)) m (arg argv 1) with
  | none =>
      have absent : lasting m (arg argv 1) = none := by simpa [bound] using stays
      simp only [incrMap, bound, lastingEffect, meetsDeadline, startValue, lasting_put]
      by_cases same : key = arg argv 1
      · simp [same, absent, Effect.run, incremented, startValue]
      · simp [same, Effect.run]
  | some binding =>
      rcases binding with ⟨value, deadline⟩
      rw [bound] at stays timed
      simp only [incrMap, bound, lastingEffect, meetsDeadline]
      by_cases zero : deadline = 0
      · subst zero
        have there : lasting m (arg argv 1) = some value := by simpa using stays
        cases started : startValue (some (value, 0)) with
        | none =>
            simp only [lasting_settle]
            by_cases same : key = arg argv 1
            · simp [same, there, Effect.run, incremented, started]
            · simp [same, Effect.run]
        | some number =>
            simp only [lasting_put]
            by_cases same : key = arg argv 1
            · simp [same, there, Effect.run, incremented, started]
            · simp [same, Effect.run]
      · have absent : lasting m (arg argv 1) = none := timed (value, deadline) rfl zero
        cases startValue (some (value, deadline)) with
        | none =>
            simp only [lasting_settle]
            simp [zero, Effect.run]
        | some number =>
            simp only [lasting_put]
            by_cases same : key = arg argv 1
            · simp [same, zero, absent, Effect.run]
            · simp [same, Effect.run]

/-- What a write does to what stays at a key depends on nothing else there. -/
theorem row_lasting (env : Env) (argv : List Bytes) (m : Mapping) (row : CommandDef)
    (member : row ∈ commands) (write : isWriteCommand row.name = true)
    (kept : wrapsToNone env argv m row.command = false) (key : Bytes) :
    lasting (writeMap env argv m row.command) key =
      (lastingEffect argv (meetsDeadline env argv m row.command) key row.command).run incremented
        (lasting m key) := by
  rcases write_rows row member write with same | same | same | same
  · simp only [same, writeMap, setMap, lasting_put, lastingEffect, meetsDeadline]
    by_cases here : key = arg argv 1
    · by_cases zero : setExpire env argv = 0 <;> simp [here, zero, Effect.run]
    · simp [here, Effect.run]
  · simp only [same, writeMap, lasting_del, lastingEffect]
    by_cases inside : key ∈ argv.tail <;> simp [inside, Effect.run]
  · simp only [same, writeMap, expireMap, lastingEffect, wrapsToNone] at kept ⊢
    cases bound : fetch (expired (env.clock 0)) m (arg argv 1) with
    | none =>
        have absent := lasting_fetch (env.clock 0) m (arg argv 1) (by simp [bound])
        rw [lasting_settle]
        by_cases here : key = arg argv 1
        · subst here
          simp [absent, bound, Effect.run]
        · simp [here, Effect.run]
    | some binding =>
        have nonzero : wrap64 (env.clock 1 + mulLong (atol (arg argv 2)) 1000) ≠ 0 := by
          simpa [bound] using kept
        by_cases here : key = arg argv 1 <;> simp [lasting_put, here, nonzero, Effect.run]
  · rw [same]
    exact incr_lasting env argv m key

end Effects

section Link

/-- A copy on its way, with what its write met or made on the primary. -/
structure Parcel where
  data : Bytes
  timed : Bool
  deriving DecidableEq

structure Link where
  primary : Server
  replica : Server
  flight : List Parcel

inductive LinkStep where
  | write (oracle : Oracle) (sock : Int) (input : Bytes)
  | deliver (oracle : Oracle)

/-- A command that is found and has a right number of arguments. -/
def acceptedRow (words : List Bytes) : Option CommandDef :=
  (commands.find? (·.name = arg (lower words) 0)).filter (!wrongArity · words.length)

/-- Whether a write meets or makes a deadline. -/
def timedBy (env : Env) (words : List Bytes) (m : Mapping) : Bool :=
  (acceptedRow words).any fun row => meetsDeadline env (lower words) m row.command

def wraps (env : Env) (words : List Bytes) (m : Mapping) : Bool :=
  (acceptedRow words).any fun row => wrapsToNone env (lower words) m row.command

def nextLink (link : Link) : LinkStep → Link
  | .write oracle sock input =>
      let outcome := executeCommand oracle sock input link.primary
      let copies := (fedCommands outcome.events).map fun cmd =>
        Parcel.mk (framed ((oracle []).alloc .feedCopy) cmd)
          (timedBy (oracle []) (tokens cmd) (mapping link.primary.db))
      { link with primary := outcome.server, flight := link.flight ++ copies }
  | .deliver oracle =>
      match link.flight with
      | [] => link
      | parcel :: rest =>
          { link with
            replica := (receiveFromPrimary (fun _ => oracle) parcel.data link.replica).1
            flight := rest }

/-- An input that goes out as a line of its own. -/
def SingleLine (malloc : Bool) (input : Bytes) : Prop :=
  0 ∉ input ∧ ∃ line, framed malloc input = line ++ crlf ∧ line ≠ [] ∧ Undivided cr lf line ∧
    line.length < 2 ^ 31

/-- Writes of clients of the primary outside of a transaction; a queued command is a write
    when its EXEC runs it. The replica has memory for what it runs. -/
def Allowed (link : Link) : LinkStep → Prop
  | .write oracle sock input =>
      link.primary.repl.role = .primary ∧ 0 ≤ sock ∧ inTransaction sock link.primary = false ∧
        isWriteCommand (commandName input) = true ∧ input.length < 2 ^ 31 ∧
          SingleLine ((oracle []).alloc .feedCopy) input
  | .deliver oracle => oracle.Allocates

/-- A delivered write meets a deadline if it met one on the primary, and no deadline wraps to
    the number that means there is none. -/
def Steady (link : Link) : LinkStep → Prop
  | .write oracle _ input => wraps (oracle []) (tokens input) (mapping link.primary.db) = false
  | .deliver oracle => ∀ parcel, link.flight.head? = some parcel →
      timedBy (oracle []) (tokens parcel.data) (mapping link.replica.db) = parcel.timed ∧
        wraps (oracle []) (tokens parcel.data) (mapping link.replica.db) = false

instance (link : Link) (oracle : Oracle) (sock : Int) (input : Bytes) :
    Decidable (Steady link (.write oracle sock input)) :=
  inferInstanceAs (Decidable (wraps _ _ _ = false))

/-- Equal databases and nothing on the way. -/
structure Begins (link : Link) : Prop where
  primary : Wellformed link.primary
  replica : Wellformed link.replica
  idle : link.replica.replicaBuffer = []
  unsent : link.flight = []
  same : mapping link.replica.db = mapping link.primary.db

/-- No key with a deadline is live. -/
def Settled (now : Nat) (m : Mapping) : Prop :=
  ∀ key binding, fetch (expired now) m key = some binding → binding.2 = 0

end Link

section Convergence

/-- What a copy will do to what stays at a key. -/
def parcelEffect (key : Bytes) (parcel : Parcel) : Effect Bytes :=
  ((acceptedRow (tokens parcel.data)).map fun row =>
    lastingEffect (lower (tokens parcel.data)) parcel.timed key row.command).getD .same

/-- A parcel holds one line, and that is a write. -/
structure Sealed (parcel : Parcel) : Prop where
  write : isWriteCommand (commandName parcel.data) = true
  line : ∃ line, parcel.data = line ++ crlf ∧ line ≠ [] ∧ Undivided cr lf line ∧ 0 ∉ line ∧
    line.length < 2 ^ 31

/-- What stays on the primary is what the copies on their way will make of the replica. -/
structure Converging (link : Link) : Prop where
  primary : Wellformed link.primary
  ready : QueuesReady link.replica.clientList
  sound : Sound link.replica.db
  idle : link.replica.replicaBuffer = []
  parcels : ∀ parcel ∈ link.flight, Sealed parcel
  agree : ∀ key, lasting (mapping link.primary.db) key =
    runAll incremented (link.flight.map (parcelEffect key)) (lasting (mapping link.replica.db) key)

theorem apply_words_row (env : Env) (words : List Bytes) (m : Mapping) :
    applyWords env words m =
      match acceptedRow words with
      | none => m
      | some row => handlerMap env (lower words) m row.command := by
  simp only [applyWords, acceptedRow]
  cases commands.find? (·.name = arg (lower words) 0) with
  | none => rfl
  | some row => cases arity : wrongArity row words.length <;> simp [Option.filter_some, arity]

theorem accepted_write (words : List Bytes) (row : CommandDef) (accepted : acceptedRow words = some row)
    (write : isWriteCommand (arg (lower words) 0) = true) :
    row ∈ commands ∧ isWriteCommand row.name = true := by
  obtain ⟨found, -⟩ := Option.filter_eq_some_iff.mp accepted
  have named : row.name = arg (lower words) 0 := by simpa using List.find?_some found
  exact ⟨List.mem_of_find?_eq_some found, by rw [named]; exact write⟩

theorem write_row_map (env : Env) (argv : List Bytes) (m : Mapping) (row : CommandDef)
    (member : row ∈ commands) (write : isWriteCommand row.name = true) :
    handlerMap env argv m row.command = writeMap env argv m row.command := by
  rcases write_rows row member write with same | same | same | same <;> rw [same] <;> rfl

/-- A write by the words of its line, seen from what stays. -/
theorem words_lasting (env : Env) (words : List Bytes) (m : Mapping)
    (write : isWriteCommand (arg (lower words) 0) = true) (kept : wraps env words m = false)
    (key : Bytes) :
    lasting (applyWords env words m) key =
      (((acceptedRow words).map fun row =>
        lastingEffect (lower words) (timedBy env words m) key row.command).getD .same).run incremented
          (lasting m key) := by
  rw [apply_words_row]
  simp only [timedBy, wraps] at kept ⊢
  cases accepted : acceptedRow words with
  | none => rfl
  | some row =>
      obtain ⟨member, isWrite⟩ := accepted_write words row accepted write
      simp only [accepted, Option.any_some] at kept
      simp only [write_row_map env (lower words) m row member isWrite, Option.map_some,
        Option.getD_some, Option.any_some]
      exact row_lasting env (lower words) m row member isWrite kept key

/-- An INCR that fails drops what has expired and nothing else. -/
theorem incr_failed_settles (env : Env) (argv : List Bytes) (db : Dict) (sound : Sound db)
    (failed : (incrCommand env argv db).result ≠ .ok) :
    mapping (incrCommand env argv db).db = settle (expired (env.clock 0)) (mapping db) (arg argv 1) := by
  have got := get_represents (env.clock 0) db sound.rep (arg argv 1)
  have read := (mapping_get (env.clock 0) db sound.rep (arg argv 1)).1
  rw [← read]
  simp only [incrCommand] at failed ⊢
  split
  case h_1 => rfl
  case h_2 value started =>
    simp only [started] at failed
    exact store_string_failed env _ got _ _ _ _ _ failed

/-- A write of a client is fed on and does what its words say, or it leaves what stays. -/
theorem primary_writes (oracle : Oracle) (sock : Int) (connected : 0 ≤ sock) (input : Bytes)
    (free : 0 ∉ input) (primary : Server) (sound : Sound primary.db)
    (isPrimary : primary.repl.role = .primary) (outside : inTransaction sock primary = false)
    (write : isWriteCommand (commandName input) = true) :
    (fedCommands (executeCommand oracle sock input primary).events = [input] ∧
        mapping (executeCommand oracle sock input primary).server.db =
          applyWords (oracle []) (tokens input) (mapping primary.db)) ∨
      (fedCommands (executeCommand oracle sock input primary).events = [] ∧
        lasting (mapping (executeCommand oracle sock input primary).server.db) =
          lasting (mapping primary.db)) := by
  have text := cstr_of_nul_free input free
  have direct : executeCommand oracle sock input primary = executeWith
      (fun index cmd server => executeCommandAt 0 (oracle.inner index) sock cmd server) (oracle [])
      sock input primary := rfl
  generalize (fun index cmd server => executeCommandAt 0 (oracle.inner index) sock cmd server) =
    execute at direct
  rw [direct]
  by_cases ok : (executeWith execute (oracle []) sock input primary).result = .ok
  · left
    constructor
    · obtain ⟨answer, events⟩ := write_fed execute (oracle []) sock input primary connected isPrimary
        outside (text.symm ▸ write) ok
      have unfed := unfed_feed (framed ((oracle []).alloc .feedCopy) (cstr input)) (oracle []).delivery
        primary.repl.replicas
      rw [events, text]
      rw [text] at unfed
      simpa [fedCommands] using unfed
    · obtain ⟨row, member, named, arity, handled, ran⟩ :=
        write_executed execute (oracle []) sock input primary outside ok
      rw [text] at named arity handled ran
      have contents := handler_mapping execute (oracle []) sock (lower (tokens input)) primary sound row
        member (named ▸ write) handled
      have found := row_of_name row member
      rw [named, commandName] at found
      rw [ran, propagate_db, contents]
      simp only [applyWords, found, arity, Bool.false_eq_true, ↓reduceIte]
      exact (write_row_map (oracle []) _ _ row member (named ▸ write)).symm
  · right
    have ran := execute_with_cases execute (oracle []) sock input primary
    generalize executeWith execute (oracle []) sock input primary = outcome at ran ok
    cases ran with
    | refused message => exact ⟨(refuse_silent (oracle []) primary sock message).unfed, rfl⟩
    | queued nonempty inside => simp [inside] at outside
    | ran row member named =>
        rw [text] at named ok ⊢
        have isWrite : isWriteCommand row.name = true := named ▸ write
        have plain := write_direct row member isWrite
        have unfed := (handler_unfed execute (oracle []) sock (lower (tokens input)) primary row.command
          (direct_row row member plain).2.1).1
        rw [propagate_eq] at ok ⊢
        have held : propagated sock (commandName input)
            (runHandler execute (oracle []) sock (lower (tokens input)) primary row.command) = false := by
          cases goes : propagated sock (commandName input)
              (runHandler execute (oracle []) sock (lower (tokens input)) primary row.command) with
          | false => rfl
          | true =>
              rw [if_pos goes] at ok
              simp only [propagated, Bool.and_eq_true, decide_eq_true_eq] at goes
              exact absurd goes.1.1.1.1 ok
        rw [held] at ok ⊢
        refine ⟨unfed, ?_⟩
        rcases write_rows row member isWrite with same | same | same | same
        · rw [same] at ok ⊢
          exact congrArg lasting (store_string_failed (oracle []) primary.db sound.rep _ _ _ _ _ ok)
        · rw [same] at ok
          exact absurd rfl ok
        · rw [same] at ok
          refine absurd ?_ ok
          simp only [Bool.false_eq_true, ↓reduceIte, runHandler, answered, expireCommand]
          split <;> rfl
        · rw [same] at ok ⊢
          refine (congrArg lasting (incr_failed_settles (oracle []) (lower (tokens input)) primary.db sound
            ok)).trans ?_
          exact lasting_settle _ _ _

/-- The replica applies the line of a parcel, and is then as it was before. -/
theorem parcel_received (oracle : Oracle) (allocates : oracle.Allocates) (parcel : Parcel)
    (sealed : Sealed parcel) (replica : Server) (ready : QueuesReady replica.clientList)
    (sound : Sound replica.db) (idle : replica.replicaBuffer = []) :
    let after := (receiveFromPrimary (fun _ => oracle) parcel.data replica).1
    mapping after.db = applyWords (oracle []) (tokens parcel.data) (mapping replica.db) ∧
      QueuesReady after.clientList ∧ Sound after.db ∧ after.replicaBuffer = [] := by
  obtain ⟨line, data, nonempty, undivided, free, short⟩ := sealed.line
  have whole := frames_line cr lf line [] crlf_distinct undivided
  have cut : frames cr lf [] (replica.replicaBuffer ++ parcel.data) = ([line], []) := by
    rw [idle, List.nil_append, data]
    simpa [crlf, frames] using whole
  have clean : 0 ∉ replica.replicaBuffer ++ parcel.data := by
    rw [idle, List.nil_append, data, List.mem_append]
    rintro (inside | ended)
    · exact free inside
    · exact absurd ended (by decide)
  obtain ⟨applied, thread, left⟩ := chunk_applies (fun _ => oracle) (fun _ => allocates) parcel.data
    replica ready sound clean (by simpa [cut] using short)
  have words : tokens parcel.data = tokens line := by
    rw [data]
    simpa using tokens_surrounded [] line crlf (by simp) crlf_blank
  rw [cut] at applied left
  simp only [applyLines, nonempty, ↓reduceIte, cstr_of_nul_free line free, ← words] at applied
  exact ⟨applied, thread.clientList ▸ ready, thread.sound, left⟩

theorem write_converging (link : Link) (converging : Converging link) (oracle : Oracle) (sock : Int)
    (input : Bytes) (allowed : Allowed link (.write oracle sock input))
    (steady : Steady link (.write oracle sock input)) :
    Converging (nextLink link (.write oracle sock input)) := by
  rcases allowed with ⟨isPrimary, connected, outside, write, short, free, line, data, nonempty,
    undivided, fits⟩
  rcases converging with ⟨wf, ready, sound, idle, parcels, agree⟩
  have after := execute_wellformed oracle sock input link.primary wf short
  have words := framed_tokens ((oracle []).alloc .feedCopy) input
  simp only [nextLink]
  rcases primary_writes oracle sock connected input free link.primary wf.sound isPrimary outside write with
    ⟨fed, contents⟩ | ⟨unfed, stays⟩
  · rw [fed]
    constructor
    · exact after
    · exact ready
    · exact sound
    · exact idle
    · intro parcel member
      rcases List.mem_append.mp member with old | new
      · exact parcels parcel old
      · obtain rfl := List.mem_singleton.mp new
        constructor
        · simpa only [commandName, words] using write
        · have clean := framed_free ((oracle []).alloc .feedCopy) input free
          rw [data] at clean
          exact ⟨line, data, nonempty, undivided, fun zero => clean (List.mem_append_left _ zero), fits⟩
    · intro key
      rw [contents, words_lasting (oracle []) (tokens input) (mapping link.primary.db) write steady key,
        agree key, List.map_cons, List.map_nil, List.map_append, List.map_cons, List.map_nil,
        run_all_snoc]
      simp only [parcelEffect, words]
  · rw [unfed, List.map_nil, List.append_nil]
    exact ⟨after, ready, sound, idle, parcels, fun key => (congrFun stays key).trans (agree key)⟩

theorem deliver_converging (link : Link) (converging : Converging link) (oracle : Oracle)
    (allocates : oracle.Allocates) (steady : Steady link (.deliver oracle)) :
    Converging (nextLink link (.deliver oracle)) := by
  have whole := converging
  rcases converging with ⟨wf, ready, sound, idle, parcels, agree⟩
  simp only [nextLink]
  cases flight : link.flight with
  | nil => exact whole
  | cons parcel rest =>
      obtain ⟨timed, kept⟩ := steady parcel (by simp [flight])
      rw [flight] at parcels agree
      have sealed := parcels parcel List.mem_cons_self
      obtain ⟨contents, readyAfter, soundAfter, idleAfter⟩ :=
        parcel_received oracle allocates parcel sealed link.replica ready sound idle
      constructor
      · exact wf
      · exact readyAfter
      · exact soundAfter
      · exact idleAfter
      · exact fun other member => parcels other (List.mem_cons_of_mem parcel member)
      · intro key
        rw [agree key, List.map_cons, run_all_cons]
        dsimp only
        rw [contents, words_lasting (oracle []) _ _ sealed.write kept key, timed]
        rfl

theorem begins_converging (link : Link) (begins : Begins link) : Converging link := by
  constructor
  · exact begins.primary
  · exact begins.replica.ready
  · exact begins.replica.sound
  · exact begins.idle
  · simp [begins.unsent]
  · intro key
    rw [begins.unsent, begins.same]
    rfl

theorem settled_live (now : Nat) (m : Mapping) (settled : Settled now m) (key : Bytes) :
    liveValue now m key = lasting m key :=
  (lasting_fetch now m key (settled key)).symm

theorem run_converging (start : Link) (begins : Begins start) (steps : List LinkStep)
    (admitted : Admitted Allowed nextLink start steps)
    (steady : Admitted Steady nextLink start steps) : Converging (run nextLink start steps) := by
  have both := (admitted_and _ _ _ start steps).mpr ⟨admitted, steady⟩
  refine run_invariant _ _ (fun link step holds taken => ?_) start (begins_converging start begins)
    steps both
  cases step with
  | write oracle sock input => exact write_converging link holds oracle sock input taken.1 taken.2
  | deliver oracle => exact deliver_converging link holds oracle taken.1 taken.2

/-- When all copies have arrived and nothing with a deadline is live, the two servers show
    the same. -/
theorem delays_converge (start : Link) (begins : Begins start) (steps : List LinkStep)
    (admitted : Admitted Allowed nextLink start steps) (steady : Admitted Steady nextLink start steps)
    (delivered : (run nextLink start steps).flight = []) (now : Nat)
    (settledPrimary : Settled now (mapping (run nextLink start steps).primary.db))
    (settledReplica : Settled now (mapping (run nextLink start steps).replica.db)) (key : Bytes) :
    liveValue now (mapping (run nextLink start steps).primary.db) key =
      liveValue now (mapping (run nextLink start steps).replica.db) key := by
  have agree := (run_converging start begins steps admitted steady).agree key
  rw [delivered, List.map_nil] at agree
  rw [settled_live now _ settledPrimary key, settled_live now _ settledReplica key, agree]
  rfl

end Convergence

section Samples

def emptyLink : Link := ⟨oneClient, follower, []⟩

theorem empty_link_begins : Begins emptyLink := by
  constructor
  · exact reachable_wellformed oneClient one_client_reachable
  · exact reachable_wellformed follower follower_reachable
  · decide
  · decide
  · rw [emptyLink, follower_empty]

/-- A line of one command. -/
theorem single_line (line : Bytes) (free : 0 ∉ line) (nonempty : line ≠ []) (whole : cr ∉ line)
    (short : line.length < 2 ^ 31) : SingleLine true (line ++ crlf) := by
  have framing : framed true (line ++ crlf) = line ++ crlf := by simp [framed]
  refine ⟨?_, line, framing, nonempty, Undivided.of_free cr lf whole, short⟩
  simpa [crlf, cr, lf] using free

def delayed (clock delay : Nat) (input : Bytes) : List LinkStep :=
  [.write (calm clock) 7 input, .deliver (calm (clock + delay))]

theorem delayed_allowed (link : Link) (clock delay : Nat) (line : Bytes)
    (ready : link.primary.repl.role = .primary ∧ inTransaction 7 link.primary = false)
    (text : isWriteCommand (commandName (line ++ crlf)) = true ∧ 0 ∉ line ∧ line ≠ [] ∧ cr ∉ line ∧
      (line ++ crlf).length < 1024) : Admitted Allowed nextLink link (delayed clock delay (line ++ crlf)) := by
  rcases text with ⟨write, free, nonempty, whole, short⟩
  have fits : line.length + 2 < 1024 := by simpa [crlf] using short
  refine ⟨⟨ready.1, by decide, ready.2, write, by omega, single_line line free nonempty whole (by omega)⟩,
    calm_allocates _, trivial⟩

def countedUp : List LinkStep :=
  delayed 0 5 (ascii "SET k 5" ++ crlf) ++ delayed 9 3 (ascii "INCR k" ++ crlf)

theorem entries_settled (now : Nat) (db : Dict)
    (untimed : ∀ entry ∈ db.table.flatten, expired now entry.val.expire = false →
      entry.val.expire = 0) : Settled now (mapping db) := by
  intro key binding found
  obtain ⟨there, alive⟩ := Option.filter_eq_some_iff.mp found
  obtain ⟨entry, listed, rfl⟩ := Option.map_eq_some_iff.mp there
  exact untimed entry (ChainedTable.lookup_mem _ _ _ _ listed)
    (by simpa [Dictionary.binding] using alive)

/-- Nothing here has a deadline, so that the delays do not matter. -/
theorem counted_up_converges :
    (run nextLink emptyLink countedUp).flight = [] ∧
      liveValue 20 (mapping (run nextLink emptyLink countedUp).primary.db) (ascii "k") =
        liveValue 20 (mapping (run nextLink emptyLink countedUp).replica.db) (ascii "k") := by
  have admitted : Admitted Allowed nextLink emptyLink countedUp :=
    (admitted_append _ _ _ _ _).mpr
      ⟨delayed_allowed _ 0 5 _ (by decide +kernel) (by decide +kernel),
        delayed_allowed _ 9 3 _ (by decide +kernel) (by decide +kernel)⟩
  have steady : Admitted Steady nextLink emptyLink countedUp := by
    refine ⟨by decide +kernel, fun parcel first => ?_, by decide +kernel, fun parcel first => ?_, trivial⟩
    · have same : some parcel = some ⟨ascii "SET k 5" ++ crlf, false⟩ :=
        first.symm.trans (by decide +kernel)
      obtain rfl := Option.some.inj same
      decide +kernel
    · have same : some parcel = some ⟨ascii "INCR k" ++ crlf, false⟩ :=
        first.symm.trans (by decide +kernel)
      obtain rfl := Option.some.inj same
      decide +kernel
  have delivered : (run nextLink emptyLink countedUp).flight = [] := by decide +kernel
  exact ⟨delivered, delays_converge emptyLink empty_link_begins countedUp admitted steady delivered 20
    (entries_settled 20 _ (by decide +kernel)) (entries_settled 20 _ (by decide +kernel)) _⟩

def deadlinePassed : List LinkStep :=
  delayed 0 0 (ascii "SET k 5 EX 1" ++ crlf) ++ delayed 900 600 (ascii "INCR k" ++ crlf)

/-- The INCR is executed before the deadline and delivered behind it. -/
theorem late_incr_diverges :
    Begins emptyLink ∧ Admitted Allowed nextLink emptyLink deadlinePassed ∧
      (run nextLink emptyLink deadlinePassed).flight = [] ∧
      Settled 2000 (mapping (run nextLink emptyLink deadlinePassed).primary.db) ∧
      Settled 2000 (mapping (run nextLink emptyLink deadlinePassed).replica.db) ∧
      liveValue 2000 (mapping (run nextLink emptyLink deadlinePassed).primary.db) (ascii "k") ≠
        liveValue 2000 (mapping (run nextLink emptyLink deadlinePassed).replica.db) (ascii "k") := by
  refine ⟨empty_link_begins, ?_, by decide +kernel, ?_, ?_, by decide +kernel⟩
  · exact (admitted_append _ _ _ _ _).mpr
      ⟨delayed_allowed _ 0 0 _ (by decide +kernel) (by decide +kernel),
        delayed_allowed _ 900 600 _ (by decide +kernel) (by decide +kernel)⟩
  · exact entries_settled 2000 _ (by decide +kernel)
  · exact entries_settled 2000 _ (by decide +kernel)

end Samples

end CrimsonCache.DelayedReplication
