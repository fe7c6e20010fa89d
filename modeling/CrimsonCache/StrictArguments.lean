import CrimsonCache.LiveContents
import CrimsonCache.Numerals
import CrimsonCache.ServerRuns

/-!
Which argument lists SET and EXPIRE accept. The arity check bounds what SET is
given from below only, its options are compared with two words and passed over
when they are neither, and the counts go through `atoll` and `atol`, which read
the digits they find. INCR looks at where its number ends, these two do not.
-/

namespace CrimsonCache.StrictArguments

open CString Numerals Dictionary DeadlineMap Persistence Replies ServerState DataCommands StoredData
  Commands WriteEffects LiveContents ServerRuns

section Words

/-- The text is a decimal integer and nothing else. -/
def isInteger (text : Bytes) : Bool := (numeral text).isSome

/-- What SET is described to take: a key and a value, with a lifetime or without. -/
def setUnderstood : List Bytes → Bool
  | [_, _] => true
  | [_, _, option, count] =>
      (strcaseeq option (ascii "EX") || strcaseeq option (ascii "PX")) && isInteger count
  | _ => false

def expireUnderstood : List Bytes → Bool
  | [_, count] => isInteger count
  | _ => false

end Words

section Property

/-- The command returns an error and answers with one. -/
def Refused (outcome : Outcome) : Prop :=
  outcome.result = .err ∧ ∀ event ∈ outcome.events, ∃ fd text, event = .reply fd (.error text)

/-- A reader finds after the command what it would have found before. -/
def Unchanged (env : Env) (before after : Server) : Prop :=
  ∀ now, (∀ index, env.clock index ≤ now) → liveMapping now after.db = liveMapping now before.db

/-- The outcome of a SET is OK for a list that is understood only, and an error without an effect
    for every other one. -/
def SetStrict (env : Env) (sock : Int) (args : List Bytes) (server : Server) (outcome : Outcome) :
    Prop :=
  (.reply sock (.string (ascii "OK")) ∈ outcome.events → setUnderstood args = true) ∧
    (setUnderstood args = false → Refused outcome ∧ Unchanged env server outcome.server)

/-- The lookup of EXPIRE finds no live key. -/
def Absent (env : Env) (key : Bytes) (server : Server) : Prop :=
  fetch (expired (env.clock 0)) (mapping server.db) key = none

def ExpireStrict (env : Env) (sock : Int) (args : List Bytes) (server : Server)
    (outcome : Outcome) : Prop :=
  (.reply sock (.integer 1) ∈ outcome.events → expireUnderstood args = true) ∧
    (expireUnderstood args = false →
      (Refused outcome ∨
          Absent env (arg args 0) server ∧ outcome.events = [.reply sock (.integer 0)]) ∧
        Unchanged env server outcome.server)

end Property

section Set

/-- The value, and the entry of a key that has none yet, get their memory. -/
def stores (env : Env) (db : Dict) (key : Bytes) : Bool :=
  env.alloc .obj && env.alloc .objPtr &&
    ((env.alloc .dictEntry && env.alloc .dictKey) || (mapping db key).isSome)

variable (env : Env) (db : Dict) (rep : Represents db)

include rep in
theorem store_string_accepts (reading : Nat) (key value : Bytes) (expire : Nat) (reply : Reply) :
    (storeString env reading db key value expire reply).result = .ok ↔ stores env db key = true := by
  have added (obj : CcObj) := add_result env.dict (env.clock (reading + 1)) db rep key obj
  simp only [storeString, stores]
  cases memory : env.alloc .obj && env.alloc .objPtr with
  | false => simp
  | true =>
      simp only [↓reduceIte, Bool.true_and]
      split
      case isTrue stored =>
        rw [added] at stored
        simpa [Env.dict] using stored
      case isFalse refused =>
        rw [added] at refused
        simpa [Env.dict] using refused

theorem store_string_refused (reading : Nat) (key value : Bytes) (expire : Nat) (reply : Reply)
    (failed : (storeString env reading db key value expire reply).result ≠ .ok) :
    (storeString env reading db key value expire reply).result = .err ∧
      ∃ text, (storeString env reading db key value expire reply).reply = .error text := by
  simp only [storeString] at failed ⊢
  split
  case isFalse => exact ⟨rfl, _, rfl⟩
  case isTrue allocated =>
    simp only [allocated, ↓reduceIte] at failed
    split at failed
    case isTrue => simp at failed
    case isFalse refused => simp [refused]

theorem set_dispatch (execute : Nat → Bytes → Server → Outcome) (sock : Int) (args : List Bytes)
    (server : Server) :
    dispatch execute env sock (ascii "set" :: args) server =
      if args.length < 2 then refuse server sock "err wrong number of arguments"
      else answered server sock (setCommand env (ascii "set" :: args) server.db) := by
  have row : commands.find? (·.name = ascii "set") = some ⟨.set, ascii "set", 3, -1⟩ := by decide
  have arity : wrongArity ⟨.set, ascii "set", 3, -1⟩ (ascii "set" :: args).length =
      decide (args.length < 2) := by
    simp only [wrongArity, List.length_cons]
    rw [Bool.eq_iff_iff]
    simp
    omega
  have name : arg (ascii "set" :: args) 0 = ascii "set" := rfl
  simp only [dispatch, name, row, arity, decide_eq_true_eq]
  rfl

theorem refuse_refused (sock : Int) (message : String) (server : Server) :
    Refused (refuse server sock message) := by
  refine ⟨rfl, fun event member => ?_⟩
  simp only [refuse] at member
  split at member
  · exact ⟨sock, _, List.mem_singleton.mp member⟩
  · cases member

/-- What is refused has no other answer. -/
theorem Refused.answer {outcome : Outcome} (refused : Refused outcome) {sock : Int} {reply : Reply}
    (answered : .reply sock reply ∈ outcome.events) : ∃ text, reply = .error text := by
  obtain ⟨fd, text, same⟩ := refused.2 _ answered
  cases same
  exact ⟨text, rfl⟩

/-- SET is strict about the lists that are understood and those it has no choice but to refuse. -/
theorem set_strict_iff (execute : Nat → Bytes → Server → Outcome) (sock : Int) (args : List Bytes)
    (server : Server) (sound : Represents server.db) :
    SetStrict env sock args server (dispatch execute env sock (ascii "set" :: args) server) ↔
      setUnderstood args = true ∨ args.length < 2 ∨ stores env server.db (arg args 0) = false := by
  rw [set_dispatch]
  by_cases few : args.length < 2
  · have refused := refuse_refused sock "err wrong number of arguments" server
    refine iff_of_true ?_ (Or.inr (Or.inl few))
    rw [if_pos few]
    constructor
    · intro answered
      obtain ⟨text, same⟩ := refused.answer answered
      cases same
    · exact fun _ => ⟨refused, fun _ _ => rfl⟩
  · have key : arg (ascii "set" :: args) 1 = arg args 0 := rfl
    have accepts := store_string_accepts env server.db sound 1 (arg args 0)
      (arg (ascii "set" :: args) 2) (setExpire env (ascii "set" :: args)) (.string (ascii "OK"))
    have answer : setCommand env (ascii "set" :: args) server.db =
        storeString env 1 server.db (arg args 0) (arg (ascii "set" :: args) 2)
          (setExpire env (ascii "set" :: args)) (.string (ascii "OK")) := rfl
    simp only [few, ↓reduceIte, false_or, SetStrict, answered, answer]
    cases stored : stores env server.db (arg args 0) with
    | true =>
        rw [stored] at accepts
        have ok := accepts.mpr rfl
        have reply := store_string_reply env server.db 1 _ _ _ _ ok
        simp only [reply, List.mem_singleton, forall_const, Refused, ok]
        cases setUnderstood args <;> simp
    | false =>
        rw [stored] at accepts
        have failed : _ ≠ _ := fun ok => absurd (accepts.mp ok) (by simp)
        obtain ⟨error, text, reply⟩ := store_string_refused env server.db 1 _ _ _ _ failed
        have kept := store_string_failed env server.db sound 1 _ _ _ _ failed
        refine iff_of_true ⟨?_, fun _ => ⟨⟨error, ?_⟩, ?_⟩⟩ (Or.inr rfl)
        · simp [reply]
        · intro event member
          exact ⟨sock, text, by rw [List.mem_singleton.mp member, reply]⟩
        · exact fun now _ => congrArg (sweep (expired now)) kept

end Set

section Expire

variable (env : Env)

theorem expire_dispatch (execute : Nat → Bytes → Server → Outcome) (sock : Int) (args : List Bytes)
    (server : Server) :
    dispatch execute env sock (ascii "expire" :: args) server =
      if args.length ≠ 2 then refuse server sock "err wrong number of arguments"
      else answered server sock (expireCommand env (ascii "expire" :: args) server.db) := by
  have row : commands.find? (·.name = ascii "expire") = some ⟨.expire, ascii "expire", 3, 3⟩ := by
    decide
  have arity : wrongArity ⟨.expire, ascii "expire", 3, 3⟩ (ascii "expire" :: args).length =
      decide (args.length ≠ 2) := by
    simp only [wrongArity, List.length_cons]
    rw [Bool.eq_iff_iff]
    simp
    omega
  have name : arg (ascii "expire" :: args) 0 = ascii "expire" := rfl
  simp only [dispatch, name, row, arity, decide_eq_true_eq]
  rfl

theorem expire_absent (args : List Bytes) (server : Server) (rep : Represents server.db)
    (absent : Absent env (arg args 0) server) :
    (expireCommand env (ascii "expire" :: args) server.db).reply = .integer 0 ∧
      ∀ now, env.clock 0 ≤ now →
        liveMapping now (expireCommand env (ascii "expire" :: args) server.db).db =
          liveMapping now server.db := by
  obtain ⟨-, answer⟩ := mapping_get (env.clock 0) server.db rep (arg args 0)
  have key : arg (ascii "expire" :: args) 1 = arg args 0 := rfl
  have read (now : Nat) (passed : env.clock 0 ≤ now) := get_live now server.db rep (env.clock 0)
    passed (arg args 0)
  rw [absent] at answer
  simp only [expireCommand, key]
  split
  case h_1 after got =>
    rw [got] at read
    exact ⟨rfl, read⟩
  case h_2 after obj got =>
    rw [got] at answer
    cases answer

theorem expire_present (args : List Bytes) (server : Server) (rep : Represents server.db)
    (present : ¬ Absent env (arg args 0) server) :
    (expireCommand env (ascii "expire" :: args) server.db).reply = .integer 1 ∧
      (expireCommand env (ascii "expire" :: args) server.db).result = .ok := by
  obtain ⟨-, answer⟩ := mapping_get (env.clock 0) server.db rep (arg args 0)
  have key : arg (ascii "expire" :: args) 1 = arg args 0 := rfl
  simp only [expireCommand, key]
  split
  case h_1 after got =>
    rw [got] at answer
    exact absurd answer.symm present
  case h_2 => exact ⟨rfl, rfl⟩

/-- EXPIRE is strict about the counts that are integers and the keys that are not there. -/
theorem expire_strict_iff (execute : Nat → Bytes → Server → Outcome) (sock : Int)
    (args : List Bytes) (server : Server) (rep : Represents server.db) :
    ExpireStrict env sock args server (dispatch execute env sock (ascii "expire" :: args) server) ↔
      expireUnderstood args = true ∨ args.length ≠ 2 ∨ Absent env (arg args 0) server := by
  rw [expire_dispatch]
  by_cases other : args.length ≠ 2
  · have refused := refuse_refused sock "err wrong number of arguments" server
    refine iff_of_true ?_ (Or.inr (Or.inl other))
    rw [if_pos other]
    constructor
    · intro answered
      obtain ⟨text, same⟩ := refused.answer answered
      cases same
    · exact fun _ => ⟨Or.inl refused, fun _ _ => rfl⟩
  · simp only [other, ↓reduceIte, false_or]
    by_cases absent : Absent env (arg args 0) server
    · obtain ⟨reply, kept⟩ := expire_absent env args server rep absent
      refine iff_of_true ⟨?_, fun _ => ⟨Or.inr ⟨absent, ?_⟩, ?_⟩⟩ (Or.inr absent)
      · simp [answered, reply]
      · simp [answered, reply]
      · exact fun now passed => kept now (passed 0)
    · obtain ⟨reply, ok⟩ := expire_present env args server rep absent
      simp only [ExpireStrict, answered, reply, List.mem_singleton, forall_const, Refused, ok, absent]
      cases expireUnderstood args <;> simp

end Expire

/-- In every state, SET and EXPIRE accept only what they understand, and refuse the rest without an
    effect, exactly for the lists that are understood, that have the wrong number of words, or for
    which the memory or the key is missing. -/
theorem arguments_understood_iff (execute : Nat → Bytes → Server → Outcome) (env : Env) (sock : Int)
    (args : List Bytes) (server : Server) (reachable : Reachable server) :
    (SetStrict env sock args server (dispatch execute env sock (ascii "set" :: args) server) ↔
        setUnderstood args = true ∨ args.length < 2 ∨ stores env server.db (arg args 0) = false) ∧
      (ExpireStrict env sock args server
          (dispatch execute env sock (ascii "expire" :: args) server) ↔
        expireUnderstood args = true ∨ args.length ≠ 2 ∨ Absent env (arg args 0) server) := by
  have rep := (reachable_wellformed server reachable).sound.rep
  exact ⟨set_strict_iff env execute sock args server rep,
    expire_strict_iff env execute sock args server rep⟩

theorem lifetime_understood :
    SetStrict (calm 0 []) 7 [ascii "k", ascii "v", ascii "ex", ascii "-10"] oneClient
      (dispatch (fun _ _ server => ⟨server, [], .unknown⟩) (calm 0 []) 7
        [ascii "set", ascii "k", ascii "v", ascii "ex", ascii "-10"] oneClient) :=
  (arguments_understood_iff _ (calm 0 []) 7 [ascii "k", ascii "v", ascii "ex", ascii "-10"] oneClient
    one_client_reachable).1.mpr (Or.inl (by decide +kernel))

/-- An unquoted value loses its second word, a lifetime without a count is none, and a count that
    is no number is zero. -/
theorem misunderstood_accepted :
    Reachable oneClient ∧
      ¬ SetStrict (calm 0 []) 7 [ascii "k", ascii "two", ascii "words"] oneClient
        (dispatch (fun _ _ server => ⟨server, [], .unknown⟩) (calm 0 []) 7
          [ascii "set", ascii "k", ascii "two", ascii "words"] oneClient) ∧
      ¬ SetStrict (calm 0 []) 7 [ascii "k", ascii "v", ascii "EX"] oneClient
        (dispatch (fun _ _ server => ⟨server, [], .unknown⟩) (calm 0 []) 7
          [ascii "set", ascii "k", ascii "v", ascii "EX"] oneClient) ∧
      Reachable (storing "SET k v\r\n") ∧
      ¬ ExpireStrict (calm 0 []) 7 [ascii "k", ascii "soon"] (storing "SET k v\r\n")
        (dispatch (fun _ _ server => ⟨server, [], .unknown⟩) (calm 0 []) 7
          [ascii "expire", ascii "k", ascii "soon"] (storing "SET k v\r\n")) := by
  refine ⟨one_client_reachable, ?_, ?_, storing_reachable _ (by decide), ?_⟩
  · rintro ⟨accepted, -⟩
    exact absurd (accepted (by decide +kernel)) (by decide +kernel)
  · rintro ⟨accepted, -⟩
    exact absurd (accepted (by decide +kernel)) (by decide +kernel)
  · rintro ⟨accepted, -⟩
    exact absurd (accepted (by decide +kernel)) (by decide +kernel)

end CrimsonCache.StrictArguments
