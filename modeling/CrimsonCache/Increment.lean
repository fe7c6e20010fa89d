import CrimsonCache.AppliedWrites
import CrimsonCache.Numerals
import CrimsonCache.ServerRuns

/-!
INCR against integer arithmetic. `strtoll` reads a value of the range as it is,
but it also takes the empty string for zero, passes whitespace in front of a
numeral and saturates; the largest value wraps. `incr_command` looks only at
where the parser stopped.
-/

namespace CrimsonCache.Increment

open CString Numerals Dictionary DeadlineMap Replies ServerState DataCommands StoredData WriteEffects
  AppliedWrites ServerRuns

section Purpose

/-- A value whose successor is a `long long`. -/
def HasSuccessor (value : Int) : Prop := -2 ^ 63 ≤ value ∧ value < 2 ^ 63 - 1

instance (value : Int) : Decidable (HasSuccessor value) :=
  inferInstanceAs (Decidable (-2 ^ 63 ≤ value ∧ value < 2 ^ 63 - 1))

/-- The number that INCR is to count from, given the live binding of its key. -/
def countedFrom : Option (Bytes × Nat) → Option Int
  | none => some 0
  | some (text, _) => (numeral text).filter fun value => HasSuccessor value

/-- The handler stores the number at its key and returns it. -/
structure Stores (key : Bytes) (value : Int) (expire : Nat) (answer : Answer) : Prop where
  result : answer.result = .ok
  reply : answer.reply = .integer value
  stored : mapping answer.db key = some (decimalInt value, expire)

/-- The handler reports an error and leaves its key as it was. -/
structure Refuses (key : Bytes) (db : Dict) (answer : Answer) : Prop where
  result : answer.result = .err
  reply : ∃ message, answer.reply = .error message
  kept : mapping answer.db key = mapping db key

/-- INCR is exact or refuses. -/
structure ExactOrRefused (env : Env) (argv : List Bytes) (db : Dict) : Prop where
  exact : ∀ value,
    countedFrom (fetch (expired (env.clock 0)) (mapping db) (arg argv 1)) = some value →
      Stores (arg argv 1) (value + 1)
        (((fetch (expired (env.clock 0)) (mapping db) (arg argv 1)).map Prod.snd).getD 0)
        (incrCommand env argv db)
  refused : countedFrom (fetch (expired (env.clock 0)) (mapping db) (arg argv 1)) = none →
    Refuses (arg argv 1) db (incrCommand env argv db)

/-- A value on which the parser and the grammar of numerals agree: it is not empty, and a numeral
    in it has no whitespace in front and a successor. -/
structure Regular (bound : Option (Bytes × Nat)) : Prop where
  nonempty : ∀ text expire, bound = some (text, expire) → text ≠ []
  numerals : ∀ text expire value, bound = some (text, expire) →
    numeral (text.dropWhile isspace) = some value →
      text.dropWhile isspace = text ∧ HasSuccessor value

theorem absent_regular (bound : Option (Bytes × Nat)) (absent : bound = none) : Regular bound := by
  subst absent
  exact ⟨by simp, by simp⟩

end Purpose

section Parser

/-- A numeral has no whitespace in front. -/
theorem numeral_solid (text : Bytes) (value : Int) (read : numeral text = some value) :
    text.dropWhile isspace = text := by
  cases text with
  | nil => rfl
  | cons c rest =>
      have solid : isspace c = false := by
        by_cases minus : c = 45
        · rw [minus]
          decide
        · by_cases plus : c = 43
          · rw [plus]
            decide
          · have bare : sign (c :: rest) = (false, c :: rest) := by
              simp only [sign]
              split
              case h_1 same => exact absurd (List.cons.inj same).1 minus
              case h_2 same => exact absurd (List.cons.inj same).1 plus
              case h_3 => rfl
            simp only [numeral, bare] at read
            split at read
            case isFalse => cases read
            case isTrue number =>
              exact digit_solid c (((is_number_digits _).mp number).2 c List.mem_cons_self)
      simp [solid]

/-- What INCR is to count from, it counts from. -/
theorem counted_from_started (bound : Option (Bytes × Nat)) (value : Int)
    (counted : countedFrom bound = some value) :
    startValue bound = some value ∧ HasSuccessor value := by
  cases bound with
  | none =>
      obtain rfl := Option.some.inj counted
      exact ⟨rfl, by decide⟩
  | some binding =>
      obtain ⟨text, expire⟩ := binding
      simp only [countedFrom, Option.filter_eq_some_iff, decide_eq_true_eq] at counted
      obtain ⟨read, next⟩ := counted
      have whole := strtoll_numeral text value (by rw [numeral_solid text value read, read])
      have exact := saturated_in_range value next.1 (by have most := next.2; omega)
      exact ⟨by simp [startValue, whole, exact], next⟩

/-- The values that the parser takes and INCR is not to count from. -/
theorem started_iff_regular (bound : Option (Bytes × Nat)) :
    (countedFrom bound = none → startValue bound = none) ↔ Regular bound := by
  cases bound with
  | none => exact iff_of_true (by simp [countedFrom]) (absent_regular none rfl)
  | some binding =>
      obtain ⟨text, expire⟩ := binding
      constructor
      · intro refused
        have taken (number : Int) (read : strtoll text = (number, [])) :
            ∃ value, numeral text = some value ∧ HasSuccessor value := by
          have started : startValue (some (text, expire)) = some number := by simp [startValue, read]
          have counted : countedFrom (some (text, expire)) ≠ none := by
            intro uncounted
            rw [refused uncounted] at started
            cases started
          obtain ⟨value, read⟩ := Option.ne_none_iff_exists'.mp counted
          simp only [countedFrom, Option.filter_eq_some_iff, decide_eq_true_eq] at read
          exact ⟨value, read⟩
        constructor
        · rintro _ _ ⟨⟩ rfl
          obtain ⟨value, read, -⟩ := taken 0 rfl
          simp [numeral, sign, isNumber] at read
        · rintro _ _ value ⟨⟩ read
          obtain ⟨same, direct, next⟩ := taken _ (strtoll_numeral text value read)
          have solid := numeral_solid text same direct
          rw [solid, direct] at read
          exact ⟨solid, Option.some.inj read ▸ next⟩
      · rintro ⟨some, numerals⟩ uncounted
        by_cases whole : (strtoll text).2 = []
        · rcases strtoll_whole text whole with empty | ⟨value, read⟩
          · exact absurd empty (some text expire rfl)
          · obtain ⟨solid, next⟩ := numerals text expire value rfl read
            rw [solid] at read
            simp [countedFrom, read, next] at uncounted
        · simp [startValue, whole]

end Parser

section Command

variable (env : Env) (allocates : ∀ site, env.alloc site = true) (argv : List Bytes) (db : Dict)
  (sound : Sound db)

include allocates sound

/-- A number that has a successor is written and read without loss. -/
theorem incr_stores (value : Int) (next : HasSuccessor value)
    (started : startValue (fetch (expired (env.clock 0)) (mapping db) (arg argv 1)) = some value) :
    Stores (arg argv 1) (value + 1)
      (((fetch (expired (env.clock 0)) (mapping db) (arg argv 1)).map Prod.snd).getD 0)
      (incrCommand env argv db) := by
  obtain ⟨least, most⟩ := next
  have exact : Int.bmod (value + 1) (2 ^ 64) = value + 1 := by
    simp only [Int.bmod]
    omega
  have uncut : snprintf 32 (decimalInt (value + 1)) = decimalInt (value + 1) := by
    have short := decimal_length (value + 1).natAbs (by omega)
    apply List.take_of_length_le
    simp only [decimalInt]
    split
    · simp only [List.length_cons]
      omega
    · omega
  have ok := (incr_ok env argv db sound allocates).mpr (by rw [started]; exact Option.some_ne_none _)
  refine ⟨ok, ?_, ?_⟩
  · have start := incr_value env argv db sound
    rw [started] at start
    rw [incr_started_store env argv db value start, exact] at ok ⊢
    exact store_string_reply env _ _ _ _ _ _ ok
  · rw [incr_mapping env argv db sound ok]
    simp only [incrMap, started, exact, uncut]
    exact put_same _ _ _ _

/-- What the parser does not take is refused. -/
theorem incr_refuses (refused : startValue (fetch (expired (env.clock 0)) (mapping db) (arg argv 1)) = none) :
    Refuses (arg argv 1) db (incrCommand env argv db) := by
  have start := incr_value env argv db sound
  rw [refused] at start
  refine ⟨by simp only [incrCommand, start], ⟨_, by simp only [incrCommand, start]; rfl⟩, ?_⟩
  rw [incr_applies env allocates argv db sound]
  simp only [incrMap, refused]
  cases live : fetch (expired (env.clock 0)) (mapping db) (arg argv 1) with
  | none => simp [live, startValue] at refused
  | some binding => rw [(settle_live _ _ _ _ live).1]

theorem exact_iff_regular :
    ExactOrRefused env argv db ↔ Regular (fetch (expired (env.clock 0)) (mapping db) (arg argv 1)) := by
  rw [← started_iff_regular]
  constructor
  · intro exact uncounted
    by_contra started
    have ok := (incr_ok env argv db sound allocates).mpr started
    rw [(exact.refused uncounted).result] at ok
    cases ok
  · intro agree
    constructor
    · intro value counted
      obtain ⟨started, next⟩ := counted_from_started _ value counted
      exact incr_stores env allocates argv db sound value next started
    · intro uncounted
      exact incr_refuses env allocates argv db sound (agree uncounted)

end Command

/-- On every reachable database INCR is exact or refuses exactly when the live value of its key is
    regular. -/
theorem incr_exact_iff (server : Server) (reachable : Reachable server) (env : Env)
    (allocates : ∀ site, env.alloc site = true) (argv : List Bytes) :
    ExactOrRefused env argv server.db ↔
      Regular (fetch (expired (env.clock 0)) (mapping server.db) (arg argv 1)) :=
  exact_iff_regular env allocates argv server.db (reachable_wellformed server reachable).sound

theorem absent_key_incremented :
    ExactOrRefused (calm 5 []) [ascii "incr", ascii "n"] emptyServer.db :=
  (incr_exact_iff emptyServer empty_reachable (calm 5 []) (fun _ => rfl)
    [ascii "incr", ascii "n"]).mpr (absent_regular _ (by decide +kernel))

/-- The largest value wraps. -/
theorem largest_wraps :
    Reachable (storing "SET n 9223372036854775807") ∧
      (incrCommand (calm 0 []) [ascii "incr", ascii "n"]
        (storing "SET n 9223372036854775807").db).reply = .integer (-9223372036854775808) ∧
      ¬ ExactOrRefused (calm 0 []) [ascii "incr", ascii "n"] (storing "SET n 9223372036854775807").db := by
  refine ⟨storing_reachable _ (by decide), by decide +kernel, fun exact => ?_⟩
  exact absurd (exact.refused (by decide +kernel)).result (by decide +kernel)

end CrimsonCache.Increment
