import CrimsonCache.KeyLifetimes
import CrimsonCache.SplitWrites

/-!
Keys that have no deadline and are given none. What a command does to one of them depends
on nothing but what the key holds: not on the clock, and not on the rest of the map.
-/

namespace CrimsonCache.UntimedKeys

open CString Dictionary DeadlineMap KeyEffects Replies Transaction Tokenizer ServerState DataCommands
  Commands WriteEffects AppliedWrites DelayedReplication SplitWrites Keyspace KeyLifetimes Runs

section Timeless

/-- The keys that a handler may give a deadline. -/
def handlerTimes (argv : List Bytes) : Command → List Bytes
  | .set =>
      if argv.length ≥ 5 && (strcaseeq (arg argv 3) (ascii "EX") || strcaseeq (arg argv 3) (ascii "PX"))
      then [arg argv 1] else []
  | .expire => [arg argv 1]
  | _ => []

def timesOf (words : List Bytes) : List Bytes :=
  ((acceptedRow words).map fun row => handlerTimes (lower words) row.command).getD []

/-- The key has no deadline. -/
def Untimed (m : Mapping) (key : Bytes) : Prop := m key = (stored m key).map fun value => (value, 0)

theorem set_untimed (env : Env) (argv : List Bytes) (apart : arg argv 1 ∉ handlerTimes argv .set) :
    setExpire env argv = 0 := by
  simp only [handlerTimes] at apart
  split at apart
  case isTrue => simp at apart
  case isFalse plain =>
    simp only [Bool.and_eq_true, Bool.or_eq_true, decide_eq_true_eq, not_and, not_or] at plain
    simp only [setExpire]
    split
    case isTrue long => simp [plain long]
    case isFalse => rfl

variable (m : Mapping) (key : Bytes) (untimed : Untimed m key)

include untimed

/-- What does not fall due is found. -/
theorem untimed_lookup (clock : Nat) :
    fetch (expired clock) m key = m key ∧ settle (expired clock) m key = m := by
  refine live_lookup clock m key ?_
  rw [untimed]
  cases stored m key with
  | none => rfl
  | some value => simp [expired]

/-- What fades only by its deadline stays. -/
theorem untimed_stays (after : Option (Bytes × Nat)) (fades : Fades (· ≠ 0) (m key) after) :
    after = m key := by
  rw [untimed] at fades ⊢
  cases value : stored m key with
  | none =>
      rw [value] at fades
      exact fades.absent
  | some text =>
      rw [value] at fades
      exact fades.live (by simp)

theorem read_untimed (env : Env) (argv : List Bytes) (command : Command)
    (reads : handlerWrites argv command = []) : handlerMap env argv m command key = m key := by
  have within : Within (· ≠ 0) (.call env 0 argv) := within_deadline _
  exact untimed_stays m key untimed _
    (handler_fades key (· ≠ 0) env within argv command (by simp [reads]) m)

theorem incr_untimed (env : Env) (argv : List Bytes) :
    incrMap env argv m key =
      ((valueEffect argv key .incr).run incremented (stored m key)).map fun value => (value, 0) := by
  by_cases here : key = arg argv 1
  · obtain ⟨found, stays⟩ := untimed_lookup m key untimed (env.clock 0)
    have start := start_stored m key
    simp only [incrMap, ← here, found, stays, valueEffect, ↓reduceIte, Effect.run, incremented, ← start]
    cases number : startValue (m key) with
    | none =>
        dsimp only
        rw [untimed] at number ⊢
        cases value : stored m key with
        | none => simp [value, startValue] at number
        | some text => simp
    | some number =>
        dsimp only
        rw [put_same, untimed]
        cases stored m key <;> rfl
  · simp only [incrMap, valueEffect, here, ↓reduceIte, Effect.run]
    cases startValue (fetch (expired (env.clock 0)) m (arg argv 1)) with
    | none => exact (settle_other _ m _ key here).trans untimed
    | some number => exact (put_other m _ key _ _ here).trans untimed

/-- What a handler does to a key that has no deadline and is given none. -/
theorem handler_untimed (env : Env) (argv : List Bytes) (command : Command)
    (apart : key ∉ handlerTimes argv command) :
    handlerMap env argv m command key =
      ((valueEffect argv key command).run incremented (stored m key)).map fun value => (value, 0) := by
  cases command with
  | set =>
      simp only [handlerMap, writeMap, setMap, valueEffect]
      by_cases here : key = arg argv 1
      · rw [set_untimed env argv (here ▸ apart), here, put_same]
        simp [Effect.run]
      · rw [put_other m _ key _ _ here, if_neg here]
        exact untimed
  | del =>
      simp only [handlerMap, writeMap, valueEffect, del_map_eq]
      by_cases inside : key ∈ argv.tail
      · simp [inside, Effect.run]
      · rw [if_neg inside, if_neg inside]
        exact untimed
  | expire =>
      have other : key ≠ arg argv 1 := by simpa [handlerTimes] using apart
      simp only [handlerMap, writeMap, expireMap]
      cases fetch (expired (env.clock 0)) m (arg argv 1) with
      | none => exact (settle_other _ m _ key other).trans untimed
      | some binding => exact (put_other m _ key _ _ other).trans untimed
  | incr => exact incr_untimed m key untimed env argv
  | get | exist | ttl | ping | save | bgsave | replicaof | role | replconf | multi | exec | discard
  | subscribe | unsubscribe | publish =>
      exact (read_untimed m key untimed env argv _ rfl).trans untimed

theorem words_untimed (env : Env) (words : List Bytes) (apart : key ∉ timesOf words) :
    applyWords env words m key =
      ((keyEffect key words).run incremented (stored m key)).map fun value => (value, 0) := by
  rw [apply_words_row]
  simp only [timesOf, keyEffect] at apart ⊢
  cases accepted : acceptedRow words with
  | none => exact untimed
  | some row =>
      rw [accepted, Option.map_some, Option.getD_some] at apart
      exact handler_untimed m key untimed env (lower words) row.command apart

end Timeless

section Region

variable (region : Bytes → Bool)

/-- No key of the region has a deadline. -/
def Timeless (m : Mapping) : Prop := ∀ key, region key = true → Untimed m key

/-- The words give no key of the region a deadline. -/
def Lasts (words : List Bytes) : Prop := ∀ key, region key = true → key ∉ timesOf words

def StepLasts : KeyStep → Prop
  | .call _ _ words => Lasts region words
  | .sweep _ => True

/-- What is seen of a map. -/
def shown (m : Mapping) (key : Bytes) : Option Bytes := if region key then stored m key else none

/-- What a line of the stream does to it. -/
def redoLine (values : Bytes → Option Bytes) (line key : Bytes) : Option Bytes :=
  if region key then (keyEffect key (tokens line)).run incremented (values key) else none

variable {region}

theorem shown_agree (first second : Mapping) (early : Timeless region first)
    (late : Timeless region second) (same : shown region first = shown region second) (key : Bytes)
    (inside : region key = true) : first key = second key := by
  have values : stored first key = stored second key := by
    simpa [shown, inside] using congrFun same key
  rw [early key inside, late key inside, values]

variable (m : Mapping) (timeless : Timeless region m)

include timeless

theorem words_timeless (env : Env) (words : List Bytes) (lasts : Lasts region words) :
    Timeless region (applyWords env words m) := by
  intro key inside
  have done := words_untimed m key (timeless key inside) env words (lasts key inside)
  rw [Untimed, stored, done]
  cases (keyEffect key words).run incremented (stored m key) <;> rfl

theorem words_shown (env : Env) (line : Bytes) (lasts : Lasts region (tokens line)) :
    shown region (applyWords env (tokens line) m) = redoLine region (shown region m) line := by
  funext key
  by_cases inside : region key = true
  · have done := words_untimed m key (timeless key inside) env (tokens line) (lasts key inside)
    simp only [shown, redoLine, inside, ↓reduceIte]
    rw [stored, done]
    cases (keyEffect key (tokens line)).run incremented (stored m key) <;> rfl
  · simp [shown, redoLine, inside]

theorem sweep_timeless (now : Nat) :
    Timeless region (sweep (expired now) m) ∧ shown region (sweep (expired now) m) = shown region m := by
  have stays (key : Bytes) (inside : region key = true) : sweep (expired now) m key = m key := by
    have within : Within (· ≠ 0) (.sweep now) := within_deadline _
    exact untimed_stays m key (timeless key inside) _ (sweep_fades (expired now) _ m key within)
  constructor
  · intro key inside
    rw [Untimed, stored, stays key inside]
    exact timeless key inside
  · funext key
    by_cases inside : region key = true
    · simp [shown, stored, inside, stays key inside]
    · simp [shown, inside]

theorem step_timeless (step : KeyStep) (lasts : StepLasts region step) :
    Timeless region (actKeys m step) := by
  cases step with
  | call env sock words => exact words_timeless m timeless env words lasts
  | sweep now => exact (sweep_timeless m timeless now).1

theorem run_timeless (steps : List KeyStep) (lasts : ∀ step ∈ steps, StepLasts region step) :
    Timeless region (run actKeys m steps) := by
  induction steps generalizing m with
  | nil => exact timeless
  | cons step rest ih =>
      obtain ⟨first, later⟩ := List.forall_mem_cons.mp lasts
      exact ih (actKeys m step) (step_timeless m timeless step first) later

end Region

end CrimsonCache.UntimedKeys
