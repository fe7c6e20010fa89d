import CrimsonCache.KeyIsolation
import CrimsonCache.Increment
import CrimsonCache.LiveContents

/-!
What a client may rely on while nobody writes its key: reads, sweeps and commands
on other keys leave the binding alone until its deadline. So what TTL answers is
kept by every later GET, and a key that is only counted up counts without a gap.
-/

namespace CrimsonCache.KeyLifetimes

open CString Numerals Dictionary DeadlineMap Persistence Replies Transaction Tokenizer ServerState
  DataCommands Commands Connections WriteEffects AppliedWrites ServerRuns Keyspace KeyIsolation
  LiveContents Increment Runs

section Frame

/-- The keys that a handler may write. -/
def handlerWrites (argv : List Bytes) : Command → List Bytes
  | .set | .expire | .incr => [arg argv 1]
  | .del => argv.tail
  | _ => []

def writesOf (words : List Bytes) : List Bytes :=
  match commands.find? (·.name = arg (lower words) 0) with
  | none => []
  | some row => if wrongArity row words.length then [] else handlerWrites (lower words) row.command

/-- The step may read the key, but not write it. -/
def Leaves (key : Bytes) : KeyStep → Prop
  | .call _ _ words => key ∉ writesOf words
  | .sweep _ => True

/-- What a reading of the clock in the step finds dead is dead. -/
def Within (dead : Nat → Bool) : KeyStep → Prop
  | .call env _ _ =>
      ∀ index deadline, expired (env.clock index) deadline = true → dead deadline = true
  | .sweep time => ∀ deadline, expired time deadline = true → dead deadline = true

/-- No reading of the clock in the step is later than `now`. -/
def Until (now : Nat) : KeyStep → Prop
  | .call env _ _ => ∀ index, env.clock index ≤ now
  | .sweep time => time ≤ now

theorem until_within (now : Nat) (step : KeyStep) (passed : Until now step) :
    Within (expired now) step := by
  cases step with
  | call env sock words =>
      exact fun index deadline => expired_later (env.clock index) now deadline (passed index)
  | sweep time => exact fun deadline => expired_later time now deadline passed

/-- Without a deadline nothing is ever found dead. -/
theorem within_deadline (step : KeyStep) : Within (· ≠ 0) step := by
  cases step with
  | call env sock words =>
      intro index deadline gone
      simp only [expired, Bool.and_eq_true, decide_eq_true_eq] at gone
      exact decide_eq_true gone.1
  | sweep time =>
      intro deadline gone
      simp only [expired, Bool.and_eq_true, decide_eq_true_eq] at gone
      exact decide_eq_true gone.1

variable (key : Bytes) (dead : Nat → Bool)

theorem exists_fades (clock : Nat → Nat)
    (within : ∀ index deadline, expired (clock index) deadline = true → dead deadline = true)
    (keys : List Bytes) (m : Mapping) : Fades dead (m key) (existsMap clock keys m key) := by
  induction keys generalizing clock m with
  | nil => exact .inl rfl
  | cons first rest ih =>
      have here := settle_fades (expired (clock 0)) dead m first key (within 0)
      exact here.trans (ih _ (fun index => within (index + 1)) _)

theorem handler_fades (env : Env)
    (within : ∀ index deadline, expired (env.clock index) deadline = true → dead deadline = true)
    (argv : List Bytes) (command : Command) (apart : key ∉ handlerWrites argv command) (m : Mapping) :
    Fades dead (m key) (handlerMap env argv m command key) := by
  cases command with
  | get | ttl => exact settle_fades (expired (env.clock 0)) dead m _ key (within 0)
  | exist => exact exists_fades key dead env.clock within argv.tail m
  | set => exact .inl (handler_apart env argv .set m key apart)
  | del => exact .inl (handler_apart env argv .del m key apart)
  | expire => exact .inl (handler_apart env argv .expire m key apart)
  | incr => exact .inl (handler_apart env argv .incr m key apart)
  | ping | save | bgsave | replicaof | role | replconf | multi | exec | discard | subscribe
  | unsubscribe | publish => exact .inl rfl

theorem step_fades (step : KeyStep) (leaves : Leaves key step) (within : Within dead step)
    (m : Mapping) : Fades dead (m key) (actKeys m step key) := by
  cases step with
  | sweep time => exact sweep_fades (expired time) dead m key within
  | call env sock words =>
      simp only [Leaves, writesOf] at leaves
      simp only [actKeys, applyWords]
      cases found : commands.find? (·.name = arg (lower words) 0) with
      | none => exact .inl rfl
      | some row =>
          simp only [found] at leaves
          dsimp only
          split
          · exact .inl rfl
          case isFalse arity =>
            simp only [arity, Bool.false_eq_true, ↓reduceIte] at leaves
            exact handler_fades key dead env within (lower words) row.command leaves m

/-- While nobody writes the key, its binding stays until its deadline. -/
theorem run_fades (steps : List KeyStep) (leaves : ∀ step ∈ steps, Leaves key step)
    (within : ∀ step ∈ steps, Within dead step) (m : Mapping) :
    Fades dead (m key) (run actKeys m steps key) := by
  induction steps generalizing m with
  | nil => exact .inl rfl
  | cons step rest ih =>
      rw [List.forall_mem_cons] at leaves within
      exact (step_fades key dead step leaves.1 within.1 m).trans (ih leaves.2 within.2 _)

end Frame

section Answers

/-- What TTL told at one time holds of what GET answers at a later one. -/
structure Kept (asked read : Nat) (told answer : Reply) : Prop where
  missing : told = .integer (-2) → asked < read → answer = .nullBulk
  lasting : told = .integer (-1) → ∃ value, answer = .bulk value
  within : ∀ seconds : Nat, told = .integer seconds → read ≤ asked + 1000 * seconds →
    ∃ value, answer = .bulk value
  past : ∀ seconds : Nat, told = .integer seconds → asked + 1000 * (seconds + 1) ≤ read →
    answer = .nullBulk

/-- The words of a command with a key as its only argument. -/
def Asks (name : String) (key : Bytes) (words : List Bytes) : Prop := lower words = [ascii name, key]

instance (name : String) (key : Bytes) (words : List Bytes) : Decidable (Asks name key words) :=
  inferInstanceAs (Decidable (_ = _))

variable {key : Bytes} {words : List Bytes}

theorem Asks.length {name : String} (asks : Asks name key words) : words.length = 2 := by
  rw [← lower_length, asks]
  rfl

theorem get_words (asks : Asks "get" key words) (env : Env) (m : Mapping) :
    replyWords env words m = some (match fetch (expired (env.clock 0)) m key with
      | none => .nullBulk
      | some (value, _) => .bulk value) := by
  have row : commands.find? (·.name = ascii "get") = some ⟨.get, ascii "get", 2, 2⟩ := by decide
  have named : arg [ascii "get", key] 0 = ascii "get" := rfl
  simp only [replyWords, asks.length, show lower words = [ascii "get", key] from asks, named, row]
  rfl

theorem ttl_words (asks : Asks "ttl" key words) (env : Env) (m : Mapping) :
    replyWords env words m = some (ttlReply env [ascii "ttl", key] m) := by
  have row : commands.find? (·.name = ascii "ttl") = some ⟨.ttl, ascii "ttl", 2, 2⟩ := by decide
  have named : arg [ascii "ttl", key] 0 = ascii "ttl" := rfl
  simp only [replyWords, asks.length, show lower words = [ascii "ttl", key] from asks, named, row]
  rfl

theorem ttl_leaves (asks : Asks "ttl" key words) : writesOf words = [] := by
  have row : commands.find? (·.name = ascii "ttl") = some ⟨.ttl, ascii "ttl", 2, 2⟩ := by decide
  have named : arg [ascii "ttl", key] 0 = ascii "ttl" := rfl
  simp only [writesOf, asks.length, show lower words = [ascii "ttl", key] from asks, named, row]
  rfl

/-- TTL answers for a binding that every later reader finds as it is until its deadline. -/
theorem ttl_kept (env : Env) (ordered : env.clock 0 ≤ env.clock 1) (read : Nat)
    (later : env.clock 1 ≤ read) (m m' : Mapping)
    (same : fetch (expired read) m' key = fetch (expired read) m key) :
    Kept (env.clock 1) read (ttlReply env [ascii "ttl", key] m)
      (match fetch (expired read) m' key with
        | none => .nullBulk
        | some (value, _) => .bulk value) := by
  have named : arg [ascii "ttl", key] 1 = key := rfl
  rw [same]
  simp only [ttlReply, named, fetch]
  cases m key with
  | none => constructor <;> simp
  | some binding =>
      rcases binding with ⟨value, deadline⟩
      cases gone : expired (env.clock 0) deadline with
      | true =>
          have still := expired_later _ read deadline (ordered.trans later) gone
          constructor <;> simp [Option.filter, gone, still]
      | false =>
          simp only [Option.filter, gone, Bool.not_false, ↓reduceIte]
          by_cases never : deadline = 0
          · constructor <;> simp [never, expired]
          · have alive (early : read ≤ deadline) : expired read deadline = false := by
              simp [expired, never, early]
            have dead (late : deadline < read) : expired read deadline = true := by
              simp [expired, never, late]
            simp only [never, ↓reduceIte]
            split
            case isTrue passed =>
              constructor
              · exact fun _ after => by simp [dead (by omega)]
              · exact fun told => by simp at told
              · exact fun seconds told => by
                  injection told
                  omega
              · exact fun seconds told => by
                  injection told
                  omega
            case isFalse ahead =>
              constructor
              · exact fun told => by
                  injection told
                  omega
              · exact fun told => by
                  injection told
                  omega
              · intro seconds told early
                injection told with counted
                have alive := alive (by omega)
                exact ⟨value, by simp [alive]⟩
              · intro seconds told late
                injection told with counted
                have dead := dead (by omega)
                simp [dead]

end Answers

section Counting

/-- The key holds a number without a deadline, or nothing yet. -/
def Counts (m : Mapping) (key : Bytes) (value : Int) : Prop :=
  (m key = none ∧ value = 0) ∨ ∃ text, m key = some (text, 0) ∧ numeral text = some value

def increments (key : Bytes) : KeyStep → Bool
  | .call _ _ words => Asks "incr" key words
  | .sweep _ => false

variable {key : Bytes}

theorem counts_leaves (step : KeyStep) (leaves : Leaves key step) (m : Mapping) (value : Int)
    (counts : Counts m key value) : Counts (actKeys m step) key value := by
  have fades := step_fades key (· ≠ 0) step leaves (within_deadline step) m
  rcases counts with ⟨absent, zero⟩ | ⟨text, bound, number⟩
  · rw [absent] at fades
    exact .inl ⟨fades.absent, zero⟩
  · rw [bound] at fades
    exact .inr ⟨text, fades.live (by simp), number⟩

/-- A `long long` fits the buffer that `snprintf` writes it to. -/
theorem counter_text_uncut (value : Int) (least : -2 ^ 63 ≤ value) (most : value < 2 ^ 63) :
    snprintf 32 (decimalInt value) = decimalInt value := by
  have short := decimal_width value.natAbs 20 (by omega) (by omega)
  apply List.take_of_length_le
  simp only [decimalInt]
  split
  · simp only [List.length_cons]
    omega
  · omega

theorem incr_words {words : List Bytes} (asks : Asks "incr" key words) (env : Env) (m : Mapping)
    (value : Int) (counts : Counts m key value) (next : HasSuccessor value) :
    Counts (applyWords env words m) key (value + 1) ∧
      replyWords env words m = some (.integer (value + 1)) := by
  have row : commands.find? (·.name = ascii "incr") = some ⟨.incr, ascii "incr", 2, 2⟩ := by decide
  have named : arg [ascii "incr", key] 0 = ascii "incr" := rfl
  have least := next.1
  have most := next.2
  have exact : Int.bmod (value + 1) (2 ^ 64) = value + 1 := by
    simp only [Int.bmod]
    omega
  have found : startValue (fetch (expired (env.clock 0)) m key) = some value ∧
      ((fetch (expired (env.clock 0)) m key).map Prod.snd).getD 0 = 0 := by
    rcases counts with ⟨absent, rfl⟩ | ⟨text, bound, number⟩
    · simp [fetch, absent, startValue]
    · have live : fetch (expired (env.clock 0)) m key = some (text, 0) := by
        simp [fetch, bound, expired]
      rw [live]
      exact ⟨(counted_from_started _ value (by simp [countedFrom, number, next])).1, rfl⟩
  have incremented : incrMap env [ascii "incr", key] m = put m key (decimalInt (value + 1)) 0 := by
    have second : arg [ascii "incr", key] 1 = key := rfl
    simp only [incrMap, second, found.1, found.2, exact, counter_text_uncut (value + 1) (by omega) (by omega)]
  have replied : handlerReply env [ascii "incr", key] m .incr = some (.integer (value + 1)) := by
    have second : arg [ascii "incr", key] 1 = key := rfl
    simp only [handlerReply, second, found.1, exact]
  simp only [applyWords, replyWords, asks.length, show lower words = [ascii "incr", key] from asks, named,
    row]
  refine ⟨?_, replied⟩
  change Counts (incrMap env [ascii "incr", key] m) key (value + 1)
  rw [incremented]
  exact .inr ⟨decimalInt (value + 1), put_same m key _ 0, numeral_decimal_int (value + 1)⟩

/-- The replies to the increments of a key. -/
def countReplies (key : Bytes) (said : List Exchange) : List Reply :=
  (said.filter fun said => Asks "incr" key said.words).map (·.reply)

theorem count_replies_append (first second : List Exchange) :
    countReplies key (first ++ second) = countReplies key first ++ countReplies key second := by
  simp [countReplies]

theorem no_count_replies (m : Mapping) (step : KeyStep) (other : increments key step = false) :
    countReplies key (sayKeys m step) = [] := by
  cases step with
  | sweep time => rfl
  | call env sock words =>
      have apart : ¬ Asks "incr" key words := of_decide_eq_false other
      cases replied : replyWords env words m with
      | none => simp [sayKeys, replied, countReplies]
      | some reply => simp [sayKeys, replied, countReplies, apart]

/-- The increments count on from the number that is there. -/
theorem run_counts (steps : List KeyStep)
    (only : ∀ step ∈ steps, increments key step = true ∨ Leaves key step) (m : Mapping) (first : Int)
    (counts : Counts m key first) (least : -2 ^ 63 ≤ first)
    (most : first + steps.countP (increments key) < 2 ^ 63) :
    Counts (run actKeys m steps) key (first + steps.countP (increments key)) ∧
      countReplies key (outputs actKeys sayKeys m steps) =
        (List.range (steps.countP (increments key))).map fun index => .integer (first + 1 + index) := by
  induction steps generalizing m first with
  | nil => simpa [outputs, run, countReplies] using counts
  | cons step rest ih =>
      rw [List.forall_mem_cons] at only
      rw [outputs, count_replies_append]
      cases counting : increments key step with
      | true =>
          cases step with
          | sweep time => cases counting
          | call env sock words =>
              have asks : Asks "incr" key words := of_decide_eq_true counting
              rw [List.countP_cons_of_pos counting] at most ⊢
              obtain ⟨counted, said⟩ := incr_words asks env m first counts ⟨least, by omega⟩
              obtain ⟨reached, later⟩ :=
                ih only.2 (actKeys m (.call env sock words)) (first + 1) counted (by omega) (by omega)
              have here : countReplies key (sayKeys m (.call env sock words)) =
                  [.integer (first + 1)] := by
                simp [countReplies, sayKeys, said, asks]
              constructor
              · rw [Nat.cast_succ, add_comm _ (1 : Int), ← add_assoc]
                exact reached
              · rw [here, later, List.range_succ_eq_map]
                simp [add_comm, add_left_comm]
      | false =>
          have leaves := only.1.resolve_left (by simp [counting])
          have other : ¬ increments key step = true := by simp [counting]
          rw [List.countP_cons_of_neg other] at most ⊢
          rw [no_count_replies m step counting]
          exact ih only.2 (actKeys m step) first (counts_leaves step leaves m first counts) least most

end Counting

section Server

set_option maxRecDepth 4000

/-- The answer of TTL, to any client and also inside of a transaction, is kept by every GET
    that any client makes before somebody writes the key. -/
theorem ttl_is_kept (start : Server) (wf : Wellformed start) (steps : List ServerStep)
    (admitted : Admitted Possible next start steps) (allocates : ∀ step ∈ steps, Allocating step)
    (key : Bytes) (before between after : List KeyStep) (env later : Env) (asker reader : Int)
    (ask read : List Bytes) (asks : Asks "ttl" key ask) (reads : Asks "get" key read)
    (order : outputs next keySteps start steps =
      before ++ .call env asker ask :: (between ++ .call later reader read :: after))
    (leaves : ∀ step ∈ between, Leaves key step)
    (passed : ∀ step ∈ .call env asker ask :: between, Until (later.clock 0) step)
    (ordered : env.clock 0 ≤ env.clock 1) :
    ∃ told answer front middle back,
      outputs next exchanges start steps =
        front ++ ⟨asker, ask, told⟩ :: (middle ++ ⟨reader, read, answer⟩ :: back) ∧
      front = outputs actKeys sayKeys (mapping start.db) before ∧
      middle = outputs actKeys sayKeys
        (run actKeys (mapping start.db) (before ++ [.call env asker ask])) between ∧
      Kept (env.clock 1) (later.clock 0) told answer := by
  have said := (run_keys start wf steps admitted allocates).2
  rw [order, outputs_append] at said
  simp only [outputs, outputs_append, sayKeys, ttl_words asks, get_words reads, Option.toList_some,
    List.map_cons, List.map_nil, List.cons_append, List.nil_append] at said
  refine ⟨_, _, _, _, _, said, rfl, by rw [run_snoc], ?_⟩
  apply ttl_kept env ordered (later.clock 0) ((passed _ List.mem_cons_self) 1)
  have quiet : Leaves key (.call env asker ask) := by simp [Leaves, ttl_leaves asks]
  have fades := run_fades key (expired (later.clock 0)) (.call env asker ask :: between)
    (List.forall_mem_cons.mpr ⟨quiet, leaves⟩)
    (fun step member => until_within (later.clock 0) step (passed step member))
    (run actKeys (mapping start.db) before)
  exact fades.filter

/-- One client: a value with a lifetime, the question and, after five seconds, the read. -/
def askedAndRead : List ServerStep :=
  [.connect 1 7, .receive (calm 0) 7 (ascii "SET a 1 EX 10\r\n"),
    .receive (calm 0) 7 (ascii "TTL a\r\n"), .receive (calm 5000) 7 (ascii "GET a\r\n")]

theorem asked_and_read_admitted : Admitted Possible next emptyServer askedAndRead :=
  ⟨empty_connects, ⟨one_client_open, by decide⟩, ⟨by decide, by decide⟩,
    ⟨by decide, by decide⟩, trivial⟩

theorem asked_and_read_allocates : ∀ step ∈ askedAndRead, Allocating step := by
  intro step member
  simp only [askedAndRead, List.mem_cons, List.not_mem_nil, or_false] at member
  rcases member with rfl | rfl | rfl | rfl
  · trivial
  · exact calm_allocates 0
  · exact calm_allocates 0
  · exact calm_allocates 5000

theorem asked_and_read_keys : outputs next keySteps emptyServer askedAndRead =
    [.call (calm 0 []) 7 [ascii "SET", ascii "a", ascii "1", ascii "EX", ascii "10"]] ++
      .call (calm 0 []) 7 [ascii "TTL", ascii "a"] ::
        ([] ++ .call (calm 5000 []) 7 [ascii "GET", ascii "a"] :: []) := by
  simp only [askedAndRead, outputs]
  rw [input_keys _ _ _ _ (newClient 1 7 loadDefaultConfig) (by decide) (by decide)
      (by decide) (by decide),
    input_keys _ _ _ _ (newClient 1 7 loadDefaultConfig) (by decide) (by decide)
      (by decide) (by decide),
    input_keys _ _ _ _ (newClient 1 7 loadDefaultConfig) (by decide) (by decide)
      (by decide) (by decide)]
  rfl

theorem ten_seconds_are_kept :
    ∃ told answer front middle back,
      outputs next exchanges emptyServer askedAndRead =
        front ++ ⟨7, [ascii "TTL", ascii "a"], told⟩ ::
          (middle ++ ⟨7, [ascii "GET", ascii "a"], answer⟩ :: back) ∧
      Kept 0 5000 told answer := by
  obtain ⟨told, answer, front, middle, back, said, -, -, kept⟩ :=
    ttl_is_kept emptyServer (start_wellformed _ empty_starts) askedAndRead asked_and_read_admitted
      asked_and_read_allocates (ascii "a") _ [] [] (calm 0 []) (calm 5000 []) 7 7 _ _ (by decide)
      (by decide) asked_and_read_keys (by simp)
      (by
        intro step member
        rw [List.mem_singleton.mp member]
        exact fun _ => Nat.zero_le _)
      (Nat.le_refl _)
  exact ⟨told, answer, front, middle, back, said, kept⟩

/-- While a key is only incremented, by any clients, in transactions or not, the replies to the
    increments are the successors of its number, each once and in order. -/
theorem counter_has_no_gaps (start : Server) (wf : Wellformed start) (steps : List ServerStep)
    (admitted : Admitted Possible next start steps) (allocates : ∀ step ∈ steps, Allocating step)
    (key : Bytes) (first : Int) (counts : Counts (mapping start.db) key first)
    (only : ∀ step ∈ outputs next keySteps start steps, increments key step = true ∨ Leaves key step)
    (least : -2 ^ 63 ≤ first)
    (most : first + (outputs next keySteps start steps).countP (increments key) < 2 ^ 63) :
    Counts (mapping (run next start steps).db) key
        (first + (outputs next keySteps start steps).countP (increments key)) ∧
      countReplies key (outputs next exchanges start steps) =
        (List.range ((outputs next keySteps start steps).countP (increments key))).map
          fun index => .integer (first + 1 + index) := by
  obtain ⟨reached, said⟩ := run_keys start wf steps admitted allocates
  rw [reached, said]
  exact run_counts _ only _ first counts least most

/-- Two increments of a new key. -/
def countedTwice : List ServerStep :=
  [.connect 1 7, .receive (calm 0) 7 (ascii "INCR n\r\n"), .receive (calm 0) 7 (ascii "INCR n\r\n")]

theorem counted_twice_keys : outputs next keySteps emptyServer countedTwice =
    [.call (calm 0 []) 7 [ascii "INCR", ascii "n"], .call (calm 0 []) 7 [ascii "INCR", ascii "n"]] := by
  simp only [countedTwice, outputs]
  rw [input_keys _ _ _ _ (newClient 1 7 loadDefaultConfig) (by decide) (by decide)
      (by decide) (by decide),
    input_keys _ _ _ _ (newClient 1 7 loadDefaultConfig) (by decide) (by decide)
      (by decide) (by decide)]
  rfl

theorem one_and_two :
    countReplies (ascii "n") (outputs next exchanges emptyServer countedTwice) =
      [.integer 1, .integer 2] := by
  have admitted : Admitted Possible next emptyServer countedTwice :=
    ⟨empty_connects, ⟨one_client_open, by decide⟩, ⟨by decide, by decide⟩, trivial⟩
  have counted := (counter_has_no_gaps emptyServer (start_wellformed _ empty_starts) countedTwice admitted
    (by
      intro step member
      simp only [countedTwice, List.mem_cons, List.not_mem_nil, or_false] at member
      rcases member with rfl | rfl | rfl
      · trivial
      · exact calm_allocates 0
      · exact calm_allocates 0)
    (ascii "n") 0 (.inl ⟨congrFun (start_empty _ empty_starts) _, rfl⟩)
    (by
      rw [counted_twice_keys]
      intro step member
      simp only [List.mem_cons, List.not_mem_nil, or_false, or_self] at member
      rw [member]
      exact .inl (by decide))
    (by decide) (by rw [counted_twice_keys]; decide)).2
  rw [counted_twice_keys] at counted
  exact counted

end Server

end CrimsonCache.KeyLifetimes
