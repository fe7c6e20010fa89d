import CrimsonCache.ServerRuns
import CrimsonCache.TokenBuffer

/-!
Inputs that end inside an opened double quote. `tokenize_command` drops what the
quote holds and says nothing of it, so `execute_command` judges the input by the
words in front of the quote. It is turned away only when these words are no
command by themselves.
-/

namespace CrimsonCache.OpenQuotes

open CString Tokenizer TokenBuffer Commands DataCommands Replies ServerState
  ServerRuns

section Model

/-- The loop of `tokenize_command` meets the end of the input in the state of a quoted token. -/
def EndsInQuote (input : Bytes) : Prop :=
  ∃ alloc after, runLoop alloc (startLoop input).input.length (startLoop input) = some after ∧
    after.state = .quoted

/-- The handler that `execute_command` calls, and its arguments. -/
def handlerCall (env : Env) (sock : Int) (buffer : Bytes) (server : Server) :
    Option (Command × List Bytes) :=
  if env.alloc .inputCopy then
    match tokenizeCommand (env.alloc .tokens) (cstr buffer) with
    | none => none
    | some [] => none
    | some argv =>
        let argv := lower argv
        if inTransaction sock server && !isTxCommand (arg argv 0) then none
        else
          match commands.find? (·.name = arg argv 0) with
          | none => none
          | some row => if wrongArity row argv.length then none else some (row.command, argv)
  else none

/-- What is expected of an input with an open quote. -/
structure TurnedAway (env : Env) (sock : Int) (buffer : Bytes) (server : Server)
    (outcome : Outcome) : Prop where
  idle : handlerCall env sock buffer server = none
  failed : outcome.result = .err
  untouched : outcome.server.db = server.db
  unfed : ∀ fed, .fed fed ∉ outcome.events

/-- No row of the table takes these words as a command. -/
def NoCommand (words : List Bytes) : Prop :=
  ∀ row ∈ commands, row.name = arg (lower words) 0 → wrongArity row words.length = true

instance (words : List Bytes) : Decidable (NoCommand words) :=
  inferInstanceAs (Decidable (∀ row ∈ commands, row.name = arg (lower words) 0 →
    wrongArity row words.length = true))

/-- The input is turned away for the words in front of its open quote. -/
def Rejected (env : Env) (sock : Int) (server : Server) (words : List Bytes) : Prop :=
  env.alloc .inputCopy = false ∨ env.alloc .tokens = false ∨ words = [] ∨
    ((inTransaction sock server = true → isTxCommand (arg (lower words) 0) = true) ∧ NoCommand words)

/-- The open transaction of the connection takes the input in, with its open quote. -/
structure Queued (env : Env) (sock : Int) (server : Server) (words : List Bytes) : Prop where
  copied : env.alloc .inputCopy = true
  tokenized : env.alloc .tokens = true
  nonempty : words ≠ []
  inside : inTransaction sock server = true
  direct : isTxCommand (arg (lower words) 0) = false

end Model

section Quote

/-- Only a quote between tokens opens a quoted one. -/
theorem advance_quoted (state : ScanState) (c prev : UInt8) (body : Bytes)
    (inside : (advance state c).1 = .quoted prev body) :
    (advance state c).2 = [] ∧
      ((∃ before start, state = .quoted before start) ∨ state = .skipping ∧ c = quote) := by
  cases state with
  | skipping =>
      simp only [advance] at inside ⊢
      split at inside
      case isTrue => cases inside
      case isFalse solid =>
        split at inside
        case isFalse => cases inside
        case isTrue opening =>
          rw [if_neg solid, if_pos opening]
          exact ⟨rfl, Or.inr ⟨trivial, opening⟩⟩
  | token start =>
      simp only [advance] at inside
      split at inside
      · cases inside
      · cases inside
  | quoted before start =>
      simp only [advance] at inside ⊢
      split at inside
      case isTrue => cases inside
      case isFalse open_ =>
        rw [if_neg open_]
        exact ⟨rfl, Or.inl ⟨before, start, rfl⟩⟩

/-- A scan that ends in a quoted token has opened it behind the tokens it returns. -/
theorem open_quote_splits (state : ScanState) (input : Bytes) (prev : UInt8) (body : Bytes)
    (ends : scanEnd state input = .quoted prev body) :
    (scan state input = [] ∧ ∃ before start, state = .quoted before start) ∨
      ∃ front rest, input = front ++ quote :: rest ∧ scanEnd state front = .skipping ∧
        scan state input = scan state front := by
  induction input generalizing state with
  | nil =>
      rw [scan_end_nil] at ends
      subst ends
      exact Or.inl ⟨by simp [scan], prev, body, rfl⟩
  | cons c input ih =>
      rw [scan_end_advance] at ends
      rcases ih _ ends with ⟨nothing, before, start, inside⟩ | ⟨front, rest, split, between, same⟩
      · -- The quote that stays open is this byte, or was open before it.
        obtain ⟨none, within | ⟨rfl, rfl⟩⟩ := advance_quoted state c before start inside
        · exact Or.inl ⟨by rw [scan_advance, none, nothing, List.nil_append], within⟩
        · refine Or.inr ⟨[], input, rfl, rfl, ?_⟩
          rw [scan_advance, none, nothing]
          simp [scan]
      · exact Or.inr ⟨c :: front, rest, by rw [split, List.cons_append],
          by rw [scan_end_advance, between], by rw [scan_advance, scan_advance, same]⟩

theorem ends_in_quote_scan (input : Bytes) (free : 0 ∉ input) (ends : EndsInQuote input) :
    ∃ prev body, scanEnd .skipping (stripNewline input) = .quoted prev body := by
  obtain ⟨alloc, after, ran, state⟩ := ends
  obtain ⟨closed, reads, -, -⟩ := run_loop_reads alloc _ _ after _ _
    (start_reads input free) (start_enough input free) ran
  obtain ⟨-, -, -, front, tail, -, -, -, marks⟩ := reads
  cases final : scanEnd .skipping (stripNewline input) with
  | skipping =>
      rw [final] at marks
      have spaces : after.state = .spaces := marks
      rw [spaces] at state
      cases state
  | token start =>
      rw [final] at marks
      rw [marks.1] at state
      cases state
  | quoted prev body => exact ⟨prev, body, rfl⟩

/-- The words of the input are those in front of the quote that is left open. -/
theorem words_before_quote (input : Bytes) (free : 0 ∉ input) (ends : EndsInQuote input) :
    ∃ front rest, input = front ++ quote :: rest ∧ scanEnd .skipping front = .skipping ∧
      tokens input = tokens front := by
  obtain ⟨prev, body, final⟩ := ends_in_quote_scan input free ends
  obtain ⟨space, -, whole⟩ := strip_suffix input
  rcases open_quote_splits .skipping _ prev body final with
    ⟨-, before, start, wrong⟩ | ⟨front, rest, split, between, same⟩
  · cases wrong
  · refine ⟨front, rest ++ space, ?_, between, ?_⟩
    · rw [whole, split]
      simp
    · rw [tokens_scan front, ← same, tokens]

end Quote

section Calls

/-- What `execute_command` gives up on before it looks for a command. -/
def Early (env : Env) (words : List Bytes) : Prop :=
  env.alloc .inputCopy = false ∨ env.alloc .tokens = false ∨ words = []

theorem not_early (env : Env) (words : List Bytes) (goes : ¬ Early env words) :
    env.alloc .inputCopy = true ∧ env.alloc .tokens = true ∧ words ≠ [] := by
  simp only [Early, not_or, Bool.not_eq_false] at goes
  exact goes

theorem early_no_call (env : Env) (sock : Int) (buffer : Bytes) (server : Server)
    (early : Early env (tokens (cstr buffer))) : handlerCall env sock buffer server = none := by
  have scanned : scan .skipping (stripNewline (cstr buffer)) = tokens (cstr buffer) := rfl
  by_cases copied : env.alloc .inputCopy = true
  · by_cases tokenized : env.alloc .tokens = true
    · have empty : tokens (cstr buffer) = [] := by simpa [Early, copied, tokenized] using early
      simp only [handlerCall, copied, tokenized, tokenizeCommand, scanned, empty, ↓reduceIte]
    · simp only [handlerCall, copied, tokenized, tokenizeCommand, Bool.false_eq_true, ↓reduceIte]
  · simp only [handlerCall, copied, Bool.false_eq_true, ↓reduceIte]

theorem early_refused (execute : Nat → Bytes → Server → Outcome) (env : Env) (sock : Int)
    (buffer : Bytes) (server : Server) (early : Early env (tokens (cstr buffer))) :
    ∃ message, executeWith execute env sock buffer server = refuse server sock message := by
  have scanned : scan .skipping (stripNewline (cstr buffer)) = tokens (cstr buffer) := rfl
  by_cases copied : env.alloc .inputCopy = true
  · by_cases tokenized : env.alloc .tokens = true
    · have empty : tokens (cstr buffer) = [] := by simpa [Early, copied, tokenized] using early
      simp only [executeWith, copied, tokenized, tokenizeCommand, scanned, empty, ↓reduceIte]
      exact ⟨_, rfl⟩
    · simp only [executeWith, copied, tokenized, tokenizeCommand, Bool.false_eq_true, ↓reduceIte]
      exact ⟨_, rfl⟩
  · simp only [executeWith, copied, Bool.false_eq_true, ↓reduceIte]
    exact ⟨_, rfl⟩

/-- The call for an input that could be copied and tokenized. -/
theorem call_of_words (env : Env) (sock : Int) (buffer : Bytes) (server : Server)
    (copied : env.alloc .inputCopy = true) (tokenized : env.alloc .tokens = true)
    (nonempty : tokens (cstr buffer) ≠ []) :
    handlerCall env sock buffer server =
      if inTransaction sock server && !isTxCommand (arg (lower (tokens (cstr buffer))) 0) then none
      else
        match commands.find? (·.name = arg (lower (tokens (cstr buffer))) 0) with
        | none => none
        | some row =>
            if wrongArity row (tokens (cstr buffer)).length then none
            else some (row.command, lower (tokens (cstr buffer))) := by
  have scanned : scan .skipping (stripNewline (cstr buffer)) = tokens (cstr buffer) := rfl
  cases words : tokens (cstr buffer) with
  | nil => exact absurd words nonempty
  | cons name args =>
      simp only [handlerCall, copied, tokenized, tokenizeCommand, scanned, words, ↓reduceIte, lower_length]

/-- The search of the table finds nothing, or a row that does not take that many words. -/
theorem no_command_find (words : List Bytes) :
    NoCommand words ↔
      ∀ row, commands.find? (·.name = arg (lower words) 0) = some row →
        wrongArity row words.length = true := by
  constructor
  · intro none row found
    have named : row.name = arg (lower words) 0 := by simpa using List.find?_some found
    exact none row (List.mem_of_find?_eq_some found) named
  · intro first row member named
    have found := row_of_name row member
    rw [named] at found
    exact first row found

/-- `execute_command` runs the handler it calls and propagates; without a call it refuses the input
    or queues it. -/
theorem execute_calls (execute : Nat → Bytes → Server → Outcome) (env : Env) (sock : Int)
    (buffer : Bytes) (server : Server) :
    match handlerCall env sock buffer server with
    | some (command, argv) =>
        executeWith execute env sock buffer server =
          propagate env sock (cstr buffer) (arg argv 0)
            (runHandler execute env sock argv server command)
    | none =>
        (∃ message, executeWith execute env sock buffer server = refuse server sock message) ∨
        Queued env sock server (tokens (cstr buffer)) ∧
          executeWith execute env sock buffer server = queueInput env sock (cstr buffer) server := by
  by_cases early : Early env (tokens (cstr buffer))
  · rw [early_no_call env sock buffer server early]
    exact Or.inl (early_refused execute env sock buffer server early)
  · obtain ⟨copied, tokenized, nonempty⟩ := not_early env _ early
    rw [call_of_words env sock buffer server copied tokenized nonempty,
      execute_allocated execute env sock buffer server copied tokenized nonempty]
    simp only [commandName]
    by_cases queue : (inTransaction sock server &&
        !isTxCommand (arg (lower (tokens (cstr buffer))) 0)) = true
    · simp only [queue, ↓reduceIte]
      obtain ⟨inside, direct⟩ := Bool.and_eq_true_iff.mp queue
      exact Or.inr ⟨⟨copied, tokenized, nonempty, inside, by simpa using direct⟩, trivial⟩
    · simp only [queue, Bool.false_eq_true, ↓reduceIte, dispatch, lower_length]
      cases found : commands.find? (·.name = arg (lower (tokens (cstr buffer))) 0) with
      | none => exact Or.inl ⟨_, propagate_refused env sock _ _ server _⟩
      | some row =>
          by_cases arity : wrongArity row (tokens (cstr buffer)).length = true
          · simp only [arity, ↓reduceIte]
            exact Or.inl ⟨_, propagate_refused env sock _ _ server _⟩
          · simp only [arity, Bool.false_eq_true, ↓reduceIte]

theorem rejected_no_call (env : Env) (sock : Int) (buffer : Bytes) (server : Server)
    (rejected : Rejected env sock server (tokens (cstr buffer))) :
    handlerCall env sock buffer server = none := by
  by_cases early : Early env (tokens (cstr buffer))
  · exact early_no_call env sock buffer server early
  · obtain ⟨copied, tokenized, nonempty⟩ := not_early env _ early
    rw [call_of_words env sock buffer server copied tokenized nonempty]
    rcases rejected with wrong | wrong | wrong | ⟨-, unknown⟩
    · simp [copied] at wrong
    · simp [tokenized] at wrong
    · exact absurd wrong nonempty
    · have search := (no_command_find _).mp unknown
      split
      · rfl
      · cases found : commands.find? (·.name = arg (lower (tokens (cstr buffer))) 0) with
        | none => rfl
        | some row => simp only [search row found, ↓reduceIte]

/-- No handler is called only for words that are rejected or queued. -/
theorem no_call_cases (env : Env) (sock : Int) (buffer : Bytes) (server : Server)
    (idle : handlerCall env sock buffer server = none) :
    Rejected env sock server (tokens (cstr buffer)) ∨ Queued env sock server (tokens (cstr buffer)) := by
  by_cases early : Early env (tokens (cstr buffer))
  · rcases early with denied | denied | empty
    · exact Or.inl (Or.inl denied)
    · exact Or.inl (Or.inr (Or.inl denied))
    · exact Or.inl (Or.inr (Or.inr (Or.inl empty)))
  · obtain ⟨copied, tokenized, nonempty⟩ := not_early env _ early
    rw [call_of_words env sock buffer server copied tokenized nonempty] at idle
    split at idle
    case isTrue queue =>
      obtain ⟨inside, direct⟩ := Bool.and_eq_true_iff.mp queue
      exact Or.inr ⟨copied, tokenized, nonempty, inside, by simpa using direct⟩
    case isFalse proceed =>
      refine Or.inl (Or.inr (Or.inr (Or.inr ⟨?_, (no_command_find _).mpr ?_⟩)))
      · intro inside
        simpa [inside] using proceed
      · intro row found
        simp only [found] at idle
        split at idle
        · assumption
        · cases idle

theorem queued_not_rejected (env : Env) (sock : Int) (server : Server) (words : List Bytes)
    (queued : Queued env sock server words) : ¬ Rejected env sock server words := by
  rintro (wrong | wrong | wrong | ⟨allowed, -⟩)
  · simp [queued.copied] at wrong
  · simp [queued.tokenized] at wrong
  · exact queued.nonempty wrong
  · have open_ := allowed queued.inside
    rw [queued.direct] at open_
    cases open_

theorem refuse_unfed (server : Server) (sock : Int) (message : String) (fed : Bytes) :
    .fed fed ∉ (refuse server sock message).events := by
  simp only [refuse]
  split
  · simp
  · simp

/-- A queued input is answered with success. -/
theorem queue_result (env : Env) (sock : Int) (input : Bytes) (server : Server) :
    (queueInput env sock input server).result = .ok := by
  simp only [queueInput]
  split
  · rfl
  · split
    · rfl
    · rfl

theorem turned_away_iff (execute : Nat → Bytes → Server → Outcome) (env : Env) (sock : Int)
    (buffer : Bytes) (server : Server) :
    TurnedAway env sock buffer server (executeWith execute env sock buffer server) ↔
      Rejected env sock server (tokens (cstr buffer)) := by
  constructor
  · rintro ⟨idle, failed, -, -⟩
    rcases no_call_cases env sock buffer server idle with rejected | queued
    · exact rejected
    · have queuing := execute_allocated execute env sock buffer server queued.copied queued.tokenized
        queued.nonempty
      have direct : isTxCommand (commandName (cstr buffer)) = false := queued.direct
      rw [queued.inside, direct, Bool.not_false, Bool.and_self, if_pos rfl] at queuing
      rw [queuing, queue_result] at failed
      cases failed
  · intro rejected
    have idle := rejected_no_call env sock buffer server rejected
    have calls := execute_calls execute env sock buffer server
    rw [idle] at calls
    rcases calls with ⟨message, refused⟩ | ⟨queued, -⟩
    · rw [refused]
      exact ⟨idle, rfl, rfl, refuse_unfed server sock message⟩
    · exact absurd rejected (queued_not_rejected env sock server _ queued)

end Calls

/-- An input that ends inside an opened quote is turned away exactly when the words in front of the
    quote are: `depth` is 0 for an input that EXEC runs. -/
theorem open_quote_rejected_iff (depth : Nat) (oracle : Oracle) (sock : Int) (buffer : Bytes)
    (server : Server) (ends : EndsInQuote (cstr buffer)) :
    ∃ front rest, cstr buffer = front ++ quote :: rest ∧ scanEnd .skipping front = .skipping ∧
      tokens (cstr buffer) = tokens front ∧
      (TurnedAway (oracle []) sock buffer server (executeCommandAt depth oracle sock buffer server) ↔
        Rejected (oracle []) sock server (tokens front)) := by
  obtain ⟨front, rest, split, between, words⟩ :=
    words_before_quote (cstr buffer) (cstr_nul_free buffer) ends
  refine ⟨front, rest, split, between, words, ?_⟩
  rw [← words]
  cases depth with
  | zero => exact turned_away_iff _ (oracle []) sock buffer server
  | succ depth => exact turned_away_iff _ (oracle []) sock buffer server

theorem ends_in_quote_of (input : Bytes) (alloc : TokenAlloc)
    (ends : (runLoop alloc (startLoop input).input.length (startLoop input)).map TokenLoop.state =
      some .quoted) : EndsInQuote input := by
  obtain ⟨after, ran, state⟩ := Option.map_eq_some_iff.mp ends
  exact ⟨alloc, after, ran, state⟩

/-- The words `SET k` are too few. -/
theorem short_set_rejected :
    TurnedAway (calm 0 []) 7 (ascii "SET k \"abc") oneClient
      (executeCommandAt 1 (calm 0) 7 (ascii "SET k \"abc") oneClient) := by
  have ends : EndsInQuote (cstr (ascii "SET k \"abc")) :=
    ends_in_quote_of _ ⟨true, fun _ => true, fun _ => true⟩ (by decide +kernel)
  obtain ⟨front, rest, -, -, words, rejected⟩ := open_quote_rejected_iff 1 (calm 0) 7
    (ascii "SET k \"abc") oneClient ends
  refine rejected.mpr (Or.inr (Or.inr (Or.inr ?_)))
  rw [← words]
  exact ⟨by decide +kernel, by decide +kernel⟩

/-- The words `SET k v` are run, and `"abc` is lost. -/
theorem open_quote_executed :
    EndsInQuote (cstr (ascii "SET k v \"abc")) ∧
      handlerCall (calm 0 []) 7 (ascii "SET k v \"abc") oneClient =
        some (.set, [ascii "set", ascii "k", ascii "v"]) ∧
      (executeCommandAt 1 (calm 0) 7 (ascii "SET k v \"abc") oneClient).result = .ok ∧
      .fed (ascii "SET k v \"abc") ∈
        (executeCommandAt 1 (calm 0) 7 (ascii "SET k v \"abc") oneClient).events := by
  refine ⟨ends_in_quote_of _ ⟨true, fun _ => true, fun _ => true⟩ (by decide +kernel), ?_⟩
  decide +kernel

end CrimsonCache.OpenQuotes
