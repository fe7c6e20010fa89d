import CrimsonCache.Tokenizer

/-!
`tokenize_command` on its own buffer: the index `p` that walks it, the NULs that
end the tokens in place, the look back at the byte before `p`, and the array of
tokens that grows. It returns the tokens of the scanner, or NULL when one of its
allocations fails. The buffer reads as zero from its terminator on.
-/

namespace CrimsonCache.TokenBuffer

open CString Tokenizer

section Model

inductive LoopState where
  | spaces
  | token
  | quoted
  deriving DecidableEq

/-- Outcomes of the allocations: the array, and for the token of each index the array's growth
    and the copy. -/
structure TokenAlloc where
  array : Bool
  grow : Nat → Bool
  copy : Nat → Bool

structure TokenLoop where
  input : Bytes
  p : Nat
  state : LoopState
  start : Nat
  tokens : List Bytes
  maxTokens : Nat

def byteAt (input : Bytes) (index : Nat) : UInt8 := input.getD index 0

def cutNewline (input : Bytes) : Bytes :=
  let len := strlen input
  if len ≥ 2 ∧ byteAt input (len - 2) = cr ∧ byteAt input (len - 1) = lf then input.set (len - 2) 0
  else if len ≥ 1 ∧ byteAt input (len - 1) = lf then input.set (len - 1) 0
  else input

/-- `tokens[count] = strdup(start)`, in an array that is made larger when it is full. `none` is the
    jump to `cleanup`. -/
def addToken (alloc : TokenAlloc) (larger : Nat → Nat) (loop : TokenLoop) : Option TokenLoop :=
  let count := loop.tokens.length
  if count ≥ loop.maxTokens then
    if alloc.grow count && alloc.copy count then
      some { loop with
        tokens := loop.tokens ++ [cstr (loop.input.drop loop.start)]
        maxTokens := larger loop.maxTokens }
    else none
  else if alloc.copy count then
    some { loop with tokens := loop.tokens ++ [cstr (loop.input.drop loop.start)] }
  else none

/-- `*p = '\0'` and the token that ends there. -/
def endToken (alloc : TokenAlloc) (loop : TokenLoop) : Option TokenLoop :=
  (addToken alloc (· * 2) { loop with input := loop.input.set loop.p 0 }).map fun loop =>
    { loop with state := .spaces, p := loop.p + 1 }

/-- One round of the loop. -/
def scanByte (alloc : TokenAlloc) (loop : TokenLoop) : Option TokenLoop :=
  let c := byteAt loop.input loop.p
  match loop.state with
  | .spaces =>
      if isspace c then some { loop with p := loop.p + 1 }
      else if c = quote then
        some { loop with start := loop.p + 1, state := .quoted, p := loop.p + 1 }
      else some { loop with start := loop.p, state := .token, p := loop.p + 1 }
  | .token =>
      if isspace c then endToken alloc loop else some { loop with p := loop.p + 1 }
  | .quoted =>
      if c = quote ∧ (loop.p = 0 ∨ byteAt loop.input (loop.p - 1) ≠ backslash) then
        endToken alloc loop
      else some { loop with p := loop.p + 1 }

/-- `while (*p)`; every round moves `p` on, so the length of the buffer bounds the rounds. -/
def runLoop (alloc : TokenAlloc) : Nat → TokenLoop → Option TokenLoop
  | 0, loop => some loop
  | rounds + 1, loop =>
      if byteAt loop.input loop.p = 0 then some loop
      else (scanByte alloc loop).bind (runLoop alloc rounds)

/-- The token that the end of the input closes; an open quote is not looked at. -/
def finish (alloc : TokenAlloc) (loop : TokenLoop) : Option TokenLoop :=
  if loop.state = .token then addToken alloc (· + 1) loop else some loop

def startLoop (input : Bytes) : TokenLoop := ⟨cutNewline input, 0, .spaces, 0, [], 10⟩

/-- The tokens and `argc`. -/
def tokenizeInPlace (alloc : TokenAlloc) (input : Bytes) : Option (List Bytes × Nat) :=
  if alloc.array then
    ((runLoop alloc (startLoop input).input.length (startLoop input)).bind (finish alloc)).map
      fun loop => (loop.tokens, loop.tokens.length)
  else none

def TokenAlloc.Succeeds (alloc : TokenAlloc) : Prop :=
  alloc.array = true ∧ (∀ count, alloc.grow count = true) ∧ ∀ count, alloc.copy count = true

/-- The state of the scanner after more of the input. -/
def scanEnd : ScanState → Bytes → ScanState
  | state, [] => state
  | .skipping, c :: rest =>
      if isspace c then scanEnd .skipping rest
      else if c = quote then scanEnd (.quoted c []) rest
      else scanEnd (.token [c]) rest
  | .token start, c :: rest =>
      if isspace c then scanEnd .skipping rest else scanEnd (.token (start ++ [c])) rest
  | .quoted prev start, c :: rest =>
      if c = quote ∧ prev ≠ backslash then scanEnd .skipping rest
      else scanEnd (.quoted c (start ++ [c])) rest

/-- The state of the scanner after one byte, and the token that ends there. -/
def advance : ScanState → UInt8 → ScanState × List Bytes
  | .skipping, c =>
      if isspace c then (.skipping, [])
      else if c = quote then (.quoted c [], [])
      else (.token [c], [])
  | .token start, c => if isspace c then (.skipping, [start]) else (.token (start ++ [c]), [])
  | .quoted prev start, c =>
      if c = quote ∧ prev ≠ backslash then (.skipping, [start]) else (.quoted c (start ++ [c]), [])

end Model

section Array

/-- A token is written within the array: it has been made large enough. -/
theorem add_token_some (alloc : TokenAlloc) (larger : Nat → Nat) (loop after : TokenLoop)
    (grows : loop.maxTokens < larger loop.maxTokens) (room : loop.tokens.length ≤ loop.maxTokens)
    (added : addToken alloc larger loop = some after) :
    ∃ size, loop.tokens.length < size ∧
      after = { loop with
        tokens := loop.tokens ++ [cstr (loop.input.drop loop.start)]
        maxTokens := size } := by
  simp only [addToken] at added
  split at added
  case isTrue full =>
    split at added
    case isFalse => simp at added
    case isTrue =>
      exact ⟨larger loop.maxTokens, Nat.lt_of_le_of_lt room grows, (Option.some.inj added).symm⟩
  case isFalse space =>
    split at added
    case isFalse => simp at added
    case isTrue => exact ⟨loop.maxTokens, by omega, (Option.some.inj added).symm⟩

theorem add_token_succeeds (alloc : TokenAlloc) (succeeds : alloc.Succeeds) (larger : Nat → Nat)
    (loop : TokenLoop) : ∃ after, addToken alloc larger loop = some after := by
  obtain ⟨-, grow, copy⟩ := succeeds
  simp only [addToken, grow, copy, Bool.and_self, ↓reduceIte]
  split
  · exact ⟨_, rfl⟩
  · exact ⟨_, rfl⟩

theorem scan_byte_succeeds (alloc : TokenAlloc) (succeeds : alloc.Succeeds) (loop : TokenLoop) :
    ∃ after, scanByte alloc loop = some after := by
  have ends : ∃ after, endToken alloc loop = some after := by
    obtain ⟨after, added⟩ := add_token_succeeds alloc succeeds (· * 2)
      { loop with input := loop.input.set loop.p 0 }
    exact ⟨_, by rw [endToken, added, Option.map_some]⟩
  cases state : loop.state with
  | spaces =>
      simp only [scanByte, state]
      split
      · exact ⟨_, rfl⟩
      · split
        · exact ⟨_, rfl⟩
        · exact ⟨_, rfl⟩
  | token | quoted =>
      simp only [scanByte, state]
      split
      · exact ends
      · exact ⟨_, rfl⟩

theorem run_loop_succeeds (alloc : TokenAlloc) (succeeds : alloc.Succeeds) (rounds : Nat)
    (loop : TokenLoop) : ∃ after, runLoop alloc rounds loop = some after := by
  induction rounds generalizing loop with
  | zero => exact ⟨loop, rfl⟩
  | succ rounds ih =>
      simp only [runLoop]
      split
      · exact ⟨loop, rfl⟩
      · obtain ⟨next, moved⟩ := scan_byte_succeeds alloc succeeds loop
        rw [moved]
        exact ih next

end Array

section Scanner

/-- What the pointers of the loop say of the part of the buffer it has read. -/
def Marks (loop : TokenLoop) (front : Bytes) : ScanState → Prop
  | .skipping => loop.state = .spaces
  | .token start => loop.state = .token ∧ 0 ∉ start ∧
      ∃ before, front = before ++ start ∧ loop.start = before.length
  | .quoted prev start => loop.state = .quoted ∧ 0 ∉ start ∧ front.getLast? = some prev ∧
      ∃ before, front = before ++ start ∧ loop.start = before.length

/-- The loop stands where the scanner does, with `rest` up to the next NUL. -/
structure Reads (loop : TokenLoop) (state : ScanState) (rest : Bytes) : Prop where
  free : 0 ∉ rest
  positive : 0 < loop.maxTokens
  room : loop.tokens.length ≤ loop.maxTokens
  place : ∃ front tail, loop.input = front ++ (rest ++ tail) ∧ loop.p = front.length ∧
    byteAt tail 0 = 0 ∧ Marks loop front state

theorem byte_at_append (front back : Bytes) : byteAt (front ++ back) front.length = byteAt back 0 := by
  simp [byteAt, List.getD_eq_getElem?_getD, List.getElem?_append_right]

theorem byte_at_last (front back : Bytes) (prev : UInt8) (last : front.getLast? = some prev) :
    byteAt (front ++ back) (front.length - 1) = prev := by
  obtain ⟨before, rfl⟩ := List.getLast?_eq_some_iff.mp last
  simp [byteAt, List.getD_eq_getElem?_getD]

/-- What a copy from the start of a token takes up to the next NUL. -/
theorem cstr_ends (token tail : Bytes) (free : 0 ∉ token) (stop : byteAt tail 0 = 0) :
    cstr (token ++ tail) = token := by
  rw [cstr, List.takeWhile_append_of_pos]
  · cases tail with
    | nil => simp
    | cons c rest =>
        have nul : c = 0 := stop
        simp [nul]
  · intro byte member
    have nonzero : byte ≠ 0 := fun wrong => free (wrong ▸ member)
    simpa using nonzero

/-- The bytes from `start` to the NUL written at `p` are the token. -/
theorem ended_token (before start rest : Bytes) (c : UInt8) (free : 0 ∉ start) :
    cstr (((before ++ start ++ c :: rest).set (before ++ start).length 0).drop before.length) =
      start := by
  have ended : (before ++ start ++ c :: rest).set (before ++ start).length 0 =
      before ++ (start ++ 0 :: rest) := by
    rw [List.set_append_right _ _ (Nat.le_refl _)]
    simp
  rw [ended, List.drop_left, cstr_ends start (0 :: rest) free rfl]

/-- The end of a token: its bytes join the array and the loop goes back to the spaces. -/
theorem end_token_reads (alloc : TokenAlloc) (loop after : TokenLoop) (before start rest tail : Bytes)
    (c : UInt8) (input : loop.input = before ++ start ++ (c :: rest ++ tail))
    (p : loop.p = (before ++ start).length) (from_start : loop.start = before.length)
    (free : 0 ∉ start) (clean : 0 ∉ rest) (stop : byteAt tail 0 = 0) (positive : 0 < loop.maxTokens)
    (room : loop.tokens.length ≤ loop.maxTokens) (ended : endToken alloc loop = some after) :
    Reads after .skipping rest ∧ after.tokens = loop.tokens ++ [start] := by
  rw [endToken, Option.map_eq_some_iff] at ended
  obtain ⟨filled, added, rfl⟩ := ended
  have doubled : loop.maxTokens < loop.maxTokens * 2 := by omega
  obtain ⟨size, larger, rfl⟩ := add_token_some alloc (· * 2)
    { loop with input := loop.input.set loop.p 0 } filled doubled room added
  have counted : loop.tokens.length < size := larger
  have token := ended_token before start (rest ++ tail) c free
  have split : loop.input.set loop.p 0 = (before ++ start ++ [0]) ++ (rest ++ tail) := by
    rw [input, p, List.set_append_right _ _ (Nat.le_refl _)]
    simp
  constructor
  · refine ⟨clean, Nat.lt_of_le_of_lt (Nat.zero_le _) counted, ?_, before ++ start ++ [0], tail, split,
      ?_, stop, rfl⟩
    · simpa using Nat.succ_le_of_lt counted
    · simp [p, Nat.add_assoc]
  · simp only [input, p, from_start, List.cons_append, token]

theorem scan_end_nil (state : ScanState) : scanEnd state [] = state := by
  cases state <;> rfl

theorem scan_advance (state : ScanState) (c : UInt8) (rest : Bytes) :
    scan state (c :: rest) = (advance state c).2 ++ scan (advance state c).1 rest := by
  cases state with
  | skipping =>
      simp only [scan, advance]
      split
      · rfl
      · split
        · rfl
        · rfl
  | token start | quoted prev start =>
      simp only [scan, advance]
      split
      · rfl
      · rfl

theorem scan_end_advance (state : ScanState) (c : UInt8) (rest : Bytes) :
    scanEnd state (c :: rest) = scanEnd (advance state c).1 rest := by
  cases state with
  | skipping =>
      simp only [scanEnd, advance]
      split
      · rfl
      · split
        · rfl
        · rfl
  | token start | quoted prev start =>
      simp only [scanEnd, advance]
      split
      · rfl
      · rfl

/-- One round reads one byte as the scanner does. -/
theorem scan_byte_reads (alloc : TokenAlloc) (loop after : TokenLoop) (state : ScanState) (c : UInt8)
    (rest : Bytes) (reads : Reads loop state (c :: rest)) (moved : scanByte alloc loop = some after) :
    Reads after (advance state c).1 rest ∧ after.tokens = loop.tokens ++ (advance state c).2 := by
  obtain ⟨free, positive, room, front, tail, input, p, stop, marks⟩ := reads
  obtain ⟨nonzero, clean⟩ : (0 : UInt8) ≠ c ∧ 0 ∉ rest := by simpa using free
  have here : byteAt loop.input loop.p = c := by
    rw [input, p, byte_at_append]
    rfl
  have split : loop.input = (front ++ [c]) ++ (rest ++ tail) := by simp [input]
  have passed : loop.p + 1 = (front ++ [c]).length := by simp [p]
  cases state with
  | skipping =>
      simp only [Marks] at marks
      simp only [scanByte, marks, here] at moved
      by_cases blank : isspace c = true
      · simp only [blank, ↓reduceIte, Option.some.injEq] at moved
        subst moved
        simp only [advance, blank, ↓reduceIte]
        exact ⟨⟨clean, positive, room, front ++ [c], tail, split, passed, stop, rfl⟩, by simp⟩
      · simp only [blank, Bool.false_eq_true, ↓reduceIte] at moved
        by_cases opening : c = quote
        · simp only [opening, ↓reduceIte, Option.some.injEq] at moved
          subst moved
          simp only [advance, Bool.false_eq_true, ↓reduceIte, opening, quote_solid]
          rw [← opening]
          exact ⟨⟨clean, positive, room, front ++ [c], tail, split, passed, stop, rfl, by simp, by simp,
            front ++ [c], by simp, by simp [p]⟩, by simp⟩
        · simp only [opening, ↓reduceIte, Option.some.injEq] at moved
          subst moved
          simp only [advance, blank, opening, Bool.false_eq_true, ↓reduceIte]
          exact ⟨⟨clean, positive, room, front ++ [c], tail, split, passed, stop, rfl,
            by simpa using nonzero, front, rfl, p⟩, by simp⟩
  | token start =>
      obtain ⟨kind, whole, before, rfl, from_start⟩ := marks
      simp only [scanByte, kind, here] at moved
      by_cases blank : isspace c = true
      · simp only [blank, ↓reduceIte] at moved
        simp only [advance, blank, ↓reduceIte]
        exact end_token_reads alloc loop after before start rest tail c input p from_start whole clean
          stop positive room moved
      · simp only [blank, Bool.false_eq_true, ↓reduceIte, Option.some.injEq] at moved
        subst moved
        simp only [advance, blank, Bool.false_eq_true, ↓reduceIte]
        exact ⟨⟨clean, positive, room, before ++ start ++ [c], tail, split, passed, stop, rfl,
          by simp [whole, nonzero], before, by simp, from_start⟩, by simp⟩
  | quoted prev start =>
      obtain ⟨kind, whole, last, before, rfl, from_start⟩ := marks
      -- The byte before `p` is the last one read, so `p` is not at the beginning.
      have inside : loop.p ≠ 0 := by
        rw [p]
        intro empty
        simp [List.length_eq_zero_iff.mp empty] at last
      have back : byteAt loop.input (loop.p - 1) = prev := by
        rw [input, p]
        exact byte_at_last _ _ prev last
      simp only [scanByte, kind, here, inside, false_or, back] at moved
      by_cases closing : c = quote ∧ prev ≠ backslash
      · rw [if_pos closing] at moved
        rw [advance, if_pos closing]
        exact end_token_reads alloc loop after before start rest tail c input p from_start whole clean
          stop positive room moved
      · rw [if_neg closing, Option.some.injEq] at moved
        subst moved
        rw [advance, if_neg closing]
        exact ⟨⟨clean, positive, room, before ++ start ++ [c], tail, split, passed, stop, rfl,
          by simp [whole, nonzero], by simp, before, by simp, from_start⟩, by simp⟩

/-- The loop reads its input to the end and collects what the scanner has completed by then. -/
theorem run_loop_reads (alloc : TokenAlloc) (rounds : Nat) (loop after : TokenLoop) (state : ScanState)
    (rest : Bytes) (reads : Reads loop state rest) (enough : rest.length ≤ rounds)
    (ran : runLoop alloc rounds loop = some after) :
    ∃ closed, Reads after (scanEnd state rest) [] ∧ after.tokens = loop.tokens ++ closed ∧
      scan state rest = closed ++ scan (scanEnd state rest) [] := by
  induction rest generalizing rounds loop state with
  | nil =>
      have still : after = loop := by
        obtain ⟨-, -, -, front, tail, input, p, stop, -⟩ := reads
        cases rounds with
        | zero => exact (Option.some.inj ran).symm
        | succ rounds =>
            have ended : byteAt loop.input loop.p = 0 := by
              rw [input, p, byte_at_append]
              exact stop
            rw [runLoop, if_pos ended] at ran
            exact (Option.some.inj ran).symm
      rw [still, scan_end_nil]
      exact ⟨[], reads, by simp, by simp⟩
  | cons c rest ih =>
      cases rounds with
      | zero => simp at enough
      | succ rounds =>
          obtain ⟨front, tail, input, p, -, -⟩ := reads.place
          have here : byteAt loop.input loop.p ≠ 0 := by
            rw [input, p, byte_at_append]
            have nonzero := reads.free
            simp only [List.mem_cons, not_or] at nonzero
            exact Ne.symm nonzero.1
          rw [runLoop, if_neg here, Option.bind_eq_some_iff] at ran
          obtain ⟨next, moved, ran⟩ := ran
          obtain ⟨stands, joined⟩ := scan_byte_reads alloc loop next state c rest reads moved
          obtain ⟨closed, final, collected, all⟩ := ih rounds next _ stands (by simpa using enough) ran
          refine ⟨(advance state c).2 ++ closed, ?_, ?_, ?_⟩
          · rw [scan_end_advance]
            exact final
          · rw [collected, joined, List.append_assoc]
          · rw [scan_advance, scan_end_advance, all, List.append_assoc]

end Scanner

section Whole

/-- The buffer after the newline is cut: the text that is read, and a NUL where something was cut. -/
theorem cut_splits (input : Bytes) (free : 0 ∉ input) :
    ∃ tail, cutNewline input = stripNewline input ++ tail ∧ byteAt tail 0 = 0 := by
  have length : strlen input = input.length := by rw [strlen, cstr_of_nul_free input free]
  have last : ∀ front : Bytes, byteAt (front ++ [lf]) (front.length + 1 - 1) = lf := fun front => by
    simp [byteAt, List.getD_eq_getElem?_getD]
  by_cases ends : crlf <:+ input
  · obtain ⟨front, rfl⟩ := ends
    have crHere : byteAt (front ++ crlf) (front.length + 2 - 2) = cr := by
      simp [byteAt, crlf, List.getD_eq_getElem?_getD]
    have lfHere : byteAt (front ++ crlf) (front.length + 2 - 1) = lf := by
      simp [byteAt, crlf, List.getD_eq_getElem?_getD]
    refine ⟨[0, lf], ?_, rfl⟩
    simp only [cutNewline, length, List.length_append, show crlf.length = 2 from rfl, crHere, lfHere]
    simp [stripNewline, crlf]
  · by_cases newline : [lf] <:+ input
    · obtain ⟨front, rfl⟩ := newline
      refine ⟨[0], ?_, rfl⟩
      have plain : ¬ (front.length + 1 ≥ 2 ∧ byteAt (front ++ [lf]) (front.length + 1 - 2) = cr ∧
          byteAt (front ++ [lf]) (front.length + 1 - 1) = lf) := by
        rintro ⟨two, crHere, -⟩
        apply ends
        obtain ⟨before, c, rfl⟩ : ∃ before c, front = before ++ [c] := by
          rcases List.eq_nil_or_concat front with rfl | ⟨before, c, last⟩
          · simp at two
          · exact ⟨before, c, by rw [last, List.concat_eq_append]⟩
        have same : c = cr := by
          simpa [byteAt, List.getD_eq_getElem?_getD, List.getElem?_append] using crHere
        exact ⟨before, by simp [same, crlf]⟩
      have cut : cutNewline (front ++ [lf]) = (front ++ [lf]).set (front.length + 1 - 1) 0 := by
        simp only [cutNewline, length, List.length_append, List.length_singleton]
        rw [if_neg plain, if_pos ⟨by omega, last front⟩]
      rw [cut]
      simp [stripNewline, ends]
    · refine ⟨[], ?_, rfl⟩
      have other : ¬ (input.length ≥ 1 ∧ byteAt input (input.length - 1) = lf) := by
        rintro ⟨some, lfHere⟩
        rcases List.eq_nil_or_concat input with rfl | ⟨before, c, last⟩
        · simp at some
        · rw [List.concat_eq_append] at last
          subst last
          apply newline
          have same : c = lf := by
            simpa [byteAt, List.getD_eq_getElem?_getD, List.getElem?_append] using lfHere
          exact ⟨before, by simp [same]⟩
      have neither : ¬ (input.length ≥ 2 ∧ byteAt input (input.length - 2) = cr ∧
          byteAt input (input.length - 1) = lf) := fun both => other ⟨by omega, both.2.2⟩
      simp [cutNewline, length, neither, other, stripNewline, ends, newline]

theorem strip_free (input : Bytes) (free : 0 ∉ input) : 0 ∉ stripNewline input := by
  simp only [stripNewline]
  split
  · exact fun member => free (List.mem_of_mem_take member)
  · split
    · exact fun member => free (List.mem_of_mem_take member)
    · exact free

theorem start_reads (input : Bytes) (free : 0 ∉ input) :
    Reads (startLoop input) .skipping (stripNewline input) := by
  obtain ⟨tail, cut, stop⟩ := cut_splits input free
  exact ⟨strip_free input free, by simp [startLoop], by simp [startLoop], [], tail, cut, rfl, stop, rfl⟩

theorem start_enough (input : Bytes) (free : 0 ∉ input) :
    (stripNewline input).length ≤ (startLoop input).input.length := by
  obtain ⟨tail, cut, -⟩ := cut_splits input free
  have same : (startLoop input).input = stripNewline input ++ tail := cut
  rw [same, List.length_append]
  omega

/-- The end of the input completes a bare token and drops an open quote. -/
theorem finish_reads (alloc : TokenAlloc) (loop after : TokenLoop) (state : ScanState)
    (reads : Reads loop state []) (finished : finish alloc loop = some after) :
    after.tokens = loop.tokens ++ scan state [] := by
  obtain ⟨-, positive, room, front, tail, input, p, stop, marks⟩ := reads
  cases state with
  | skipping =>
      have kind : loop.state = .spaces := marks
      rw [finish, kind, if_neg (by decide)] at finished
      rw [Option.some.inj finished]
      simp [scan]
  | token start =>
      obtain ⟨kind, whole, before, rfl, from_start⟩ := marks
      rw [finish, kind, if_pos rfl] at finished
      obtain ⟨size, -, rfl⟩ := add_token_some alloc (· + 1) loop after (Nat.lt_succ_self _) room finished
      have token : cstr (loop.input.drop loop.start) = start := by
        rw [input, from_start, List.nil_append, List.append_assoc, List.drop_left,
          cstr_ends start tail whole stop]
      simp [scan, token]
  | quoted prev start =>
      have kind : loop.state = .quoted := marks.1
      rw [finish, kind, if_neg (by decide)] at finished
      rw [Option.some.inj finished]
      simp [scan]

/-- Whatever allocations fail, the array that is returned holds the tokens of the scanner. -/
theorem in_place_tokens (alloc : TokenAlloc) (input : Bytes) (free : 0 ∉ input)
    (result : List Bytes × Nat) (returned : tokenizeInPlace alloc input = some result) :
    result = (tokens input, (tokens input).length) := by
  simp only [tokenizeInPlace] at returned
  split at returned
  case isFalse => simp at returned
  case isTrue =>
    obtain ⟨last, finished, rfl⟩ := Option.map_eq_some_iff.mp returned
    obtain ⟨after, ran, ended⟩ := Option.bind_eq_some_iff.mp finished
    obtain ⟨closed, reads, collected, scanned⟩ := run_loop_reads alloc _ _ after _ _
      (start_reads input free) (start_enough input free) ran
    have all := finish_reads alloc after last _ reads ended
    have same : last.tokens = tokens input := by
      rw [all, collected, tokens, scanned]
      rfl
    rw [same]

theorem in_place_succeeds (alloc : TokenAlloc) (succeeds : alloc.Succeeds) (input : Bytes)
    (free : 0 ∉ input) :
    tokenizeInPlace alloc input = some (tokens input, (tokens input).length) := by
  obtain ⟨after, ran⟩ := run_loop_succeeds alloc succeeds (startLoop input).input.length
    (startLoop input)
  obtain ⟨last, finished⟩ : ∃ last, finish alloc after = some last := by
    simp only [finish]
    split
    · exact add_token_succeeds alloc succeeds _ _
    · exact ⟨after, rfl⟩
  have returned : tokenizeInPlace alloc input = some (last.tokens, last.tokens.length) := by
    simp [tokenizeInPlace, succeeds.1, ran, finished]
  rw [returned, in_place_tokens alloc input free _ returned]

end Whole

end CrimsonCache.TokenBuffer
