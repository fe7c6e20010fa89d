import CrimsonCache.CString

/-!
`tokenize_command` of commands.c. The three states of its loop carry what the C
code keeps in pointers: the bytes since `start`, and for a quoted token also the
byte before `p`. A quote closes a quoted token unless that byte is a backslash;
backslashes are never removed. A quoted token still open at the end is dropped.
-/

namespace CrimsonCache.Tokenizer

open CString

inductive ScanState where
  | skipping
  | token (start : Bytes)
  | quoted (prev : UInt8) (start : Bytes)

def stripNewline (input : Bytes) : Bytes :=
  if crlf <:+ input then input.take (input.length - 2)
  else if [lf] <:+ input then input.take (input.length - 1)
  else input

def scan : ScanState → Bytes → List Bytes
  | .skipping, [] => []
  | .skipping, c :: rest =>
      if isspace c then scan .skipping rest
      -- The byte before `start` is this quote, so a quote right behind it closes.
      else if c = quote then scan (.quoted c []) rest
      else scan (.token [c]) rest
  | .token start, [] => [start]
  | .token start, c :: rest =>
      if isspace c then start :: scan .skipping rest
      else scan (.token (start ++ [c])) rest
  | .quoted _ _, [] => []
  | .quoted prev start, c :: rest =>
      if c = quote ∧ prev ≠ backslash then start :: scan .skipping rest
      else scan (.quoted c (start ++ [c])) rest

/-- `none` is the NULL returned when an allocation fails. -/
def tokenizeCommand (alloc : Bool) (input : Bytes) : Option (List Bytes) :=
  if alloc then some (scan .skipping (stripNewline input)) else none

def tokens (input : Bytes) : List Bytes := scan .skipping (stripNewline input)

section Whitespace

theorem quote_solid : isspace quote = false := by decide

/-- Trailing whitespace never adds, ends or changes a token. -/
theorem scan_trailing (state : ScanState) (body space : Bytes)
    (blank : ∀ c ∈ space, isspace c = true) : scan state (body ++ space) = scan state body := by
  -- The induction is on the text in front, in every state; the blanks are met at its end.
  induction body generalizing state with
  | nil =>
      have skipped : scan .skipping space = [] := by
        induction space with
        | nil => rfl
        | cons c rest ih =>
            have first := blank c List.mem_cons_self
            have tail := ih fun d member => blank d (List.mem_cons_of_mem c member)
            simp [scan, first, tail]
      cases state with
      | skipping => simpa [scan] using skipped
      | token start =>
          cases space with
          | nil => rfl
          | cons c rest =>
              have first := blank c List.mem_cons_self
              simp only [scan, first, ↓reduceIte] at skipped
              simp [scan, first, skipped]
      | quoted prev start =>
          -- An open quote takes the blanks in and is dropped all the same.
          induction space generalizing prev start with
          | nil => rfl
          | cons c rest ih =>
              have first := blank c List.mem_cons_self
              have apart : c ≠ quote := by
                intro same
                rw [same, quote_solid] at first
                cases first
              have tail : scan .skipping rest = [] := by
                simpa [scan, first] using skipped
              simpa [scan, apart] using
                ih (fun d member => blank d (List.mem_cons_of_mem c member)) tail c (start ++ [c])
  | cons c rest ih =>
      cases state with
      | skipping =>
          simp only [List.cons_append, scan]
          split
          · exact ih .skipping
          · split
            · exact ih (.quoted c [])
            · exact ih (.token [c])
      | token start =>
          simp only [List.cons_append, scan]
          split
          · rw [ih .skipping]
          · exact ih (.token (start ++ [c]))
      | quoted prev start =>
          simp only [List.cons_append, scan]
          split
          · rw [ih .skipping]
          · exact ih (.quoted c (start ++ [c]))

theorem scan_leading (space body : Bytes) (blank : ∀ c ∈ space, isspace c = true) :
    scan .skipping (space ++ body) = scan .skipping body := by
  induction space with
  | nil => rfl
  | cons c rest ih =>
      have first := blank c List.mem_cons_self
      simpa [scan, first] using ih fun d member => blank d (List.mem_cons_of_mem c member)

theorem crlf_blank : ∀ c ∈ crlf, isspace c = true := by simp [crlf, cr, lf, isspace]

theorem strip_suffix (input : Bytes) :
    ∃ space, (∀ c ∈ space, isspace c = true) ∧ input = stripNewline input ++ space := by
  simp only [stripNewline]
  split
  case isTrue ends =>
    rcases ends with ⟨front, rfl⟩
    refine ⟨crlf, crlf_blank, ?_⟩
    simp [crlf]
  case isFalse =>
    split
    case isTrue ends =>
      rcases ends with ⟨front, rfl⟩
      refine ⟨[lf], by simp [lf, isspace], ?_⟩
      simp
    case isFalse => exact ⟨[], by simp, by simp⟩

/-- Cutting the newline first makes no difference to the tokens. -/
theorem tokens_scan (input : Bytes) : tokens input = scan .skipping input := by
  obtain ⟨space, blank, same⟩ := strip_suffix input
  conv_rhs => rw [same]
  exact (scan_trailing .skipping _ space blank).symm

/-- Surrounding whitespace does not change the tokens of an input. -/
theorem tokens_surrounded (before line after : Bytes) (front : ∀ c ∈ before, isspace c = true)
    (back : ∀ c ∈ after, isspace c = true) : tokens (before ++ line ++ after) = tokens line := by
  rw [tokens_scan, tokens_scan, scan_trailing .skipping _ after back, scan_leading before line front]

end Whitespace

section Tokens

/-- A token that can be written without quotes. -/
structure Bare (token : Bytes) : Prop where
  nonempty : token ≠ []
  solid : ∀ c ∈ token, isspace c = false
  head : token.head? ≠ some quote

/-- After the byte `prev`, the scanner reads on to a closing quote right behind
    these bytes and not before. -/
def closesAfter : UInt8 → Bytes → Bool
  | prev, [] => prev ≠ backslash
  | prev, c :: rest => (c ≠ quote || prev = backslash) && closesAfter c rest

/-- A token that can be written between quotes as it is. -/
def Quotable (token : Bytes) : Prop := closesAfter quote token = true

theorem scan_token (start body rest : Bytes) (solid : ∀ c ∈ body, isspace c = false) :
    scan (.token start) (body ++ rest) = scan (.token (start ++ body)) rest := by
  induction body generalizing start with
  | nil => simp
  | cons c body ih =>
      have first := solid c List.mem_cons_self
      have tail := ih (start ++ [c]) fun d member => solid d (List.mem_cons_of_mem c member)
      simpa [scan, first] using tail

theorem scan_quoted (prev : UInt8) (start body rest : Bytes)
    (closes : closesAfter prev body = true) :
    scan (.quoted prev start) (body ++ quote :: rest) = (start ++ body) :: scan .skipping rest := by
  induction body generalizing prev start with
  | nil =>
      have plain : prev ≠ backslash := by simpa [closesAfter] using closes
      simp [scan, plain]
  | cons c body ih =>
      simp only [closesAfter, Bool.and_eq_true, Bool.or_eq_true, decide_eq_true_eq] at closes
      have inside : ¬ (c = quote ∧ prev ≠ backslash) := by
        rintro ⟨same, plain⟩
        exact closes.1.elim (fun other => other same) plain
      have tail := ih c (start ++ [c]) closes.2
      simpa [scan, inside] using tail

/-- A bare token ends at whitespace or at the end of the input. -/
theorem scan_bare (token rest : Bytes) (bare : Bare token)
    (stop : ∀ c, rest.head? = some c → isspace c = true) :
    scan .skipping (token ++ rest) = token :: scan .skipping rest := by
  rcases bare with ⟨nonempty, solid, head⟩
  cases token with
  | nil => exact absurd rfl nonempty
  | cons c body =>
      have first := solid c List.mem_cons_self
      have plain : c ≠ quote := fun same => head (by simp [same])
      have walk := scan_token [c] body rest fun d member => solid d (List.mem_cons_of_mem c member)
      simp only [List.cons_append, scan, first, plain, Bool.false_eq_true, ↓reduceIte]
      rw [walk]
      cases rest with
      | nil => rfl
      | cons d rest => simp [scan, stop d rfl]

theorem scan_quotable (token rest : Bytes) (quotable : Quotable token) :
    scan .skipping (quote :: (token ++ quote :: rest)) = token :: scan .skipping rest := by
  have walk := scan_quoted quote [] token rest quotable
  simpa [scan, quote_solid] using walk

theorem scan_token_inv (start input first : Bytes) (more : List Bytes)
    (scanned : scan (.token start) input = first :: more) :
    ∃ body rest, input = body ++ rest ∧ first = start ++ body ∧
      (∀ c ∈ body, isspace c = false) ∧ (∀ c, rest.head? = some c → isspace c = true) ∧
      scan .skipping rest = more := by
  induction input generalizing start with
  | nil =>
      simp only [scan, List.cons.injEq] at scanned
      exact ⟨[], [], rfl, by simp [scanned.1], by simp, by simp, by simpa [scan] using scanned.2⟩
  | cons c input ih =>
      simp only [scan] at scanned
      split at scanned
      case isTrue space =>
        simp only [List.cons.injEq] at scanned
        refine ⟨[], c :: input, rfl, by simp [scanned.1], by simp, by simpa using space, ?_⟩
        simpa [scan, space] using scanned.2
      case isFalse solid =>
        obtain ⟨body, rest, whole, same, all, stop, tail⟩ := ih _ scanned
        refine ⟨c :: body, rest, by simp [whole], by simp [same], ?_, stop, tail⟩
        intro d member
        rcases List.mem_cons.mp member with head | later
        · rw [head]
          simpa using solid
        · exact all d later

theorem scan_quoted_inv (prev : UInt8) (start input first : Bytes) (more : List Bytes)
    (scanned : scan (.quoted prev start) input = first :: more) :
    ∃ body rest, input = body ++ quote :: rest ∧ first = start ++ body ∧
      closesAfter prev body = true ∧ scan .skipping rest = more := by
  induction input generalizing prev start with
  | nil => simp [scan] at scanned
  | cons c input ih =>
      simp only [scan] at scanned
      split at scanned
      case isTrue closing =>
        simp only [List.cons.injEq] at scanned
        exact ⟨[], input, by simp [closing.1], by simp [scanned.1],
          by simpa [closesAfter] using closing.2, scanned.2⟩
      case isFalse inside =>
        obtain ⟨body, rest, whole, same, closes, tail⟩ := ih _ _ scanned
        refine ⟨c :: body, rest, by simp [whole], by simp [same], ?_, tail⟩
        simp only [closesAfter, closes, Bool.and_true, Bool.or_eq_true, decide_eq_true_eq]
        by_cases same : c = quote
        · exact Or.inr (Classical.not_not.mp fun plain => inside ⟨same, plain⟩)
        · exact Or.inl same

/-- How the first token of an input was written. -/
theorem scan_cons_inv (input first : Bytes) (more : List Bytes)
    (scanned : scan .skipping input = first :: more) :
    ∃ space rest, (∀ c ∈ space, isspace c = true) ∧ scan .skipping rest = more ∧
      ((Bare first ∧ input = space ++ first ++ rest ∧
          ∀ c, rest.head? = some c → isspace c = true) ∨
        (Quotable first ∧ input = space ++ quote :: (first ++ quote :: rest))) := by
  induction input with
  | nil => simp [scan] at scanned
  | cons c input ih =>
      simp only [scan] at scanned
      split at scanned
      -- One case a state the first byte leads to: still skipping, in quotes, in a token.
      case isTrue blank =>
        obtain ⟨space, rest, spaces, tail, written⟩ := ih scanned
        refine ⟨c :: space, rest, ?_, tail, ?_⟩
        · intro d member
          rcases List.mem_cons.mp member with head | later
          · rw [head]
            exact blank
          · exact spaces d later
        · rcases written with ⟨bare, whole, stop⟩ | ⟨quotable, whole⟩
          · exact Or.inl ⟨bare, by simp [whole], stop⟩
          · exact Or.inr ⟨quotable, by simp [whole]⟩
      case isFalse solid =>
        split at scanned
        case isTrue opening =>
          obtain ⟨body, rest, whole, same, closes, tail⟩ := scan_quoted_inv _ _ _ _ _ scanned
          have named : first = body := by simpa using same
          subst named
          rw [opening] at closes
          exact ⟨[], rest, by simp, tail, Or.inr ⟨closes, by simp [opening, whole]⟩⟩
        case isFalse plain =>
          obtain ⟨body, rest, whole, same, all, stop, tail⟩ := scan_token_inv _ _ _ _ scanned
          have named : first = c :: body := by simpa using same
          subst named
          refine ⟨[], rest, by simp, tail, Or.inl ⟨⟨by simp, ?_, by simpa using plain⟩,
            by simp [whole], stop⟩⟩
          intro d member
          rcases List.mem_cons.mp member with head | later
          · rw [head]
            simpa using solid
          · exact all d later

end Tokens

end CrimsonCache.Tokenizer
