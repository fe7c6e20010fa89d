import CrimsonCache.TokenBuffer

/-!
Lines as a client writes them and what the tokenizer makes of them. A token can
stand bare, or in quotes with a backslash in front of each quote in it. As the
backslashes stay in the token, a value that holds a quote or a backslash cannot
be written at all.
-/

namespace CrimsonCache.QuotedLines

open CString Tokenizer TokenBuffer

/-- The two ways to write a token. -/
inductive Written (content : Bytes) : Bytes → Prop where
  | bare (nonempty : content ≠ []) (free : 0 ∉ content) (solid : ∀ c ∈ content, isspace c = false)
      (head : content.head? ≠ some quote) : Written content content
  | quoted (free : 0 ∉ content)
      (escaped : ∀ front back, content = front ++ quote :: back → front.getLast? = some backslash)
      (last : content.getLast? ≠ some backslash) :
      Written content (quote :: (content ++ [quote]))

/-- Written tokens with whitespace between them. -/
inductive Line : List Bytes → Bytes → Prop where
  | none : Line [] []
  | one (content text : Bytes) (written : Written content text) : Line [content] text
  | more (content text next space line : Bytes) (rest : List Bytes) (written : Written content text)
      (apart : space ≠ []) (blank : ∀ c ∈ space, isspace c = true)
      (following : Line (next :: rest) line) :
      Line (content :: next :: rest) (text ++ (space ++ line))

section Lines

theorem closes_after (prev : UInt8) (body : Bytes)
    (escaped : ∀ front back, body = front ++ quote :: back →
      (prev :: front).getLast? = some backslash)
    (last : (prev :: body).getLast? ≠ some backslash) : closesAfter prev body = true := by
  induction body generalizing prev with
  | nil => simpa [closesAfter] using last
  | cons c rest ih =>
      have first : c = quote → prev = backslash := by
        rintro rfl
        simpa using escaped [] rest rfl
      have tail := ih c (fun front back same => by
        simpa using escaped (c :: front) back (by rw [same, List.cons_append])) (by simpa using last)
      simp only [closesAfter, tail, Bool.and_true, Bool.or_eq_true, decide_eq_true_eq]
      by_cases opening : c = quote
      · exact Or.inr (first opening)
      · exact Or.inl opening

theorem escaped_quotable (content : Bytes)
    (escaped : ∀ front back, content = front ++ quote :: back → front.getLast? = some backslash)
    (last : content.getLast? ≠ some backslash) : Quotable content := by
  have apart : quote ≠ backslash := by decide
  apply closes_after
  · intro front back same
    have before := escaped front back same
    cases front with
    | nil => simp at before
    | cons c front => simpa using before
  · cases content with
    | nil => simpa using apart
    | cons c rest => simpa using last

/-- A written token is scanned up to what ends it, and scanning goes on behind. -/
theorem written_scanned (content text rest : Bytes) (written : Written content text)
    (stop : ∀ c, rest.head? = some c → isspace c = true) :
    scan .skipping (text ++ rest) = content :: scan .skipping rest := by
  cases written with
  | bare nonempty free solid head => exact scan_bare content rest ⟨nonempty, solid, head⟩ stop
  | quoted free escaped last =>
      simpa using scan_quotable content rest (escaped_quotable content escaped last)

theorem line_scanned (contents : List Bytes) (line : Bytes) (shape : Line contents line) :
    scan .skipping line = contents := by
  induction shape with
  | none => rfl
  | one content text written =>
      have whole := written_scanned content text [] written (by simp)
      simpa [scan] using whole
  | more content text next space line rest written apart blank following ih =>
      have stop : ∀ c, (space ++ line).head? = some c → isspace c = true := by
        intro c first
        cases space with
        | nil => exact absurd rfl apart
        | cons d space =>
            have same : d = c := by simpa using first
            exact same ▸ blank d List.mem_cons_self
      rw [written_scanned content text (space ++ line) written stop, scan_leading space line blank, ih]

theorem written_free (content text : Bytes) (written : Written content text) : 0 ∉ text := by
  cases written with
  | bare nonempty free solid head => exact free
  | quoted free escaped last =>
      have apart : (0 : UInt8) ≠ quote := by decide
      simp [free, apart]

theorem blank_free (space : Bytes) (blank : ∀ c ∈ space, isspace c = true) : 0 ∉ space := by
  intro member
  have wrong := blank 0 member
  simp [isspace] at wrong

theorem line_free (contents : List Bytes) (line : Bytes) (shape : Line contents line) : 0 ∉ line := by
  induction shape with
  | none => simp
  | one content text written => exact written_free content text written
  | more content text next space line rest written apart blank following ih =>
      simp [written_free content text written, blank_free space blank, ih]

/-- A well-formed line, whatever whitespace is in front of it and whichever newline behind, gives
    exactly its tokens and their count; NULL is returned only when an allocation fails. -/
theorem line_tokens (alloc : TokenAlloc) (contents : List Bytes) (leading line ending : Bytes)
    (blank : ∀ c ∈ leading, isspace c = true) (shape : Line contents line)
    (ends : ending = [] ∨ ending = [lf] ∨ ending = crlf) :
    (∀ result, tokenizeInPlace alloc (leading ++ line ++ ending) = some result →
      result = (contents, contents.length)) ∧
    (alloc.Succeeds →
      tokenizeInPlace alloc (leading ++ line ++ ending) = some (contents, contents.length)) := by
  have back : ∀ c ∈ ending, isspace c = true := by
    rcases ends with rfl | rfl | rfl
    · simp
    · simp [lf, isspace]
    · exact crlf_blank
  have free : 0 ∉ leading ++ line ++ ending := by
    simp [blank_free leading blank, line_free contents line shape, blank_free ending back]
  have read : tokens (leading ++ line ++ ending) = contents := by
    rw [tokens_surrounded leading line ending blank back, tokens_scan, line_scanned contents line shape]
  constructor
  · intro result returned
    rw [in_place_tokens alloc _ free result returned, read]
  · intro succeeds
    rw [in_place_succeeds alloc succeeds _ free, read]

def ready : TokenAlloc := ⟨true, fun _ => true, fun _ => true⟩

/-- A bare name, an empty value and an escaped quote. -/
theorem set_line_tokens :
    tokenizeInPlace ready (ascii "  " ++ ascii "SET \"\" \"\\\"\"" ++ crlf) =
      some ([ascii "SET", [], [backslash, quote]], 3) := by
  have bare : Written (ascii "SET") (ascii "SET") :=
    .bare (by decide +kernel) (by decide +kernel) (by decide +kernel) (by decide +kernel)
  have nothing : Written [] (ascii "\"\"") := .quoted (by simp) (by simp) (by simp)
  have value : Written [backslash, quote] (ascii "\"\\\"\"") := by
    refine .quoted (by decide +kernel) (fun front back same => ?_) (by decide +kernel)
    cases front with
    | nil => exact absurd (List.cons.inj same).1 (by decide +kernel)
    | cons c front =>
        cases front with
        | nil => simp [(List.cons.inj same).1]
        | cons d front => simp at same
  refine (line_tokens ready _ _ _ _ (by decide +kernel) (.more _ _ _ (ascii " ") _ _ bare
    (by decide +kernel) (by decide +kernel) (.more _ _ _ (ascii " ") _ _ nothing (by decide +kernel)
      (by decide +kernel) (.one _ _ value))) (Or.inr (Or.inr rfl))).2 ?_
  exact ⟨rfl, fun _ => rfl, fun _ => rfl⟩

end Lines

section Escapes

/-- A backslash in front of each quote and each backslash. -/
def escape (text : Bytes) : Bytes :=
  text.flatMap fun c => if c = quote ∨ c = backslash then [backslash, c] else [c]

theorem escape_plain (text : Bytes) (quotes : quote ∉ text) (backslashes : backslash ∉ text) :
    escape text = text := by
  induction text with
  | nil => rfl
  | cons c rest ih =>
      simp only [List.mem_cons, not_or] at quotes backslashes
      have tail := ih quotes.2 backslashes.2
      have plain : ¬ (c = quote ∨ c = backslash) := by
        rintro (same | same)
        · exact quotes.1 same.symm
        · exact backslashes.1 same.symm
      simp only [escape, List.flatMap_cons, if_neg plain] at tail ⊢
      rw [tail, List.singleton_append]

theorem escape_free (text : Bytes) (free : 0 ∉ text) : 0 ∉ escape text := by
  intro member
  obtain ⟨c, inside, written⟩ := List.mem_flatMap.mp member
  have nonzero : c ≠ 0 := fun wrong => free (wrong ▸ inside)
  have apart : (0 : UInt8) ≠ backslash := by decide
  split at written <;> simp_all [eq_comm]

-- Behind an extra backslash the escaped text never catches up with the text itself.
theorem escape_ahead (extra : Nat) (text rest : Bytes) :
    List.replicate (extra + 1) backslash ++ (escape text ++ [quote]) ≠ text ++ quote :: rest := by
  induction text generalizing extra with
  | nil =>
      intro same
      have first := (List.cons.inj same).1
      exact absurd first (by decide)
  | cons c text ih =>
      intro same
      obtain ⟨rfl, tail⟩ := List.cons.inj same
      apply ih (extra + 1)
      have special : escape (backslash :: text) = backslash :: backslash :: escape text := by
        simp [escape]
      rw [special] at tail
      have joined : List.replicate extra backslash ++ (backslash :: backslash :: escape text ++ [quote]) =
          text ++ quote :: rest := tail
      rw [← joined, List.replicate_succ', List.replicate_succ']
      simp

/-- Scanned back as it is, the text had nothing to escape. -/
theorem escape_reads_back (text rest : Bytes) (same : escape text ++ [quote] = text ++ quote :: rest) :
    quote ∉ text ∧ backslash ∉ text := by
  induction text with
  | nil => simp
  | cons c text ih =>
      by_cases special : c = quote ∨ c = backslash
      · have shape : escape (c :: text) = backslash :: c :: escape text := by simp [escape, special]
        rw [shape] at same
        obtain ⟨rfl, tail⟩ := List.cons.inj same
        exact absurd tail (escape_ahead 0 text rest)
      · have shape : escape (c :: text) = c :: escape text := by simp [escape, special]
        rw [shape] at same
        obtain ⟨quotes, backslashes⟩ := ih (List.cons.inj same).2
        simp only [not_or] at special
        exact ⟨by simp [quotes, Ne.symm special.1], by simp [backslashes, Ne.symm special.2]⟩

/-- An escaped text between quotes is read back exactly when there was nothing to escape. -/
theorem quoting_iff_plain (alloc : TokenAlloc) (succeeds : alloc.Succeeds) (text : Bytes)
    (free : 0 ∉ text) :
    tokenizeInPlace alloc (quote :: (escape text ++ [quote])) = some ([text], 1) ↔
      quote ∉ text ∧ backslash ∉ text := by
  have apart : (0 : UInt8) ≠ quote := by decide
  have whole : 0 ∉ quote :: (escape text ++ [quote]) := by simp [apart, escape_free text free]
  rw [in_place_succeeds alloc succeeds _ whole, tokens_scan]
  constructor
  · intro read
    have scanned : scan (.quoted quote []) (escape text ++ [quote]) = [text] := by
      simpa [scan, quote_solid] using congrArg Prod.fst (Option.some.inj read)
    obtain ⟨body, rest, input, named, -, -⟩ := scan_quoted_inv _ _ _ _ _ scanned
    have same : text = body := by simpa using named
    exact escape_reads_back text rest (same ▸ input)
  · rintro ⟨quotes, backslashes⟩
    have quotable : Quotable text := by
      apply escaped_quotable
      · rintro front back rfl
        simp at quotes
      · intro last
        exact backslashes (List.mem_of_getLast? last)
    have read := scan_quotable text [] quotable
    rw [escape_plain text quotes backslashes, read]
    rfl

theorem plain_value_read_back :
    tokenizeInPlace ready (quote :: (escape (ascii "a b") ++ [quote])) = some ([ascii "a b"], 1) :=
  (quoting_iff_plain ready ⟨rfl, fun _ => rfl, fun _ => rfl⟩ (ascii "a b") (by decide)).mpr (by decide)

/-- A single quote is read back with its backslash. -/
theorem quote_read_back_escaped :
    0 ∉ [quote] ∧
      tokenizeInPlace ready (quote :: (escape [quote] ++ [quote])) = some ([[backslash, quote]], 1) ∧
      tokenizeInPlace ready (quote :: (escape [quote] ++ [quote])) ≠ some ([[quote]], 1) := by
  decide +kernel

end Escapes

end CrimsonCache.QuotedLines
