import CrimsonCache.Library.StepParsers
import CrimsonCache.SocketFrames

/-!
RESP values and their wire form. The reader takes one value off the front of a
stream and is stable, so nothing shorter than a whole encoding decodes.
-/

namespace CrimsonCache.RespValues

open CString Numerals StepParsers SocketFrames

inductive Value where
  | simple (text : Bytes)
  | error (text : Bytes)
  | integer (num : Int)
  | nullBulk
  | bulk (text : Bytes)
  | array (items : List Value)

section Encoding

mutual

def encode : Value → Bytes
  | .simple text => ascii "+" ++ (text ++ crlf)
  | .error text => ascii "-" ++ (text ++ crlf)
  | .integer num => ascii ":" ++ (decimalInt num ++ crlf)
  | .nullBulk => ascii "$" ++ (ascii "-1" ++ crlf)
  | .bulk text => ascii "$" ++ (decimal text.length ++ crlf ++ (text ++ crlf))
  | .array items => ascii "*" ++ (decimal items.length ++ crlf ++ encodeAll items)

def encodeAll : List Value → Bytes
  | [] => []
  | item :: rest => encode item ++ encodeAll rest

end

mutual

/-- The lines of a value are lines. -/
def Clean : Value → Prop
  | .simple text | .error text => cr ∉ text ∧ lf ∉ text
  | .integer _ | .nullBulk | .bulk _ => True
  | .array items => CleanAll items

def CleanAll : List Value → Prop
  | [] => True
  | item :: rest => Clean item ∧ CleanAll rest

end

end Encoding

section Reading

def readMark : Parser UInt8 UInt8
  | [] => none
  | mark :: rest => some (mark, rest)

def readLine : Parser UInt8 Bytes :=
  andThen takeLine fun text stream => if lf ∈ text then none else some (text, stream)

def readText (size : Nat) : Parser UInt8 Bytes := fun stream =>
  (takeBulk size stream).map fun left => (stream.take size, left)

def readMany (item : Parser UInt8 Value) : Nat → Parser UInt8 (List Value)
  | 0 => fun stream => some ([], stream)
  | count + 1 =>
      andThen item fun first =>
        andThen (readMany item count) fun rest stream => some (first :: rest, stream)

/-- What follows the first line of a value. -/
def readBody (item : Parser UInt8 Value) (mark : UInt8) (text : Bytes) : Parser UInt8 Value :=
  if mark = 43 then fun stream => some (.simple text, stream)
  else if mark = 45 then fun stream => some (.error text, stream)
  else if mark = 58 then fun stream => (numeral text).map fun num => (.integer num, stream)
  else if mark = 36 then
    if text = ascii "-1" then fun stream => some (.nullBulk, stream)
    else if isNumber text then
      andThen (readText (digitsValue text)) fun body stream => some (.bulk body, stream)
    else fun _ => none
  else if mark = 42 then
    if isNumber text then
      andThen (readMany item (digitsValue text)) fun items stream => some (.array items, stream)
    else fun _ => none
  else fun _ => none

/-- Every level of nesting takes a byte at least. -/
def readValue : Nat → Parser UInt8 Value
  | 0 => fun _ => none
  | depth + 1 =>
      andThen readMark fun mark => andThen readLine fun text => readBody (readValue depth) mark text

/-- The one value that the whole stream is. -/
def decode (stream : Bytes) : Option Value :=
  match readValue stream.length stream with
  | some (value, []) => some value
  | _ => none

end Reading

section Stability

theorem take_line_stable : Stable takeLine := by
  intro stream text rest more taken
  simp only [takeLine] at taken
  split at taken
  case h_2 => cases taken
  case h_1 left shape =>
    obtain ⟨rfl, rfl⟩ := Prod.mk.inj (Option.some.inj taken)
    have line : cr ∉ stream.takeWhile (· ≠ cr) := fun member => by
      simpa using List.mem_takeWhile_imp member
    have split : stream = stream.takeWhile (· ≠ cr) ++ crlf ++ left := by
      conv_lhs => rw [← List.takeWhile_append_dropWhile (p := (· ≠ cr)) (l := stream), shape]
      simp [crlf, cr, lf]
    have read := take_line (stream.takeWhile (· ≠ cr)) (left ++ more) line
    rwa [← List.append_assoc, ← split] at read

theorem read_line_stable : Stable readLine := by
  refine and_then_stable _ _ take_line_stable fun text => ?_
  split
  · exact fail_stable
  · exact pure_stable _

theorem read_text_stable (size : Nat) : Stable (readText size) := by
  intro stream text rest more read
  simp only [readText, takeBulk] at read ⊢
  split at read
  case isFalse => cases read
  case isTrue enough =>
    rw [if_pos (by rw [List.length_append]; omega), List.drop_append_of_le_length enough,
      List.take_append_of_le_length enough]
    split at read
    case h_2 => cases read
    case h_1 left shape =>
      obtain ⟨rfl, rfl⟩ := Prod.mk.inj (Option.some.inj read)
      rw [shape]
      rfl

theorem read_many_stable (item : Parser UInt8 Value) (stable : Stable item) (count : Nat) :
    Stable (readMany item count) := by
  induction count with
  | zero => exact pure_stable _
  | succ count ih =>
      exact and_then_stable _ _ stable fun first => and_then_stable _ _ ih fun rest => pure_stable _

theorem read_body_stable (item : Parser UInt8 Value) (stable : Stable item) (mark : UInt8)
    (text : Bytes) : Stable (readBody item mark text) := by
  unfold readBody
  split
  · exact pure_stable _
  split
  · exact pure_stable _
  split
  · cases numeral text with
    | none => exact fail_stable
    | some num => exact pure_stable _
  split
  · split
    · exact pure_stable _
    split
    · exact and_then_stable _ _ (read_text_stable _) fun body => pure_stable _
    · exact fail_stable
  split
  · split
    · exact and_then_stable _ _ (read_many_stable item stable _) fun items => pure_stable _
    · exact fail_stable
  · exact fail_stable

theorem read_mark_stable : Stable readMark := by
  intro stream mark rest more read
  cases stream with
  | nil => cases read
  | cons first after =>
      obtain ⟨rfl, rfl⟩ := Prod.mk.inj (Option.some.inj read)
      rfl

theorem read_value_stable (depth : Nat) : Stable (readValue depth) := by
  induction depth with
  | zero => exact fail_stable
  | succ depth ih =>
      exact and_then_stable _ _ read_mark_stable fun mark =>
        and_then_stable _ _ read_line_stable fun text => read_body_stable _ ih mark text

end Stability

section Depth

theorem read_many_refines (item other : Parser UInt8 Value) (refines : Refines item other)
    (count : Nat) : Refines (readMany item count) (readMany other count) := by
  induction count with
  | zero => exact refines_refl _
  | succ count ih =>
      exact and_then_refines _ _ _ _ refines fun first =>
        and_then_refines _ _ _ _ ih fun rest => refines_refl _

theorem read_body_refines (item other : Parser UInt8 Value) (refines : Refines item other)
    (mark : UInt8) (text : Bytes) : Refines (readBody item mark text) (readBody other mark text) := by
  unfold readBody
  split
  · exact refines_refl _
  split
  · exact refines_refl _
  split
  · exact refines_refl _
  split
  · exact refines_refl _
  split
  · split
    · exact and_then_refines _ _ _ _ (read_many_refines item other refines _)
        fun items => refines_refl _
    · exact refines_refl _
  · exact refines_refl _

/-- What is read at one depth is read at the next. -/
theorem read_value_refines (depth : Nat) : Refines (readValue depth) (readValue (depth + 1)) := by
  induction depth with
  | zero => exact fail_refines _
  | succ depth ih =>
      exact and_then_refines _ _ _ _ (refines_refl _) fun mark =>
        and_then_refines _ _ _ _ (refines_refl _) fun text => read_body_refines _ _ ih mark text

theorem read_value_deeper (depth more : Nat) (stream : Bytes) (result : Value × Bytes)
    (read : readValue depth stream = some result) : readValue (depth + more) stream = some result := by
  induction more with
  | zero => exact read
  | succ more ih => exact read_value_refines (depth + more) stream result ih

end Depth

section RoundTrip

/-- A mark and the line behind it. -/
theorem read_start (depth : Nat) (mark : UInt8) (text rest : Bytes) (line : cr ∉ text ∧ lf ∉ text) :
    readValue (depth + 1) (mark :: (text ++ crlf ++ rest)) = readBody (readValue depth) mark text rest := by
  have read : readLine (text ++ crlf ++ rest) = some (text, rest) := by
    rw [readLine, and_then_eq _ _ _ rest text (take_line text rest line.1), if_neg line.2]
  rw [readValue, and_then_eq _ _ _ (text ++ crlf ++ rest) mark rfl, and_then_eq _ _ _ rest text read]

theorem decimal_line (n : Nat) : cr ∉ decimal n ∧ lf ∉ decimal n := by
  refine ⟨decimal_cr_free n, fun member => ?_⟩
  obtain ⟨digit, small, same⟩ := decimal_bytes n lf member
  have blank := (digit_byte digit small).2.1
  rw [← same] at blank
  cases blank

theorem decimal_int_line (n : Int) : cr ∉ decimalInt n ∧ lf ∉ decimalInt n := by
  refine ⟨decimal_int_cr_free n, ?_⟩
  simp only [decimalInt]
  split
  · rw [List.mem_cons, not_or]
    exact ⟨by decide, (decimal_line _).2⟩
  · exact (decimal_line _).2

theorem decimal_no_null (n : Nat) : decimal n ≠ ascii "-1" := by
  intro same
  have number := decimal_number n
  rw [same] at number
  exact absurd number (by decide)

theorem read_text (text rest : Bytes) :
    readText text.length (text ++ crlf ++ rest) = some (text, rest) := by
  rw [readText, take_bulk, Option.map_some, List.append_assoc, List.take_left]

theorem read_body_bulk (item : Parser UInt8 Value) (n : Nat) :
    readBody item 36 (decimal n) =
      andThen (readText n) fun body stream => some (.bulk body, stream) := by
  simp [readBody, decimal_no_null, decimal_number, decimal_value]

theorem read_body_array (item : Parser UInt8 Value) (n : Nat) :
    readBody item 42 (decimal n) =
      andThen (readMany item n) fun items stream => some (.array items, stream) := by
  simp [readBody, decimal_number, decimal_value]

theorem encode_length (value : Value) : 0 < (encode value).length := by
  cases value <;> simp [encode, ascii]

mutual

theorem read_encode (value : Value) (clean : Clean value) (depth : Nat)
    (deep : (encode value).length ≤ depth) (rest : Bytes) :
    readValue depth (encode value ++ rest) = some (value, rest) := by
  obtain ⟨depth, rfl⟩ : ∃ less, depth = less + 1 :=
    Nat.exists_eq_add_of_le' (Nat.le_trans (encode_length value) deep)
  match value with
  | .simple text =>
      have start := read_start depth 43 text rest clean
      simpa [encode, ascii, readBody] using start
  | .error text =>
      have start := read_start depth 45 text rest clean
      simpa [encode, ascii, readBody] using start
  | .integer num =>
      have start := read_start depth 58 (decimalInt num) rest (decimal_int_line num)
      simpa [encode, ascii, readBody, numeral_decimal_int] using start
  | .nullBulk =>
      have start := read_start depth 36 (ascii "-1") rest (by decide)
      simpa [encode, ascii, readBody] using start
  | .bulk text =>
      have start := read_start depth 36 (decimal text.length) (text ++ crlf ++ rest) (decimal_line _)
      have body : readBody (readValue depth) 36 (decimal text.length) (text ++ crlf ++ rest) =
          some (.bulk text, rest) := by
        rw [read_body_bulk, and_then_eq _ _ _ rest text (read_text text rest)]
      rw [body] at start
      simpa [encode, ascii] using start
  | .array items =>
      have start := read_start depth 42 (decimal items.length) (encodeAll items ++ rest)
        (decimal_line _)
      have within : (encodeAll items).length ≤ depth := by
        simp only [encode, List.length_append] at deep
        have mark : (ascii "*").length = 1 := rfl
        omega
      have all := read_encode_all items clean depth within rest
      have body : readBody (readValue depth) 42 (decimal items.length) (encodeAll items ++ rest) =
          some (.array items, rest) := by
        rw [read_body_array, and_then_eq _ _ _ rest items all]
      rw [body] at start
      simpa [encode, ascii] using start

theorem read_encode_all (items : List Value) (clean : CleanAll items) (depth : Nat)
    (deep : (encodeAll items).length ≤ depth) (rest : Bytes) :
    readMany (readValue depth) items.length (encodeAll items ++ rest) = some (items, rest) := by
  match items with
  | [] => rfl
  | item :: others =>
      simp only [encodeAll, List.length_append] at deep
      have first := read_encode item clean.1 depth (by omega) (encodeAll others ++ rest)
      have later := read_encode_all others clean.2 depth (by omega) rest
      simp only [encodeAll, List.append_assoc, List.length_cons, readMany,
        and_then_eq _ _ _ _ item first, and_then_eq _ _ _ rest others later]

end

theorem decode_encode (value : Value) (clean : Clean value) : decode (encode value) = some value := by
  have read := read_encode value clean (encode value).length (Nat.le_refl _) []
  rw [List.append_nil] at read
  rw [decode, read]

/-- What is in front of a cut of an encoding is no value. -/
theorem cut_undecoded (value : Value) (clean : Clean value) (front back : Bytes)
    (split : encode value = front ++ back) (cut : back ≠ []) : decode front = none := by
  cases read : readValue front.length front with
  | none => rw [decode, read]
  | some result =>
      obtain ⟨other, left⟩ := result
      have longer := read_value_deeper _ back.length _ _
        (read_value_stable front.length front other left back read)
      have whole := read_encode value clean _ (Nat.le_refl _) []
      rw [List.append_nil, split, List.length_append, longer] at whole
      have ended := (List.append_eq_nil_iff.mp (Prod.mk.inj (Option.some.inj whole)).2).2
      exact absurd ended cut

/-- The front of an encoding decodes to its value exactly when it is all of it. -/
theorem front_decodes_iff (value : Value) (clean : Clean value) (front : Bytes)
    (part : front <+: encode value) : decode front = some value ↔ front = encode value := by
  obtain ⟨back, split⟩ := part
  constructor
  · intro decoded
    by_cases cut : back = []
    · rw [← split, cut, List.append_nil]
    · rw [cut_undecoded value clean front back split.symm cut] at decoded
      cases decoded
  · rintro rfl
    exact decode_encode value clean

end RoundTrip

end CrimsonCache.RespValues
