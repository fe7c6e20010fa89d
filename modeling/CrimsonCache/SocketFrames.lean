import CrimsonCache.Commands
import CrimsonCache.Numerals

/-!
The `write` calls that reach one socket, and the frames they make up. A reply
helper may need several calls for one frame, and EXEC announces how many
replies belong to its header. A reader that knows where each call comes from
tells whether the calls arrive frame by frame.
-/

namespace CrimsonCache.SocketFrames

open CString Numerals Replies Pubsub Commands

/-- Where a call comes from: the header of EXEC, the first call of a reply helper or one
    behind it, a handler's own write, a published message, a command for another server. -/
inductive Kind where
  | header (count : Nat)
  | reply (answer : Reply)
  | more
  | plain
  | message
  | line
  deriving DecidableEq

structure Call where
  fd : Int
  kind : Kind
  data : Bytes
  deriving DecidableEq

def continued (fd : Int) (writes : List Bytes) : List Call :=
  writes.map fun data => ⟨fd, .more, data⟩

def replyCalls (fd : Int) (answer : Reply) : List Call :=
  match answer.writes with
  | [] => []
  | first :: after => ⟨fd, .reply answer, first⟩ :: continued fd after

/-- The calls of an event of a handler whose own writes are of one kind. -/
def eventCalls (kind : Kind) : Event → List Call
  | .reply fd answer => replyCalls fd answer
  | .write fd data => [⟨fd, kind, data⟩]
  | .replicaWrite fd data _ => [⟨fd, .line, data⟩]
  | .fed _ | .executing _ _ | .forked _ | .closed _ => []

def bytes (calls : List Call) : Bytes := calls.flatMap (·.data)

section Frames

/-- All calls of one reply. -/
inductive Answer (fd : Int) : List Call → Prop where
  | reply (answer : Reply) : Answer fd (replyCalls fd answer)
  | plain (data : Bytes) : Answer fd [⟨fd, .plain, data⟩]

def headerCall (fd : Int) (count : Nat) : Call := ⟨fd, .header count, arrayHeader count⟩

/-- All calls of one frame: of a reply, of a message, of an EXEC with its announced replies. -/
inductive Frame (fd : Int) : List Call → Prop where
  | answer (calls : List Call) (whole : Answer fd calls) : Frame fd calls
  | message (data : Bytes) : Frame fd [⟨fd, .message, data⟩]
  | exec (answers : List (List Call)) (each : ∀ calls ∈ answers, Answer fd calls) :
      Frame fd (headerCall fd answers.length :: answers.flatten)

/-- A RESP value. -/
inductive Resp : Bytes → Prop where
  | simple (text : Bytes) (clean : cr ∉ text ∧ lf ∉ text) : Resp (ascii "+" ++ text ++ crlf)
  | error (text : Bytes) (clean : cr ∉ text ∧ lf ∉ text) : Resp (ascii "-" ++ text ++ crlf)
  | integer (num : Int) : Resp (ascii ":" ++ decimalInt num ++ crlf)
  | nullBulk : Resp (ascii "$-1" ++ crlf)
  | bulk (text : Bytes) : Resp (ascii "$" ++ decimal text.length ++ crlf ++ text ++ crlf)
  | array (items : List Bytes) (each : ∀ item ∈ items, Resp item) :
      Resp (ascii "*" ++ decimal items.length ++ crlf ++ items.flatten)

/-- What a helper is given fits its buffer and is one line, and a bulk is not empty: the helper
    ends an empty one after its length. -/
def Fits : Reply → Prop
  | .string text => text.length ≤ 1020 ∧ cr ∉ text ∧ lf ∉ text
  | .error text => text.length ≤ 1020 ∧ cr ∉ text ∧ lf ∉ text
  | .integer num => (decimalInt num).length ≤ 28
  | .bulk text => 0 < strlen text ∧ (decimal (strlen text)).length ≤ 1020
  | .nullBulk => True

instance : DecidablePred Fits
  | .string _ => inferInstanceAs (Decidable (_ ∧ _))
  | .error _ => inferInstanceAs (Decidable (_ ∧ _))
  | .integer _ => inferInstanceAs (Decidable (_ ≤ _))
  | .bulk _ => inferInstanceAs (Decidable (_ ∧ _))
  | .nullBulk => inferInstanceAs (Decidable True)

/-- The call makes a RESP value by itself or with those that belong to it. -/
def Complete (call : Call) : Prop :=
  match call.kind with
  | .header count => (decimal count).length ≤ 28
  | .reply answer => Fits answer
  | .plain | .message => Resp call.data
  | .more | .line => True

theorem uncut (size : Nat) (start text : Bytes) (room : start.length + text.length + 2 < size) :
    snprintf size (start ++ text ++ crlf) = start ++ text ++ crlf := by
  apply List.take_of_length_le
  have ending : crlf.length = 2 := rfl
  simp only [List.length_append, ending]
  omega

theorem fits_resp (answer : Reply) (fits : Fits answer) : Resp answer.writes.flatten := by
  cases answer with
  | string text =>
      obtain ⟨short, line⟩ := fits
      have start : (ascii "+").length = 1 := rfl
      simp only [Reply.writes, List.flatten_cons, List.flatten_nil, List.append_nil]
      rw [uncut 1024 (ascii "+") text (by omega)]
      exact .simple text line
  | error text =>
      obtain ⟨short, line⟩ := fits
      have start : (ascii "-").length = 1 := rfl
      simp only [Reply.writes, List.flatten_cons, List.flatten_nil, List.append_nil]
      rw [uncut 1024 (ascii "-") text (by omega)]
      exact .error text line
  | integer num =>
      have short : (decimalInt num).length ≤ 28 := fits
      have start : (ascii ":").length = 1 := rfl
      simp only [Reply.writes, List.flatten_cons, List.flatten_nil, List.append_nil]
      rw [uncut 32 (ascii ":") (decimalInt num) (by omega)]
      exact .integer num
  | bulk text =>
      obtain ⟨some, short⟩ := fits
      have start : (ascii "$").length = 1 := rfl
      have whole := Resp.bulk (cstr text)
      simp only [Reply.writes, gt_iff_lt, some, ↓reduceIte, List.flatten_cons, List.flatten_nil,
        List.append_nil]
      rw [uncut 1024 (ascii "$") (decimal (strlen text)) (by omega)]
      simpa only [strlen, List.append_assoc] using whole
  | nullBulk => exact .nullBulk

theorem bulks_resp (texts : List Bytes) :
    Resp (ascii "*" ++ decimal texts.length ++ crlf ++
      (texts.map fun text => ascii "$" ++ decimal text.length ++ crlf ++ text ++ crlf).flatten) := by
  have whole := Resp.array (texts.map fun text =>
    ascii "$" ++ decimal text.length ++ crlf ++ text ++ crlf) fun item member => by
      obtain ⟨text, -, rfl⟩ := List.mem_map.mp member
      exact .bulk text
  simpa only [List.length_map] using whole

/-- A message that its buffer holds is an array of three bulks. -/
theorem message_resp (name message : Bytes)
    (room : (decimal (strlen name)).length + strlen name + (decimal (strlen message)).length +
      strlen message < 997) : Resp (messageFrame name message) := by
  have whole := bulks_resp [ascii "message", cstr name, cstr message]
  have start : ascii "*" ++ decimal 3 ++ crlf ++ (ascii "$" ++ decimal 7 ++ crlf ++
      ascii "message" ++ crlf) ++ ascii "$" = ascii "*3\r\n$7\r\nmessage\r\n$" := by
    decide
  have length : (ascii "*3\r\n$7\r\nmessage\r\n$").length = 18 := by decide
  have one : (ascii "$").length = 1 := rfl
  have ending : crlf.length = 2 := rfl
  rw [messageFrame, snprintf, List.take_of_length_le, ← start]
  · have seven : (ascii "message").length = 7 := rfl
    simpa [strlen, List.append_assoc, seven] using whole
  · simp only [List.length_append, length, one, ending]
    simp only [strlen] at room ⊢
    omega

theorem reply_bytes (fd : Int) (answer : Reply) :
    bytes (replyCalls fd answer) = answer.writes.flatten := by
  simp only [replyCalls]
  cases answer.writes with
  | nil => rfl
  | cons first after => simp [bytes, continued, List.flatMap_def, Function.comp_def]

theorem bytes_flatten (calls : List (List Call)) :
    bytes calls.flatten = (calls.map bytes).flatten := by
  induction calls with
  | nil => rfl
  | cons first rest ih =>
      rw [List.flatten_cons, List.map_cons, List.flatten_cons, ← ih]
      exact List.flatMap_append

theorem answer_resp (fd : Int) (calls : List Call) (whole : Answer fd calls)
    (complete : ∀ call ∈ calls, Complete call) : Resp (bytes calls) := by
  cases whole with
  | plain data => simpa [bytes, Complete] using complete _ List.mem_cons_self
  | reply answer =>
      rw [reply_bytes]
      simp only [replyCalls] at complete
      cases writes : answer.writes with
      | nil => cases answer <;> simp [Reply.writes] at writes
      | cons first after =>
          rw [writes] at complete
          have fits : Fits answer := complete _ List.mem_cons_self
          exact writes ▸ fits_resp answer fits

/-- A whole frame whose calls are complete is a RESP value. -/
theorem frame_resp (fd : Int) (calls : List Call) (whole : Frame fd calls)
    (complete : ∀ call ∈ calls, Complete call) : Resp (bytes calls) := by
  cases whole with
  | answer _ whole => exact answer_resp fd calls whole complete
  | message data => simpa [bytes, Complete] using complete _ List.mem_cons_self
  | exec answers each =>
      have short : (decimal answers.length).length ≤ 28 := complete _ List.mem_cons_self
      have start : (ascii "*").length = 1 := rfl
      have header : arrayHeader answers.length = ascii "*" ++ decimal answers.length ++ crlf :=
        uncut 32 (ascii "*") (decimal answers.length) (by omega)
      have items : bytes (headerCall fd answers.length :: answers.flatten) =
          ascii "*" ++ decimal (answers.map bytes).length ++ crlf ++ (answers.map bytes).flatten := by
        rw [List.length_map, ← header, ← bytes_flatten]
        rfl
      rw [items]
      refine Resp.array _ fun item member => ?_
      obtain ⟨calls, inside, rfl⟩ := List.mem_map.mp member
      exact answer_resp fd calls (each calls inside) fun call there =>
        complete call (List.mem_cons_of_mem _ (List.mem_flatten.mpr ⟨calls, inside, there⟩))

end Frames

section Parsing

/-- The text up to the next line end and what is behind that. -/
def takeLine (stream : Bytes) : Option (Bytes × Bytes) :=
  match stream.dropWhile (· ≠ cr) with
  | 13 :: 10 :: rest => some (stream.takeWhile (· ≠ cr), rest)
  | _ => none

def takeBulk (size : Nat) (stream : Bytes) : Option Bytes :=
  if size ≤ stream.length then
    match stream.drop size with
    | 13 :: 10 :: rest => some rest
    | _ => none
  else none

def takeItems (item : Bytes → Option Bytes) : Nat → Bytes → Option Bytes
  | 0, stream => some stream
  | count + 1, stream => (item stream).bind (takeItems item count)

/-- What follows the first line of a value: nothing, a bulk, or the items of an array. -/
def takeBody (item : Bytes → Option Bytes) (mark : UInt8) (text rest : Bytes) : Option Bytes :=
  if mark = 43 ∨ mark = 45 ∨ mark = 58 then some rest
  else if mark = 36 then
    if text = ascii "-1" then some rest else takeBulk (digitsValue text) rest
  else if mark = 42 then takeItems item (digitsValue text) rest
  else none

/-- What a client leaves of a stream when it takes one RESP value. -/
def takeResp : Nat → Bytes → Option Bytes
  | 0, _ => none
  | _ + 1, [] => none
  | depth + 1, mark :: stream =>
      (takeLine stream).bind fun line => takeBody (takeResp depth) mark line.1 line.2

/-- Whether a client takes the whole stream value by value. -/
def takesAll : Nat → Bytes → Bool
  | _, [] => true
  | 0, _ => false
  | count + 1, stream => (takeResp stream.length stream).any (takesAll count)

theorem take_line (text rest : Bytes) (free : cr ∉ text) :
    takeLine (text ++ crlf ++ rest) = some (text, rest) := by
  have line : ∀ c ∈ text, decide (c ≠ cr) = true := fun c member => by
    simpa using fun same : c = cr => free (same ▸ member)
  have dropped : (text ++ crlf ++ rest).dropWhile (· ≠ cr) = 13 :: 10 :: rest := by
    rw [List.append_assoc, List.dropWhile_append_of_pos line]
    rfl
  have taken : (text ++ crlf ++ rest).takeWhile (· ≠ cr) = text := by
    rw [List.append_assoc, List.takeWhile_append_of_pos line]
    simp [crlf]
  simp only [takeLine, dropped, taken]

theorem take_bulk (text rest : Bytes) : takeBulk text.length (text ++ crlf ++ rest) = some rest := by
  simp only [takeBulk, List.append_assoc, List.drop_left]
  simp [crlf, cr, lf]

theorem take_items (item : Bytes → Option Bytes) (items : List Bytes) (rest : Bytes)
    (each : ∀ text ∈ items, ∀ more, item (text ++ more) = some more) :
    takeItems item items.length (items.flatten ++ rest) = some rest := by
  induction items with
  | nil => rfl
  | cons first others ih =>
      have here := each first List.mem_cons_self (others.flatten ++ rest)
      have later := ih fun text member => each text (List.mem_cons_of_mem first member)
      simp only [List.flatten_cons, List.append_assoc, List.length_cons, takeItems, here,
        Option.bind_some, later]

theorem take_body (depth : Nat) (mark : UInt8) (text rest : Bytes) (free : cr ∉ text) :
    takeResp (depth + 1) (mark :: (text ++ crlf ++ rest)) =
      takeBody (takeResp depth) mark text rest := by
  rw [takeResp, take_line text rest free]
  rfl

/-- A client takes a RESP value whole. -/
theorem resp_taken (value : Bytes) (resp : Resp value) (depth : Nat) (deep : value.length ≤ depth)
    (rest : Bytes) : takeResp depth (value ++ rest) = some rest := by
  have marks : ascii "+" = [43] ∧ ascii "-" = [45] ∧ ascii ":" = [58] ∧ ascii "$" = [36] ∧
      ascii "*" = [42] := by decide
  obtain ⟨plus, minus, colon, dollar, star⟩ := marks
  have shift (mark : UInt8) (text more : Bytes) :
      [mark] ++ text ++ crlf ++ more = mark :: (text ++ crlf ++ more) := by simp
  -- Every value starts with its mark, so that one level of the depth is there to be used.
  have deeper (depth : Nat) (mark : UInt8) (text : Bytes)
      (bound : ([mark] ++ text ++ crlf).length ≤ depth) : ∃ less, depth = less + 1 := by
    simp only [List.length_append, List.length_singleton] at bound
    exact ⟨depth - 1, by omega⟩
  induction resp generalizing depth rest with
  | simple text clean =>
      rw [plus] at deep ⊢
      obtain ⟨less, rfl⟩ := deeper depth 43 text deep
      rw [shift, take_body less 43 text rest clean.1]
      rfl
  | error text clean =>
      rw [minus] at deep ⊢
      obtain ⟨less, rfl⟩ := deeper depth 45 text deep
      rw [shift, take_body less 45 text rest clean.1]
      rfl
  | integer num =>
      rw [colon] at deep ⊢
      obtain ⟨less, rfl⟩ := deeper depth 58 _ deep
      rw [shift, take_body less 58 _ rest (decimal_int_cr_free num)]
      rfl
  | nullBulk =>
      have front : ascii "$-1" = [36] ++ ascii "-1" := by decide
      rw [front] at deep ⊢
      obtain ⟨less, rfl⟩ := deeper depth 36 _ deep
      rw [shift, take_body less 36 _ rest (by decide)]
      rfl
  | bulk text =>
      rw [dollar] at deep ⊢
      obtain ⟨less, rfl⟩ := deeper depth 36 (decimal text.length) (by
        simp only [List.length_append] at deep ⊢
        omega)
      have flat : [36] ++ decimal text.length ++ crlf ++ text ++ crlf ++ rest =
          [36] ++ decimal text.length ++ crlf ++ (text ++ crlf ++ rest) := by simp
      have sized : decimal text.length ≠ ascii "-1" := by
        intro same
        obtain ⟨digit, small, minus⟩ := decimal_bytes text.length 45 (same ▸ by decide)
        exact (digit_byte digit small).2.2.2.2.1 minus.symm
      rw [flat, shift, take_body less 36 _ _ (decimal_cr_free _)]
      simp only [takeBody, sized, ↓reduceIte, decimal_value, take_bulk]
      rfl
  | array items each ih =>
      rw [star] at deep ⊢
      obtain ⟨less, rfl⟩ := deeper depth 42 (decimal items.length) (by
        simp only [List.length_append] at deep ⊢
        omega)
      rw [List.append_assoc _ items.flatten rest, shift, take_body less 42 _ _ (decimal_cr_free _)]
      have taken : ∀ text ∈ items, ∀ more, takeResp less (text ++ more) = some more := by
        intro text member more
        apply ih text member
        have inside := (List.sublist_flatten_of_mem member).length_le
        simp only [List.length_append, List.length_singleton] at deep
        omega
      have array (text more : Bytes) : takeBody (takeResp less) 42 text more =
          takeItems (takeResp less) (digitsValue text) more := rfl
      rw [array, decimal_value, take_items _ items rest taken]

theorem values_taken (values : List Bytes) (each : ∀ value ∈ values, Resp value) (count : Nat)
    (enough : values.length ≤ count) : takesAll count values.flatten = true := by
  induction values generalizing count with
  | nil => cases count <;> rfl
  | cons first others ih =>
      obtain ⟨less, rfl⟩ := Nat.exists_eq_add_of_le' (Nat.one_le_of_lt enough)
      have later := ih (fun value member => each value (List.mem_cons_of_mem first member)) less
        (by simpa using enough)
      have taken := resp_taken first (each first List.mem_cons_self) _
        (by simp : first.length ≤ (first ++ others.flatten).length) others.flatten
      cases shape : first ++ others.flatten with
      | nil => simp [shape, takesAll]
      | cons mark stream =>
          rw [shape] at taken
          simp only [List.flatten_cons, shape, takesAll, taken, Option.any_some, later]

theorem resp_nonempty (value : Bytes) (resp : Resp value) : value ≠ [] := by
  have ending : crlf ≠ [] := by simp [crlf]
  cases resp <;> simp [ending]

/-- A stream of whole values can be taken value by value. -/
theorem stream_taken (values : List Bytes) (each : ∀ value ∈ values, Resp value) :
    takesAll values.flatten.length values.flatten = true := by
  apply values_taken values each
  induction values with
  | nil => exact Nat.zero_le _
  | cons first others ih =>
      have later := ih fun value member => each value (List.mem_cons_of_mem first member)
      have some := List.length_pos_of_ne_nil
        (resp_nonempty first (each first List.mem_cons_self))
      simp only [List.flatten_cons, List.length_append, List.length_cons]
      omega

end Parsing

section Reading

/-- Where the reader stands: the calls that the open reply still needs, and the replies that
    the open EXEC still owes. -/
structure Reader where
  rest : List Bytes
  owed : Nat
  deriving DecidableEq

def atRest : Reader := ⟨[], 0⟩

def close (after : List Bytes) (owed : Nat) : Reader :=
  if after = [] then ⟨[], owed - 1⟩ else ⟨after, owed⟩

def read (reader : Reader) (call : Call) : Option Reader :=
  match reader.rest, call.kind with
  | [], .header count =>
      if reader.owed = 0 ∧ call.data = arrayHeader count then some ⟨[], count⟩ else none
  | [], .message => if reader.owed = 0 then some reader else none
  | [], .plain => some (close [] reader.owed)
  | [], .reply answer =>
      match answer.writes with
      | [] => none
      | first :: after => if call.data = first then some (close after reader.owed) else none
  | data :: after, .more => if call.data = data then some (close after reader.owed) else none
  | _, _ => none

def readAll : Reader → List Call → Option Reader
  | reader, [] => some reader
  | reader, call :: rest => (read reader call).bind fun reader => readAll reader rest

theorem read_all_append (reader : Reader) (first second : List Call) :
    readAll reader (first ++ second) =
      (readAll reader first).bind fun reader => readAll reader second := by
  induction first generalizing reader with
  | nil => rfl
  | cons call rest ih =>
      simp only [List.cons_append, readAll, ih]
      cases read reader call <;> rfl

theorem read_all_snoc (reader middle : Reader) (calls : List Call) (call : Call)
    (before : readAll reader calls = some middle) :
    readAll reader (calls ++ [call]) = read middle call := by
  simp only [read_all_append, before, Option.bind_some, readAll]
  cases read middle call <;> rfl

theorem read_continued (fd : Int) (owed : Nat) (left : List Bytes) (some : left ≠ []) :
    readAll ⟨left, owed⟩ (continued fd left) = .some ⟨[], owed - 1⟩ := by
  induction left with
  | nil => exact absurd rfl some
  | cons data after ih =>
      by_cases last : after = []
      · subst last
        simp [continued, readAll, read, close]
      · have later := ih last
        simp only [continued, List.map_cons, readAll, read, ↓reduceIte, close, last,
          Option.bind_some] at later ⊢
        exact later

/-- Between two replies a reader takes a whole one. -/
theorem read_answer (fd : Int) (owed : Nat) (calls : List Call) (whole : Answer fd calls) :
    readAll ⟨[], owed⟩ calls = some ⟨[], owed - 1⟩ := by
  cases whole with
  | plain data => simp [readAll, read, close]
  | reply answer =>
      simp only [replyCalls]
      cases writes : answer.writes with
      | nil => cases answer <;> simp [Reply.writes] at writes
      | cons first after =>
          by_cases last : after = []
          · subst last
            simp [continued, readAll, read, writes, close]
          · have later := read_continued fd owed after last
            simpa [readAll, read, writes, close, last] using later

theorem read_answers (fd : Int) (owed : Nat) (answers : List (List Call))
    (each : ∀ calls ∈ answers, Answer fd calls) :
    readAll ⟨[], owed⟩ answers.flatten = some ⟨[], owed - answers.length⟩ := by
  induction answers generalizing owed with
  | nil => rfl
  | cons first rest ih =>
      have here := read_answer fd owed first (each first List.mem_cons_self)
      have later := ih (owed - 1) fun calls member => each calls (List.mem_cons_of_mem first member)
      rw [List.flatten_cons, read_all_append, here, Option.bind_some, later, List.length_cons]
      congr 2
      omega

theorem answer_inner (fd : Int) (calls : List Call) (whole : Answer fd calls) (call : Call)
    (member : call ∈ calls) (count : Nat) : call.kind ≠ .header count := by
  cases whole with
  | plain data => simp_all
  | reply answer =>
      simp only [replyCalls] at member
      cases writes : answer.writes with
      | nil => simp [writes] at member
      | cons first after =>
          simp only [writes, continued, List.mem_cons, List.mem_map] at member
          rcases member with rfl | ⟨data, -, rfl⟩ <;> simp

/-- Behind the header no call opens more replies. -/
theorem read_owed (reader later : Reader) (call : Call) (inner : ∀ count, call.kind ≠ .header count)
    (goes : read reader call = some later) : later.owed ≤ reader.owed := by
  have closes (after : List Bytes) : (close after reader.owed).owed ≤ reader.owed := by
    simp only [close]
    split
    · exact Nat.sub_le _ _
    · exact le_refl _
  simp only [read] at goes
  split at goes
  case h_1 kind => exact absurd kind (inner _)
  case h_2 =>
    split at goes
    · exact Option.some.inj goes ▸ le_refl _
    · simp at goes
  case h_3 => exact Option.some.inj goes ▸ closes []
  case h_4 =>
    split at goes
    · simp at goes
    · split at goes
      · exact Option.some.inj goes ▸ closes _
      · simp at goes
  case h_5 =>
    split at goes
    · exact Option.some.inj goes ▸ closes _
    · simp at goes
  case h_6 => simp at goes

variable (fd : Int)

/-- What there is of the reply that is being written. -/
def Begun (left : List Bytes) (begun : List Call) : Prop :=
  (left = [] ∧ begun = []) ∨ (left ≠ [] ∧ Answer fd (begun ++ continued fd left))

/-- What there is of the EXEC that is being answered, up to the last whole reply. -/
def Awaits (owed : Nat) (front : List Call) : Prop :=
  (owed = 0 ∧ front = []) ∨
    (owed ≠ 0 ∧ ∃ answers : List (List Call), (∀ calls ∈ answers, Answer fd calls) ∧
      front = headerCall fd (answers.length + owed) :: answers.flatten)

/-- The part of a frame that the reader has read. -/
def Opened (reader : Reader) (current : List Call) : Prop :=
  ∃ front begun, current = front ++ begun ∧ Begun fd reader.rest begun ∧ Awaits fd reader.owed front

/-- Whole frames, and what is open behind them. -/
def Splits (reader : Reader) (calls : List Call) : Prop :=
  ∃ (frames : List (List Call)) (current : List Call), calls = frames.flatten ++ current ∧
    (∀ frame ∈ frames, Frame fd frame) ∧ Opened fd reader current

theorem opened_splits (reader : Reader) (current : List Call) (opened : Opened fd reader current) :
    Splits fd reader current := ⟨[], current, rfl, by simp, opened⟩

theorem whole_splits (calls : List Call) (whole : Frame fd calls) : Splits fd atRest calls :=
  ⟨[calls], [], by simp, by simpa using whole, [], [], rfl, Or.inl ⟨rfl, rfl⟩, Or.inl ⟨rfl, rfl⟩⟩

/-- One more call of a reply: the reply goes on, or it ends and may end an EXEC. -/
theorem close_splits (owed : Nat) (front begun : List Call) (after : List Bytes)
    (awaits : Awaits fd owed front) (whole : Answer fd (begun ++ continued fd after)) :
    Splits fd (close after owed) (front ++ begun) := by
  by_cases last : after = []
  · subst last
    simp only [continued, List.map_nil, List.append_nil] at whole
    rcases awaits with ⟨rfl, rfl⟩ | ⟨some, answers, each, rfl⟩
    · exact whole_splits fd _ (.answer _ whole)
    · have more : ∀ calls ∈ answers ++ [begun], Answer fd calls := by
        intro calls member
        rcases List.mem_append.mp member with old | new
        · exact each calls old
        · exact List.mem_singleton.mp new ▸ whole
      have flat : headerCall fd (answers.length + owed) :: answers.flatten ++ begun =
          headerCall fd (answers.length + owed) :: (answers ++ [begun]).flatten := by simp
      obtain ⟨later, rfl⟩ := Nat.exists_eq_succ_of_ne_zero some
      rw [flat]
      cases later with
      | zero =>
          have count : answers.length + (0 + 1) = (answers ++ [begun]).length := by simp
          rw [count]
          exact whole_splits fd _ (.exec _ more)
      | succ later =>
          apply opened_splits
          refine ⟨_, [], (List.append_nil _).symm, Or.inl ⟨rfl, rfl⟩,
            Or.inr ⟨Nat.succ_ne_zero _, answers ++ [begun], more, ?_⟩⟩
          simp only [close, ↓reduceIte, List.length_append, List.length_cons, List.length_nil]
          congr 2
          omega
  · apply opened_splits
    have goes : close after owed = ⟨after, owed⟩ := if_neg last
    rw [goes]
    exact ⟨front, begun, rfl, Or.inr ⟨last, whole⟩, awaits⟩

theorem read_splits (reader later : Reader) (current : List Call) (call : Call) (own : call.fd = fd)
    (opened : Opened fd reader current) (goes : read reader call = some later) :
    Splits fd later (current ++ [call]) := by
  obtain ⟨front, begun, rfl, inside, awaits⟩ := opened
  obtain ⟨rest, owed⟩ := reader
  obtain ⟨socket, kind, data⟩ := call
  obtain rfl : socket = fd := own
  dsimp only at inside awaits
  cases rest with
  | nil =>
      obtain rfl : begun = [] := by
        rcases inside with ⟨-, none⟩ | ⟨wrong, -⟩
        · exact none
        · exact absurd rfl wrong
      cases kind with
      | header count =>
          simp only [read] at goes
          split at goes
          case isFalse => simp at goes
          case isTrue announced =>
            obtain ⟨rfl, rfl⟩ := announced
            obtain rfl := Option.some.inj goes
            obtain rfl : front = [] := by simpa [Awaits] using awaits
            cases count with
            | zero => exact whole_splits _ _ (.exec [] (by simp))
            | succ count =>
                apply opened_splits
                exact ⟨_, [], (List.append_nil _).symm, Or.inl ⟨rfl, rfl⟩,
                  Or.inr ⟨Nat.succ_ne_zero _, [], by simp, by simp [headerCall]⟩⟩
      | message =>
          simp only [read] at goes
          split at goes
          case isFalse => simp at goes
          case isTrue free =>
            obtain rfl : owed = 0 := free
            obtain rfl := Option.some.inj goes
            obtain rfl : front = [] := by simpa [Awaits] using awaits
            exact whole_splits _ _ (.message data)
      | plain =>
          obtain rfl := Option.some.inj goes
          simpa using close_splits _ owed front [_] [] awaits (.plain data)
      | reply answer =>
          simp only [read] at goes
          cases writes : answer.writes with
          | nil => simp [writes] at goes
          | cons first after =>
              simp only [writes] at goes
              split at goes
              case isFalse => simp at goes
              case isTrue same =>
                obtain rfl : data = first := same
                obtain rfl := Option.some.inj goes
                have whole : Answer socket (replyCalls socket answer) := .reply answer
                simp only [replyCalls, writes] at whole
                simpa using close_splits _ owed front [_] after awaits whole
      | more => simp [read] at goes
      | line => simp [read] at goes
  | cons next after =>
      cases kind with
      | more =>
          simp only [read] at goes
          split at goes
          case isFalse => simp at goes
          case isTrue same =>
            obtain rfl : data = next := same
            obtain rfl := Option.some.inj goes
            rcases inside with ⟨wrong, -⟩ | ⟨-, whole⟩
            · simp at wrong
            · have flat : begun ++ continued socket (data :: after) =
                  (begun ++ [⟨socket, .more, data⟩]) ++ continued socket after := by
                simp [continued]
              rw [flat] at whole
              simpa using close_splits _ owed front _ after awaits whole
      | header | reply | plain | message | line => simp [read] at goes

/-- Calls that can be read come frame by frame. -/
theorem read_all_splits (calls : List Call) (own : ∀ call ∈ calls, call.fd = fd) (reader : Reader)
    (goes : readAll atRest calls = some reader) : Splits fd reader calls := by
  induction calls using List.reverseRecOn generalizing reader with
  | nil =>
      obtain rfl := Option.some.inj goes
      exact opened_splits fd _ _ ⟨[], [], rfl, Or.inl ⟨rfl, rfl⟩, Or.inl ⟨rfl, rfl⟩⟩
  | append_singleton calls call ih =>
      rw [read_all_append] at goes
      cases before : readAll atRest calls with
      | none => simp [before] at goes
      | some middle =>
          rw [← read_all_append, read_all_snoc _ middle calls call before] at goes
          obtain ⟨frames, current, same, whole, opened⟩ :=
            ih (fun other member => own other (List.mem_append_left _ member)) middle before
          obtain ⟨more, left, flat, each, later⟩ := read_splits fd middle reader current call
            (own call (by simp)) opened goes
          refine ⟨frames ++ more, left, ?_, ?_, later⟩
          · rw [same, List.append_assoc, flat, List.flatten_append, List.append_assoc]
          · intro frame member
            rcases List.mem_append.mp member with early | late
            · exact whole frame early
            · exact each frame late

theorem begun_part (left : List Bytes) (begun : List Call) (inside : Begun fd left begun) :
    ∃ more, Answer fd (begun ++ more) := by
  rcases inside with ⟨-, rfl⟩ | ⟨-, whole⟩
  · exact ⟨[⟨fd, .plain, []⟩], .plain []⟩
  · exact ⟨continued fd left, whole⟩

/-- What is open is the beginning of a frame. -/
theorem opened_part (reader : Reader) (current : List Call) (opened : Opened fd reader current) :
    ∃ more, Frame fd (current ++ more) := by
  obtain ⟨front, begun, rfl, inside, awaits⟩ := opened
  obtain ⟨more, whole⟩ := begun_part fd reader.rest begun inside
  rcases awaits with ⟨-, rfl⟩ | ⟨some, answers, each, rfl⟩
  · exact ⟨more, .answer _ whole⟩
  · let later := List.replicate (reader.owed - 1) [(⟨fd, .plain, []⟩ : Call)]
    have all : ∀ calls ∈ answers ++ (begun ++ more) :: later, Answer fd calls := by
      intro calls member
      rcases List.mem_append.mp member with old | rest
      · exact each calls old
      · rcases List.mem_cons.mp rest with rfl | dummy
        · exact whole
        · exact (List.mem_replicate.mp dummy).2 ▸ .plain []
    have count : (answers ++ (begun ++ more) :: later).length = answers.length + reader.owed := by
      simp only [List.length_append, List.length_cons, later, List.length_replicate]
      omega
    refine ⟨more ++ later.flatten, ?_⟩
    have frame := Frame.exec _ all
    rw [count] at frame
    simpa using frame

end Reading

end CrimsonCache.SocketFrames
