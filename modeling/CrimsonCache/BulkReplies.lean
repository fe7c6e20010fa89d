import CrimsonCache.SocketFrames

/-!
What `reply_bulk` writes, read back as bulk strings one after the other. The
helper ends an empty string after its length, where the grammar wants an empty
line more, so the next reply is taken for the end of this one.
-/

namespace CrimsonCache.BulkReplies

open CString Numerals Replies SocketFrames ServerState Commands

section Grammar

/-- One bulk string: `$`, its length, CRLF, that many bytes, CRLF. -/
def readBulk : Bytes → Option (Bytes × Bytes)
  | [] => none
  | mark :: stream =>
      if mark = 36 then
        (takeLine stream).bind fun (text, rest) =>
          if isNumber text then
            (takeBulk (digitsValue text) rest).map fun left => (rest.take (digitsValue text), left)
          else none
      else none

/-- Bulk strings up to the end of the stream. Each of them takes a byte at least. -/
def readBulks : Nat → Bytes → Option (List Bytes)
  | _, [] => some []
  | 0, _ => none
  | count + 1, stream =>
      (readBulk stream).bind fun (text, rest) => (readBulks count rest).map (text :: ·)

def decodeBulks (stream : Bytes) : Option (List Bytes) := readBulks stream.length stream

/-- The bytes that `reply_bulk` writes for the texts, one call after the other. -/
def bulkReplies (texts : List Bytes) : Bytes :=
  (texts.map fun text => (Reply.bulk text).writes.flatten).flatten

end Grammar

section Decoding

/-- A bulk string as the grammar writes it. -/
def bulkFrame (text : Bytes) : Bytes := ascii "$" ++ decimal text.length ++ crlf ++ text ++ crlf

theorem read_header (n : Nat) (rest : Bytes) :
    readBulk (ascii "$" ++ decimal n ++ crlf ++ rest) =
      (takeBulk n rest).map fun left => (rest.take n, left) := by
  have line := take_line (decimal n) rest (decimal_cr_free n)
  have shape : ascii "$" ++ decimal n ++ crlf ++ rest = 36 :: (decimal n ++ crlf ++ rest) := by
    simp [ascii]
  rw [shape, readBulk, if_pos rfl, line, Option.bind_some]
  simp only [decimal_number, ↓reduceIte, decimal_value]

theorem read_frame (text rest : Bytes) : readBulk (bulkFrame text ++ rest) = some (text, rest) := by
  have whole := read_header text.length (text ++ crlf ++ rest)
  rw [take_bulk] at whole
  simpa only [bulkFrame, List.append_assoc, Option.map_some, List.take_left] using whole

/-- The helper writes a frame of the grammar for what is not empty, and a header else. -/
theorem bulk_writes (text : Bytes) (free : 0 ∉ text) (fits : text.length < 2 ^ 64) :
    (Reply.bulk text).writes.flatten =
      if text = [] then ascii "$" ++ decimal 0 ++ crlf else bulkFrame text := by
  have whole : cstr text = text := cstr_of_nul_free text free
  have length : strlen text = text.length := by rw [strlen, whole]
  have short := decimal_width text.length 20 (by decide) (by omega)
  have start : (ascii "$").length = 1 := rfl
  simp only [Reply.writes, length, whole]
  rw [uncut 1024 (ascii "$") (decimal text.length) (by omega)]
  by_cases empty : text = []
  · subst empty
    simp
  · have some : text.length > 0 := List.length_pos_of_ne_nil empty
    simp [some, empty, bulkFrame]

/-- Behind the header of an empty string the stream ends or goes on with the next header. -/
theorem empty_unread (texts : List Bytes) (free : ∀ text ∈ texts, 0 ∉ text)
    (fits : ∀ text ∈ texts, text.length < 2 ^ 64) :
    readBulk (ascii "$" ++ decimal 0 ++ crlf ++ bulkReplies texts) = none := by
  rw [read_header]
  cases texts with
  | nil => rfl
  | cons text rest =>
      have first : ∃ after, bulkReplies (text :: rest) = 36 :: after := by
        have written := bulk_writes text (free text List.mem_cons_self) (fits text List.mem_cons_self)
        simp only [bulkReplies, List.map_cons, List.flatten_cons, written]
        split
        · exact ⟨_, rfl⟩
        · exact ⟨_, rfl⟩
      obtain ⟨after, split⟩ := first
      rw [split]
      simp [takeBulk]

theorem read_bulks_iff (texts : List Bytes) (free : ∀ text ∈ texts, 0 ∉ text)
    (fits : ∀ text ∈ texts, text.length < 2 ^ 64) (count : Nat)
    (enough : (bulkReplies texts).length ≤ count) :
    readBulks count (bulkReplies texts) = some texts ↔ [] ∉ texts := by
  induction texts generalizing count with
  | nil =>
      refine iff_of_true ?_ (by simp)
      cases count <;> rfl
  | cons text rest ih =>
      have written := bulk_writes text (free text List.mem_cons_self) (fits text List.mem_cons_self)
      have split : bulkReplies (text :: rest) = (Reply.bulk text).writes.flatten ++ bulkReplies rest := by
        simp [bulkReplies]
      have laterFree : ∀ other ∈ rest, 0 ∉ other := fun other member =>
        free other (List.mem_cons_of_mem text member)
      have laterFits : ∀ other ∈ rest, other.length < 2 ^ 64 := fun other member =>
        fits other (List.mem_cons_of_mem text member)
      rw [split, written] at enough ⊢
      have step (stream : Bytes) (some : stream ≠ []) (count : Nat) :
          readBulks (count + 1) stream =
            (readBulk stream).bind fun (text, rest) => (readBulks count rest).map (text :: ·) := by
        cases stream with
        | nil => exact absurd rfl some
        | cons c after => rfl
      by_cases empty : text = []
      · subst empty
        rw [if_pos rfl] at enough ⊢
        cases count with
        | zero => simp [ascii] at enough
        | succ count =>
            rw [step _ (by simp [ascii]), empty_unread rest laterFree laterFits]
            simp
      · rw [if_neg empty] at enough ⊢
        cases count with
        | zero => simp [bulkFrame, ascii] at enough
        | succ count =>
            have shorter : (bulkReplies rest).length ≤ count := by
              have some : 0 < (bulkFrame text).length := by simp [bulkFrame, ascii]
              rw [List.length_append] at enough
              omega
            rw [step _ (by simp [bulkFrame, ascii]), read_frame, Option.bind_some]
            have tail := ih laterFree laterFits count shorter
            simp only [List.mem_cons, not_or]
            rw [← tail]
            simp [Ne.symm empty]

end Decoding

/-- Bulk replies decode to what was replied exactly when none of it is empty. The lengths are of
    type `size_t`. -/
theorem bulks_decode_iff (texts : List Bytes) (free : ∀ text ∈ texts, 0 ∉ text)
    (fits : ∀ text ∈ texts, text.length < 2 ^ 64) :
    decodeBulks (bulkReplies texts) = some texts ↔ [] ∉ texts :=
  read_bulks_iff texts free fits _ (Nat.le_refl _)

theorem two_values_decode :
    decodeBulks (bulkReplies [ascii "a", ascii "b\r\nc"]) = some [ascii "a", ascii "b\r\nc"] :=
  (bulks_decode_iff [ascii "a", ascii "b\r\nc"] (by decide) (by decide)).mpr (by decide)

/-- An empty value takes no part of the stream for its end, and nothing is read. -/
theorem empty_value_undecoded :
    bulkReplies [[], ascii "a"] = ascii "$0\r\n$1\r\na\r\n" ∧
      decodeBulks (bulkReplies [[], ascii "a"]) = none := by
  decide +kernel

section Handlers

/-- The stream that PING makes for its arguments, one request after the other. -/
theorem pings_send (sock : Int) (server : Server) (texts : List Bytes) :
    sentTo sock (texts.flatMap fun text => (pingCommand sock [ascii "ping", text] server).events) =
      bulkReplies texts := by
  induction texts with
  | nil => rfl
  | cons text rest ih =>
      have here : sentTo sock (pingCommand sock [ascii "ping", text] server).events =
          (Reply.bulk text).writes.flatten := by
        simp [pingCommand, replied, sentTo, Event.sent, DataCommands.arg]
      rw [sentTo, List.flatMap_cons, List.flatMap_append, ← sentTo, ← sentTo, ih, here]
      simp [bulkReplies]

theorem pings_decode_iff (sock : Int) (server : Server) (texts : List Bytes)
    (free : ∀ text ∈ texts, 0 ∉ text) (fits : ∀ text ∈ texts, text.length < 2 ^ 64) :
    decodeBulks (sentTo sock
        (texts.flatMap fun text => (pingCommand sock [ascii "ping", text] server).events)) =
      some texts ↔ [] ∉ texts := by
  rw [pings_send]
  exact read_bulks_iff texts free fits _ (Nat.le_refl _)

end Handlers

end CrimsonCache.BulkReplies
