import Mathlib.Data.List.Basic

/-!
Lines read through a buffer. A read takes tokens up to the terminator of a line
or to the end of the buffer, so a line that is longer than the buffer comes in
pieces. The pieces of a stream are those of its lines, one line after the other.
-/

namespace BoundedLines

universe u
variable {Token : Type u} [DecidableEq Token]

/-- At most `room` tokens, not past a terminator, with what is left. -/
def readPiece (stop : Token) : Nat → List Token → List Token × List Token
  | 0, stream => ([], stream)
  | _ + 1, [] => ([], [])
  | room + 1, token :: rest =>
      if token = stop then ([token], rest)
      else
        let (piece, left) := readPiece stop room rest
        (token :: piece, left)

/-- Reads until nothing comes, as many as `count` at most. -/
def pieces (stop : Token) (room : Nat) : Nat → List Token → List (List Token)
  | 0, _ => []
  | count + 1, stream =>
      match readPiece stop room stream with
      | ([], _) => []
      | (piece, left) => piece :: pieces stop room count left

/-- The lines of a stream with their terminators, which the last may lack. -/
def lines (stop : Token) : List Token → List (List Token)
  | [] => []
  | token :: rest =>
      if token = stop then [token] :: lines stop rest
      else
        match lines stop rest with
        | [] => [[token]]
        | first :: others => (token :: first) :: others

/-- A line: its text, and the terminator or nothing. -/
structure IsLine (stop : Token) (text ending : List Token) : Prop where
  clean : stop ∉ text
  ends : ending = [stop] ∨ ending = []
  some : text ++ ending ≠ []

section Pieces

variable (stop : Token)

/-- Without a terminator in reach the buffer is filled. -/
theorem read_filled (room : Nat) (stream : List Token) (clean : stop ∉ stream.take room) :
    readPiece stop room stream = (stream.take room, stream.drop room) := by
  induction room generalizing stream with
  | zero => rfl
  | succ room ih =>
      cases stream with
      | nil => rfl
      | cons token rest =>
          rw [List.take_succ_cons, List.mem_cons, not_or] at clean
          rw [readPiece, if_neg (Ne.symm clean.1), ih rest clean.2]
          rfl

/-- A terminator in reach ends the piece. -/
theorem read_ended (room : Nat) (text rest : List Token) (clean : stop ∉ text)
    (reach : text.length < room) :
    readPiece stop room (text ++ stop :: rest) = (text ++ [stop], rest) := by
  induction text generalizing room with
  | nil =>
      obtain ⟨room, rfl⟩ := Nat.exists_eq_add_of_lt reach
      simp [readPiece]
  | cons token text ih =>
      rw [List.mem_cons, not_or] at clean
      rw [List.length_cons] at reach
      obtain ⟨room, rfl⟩ : ∃ less, room = less + 1 := ⟨room - 1, by omega⟩
      rw [List.cons_append, readPiece, if_neg (Ne.symm clean.1), ih room clean.2 (by omega)]
      rfl

/-- The first piece of a line, and what is left of the line in front of the rest. -/
theorem read_line_start (room : Nat) (text ending rest : List Token) (line : IsLine stop text ending)
    (last : ending = [] → rest = []) :
    readPiece stop room (text ++ ending ++ rest) =
      ((text ++ ending).take room, (text ++ ending).drop room ++ rest) := by
  by_cases long : room ≤ text.length
  · have within : ((text ++ ending) ++ rest).take room = text.take room := by
      rw [List.append_assoc, List.take_append_of_le_length long]
    rw [read_filled stop room _ (by rw [within]; exact fun member => line.clean (List.mem_of_mem_take member)),
      within, List.take_append_of_le_length long, List.append_assoc,
      List.drop_append_of_le_length long, List.drop_append_of_le_length long, List.append_assoc]
  · rcases line.ends with rfl | rfl
    · have whole : (text ++ [stop]).length ≤ room := by simp; omega
      rw [List.append_assoc, List.singleton_append, read_ended stop room text rest line.clean (by omega),
        List.take_of_length_le whole, List.drop_eq_nil_of_le whole, List.nil_append]
    · rw [last rfl, List.append_nil, List.append_nil, List.append_nil,
        read_filled stop room text fun member => line.clean (List.mem_of_mem_take member)]

omit [DecidableEq Token] in
/-- What is left of a line that has been read into is again a line, or nothing. -/
theorem line_left (room : Nat) (text ending : List Token) (line : IsLine stop text ending)
    (left : (text ++ ending).drop room ≠ []) :
    ∃ tail, (text ++ ending).drop room = tail ++ ending ∧ tail = text.drop room ∧
      IsLine stop tail ending := by
  have within : room ≤ text.length := by
    by_contra long
    refine left (List.drop_eq_nil_of_le ?_)
    rcases line.ends with rfl | rfl
    · simp; omega
    · simp; omega
  have split : (text ++ ending).drop room = text.drop room ++ ending :=
    List.drop_append_of_le_length within
  exact ⟨text.drop room, split, rfl, fun member => line.clean (List.mem_of_mem_drop member), line.ends,
    split ▸ left⟩

/-- A read splits the stream. -/
theorem read_append (room : Nat) (stream : List Token) :
    (readPiece stop room stream).1 ++ (readPiece stop room stream).2 = stream := by
  induction room generalizing stream with
  | zero => rfl
  | succ room ih =>
      cases stream with
      | nil => rfl
      | cons token rest =>
          simp only [readPiece]
          split
          · rfl
          · exact congrArg (token :: ·) (ih rest)

theorem pieces_end (room count : Nat) : pieces stop room count [] = [] := by
  cases count with
  | zero => rfl
  | succ count => cases room <;> rfl

/-- More reads than the stream has tokens change nothing. -/
theorem pieces_enough (room count more : Nat) (stream : List Token) (enough : stream.length ≤ count) :
    pieces stop room (count + more) stream = pieces stop room count stream := by
  induction count generalizing stream with
  | zero =>
      rw [List.length_eq_zero_iff.mp (Nat.le_zero.mp enough), pieces_end, pieces_end]
  | succ count ih =>
      have split := congrArg List.length (read_append stop room stream)
      rw [Nat.add_right_comm, pieces, pieces]
      rcases read : readPiece stop room stream with ⟨piece, left⟩
      rw [read, List.length_append] at split
      cases piece with
      | nil => rfl
      | cons token piece =>
          simp only [List.length_cons] at split
          simp only
          rw [ih left (by omega)]

/-- A line is read piece by piece. -/
theorem pieces_line (room count : Nat) (some : 0 < room) (text ending rest : List Token)
    (line : IsLine stop text ending) (last : ending = [] → rest = []) :
    pieces stop room (count + 1) (text ++ ending ++ rest) =
      (text ++ ending).take room :: pieces stop room count ((text ++ ending).drop room ++ rest) := by
  rw [pieces, read_line_start stop room text ending rest line last]
  cases piece : (text ++ ending).take room with
  | nil =>
      rcases List.take_eq_nil_iff.mp piece with none | none
      · omega
      · exact absurd none line.some
  | cons token piece => rfl

/-- Reads through a line come to its end before they go on. -/
theorem pieces_append (room : Nat) (some : 0 < room) (text ending rest : List Token)
    (line : IsLine stop text ending) (last : ending = [] → rest = []) (count more : Nat)
    (enough : (text ++ ending).length ≤ count) (later : rest.length ≤ more) :
    pieces stop room (count + more) (text ++ ending ++ rest) =
      pieces stop room count (text ++ ending) ++ pieces stop room more rest := by
  induction count generalizing text with
  | zero => exact absurd (List.length_eq_zero_iff.mp (Nat.le_zero.mp enough)) line.some
  | succ count ih =>
      have alone := pieces_line stop room count some text ending [] line fun _ => rfl
      rw [List.append_nil, List.append_nil] at alone
      rw [Nat.add_right_comm, pieces_line stop room _ some text ending rest line last, alone,
        List.cons_append]
      congr 1
      by_cases left : (text ++ ending).drop room = []
      · rw [left, List.nil_append, pieces_end, List.nil_append, Nat.add_comm,
          pieces_enough stop room more count rest later]
      · obtain ⟨tail, split, -, again⟩ := line_left stop room text ending line left
        have shorter := congrArg List.length split
        rw [List.length_drop] at shorter
        rw [split]
        exact ih tail again (by omega)

/-- The pieces behind the first stand at the multiples of the buffer's size. -/
theorem mem_pieces_left (room : Nat) (some : 0 < room) (text ending : List Token)
    (line : IsLine stop text ending) (count : Nat) (enough : (text ++ ending).length ≤ count + room)
    (piece : List Token) :
    piece ∈ pieces stop room count ((text ++ ending).drop room) ↔
      ∃ place, room * (place + 1) < (text ++ ending).length ∧
        piece = ((text ++ ending).drop (room * (place + 1))).take room := by
  induction count generalizing text with
  | zero =>
      refine iff_of_false List.not_mem_nil ?_
      rintro ⟨place, within, -⟩
      rw [Nat.mul_add] at within
      omega
  | succ count ih =>
      by_cases left : (text ++ ending).drop room = []
      · have short := List.drop_eq_nil_iff.mp left
        rw [left, pieces_end]
        refine iff_of_false List.not_mem_nil ?_
        rintro ⟨place, within, -⟩
        rw [Nat.mul_add] at within
        omega
      · obtain ⟨tail, split, -, again⟩ := line_left stop room text ending line left
        have shorter := congrArg List.length split
        rw [List.length_drop] at shorter
        have length : room < (text ++ ending).length := by
          by_contra long
          exact left (List.drop_eq_nil_of_le (by omega))
        have alone := pieces_line stop room count some tail ending [] again fun _ => rfl
        rw [List.append_nil, List.append_nil] at alone
        rw [split, alone, List.mem_cons, ih tail again (by omega), ← split]
        simp only [List.length_drop, List.drop_drop]
        constructor
        · rintro (first | ⟨place, within, same⟩)
          · exact ⟨0, by simpa using length, by simpa using first⟩
          · refine ⟨place + 1, ?_, ?_⟩
            · rw [Nat.mul_add room (place + 1)]
              omega
            · rw [Nat.mul_add room (place + 1), Nat.mul_one, Nat.add_comm]
              exact same
        · rintro ⟨place, within, same⟩
          cases place with
          | zero => exact Or.inl (by simpa using same)
          | succ place =>
              rw [Nat.mul_add room (place + 1), Nat.mul_one] at within same
              refine Or.inr ⟨place, by omega, ?_⟩
              rwa [Nat.add_comm] at same

end Pieces

section Lines

variable (stop : Token)

/-- The first line of a stream and the rest. -/
theorem lines_first (stream : List Token) (some : stream ≠ []) :
    ∃ text ending rest, stream = text ++ ending ++ rest ∧ IsLine stop text ending ∧
      (ending = [] → rest = []) ∧ lines stop stream = (text ++ ending) :: lines stop rest := by
  induction stream with
  | nil => exact absurd rfl some
  | cons token after ih =>
      by_cases ends : token = stop
      · refine ⟨[], [stop], after, by rw [ends]; rfl, ⟨List.not_mem_nil, Or.inl rfl, by simp⟩, by simp, ?_⟩
        rw [lines, if_pos ends, ends]
        rfl
      · by_cases none : after = []
        · subst none
          refine ⟨[token], [], [], rfl, ⟨?_, Or.inr rfl, by simp⟩, fun _ => rfl, ?_⟩
          · simpa using Ne.symm ends
          · simp [lines, ends]
        · obtain ⟨text, ending, rest, split, line, last, first⟩ := ih none
          refine ⟨token :: text, ending, rest, by rw [split]; rfl, ⟨?_, line.ends, by simp⟩, last, ?_⟩
          · rw [List.mem_cons, not_or]
            exact ⟨Ne.symm ends, line.clean⟩
          · rw [lines, if_neg ends, first]
            rfl

/-- Induction over the lines of a stream. -/
theorem line_induction {motive : List Token → Prop} (empty : motive [])
    (step : ∀ text ending rest, IsLine stop text ending → (ending = [] → rest = []) →
      lines stop (text ++ ending ++ rest) = (text ++ ending) :: lines stop rest → motive rest →
        motive (text ++ ending ++ rest))
    (stream : List Token) : motive stream := by
  generalize size : stream.length = count
  induction count using Nat.strongRecOn generalizing stream with
  | ind count ih =>
      by_cases none : stream = []
      · exact none ▸ empty
      · obtain ⟨text, ending, rest, split, line, last, first⟩ := lines_first stop stream none
        have length := congrArg List.length split
        have start := List.length_pos_of_ne_nil line.some
        rw [List.length_append, size] at length
        have later := ih rest.length (by omega) rest rfl
        rw [split] at first ⊢
        exact step text ending rest line last first later

theorem pieces_lines (room : Nat) (some : 0 < room) (stream : List Token) :
    pieces stop room stream.length stream =
      (lines stop stream).flatMap fun line => pieces stop room line.length line := by
  induction stream using line_induction stop with
  | empty =>
      rw [List.length_nil, pieces_end]
      rfl
  | step text ending rest line last first ih =>
      rw [first, List.flatMap_cons, ← ih, List.length_append]
      exact pieces_append stop room some text ending rest line last _ _ (Nat.le_refl _) (Nat.le_refl _)

/-- Every line of a stream is one. -/
theorem lines_are_lines (stream : List Token) :
    ∀ line ∈ lines stop stream, ∃ text ending, line = text ++ ending ∧ IsLine stop text ending := by
  induction stream using line_induction stop with
  | empty => exact fun line member => absurd member List.not_mem_nil
  | step text ending rest line last first ih =>
      rw [first, List.forall_mem_cons]
      exact ⟨⟨text, ending, rfl, line⟩, ih⟩

end Lines

end BoundedLines
