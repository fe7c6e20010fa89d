import Mathlib.Data.List.Infix

/-!
Cutting a stream at a two-symbol delimiter. The scanner holds the symbols since
the last delimiter and closes a frame when the second symbol arrives right
behind the first. What it holds at the end of one chunk is where it resumes in
the next, so the frames depend on the stream only.
-/

namespace Framing

universe u
variable {Symbol : Type u} [DecidableEq Symbol] (a b : Symbol)

/-- The frames closed in `stream`, with `held` in front of it, and what is held
    at its end. -/
def frames : List Symbol → List Symbol → List (List Symbol) × List Symbol
  | held, [] => ([], held)
  | held, c :: rest =>
      if c = b ∧ held.getLast? = some a then
        let (more, left) := frames [] rest
        (held.dropLast :: more, left)
      else frames (held ++ [c]) rest

/-- The delimiter does not occur. -/
def Undivided (text : List Symbol) : Prop := ¬ [a, b] <:+: text

theorem frames_append (held first second : List Symbol) :
    frames a b held (first ++ second) =
      ((frames a b held first).1 ++ (frames a b (frames a b held first).2 second).1,
        (frames a b (frames a b held first).2 second).2) := by
  induction first generalizing held with
  | nil => simp [frames]
  | cons c rest ih =>
      simp only [List.cons_append, frames]
      split
      · simp [ih]
      · exact ih _

omit [DecidableEq Symbol] in
theorem undivided_nil : Undivided a b [] := by
  simp [Undivided]

omit [DecidableEq Symbol] in
theorem Undivided.left {text more : List Symbol} (whole : Undivided a b (text ++ more)) :
    Undivided a b text :=
  fun ⟨front, back, same⟩ => whole ⟨front, back ++ more, by simp [← same]⟩

omit [DecidableEq Symbol] in
/-- A symbol breaks an undivided text only by completing the delimiter. -/
theorem Undivided.snoc {text : List Symbol} (whole : Undivided a b text) (c : Symbol)
    (harmless : ¬ (c = b ∧ text.getLast? = some a)) : Undivided a b (text ++ [c]) := by
  rintro ⟨front, back, same⟩
  rcases List.eq_nil_or_concat back with rfl | ⟨middle, last, rfl⟩
  · have shape : (front ++ [a]) ++ [b] = text ++ [c] := by simpa using same
    obtain ⟨rfl, equal⟩ := List.append_inj' shape rfl
    exact harmless ⟨by simpa using equal.symm, by simp⟩
  · have shape : (front ++ [a, b] ++ middle) ++ [last] = text ++ [c] := by simpa using same
    obtain ⟨rfl, -⟩ := List.append_inj' shape rfl
    exact whole ⟨front, middle, rfl⟩

omit [DecidableEq Symbol] in
/-- A front without the first symbol cannot start the delimiter. -/
theorem Undivided.prepend {front text : List Symbol} (free : a ∉ front)
    (whole : Undivided a b text) : Undivided a b (front ++ text) := by
  rintro ⟨before, after, same⟩
  rw [List.append_assoc] at same
  rcases List.append_eq_append_iff.mp same with ⟨more, rfl, rest⟩ | ⟨more, rfl, rest⟩
  · cases more with
    | nil => exact whole ⟨[], after, by simpa using rest⟩
    | cons c more =>
        have first : a = c := (List.cons.inj rest).1
        exact free (by simp [first])
  · exact whole ⟨more, after, by simp [rest]⟩

omit [DecidableEq Symbol] in
theorem Undivided.of_free {text : List Symbol} (free : a ∉ text) : Undivided a b text := by
  simpa using Undivided.prepend a b free (undivided_nil a b)

omit [DecidableEq Symbol] in
theorem Undivided.append {text more : List Symbol} (whole : Undivided a b text) (free : a ∉ more)
    (starts : more.head? ≠ some b) : Undivided a b (text ++ more) := by
  induction more using List.reverseRecOn with
  | nil => simpa using whole
  | append_singleton more c ih =>
      have freeMore : a ∉ more := fun member => free (List.mem_append_left _ member)
      rw [← List.append_assoc]
      cases more with
      | nil =>
          apply Undivided.snoc a b (by simpa using whole)
          rintro ⟨same, -⟩
          exact starts (by simp [same])
      | cons first more =>
          apply Undivided.snoc a b (ih freeMore (by simpa using starts))
          rintro ⟨-, last⟩
          rw [List.getLast?_append_of_ne_nil _ (List.cons_ne_nil first more)] at last
          exact freeMore (List.mem_of_getLast? last)

omit [DecidableEq Symbol] in
theorem Undivided.completes {text : List Symbol} (c : Symbol) (rest : List Symbol)
    (whole : Undivided a b (text ++ c :: rest)) : ¬ (c = b ∧ text.getLast? = some a) := by
  rintro ⟨rfl, last⟩
  obtain ⟨front, rfl⟩ := List.getLast?_eq_some_iff.mp last
  exact whole ⟨front, rest, by simp⟩

theorem frames_undivided (held text : List Symbol) (whole : Undivided a b (held ++ text)) :
    frames a b held text = ([], held ++ text) := by
  induction text generalizing held with
  | nil => simp [frames]
  | cons c rest ih =>
      have harmless := Undivided.completes a b c rest whole
      have tail := ih (held ++ [c]) (by simpa using whole)
      simp [frames, harmless, tail]

theorem frames_held (held text : List Symbol) (whole : Undivided a b held) :
    Undivided a b (frames a b held text).2 := by
  induction text generalizing held with
  | nil => exact whole
  | cons c rest ih =>
      simp only [frames]
      split
      case isTrue => exact ih [] (undivided_nil a b)
      case isFalse harmless => exact ih _ (Undivided.snoc a b whole c harmless)

theorem frames_members (held text : List Symbol) (whole : Undivided a b held)
    (frame : List Symbol) (member : frame ∈ (frames a b held text).1) : Undivided a b frame := by
  induction text generalizing held with
  | nil => simp [frames] at member
  | cons c rest ih =>
      simp only [frames] at member
      split at member
      case isTrue closing =>
        rcases List.mem_cons.mp member with rfl | later
        · obtain ⟨front, same⟩ := List.getLast?_eq_some_iff.mp closing.2
          rw [same] at whole ⊢
          simpa using Undivided.left a b whole
        · exact ih [] (undivided_nil a b) later
      case isFalse harmless => exact ih _ (Undivided.snoc a b whole c harmless) member

/-- No symbol is lost: the frames with their delimiters and the held rest are
    the stream. -/
theorem frames_join (held text : List Symbol) :
    (frames a b held text).1.flatMap (fun frame => frame ++ [a, b]) ++ (frames a b held text).2 =
      held ++ text := by
  induction text generalizing held with
  | nil => simp [frames]
  | cons c rest ih =>
      simp only [frames]
      split
      case isTrue closing =>
        rcases closing with ⟨rfl, last⟩
        obtain ⟨front, rfl⟩ := List.getLast?_eq_some_iff.mp last
        have tail := ih []
        rw [List.nil_append] at tail
        simp [tail]
      case isFalse =>
        rw [ih (held ++ [c])]
        simp

/-- A delimiter closes the frame that is held. -/
theorem frames_close (held : List Symbol) (distinct : a ≠ b) :
    frames a b held [a, b] = ([held], []) := by
  simp [frames, distinct]

theorem frames_line (text rest : List Symbol) (distinct : a ≠ b) (whole : Undivided a b text) :
    frames a b [] (text ++ [a, b] ++ rest) =
      (text :: (frames a b [] rest).1, (frames a b [] rest).2) := by
  rw [frames_append, frames_append, frames_undivided a b [] text whole]
  simp [frames_close, distinct]

omit [DecidableEq Symbol] in
/-- A line that is cut short has no delimiter left. -/
theorem Undivided.cut {text part : List Symbol} (distinct : a ≠ b) (whole : Undivided a b text)
    (sub : part <+: text ++ [a, b]) (short : part ≠ text ++ [a, b]) : Undivided a b part := by
  have split : text ++ [a, b] = (text ++ [a]) ++ [b] := by simp
  rw [split] at sub short
  rcases (List.prefix_concat_iff.mp sub).resolve_left short with ⟨more, same⟩
  have opened : Undivided a b (text ++ [a]) :=
    Undivided.snoc a b whole a fun wrong => distinct wrong.1
  rw [← same] at opened
  exact opened.left

theorem frames_lines (texts : List (List Symbol)) (distinct : a ≠ b)
    (whole : ∀ text ∈ texts, Undivided a b text) :
    frames a b [] (texts.flatMap fun text => text ++ [a, b]) = (texts, []) := by
  induction texts with
  | nil => rfl
  | cons text rest ih =>
      have tail := ih fun other member => whole other (List.mem_cons_of_mem text member)
      rw [List.flatMap_cons, frames_line a b text _ distinct (whole text List.mem_cons_self), tail]

/-- How many of the frames are complete with the first `count` symbols of the stream. -/
def completed : List (List Symbol) → Nat → Nat
  | [], _ => 0
  | text :: rest, count =>
      if text.length + 2 ≤ count then completed rest (count - (text.length + 2)) + 1 else 0

/-- On an initial part of a stream of frames the scanner has closed the complete ones, and
    holds less than one of them with its delimiter. -/
theorem frames_initial (texts : List (List Symbol)) (distinct : a ≠ b)
    (whole : ∀ text ∈ texts, Undivided a b text) (received : List Symbol)
    (initial : received <+: texts.flatMap fun text => text ++ [a, b]) :
    (frames a b [] received).1 = texts.take (completed texts received.length) ∧
      ∀ room, (∀ text ∈ texts, text.length < room) → (frames a b [] received).2.length ≤ room := by
  induction texts generalizing received with
  | nil =>
      obtain rfl : received = [] := by simpa using initial
      simp [frames, completed]
  | cons text rest ih =>
      have undivided := whole text List.mem_cons_self
      rw [List.flatMap_cons] at initial
      by_cases long : text.length + 2 ≤ received.length
      · have first : text ++ [a, b] <+: received :=
          List.prefix_of_prefix_length_le (List.prefix_append _ _) initial (by simpa using long)
        obtain ⟨more, rfl⟩ := first
        obtain ⟨closed, held⟩ := ih (fun other member => whole other (List.mem_cons_of_mem text member))
          more ((List.prefix_append_right_inj _).mp initial)
        have length : (text ++ [a, b] ++ more).length - (text.length + 2) = more.length := by
          simp
          omega
        rw [frames_line a b text more distinct undivided]
        refine ⟨?_, fun room bound => held room fun other member =>
          bound other (List.mem_cons_of_mem text member)⟩
        simp only [completed, long, ↓reduceIte, length, List.take_succ_cons, closed]
      · -- What has arrived ends before the delimiter does.
        have opened : Undivided a b (text ++ [a]) :=
          Undivided.snoc a b undivided a fun closing => distinct closing.1
        have start : received <+: text ++ [a] := by
          refine List.prefix_of_prefix_length_le initial ?_ (by simp; omega)
          exact ⟨b :: rest.flatMap fun text => text ++ [a, b], by simp⟩
        obtain ⟨missing, same⟩ := start
        have held := frames_undivided a b [] received (Undivided.left a b (same ▸ opened))
        rw [held]
        simp only [completed, long, ↓reduceIte, List.take_zero, List.nil_append, true_and]
        intro room bound
        have short := bound text List.mem_cons_self
        omega

end Framing
