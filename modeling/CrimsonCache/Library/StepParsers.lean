import Mathlib.Data.List.Basic

/-!
Parsers that take something off the front of a stream. One is stable when more
input behind what it read changes nothing, and refines another that succeeds
wherever it does, with the same result. Both pass through sequencing, so a format
has them when its fields do.
-/

namespace StepParsers

universe u v w
variable {Token : Type u} {α : Type v} {β : Type w}

abbrev Parser (Token : Type u) (α : Type v) := List Token → Option (α × List Token)

def andThen (first : Parser Token α) (second : α → Parser Token β) : Parser Token β :=
  fun input => (first input).bind fun (value, rest) => second value rest

def Stable (parser : Parser Token α) : Prop :=
  ∀ input value rest more, parser input = some (value, rest) →
    parser (input ++ more) = some (value, rest ++ more)

def Refines (parser other : Parser Token α) : Prop :=
  ∀ input result, parser input = some result → other input = some result

theorem and_then_some (first : Parser Token α) (second : α → Parser Token β) (input : List Token)
    (result : β × List Token) (parsed : andThen first second input = some result) :
    ∃ value rest, first input = some (value, rest) ∧ second value rest = some result := by
  obtain ⟨⟨value, rest⟩, head, tail⟩ := Option.bind_eq_some_iff.mp parsed
  exact ⟨value, rest, head, tail⟩

theorem and_then_eq (first : Parser Token α) (second : α → Parser Token β) (input rest : List Token)
    (value : α) (head : first input = some (value, rest)) :
    andThen first second input = second value rest := by
  simp [andThen, head]

theorem fail_stable : Stable fun _ : List Token => (none : Option (α × List Token)) := by
  intro input value rest more parsed
  cases parsed

theorem pure_stable (value : α) : Stable fun input : List Token => some (value, input) := by
  rintro input _ _ more ⟨⟩
  rfl

theorem and_then_stable (first : Parser Token α) (second : α → Parser Token β) (head : Stable first)
    (tail : ∀ value, Stable (second value)) : Stable (andThen first second) := by
  intro input result rest more parsed
  obtain ⟨value, middle, front, back⟩ := and_then_some first second input _ parsed
  rw [and_then_eq first second _ _ value (head input value middle more front)]
  exact tail value middle result rest more back

theorem refines_refl (parser : Parser Token α) : Refines parser parser := fun _ _ parsed => parsed

theorem fail_refines (other : Parser Token α) :
    Refines (fun _ : List Token => (none : Option (α × List Token))) other := by
  intro input result parsed
  cases parsed

theorem and_then_refines (first first' : Parser Token α) (second second' : α → Parser Token β)
    (head : Refines first first') (tail : ∀ value, Refines (second value) (second' value)) :
    Refines (andThen first second) (andThen first' second') := by
  intro input result parsed
  obtain ⟨value, rest, front, back⟩ := and_then_some first second input result parsed
  rw [and_then_eq first' second' input rest value (head input _ front)]
  exact tail value rest result back

/-- The parser takes exactly the texts that stand for its values. -/
def Reads (parser : Parser Token α) (texts : α → List Token → Prop) : Prop :=
  ∀ input value rest, parser input = some (value, rest) ↔
    ∃ text, texts value text ∧ input = text ++ rest

theorem pure_reads (value : α) :
    Reads (fun input : List Token => some (value, input)) fun other text => other = value ∧ text = [] := by
  intro input other rest
  constructor
  · rintro ⟨⟩
    exact ⟨[], ⟨rfl, rfl⟩, rfl⟩
  · rintro ⟨_, ⟨rfl, rfl⟩, rfl⟩
    rfl

theorem fail_reads :
    Reads (fun _ : List Token => (none : Option (α × List Token))) fun _ _ => False := by
  intro input value rest
  simp

theorem and_then_reads (first : Parser Token α) (second : α → Parser Token β)
    (front : α → List Token → Prop) (back : α → β → List Token → Prop) (head : Reads first front)
    (tail : ∀ value text, front value text → Reads (second value) (back value)) :
    Reads (andThen first second) fun result text =>
      ∃ value start finish, front value start ∧ back value result finish ∧ text = start ++ finish := by
  intro input result rest
  constructor
  · intro parsed
    obtain ⟨value, middle, taken, later⟩ := and_then_some first second input _ parsed
    obtain ⟨start, stands, rfl⟩ := (head input value middle).mp taken
    obtain ⟨finish, follows, rfl⟩ := (tail value start stands middle result rest).mp later
    exact ⟨start ++ finish, ⟨value, start, finish, stands, follows, rfl⟩, by rw [List.append_assoc]⟩
  · rintro ⟨text, ⟨value, start, finish, stands, follows, rfl⟩, rfl⟩
    rw [List.append_assoc, and_then_eq first second _ (finish ++ rest) value
      ((head _ _ _).mpr ⟨start, stands, rfl⟩)]
    exact (tail value start stands _ _ _).mpr ⟨finish, follows, rfl⟩

theorem Reads.congr {parser : Parser Token α} {texts others : α → List Token → Prop}
    (reads : Reads parser texts) (same : ∀ value text, texts value text ↔ others value text) :
    Reads parser others := by
  intro input value rest
  simp only [reads input value rest, same]

end StepParsers
