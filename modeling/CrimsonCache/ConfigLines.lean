import CrimsonCache.ConfigFile

/-!
What the lines of a configuration file say, and what is read of them. The buffer
takes 255 bytes of a line at a time, and each piece is read as if it were a
line: the first may lose its end, and the others are read at all.
-/

namespace CrimsonCache.ConfigLines

open CString BoundedLines ConfigFile

section Texts

/-- The first word of a text. -/
def wordOf (text : Bytes) : Bytes := (text.dropWhile isspace).takeWhile solid

/-- What follows the first word and the whitespace behind it. -/
def valueOf (text : Bytes) : Bytes := ((text.dropWhile isspace).dropWhile solid).dropWhile isspace

/-- Where the value starts. -/
def valueStart (text : Bytes) : Nat :=
  (text.takeWhile isspace).length + (wordOf text).length +
    (((text.dropWhile isspace).dropWhile solid).takeWhile isspace).length

/-- The setting that a line names, its text as long as it may be. -/
def lineSetting (line : Bytes) : Option Setting :=
  if line = [] ∨ line.head? = some hash ∨ valueOf (cstr line) = [] then none
  else setting (wordOf (cstr line)) (valueOf (cstr line))

theorem drop_while_take (p : UInt8 → Bool) (text : Bytes) (room : Nat) :
    (text.take room).dropWhile p = (text.dropWhile p).take (room - (text.takeWhile p).length) := by
  induction text generalizing room with
  | nil => simp
  | cons c rest ih =>
      cases room with
      | zero => simp
      | succ room =>
          by_cases hit : p c = true
          · simp [hit, ih]
          · simp [hit]

theorem drop_taken (p : UInt8 → Bool) (text : Bytes) :
    text.drop (text.takeWhile p).length = text.dropWhile p := by
  induction text with
  | nil => rfl
  | cons c rest ih =>
      by_cases hit : p c = true
      · simp [hit, ih]
      · simp [hit]

theorem word_take (text : Bytes) (room : Nat) :
    wordOf (text.take room) = (wordOf text).take (room - (text.takeWhile isspace).length) := by
  rw [wordOf, drop_while_take, ← List.take_takeWhile, wordOf]

theorem value_take (text : Bytes) (room : Nat) :
    valueOf (text.take room) = (valueOf text).take (room - valueStart text) := by
  rw [valueOf, drop_while_take, drop_while_take, drop_while_take, valueOf, valueStart, wordOf]
  congr 1
  omega

theorem cstr_take (text : Bytes) (room : Nat) : cstr (text.take room) = (cstr text).take room := by
  rw [cstr, cstr, List.take_takeWhile]

/-- A word that is longer than every name names nothing. -/
theorem long_unnamed (key value : Bytes) (long : 11 < key.length) : setting key value = none := by
  have apart (name : Bytes) (short : name.length ≤ 11) : strcaseeq key name = false := by
    simp only [strcaseeq, decide_eq_false_iff_not]
    intro same
    have length := congrArg List.length same
    rw [List.length_map, List.length_map] at length
    omega
  simp [setting, assignment, apart (ascii "port") (by decide), apart (ascii "concurrency") (by decide),
    apart (ascii "maxClients") (by decide), apart (ascii "logFile") (by decide),
    apart (ascii "saveSeconds") (by decide), apart (ascii "saveChanges") (by decide),
    apart (ascii "buffer_size") (by decide), apart (ascii "max_events") (by decide)]

/-- Whether a word names a setting does not depend on the value. -/
theorem unnamed_iff (key value other : Bytes) :
    setting key value = none ↔ setting key other = none := by
  rw [setting, setting, Option.map_eq_none_iff, Option.map_eq_none_iff]

end Texts

section Scanning

/-- A line end behind a text adds nothing to what is scanned. -/
theorem word_end (text : Bytes) : wordOf (text ++ [lf]) = wordOf text := by
  have blank : isspace lf = true := by decide
  have ends : solid lf = false := by decide
  rw [wordOf, wordOf, List.dropWhile_append]
  split
  case isTrue none =>
    rw [List.isEmpty_iff.mp none]
    simp [blank]
  case isFalse =>
    rw [List.takeWhile_append]
    split
    case isTrue whole =>
      have same := (List.takeWhile_prefix solid).eq_of_length whole
      simp [ends, same]
    case isFalse => rfl

theorem value_end (text : Bytes) (clean : lf ∉ text) :
    (valueOf (text ++ [lf])).takeWhile (· ≠ lf) = valueOf text := by
  have blank : isspace lf = true := by decide
  have ends : solid lf = false := by decide
  have line (part : Bytes) (sub : ∀ c ∈ part, c ∈ text) : (part ++ [lf]).takeWhile (· ≠ lf) = part := by
    rw [List.takeWhile_append_of_pos fun c member => by
      simpa using fun same : c = lf => clean (same ▸ sub c member)]
    simp
  rw [valueOf, valueOf, List.dropWhile_append]
  split
  case isTrue none =>
    rw [List.isEmpty_iff.mp none]
    simp [blank]
  case isFalse =>
    rw [List.dropWhile_append]
    split
    case isTrue none =>
      rw [List.isEmpty_iff.mp none]
      simp [blank, ends]
    case isFalse =>
      rw [List.dropWhile_append]
      split
      case isTrue none =>
        rw [List.isEmpty_iff.mp none]
        simp [blank]
      case isFalse =>
        exact line _ fun c member => (List.dropWhile_sublist _).subset
          ((List.dropWhile_sublist _).subset ((List.dropWhile_sublist _).subset member))

/-- Without a word there is no value. -/
theorem wordless_valueless (text : Bytes) (none : wordOf text = []) : valueOf text = [] := by
  have start := List.head?_dropWhile_not isspace text
  cases shape : text.dropWhile isspace with
  | nil => simp [valueOf, shape]
  | cons c rest =>
      simp only [shape, List.head?_cons] at start
      simp [wordOf, shape, solid, start] at none

/-- The bounds of the scan only cut the value: a longer key is no name. -/
theorem scan_setting (line : Bytes) :
    (sscanf line).bind (fun (key, value) => setting key value) =
      if (valueOf (cstr line)).takeWhile (· ≠ lf) = [] then none
      else setting (wordOf (cstr line)) (((valueOf (cstr line)).takeWhile (· ≠ lf)).take 191) := by
  by_cases short : (wordOf (cstr line)).length ≤ 63
  · have key : (((cstr line).dropWhile isspace).takeWhile solid).take 63 = wordOf (cstr line) :=
      List.take_of_length_le short
    have behind : (((cstr line).dropWhile isspace).drop (wordOf (cstr line)).length).dropWhile isspace =
        valueOf (cstr line) := by
      rw [valueOf, wordOf, drop_taken]
    simp only [sscanf, key, behind]
    by_cases empty : (valueOf (cstr line)).takeWhile (· ≠ lf) = []
    · rw [empty, List.take_nil, if_pos (Or.inr rfl), if_pos rfl]
      rfl
    · have some : wordOf (cstr line) ≠ [] := fun none =>
        empty (by rw [wordless_valueless _ none, List.takeWhile_nil])
      have kept : ((valueOf (cstr line)).takeWhile (· ≠ lf)).take 191 ≠ [] := by
        rw [Ne, List.take_eq_nil_iff, not_or]
        exact ⟨by decide, empty⟩
      rw [if_neg (not_or.mpr ⟨some, kept⟩), if_neg empty]
      rfl
  · have long : 11 < ((((cstr line).dropWhile isspace).takeWhile solid).take 63).length := by
      rw [List.length_take, ← wordOf]
      omega
    simp only [sscanf]
    rw [long_unnamed (wordOf (cstr line)) _ (by omega), ite_self]
    split
    · rfl
    · exact long_unnamed _ _ long

/-- What is scanned of a part of a line is what the part says. -/
theorem scan_part (part ending : Bytes) (clean : lf ∉ part) (ends : ending = [lf] ∨ ending = []) :
    wordOf (cstr (part ++ ending)) = wordOf (cstr part) ∧
      (valueOf (cstr (part ++ ending))).takeWhile (· ≠ lf) = valueOf (cstr part) := by
  have within : ∀ c ∈ cstr part, c ∈ part := fun c member => (List.takeWhile_sublist _).subset member
  have line : lf ∉ cstr part := fun member => clean (within lf member)
  have whole : (valueOf (cstr part)).takeWhile (· ≠ lf) = valueOf (cstr part) := by
    rw [List.takeWhile_eq_self_iff]
    intro c member
    have inside : c ∈ cstr part := (List.dropWhile_sublist _).subset
      ((List.dropWhile_sublist _).subset ((List.dropWhile_sublist _).subset member))
    simpa using fun same : c = lf => line (same ▸ inside)
  rcases ends with rfl | rfl
  · have string : cstr (part ++ [lf]) = cstr part ++ [lf] ∨ cstr (part ++ [lf]) = cstr part := by
      rw [cstr, List.takeWhile_append]
      split
      case isTrue all =>
        left
        rw [cstr, (List.takeWhile_prefix _).eq_of_length all]
        rfl
      case isFalse => exact Or.inr rfl
    rcases string with long | same
    · rw [long, word_end, value_end _ line]
      exact ⟨rfl, rfl⟩
    · rw [same, whole]
      exact ⟨rfl, rfl⟩
  · rw [List.append_nil, whole]
    exact ⟨rfl, rfl⟩

/-- A piece is read as a line of its own whose value is cut. -/
theorem read_part (part ending : Bytes) (clean : lf ∉ part) (ends : ending = [lf] ∨ ending = []) :
    readBuffer (part ++ ending) =
      if part = [] ∨ part.head? = some hash ∨ valueOf (cstr part) = [] then none
      else setting (wordOf (cstr part)) ((valueOf (cstr part)).take 191) := by
  obtain ⟨word, value⟩ := scan_part part ending clean ends
  have scanned := scan_setting (part ++ ending)
  rw [word, value] at scanned
  rw [readBuffer, scanned]
  cases part with
  | nil =>
      have none : valueOf (cstr []) = [] := rfl
      simp [none]
  | cons c rest =>
      have apart : c ≠ lf := fun same => clean (same ▸ List.mem_cons_self)
      by_cases comment : c = hash
      · simp [comment]
      · by_cases empty : valueOf (cstr (c :: rest)) = []
        · simp [empty]
        · simp [comment, apart, empty]

theorem part_unread_iff (part ending : Bytes) (clean : lf ∉ part) (ends : ending = [lf] ∨ ending = []) :
    readBuffer (part ++ ending) = none ↔ lineSetting part = none := by
  rw [read_part part ending clean ends, lineSetting]
  split
  · exact Iff.rfl
  · exact unnamed_iff _ _ _

end Scanning

section Lines

def content (line : Bytes) : Bytes := line.takeWhile (· ≠ lf)

/-- The buffers that are read of a line. -/
def linePieces (line : Bytes) : List Bytes := pieces lf 255 line.length line

/-- The first buffer says what the line says, and no other one anything. -/
def LineRead (line : Bytes) : Prop :=
  ∃ first rest, linePieces line = first :: rest ∧ readBuffer first = lineSetting (content line) ∧
    ∀ piece ∈ rest, readBuffer piece = none

/-- No part of 255 bytes behind the first names a setting, and what the line names is named within
    the first, with a value that means the same without what is cut off. -/
def LineFits (text : Bytes) : Prop :=
  (∀ place, lineSetting ((text.drop (255 * (place + 1))).take 255) = none) ∧
    (lineSetting text = none ∨
      valueStart (cstr text) < 255 ∧
        setting (wordOf (cstr text))
            ((valueOf (cstr text)).take (min 191 (255 - valueStart (cstr text)))) =
          setting (wordOf (cstr text)) (valueOf (cstr text)))

variable (text ending : Bytes) (line : IsLine lf text ending)

theorem content_line (line : IsLine lf text ending) : content (text ++ ending) = text := by
  have clean : ∀ c ∈ text, decide (c ≠ lf) = true := fun c member => by
    simpa using fun same : c = lf => line.clean (same ▸ member)
  rw [content, List.takeWhile_append_of_pos clean]
  rcases line.ends with rfl | rfl
  · simp
  · simp

/-- A piece of a line: a part of its text, and its end or nothing. -/
theorem piece_parts (line : IsLine lf text ending) (start room : Nat) :
    ∃ rest, (rest = [lf] ∨ rest = []) ∧
      ((text ++ ending).drop start).take room = (text.drop start).take room ++ rest := by
  rw [List.drop_append, List.take_append]
  refine ⟨_, ?_, rfl⟩
  rcases line.ends with rfl | rfl
  · cases start - text.length with
    | zero =>
        cases room - (text.drop start).length with
        | zero => exact Or.inr rfl
        | succ more => exact Or.inl (by simp)
    | succ more => exact Or.inr (by simp)
  · exact Or.inr (by simp)

theorem first_read_iff (line : IsLine lf text ending) :
    readBuffer ((text ++ ending).take 255) = lineSetting text ↔
      lineSetting text = none ∨
        valueStart (cstr text) < 255 ∧
          setting (wordOf (cstr text))
              ((valueOf (cstr text)).take (min 191 (255 - valueStart (cstr text)))) =
            setting (wordOf (cstr text)) (valueOf (cstr text)) := by
  obtain ⟨rest, ends, split⟩ := piece_parts text ending line 0 255
  rw [List.drop_zero, List.drop_zero] at split
  have clean : lf ∉ text.take 255 := fun member => line.clean (List.mem_of_mem_take member)
  rw [split, read_part _ rest clean ends, cstr_take, value_take, word_take]
  by_cases silent : text = [] ∨ text.head? = some hash
  · have none : lineSetting text = none := by
      rw [lineSetting, if_pos (silent.imp_right Or.inl)]
    have first : text.take 255 = [] ∨ (text.take 255).head? = some hash := by
      rw [List.head?_take, if_neg (by decide)]
      exact silent.imp_left fun empty => by rw [empty, List.take_nil]
    rw [if_pos (first.imp_right Or.inl), none]
    exact iff_of_true rfl (Or.inl rfl)
  · have first : ¬ (text.take 255 = [] ∨ (text.take 255).head? = some hash) := by
      rw [List.head?_take, if_neg (by decide), List.take_eq_nil_iff]
      simpa using silent
    rw [not_or] at silent first
    by_cases empty : valueOf (cstr text) = []
    · have none : lineSetting text = none := by
        rw [lineSetting, if_pos (Or.inr (Or.inr empty))]
      rw [if_pos (Or.inr (Or.inr (by rw [empty, List.take_nil]))), none]
      exact iff_of_true rfl (Or.inl rfl)
    · have said : lineSetting text = setting (wordOf (cstr text)) (valueOf (cstr text)) := by
        rw [lineSetting, if_neg (by simp [silent, empty])]
      by_cases near : valueStart (cstr text) < 255
      · have word : (wordOf (cstr text)).take (255 - ((cstr text).takeWhile isspace).length) =
            wordOf (cstr text) := by
          apply List.take_of_length_le
          simp only [valueStart] at near
          omega
        have some : (valueOf (cstr text)).take (255 - valueStart (cstr text)) ≠ [] := by
          rw [Ne, List.take_eq_nil_iff, not_or]
          exact ⟨by omega, empty⟩
        rw [if_neg (by simp [first, some]), word, List.take_take, said]
        constructor
        · exact fun same => Or.inr ⟨near, same⟩
        · rintro (none | ⟨-, same⟩)
          · rw [none, (unnamed_iff _ _ _).mp none]
          · exact same
      · have gone : 255 - valueStart (cstr text) = 0 := by omega
        rw [gone, List.take_zero, if_pos (Or.inr (Or.inr rfl))]
        constructor
        · exact fun none => Or.inl none.symm
        · rintro (none | ⟨wrong, -⟩)
          · exact none.symm
          · exact absurd wrong near

theorem line_read_iff (line : IsLine lf text ending) : LineRead (text ++ ending) ↔ LineFits text := by
  obtain ⟨count, length⟩ := Nat.exists_eq_add_of_lt (List.length_pos_of_ne_nil line.some)
  rw [Nat.zero_add] at length
  have split := pieces_line lf 255 count (by decide) text ending [] line fun _ => rfl
  rw [List.append_nil, List.append_nil, ← length] at split
  have later : (∀ piece ∈ pieces lf 255 count ((text ++ ending).drop 255), readBuffer piece = none) ↔
      ∀ place, lineSetting ((text.drop (255 * (place + 1))).take 255) = none := by
    have part (place : Nat) : readBuffer (((text ++ ending).drop (255 * (place + 1))).take 255) = none ↔
        lineSetting ((text.drop (255 * (place + 1))).take 255) = none := by
      obtain ⟨rest, ends, parts⟩ := piece_parts text ending line (255 * (place + 1)) 255
      rw [parts]
      exact part_unread_iff _ rest
        (fun member => line.clean (List.mem_of_mem_drop (List.mem_of_mem_take member))) ends
    constructor
    · intro unread place
      by_cases within : 255 * (place + 1) < (text ++ ending).length
      · rw [← part place]
        exact unread _ ((mem_pieces_left lf 255 (by decide) text ending line count (by omega) _).mpr
          ⟨place, within, rfl⟩)
      · rw [List.length_append] at within
        rw [List.drop_eq_nil_of_le (by omega), List.take_nil]
        rfl
    · intro unnamed piece member
      obtain ⟨place, -, rfl⟩ :=
        (mem_pieces_left lf 255 (by decide) text ending line count (by omega) piece).mp member
      exact (part place).mpr (unnamed place)
  rw [LineFits, ← first_read_iff text ending line, ← later]
  simp only [LineRead, linePieces, split, content_line text ending line, List.cons.injEq]
  constructor
  · rintro ⟨first, rest, ⟨rfl, rfl⟩, told, silent⟩
    exact ⟨silent, told⟩
  · rintro ⟨silent, told⟩
    exact ⟨_, _, ⟨rfl, rfl⟩, told, silent⟩

end Lines

section Files

/-- The configuration that the lines of a file give. -/
def foldLines (contents : Bytes) (config : Config) : Config :=
  ((lines lf contents).filterMap fun line => lineSetting (content line)).foldl Setting.apply config

def ReadByLines (contents : Bytes) : Prop := ∀ line ∈ lines lf contents, LineRead line

/-- The loop applies what each buffer says. -/
theorem load_pieces (count : Nat) (stream : Bytes) (config : Config) :
    loadLines count stream config =
      ((pieces lf 255 count stream).filterMap readBuffer).foldl Setting.apply config := by
  induction count generalizing stream config with
  | zero => rfl
  | succ count ih =>
      rw [loadLines, fgets, pieces]
      rcases readPiece lf 255 stream with ⟨piece, left⟩
      cases piece with
      | nil => rfl
      | cons c piece =>
          simp only [ih, List.filterMap_cons]
          cases readBuffer (c :: piece) with
          | none => rfl
          | some setting => rfl

theorem line_read_setting (line : Bytes) (read : LineRead line) :
    (linePieces line).filterMap readBuffer = (lineSetting (content line)).toList := by
  obtain ⟨first, rest, split, told, silent⟩ := read
  have none : rest.filterMap readBuffer = [] := by
    rw [List.filterMap_eq_nil_iff]
    exact silent
  rw [split, List.filterMap_cons, told]
  cases lineSetting (content line) with
  | none => exact none
  | some setting => rw [none]; rfl

/-- A file that is read by lines leaves the configuration that its lines give. -/
theorem load_by_lines (contents : Bytes) (config : Config) (read : ReadByLines contents) :
    (loadConfigFromFile (some contents) config).1 = foldLines contents config := by
  have each : ((lines lf contents).flatMap linePieces).filterMap readBuffer =
      (lines lf contents).filterMap fun line => lineSetting (content line) := by
    rw [ReadByLines] at read
    generalize lines lf contents = all at read
    induction all with
    | nil => rfl
    | cons line rest ih =>
        rw [List.forall_mem_cons] at read
        rw [List.flatMap_cons, List.filterMap_append, line_read_setting line read.1, ih read.2,
          List.filterMap_cons]
        cases lineSetting (content line) with
        | none => rfl
        | some setting => rfl
  rw [loadConfigFromFile, load_pieces, pieces_lines lf 255 (by decide)]
  exact congrArg (fun settings => settings.foldl Setting.apply config) each

end Files

/-- A file is read by lines, and leaves the configuration that they give, exactly when each of its
    lines fits. -/
theorem read_by_lines_iff (contents : Bytes) (config : Config) :
    (ReadByLines contents ∧
        (loadConfigFromFile (some contents) config).1 = foldLines contents config) ↔
      ∀ line ∈ lines lf contents, LineFits (content line) := by
  have each (line : Bytes) (member : line ∈ lines lf contents) :
      LineRead line ↔ LineFits (content line) := by
    obtain ⟨text, ending, rfl, whole⟩ := lines_are_lines lf contents line member
    rw [content_line text ending whole]
    exact line_read_iff text ending whole
  constructor
  · rintro ⟨read, -⟩ line member
    exact (each line member).mp (read line member)
  · intro fits
    have read : ReadByLines contents := fun line member => (each line member).mpr (fits line member)
    exact ⟨read, load_by_lines contents config read⟩

/-- A comment of 262 bytes. -/
def longComment : Bytes := hash :: List.replicate 254 45 ++ ascii "port 80\n"

/-- The end of the comment becomes the port. -/
theorem comment_sets_port :
    (loadConfigFromFile (some longComment) loadDefaultConfig).1.port = 80 ∧
      foldLines longComment loadDefaultConfig = loadDefaultConfig := by
  decide +kernel

end CrimsonCache.ConfigLines
