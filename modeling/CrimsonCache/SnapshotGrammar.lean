import CrimsonCache.TruncatedSnapshot

/-!
The language of the loader. `load_rdb_from_file` accepts exactly the files that
the grammar below generates, with anything behind the end marker, and puts into
the table what the grammar says that the records mean. The writer uses only a
part of it.
-/

namespace CrimsonCache.SnapshotGrammar

open CString Dictionary DeadlineMap LittleEndian Persistence SnapshotRecords StepParsers TruncatedSnapshot

section Grammar

/-- What stands behind the deadline of an item: a value, or a command without one. -/
inductive Body where
  | set (value : Bytes)
  | other (command : UInt8)

structure Item where
  key : Bytes
  type : Bytes
  flag : UInt8
  expire : Nat
  body : Body

def Item.passed (now : Nat) (item : Item) : Bool := item.flag ≠ 0 && item.expire < now

/-- A command without a value is taken only where it is passed over. -/
def Body.Legal (passed : Bool) : Body → Prop
  | .set value => value.length < 2 ^ 64
  | .other command => command ≠ rdbSet ∧ passed = true

/-- Lengths and deadlines fit their fields. -/
structure Item.Legal (now : Nat) (item : Item) : Prop where
  key : item.key.length < 2 ^ 64
  type : item.type.length = 4
  expire : if item.flag = 0 then item.expire = 0 else item.expire < 2 ^ 64
  body : item.body.Legal (item.passed now)

def Body.bytes : Body → Bytes
  | .set value => rdbSet :: stringBytes value
  | .other command => [command]

def Item.bytes (item : Item) : Bytes :=
  stringBytes item.key ++ (item.type ++ (item.flag ::
    ((if item.flag = 0 then [] else encode 8 item.expire) ++ item.body.bytes)))

def fileBytes (items : List Item) (rest : Bytes) : Bytes :=
  rdbMagic ++ (encode 4 rdbVersion ++ (encode 8 items.length ++ (items.flatMap Item.bytes ++
    rdbEnd :: rest)))

/-- What an item means at the time of the load. -/
def Item.record (now : Nat) (item : Item) : Option Record :=
  if item.passed now then none
  else match item.body with
    | .set value => some ⟨cstr item.key, cstr value, value.length + 1, item.expire⟩
    | .other _ => none

end Grammar

section Fields

theorem fread_reads (count : Nat) :
    Reads (fread count) fun value text => text = value ∧ value.length = count := by
  intro input value rest
  rw [fread, takeExact_some]
  constructor
  · rintro ⟨length, rfl⟩
    exact ⟨value, ⟨rfl, length⟩, rfl⟩
  · rintro ⟨_, ⟨rfl, length⟩, rfl⟩
    exact ⟨length, rfl⟩

/-- A single byte, and what it leads to. -/
theorem byte_reads {α : Type} (second : Bytes → Parser UInt8 α) (back : UInt8 → α → Bytes → Prop)
    (tail : ∀ byte, Reads (second [byte]) (back byte)) :
    Reads (andThen (fread 1) second) fun result text =>
      ∃ byte finish, back byte result finish ∧ text = byte :: finish := by
  have read := and_then_reads (fread 1) second _ (fun cmd => back (cmd.headD 0)) (fread_reads 1) (by
    rintro cmd _ ⟨rfl, length⟩
    obtain ⟨byte, rfl⟩ := List.length_eq_one_iff.mp length
    exact tail byte)
  refine read.congr fun result text => ?_
  constructor
  · rintro ⟨cmd, _, finish, ⟨rfl, length⟩, follows, rfl⟩
    obtain ⟨byte, rfl⟩ := List.length_eq_one_iff.mp length
    exact ⟨byte, finish, follows, rfl⟩
  · rintro ⟨byte, finish, follows, rfl⟩
    exact ⟨[byte], [byte], finish, ⟨rfl, rfl⟩, follows, rfl⟩

/-- A number of eight bytes. -/
theorem number_reads (raw : Bytes) :
    raw.length = 8 ↔ ∃ number, number < 2 ^ 64 ∧ raw = encode 8 number ∧ decode raw = number := by
  constructor
  · intro length
    refine ⟨decode raw, ?_, ?_, rfl⟩
    · have bound := decode_lt raw
      rw [length] at bound
      exact bound
    · rw [← length, encode_decode]
  · rintro ⟨number, -, rfl, -⟩
    exact length_encode 8 number

theorem load_string_reads (malloc : Nat → Bool) (allocates : ∀ size, malloc size = true) :
    Reads (rdbLoadString malloc) fun value text => text = stringBytes value ∧ value.length < 2 ^ 64 := by
  intro input value rest
  constructor
  · intro loaded
    simp only [rdbLoadString] at loaded
    cases header : fread 8 input with
    | none => simp [header] at loaded
    | some taken =>
        obtain ⟨raw, file⟩ := taken
        obtain ⟨_, ⟨rfl, length⟩, rfl⟩ := (fread_reads 8 input raw file).mp header
        obtain ⟨number, bound, encoded, decoded⟩ := (number_reads _).mp length
        simp only [header, allocates, ↓reduceIte, decoded] at loaded
        refine ⟨stringBytes value, ⟨rfl, ?_⟩, ?_⟩
        · split at loaded
          case isTrue =>
            obtain ⟨_, ⟨rfl, width⟩, rfl⟩ := (fread_reads number file value rest).mp loaded
            omega
          case isFalse =>
            obtain ⟨rfl, rfl⟩ := Prod.mk.inj (Option.some.inj loaded)
            simp
        · split at loaded
          case isTrue =>
            obtain ⟨_, ⟨rfl, width⟩, rfl⟩ := (fread_reads number file value rest).mp loaded
            rw [encoded, stringBytes, width, List.append_assoc]
          case isFalse empty =>
            obtain ⟨rfl, rfl⟩ := Prod.mk.inj (Option.some.inj loaded)
            have zero : number = 0 := by omega
            rw [encoded, zero]
            simp [stringBytes]
  · rintro ⟨_, ⟨rfl, bound⟩, rfl⟩
    have header : fread 8 (stringBytes value ++ rest) =
        some (encode 8 value.length, value ++ rest) := by
      rw [stringBytes, List.append_assoc]
      exact takeExact_append 8 _ _ (length_encode 8 _)
    have number : decode (encode 8 value.length) = value.length := decode_encode 8 _ bound
    simp only [rdbLoadString, header, allocates, ↓reduceIte, number]
    split
    case isTrue => exact takeExact_append value.length value rest rfl
    case isFalse empty =>
      have none : value = [] := List.length_eq_zero_iff.mp (by omega)
      rw [none]
      rfl

theorem load_expire_reads (present : Bool) :
    Reads (loadExpire present) fun expire text =>
      if present then text = encode 8 expire ∧ expire < 2 ^ 64 else text = [] ∧ expire = 0 := by
  intro input expire rest
  cases present with
  | false =>
      simp only [loadExpire, Bool.false_eq_true, ↓reduceIte]
      constructor
      · rintro ⟨⟩
        exact ⟨[], ⟨rfl, rfl⟩, rfl⟩
      · rintro ⟨_, ⟨rfl, rfl⟩, rfl⟩
        rfl
  | true =>
      simp only [loadExpire, ↓reduceIte, Option.map_eq_some_iff, Prod.exists, Prod.mk.injEq]
      constructor
      · rintro ⟨raw, file, taken, rfl, rfl⟩
        obtain ⟨text, ⟨rfl, length⟩, rfl⟩ := (fread_reads 8 input raw file).mp taken
        obtain ⟨number, bound, encoded, decoded⟩ := (number_reads _).mp length
        exact ⟨text, ⟨by rw [decoded, ← encoded], by rw [decoded]; exact bound⟩, rfl⟩
      · rintro ⟨_, ⟨rfl, bound⟩, rfl⟩
        exact ⟨encode 8 expire, rest, takeExact_append 8 _ _ (length_encode 8 _),
          decode_encode 8 _ bound, rfl⟩

end Fields

section Records

variable (alloc : LoadAlloc) (allocates : alloc.Succeeds)

include allocates

theorem read_value_reads (key : Bytes) (expire : Nat) :
    Reads (readValue alloc key expire) fun record text =>
      ∃ value, value.length < 2 ^ 64 ∧ text = rdbSet :: stringBytes value ∧
        record = ⟨cstr key, cstr value, value.length + 1, expire⟩ := by
  have value := and_then_reads (rdbLoadString alloc.val)
    (fun val file => some ((⟨cstr key, cstr val, val.length + 1, expire⟩ : Record), file)) _ _
    (load_string_reads alloc.val allocates.2.1) fun val _ _ => pure_reads _
  have command (byte : UInt8) : Reads
      (if [byte] = [rdbSet] then
        andThen (rdbLoadString alloc.val) fun val =>
          if alloc.obj then fun file => some ((⟨cstr key, cstr val, val.length + 1, expire⟩ : Record), file)
          else fun _ => none
      else fun _ => none)
      fun record text => byte = rdbSet ∧ ∃ value, value.length < 2 ^ 64 ∧ text = stringBytes value ∧
        record = ⟨cstr key, cstr value, value.length + 1, expire⟩ := by
    by_cases known : byte = rdbSet
    · simp only [known, allocates.2.2.1, ↓reduceIte]
      refine value.congr fun record text => ?_
      constructor
      · rintro ⟨val, _, _, ⟨rfl, bound⟩, ⟨rfl, rfl⟩, rfl⟩
        exact ⟨trivial, val, bound, List.append_nil _, rfl⟩
      · rintro ⟨-, val, bound, rfl, rfl⟩
        exact ⟨val, _, [], ⟨rfl, bound⟩, ⟨rfl, rfl⟩, (List.append_nil _).symm⟩
    · have different : [byte] ≠ [rdbSet] := fun same => known (List.cons.inj same).1
      simp only [different, ↓reduceIte]
      exact fail_reads.congr fun record text => by simp [known]
  refine (byte_reads _ _ command).congr fun record text => ?_
  constructor
  · rintro ⟨_, _, ⟨rfl, value, bound, rfl, rfl⟩, rfl⟩
    exact ⟨value, bound, rfl, rfl⟩
  · rintro ⟨value, bound, rfl, rfl⟩
    exact ⟨rdbSet, stringBytes value, ⟨rfl, value, bound, rfl, rfl⟩, rfl⟩

theorem pass_value_reads :
    Reads (passValue alloc) fun _ text =>
      (∃ value, value.length < 2 ^ 64 ∧ text = rdbSet :: stringBytes value) ∨
        ∃ command, command ≠ rdbSet ∧ text = [command] := by
  have value := and_then_reads (rdbLoadString alloc.val) (fun _ file => some ((), file)) _ _
    (load_string_reads alloc.val allocates.2.1) fun _ _ _ => pure_reads ()
  have command (byte : UInt8) : Reads
      (if [byte] = [rdbSet] then andThen (rdbLoadString alloc.val) fun _ file => some ((), file)
      else fun file => some ((), file))
      fun _ text => if byte = rdbSet then ∃ value, value.length < 2 ^ 64 ∧ text = stringBytes value
        else text = [] := by
    by_cases known : byte = rdbSet
    · simp only [known, ↓reduceIte]
      refine value.congr fun _ text => ?_
      constructor
      · rintro ⟨val, _, _, ⟨rfl, bound⟩, ⟨-, rfl⟩, rfl⟩
        exact ⟨val, bound, List.append_nil _⟩
      · rintro ⟨val, bound, rfl⟩
        exact ⟨val, _, [], ⟨rfl, bound⟩, ⟨rfl, rfl⟩, (List.append_nil _).symm⟩
    · have different : [byte] ≠ [rdbSet] := fun same => known (List.cons.inj same).1
      simp only [known, different, ↓reduceIte]
      exact (pure_reads ()).congr fun _ text => by simp
  refine (byte_reads _ _ command).congr fun _ text => ?_
  constructor
  · rintro ⟨byte, finish, rest, rfl⟩
    split at rest
    case isTrue known =>
      obtain ⟨value, bound, rfl⟩ := rest
      exact .inl ⟨value, bound, by rw [known]⟩
    case isFalse other => exact .inr ⟨byte, other, by rw [rest]⟩
  · rintro (⟨value, bound, rfl⟩ | ⟨byte, other, rfl⟩)
    · exact ⟨rdbSet, stringBytes value, ⟨value, bound, rfl⟩, rfl⟩
    · exact ⟨byte, [], by rw [if_neg other], rfl⟩

/-- The part of an item behind its deadline, by the loader's test of the deadline. -/
theorem read_body_reads (now : Nat) (key type : Bytes) (flag : UInt8) (expire : Nat) :
    Reads
      (if [flag] ≠ [0] && expire < now then andThen (passValue alloc) fun _ file => some (none, file)
        else andThen (readValue alloc key expire) fun record file => some (some record, file))
      fun record text => ∃ body : Body, text = body.bytes ∧
        record = (Item.mk key type flag expire body).record now ∧
        body.Legal ((Item.mk key type flag expire body).passed now) := by
  have passed (body : Body) :
      (Item.mk key type flag expire body).passed now = ([flag] ≠ [0] && expire < now) := by
    simp [Item.passed]
  cases late : ([flag] ≠ [0] && expire < now) with
  | true =>
      have lost (body : Body) : (Item.mk key type flag expire body).record now = none := by
        rw [Item.record, passed, late, if_pos rfl]
      simp only [↓reduceIte]
      have pass := and_then_reads (passValue alloc) (fun _ file => some ((none : Option Record), file)) _ _
        (pass_value_reads alloc allocates) fun _ _ _ => pure_reads none
      refine pass.congr fun record text => ?_
      constructor
      · rintro ⟨-, start, _, body, ⟨rfl, rfl⟩, rfl⟩
        rw [List.append_nil]
        rcases body with ⟨value, bound, rfl⟩ | ⟨command, other, rfl⟩
        · exact ⟨.set value, rfl, (lost _).symm, bound⟩
        · exact ⟨.other command, rfl, (lost _).symm, other, (passed _).trans late⟩
      · rintro ⟨body, rfl, rfl, legal⟩
        refine ⟨(), body.bytes, [], ?_, ⟨lost _, rfl⟩, (List.append_nil _).symm⟩
        cases body with
        | set value => exact .inl ⟨value, legal, rfl⟩
        | other command => exact .inr ⟨command, legal.1, rfl⟩
  | false =>
      have kept (value : Bytes) : (Item.mk key type flag expire (.set value)).record now =
          some ⟨cstr key, cstr value, value.length + 1, expire⟩ := by
        rw [Item.record, passed, late, if_neg Bool.false_ne_true]
      simp only [Bool.false_eq_true, ↓reduceIte]
      have value := and_then_reads (readValue alloc key expire)
        (fun record file => some (some record, file)) _ _
        (read_value_reads alloc allocates key expire) fun record _ _ => pure_reads (some record)
      refine value.congr fun record text => ?_
      constructor
      · rintro ⟨_, _, _, ⟨value, bound, rfl, rfl⟩, ⟨rfl, rfl⟩, rfl⟩
        exact ⟨.set value, List.append_nil _, (kept _).symm, bound⟩
      · rintro ⟨body, rfl, rfl, legal⟩
        cases body with
        | set value =>
            exact ⟨_, _, [], ⟨value, legal, rfl, rfl⟩, ⟨kept _, rfl⟩, (List.append_nil _).symm⟩
        | other command =>
            rw [passed, late] at legal
            exact absurd legal.2 Bool.false_ne_true

/-- The part of an item from its flag on. -/
theorem read_flag_reads (now : Nat) (key type : Bytes) (fits : key.length < 2 ^ 64)
    (width : type.length = 4) :
    Reads
      (andThen (fread 1) fun flag => andThen (loadExpire (flag ≠ [0])) fun expire =>
        if flag ≠ [0] && expire < now then andThen (passValue alloc) fun _ file => some (none, file)
        else andThen (readValue alloc key expire) fun record file => some (some record, file))
      fun record text => ∃ item : Item, item.key = key ∧ item.type = type ∧ item.Legal now ∧
        record = item.record now ∧
        text = item.flag :: ((if item.flag = 0 then [] else encode 8 item.expire) ++ item.body.bytes) := by
  have deadline (flag : UInt8) := and_then_reads (loadExpire ([flag] ≠ [0])) _ _ _
    (load_expire_reads ([flag] ≠ [0])) fun expire _ _ =>
      read_body_reads alloc allocates now key type flag expire
  refine (byte_reads _ _ deadline).congr fun record text => ?_
  constructor
  · rintro ⟨flag, _, ⟨expire, _, _, bound, ⟨body, rfl, rfl, legal⟩, rfl⟩, rfl⟩
    by_cases none : flag = 0
    · obtain ⟨rfl, rfl⟩ : _ = [] ∧ expire = 0 := by simpa [none] using bound
      exact ⟨⟨key, type, flag, 0, body⟩, rfl, rfl, ⟨fits, width, by simp [none], legal⟩, rfl, by simp [none]⟩
    · obtain ⟨rfl, bound⟩ : _ = encode 8 expire ∧ expire < 2 ^ 64 := by simpa [none] using bound
      exact ⟨⟨key, type, flag, expire, body⟩, rfl, rfl, ⟨fits, width, by simpa [none] using bound, legal⟩,
        rfl, by simp [none]⟩
  · rintro ⟨item, rfl, rfl, legal, rfl, rfl⟩
    refine ⟨item.flag, _, ⟨item.expire, _, _, ?_, ⟨item.body, rfl, rfl, legal.body⟩, rfl⟩, rfl⟩
    have bound := legal.expire
    by_cases none : item.flag = 0
    · simpa [none] using bound
    · simpa [none] using bound

/-- The loader reads a record exactly where an item stands. -/
theorem read_record_reads (now : Nat) :
    Reads (readRecord alloc now) fun record text =>
      ∃ item : Item, item.Legal now ∧ text = item.bytes ∧ record = item.record now := by
  have typed (key : Bytes) (fits : key.length < 2 ^ 64) := and_then_reads (fread 4) _ _ _ (fread_reads 4)
    fun type _ taken => read_flag_reads alloc allocates now key type fits taken.2
  refine (and_then_reads (rdbLoadString alloc.key) _ _ _ (load_string_reads alloc.key allocates.1)
    fun key _ taken => typed key taken.2).congr fun record text => ?_
  constructor
  · rintro ⟨_, _, _, ⟨rfl, fits⟩, ⟨_, _, _, ⟨rfl, width⟩, ⟨item, rfl, rfl, legal, rfl, rfl⟩, rfl⟩, rfl⟩
    exact ⟨item, legal, rfl, rfl⟩
  · rintro ⟨item, legal, rfl, rfl⟩
    exact ⟨item.key, _, _, ⟨rfl, legal.key⟩, ⟨item.type, item.type, _, ⟨rfl, legal.type⟩,
      ⟨item, rfl, rfl, legal, rfl, rfl⟩, rfl⟩, rfl⟩

end Records

section Files

variable (alloc : Nat → LoadAlloc) (allocates : ∀ index, (alloc index).Succeeds) (now : Nat)

theorem header_reads :
    Reads readHeader fun count text =>
      text = rdbMagic ++ (encode 4 rdbVersion ++ encode 8 count) ∧ count < 2 ^ 64 := by
  intro input count rest
  constructor
  · intro parsed
    obtain ⟨magic, file, first, behind⟩ := and_then_some _ _ _ _ parsed
    obtain ⟨_, ⟨rfl, -⟩, rfl⟩ := (fread_reads 4 _ _ _).mp first
    split at behind
    case isFalse => cases behind
    case isTrue known =>
      obtain ⟨version, file, second, last⟩ := and_then_some _ _ _ _ behind
      obtain ⟨_, ⟨rfl, width⟩, rfl⟩ := (fread_reads 4 _ _ _).mp second
      split at last
      case isFalse => cases last
      case isTrue supported =>
        obtain ⟨raw, file, third, counted⟩ := and_then_some _ _ _ _ last
        obtain ⟨_, ⟨rfl, length⟩, rfl⟩ := (fread_reads 8 _ _ _).mp third
        obtain ⟨number, bound, encoded, decoded⟩ := (number_reads _).mp length
        obtain ⟨rfl, rfl⟩ := Prod.mk.inj (Option.some.inj counted)
        refine ⟨_, ⟨rfl, by rw [decoded]; exact bound⟩, ?_⟩
        rw [decoded, ← encoded, ← supported, ← width, encode_decode, known, List.append_assoc,
          List.append_assoc]
  · rintro ⟨_, ⟨rfl, bound⟩, rfl⟩
    rw [List.append_assoc, List.append_assoc]
    exact header_read count bound rest

theorem end_marker_stands (file : Bytes) :
    checkEndMarker file = true ↔ ∃ rest, file = rdbEnd :: rest := by
  cases file with
  | nil => simp [checkEndMarker, fread, takeExact]
  | cons marker rest => simp [checkEndMarker, fread, takeExact]

/-- A successful load is a header, the records that it counts and the end marker. -/
theorem load_succeeds (db : Dict) (rep : Represents db) (file : Bytes) :
    (loadRdb alloc now db file).2 = true ↔
      ∃ count behind records rest, readHeader file = some (count, behind) ∧
        storedRecords now count alloc (fun key => (mapping db key).isSome) behind =
          (records, some (rdbEnd :: rest)) := by
  rw [load_rdb_header]
  cases header : readHeader file with
  | none => simp
  | some taken =>
      obtain ⟨count, behind⟩ := taken
      obtain ⟨-, same⟩ := load_entries_stored now count alloc db rep _ (fun _ => rfl) behind
      cases stored : storedRecords now count alloc (fun key => (mapping db key).isSome) behind with
      | mk records left =>
          cases loaded : loadEntries now count alloc db behind with
          | mk after remaining =>
              rw [loaded, stored] at same
              dsimp only at same
              subst same
              cases remaining with
              | none => simp [loaded, stored]
              | some text => simp [loaded, stored, end_marker_stands]

include allocates

/-- As many records as items stand in the file. -/
theorem stored_items (count : Nat) (bound : Bytes → Bool) (file : Bytes) (records : List Record)
    (rest : Bytes) :
    storedRecords now count alloc bound file = (records, some rest) ↔
      ∃ items : List Item, items.length = count ∧ (∀ item ∈ items, item.Legal now) ∧
        file = items.flatMap Item.bytes ++ rest ∧ records = items.filterMap (Item.record now) := by
  induction count generalizing alloc bound file records with
  | zero =>
      constructor
      · rintro ⟨⟩
        exact ⟨[], rfl, by simp, rfl, rfl⟩
      · rintro ⟨items, none, -, rfl, rfl⟩
        rw [List.length_eq_zero_iff.mp none]
        rfl
  | succ count ih =>
      have taken := read_record_reads (alloc 0) (allocates 0) now file
      have placed : ((alloc 0).dict.entry && (alloc 0).dict.key) = true := by
        simp [(allocates 0).2.2.2.1, (allocates 0).2.2.2.2]
      have later := ih (fun index => alloc (index + 1)) fun index => allocates (index + 1)
      simp only [storedRecords]
      constructor
      · intro stored
        cases first : readRecord (alloc 0) now file with
        | none => simp [first] at stored
        | some taken' =>
            obtain ⟨record, behind⟩ := taken'
            obtain ⟨_, ⟨item, legal, rfl, rfl⟩, rfl⟩ := (taken _ _).mp first
            rw [first] at stored
            cases kept : item.record now with
            | none =>
                rw [kept] at stored
                obtain ⟨items, rfl, all, rfl, rfl⟩ := (later _ _ _).mp stored
                exact ⟨item :: items, rfl, List.forall_mem_cons.mpr ⟨legal, all⟩,
                  by rw [List.flatMap_cons, List.append_assoc],
                  (List.filterMap_cons_none kept).symm⟩
            | some record =>
                simp only [kept, placed, Bool.true_or, ↓reduceIte, Prod.mk.injEq] at stored
                obtain ⟨items, rfl, all, rfl, same⟩ := (later _ _ _).mp (Prod.ext rfl stored.2)
                refine ⟨item :: items, rfl, List.forall_mem_cons.mpr ⟨legal, all⟩,
                  by rw [List.flatMap_cons, List.append_assoc], ?_⟩
                rw [List.filterMap_cons_some kept, ← same, ← stored.1]
      · rintro ⟨items, length, all, rfl, rfl⟩
        cases items with
        | nil => cases length
        | cons item items =>
            obtain ⟨legal, all⟩ := List.forall_mem_cons.mp all
            have first := (taken (item.record now) (items.flatMap Item.bytes ++ rest)).mpr
              ⟨item.bytes, ⟨item, legal, rfl, rfl⟩, by rw [List.flatMap_cons, List.append_assoc]⟩
            have next (known : Bytes → Bool) := (later known (items.flatMap Item.bytes ++ rest)
              (items.filterMap (Item.record now))).mpr
              ⟨items, Nat.succ.inj length, all, rfl, rfl⟩
            rw [first]
            cases kept : item.record now with
            | none => simp only [next, List.filterMap_cons_none kept]
            | some record =>
                simp only [placed, Bool.true_or, ↓reduceIte, next, List.filterMap_cons_some kept]

/-- The loader takes exactly the files of the grammar, and a file of the grammar leaves its
    records in the table, a later one in place of an earlier one of its key. -/
theorem load_accepts_grammar (db : Dict) (rep : Represents db) :
    (∀ file, (loadRdb alloc now db file).2 = true ↔
      ∃ (items : List Item) (rest : Bytes), items.length < 2 ^ 64 ∧
        (∀ item ∈ items, item.Legal now) ∧ file = fileBytes items rest) ∧
    ∀ (items : List Item) (rest : Bytes), items.length < 2 ^ 64 →
      (∀ item ∈ items, item.Legal now) →
        mapping (loadRdb alloc now db (fileBytes items rest)).1 =
          storeAll (items.filterMap (Item.record now)) (mapping db) := by
  refine ⟨fun file => ?_, fun items rest bound legal => ?_⟩
  · rw [load_succeeds alloc now db rep]
    constructor
    · rintro ⟨count, behind, records, rest, header, stored⟩
      obtain ⟨_, ⟨rfl, bound⟩, rfl⟩ := (header_reads _ _ _).mp header
      obtain ⟨items, rfl, legal, rfl, -⟩ :=
        (stored_items alloc allocates now _ _ _ _ _).mp stored
      refine ⟨items, rest, bound, legal, ?_⟩
      rw [fileBytes, List.append_assoc, List.append_assoc]
    · rintro ⟨items, rest, bound, legal, rfl⟩
      exact ⟨items.length, _, _, rest, header_read _ bound _,
        (stored_items alloc allocates now _ _ _ _ _).mpr ⟨items, rfl, legal, rfl, rfl⟩⟩
  · have stored := (stored_items alloc allocates now items.length
      (fun key => (mapping db key).isSome) (items.flatMap Item.bytes ++ rdbEnd :: rest) _ _).mpr
      ⟨items, rfl, legal, rfl, rfl⟩
    rw [load_rdb_mapping alloc now db rep, fileRecords, fileBytes, header_read _ bound]
    dsimp only
    rw [stored]

end Files

section Example

/-- No writer of the program leaves any of these: a record of an unknown command, which the loader
    takes as its deadline is past, a flag other than one, and a value with a NUL byte in it. -/
def foreignItems : List Item :=
  [⟨ascii "old", ascii "none", 1, 7, .other 9⟩,
    ⟨ascii "k", ascii "text", 2, 200, .set (ascii "v" ++ 0 :: ascii "w")⟩]

theorem foreign_items_legal : ∀ item ∈ foreignItems, item.Legal 100 := by
  intro item member
  simp only [foreignItems, List.mem_cons, List.not_mem_nil, or_false] at member
  rcases member with rfl | rfl
  · exact ⟨by decide, rfl, by decide, by decide, rfl⟩
  · exact ⟨by decide, rfl, by decide, show 3 < 2 ^ 64 by decide⟩

/-- They load, and the value ends at its NUL byte. -/
theorem foreign_file_loads :
    ∃ db, dictCreate true 4 = some db ∧
      (loadRdb (fun _ => ample) 100 db (fileBytes foreignItems [7])).2 = true ∧
      mapping (loadRdb (fun _ => ample) 100 db (fileBytes foreignItems [7])).1 =
        storeAll [⟨ascii "k", ascii "v", 4, 200⟩] (mapping db) := by
  obtain ⟨db, created⟩ : ∃ db, dictCreate true 4 = some db := ⟨_, rfl⟩
  obtain ⟨takes, leaves⟩ := load_accepts_grammar (fun _ => ample) (fun _ => ample_succeeds) 100 db
    (create_represents true 4 db created).1
  have few : foreignItems.length < 2 ^ 64 := by decide
  refine ⟨db, created, ?_, ?_⟩
  · exact (takes _).mpr ⟨foreignItems, [7], few, foreign_items_legal, rfl⟩
  · exact leaves foreignItems [7] few foreign_items_legal

end Example

end CrimsonCache.SnapshotGrammar
