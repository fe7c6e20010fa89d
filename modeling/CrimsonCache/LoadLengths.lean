import CrimsonCache.SnapshotRecords
import CrimsonCache.SnapshotRestore

/-!
The length prefixes that a load takes from its file. `rdb_load_string` asks for
one byte more than the prefix says, as a `size_t`; only the greatest prefix makes
the sum wrap, to a request for no byte at all. Where `malloc` grants that, `fread`
puts the rest of the file behind the block.
-/

namespace CrimsonCache.LoadLengths

open CString Dictionary LittleEndian Persistence SnapshotRecords SnapshotRestore ServerRuns

section Model

/-- One call of `rdb_load_string`: the outcomes of its `malloc`, and the file from there on. -/
structure StringCall where
  malloc : Nat → Bool
  file : Bytes

/-- The call for a value. The reader makes it for a record it stores and for one it skips. -/
def valueCalls (malloc : Nat → Bool) (file : Bytes) : List StringCall :=
  match fread 1 file with
  | none => []
  | some (cmd, file) => if cmd = [rdbSet] then [⟨malloc, file⟩] else []

/-- The calls for one record. -/
def recordCalls (alloc : LoadAlloc) (file : Bytes) : List StringCall :=
  ⟨alloc.key, file⟩ ::
    match rdbLoadString alloc.key file with
    | none => []
    | some (_, file) =>
        match fread 4 file with
        | none => []
        | some (_, file) =>
            match fread 1 file with
            | none => []
            | some (flag, file) =>
                match loadExpire (flag ≠ [0]) file with
                | none => []
                | some (_, file) => valueCalls alloc.val file

def entriesCalls (now : Nat) : Nat → (Nat → LoadAlloc) → Dict → Bytes → List StringCall
  | 0, _, _, _ => []
  | count + 1, alloc, db, file =>
      recordCalls (alloc 0) file ++
        match loadRecord (alloc 0) now db file with
        | (_, none) => []
        | (db, some file) => entriesCalls now count (fun index => alloc (index + 1)) db file

/-- Every call of `rdb_load_string` that a load makes. -/
def loadCalls (alloc : Nat → LoadAlloc) (now : Nat) (db : Dict) (file : Bytes) : List StringCall :=
  match readHeader file with
  | none => []
  | some (count, file) => entriesCalls now count alloc db file

/-- `malloc(*len + 1)`. -/
def requested (len : Nat) : Nat := (len + 1) % 2 ^ 64

/-- The bytes that a call stores from the start of its block on: what `fread` gets, and the
    terminator behind it when it gets everything. -/
def StringCall.stored (call : StringCall) (len : Nat) (rest : Bytes) : Nat :=
  if call.malloc (requested len) then if len ≤ rest.length then len + 1 else rest.length else 0

/-- A length that was read is less than the block has bytes, and what is stored stays inside; or
    the load ends with `result` 0 and nothing is stored. -/
def StringCall.InBounds (call : StringCall) (result : Bool) : Prop :=
  ∀ raw rest, fread 8 call.file = some (raw, rest) →
    (decode raw < requested (decode raw) ∧ call.stored (decode raw) rest ≤ requested (decode raw)) ∨
      (result = false ∧ call.stored (decode raw) rest = 0)

/-- The greatest prefix, a `malloc(0)` that does not return NULL, and more of the file. -/
def StringCall.Overflows (call : StringCall) : Prop :=
  ∃ rest, fread 8 call.file = some (List.replicate 8 255, rest) ∧ call.malloc 0 = true ∧ rest ≠ []

end Model

section Failures

/-- A string that cannot be loaded fails its record. -/
theorem failed_call_fails_record (alloc : LoadAlloc) (now : Nat) (db : Dict) (file : Bytes)
    (call : StringCall) (made : call ∈ recordCalls alloc file)
    (failed : rdbLoadString call.malloc call.file = none) : (loadRecord alloc now db file).2 = none := by
  rcases List.mem_cons.mp made with rfl | value
  · simp [loadRecord, failed]
  · simp only [loadRecord]
    cases name : rdbLoadString alloc.key file with
    | none => rfl
    | some taken =>
        obtain ⟨key, file⟩ := taken
        simp only [name] at value ⊢
        cases kind : fread 4 file with
        | none => rfl
        | some taken =>
            obtain ⟨type, file⟩ := taken
            simp only [kind] at value ⊢
            cases mark : fread 1 file with
            | none => rfl
            | some taken =>
                obtain ⟨flag, file⟩ := taken
                simp only [mark] at value ⊢
                cases deadline : loadExpire (flag ≠ [0]) file with
                | none => rfl
                | some taken =>
                    obtain ⟨expire, file⟩ := taken
                    simp only [deadline, valueCalls] at value ⊢
                    cases begun : fread 1 file with
                    | none => simp [begun] at value
                    | some taken =>
                        obtain ⟨cmd, file⟩ := taken
                        simp only [begun] at value
                        split at value
                        case isFalse => simp at value
                        case isTrue known =>
                          obtain rfl := List.mem_singleton.mp value
                          split
                          · simp [skipValue, begun, known, failed]
                          · simp [loadValue, begun, known, failed]

theorem failed_call_fails_entries (now count : Nat) (alloc : Nat → LoadAlloc) (db : Dict) (file : Bytes)
    (call : StringCall) (made : call ∈ entriesCalls now count alloc db file)
    (failed : rdbLoadString call.malloc call.file = none) :
    (loadEntries now count alloc db file).2 = none := by
  induction count generalizing alloc db file with
  | zero => simp [entriesCalls] at made
  | succ count ih =>
      simp only [entriesCalls, List.mem_append] at made
      simp only [loadEntries]
      rcases made with here | later
      · have ended := failed_call_fails_record (alloc 0) now db file call here failed
        rcases loaded : loadRecord (alloc 0) now db file with ⟨after, rest⟩
        rw [loaded] at ended
        obtain rfl : rest = none := ended
        rfl
      · rcases loaded : loadRecord (alloc 0) now db file with ⟨after, rest⟩
        rw [loaded] at later
        cases rest with
        | none => rfl
        | some rest => exact ih _ after rest later

theorem failed_call_fails_load (alloc : Nat → LoadAlloc) (now : Nat) (db : Dict) (file : Bytes)
    (call : StringCall) (made : call ∈ loadCalls alloc now db file)
    (failed : rdbLoadString call.malloc call.file = none) : (loadRdb alloc now db file).2 = false := by
  simp only [loadCalls] at made
  rw [load_rdb_header]
  cases header : readHeader file with
  | none => rfl
  | some taken =>
      obtain ⟨count, body⟩ := taken
      simp only [header] at made
      have ended := failed_call_fails_entries now count alloc db body call made failed
      dsimp only
      rcases loaded : loadEntries now count alloc db body with ⟨after, rest⟩
      rw [loaded] at ended
      obtain rfl : rest = none := ended
      rfl

end Failures

section Lengths

theorem fread_length (count : Nat) (file raw rest : Bytes) (read : fread count file = some (raw, rest)) :
    raw.length = count := by
  simp only [fread, takeExact] at read
  split at read
  case isFalse => cases read
  case isTrue enough =>
    obtain ⟨rfl, -⟩ := Prod.mk.inj (Option.some.inj read)
    rw [List.length_take, Nat.min_eq_left enough]

/-- The request wraps for the greatest prefix only. -/
theorem request_exceeds_iff (raw : Bytes) (width : raw.length = 8) :
    decode raw < requested (decode raw) ↔ raw ≠ List.replicate 8 255 := by
  have bound := decode_lt raw
  have greatest := decode_greatest raw
  rw [width] at bound greatest
  rw [ne_eq, ← greatest]
  simp only [requested]
  omega

theorem stored_within (call : StringCall) (len : Nat) (rest : Bytes) : call.stored len rest ≤ len + 1 := by
  simp only [StringCall.stored]
  split
  · split
    · exact Nat.le_refl _
    · omega
  · exact Nat.zero_le _

/-- A call in bounds has not overflowed, whatever the result. -/
theorem in_bounds_safe (call : StringCall) (result : Bool) (inside : call.InBounds result) :
    ¬ call.Overflows := by
  rintro ⟨rest, read, granted, more⟩
  have top : decode (List.replicate 8 255) = 2 ^ 64 - 1 := by decide
  have nothing : requested (2 ^ 64 - 1) = 0 := rfl
  have positive : 0 < rest.length := List.length_pos_of_ne_nil more
  rcases inside _ rest read with ⟨larger, -⟩ | ⟨-, none⟩
  · rw [top, nothing] at larger
    omega
  · rw [StringCall.stored, top, nothing, if_pos granted] at none
    split at none
    · omega
    · omega

/-- A call that does not overflow is in bounds, if the load ends with it when it fails. -/
theorem safe_in_bounds (call : StringCall) (result : Bool)
    (ends : rdbLoadString call.malloc call.file = none → result = false) (safe : ¬ call.Overflows) :
    call.InBounds result := by
  intro raw rest read
  have width := fread_length 8 call.file raw rest read
  by_cases exceeds : decode raw < requested (decode raw)
  · exact Or.inl ⟨exceeds, Nat.le_trans (stored_within call _ rest) exceeds⟩
  · have same : raw = List.replicate 8 255 := by
      by_contra other
      exact exceeds ((request_exceeds_iff raw width).mpr other)
    have top : decode raw = 2 ^ 64 - 1 := by
      rw [same]
      decide
    have nothing : requested (2 ^ 64 - 1) = 0 := rfl
    have steps : rdbLoadString call.malloc call.file =
        if call.malloc 0 then fread (2 ^ 64 - 1) rest else none := by
      simp only [rdbLoadString, read, top]
      rfl
    right
    rw [top, StringCall.stored, nothing]
    by_cases granted : call.malloc 0 = true
    · obtain rfl : rest = [] := by
        by_contra more
        exact safe ⟨rest, same ▸ read, granted, more⟩
      have short : fread (2 ^ 64 - 1) [] = none := rfl
      exact ⟨ends (by rw [steps, if_pos granted, short]), by rw [if_pos granted]; rfl⟩
    · exact ⟨ends (by rw [steps, if_neg granted]), by rw [if_neg granted]⟩

end Lengths

/-- For every file: no length prefix breaks the loader exactly when none of the strings it reads
    overflows. -/
theorem lengths_in_bounds_iff (alloc : Nat → LoadAlloc) (now : Nat) (db : Dict) (file : Bytes) :
    (∀ call ∈ loadCalls alloc now db file, call.InBounds (loadRdb alloc now db file).2) ↔
      ∀ call ∈ loadCalls alloc now db file, ¬ call.Overflows := by
  constructor
  · intro inside call made
    exact in_bounds_safe call _ (inside call made)
  · intro safe call made
    exact safe_in_bounds call _ (failed_call_fails_load alloc now db file call made) (safe call made)

section Samples

/-- A header that counts one record, and a key with the greatest length. -/
def overlong : Bytes :=
  rdbMagic ++ encode 4 1 ++ encode 8 1 ++ List.replicate 8 255 ++ ascii "k"

/-- One byte is stored in a block of none. -/
theorem overlong_overflows :
    ∃ call ∈ loadCalls (fun _ => plenty) 5 emptyServer.db overlong,
      requested (2 ^ 64 - 1) = 0 ∧ call.stored (2 ^ 64 - 1) (ascii "k") = 1 ∧
      ¬ call.InBounds (loadRdb (fun _ => plenty) 5 emptyServer.db overlong).2 := by
  refine ⟨⟨plenty.key, List.replicate 8 255 ++ ascii "k"⟩, ?_, rfl, by decide, fun inside => ?_⟩
  · exact List.mem_append_left _ List.mem_cons_self
  · have top : decode (List.replicate 8 255) = 2 ^ 64 - 1 := by decide
    rcases inside (List.replicate 8 255) (ascii "k") (by decide) with ⟨larger, -⟩ | ⟨-, none⟩
    · rw [top] at larger
      exact absurd larger (by decide)
    · rw [top] at none
      exact absurd none (by decide)

end Samples

end CrimsonCache.LoadLengths
