import Mathlib.Data.List.TakeDrop
import CrimsonCache.Persistence

/-!
When a save publishes what it wrote. The temporary file is renamed over the
snapshot as soon as every `fwrite` reported success, whatever `fclose` says, so
the snapshot is safe exactly while a lossy flush never meets a rename.
-/

namespace CrimsonCache.Persistence

open CString Dictionary

theorem fwrite_all_true (ok : Nat → Bool) (index : Nat) (chunks : List Bytes) :
    (fwriteAll ok index chunks).1 = true ↔
      ∀ offset, offset < chunks.length → ok (index + offset) = true := by
  -- The call at `index + offset` writes the chunk at `offset` of the rest.
  induction chunks generalizing index with
  | nil => simp [fwriteAll]
  | cons chunk rest ih =>
      simp only [fwriteAll, List.length_cons]
      split
      case isTrue first =>
        simp only [ih]
        constructor
        · intro tail offset bound
          cases offset with
          | zero => exact first
          | succ offset =>
              have later := tail offset (by omega)
              rwa [show index + (offset + 1) = index + 1 + offset by omega]
        · intro all offset bound
          have later := all (offset + 1) (by omega)
          rwa [show index + 1 + offset = index + (offset + 1) by omega]
      case isFalse first =>
        constructor
        · intro wrong
          simp at wrong
        · intro all
          exact absurd (all 0 (by omega)) first

theorem fwrite_all_written (ok : Nat → Bool) (index : Nat) (chunks : List Bytes)
    (all : (fwriteAll ok index chunks).1 = true) :
    (fwriteAll ok index chunks).2 = chunks.flatten := by
  induction chunks generalizing index with
  | nil => rfl
  | cons chunk rest ih =>
      simp only [fwriteAll] at all ⊢
      split at all
      case isTrue first =>
        rw [if_pos first]
        simp [ih (index + 1) all]
      case isFalse => simp at all

/-- After the save the snapshot is either untouched or complete, and the result
    says which. -/
def SaveSafe (io : SaveIo) (now : Nat) (db : Dict) (files : Files) : Prop :=
  let saved := saveRdbToFile io now db dumpRdb files
  (saved.2 = false ∧ saved.1 dumpRdb = files dumpRdb) ∨
    (saved.2 = true ∧ saved.1 dumpRdb = some (rdbEncoding now db))

/-- Every `fwrite` succeeds. -/
def AllWritten (io : SaveIo) (now : Nat) (db : Dict) : Prop :=
  ∀ index, index < (saveChunks now db).length → io.fwrite index = true

/-- `fclose` reports a failed flush that lost part of the encoding. -/
def FlushLost (io : SaveIo) (now : Nat) (db : Dict) : Prop :=
  ∃ kept, io.fclose = some kept ∧ kept < (rdbEncoding now db).length

theorem all_written_iff (io : SaveIo) (now : Nat) (db : Dict) :
    (fwriteAll io.fwrite 0 (saveChunks now db)).1 = true ↔ AllWritten io now db := by
  simp [fwrite_all_true, AllWritten]

theorem temp_apart : dumpRdb ≠ tempFilename dumpRdb := by decide

/-- Whatever happens to the temporary file, the snapshot does not see it. -/
theorem temp_untouched (files : Files) (content : Option Bytes) :
    Function.update files (tempFilename dumpRdb) content dumpRdb = files dumpRdb :=
  Function.update_of_ne temp_apart content files

/-- What the save did, in the terms of its four kinds of outcome. -/
theorem save_outcome (io : SaveIo) (now : Nat) (db : Dict) (files : Files) :
    let saved := saveRdbToFile io now db dumpRdb files
    (io.fopen = true ∧ AllWritten io now db ∧ io.rename = true ∧ saved.2 = true ∧
        saved.1 dumpRdb = some (flushed io (rdbEncoding now db))) ∨
      (¬ (io.fopen = true ∧ AllWritten io now db ∧ io.rename = true) ∧ saved.2 = false ∧
        saved.1 dumpRdb = files dumpRdb) := by
  simp only [saveRdbToFile]
  split
  -- A temporary file that cannot be opened ends the save before anything happens.
  case isFalse closed => exact Or.inr ⟨fun all => closed all.1, rfl, rfl⟩
  case isTrue opened =>
    split
    case isFalse cut =>
      refine Or.inr ⟨fun all => cut ((all_written_iff io now db).mpr all.2.1), rfl, ?_⟩
      simp only [temp_untouched]
    case isTrue all =>
      have written := fwrite_all_written _ _ _ all
      split
      case isFalse kept =>
        refine Or.inr ⟨fun wrong => kept wrong.2.2, rfl, ?_⟩
        simp only [temp_untouched]
      case isTrue renamed =>
        refine Or.inl ⟨opened, (all_written_iff io now db).mp all, renamed, rfl, ?_⟩
        simp only [Function.update_self, written, rdbEncoding]

theorem flushed_all (io : SaveIo) (written : Bytes) (closed : io.fclose = none) :
    flushed io written = written := by
  simp [flushed, closed]

theorem flushed_part (io : SaveIo) (written : Bytes) (kept : Nat)
    (closed : io.fclose = some kept) : flushed io written = written.take kept := by
  simp [flushed, closed]

/-- The file is complete exactly when the flush lost nothing. -/
theorem flushed_complete (io : SaveIo) (now : Nat) (db : Dict) :
    flushed io (rdbEncoding now db) = rdbEncoding now db ↔ ¬ FlushLost io now db := by
  cases closed : io.fclose with
  | none => simp [flushed_all io _ closed, FlushLost, closed]
  | some kept =>
      rw [flushed_part io _ kept closed]
      simp [FlushLost, closed, List.take_eq_self_iff]

/-- A save is safe unless it renames a file whose last flush lost bytes. -/
theorem save_safe_iff (io : SaveIo) (now : Nat) (db : Dict) (files : Files) :
    SaveSafe io now db files ↔
      ¬ (io.fopen = true ∧ AllWritten io now db ∧ io.rename = true ∧ FlushLost io now db) := by
  rcases save_outcome io now db files with
    ⟨opened, all, renamed, result, content⟩ | ⟨stopped, result, content⟩
  · simp only [SaveSafe, result, content, Bool.true_eq_false, false_and, false_or, true_and,
      opened, all, renamed, Option.some.injEq]
    exact flushed_complete io now db
  · simp only [SaveSafe, result, content, and_self, true_or, true_iff]
    exact fun all => stopped ⟨all.1, all.2.1, all.2.2.1⟩

/-- A full disk found at `fclose`: the only good snapshot becomes an empty file. -/
def fullDisk : SaveIo :=
  { fopen := true, fwrite := fun _ => true, fclose := some 0, rename := true }

theorem full_disk_destroys :
    ∃ db, dictCreate true 1024 = some db ∧
      ¬ SaveSafe fullDisk 0 db (fun name => if name = dumpRdb then some rdbMagic else none) := by
  refine ⟨_, rfl, ?_⟩
  simp only [SaveSafe]
  decide +kernel

end CrimsonCache.Persistence
