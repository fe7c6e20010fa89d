import CrimsonCache.ServerRuns
import CrimsonCache.SnapshotCommit

/-!
Saving the database of a running server and loading the file into an empty one.
Reachability supplies what the encoding asks of the entries; what is left is
whether the writer's clock has passed one of them.
-/

namespace CrimsonCache.SnapshotRestore

open CString Dictionary DeadlineMap Persistence Replies Connections ServerState ServerRuns StoredData

/-- No stdio call of the save fails. -/
structure Succeeds (io : SaveIo) : Prop where
  fopen : io.fopen = true
  fwrite : ∀ index, io.fwrite index = true
  fclose : io.fclose = none
  rename : io.rename = true

/-- The load reports success and binds what was saved and is live for the reader. -/
def Restores (db : Dict) (now : Nat) (loaded : Dict × Bool) : Prop :=
  loaded.2 = true ∧ mapping loaded.1 = sweep (expired now) (mapping db)

theorem save_succeeds (io : SaveIo) (succeeds : Succeeds io) (now : Nat) (db : Dict)
    (filename : Bytes) (files : Files) :
    (saveRdbToFile io now db filename files).2 = true ∧
      (saveRdbToFile io now db filename files).1 filename = some (rdbEncoding now db) := by
  have all : (fwriteAll io.fwrite 0 (saveChunks now db)).1 = true :=
    (all_written_iff io now db).mpr fun index _ => succeeds.fwrite index
  have written := fwrite_all_written _ _ _ all
  simp only [saveRdbToFile, succeeds.fopen, all, succeeds.rename, written, ↓reduceIte,
    Function.update_self, flushed_all io _ succeeds.fclose, rdbEncoding, and_self]

/-- Sweeping by the writer's clock drops nothing when nothing had expired by it. -/
theorem sweep_unexpired (db : Dict) (rep : Represents db) (saved : Nat)
    (unexpired : ∀ entry ∈ db.table.flatten, expired saved entry.val.expire = false) :
    sweep (expired saved) (mapping db) = mapping db := by
  funext key
  simp only [sweep]
  cases bound : mapping db key with
  | none => rfl
  | some value =>
      obtain ⟨entry, stored, -, rfl⟩ := (mapping_mem db rep key value).mp bound
      simp [Option.filter, binding, unexpired entry stored]

/-- The round trip holds exactly when nothing had expired at the time of the save.
    `used` is a `size_t`. -/
theorem restores_iff_unexpired (server : Server) (reachable : Reachable server)
    (counted : server.db.used < 2 ^ 64) (io : SaveIo) (succeeds : Succeeds io) (saved now : Nat)
    (filename : Bytes) (files : Files) (alloc : Nat → LoadAlloc)
    (allocates : ∀ index, (alloc index).Succeeds) (malloc : Bool) (initialSize : Nat) (fresh : Dict)
    (created : dictCreate malloc initialSize = some fresh) :
    (saveRdbToFile io saved server.db filename files).2 = true ∧
      (Restores server.db now
          (loadRdbFromFile true alloc now fresh filename
            (saveRdbToFile io saved server.db filename files).1) ↔
        ∀ entry ∈ server.db.table.flatten, expired saved entry.val.expire = false) := by
  obtain ⟨rep, storable⟩ := (reachable_wellformed server reachable).sound
  obtain ⟨blank, unused⟩ := create_represents malloc initialSize fresh created
  obtain ⟨result, content⟩ := save_succeeds io succeeds saved server.db filename files
  obtain ⟨table, success⟩ :=
    load_encoding alloc now saved server.db fresh rep storable counted allocates blank
  have contents := restored_mapping alloc now saved server.db fresh rep allocates blank unused
  constructor
  · exact result
  · simp only [Restores, loadRdbFromFile, content, ↓reduceIte, success, table, contents]
    constructor
    · exact fun both => both.1
    · intro unexpired
      -- The load's own sweep is left: the writer dropped nothing.
      rw [sweep_unexpired server.db rep saved unexpired]
      exact ⟨unexpired, rfl⟩

section Samples

/-- A machine on which nothing fails. -/
def reliable : SaveIo := ⟨true, fun _ => true, none, true⟩

def plenty : LoadAlloc := ⟨fun _ => true, fun _ => true, true, ⟨true, true, true⟩⟩

theorem lasting_entry_restores :
    Restores (storing "SET k v\r\n").db 9
      (loadRdbFromFile true (fun _ => plenty) 9 emptyServer.db dumpRdb
        (saveRdbToFile reliable 9 (storing "SET k v\r\n").db dumpRdb fun _ => none).1) := by
  have reachable := storing_reachable "SET k v\r\n" (by decide)
  have counted : (storing "SET k v\r\n").db.used < 2 ^ 64 := by decide +kernel
  have unexpired : ∀ entry ∈ (storing "SET k v\r\n").db.table.flatten,
      expired 9 entry.val.expire = false := by decide +kernel
  exact (restores_iff_unexpired _ reachable counted reliable ⟨rfl, fun _ => rfl, rfl, rfl⟩ 9 9 dumpRdb
    (fun _ => none) (fun _ => plenty)
    (fun _ => ⟨fun _ => rfl, fun _ => rfl, rfl, rfl, rfl⟩) true 1024 emptyServer.db rfl).2.mpr
    unexpired

/-- One expired entry that no sweep has removed makes the whole snapshot unreadable. -/
theorem expired_entry_breaks_snapshot :
    Reachable (storing "SET k v PX 5\r\n") ∧
      (saveRdbToFile reliable 9 (storing "SET k v PX 5\r\n").db dumpRdb fun _ => none).2 = true ∧
      ¬ Restores (storing "SET k v PX 5\r\n").db 9
        (loadRdbFromFile true (fun _ => plenty) 9 emptyServer.db dumpRdb
          (saveRdbToFile reliable 9 (storing "SET k v PX 5\r\n").db dumpRdb fun _ => none).1) := by
  have refused : (loadRdbFromFile true (fun _ => plenty) 9 emptyServer.db dumpRdb
      (saveRdbToFile reliable 9 (storing "SET k v PX 5\r\n").db dumpRdb fun _ => none).1).2 =
        false := by decide +kernel
  have saved := save_succeeds reliable ⟨rfl, fun _ => rfl, rfl, rfl⟩ 9
    (storing "SET k v PX 5\r\n").db dumpRdb fun _ => none
  refine ⟨storing_reachable _ (by decide), saved.1, fun restores => ?_⟩
  rw [restores.1] at refused
  contradiction

end Samples

end CrimsonCache.SnapshotRestore
