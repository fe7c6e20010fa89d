import CrimsonCache.SnapshotRecords
import CrimsonCache.SnapshotRestore

/-!
Loads that fail. The records in front of the failure have been stored by then and
are not taken back, while `main` goes on as with an empty database.
-/

namespace CrimsonCache.FailedLoad

open CString Dictionary DeadlineMap LittleEndian Persistence SnapshotRecords SnapshotRestore
  ServerRuns

/-- The last record of each key is what the map binds already. -/
def Rebinds (records : List Record) (m : Mapping) : Prop :=
  ∀ front record back, records = front ++ record :: back → record.key ∉ back.map Record.key →
    m record.key = some (record.value, record.expire)

theorem store_all_same_iff (records : List Record) (m : Mapping) :
    storeAll records m = m ↔ Rebinds records m := by
  have keys (rows : List Record) : (rows.map Record.row).map Prod.fst = rows.map Record.key := by
    simp [Record.row]
  rw [storeAll, put_all_same_iff]
  constructor
  · intro bound front record back split last
    refine bound (front.map Record.row) record.row (back.map Record.row) (by simp [split]) ?_
    rw [keys]
    exact last
  · intro bound front row back split last
    obtain ⟨before, rest, rfl, rfl, tail⟩ := List.map_eq_append_iff.mp split
    obtain ⟨record, after, rfl, rfl, rfl⟩ := List.map_eq_cons_iff.mp tail
    rw [keys] at last
    exact bound before record after rfl last

/-- A load that fails leaves the map as it was exactly when the records it stored before the
    failure were bound already. -/
theorem failed_load_keeps_iff (fopen : Bool) (alloc : Nat → LoadAlloc) (now : Nat) (db : Dict)
    (rep : Represents db) (filename : Bytes) (files : Files)
    (failed : (loadRdbFromFile fopen alloc now db filename files).2 = false) :
    mapping (loadRdbFromFile fopen alloc now db filename files).1 = mapping db ↔
      (fopen = true → ∀ file, files filename = some file →
        Rebinds (fileRecords alloc now (fun key => (mapping db key).isSome) file) (mapping db)) := by
  simp only [loadRdbFromFile] at failed ⊢
  cases found : files filename with
  | none => simp [found] at failed
  | some file =>
      cases fopen with
      | false => simp
      | true =>
          simp only [↓reduceIte, load_rdb_mapping alloc now db rep file, store_all_same_iff,
            Option.some.injEq, forall_eq', forall_const]

theorem rebinds_empty (records : List Record) : Rebinds records (fun _ => none) ↔ records = [] := by
  constructor
  · intro bound
    rcases List.eq_nil_or_concat records with rfl | ⟨front, record, split⟩
    · rfl
    · rw [List.concat_eq_append] at split
      have wrong := bound front record [] split (by simp)
      cases wrong
  · rintro rfl front record back split
    simp at split

/-- The database that `main` starts with after a failed load is empty exactly when no record was
    stored. -/
theorem failed_start_empty_iff (alloc : Nat → LoadAlloc) (now : Nat) (malloc : Bool)
    (initialSize : Nat) (fresh : Dict) (created : dictCreate malloc initialSize = some fresh)
    (filename : Bytes) (files : Files) (file : Bytes) (found : files filename = some file)
    (failed : (loadRdbFromFile true alloc now fresh filename files).2 = false) :
    (mapping (loadRdbFromFile true alloc now fresh filename files).1 = fun _ => none) ↔
      fileRecords alloc now (fun _ => false) file = [] := by
  obtain ⟨blank, unused⟩ := create_represents malloc initialSize fresh created
  have empty := mapping_empty fresh unused
  have keeps := failed_load_keeps_iff true alloc now fresh blank filename files failed
  rw [empty] at keeps
  rw [keeps]
  simp [found, rebinds_empty]

section Samples

/-- The directory with one snapshot. -/
def onDisk (file : Bytes) : Files := fun name => if name = dumpRdb then some file else none

/-- A header that counts two records, and one of them. -/
def cutShort : Bytes :=
  rdbMagic ++ encode 4 1 ++ encode 8 2 ++ (encode 8 1 ++ ascii "k") ++ encode 4 0 ++ [0] ++
    (rdbSet :: (encode 8 1 ++ ascii "v"))

theorem empty_rep : Represents emptyServer.db :=
  (reachable_wellformed emptyServer empty_reachable).sound.rep

/-- The only record has lost its last byte. -/
theorem torn_record_stores_nothing :
    mapping (loadRdbFromFile true (fun _ => plenty) 5 emptyServer.db dumpRdb
      (onDisk cutShort.dropLast)).1 = mapping emptyServer.db := by
  refine (failed_load_keeps_iff true (fun _ => plenty) 5 emptyServer.db empty_rep dumpRdb
    (onDisk cutShort.dropLast) (by decide +kernel)).mpr ?_
  rintro - file found
  obtain rfl : cutShort.dropLast = file := Option.some.inj found
  have none : fileRecords (fun _ => plenty) 5
      (fun key => (mapping emptyServer.db key).isSome) cutShort.dropLast = [] := by
    decide +kernel
  rw [none]
  intro front record back split
  simp at split

/-- The record in front of the missing one stays. -/
theorem cut_short_leaves_record :
    (loadRdbFromFile true (fun _ => plenty) 5 emptyServer.db dumpRdb (onDisk cutShort)).2 = false ∧
      mapping emptyServer.db (ascii "k") = none ∧
      mapping (loadRdbFromFile true (fun _ => plenty) 5 emptyServer.db dumpRdb
        (onDisk cutShort)).1 (ascii "k") = some (ascii "v", 0) := by
  decide +kernel

end Samples

end CrimsonCache.FailedLoad
