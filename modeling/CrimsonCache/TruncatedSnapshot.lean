import CrimsonCache.SnapshotRestore

/-!
Cut snapshots. Every field of the format says where it ends, so what a load reads
it reads the same with more of the file behind it. A load of the whole snapshot
stands at the end marker when its records are through, one byte from the end, and
no cut is both in front of the end and behind that byte.
-/

namespace CrimsonCache.TruncatedSnapshot

open CString Dictionary DeadlineMap LittleEndian Persistence StepParsers SnapshotRecords
  SnapshotRestore ServerState StoredData ServerRuns

section Fields

theorem fread_stable (count : Nat) : Stable (fread count) := by
  intro file value rest more read
  simp only [fread, takeExact] at read ⊢
  split at read
  case isFalse => cases read
  case isTrue enough =>
    obtain ⟨rfl, rfl⟩ := Prod.mk.inj (Option.some.inj read)
    rw [if_pos (by rw [List.length_append]; omega), List.take_append_of_le_length enough,
      List.drop_append_of_le_length enough]

/-- A length, then the memory, then that many bytes. -/
theorem load_string_steps (malloc : Nat → Bool) :
    rdbLoadString malloc =
      andThen (fread 8) fun raw =>
        if malloc ((decode raw + 1) % 2 ^ 64) then
          if decode raw > 0 then fread (decode raw) else fun file => some ([], file)
        else fun _ => none := by
  funext file
  simp only [rdbLoadString, andThen]
  cases fread 8 file with
  | none => rfl
  | some taken =>
      simp only [Option.bind_some]
      split
      · split
        · rfl
        · rfl
      · rfl

theorem load_string_stable (malloc : Nat → Bool) : Stable (rdbLoadString malloc) := by
  rw [load_string_steps]
  refine and_then_stable _ _ (fread_stable 8) fun raw => ?_
  split
  · split
    · exact fread_stable _
    · exact pure_stable _
  · exact fail_stable

theorem load_expire_stable (hasExpiry : Bool) : Stable (loadExpire hasExpiry) := by
  intro file value rest more read
  cases hasExpiry with
  | false =>
      simp only [loadExpire, Bool.false_eq_true, ↓reduceIte, Option.some.injEq] at read ⊢
      cases read
      rfl
  | true =>
      simp only [loadExpire, ↓reduceIte, Option.map_eq_some_iff] at read ⊢
      obtain ⟨⟨raw, left⟩, taken, same⟩ := read
      cases same
      exact ⟨(raw, left ++ more), fread_stable 8 file raw left more taken, rfl⟩

theorem read_value_stable (alloc : LoadAlloc) (key : Bytes) (expire : Nat) :
    Stable (readValue alloc key expire) := by
  refine and_then_stable _ _ (fread_stable 1) fun cmd => ?_
  split
  · refine and_then_stable _ _ (load_string_stable alloc.val) fun val => ?_
    split
    · exact pure_stable _
    · exact fail_stable
  · exact fail_stable

theorem pass_value_stable (alloc : LoadAlloc) : Stable (passValue alloc) := by
  refine and_then_stable _ _ (fread_stable 1) fun cmd => ?_
  split
  · exact and_then_stable _ _ (load_string_stable alloc.val) fun _ => pure_stable _
  · exact pure_stable _

theorem read_record_stable (alloc : LoadAlloc) (now : Nat) : Stable (readRecord alloc now) := by
  refine and_then_stable _ _ (load_string_stable alloc.key) fun key => ?_
  refine and_then_stable _ _ (fread_stable 4) fun _ => ?_
  refine and_then_stable _ _ (fread_stable 1) fun flag => ?_
  refine and_then_stable _ _ (load_expire_stable _) fun expire => ?_
  split
  · exact and_then_stable _ _ (pass_value_stable alloc) fun _ => pure_stable _
  · exact and_then_stable _ _ (read_value_stable alloc key expire) fun _ => pure_stable _

theorem read_header_stable : Stable readHeader := by
  refine and_then_stable _ _ (fread_stable 4) fun magic => ?_
  split
  · refine and_then_stable _ _ (fread_stable 4) fun version => ?_
    split
    · exact and_then_stable _ _ (fread_stable 8) fun count => pure_stable _
    · exact fail_stable
  · exact fail_stable

end Fields

section Memory

/-- An allocator that has memory left. -/
def ample : LoadAlloc := ⟨fun _ => true, fun _ => true, true, ⟨true, true, true⟩⟩

theorem ample_succeeds : ample.Succeeds := ⟨fun _ => rfl, fun _ => rfl, rfl, rfl, rfl⟩

theorem load_string_refines (malloc : Nat → Bool) :
    Refines (rdbLoadString malloc) (rdbLoadString fun _ => true) := by
  rw [load_string_steps, load_string_steps]
  refine and_then_refines _ _ _ _ (refines_refl _) fun raw => ?_
  split
  · rw [if_pos rfl]
    exact refines_refl _
  · exact fail_refines _

/-- A record that is read is read the same when no allocation fails. -/
theorem read_record_refines (alloc : LoadAlloc) (now : Nat) :
    Refines (readRecord alloc now) (readRecord ample now) := by
  have value (key : Bytes) (expire : Nat) :
      Refines (readValue alloc key expire) (readValue ample key expire) := by
    refine and_then_refines _ _ _ _ (refines_refl _) fun cmd => ?_
    split
    · refine and_then_refines _ _ _ _ (load_string_refines alloc.val) fun val => ?_
      split
      · exact refines_refl _
      · exact fail_refines _
    · exact fail_refines _
  have passed : Refines (passValue alloc) (passValue ample) := by
    refine and_then_refines _ _ _ _ (refines_refl _) fun cmd => ?_
    split
    · exact and_then_refines _ _ _ _ (load_string_refines alloc.val) fun _ => refines_refl _
    · exact refines_refl _
  refine and_then_refines _ _ _ _ (load_string_refines alloc.key) fun key => ?_
  refine and_then_refines _ _ _ _ (refines_refl _) fun _ => ?_
  refine and_then_refines _ _ _ _ (refines_refl _) fun flag => ?_
  refine and_then_refines _ _ _ _ (refines_refl _) fun expire => ?_
  split
  · exact and_then_refines _ _ _ _ passed fun _ => refines_refl _
  · exact and_then_refines _ _ _ _ (value key expire) fun _ => refines_refl _

end Memory

section Entries

/-- What is left of a file behind a record is what the reader of the record leaves. -/
theorem load_record_rest (alloc : LoadAlloc) (now : Nat) (db after : Dict) (file rest : Bytes)
    (loaded : loadRecord alloc now db file = (after, some rest)) :
    ∃ record, readRecord alloc now file = some (record, rest) := by
  rw [load_record_read] at loaded
  cases read : readRecord alloc now file with
  | none => simp [read] at loaded
  | some taken =>
      obtain ⟨record, left⟩ := taken
      cases record with
      | none =>
          simp only [read, Prod.mk.injEq, Option.some.injEq] at loaded
          exact ⟨none, by rw [loaded.2]⟩
      | some record =>
          simp only [read, Prod.mk.injEq] at loaded
          split at loaded
          case isFalse => cases loaded.2
          case isTrue => exact ⟨some record, by rw [Option.some.inj loaded.2]⟩

theorem load_record_stable (alloc : LoadAlloc) (now : Nat) (db after : Dict) (file rest more : Bytes)
    (loaded : loadRecord alloc now db file = (after, some rest)) :
    loadRecord alloc now db (file ++ more) = (after, some (rest ++ more)) := by
  obtain ⟨record, read⟩ := load_record_rest alloc now db after file rest loaded
  have longer := read_record_stable alloc now file record rest more read
  rw [load_record_read, read] at loaded
  rw [load_record_read, longer]
  cases record with
  | none =>
      obtain rfl := (Prod.mk.inj loaded).1
      rfl
  | some record =>
      simp only [Prod.mk.injEq] at loaded ⊢
      obtain ⟨same, ended⟩ := loaded
      split at ended
      case isFalse => cases ended
      case isTrue added => exact ⟨same, by rw [if_pos added]⟩

theorem load_entries_stable (now count : Nat) (alloc : Nat → LoadAlloc) (db after : Dict)
    (file rest more : Bytes) (loaded : loadEntries now count alloc db file = (after, some rest)) :
    loadEntries now count alloc db (file ++ more) = (after, some (rest ++ more)) := by
  induction count generalizing alloc db file with
  | zero =>
      obtain ⟨rfl, same⟩ := Prod.mk.inj loaded
      obtain rfl := Option.some.inj same
      rfl
  | succ count ih =>
      simp only [loadEntries] at loaded ⊢
      rcases first : loadRecord (alloc 0) now db file with ⟨next, left⟩
      rw [first] at loaded
      cases left with
      | none => simp at loaded
      | some left =>
          rw [load_record_stable (alloc 0) now db next file left more first]
          exact ih _ next left loaded

/-- A record that the writer wrote is read to its end. -/
theorem read_record_left (alloc : LoadAlloc) (now : Nat) (entry : DictEntry) (rest left : Bytes)
    (storable : Storable entry) (record : Option Record)
    (read : readRecord alloc now (recordBytes entry ++ rest) = some (record, left)) : left = rest := by
  have same := read_record_refines alloc now _ _ read
  rw [read_record_bytes ample now entry rest storable ample_succeeds] at same
  exact (Prod.mk.inj (Option.some.inj same)).2.symm

/-- A load that gets through as many records as were written, and more that were only counted, has
    met them behind the written ones. -/
theorem load_entries_written (now : Nat) (rows : List DictEntry)
    (storable : ∀ entry ∈ rows, Storable entry) (count : Nat) (alloc : Nat → LoadAlloc) (db after : Dict)
    (rest left : Bytes)
    (loaded : loadEntries now (rows.length + count) alloc db (rows.flatMap recordBytes ++ rest) =
      (after, some left)) :
    ∃ alloc' db', loadEntries now count alloc' db' rest = (after, some left) := by
  induction rows generalizing alloc db with
  | nil =>
      rw [List.length_nil, Nat.zero_add] at loaded
      exact ⟨alloc, db, loaded⟩
  | cons entry tail ih =>
      have stored := storable entry List.mem_cons_self
      rw [show (entry :: tail).length + count = (tail.length + count) + 1 by simp; omega] at loaded
      simp only [loadEntries, List.flatMap_cons, List.append_assoc] at loaded
      rcases first : loadRecord (alloc 0) now db
        (recordBytes entry ++ (tail.flatMap recordBytes ++ rest)) with ⟨next, behind⟩
      rw [first] at loaded
      cases behind with
      | none => simp at loaded
      | some behind =>
          obtain ⟨record, read⟩ := load_record_rest (alloc 0) now db next _ behind first
          obtain rfl := read_record_left (alloc 0) now entry _ behind stored record read
          exact ih (fun other member => storable other (List.mem_cons_of_mem entry member)) _ next loaded

/-- The end marker is too short for a record. -/
theorem marker_no_record (now count : Nat) (alloc : Nat → LoadAlloc) (db after : Dict) (left : Bytes)
    (loaded : loadEntries now count alloc db [rdbEnd] = (after, some left)) : left = [rdbEnd] := by
  cases count with
  | zero => exact (Option.some.inj (Prod.mk.inj loaded).2).symm
  | succ count =>
      have short : rdbLoadString (alloc 0).key [rdbEnd] = none := by
        simp [rdbLoadString, fread, takeExact]
      simp [loadEntries, loadRecord, short] at loaded

end Entries

section Snapshot

/-- A load of what is in front of a cut fails. -/
theorem cut_encoding_fails (saved : Nat) (db : Dict) (rep : Represents db)
    (storable : ∀ entry ∈ db.table.flatten, Storable entry) (fits : db.used < 2 ^ 64)
    (front back : Bytes) (split : rdbEncoding saved db = front ++ back) (cut : back ≠ [])
    (alloc : Nat → LoadAlloc) (now : Nat) (target : Dict) :
    (loadRdb alloc now target front).2 = false := by
  have shorter := List.length_filter_le (live saved) db.table.flatten
  obtain ⟨skipped, total⟩ := Nat.exists_eq_add_of_le shorter
  rw [← rep.used] at total
  rw [encoding_bytes saved db storable] at split
  have header := header_read db.used fits
    ((db.table.flatten.filter (live saved)).flatMap recordBytes ++ [rdbEnd])
  rw [split] at header
  rw [load_rdb_header]
  cases begun : readHeader front with
  | none => rfl
  | some taken =>
      obtain ⟨count, body⟩ := taken
      have longer := read_header_stable front count body back begun
      rw [longer] at header
      obtain ⟨counted, records⟩ := Prod.mk.inj (Option.some.inj header)
      dsimp only
      rcases loaded : loadEntries now count alloc target body with ⟨after, left⟩
      cases left with
      | none => rfl
      | some left =>
          have through := load_entries_stable now count alloc target after body left back loaded
          rw [records, counted, total] at through
          obtain ⟨alloc', db', met⟩ := load_entries_written now _
            (fun entry member => storable entry (List.mem_filter.mp member).1) skipped alloc target
            after [rdbEnd] (left ++ back) through
          have last := marker_no_record now skipped alloc' db' after (left ++ back) met
          -- Something follows the cut, so nothing is left in front of it.
          have length := congrArg List.length last
          rw [List.length_append, List.length_singleton] at length
          have some : 0 < back.length := List.length_pos_of_ne_nil cut
          have empty : left = [] := List.length_eq_zero_iff.mp (by omega)
          rw [empty]
          rfl

/-- The file of a save that reports success is the encoding as far as the flush went. -/
theorem saved_content (io : SaveIo) (saved : Nat) (db : Dict) (filename : Bytes) (files : Files)
    (done : (saveRdbToFile io saved db filename files).2 = true) (content : Bytes)
    (found : (saveRdbToFile io saved db filename files).1 filename = some content) :
    content <+: rdbEncoding saved db := by
  simp only [saveRdbToFile] at done found
  split at done
  case isFalse => cases done
  case isTrue opened =>
    simp only [opened, ↓reduceIte] at found
    split at done
    case isFalse => cases done
    case isTrue all =>
      simp only [all, ↓reduceIte] at found
      split at done
      case isFalse => cases done
      case isTrue renamed =>
        simp only [renamed, ↓reduceIte, Function.update_self, Option.some.injEq,
          fwrite_all_written _ _ _ all] at found
        rw [← found, flushed]
        split
        · exact List.prefix_rfl
        · exact List.take_prefix _ _

/-- No strict prefix of a saved snapshot is loaded with success. `used` is a `size_t`. -/
theorem truncation_detected (server : Server) (reachable : Reachable server)
    (counted : server.db.used < 2 ^ 64) (io : SaveIo) (saved : Nat) (filename : Bytes) (files : Files)
    (done : (saveRdbToFile io saved server.db filename files).2 = true) (content : Bytes)
    (found : (saveRdbToFile io saved server.db filename files).1 filename = some content) (cut : Nat)
    (strict : cut < content.length) (fopen : Bool) (alloc : Nat → LoadAlloc) (now : Nat) (target : Dict)
    (name : Bytes) (damaged : Files) (truncated : damaged name = some (content.take cut)) :
    (loadRdbFromFile fopen alloc now target name damaged).2 = false := by
  obtain ⟨rep, storable⟩ := (reachable_wellformed server reachable).sound
  obtain ⟨lost, whole⟩ := saved_content io saved server.db filename files done content found
  have split : rdbEncoding saved server.db = content.take cut ++ (content.drop cut ++ lost) := by
    rw [← List.append_assoc, List.take_append_drop, whole]
  have some : content.drop cut ++ lost ≠ [] := by
    intro empty
    have none := (List.append_eq_nil_iff.mp empty).1
    rw [List.drop_eq_nil_iff] at none
    omega
  simp only [loadRdbFromFile, truncated]
  cases fopen with
  | false => rfl
  | true => exact cut_encoding_fails saved server.db rep storable counted _ _ split some alloc now target

/-- The end marker is missing. -/
theorem missing_marker_detected :
    (loadRdbFromFile true (fun _ => plenty) 9 emptyServer.db dumpRdb (fun name =>
      if name = dumpRdb then some ((rdbEncoding 9 (storing "SET k v\r\n").db).take 40) else none)).2 =
      false :=
  truncation_detected _ (storing_reachable "SET k v\r\n" (by decide)) (by decide +kernel) reliable 9
    dumpRdb (fun _ => none)
    (save_succeeds reliable ⟨rfl, fun _ => rfl, rfl, rfl⟩ 9 _ dumpRdb fun _ => none).1
    (rdbEncoding 9 (storing "SET k v\r\n").db)
    (save_succeeds reliable ⟨rfl, fun _ => rfl, rfl, rfl⟩ 9 _ dumpRdb fun _ => none).2 40
    (by decide +kernel) true (fun _ => plenty) 9 emptyServer.db dumpRdb _ rfl

end Snapshot

end CrimsonCache.TruncatedSnapshot
