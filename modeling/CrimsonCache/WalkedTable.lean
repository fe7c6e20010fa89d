import CrimsonCache.Library.TableWalk
import CrimsonCache.LiveContents

/-!
What the writes do to the order of the table, on which a walk over it depends.
Only DEL and a lookup that finds its key expired take a key out, and only
growing the table moves keys; everything else leaves the chains in order.
-/

namespace CrimsonCache.WalkedTable

open CString Dictionary ChainedTable DeadlineMap TableWalk Replies ServerState DataCommands StoredData
  Commands WriteEffects LiveContents

/-- The entries stay where they are, in order, except for those of some keys. -/
structure Ordered (gone : List Bytes) (before after : Dict) : Prop where
  mask : after.mask = before.mask
  keeps : Keeps DictEntry.key gone before.table after.table

theorem ordered_refl (db : Dict) : Ordered [] db db := ⟨rfl, Keeps.refl db.table⟩

theorem Ordered.trans {first second : List Bytes} {before middle after : Dict}
    (early : Ordered first before middle) (late : Ordered second middle after) :
    Ordered (first ++ second) before after :=
  ⟨late.mask.trans early.mask, early.keeps.trans late.keeps⟩

/-- The table after `dict_add` has made room. -/
def grown (alloc : DictAlloc) (db : Dict) : Dict :=
  if db.used ≥ db.size then dictResize alloc.table db else db

section Operations

theorem delete_ordered (db : Dict) (key : Bytes) : Ordered [key] db (dictDelete db key).1 := by
  simp only [dictDelete]
  split
  · exact ⟨rfl, fun index => List.filter_sublist⟩
  · exact ⟨rfl, keeps_unlink db.table _ key⟩

theorem delete_keys_ordered (keys : List Bytes) (db : Dict) :
    Ordered keys db (deleteKeys keys db).1 := by
  induction keys generalizing db with
  | nil => exact ordered_refl db
  | cons key rest ih =>
      simp only [deleteKeys]
      exact (delete_ordered db key).trans (ih _)

theorem update_obj_ordered (db : Dict) (key : Bytes) (change : CcObj → CcObj) :
    Ordered [] db (updateObj db key change) :=
  ⟨rfl, keeps_overwrite db.table _ key _ (set_val_key change key)⟩

/-- A lookup that finds nothing expired, as the map shows it. -/
theorem get_live_cases (now : Nat) (db : Dict) (rep : Represents db) (key : Bytes)
    (live : (mapping db key).any (fun binding => expired now binding.2) = false) :
    (dictGet now db key).1 = db ∨ (dictGet now db key).1 = updateObj db key (touch now) := by
  simp only [dictGet, rep.search key]
  cases found : lookup DictEntry.key key db.table.flatten with
  | none => exact Or.inl rfl
  | some entry =>
      have alive : expired now entry.val.expire = false := by
        simpa [mapping, found, binding] using live
      simp [alive]

theorem get_ordered (now : Nat) (db : Dict) (rep : Represents db) (key : Bytes)
    (live : (mapping db key).any (fun binding => expired now binding.2) = false) :
    Ordered [] db (dictGet now db key).1 := by
  rcases get_live_cases now db rep key live with same | same
  · rw [same]
    exact ordered_refl db
  · rw [same]
    exact update_obj_ordered db key (touch now)

theorem update_obj_keys (db : Dict) (rep : Represents db) (key : Bytes) (change : CcObj → CcObj) :
    (updateObj db key change).table.flatten.map DictEntry.key = db.table.flatten.map DictEntry.key := by
  obtain ⟨before, after, old, new⟩ := flatten_update db.table (place db.mask key) (rep.inRange key)
    (overwrite DictEntry.key key (setVal change))
  simp only [updateObj, new, old, List.map_append,
    overwrite_keys DictEntry.key key _ (set_val_key change key)]

/-- What a write through an object leaves of the order is what it leaves of it in the grown table. -/
theorem update_obj_grown (alloc : DictAlloc) (db : Dict) (rep : Represents db) (key : Bytes)
    (change : CcObj → CcObj) : Ordered [] (grown alloc db) (grown alloc (updateObj db key change)) := by
  have used : (updateObj db key change).used = db.used := rfl
  have size : (updateObj db key change).size = db.size := rfl
  simp only [grown, used, size, dictResize]
  split
  · split
    · constructor
      · rfl
      · intro index
        have double := Nat.mul_pos rep.size_pos Nat.two_pos
        rw [foldl_relink, foldl_relink, relink_keys (place (db.size * 2 - 1)) DictEntry.key (db.size * 2)
          (fun other => place_lt _ other double) _ _ (update_obj_keys db rep key change).symm index]
        exact List.filter_sublist
    · exact update_obj_ordered db key change
  · exact update_obj_ordered db key change

theorem get_grown (alloc : DictAlloc) (now : Nat) (db : Dict) (rep : Represents db) (key : Bytes)
    (live : (mapping db key).any (fun binding => expired now binding.2) = false) :
    Ordered [] (grown alloc db) (grown alloc (dictGet now db key).1) := by
  rcases get_live_cases now db rep key live with same | same
  · rw [same]
    exact ordered_refl (grown alloc db)
  · rw [same]
    exact update_obj_grown alloc db rep key (touch now)

theorem add_ordered (alloc : DictAlloc) (now : Nat) (db : Dict) (rep : Represents db) (key : Bytes)
    (val : CcObj) : Ordered [] (grown alloc db) (dictAdd alloc now db key val).1 := by
  have wide : Represents (grown alloc db) := grow_represents alloc.table db rep
  have direct : dictAdd alloc now db key val = addEntry alloc now (grown alloc db) key val := rfl
  rw [direct]
  generalize grown alloc db = db at wide
  simp only [addEntry]
  split
  · rw [no_eviction _ (by exact wide.unlimited)]
    exact ⟨rfl, keeps_overwrite db.table _ key _ (set_val_key _ key)⟩
  · split
    · rw [no_eviction _ (by exact wide.unlimited)]
      exact ⟨rfl, keeps_prepend db.table _ _⟩
    · exact ordered_refl db

end Operations

section Handlers

/-- The keys that a write takes out, if it finds none expired. -/
def removed (argv : List Bytes) : Command → List Bytes
  | .del => argv.tail
  | _ => []

/-- A write that looks its key up finds it expired. -/
def findsExpired (env : Env) (argv : List Bytes) (m : Mapping) : Command → Bool
  | .expire => (m (arg argv 1)).any fun binding => expired (env.clock 0) binding.2
  | .incr => (m (arg argv 1)).any fun binding => expired (env.clock 0) binding.2
  | _ => false

theorem store_string_ordered (env : Env) (reading : Nat) (db : Dict) (rep : Represents db)
    (key value : Bytes) (expire : Nat) (reply : Reply) :
    Ordered [] db (storeString env reading db key value expire reply).db ∨
      Ordered [] (grown env.dict db) (storeString env reading db key value expire reply).db := by
  simp only [storeString]
  split
  · right
    split <;> exact add_ordered env.dict _ db rep key _
  · exact Or.inl (ordered_refl db)

theorem incr_ordered (env : Env) (argv : List Bytes) (db : Dict) (rep : Represents db)
    (live : findsExpired env argv (mapping db) .incr = false) :
    Ordered [] db (incrCommand env argv db).db ∨
      Ordered [] (grown env.dict db) (incrCommand env argv db).db := by
  have got := get_represents (env.clock 0) db rep (arg argv 1)
  have first := get_ordered (env.clock 0) db rep (arg argv 1) live
  have wide := get_grown env.dict (env.clock 0) db rep (arg argv 1) live
  simp only [incrCommand]
  split
  · exact Or.inl first
  · rcases store_string_ordered env 1 _ got (arg argv 1) _ _ _ with small | large
    · exact Or.inl (first.trans small)
    · exact Or.inr (wide.trans large)

/-- A write takes out what it removes; one that stores may have grown the table before. -/
theorem write_ordered (execute : Nat → Bytes → Server → Outcome) (env : Env) (sock : Int)
    (argv : List Bytes) (server : Server) (rep : Represents server.db) (row : CommandDef)
    (member : row ∈ commands) (write : isWriteCommand row.name = true)
    (live : findsExpired env argv (mapping server.db) row.command = false) :
    Ordered (removed argv row.command) server.db
        (runHandler execute env sock argv server row.command).server.db ∨
      (row.command = .set ∨ row.command = .incr) ∧ Ordered [] (grown env.dict server.db)
        (runHandler execute env sock argv server row.command).server.db := by
  rcases write_rows row member write with same | same | same | same
  · rw [same]
    rcases store_string_ordered env 1 server.db rep (arg argv 1) (arg argv 2) (setExpire env argv)
      (.string (ascii "OK")) with small | large
    · exact Or.inl small
    · exact Or.inr ⟨Or.inl rfl, large⟩
  · rw [same]
    exact Or.inl (delete_keys_ordered argv.tail server.db)
  · rw [same] at live ⊢
    have first := get_ordered (env.clock 0) server.db rep (arg argv 1) live
    left
    simp only [runHandler, answered, expireCommand, removed]
    split
    case h_1 after got => rwa [got] at first
    case h_2 after obj got =>
      rw [got] at first
      exact first.trans (update_obj_ordered after (arg argv 1) _)
  · rw [same] at live ⊢
    rcases incr_ordered env argv server.db rep live with small | large
    · exact Or.inl small
    · exact Or.inr ⟨Or.inr rfl, large⟩

end Handlers

end CrimsonCache.WalkedTable
