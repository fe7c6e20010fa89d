import CrimsonCache.DataCommands
import CrimsonCache.SnapshotRoundTrip
import CrimsonCache.Tokenizer

/-!
What every stored entry satisfies whatever commands ran: the table represents a
map and its keys and values are strings a client could have sent.
-/

namespace CrimsonCache.StoredData

open CString ChainedTable DeadlineMap Dictionary Persistence Replies Tokenizer ServerState
  DataCommands

/-- A NUL-free string whose length fits an `int`. -/
structure Plain (text : Bytes) : Prop where
  free : 0 ∉ text
  short : text.length < 2 ^ 31

structure Sound (db : Dict) : Prop where
  rep : Represents db
  storable : ∀ entry ∈ db.table.flatten, Storable entry

section Strings

theorem plain_nil : Plain [] := ⟨by simp, by simp⟩

theorem plain_arg (argv : List Bytes) (plain : ∀ token ∈ argv, Plain token) (index : Nat) :
    Plain (arg argv index) := by
  unfold arg
  rw [List.getD_eq_getElem?_getD]
  cases found : argv[index]? with
  | none => exact plain_nil
  | some token => exact plain token (List.mem_of_getElem? found)

/-- The bytes a state of the scanner has collected. -/
def collected : ScanState → Bytes
  | .skipping => []
  | .token start => start
  | .quoted _ start => start

/-- A token consists of bytes of the input in their order. -/
theorem scan_sublist (state : ScanState) (input token : Bytes) (member : token ∈ scan state input) :
    token.Sublist (collected state ++ input) := by
  -- One case a branch of `scan`; a byte that is skipped is dropped from the front.
  fun_induction scan state input with
  | case1 => simp at member
  | case2 c rest blank ih => exact (ih member).cons c
  | case3 rest blank ih => exact (ih member).cons quote
  | case4 c rest blank plain ih => exact ih member
  | case5 start =>
      rw [List.mem_singleton] at member
      simp [member, collected]
  | case6 start c rest blank ih =>
      rcases List.mem_cons.mp member with rfl | later
      · exact List.sublist_append_left _ _
      · exact ((ih later).cons c).trans (List.sublist_append_right start _)
  | case7 start c rest solid ih => simpa [collected] using ih member
  | case8 => simp at member
  | case9 prev start c rest closing ih =>
      rcases List.mem_cons.mp member with rfl | later
      · exact List.sublist_append_left _ _
      · exact ((ih later).cons c).trans (List.sublist_append_right start _)
  | case10 prev start c rest inside ih => simpa [collected] using ih member

theorem tokens_plain (input : Bytes) (plain : Plain input) : ∀ token ∈ tokens input, Plain token := by
  intro token member
  rw [tokens_scan] at member
  have sub := scan_sublist .skipping input token member
  exact ⟨fun zero => plain.free (sub.subset zero), lt_of_le_of_lt sub.length_le plain.short⟩

theorem lower_byte (c : UInt8) (nonzero : c ≠ 0) : tolower c ≠ 0 := by
  unfold tolower
  grind

theorem plain_lower (token : Bytes) (plain : Plain token) : Plain (token.map tolower) := by
  constructor
  · intro zero
    obtain ⟨c, member, same⟩ := List.mem_map.mp zero
    exact lower_byte c (fun wrong => plain.free (wrong ▸ member)) same
  · simpa using plain.short

theorem decimal_nul_free (n : Nat) : 0 ∉ decimal n := by
  unfold decimal
  split
  · simp
  · intro member
    obtain ⟨digit, inside, same⟩ := List.mem_map.mp member
    have small := Nat.digits_lt_base (by decide : 1 < 10) (List.mem_reverse.mp inside)
    have nonzero : ∀ digit < 10, UInt8.ofNat (48 + digit) ≠ 0 := by decide
    exact nonzero digit small same

theorem decimal_int_nul_free (n : Int) : 0 ∉ decimalInt n := by
  unfold decimalInt
  split
  · rw [List.mem_cons]
    rintro (wrong | member)
    · exact absurd wrong (by decide)
    · exact decimal_nul_free _ member
  · exact decimal_nul_free _

end Strings

section Operations

theorem create_sound (alloc : Bool) (initialSize : Nat) (db : Dict)
    (created : dictCreate alloc initialSize = some db) : Sound db := by
  obtain ⟨rep, fresh⟩ := create_represents alloc initialSize db created
  exact ⟨rep, by simp [fresh]⟩

/-- The entries of an edited chain are those of the table or new. -/
theorem edited_storable (db : Dict) (sound : Sound db) (key : Bytes)
    (change : List DictEntry → List DictEntry)
    (stores : (∀ entry ∈ chain db.table (place db.mask key), Storable entry) →
      ∀ entry ∈ change (chain db.table (place db.mask key)), Storable entry) :
    ∀ entry ∈ (update db.table (place db.mask key) change).flatten, Storable entry := by
  obtain ⟨before, after, whole, edited⟩ :=
    flatten_update db.table (place db.mask key) (sound.rep.inRange key) change
  have old := sound.storable
  rw [whole] at old
  rw [edited]
  intro entry member
  simp only [List.mem_append] at member old
  rcases member with (first | middle) | last
  · exact old entry (Or.inl (Or.inl first))
  · exact stores (fun entry inside => old entry (Or.inl (Or.inr inside))) entry middle
  · exact old entry (Or.inr last)

theorem delete_sound (db : Dict) (sound : Sound db) (key : Bytes) :
    Sound (dictDelete db key).1 := by
  constructor
  · exact delete_represents db sound.rep key
  · simp only [dictDelete]
    split
    · exact sound.storable
    · exact edited_storable db sound key _ fun old entry member =>
        old entry ((unlink_sublist _ _ _).subset member)

theorem update_obj_sound (db : Dict) (sound : Sound db) (key : Bytes) (change : CcObj → CcObj)
    (keeps : ∀ entry, Storable entry → Storable (setVal change entry)) :
    Sound (updateObj db key change) := by
  constructor
  · exact update_obj_represents db sound.rep key change
  · apply edited_storable db sound key
    intro old entry member
    rcases mem_overwrite _ _ _ _ _ member with kept | ⟨first, inside, -, rfl⟩
    · exact old entry kept
    · exact keeps first (old first inside)

theorem touch_storable (now : Nat) (entry : DictEntry) (storable : Storable entry) :
    Storable (setVal (touch now) entry) :=
  ⟨storable.key, storable.keyLength, storable.ptr, storable.ptrLength, storable.type,
    storable.expire⟩

theorem get_sound (now : Nat) (db : Dict) (sound : Sound db) (key : Bytes) :
    Sound (dictGet now db key).1 := by
  simp only [dictGet]
  split
  · exact sound
  · split
    · exact delete_sound db sound key
    · exact update_obj_sound db sound key (touch now) (touch_storable now)

/-- What a lookup returns is the object of a stored entry. -/
theorem get_found (now : Nat) (db : Dict) (sound : Sound db) (key : Bytes) (obj : CcObj)
    (found : (dictGet now db key).2 = some obj) :
    ∃ entry ∈ db.table.flatten, entry.key = key ∧ obj = touch now entry.val := by
  simp only [dictGet, sound.rep.search key] at found
  cases stored : lookup DictEntry.key key db.table.flatten with
  | none => simp [stored] at found
  | some entry =>
      simp only [stored] at found
      split at found
      · simp at found
      · exact ⟨entry, lookup_mem _ _ _ _ stored, lookup_key _ _ _ _ stored,
          (Option.some.inj found).symm⟩

theorem resize_sound (alloc : Bool) (db : Dict) (sound : Sound db) :
    Sound (dictResize alloc db) :=
  ⟨resize_represents alloc db sound.rep, fun entry member =>
    sound.storable entry ((resize_entries alloc db sound.rep entry).mp member)⟩

theorem add_entry_sound (alloc : DictAlloc) (now : Nat) (db : Dict) (sound : Sound db)
    (key : Bytes) (val : CcObj) (storable : Storable ⟨key, { val with lastAccess := now }⟩) :
    Sound (addEntry alloc now db key val).1 := by
  constructor
  · exact add_entry_represents alloc now db sound.rep key val
  · simp only [addEntry]
    split
    case h_1 =>
      rw [no_eviction _ (by exact sound.rep.unlimited)]
      apply edited_storable db sound key
      intro old entry member
      rcases mem_overwrite _ _ _ _ _ member with kept | ⟨first, -, same, rfl⟩
      · exact old entry kept
      · rw [← same] at storable
        exact storable
    case h_2 =>
      split
      · rw [no_eviction _ (by exact sound.rep.unlimited)]
        apply edited_storable db sound key
        intro old entry member
        rcases List.mem_cons.mp member with rfl | kept
        · exact storable
        · exact old entry kept
      · exact sound.storable

theorem add_sound (alloc : DictAlloc) (now : Nat) (db : Dict) (sound : Sound db) (key : Bytes)
    (val : CcObj) (storable : Storable ⟨key, { val with lastAccess := now }⟩) :
    Sound (dictAdd alloc now db key val).1 := by
  unfold dictAdd
  split
  · exact add_entry_sound alloc now _ (resize_sound alloc.table db sound) key val storable
  · exact add_entry_sound alloc now db sound key val storable

theorem clear_expired_sound (now : Nat) (db : Dict) (sound : Sound db) :
    Sound (dictClearExpired now db) := by
  constructor
  · exact clear_expired_represents now db sound.rep
  · rw [clear_expired_table, flatten_filter]
    exact fun entry member => sound.storable entry (List.mem_of_mem_filter member)

end Operations

section Handlers

variable (env : Env) (argv : List Bytes) (plain : ∀ token ∈ argv, Plain token)

theorem store_string_sound (reading : Nat) (db : Dict) (sound : Sound db) (key value : Bytes)
    (expire : Nat) (reply : Reply) (plainKey : Plain key) (plainValue : Plain value)
    (bound : expire < 2 ^ 64) :
    Sound (storeString env reading db key value expire reply).db := by
  have added := add_sound env.dict (env.clock (reading + 1)) db sound key
    ⟨value, .string, expire, value.length + 1, env.clock reading⟩
    ⟨plainKey.free, plainKey.short, plainValue.free, plainValue.short, rfl, bound⟩
  simp only [storeString]
  split
  · split <;> exact added
  · exact sound

theorem set_expire_bound : setExpire env argv < 2 ^ 64 := by
  unfold setExpire
  split
  · split
    · exact wrap64_lt _
    · split
      · exact wrap64_lt _
      · exact Nat.two_pow_pos 64
  · exact Nat.two_pow_pos 64

include plain

theorem set_sound (db : Dict) (sound : Sound db) : Sound (setCommand env argv db).db :=
  store_string_sound env 1 db sound _ _ _ _ (plain_arg argv plain 1) (plain_arg argv plain 2)
    (set_expire_bound env argv)

omit plain in
theorem get_command_sound (db : Dict) (sound : Sound db) : Sound (getCommand env argv db).db := by
  have got := get_sound (env.clock 0) db sound (arg argv 1)
  simp only [getCommand]
  split <;> exact got

omit plain in
theorem delete_keys_sound (keys : List Bytes) (db : Dict) (sound : Sound db) :
    Sound (deleteKeys keys db).1 := by
  induction keys generalizing db with
  | nil => exact sound
  | cons key rest ih => exact ih _ (delete_sound db sound key)

omit plain in
theorem exists_keys_sound (clock : Nat → Nat) (keys : List Bytes) (db : Dict) (sound : Sound db) :
    Sound (existsKeys clock keys db).1 := by
  induction keys generalizing clock db with
  | nil => exact sound
  | cons key rest ih => exact ih _ _ (get_sound (clock 0) db sound key)

omit plain in
theorem expire_sound (db : Dict) (sound : Sound db) : Sound (expireCommand env argv db).db := by
  have got := get_sound (env.clock 0) db sound (arg argv 1)
  simp only [expireCommand]
  split
  case h_1 same =>
    rw [same] at got
    exact got
  case h_2 same =>
    rw [same] at got
    exact update_obj_sound _ got _ _ fun entry storable =>
      ⟨storable.key, storable.keyLength, storable.ptr, storable.ptrLength, storable.type,
        wrap64_lt _⟩

omit plain in
theorem ttl_sound (db : Dict) (sound : Sound db) : Sound (ttlCommand env argv db).db := by
  have got := get_sound (env.clock 0) db sound (arg argv 1)
  simp only [ttlCommand]
  split
  case h_1 same =>
    rw [same] at got
    exact got
  case h_2 same =>
    rw [same] at got
    split
    · exact got
    · split <;> exact got

theorem incr_sound (db : Dict) (sound : Sound db) : Sound (incrCommand env argv db).db := by
  have got := get_sound (env.clock 0) db sound (arg argv 1)
  simp only [incrCommand]
  split
  · exact got
  case h_2 value _ =>
    apply store_string_sound env 1 _ got _ _ _ _ (plain_arg argv plain 1)
    · constructor
      · exact fun zero => decimal_int_nul_free _ (List.mem_of_mem_take zero)
      · have cut := List.length_take_le (32 - 1) (decimalInt (Int.bmod (value + 1) (2 ^ 64)))
        simp only [snprintf]
        omega
    -- INCR keeps the deadline it found, which was stored before.
    · cases found : (dictGet (env.clock 0) db (arg argv 1)).2 with
      | none => exact Nat.two_pow_pos 64
      | some obj =>
          obtain ⟨entry, member, -, rfl⟩ := get_found _ db sound _ _ found
          exact (sound.storable entry member).expire

end Handlers

end CrimsonCache.StoredData
