import CrimsonCache.LiveContents
import CrimsonCache.ServerRuns
import CrimsonCache.SnapshotRoundTrip

/-!
Where the code asks whether a key is live. GET, EXISTS and EXPIRE ask `dict_get`,
the sweep, the save and the load compare for themselves, and TTL compares once
more behind its lookup. At the deadline itself only TTL takes the key for gone.
-/

namespace CrimsonCache.LiveKeys

open CString ChainedTable Dictionary DeadlineMap Persistence Replies ServerState DataCommands
  StoredData ServerRuns WriteEffects LiveContents

/-- The places that decide about a key. -/
inductive Path where
  | get
  | exist
  | ttl
  | expire
  | sweep
  | save
  | load
  deriving DecidableEq

/-- One reading of the clock, and what the calls that are made at it need besides. -/
structure Moment where
  now : Nat
  env : Env
  clock : ∀ index, env.clock index = now
  alloc : LoadAlloc
  succeeds : alloc.Succeeds
  fresh : Dict
  created : ∃ malloc size, dictCreate malloc size = some fresh

/-- Whether a path treats the key as live. The record that is loaded is one that was
    saved before any deadline. -/
def treatsLive (moment : Moment) (db : Dict) (key seconds : Bytes) : Path → Bool
  | .get => (getCommand moment.env [ascii "get", key] db).reply ≠ .nullBulk
  | .exist => (existsCommand moment.env [ascii "exists", key] db).reply = .integer 1
  | .ttl => (ttlCommand moment.env [ascii "ttl", key] db).reply ≠ .integer (-2)
  | .expire => (expireCommand moment.env [ascii "expire", key, seconds] db).reply = .integer 1
  | .sweep => (mapping (dictClearExpired moment.now db) key).isSome
  | .save => db.table.flatten.any fun entry =>
      entry.key = key && saveEntry moment.now entry ≠ []
  | .load => db.table.flatten.any fun entry =>
      entry.key = key &&
        (mapping (loadRecord moment.alloc moment.now moment.fresh
          (saveEntry 0 entry).flatten).1 key).isSome

/-- The key is bound, and its deadline is this very millisecond. -/
def AtDeadline (now : Nat) (m : Mapping) (key : Bytes) : Prop :=
  ∃ value, m key = some (value, now) ∧ now ≠ 0

/-- The two operators differ at the deadline alone. -/
theorem boundary_differs (now : Nat) (m : Mapping) (key : Bytes) :
    (fetch (fun deadline => deadline ≠ 0 && deadline ≤ now) m key).isSome =
        (fetch (expired now) m key).isSome ↔ ¬ AtDeadline now m key := by
  unfold AtDeadline fetch
  cases bound : m key with
  | none => simp
  | some binding =>
      obtain ⟨value, deadline⟩ := binding
      simp only [Option.filter_some, expired, Option.some.injEq, Prod.mk.injEq]
      grind

section Paths

variable (moment : Moment) (db : Dict) (sound : Sound db) (key seconds : Bytes)

include sound

/-- What `dict_get` decides. -/
theorem got_live :
    (dictGet (moment.env.clock 0) db key).2.isSome =
      (fetch (expired moment.now) (mapping db) key).isSome := by
  have found := (mapping_get (moment.env.clock 0) db sound.rep key).2
  rw [moment.clock 0] at found ⊢
  rw [← found, Option.isSome_map]

theorem get_path : treatsLive moment db key seconds .get =
    (fetch (expired moment.now) (mapping db) key).isSome := by
  rw [← got_live moment db sound key]
  simp only [treatsLive, getCommand, arg]
  cases found : (dictGet (moment.env.clock 0) db key).2 with
  | none => simp [found]
  | some obj =>
      obtain ⟨entry, stored, -, rfl⟩ := get_found _ db sound key obj found
      simp [found, touch, (sound.storable entry stored).type]

theorem exists_path : treatsLive moment db key seconds .exist =
    (fetch (expired moment.now) (mapping db) key).isSome := by
  rw [← got_live moment db sound key]
  simp only [treatsLive, existsCommand, List.tail_cons, existsKeys]
  cases (dictGet (moment.env.clock 0) db key).2 <;> simp

theorem expire_path : treatsLive moment db key seconds .expire =
    (fetch (expired moment.now) (mapping db) key).isSome := by
  rw [← got_live moment db sound key]
  simp only [treatsLive, expireCommand, arg]
  rcases got : dictGet (moment.env.clock 0) db key with ⟨after, obj⟩
  cases obj <;> simp [got]

/-- TTL asks `dict_get` and then, with another operator, once more. -/
theorem ttl_path : treatsLive moment db key seconds .ttl =
    (fetch (fun deadline => deadline ≠ 0 && deadline ≤ moment.now) (mapping db) key).isSome := by
  have found := (mapping_get (moment.env.clock 0) db sound.rep key).2
  simp only [treatsLive, ttlCommand, arg, List.getD_cons_succ, List.getD_cons_zero]
  rcases got : dictGet (moment.env.clock 0) db key with ⟨after, obj⟩
  rw [got, moment.clock 0] at found
  cases bound : mapping db key with
  | none =>
      have absent : obj = none := by simpa [fetch, bound] using found
      simp [absent, fetch, bound]
  | some binding =>
      obtain ⟨value, deadline⟩ := binding
      cases gone : expired moment.now deadline with
      | true =>
          have absent : obj = none := by simpa [fetch, bound, Option.filter, gone] using found
          have past : deadline ≠ 0 ∧ deadline < moment.now := by simpa [expired] using gone
          simp [absent, fetch, bound, Option.filter, past.1, past.2.le]
      | false =>
          obtain ⟨answered, present, same⟩ : ∃ answered, obj = some answered ∧
              (answered.ptr, answered.expire) = (value, deadline) := by
            simpa [fetch, bound, Option.filter, gone] using found
          have kept : answered.expire = deadline := congrArg Prod.snd same
          by_cases permanent : deadline = 0
          · simp [present, fetch, bound, Option.filter, kept, permanent]
          · by_cases passed : deadline ≤ moment.now
            · simp [present, fetch, bound, Option.filter, kept, permanent, passed, moment.clock 1]
            · simp [present, fetch, bound, Option.filter, kept, permanent, passed, moment.clock 1]
              omega

theorem sweep_path : treatsLive moment db key seconds .sweep =
    (fetch (expired moment.now) (mapping db) key).isSome := by
  simp only [treatsLive, mapping_clear_expired moment.now db sound.rep]
  rfl

/-- A stored entry with the key is the one that is bound. -/
theorem any_entry (keep : DictEntry → Bool) :
    db.table.flatten.any (fun entry => entry.key = key && keep entry) =
      (lookup DictEntry.key key db.table.flatten).any keep := by
  rw [Bool.eq_iff_iff, List.any_eq_true, Option.any_eq_true]
  constructor
  · rintro ⟨entry, stored, holds⟩
    obtain ⟨hit, kept⟩ := Bool.and_eq_true_iff.mp holds
    exact ⟨entry, (lookup_some _ _ _ _ sound.rep.valid.unique).mpr ⟨stored, of_decide_eq_true hit⟩,
      kept⟩
  · rintro ⟨entry, found, kept⟩
    exact ⟨entry, lookup_mem _ _ _ _ found, by simp [lookup_key _ _ _ _ found, kept]⟩

/-- A path that decides by the entry alone. -/
theorem entry_path (keep : DictEntry → Bool)
    (decides : ∀ entry ∈ db.table.flatten, entry.key = key → keep entry = live moment.now entry) :
    db.table.flatten.any (fun entry => entry.key = key && keep entry) =
      (fetch (expired moment.now) (mapping db) key).isSome := by
  rw [any_entry db sound key keep]
  cases found : lookup DictEntry.key key db.table.flatten with
  | none => simp [fetch, mapping, found]
  | some entry =>
      have kept := decides entry (lookup_mem _ _ _ _ found) (lookup_key _ _ _ _ found)
      have bound : mapping db key = some (binding entry) := by simp [mapping, found]
      cases gone : expired moment.now entry.val.expire <;>
        simp [kept, fetch, bound, binding, live, gone, Option.filter]

theorem save_path : treatsLive moment db key seconds .save =
    (fetch (expired moment.now) (mapping db) key).isSome := by
  refine entry_path moment db sound key (fun entry => saveEntry moment.now entry ≠ []) ?_
  intro entry stored _
  have written := save_entry_bytes moment.now entry (sound.storable entry stored)
  cases kept : live moment.now entry with
  | true =>
      have some : saveEntry moment.now entry ≠ [] := by
        intro empty
        simp [kept, empty, recordBytes, expireBytes] at written
      simpa using some
  | false =>
      have gone : expired moment.now entry.val.expire = true := by simpa [live] using kept
      simp [saveEntry, gone]

/-- A record is written whole before its deadline. -/
theorem record_written (entry : DictEntry) (stored : entry ∈ db.table.flatten) :
    (saveEntry 0 entry).flatten = recordBytes entry := by
  rw [save_entry_bytes 0 entry (sound.storable entry stored)]
  simp [live, expired]

theorem load_path : treatsLive moment db key seconds .load =
    (fetch (expired moment.now) (mapping db) key).isSome := by
  obtain ⟨malloc, size, made⟩ := moment.created
  obtain ⟨rep, empty⟩ := create_represents malloc size moment.fresh made
  obtain ⟨-, -, -, entryOk, keyOk⟩ := moment.succeeds
  refine entry_path moment db sound key (fun entry => (mapping (loadRecord moment.alloc moment.now
    moment.fresh (saveEntry 0 entry).flatten).1 key).isSome) ?_
  intro entry stored same
  have loaded := load_record_bytes moment.alloc moment.now moment.fresh entry []
    (sound.storable entry stored) moment.succeeds rep
  rw [List.append_nil] at loaded
  rw [record_written db sound entry stored, loaded]
  cases live moment.now entry with
  | true =>
      have bound := (mapping_add moment.alloc.dict moment.now moment.fresh rep entry.key
        (restored moment.now entry) entryOk keyOk).1
      rw [same] at bound
      simp only [↓reduceIte, same, bound, put_same, Option.isSome_some]
  | false => simp [mapping_empty moment.fresh empty]

end Paths

/-- Seven paths and two operators: at the deadline itself, and only there, the paths
    fall apart. -/
theorem paths_agree (server : Server) (reachable : Reachable server) (moment : Moment)
    (key seconds : Bytes) :
    (∀ path other, treatsLive moment server.db key seconds path =
        treatsLive moment server.db key seconds other) ↔
      ¬ AtDeadline moment.now (mapping server.db) key := by
  have sound := (reachable_wellformed server reachable).sound
  have common (path : Path) (apart : path ≠ .ttl) :
      treatsLive moment server.db key seconds path =
        (fetch (expired moment.now) (mapping server.db) key).isSome := by
    cases path with
    | get => exact get_path moment server.db sound key seconds
    | exist => exact exists_path moment server.db sound key seconds
    | ttl => exact absurd rfl apart
    | expire => exact expire_path moment server.db sound key seconds
    | sweep => exact sweep_path moment server.db sound key seconds
    | save => exact save_path moment server.db sound key seconds
    | load => exact load_path moment server.db sound key seconds
  have strict := ttl_path moment server.db sound key seconds
  have boundary := boundary_differs moment.now (mapping server.db) key
  constructor
  · intro agree
    have same := agree .ttl .get
    rw [strict, common .get (by decide)] at same
    exact boundary.mp same
  · intro inside
    have same := boundary.mpr inside
    rw [← strict] at same
    have one (path : Path) : treatsLive moment server.db key seconds path =
        (fetch (expired moment.now) (mapping server.db) key).isSome := by
      by_cases only : path = .ttl
      · rw [only, same]
      · exact common path only
    intro path other
    rw [one path, one other]

section Samples

/-- A calm reading of the clock at five milliseconds. -/
def atFive : Moment where
  now := 5
  env := calm 5 []
  clock := fun _ => rfl
  alloc := ⟨fun _ => true, fun _ => true, true, ⟨true, true, true⟩⟩
  succeeds := ⟨fun _ => rfl, fun _ => rfl, rfl, rfl, rfl⟩
  fresh := ⟨ChainedTable.empty 4, 4, 0, 3, 0, 0⟩
  created := ⟨true, 4, rfl⟩

theorem later_deadline_agrees :
    treatsLive atFive (storing "SET k v PX 6\r\n").db (ascii "k") (ascii "1") .ttl =
      treatsLive atFive (storing "SET k v PX 6\r\n").db (ascii "k") (ascii "1") .get :=
  (paths_agree _ (storing_reachable _ (by decide)) atFive (ascii "k") (ascii "1")).mpr
    (by
      rintro ⟨value, bound, -⟩
      have stored : mapping (storing "SET k v PX 6\r\n").db (ascii "k") = some (ascii "v", 6) := by
        decide +kernel
      simp [stored, atFive] at bound) .ttl .get

/-- At the deadline GET answers the value and TTL that there is no key. -/
theorem deadline_splits_paths :
    Reachable (storing "SET k v PX 5\r\n") ∧
      treatsLive atFive (storing "SET k v PX 5\r\n").db (ascii "k") (ascii "1") .get = true ∧
      treatsLive atFive (storing "SET k v PX 5\r\n").db (ascii "k") (ascii "1") .ttl = false :=
  ⟨storing_reachable _ (by decide), by decide +kernel, by decide +kernel⟩

end Samples

end CrimsonCache.LiveKeys
