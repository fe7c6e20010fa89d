import CrimsonCache.WriteEffects

/-!
The live part of the database. Reads drop what has expired and nothing else,
and a handler that fails leaves the live part alone, so only the four
propagated commands can change it, and only by answering without an error.
-/

namespace CrimsonCache.LiveContents

open CString Dictionary DeadlineMap Persistence Replies Transaction Replication ServerState
  DataCommands StoredData Commands WriteEffects

/-- The bindings that are live at one reading of the clock. -/
def liveMapping (now : Nat) (db : Dict) : Mapping := sweep (expired now) (mapping db)

/-- The value that a reader gets. -/
def liveValue (now : Nat) (m : Mapping) (key : Bytes) : Option Bytes :=
  (fetch (expired now) m key).map Prod.fst

theorem expired_later (clock now expire : Nat) (passed : clock ≤ now)
    (gone : expired clock expire = true) : expired now expire = true := by
  simp only [expired, Bool.and_eq_true, decide_eq_true_eq] at gone ⊢
  exact ⟨gone.1, by omega⟩

theorem sweep_passed (clock now : Nat) (passed : clock ≤ now) (m : Mapping) :
    sweep (expired now) (sweep (expired clock) m) = sweep (expired now) m := by
  funext key
  simp only [sweep, Option.filter_filter]
  congr 1
  funext binding
  cases gone : expired clock binding.2 with
  | false => simp
  | true => simp [expired_later clock now binding.2 passed gone]

theorem settle_passed (clock now : Nat) (passed : clock ≤ now) (m : Mapping) (key : Bytes) :
    sweep (expired now) (settle (expired clock) m key) = sweep (expired now) m :=
  sweep_settle _ _ m key fun deadline => expired_later clock now deadline passed

theorem write_names : ∀ row ∈ commands,
    row.command = .set ∨ row.command = .del ∨ row.command = .expire ∨ row.command = .incr →
      isWriteCommand row.name = true := by
  decide

theorem write_direct : ∀ row ∈ commands, isWriteCommand row.name = true →
    isTxCommand row.name = false := by
  decide

section Reads

variable (now : Nat) (db : Dict) (rep : Represents db)

include rep

theorem get_live (clock : Nat) (passed : clock ≤ now) (key : Bytes) :
    liveMapping now (dictGet clock db key).1 = liveMapping now db := by
  rw [liveMapping, (mapping_get clock db rep key).1, settle_passed clock now passed]
  rfl

theorem exists_live (clock : Nat → Nat) (passed : ∀ index, clock index ≤ now) (keys : List Bytes) :
    liveMapping now (existsKeys clock keys db).1 = liveMapping now db := by
  induction keys generalizing clock db with
  | nil => rfl
  | cons key rest ih =>
      have got := get_represents (clock 0) db rep key
      simp only [existsKeys]
      rw [ih _ got _ fun index => passed (index + 1), get_live now db rep (clock 0) (passed 0)]

end Reads

section Failures

variable (env : Env) (db : Dict) (rep : Represents db)

include rep

theorem store_string_failed (reading : Nat) (key value : Bytes) (expire : Nat) (reply : Reply)
    (failed : (storeString env reading db key value expire reply).result ≠ .ok) :
    mapping (storeString env reading db key value expire reply).db = mapping db := by
  simp only [storeString] at failed ⊢
  split
  case isFalse => rfl
  case isTrue allocated =>
    simp only [allocated, ↓reduceIte] at failed
    split at failed
    case isTrue => simp at failed
    case isFalse refused =>
      simp only [refused, Bool.false_eq_true, ↓reduceIte]
      exact add_failed _ _ db rep _ _ (by simpa using refused)

theorem incr_failed (now : Nat) (passed : env.clock 0 ≤ now) (argv : List Bytes)
    (failed : (incrCommand env argv db).result ≠ .ok) :
    liveMapping now (incrCommand env argv db).db = liveMapping now db := by
  have got := get_represents (env.clock 0) db rep (arg argv 1)
  have read := get_live now db rep (env.clock 0) passed (arg argv 1)
  simp only [incrCommand] at failed ⊢
  split
  case h_1 => exact read
  case h_2 value started =>
    simp only [started] at failed
    rw [← read, liveMapping, store_string_failed env _ got _ _ _ _ _ failed]
    rfl

end Failures

/-- What a handler does to the live mapping, if it is not a write that succeeds. -/
theorem handler_live (execute : Nat → Bytes → Server → Outcome) (env : Env) (sock : Int)
    (argv : List Bytes) (server : Server) (rep : Represents server.db) (now : Nat)
    (passed : ∀ index, env.clock index ≤ now) (row : CommandDef) (member : row ∈ commands)
    (direct : row.command ≠ .exec) :
    liveMapping now (runHandler execute env sock argv server row.command).server.db =
        liveMapping now server.db ∨
      (isWriteCommand row.name = true ∧
        (runHandler execute env sock argv server row.command).result = .ok) := by
  cases kind : row.command with
  | exec => exact absurd kind direct
  | del => exact Or.inr ⟨write_names row member (by simp [kind]), rfl⟩
  | expire =>
      right
      constructor
      · exact write_names row member (by simp [kind])
      · simp only [runHandler, answered, expireCommand]
        split <;> rfl
  | set =>
      by_cases ok : (runHandler execute env sock argv server .set).result = .ok
      · exact Or.inr ⟨write_names row member (by simp [kind]), ok⟩
      · exact Or.inl (congrArg (sweep (expired now)) (store_string_failed env server.db rep _ _ _ _ _ ok))
  | incr =>
      by_cases ok : (runHandler execute env sock argv server .incr).result = .ok
      · exact Or.inr ⟨write_names row member (by simp [kind]), ok⟩
      · exact Or.inl (incr_failed env server.db rep now (passed 0) argv ok)
  | get =>
      left
      simp only [runHandler, answered, getCommand]
      split <;> exact get_live now server.db rep _ (passed 0) _
  | exist => exact Or.inl (exists_live now server.db rep env.clock passed argv.tail)
  | ttl =>
      left
      have read := get_live now server.db rep _ (passed 0) (arg argv 1)
      simp only [runHandler, answered, ttlCommand]
      split
      case h_1 after got => rwa [got] at read
      case h_2 after obj got =>
        rw [got] at read
        split
        · exact read
        · split <;> exact read
  | ping | save | bgsave | replicaof | role | replconf | multi | discard | subscribe | unsubscribe
  | publish =>
      left
      rw [(handler_untouched execute env sock argv server _ (by decide)).db rfl]

end CrimsonCache.LiveContents
