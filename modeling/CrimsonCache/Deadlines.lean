import CrimsonCache.LiveContents
import CrimsonCache.Numerals
import CrimsonCache.ServerRuns

/-!
The deadlines that SET with EX or PX and EXPIRE give a key. The count is any
`long long`; the product, the sum and the `uint64_t` that holds it wrap, and
zero stands for no deadline. What a client can ask for is kept exactly where
the unbounded sum fits, and by accident where it wraps into the past.
-/

namespace CrimsonCache.Deadlines

open CString Dictionary DeadlineMap Replies ServerState DataCommands StoredData ServerRuns
  WriteEffects LiveContents Numerals

/-- The three requests that give a key a deadline. -/
inductive Timed where
  | ex
  | px
  | expire
  deriving DecidableEq

/-- Milliseconds one count stands for. -/
def Timed.perCount : Timed → Int
  | .ex => 1000
  | .px => 1
  | .expire => 1000

/-- The request as a client writes it; EXPIRE leaves the value as it is. -/
def Timed.answer (timed : Timed) (env : Env) (db : Dict) (key value : Bytes) (count : Int) : Answer :=
  match timed with
  | .ex => setCommand env [ascii "set", key, value, ascii "EX", decimalInt count] db
  | .px => setCommand env [ascii "set", key, value, ascii "PX", decimalInt count] db
  | .expire => expireCommand env [ascii "expire", key, decimalInt count] db

def Timed.accepts : Timed → Reply
  | .ex => .string (ascii "OK")
  | .px => .string (ascii "OK")
  | .expire => .integer 1

/-- The deadline in unbounded arithmetic. -/
def Timed.deadline (timed : Timed) (now : Nat) (count : Int) : Int := now + timed.perCount * count

/-- A call that only reads, at some time up to `later`. -/
def Quiet (later : Nat) : DictCall → Prop
  | .get now _ => now ≤ later
  | .clearExpired now => now ≤ later
  | .resize _ => True
  | .add .. => False
  | .delete _ => False

/-- Whatever lookups and sweeps come in between, GET returns the value up to the deadline and
    not after it, and the key is not permanent. -/
def Exact (now : Nat) (deadline : Int) (db : Dict) (key value : Bytes) : Prop :=
  (∀ calls env later, (∀ c ∈ calls, Quiet later c) → (∀ index, env.clock index = later) →
    now ≤ later → later < 2 ^ 64 →
      ((getCommand env [ascii "get", key] (runCalls call db calls).1).reply = .bulk value ↔
        (later : Int) ≤ deadline)) ∧
    (mapping db key).map Prod.snd ≠ some 0

/-- The sum fits a `uint64_t` and is not the sentinel; or it is negative and wraps to a time
    before the request; or it is too large and wraps to the last millisecond there is. -/
def Kept (now : Nat) (deadline : Int) : Prop :=
  (0 < deadline ∧ deadline < 2 ^ 64) ∨
    (deadline < 0 ∧ 0 < deadline % 2 ^ 64 ∧ deadline % 2 ^ 64 < now) ∨
    (2 ^ 64 ≤ deadline ∧ deadline % 2 ^ 64 = 2 ^ 64 - 1)

instance (now : Nat) (deadline : Int) : Decidable (Kept now deadline) :=
  inferInstanceAs (Decidable (_ ∨ _))

section Arithmetic

/-- Which deadlines the stored number keeps, for every reading of the clock from the request on. -/
theorem stored_deadline_iff (now : Nat) (real : now < 2 ^ 64) (deadline : Int) :
    ((∀ later, now ≤ later → later < 2 ^ 64 →
        (expired later (wrap64 deadline) = false ↔ (later : Int) ≤ deadline)) ∧
      wrap64 deadline ≠ 0) ↔ Kept now deadline := by
  have alive (later : Nat) : expired later (wrap64 deadline) = false ↔
      wrap64 deadline = 0 ∨ later ≤ wrap64 deadline := by
    simp only [expired, Bool.and_eq_false_iff, decide_eq_false_iff_not, not_not, not_lt]
  simp only [alive]
  have bound := wrap64_lt deadline
  have same : (wrap64 deadline : Int) = deadline % 2 ^ 64 := by
    simp only [wrap64]
    omega
  generalize wrap64 deadline = stored at bound same ⊢
  unfold Kept
  constructor
  · rintro ⟨exact, lasting⟩
    rcases lt_trichotomy deadline 0 with negative | zero | positive
    · -- A deadline in the past must not come back: it is asked at the request itself.
      have gone := exact now (Nat.le_refl now) real
      refine Or.inr (Or.inl ⟨negative, by omega, ?_⟩)
      by_contra late
      have wrong := gone.mp (Or.inr (by omega))
      omega
    · omega
    · by_cases fits : deadline < 2 ^ 64
      · exact Or.inl ⟨positive, fits⟩
      · -- A deadline beyond all readings must never pass: it is asked at the last of them.
        have last := (exact (2 ^ 64 - 1) (by omega) (by omega)).mpr (by omega)
        exact Or.inr (Or.inr ⟨by omega, by omega⟩)
  · intro kept
    refine ⟨fun later since reading => ?_, by omega⟩
    rcases kept with ⟨positive, fits⟩ | ⟨negative, nonzero, early⟩ | ⟨large, last⟩
    · omega
    · omega
    · omega

end Arithmetic

section Reads

/-- Reads keep the stored data sound and drop nothing that is live later. -/
theorem quiet_reads (later : Nat) (calls : List DictCall) (quiet : ∀ c ∈ calls, Quiet later c)
    (db : Dict) (sound : Sound db) :
    Sound (runCalls call db calls).1 ∧
      liveMapping later (runCalls call db calls).1 = liveMapping later db := by
  induction calls generalizing db with
  | nil => exact ⟨sound, rfl⟩
  | cons first rest ih =>
      have one : Sound (call db first).1 ∧ liveMapping later (call db first).1 = liveMapping later db := by
        have allowed := quiet first List.mem_cons_self
        cases first with
        | get now key =>
            exact ⟨get_sound now db sound key, get_live later db sound.rep now allowed key⟩
        | clearExpired now =>
            refine ⟨clear_expired_sound now db sound, ?_⟩
            simp only [liveMapping, call, mapping_clear_expired now db sound.rep]
            exact sweep_passed now later allowed _
        | resize alloc =>
            refine ⟨resize_sound alloc db sound, ?_⟩
            simp only [liveMapping, call, resize_mapping alloc db sound.rep]
        | add alloc now key val => exact allowed.elim
        | delete key => exact allowed.elim
      obtain ⟨kept, live⟩ := ih (fun c member => quiet c (List.mem_cons_of_mem first member)) _ one.1
      exact ⟨kept, live.trans one.2⟩

theorem get_reply (env : Env) (later : Nat) (clock : ∀ index, env.clock index = later) (db : Dict)
    (sound : Sound db) (name key value : Bytes) :
    (getCommand env [name, key] db).reply = .bulk value ↔
      (liveMapping later db key).map Prod.fst = some value := by
  have found := (mapping_get (env.clock 0) db sound.rep key).2
  have same : liveMapping later db key = fetch (expired later) (mapping db) key := rfl
  rw [same, ← clock 0, ← found, Option.map_map]
  simp only [getCommand, arg, List.getD_cons_succ, List.getD_cons_zero]
  cases got : (dictGet (env.clock 0) db key).2 with
  | none => simp
  | some obj =>
      obtain ⟨entry, stored, -, rfl⟩ := get_found _ db sound key obj got
      simp [touch, (sound.storable entry stored).type]

/-- A key bound to one value: the readers' answers are those of the stored deadline. -/
theorem exact_iff_stored (now : Nat) (real : now < 2 ^ 64) (deadline : Int) (db : Dict)
    (sound : Sound db) (key value : Bytes)
    (bound : mapping db key = some (value, wrap64 deadline)) :
    Exact now deadline db key value ↔ Kept now deadline := by
  have answers (calls : List DictCall) (env : Env) (later : Nat)
      (quiet : ∀ c ∈ calls, Quiet later c) (clock : ∀ index, env.clock index = later) :
      (getCommand env [ascii "get", key] (runCalls call db calls).1).reply = .bulk value ↔
        expired later (wrap64 deadline) = false := by
    obtain ⟨kept, live⟩ := quiet_reads later calls quiet db sound
    rw [get_reply env later clock _ kept, live, liveMapping, sweep, bound]
    cases gone : expired later (wrap64 deadline) <;> simp [Option.filter, gone]
  rw [← stored_deadline_iff now real deadline, Exact, bound]
  constructor
  · rintro ⟨exact, lasting⟩
    refine ⟨fun later since reading => ?_, by simpa using lasting⟩
    rw [← answers [] (calm later []) later (by simp) fun _ => rfl]
    exact exact [] (calm later []) later (by simp) (fun _ => rfl) since reading
  · rintro ⟨exact, lasting⟩
    refine ⟨fun calls env later quiet clock since reading => ?_, by simpa using lasting⟩
    rw [answers calls env later quiet clock]
    exact exact later since reading

end Reads

section Requests

variable (env : Env) (now : Nat) (clock : ∀ index, env.clock index = now) (key value : Bytes)
  (count : Int) (least : -2 ^ 63 ≤ count) (most : count < 2 ^ 63)

include clock least most

theorem set_ex_deadline :
    setExpire env [ascii "set", key, value, ascii "EX", decimalInt count] =
      wrap64 (now + 1000 * count) := by
  have option : strcaseeq (ascii "EX") (ascii "EX") = true := by decide
  simp only [setExpire, arg, List.length_cons, List.length_nil, List.getD_cons_succ,
    List.getD_cons_zero, option, clock 0, atoll_decimal_int count least most]
  simp [wrap64_product, Int.mul_comm]

theorem set_px_deadline :
    setExpire env [ascii "set", key, value, ascii "PX", decimalInt count] =
      wrap64 (now + 1 * count) := by
  have seconds : strcaseeq (ascii "PX") (ascii "EX") = false := by decide
  have option : strcaseeq (ascii "PX") (ascii "PX") = true := by decide
  simp only [setExpire, arg, List.length_cons, List.length_nil, List.getD_cons_succ,
    List.getD_cons_zero, seconds, option, clock 0, atoll_decimal_int count least most]
  simp

/-- An accepted request leaves the key bound to its value and the wrapped deadline. -/
theorem accepted_binding (timed : Timed) (db : Dict) (sound : Sound db)
    (present : timed = .expire → ∃ deadline, mapping db key = some (value, deadline))
    (accepted : (timed.answer env db key value count).reply = timed.accepts) :
    mapping (timed.answer env db key value count).db key =
      some (value, wrap64 (timed.deadline now count)) := by
  have stored (expire : Nat) (ok : (storeString env 1 db key value expire
      (.string (ascii "OK"))).reply = .string (ascii "OK")) :
      mapping (storeString env 1 db key value expire (.string (ascii "OK"))).db key =
        some (value, expire) := by
    have result : (storeString env 1 db key value expire (.string (ascii "OK"))).result = .ok := by
      simp only [storeString] at ok ⊢
      grind
    rw [store_string_mapping env db sound 1 key value expire _ result, put_same]
  cases timed with
  | ex =>
      refine (stored _ accepted).trans ?_
      rw [set_ex_deadline env now clock key value count least most]
      rfl
  | px =>
      refine (stored _ accepted).trans ?_
      rw [set_px_deadline env now clock key value count least most]
      rfl
  | expire =>
      obtain ⟨deadline, before⟩ := present rfl
      have answer := (mapping_get (env.clock 0) db sound.rep key).2
      simp only [Timed.answer, Timed.deadline, Timed.perCount]
      rw [expire_mapping env _ db sound]
      simp only [Timed.answer, Timed.accepts, expireCommand, arg, List.getD_cons_succ,
        List.getD_cons_zero] at accepted
      rcases got : dictGet (env.clock 0) db key with ⟨after, obj⟩
      cases obj with
      | none => simp [got] at accepted
      | some obj =>
          -- The lookup that accepted the request read the value that was bound before.
          rw [got] at answer
          obtain ⟨-, held⟩ := settle_live _ _ _ _ answer.symm
          have text : obj.ptr = value := by
            rw [held] at before
            exact congrArg Prod.fst (Option.some.inj before)
          simp only [Option.map_some] at answer
          simp only [expireMap, arg, List.getD_cons_succ, List.getD_cons_zero, ← answer, put_same,
            clock 1, atol_decimal_int count least most, wrap64_product, Int.mul_comm count, text]

omit clock least most in
theorem answer_sound (timed : Timed) (db : Dict) (sound : Sound db) (plainKey : Plain key)
    (plainValue : Plain value) : Sound (timed.answer env db key value count).db := by
  cases timed with
  | ex =>
      exact store_string_sound env 1 db sound key value _ _ plainKey plainValue
        (set_expire_bound env _)
  | px =>
      exact store_string_sound env 1 db sound key value _ _ plainKey plainValue
        (set_expire_bound env _)
  | expire => exact expire_sound env _ db sound

end Requests

/-- For every accepted count: the deadline that was asked for is kept exactly where the sum
    behaves. -/
theorem accepted_deadline_exact (server : Server) (reachable : Reachable server) (timed : Timed)
    (env : Env) (now : Nat) (clock : ∀ index, env.clock index = now) (real : now < 2 ^ 64)
    (key value : Bytes) (plainKey : Plain key) (plainValue : Plain value) (count : Int)
    (least : -2 ^ 63 ≤ count) (most : count < 2 ^ 63)
    (present : timed = .expire → ∃ deadline, mapping server.db key = some (value, deadline))
    (accepted : (timed.answer env server.db key value count).reply = timed.accepts) :
    Exact now (timed.deadline now count) (timed.answer env server.db key value count).db key value ↔
      Kept now (timed.deadline now count) := by
  have sound := (reachable_wellformed server reachable).sound
  exact exact_iff_stored now real _ _
    (answer_sound env key value count timed server.db sound plainKey plainValue)
    key value (accepted_binding env now clock key value count least most timed server.db sound present
      accepted)

section Samples

theorem plain_key : Plain (ascii "k") := ⟨by decide, by decide⟩

theorem plain_value : Plain (ascii "v") := ⟨by decide, by decide⟩

theorem one_second_is_exact :
    Exact 5 1005 (Timed.ex.answer (calm 5 []) emptyServer.db (ascii "k") (ascii "v") 1).db
      (ascii "k") (ascii "v") :=
  (accepted_deadline_exact emptyServer empty_reachable .ex (calm 5 []) 5 (fun _ => rfl) (by decide)
    (ascii "k") (ascii "v") plain_key plain_value 1 (by decide) (by decide) (by simp)
    (by decide +kernel)).mpr (Or.inl ⟨by decide, by decide⟩)

/-- A deadline some five hundred million years ahead is in the past as soon as it is set. -/
theorem distant_deadline_is_past :
    Reachable emptyServer ∧
      (Timed.ex.answer (calm 1700000000000 []) emptyServer.db (ascii "k") (ascii "v")
        18446744073709551).reply = .string (ascii "OK") ∧
      ¬ Exact 1700000000000 (Timed.ex.deadline 1700000000000 18446744073709551)
        (Timed.ex.answer (calm 1700000000000 []) emptyServer.db (ascii "k") (ascii "v")
          18446744073709551).db (ascii "k") (ascii "v") := by
  refine ⟨empty_reachable, by decide +kernel, fun ⟨exact, _⟩ => ?_⟩
  have returned := (exact [] (calm 1700000000000 []) 1700000000000 (by simp) (fun _ => rfl)
    (Nat.le_refl _) (by decide)).mpr (by decide)
  have lost : (getCommand (calm 1700000000000 []) [ascii "get", ascii "k"]
      (Timed.ex.answer (calm 1700000000000 []) emptyServer.db (ascii "k") (ascii "v")
        18446744073709551).db).reply = .nullBulk := by
    decide +kernel
  simp only [runCalls] at returned
  rw [lost] at returned
  simp at returned

end Samples

end CrimsonCache.Deadlines
