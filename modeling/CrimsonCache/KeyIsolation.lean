import CrimsonCache.Keyspace
import CrimsonCache.Library.Footprints

/-!
Commands touch the keys they name and no others, and what they reply depends on
those keys alone. Clients that keep to keys of their own get the replies that
they would get if they were by themselves.
-/

namespace CrimsonCache.KeyIsolation

open CString Dictionary DeadlineMap Persistence Replies Transaction Tokenizer ServerState DataCommands
  Commands WriteEffects AppliedWrites Connections ServerRuns Keyspace Runs Footprints

section Footprint

def handlerKeys (argv : List Bytes) : Command → List Bytes
  | .set | .get | .expire | .ttl | .incr => [arg argv 1]
  | .del | .exist => argv.tail
  | _ => []

/-- The keys that a command names. -/
def keysOf (words : List Bytes) : List Bytes :=
  match commands.find? (·.name = arg (lower words) 0) with
  | none => []
  | some row => if wrongArity row words.length then [] else handlerKeys (lower words) row.command

/-- The callers of one party, with the sweeps. -/
def belongs (party : Int → Bool) : KeyStep → Bool
  | .call _ sock _ => party sock
  | .sweep _ => true

end Footprint

section Locality

variable {region : Bytes → Prop}

theorem put_local (left right : Mapping) (agree : Agree region left right) (key value : Bytes)
    (deadline : Nat) : Agree region (put left key value deadline) (put right key value deadline) := by
  intro other inside
  simp only [put, agree other inside]

theorem drop_local (left right : Mapping) (agree : Agree region left right) (key : Bytes) :
    Agree region (drop left key) (drop right key) := by
  intro other inside
  simp only [drop, agree other inside]

theorem settle_local (left right : Mapping) (agree : Agree region left right) (dead : Nat → Bool)
    (key : Bytes) (inside : region key) :
    Agree region (settle dead left key) (settle dead right key) := by
  unfold settle
  rw [agree key inside]
  cases right key with
  | none => exact agree
  | some binding =>
      dsimp only
      split
      · exact drop_local left right agree key
      · exact agree

theorem fetch_local (left right : Mapping) (agree : Agree region left right) (dead : Nat → Bool)
    (key : Bytes) (inside : region key) : fetch dead left key = fetch dead right key := by
  simp only [fetch, agree key inside]

theorem exists_local (clock : Nat → Nat) (keys : List Bytes) (inside : ∀ key ∈ keys, region key)
    (left right : Mapping) (agree : Agree region left right) :
    Agree region (existsMap clock keys left) (existsMap clock keys right) ∧
      existsCount clock keys left = existsCount clock keys right := by
  induction keys generalizing clock left right with
  | nil => exact ⟨agree, rfl⟩
  | cons key rest ih =>
      rw [List.forall_mem_cons] at inside
      have settled := settle_local left right agree (expired (clock 0)) key inside.1
      obtain ⟨later, counts⟩ := ih (fun index => clock (index + 1)) inside.2 _ _ settled
      refine ⟨later, ?_⟩
      simp only [existsCount, counts, fetch_local left right agree _ key inside.1]

theorem del_local (keys : List Bytes) (inside : ∀ key ∈ keys, region key) (left right : Mapping)
    (agree : Agree region left right) :
    Agree region (delMap keys left) (delMap keys right) ∧ delCount keys left = delCount keys right := by
  induction keys generalizing left right with
  | nil => exact ⟨agree, rfl⟩
  | cons key rest ih =>
      rw [List.forall_mem_cons] at inside
      obtain ⟨later, counts⟩ := ih inside.2 _ _ (drop_local left right agree key)
      exact ⟨later, by simp only [delCount, counts, agree key inside.1]⟩

/-- A handler that names keys of a region looks at nothing else. -/
theorem handler_local (env : Env) (argv : List Bytes) (command : Command)
    (inside : ∀ key ∈ handlerKeys argv command, region key) (left right : Mapping)
    (agree : Agree region left right) :
    Agree region (handlerMap env argv left command) (handlerMap env argv right command) ∧
      handlerReply env argv left command = handlerReply env argv right command := by
  cases command with
  | set => exact ⟨put_local left right agree _ _ _, rfl⟩
  | get | ttl =>
      have key := inside (arg argv 1) List.mem_cons_self
      have same := fetch_local left right agree (expired (env.clock 0)) _ key
      exact ⟨settle_local left right agree _ _ key, by simp only [handlerReply, ttlReply, same]⟩
  | del =>
      obtain ⟨after, counts⟩ := del_local argv.tail inside left right agree
      exact ⟨after, by simp only [handlerReply, counts]⟩
  | exist =>
      obtain ⟨after, counts⟩ := exists_local env.clock argv.tail inside left right agree
      exact ⟨after, by simp only [handlerReply, counts]⟩
  | expire =>
      have key := inside (arg argv 1) List.mem_cons_self
      have same := fetch_local left right agree (expired (env.clock 0)) _ key
      refine ⟨?_, by simp only [handlerReply, same]⟩
      simp only [handlerMap, writeMap, expireMap, same]
      split
      · exact settle_local left right agree _ _ key
      · exact put_local left right agree _ _ _
  | incr =>
      have key := inside (arg argv 1) List.mem_cons_self
      have same := fetch_local left right agree (expired (env.clock 0)) _ key
      refine ⟨?_, by simp only [handlerReply, same]⟩
      simp only [handlerMap, writeMap, incrMap, same]
      split
      · exact settle_local left right agree _ _ key
      · exact put_local left right agree _ _ _
  | ping | save | bgsave | replicaof | role | replconf | multi | exec | discard | subscribe
  | unsubscribe | publish => exact ⟨agree, rfl⟩

theorem exists_apart (clock : Nat → Nat) (keys : List Bytes) (m : Mapping) (key : Bytes)
    (apart : key ∉ keys) : existsMap clock keys m key = m key := by
  induction keys generalizing clock m with
  | nil => rfl
  | cons first rest ih =>
      rw [List.mem_cons, not_or] at apart
      rw [existsMap, ih _ _ apart.2, settle_other _ _ _ _ apart.1]

/-- A handler leaves the keys alone that it does not name. -/
theorem handler_apart (env : Env) (argv : List Bytes) (command : Command) (m : Mapping)
    (key : Bytes) (apart : key ∉ handlerKeys argv command) :
    handlerMap env argv m command key = m key := by
  cases command with
  | set => exact put_other m _ key _ _ (by simpa [handlerKeys] using apart)
  | get | ttl => exact settle_other _ m _ key (by simpa [handlerKeys] using apart)
  | del =>
      simp only [handlerKeys] at apart
      simp only [handlerMap, writeMap, del_map_eq, apart, ↓reduceIte]
  | exist => exact exists_apart env.clock argv.tail m key apart
  | expire =>
      have other : key ≠ arg argv 1 := by simpa [handlerKeys] using apart
      simp only [handlerMap, writeMap, expireMap]
      cases fetch (expired (env.clock 0)) m (arg argv 1) with
      | none => exact settle_other _ m _ key other
      | some binding => exact put_other m _ key _ _ other
  | incr =>
      have other : key ≠ arg argv 1 := by simpa [handlerKeys] using apart
      simp only [handlerMap, writeMap, incrMap]
      cases startValue (fetch (expired (env.clock 0)) m (arg argv 1)) with
      | none => exact settle_other _ m _ key other
      | some value => exact put_other m _ key _ _ other
  | ping | save | bgsave | replicaof | role | replconf | multi | exec | discard | subscribe
  | unsubscribe | publish => rfl

theorem words_local (env : Env) (words : List Bytes) (inside : ∀ key ∈ keysOf words, region key)
    (left right : Mapping) (agree : Agree region left right) :
    Agree region (applyWords env words left) (applyWords env words right) ∧
      replyWords env words left = replyWords env words right := by
  simp only [applyWords, replyWords, keysOf] at inside ⊢
  cases found : commands.find? (·.name = arg (lower words) 0) with
  | none => exact ⟨agree, rfl⟩
  | some row =>
      simp only [found] at inside
      dsimp only
      split
      · exact ⟨agree, rfl⟩
      case isFalse arity =>
        simp only [arity, Bool.false_eq_true, ↓reduceIte] at inside
        exact handler_local env (lower words) row.command inside left right agree

theorem words_apart (env : Env) (words : List Bytes) (m : Mapping) (key : Bytes)
    (apart : key ∉ keysOf words) : applyWords env words m key = m key := by
  simp only [applyWords, keysOf] at apart ⊢
  cases found : commands.find? (·.name = arg (lower words) 0) with
  | none => rfl
  | some row =>
      simp only [found] at apart
      dsimp only
      split
      · rfl
      case isFalse arity =>
        simp only [arity, Bool.false_eq_true, ↓reduceIte] at apart
        exact handler_apart env (lower words) row.command m key apart

end Locality

section Parties

/-- The keys that a step of the machine names. -/
def named : KeyStep → List Bytes
  | .call _ _ words => keysOf words
  | .sweep _ => []

variable {region : Bytes → Prop}

theorem step_keeps (step : KeyStep) (inside : ∀ key ∈ named step, region key) :
    Keeps actKeys sayKeys region step := by
  intro left right agree
  cases step with
  | call env sock words =>
      obtain ⟨after, said⟩ := words_local env words inside left right agree
      exact ⟨after, by simp only [sayKeys, said]⟩
  | sweep now =>
      refine ⟨?_, rfl⟩
      intro key member
      simp only [actKeys, sweep, agree key member]

theorem call_avoids (env : Env) (sock : Int) (words : List Bytes)
    (outside : ∀ key ∈ keysOf words, ¬ region key) : Avoids actKeys region (.call env sock words) :=
  fun m key member => words_apart env words m key fun names => outside key names member

/-- The replies to a party are those to its own steps. -/
theorem replies_to_party (party : Int → Bool) (m : Mapping) (step : KeyStep) :
    (sayKeys m step).filter (fun said => party said.sock) =
      if belongs party step then sayKeys m step else [] := by
  cases step with
  | sweep now => rfl
  | call env sock words =>
      have kept : (fun said : Exchange => party said.sock) ∘ (fun reply => ⟨sock, words, reply⟩) =
          fun _ => party sock := rfl
      simp only [sayKeys, belongs, List.filter_map, kept]
      by_cases mine : party sock = true
      · simp [mine]
      · simp [mine]

/-- Clients that keep to keys which nobody else names are told the same, and leave the
    same in them, as on another server where they run their commands without the others. -/
theorem disjoint_keys_isolated (party : Int → Bool) (region : Bytes → Prop) (start other : Server)
    (wf : Wellformed start) (otherWf : Wellformed other) (steps others : List ServerStep)
    (admitted : Admitted Possible next start steps) (allocates : ∀ step ∈ steps, Allocating step)
    (otherAdmitted : Admitted Possible next other others)
    (otherAllocates : ∀ step ∈ others, Allocating step)
    (ours : ∀ env sock words, .call env sock words ∈ outputs next keySteps start steps →
      party sock = true → ∀ key ∈ keysOf words, region key)
    (theirs : ∀ env sock words, .call env sock words ∈ outputs next keySteps start steps →
      party sock = false → ∀ key ∈ keysOf words, ¬ region key)
    (alone : outputs next keySteps other others =
      (outputs next keySteps start steps).filter (belongs party))
    (agree : Agree region (mapping start.db) (mapping other.db)) :
    Agree region (mapping (run next start steps).db) (mapping (run next other others).db) ∧
      (outputs next exchanges start steps).filter (fun said => party said.sock) =
        outputs next exchanges other others := by
  obtain ⟨reached, said⟩ := run_keys start wf steps admitted allocates
  obtain ⟨otherReached, otherSaid⟩ := run_keys other otherWf others otherAdmitted otherAllocates
  have told : (fun m step => (sayKeys m step).filter fun said => party said.sock) =
      fun m step => if belongs party step then sayKeys m step else [] := by
    funext m step
    exact replies_to_party party m step
  rw [reached, said, otherReached, otherSaid, outputs_filter, told, alone]
  apply run_isolated actKeys sayKeys region (belongs party) _ _ _ _ _ agree
  · intro step member mine
    cases step with
    | sweep now => exact step_keeps (.sweep now) (by simp [named])
    | call env sock words => exact step_keeps _ (ours env sock words member mine)
  · intro step member foreign
    cases step with
    | sweep now => simp [belongs] at foreign
    | call env sock words => exact call_avoids env sock words (theirs env sock words member foreign)

end Parties

section Example

set_option maxRecDepth 4000

/-- Two clients with a key each. -/
def sideBySide : List ServerStep :=
  [.connect 1 7, .connect 2 8, .receive (calm 0) 7 (ascii "SET a 1\r\n"),
    .receive (calm 0) 8 (ascii "SET b 2\r\n"), .receive (calm 0) 7 (ascii "GET a\r\n")]

theorem side_by_side_keys : outputs next keySteps emptyServer sideBySide =
    [.call (calm 0 []) 7 [ascii "SET", ascii "a", ascii "1"],
      .call (calm 0 []) 8 [ascii "SET", ascii "b", ascii "2"],
      .call (calm 0 []) 7 [ascii "GET", ascii "a"]] := by
  simp only [sideBySide, outputs]
  rw [input_keys _ _ _ _ (newClient 1 7 loadDefaultConfig) (by decide) (by decide)
      (by decide) (by decide),
    input_keys _ _ _ _ (newClient 2 8 loadDefaultConfig) (by decide) (by decide)
      (by decide) (by decide),
    input_keys _ _ _ _ (newClient 1 7 loadDefaultConfig) (by decide) (by decide)
      (by decide) (by decide)]
  rfl

theorem side_by_side_admitted : Admitted Possible next emptyServer sideBySide :=
  ⟨empty_connects, ⟨by decide, by decide, by decide⟩,
    ⟨by decide, by decide⟩, ⟨by decide, by decide⟩,
    ⟨by decide, by decide⟩, trivial⟩

theorem side_by_side_allocates : ∀ step ∈ sideBySide, Allocating step := by
  intro step member
  simp only [sideBySide, List.mem_cons, List.not_mem_nil, or_false] at member
  rcases member with rfl | rfl | rfl | rfl | rfl
  · trivial
  · trivial
  · exact calm_allocates 0
  · exact calm_allocates 0
  · exact calm_allocates 0

theorem stores_and_reads_keys : outputs next keySteps emptyServer storesAndReads =
    [.call (calm 0 []) 7 [ascii "SET", ascii "a", ascii "1"],
      .call (calm 0 []) 7 [ascii "GET", ascii "a"]] := by
  simp only [storesAndReads, outputs]
  rw [input_keys _ _ _ _ (newClient 1 7 loadDefaultConfig) (by decide) (by decide)
      (by decide) (by decide),
    input_keys _ _ _ _ (newClient 1 7 loadDefaultConfig) (by decide) (by decide)
      (by decide) (by decide)]
  rfl

/-- The first of them is told what it is told on a server of its own. -/
theorem first_is_alone :
    (outputs next exchanges emptyServer sideBySide).filter (fun said => said.sock = 7) =
      outputs next exchanges emptyServer storesAndReads := by
  have keys (env : Env) (sock : Int) (words : List Bytes)
      (member : .call env sock words ∈ outputs next keySteps emptyServer sideBySide) :
      keysOf words = if sock = 7 then [ascii "a"] else [ascii "b"] := by
    rw [side_by_side_keys] at member
    simp only [List.mem_cons, List.not_mem_nil, or_false, KeyStep.call.injEq] at member
    rcases member with ⟨-, rfl, rfl⟩ | ⟨-, rfl, rfl⟩ | ⟨-, rfl, rfl⟩ <;> decide
  refine (disjoint_keys_isolated (· = 7) (· = ascii "a") emptyServer emptyServer
    (start_wellformed _ empty_starts) (start_wellformed _ empty_starts) sideBySide storesAndReads
    side_by_side_admitted side_by_side_allocates stores_and_reads_admitted stores_and_reads_allocates
    ?_ ?_ ?_ (Agree.refl _ _)).2
  · intro env sock words member mine key names
    have same := keys env sock words member
    simpa [of_decide_eq_true mine, same] using names
  · intro env sock words member foreign key names
    have same := keys env sock words member
    simp only [decide_eq_false_iff_not] at foreign
    simp only [foreign, ↓reduceIte] at same
    rw [same, List.mem_singleton] at names
    rw [names]
    decide
  · rw [side_by_side_keys, stores_and_reads_keys]
    rfl

end Example

end CrimsonCache.KeyIsolation
