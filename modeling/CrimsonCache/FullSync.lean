import CrimsonCache.AppliedWrites
import CrimsonCache.InitialSync
import CrimsonCache.LiveContents
import CrimsonCache.Numerals

/-!
A whole initial sync onto a replica that already holds something. The stream
sets what is live on the primary and says of a deadline how many whole seconds
are left; it removes nothing. The two databases then hold the same live values
exactly when nothing else was left over on the replica and the deadlines it
made of the seconds do as well as the primary's.
-/

namespace CrimsonCache.FullSync

open CString Dictionary DeadlineMap Persistence Replies Replication Tokenizer ServerState DataCommands
  StoredData Commands TransactionSteps WriteEffects ReplicationThread ServerRuns LiveContents
  AppliedWrites ReplicaAgreement InitialSync Framing Numerals

section Words

/-- Without whitespace, quotes and backslashes. -/
def Clean (text : Bytes) : Prop :=
  ∀ c ∈ text, isspace c = false ∧ c ≠ quote ∧ c ≠ backslash

instance (text : Bytes) : Decidable (Clean text) :=
  inferInstanceAs (Decidable (∀ c ∈ text, _))

/-- The token that a text is where it stands between blanks. -/
def given (text : Bytes) : List Bytes := if text = [] then [] else [text]

theorem clean_bare (text : Bytes) (clean : Clean text) (nonempty : text ≠ []) : Bare text := by
  refine ⟨nonempty, fun c member => (clean c member).1, ?_⟩
  intro head
  exact (clean quote (List.mem_of_mem_head? head)).2.1 rfl

theorem scan_given (text rest : Bytes) (clean : Clean text) :
    scan .skipping (text ++ 32 :: rest) = given text ++ scan .skipping rest := by
  have skipped : scan .skipping (32 :: rest) = scan .skipping rest := by simp [scan, isspace]
  cases shape : text with
  | nil => simpa [given] using skipped
  | cons c more =>
      have bare := clean_bare text clean (by simp [shape])
      rw [← shape, scan_bare text _ bare (by simp [isspace]), skipped]
      simp [given, shape]

theorem scan_last (text : Bytes) (clean : Clean text) : scan .skipping text = given text := by
  cases shape : text with
  | nil => rfl
  | cons c more =>
      have bare := clean_bare text clean (by simp [shape])
      have whole := scan_bare text [] bare (by simp)
      rw [← shape]
      simpa [given, shape, scan] using whole

theorem clean_decimal (n : Nat) : Clean (decimal n) := by
  intro c member
  obtain ⟨digit, small, rfl⟩ := decimal_bytes n c member
  have all : ∀ digit < 10, isspace (UInt8.ofNat (48 + digit)) = false ∧
      UInt8.ofNat (48 + digit) ≠ quote ∧ UInt8.ofNat (48 + digit) ≠ backslash := by decide
  exact all digit small

theorem clean_unquoted (value : Bytes) (clean : Clean value) : needsQuotes value = false := by
  simp only [needsQuotes, Bool.or_eq_false_iff, decide_eq_false_iff_not]
  refine ⟨⟨fun member => ?_, fun member => ?_⟩, fun member => ?_⟩
  · have blank := (clean 32 member).1
    simp [isspace] at blank
  · have blank := (clean 9 member).1
    simp [isspace] at blank
  · exact (clean quote member).2.1 rfl

def expireBody (key : Bytes) (seconds : Nat) : Bytes :=
  ascii "EXPIRE " ++ (key ++ 32 :: decimal seconds)

theorem tokens_set (key value : Bytes) (cleanKey : Clean key) (cleanValue : Clean value) :
    tokens (setBody key value) = ascii "SET" :: (given key ++ given value) := by
  have shape : setBody key value = ascii "SET" ++ 32 :: (key ++ 32 :: value) := by
    simp [setBody, writtenValue, clean_unquoted value cleanValue, ascii]
  rw [tokens_scan, shape, scan_given _ _ (by decide +kernel), scan_given key _ cleanKey,
    scan_last value cleanValue]
  rfl

theorem scan_expire (key : Bytes) (seconds : Nat) :
    tokens (expireBody key seconds) =
      ascii "EXPIRE" :: scan .skipping (key ++ 32 :: decimal seconds) := by
  have shape : expireBody key seconds = ascii "EXPIRE" ++ 32 :: (key ++ 32 :: decimal seconds) := by
    simp [expireBody, ascii]
  rw [tokens_scan, shape, scan_given _ _ (by decide +kernel)]
  rfl

theorem tokens_expire (key : Bytes) (seconds : Nat) (clean : Clean key) :
    tokens (expireBody key seconds) = ascii "EXPIRE" :: (given key ++ [decimal seconds]) := by
  rw [scan_expire, scan_given key _ clean, scan_last _ (clean_decimal seconds)]
  simp [given, decimal_nonempty]

end Words

section Copies

/-- The whole seconds that the sync finds left of a deadline. -/
def secondsLeft (env : SyncEnv) (entry : DictEntry) : Nat :=
  if entry.val.expire ≠ 0 ∧ entry.val.expire > env.ttl then (entry.val.expire - env.ttl) / 1000 else 0

/-- The lines of an entry without their CRLF. -/
def entryLines (env : SyncEnv) (entry : DictEntry) : List Bytes :=
  if expired env.check entry.val.expire then []
  else
    setBody entry.key entry.val.ptr ::
      if secondsLeft env entry > 0 then [expireBody entry.key (secondsLeft env entry)] else []

def syncLines : (Nat → SyncEnv) → List DictEntry → List Bytes
  | _, [] => []
  | envs, entry :: rest =>
      entryLines (envs 0) entry ++ syncLines (fun index => envs (index + 1)) rest

/-- An entry that was sent: whether its SET line begins a line of the replica,
    the seconds of its EXPIRE, if it has one, and the two readings of the clock
    that the replica makes there. -/
structure Copy where
  entry : DictEntry
  whole : Bool
  seconds : Nat
  lookup : Nat
  start : Nat

/-- The entries that were sent; the lines are counted to find the world of each EXPIRE. -/
def copies (worlds : Nat → Oracle) : Nat → Bool → (Nat → SyncEnv) → List DictEntry → List Copy
  | _, _, _, [] => []
  | line, whole, envs, entry :: rest =>
      if expired (envs 0).check entry.val.expire then
        copies worlds line whole (fun index => envs (index + 1)) rest
      else
        ⟨entry, whole, secondsLeft (envs 0) entry, (worlds (line + 1) []).clock 0,
          (worlds (line + 1) []).clock 1⟩ ::
            copies worlds (line + (entryLines (envs 0) entry).length) true
              (fun index => envs (index + 1)) rest

/-- The SET is read as it was meant: neither the key nor the value is lost between two blanks. -/
def Solid (copy : Copy) : Prop :=
  copy.whole = true ∧ copy.entry.key ≠ [] ∧ copy.entry.val.ptr ≠ []

instance (copy : Copy) : Decidable (Solid copy) := inferInstanceAs (Decidable (_ ∧ _))

/-- The deadline of a copy. Without an EXPIRE there is none. -/
def copyDeadline (copy : Copy) : Nat :=
  if copy.seconds = 0 then 0 else wrap64 (copy.start + copy.seconds * 1000)

def setCopy (copy : Copy) (m : Mapping) : Mapping :=
  if Solid copy then put m copy.entry.key copy.entry.val.ptr 0 else m

def expireCopy (copy : Copy) (m : Mapping) : Mapping :=
  if copy.seconds = 0 ∨ copy.entry.key = [] then m
  else
    match fetch (expired copy.lookup) m copy.entry.key with
    | none => settle (expired copy.lookup) m copy.entry.key
    | some (value, _) => put m copy.entry.key value (copyDeadline copy)

/-- What the lines of an entry do to the replica's map. -/
def copied (m : Mapping) (copy : Copy) : Mapping := expireCopy copy (setCopy copy m)

/-- The lines as a replica finds them that holds the beginning of another one. -/
def joined (held : Bytes) : List Bytes → List Bytes
  | [] => []
  | line :: rest => (held ++ line) :: rest

/-- What the line does that was begun before the sync. -/
def begun (worlds : Nat → Oracle) (held : Bytes) (lines : List Bytes) (m : Mapping) : Mapping :=
  match lines with
  | [] => m
  | line :: _ =>
      if held = [] then m else applyWords (worlds 0 []) (tokens (cstr (held ++ line))) m

/-- A stored entry whose key and value are clean and short enough for the buffer. -/
structure Sendable (entry : DictEntry) : Prop where
  storable : Storable entry
  key : Clean entry.key
  value : Clean entry.val.ptr
  fits : (setLine entry.key entry.val.ptr).length < 4096
  keyFits : entry.key.length < 4066

theorem expire_body_free (key : Bytes) (seconds : Nat) (free : 0 ∉ key) : 0 ∉ expireBody key seconds := by
  have text : 0 ∉ ascii "EXPIRE " := by decide
  have blank : (0 : UInt8) ≠ 32 := by decide
  simp [expireBody, text, blank, free, decimal_nul_free]

/-- A stored entry whose lines fit into the buffer. -/
structure Fitting (entry : DictEntry) : Prop where
  storable : Storable entry
  fits : (setLine entry.key entry.val.ptr).length < 4096
  keyFits : entry.key.length < 4066

theorem Sendable.fitting {entry : DictEntry} (sendable : Sendable entry) : Fitting entry :=
  ⟨sendable.storable, sendable.fits, sendable.keyFits⟩

theorem seconds_left_fits (env : SyncEnv) (entry : DictEntry) (storable : Storable entry) :
    secondsLeft env entry < 2 ^ 63 := by
  have bound := storable.expire
  simp only [secondsLeft]
  split
  · omega
  · exact Nat.two_pow_pos 63

theorem set_row : ⟨.set, ascii "set", 3, -1⟩ ∈ commands := by simp [commands]

theorem expire_row : ⟨.expire, ascii "expire", 3, 3⟩ ∈ commands := by simp [commands]

theorem set_arity (count : Nat) :
    wrongArity ⟨.set, ascii "set", 3, -1⟩ count = decide (count < 3) := by
  rw [Bool.eq_iff_iff]
  simp [wrongArity]

theorem expire_arity (count : Nat) :
    wrongArity ⟨.expire, ascii "expire", 3, 3⟩ count = decide (count ≠ 3) := by
  rw [Bool.eq_iff_iff]
  simp [wrongArity]

theorem given_length (text : Bytes) : (given text).length ≤ 1 := by
  simp only [given]
  split <;> simp

theorem given_nil : given [] = [] := rfl

theorem given_text (text : Bytes) (nonempty : text ≠ []) : given text = [text] := by
  simp [given, nonempty]

/-- A SET of an empty key or value lacks an argument. -/
theorem set_applies (env : Env) (key value : Bytes) (m : Mapping) :
    applyWords env (ascii "SET" :: (given key ++ given value)) m =
      if key ≠ [] ∧ value ≠ [] then put m key value 0 else m := by
  have found := row_of_name _ set_row
  have name : (ascii "SET").map tolower = ascii "set" := by decide
  simp only [applyWords, lower, arg, List.getD_cons_zero, name, found, set_arity,
    List.length_cons, List.length_append, decide_eq_true_eq]
  have first := given_length key
  have second := given_length value
  by_cases solid : key ≠ [] ∧ value ≠ []
  · rw [if_pos solid, given_text key solid.1, given_text value solid.2]
    simp [handlerMap, writeMap, setMap, setExpire, arg]
  · have short : (given key).length + (given value).length + 1 < 3 := by
      rw [not_and_or, not_not, not_not] at solid
      rcases solid with rfl | rfl
      · rw [given_nil, List.length_nil]
        omega
      · rw [given_nil, List.length_nil]
        omega
    rw [if_pos short, if_neg solid]

theorem expire_applies (env : Env) (key : Bytes) (seconds : Nat) (fits : seconds < 2 ^ 63)
    (m : Mapping) :
    applyWords env (ascii "EXPIRE" :: (given key ++ [decimal seconds])) m =
      if key = [] then m
      else
        match fetch (expired (env.clock 0)) m key with
        | none => settle (expired (env.clock 0)) m key
        | some (value, _) => put m key value (wrap64 (env.clock 1 + seconds * 1000)) := by
  have found := row_of_name _ expire_row
  have name : (ascii "EXPIRE").map tolower = ascii "expire" := by decide
  simp only [applyWords, lower, arg, List.getD_cons_zero, name, found, expire_arity,
    List.length_cons, List.length_append, List.length_nil, decide_eq_true_eq]
  by_cases empty : key = []
  · simp [empty, given_nil]
  · have value := atol_decimal seconds fits
    simp only [given_text key empty, List.length_singleton, empty, ↓reduceIte, handlerMap, writeMap,
      expireMap, arg, List.cons_append, List.nil_append, List.getD_cons_zero, List.getD_cons_succ]
    cases stored : fetch (expired (env.clock 0)) m key <;> simp [value, wrap64_product]

theorem expire_line_applies (worlds : Nat → Oracle) (line : Nat) (env : SyncEnv)
    (entry : DictEntry) (whole : Bool) (sendable : Sendable entry) (m : Mapping) :
    applyLines worlds line
        (if secondsLeft env entry > 0 then [expireBody entry.key (secondsLeft env entry)] else []) m =
      expireCopy ⟨entry, whole, secondsLeft env entry, (worlds line []).clock 0,
        (worlds line []).clock 1⟩ m := by
  by_cases left : secondsLeft env entry > 0
  · have expire := tokens_expire entry.key (secondsLeft env entry) sendable.key
    have some_left : secondsLeft env entry ≠ 0 := by omega
    have present : expireBody entry.key (secondsLeft env entry) ≠ [] := by simp [expireBody, ascii]
    simp only [left, ↓reduceIte, applyLines, present,
      cstr_of_nul_free _ (expire_body_free _ (secondsLeft env entry) sendable.storable.key), expire,
      expire_applies _ _ _ (seconds_left_fits env entry sendable.storable), expireCopy, copyDeadline,
      some_left, false_or]
  · have none_left : secondsLeft env entry = 0 := by omega
    simp [none_left, applyLines, expireCopy]

/-- The lines of an entry, each in its own world. -/
theorem entry_applies (worlds : Nat → Oracle) (line : Nat) (env : SyncEnv) (entry : DictEntry)
    (sendable : Sendable entry) (alive : expired env.check entry.val.expire = false) (m : Mapping) :
    applyLines worlds line (entryLines env entry) m =
      copied m ⟨entry, true, secondsLeft env entry, (worlds (line + 1) []).clock 0,
        (worlds (line + 1) []).clock 1⟩ := by
  have set := tokens_set entry.key entry.val.ptr sendable.key sendable.value
  have nonempty : setBody entry.key entry.val.ptr ≠ [] := by simp [setBody, ascii]
  simp only [entryLines, alive, Bool.false_eq_true, ↓reduceIte, applyLines, nonempty,
    cstr_of_nul_free _ (set_body_free _ _ sendable.storable.key sendable.storable.ptr), set, set_applies]
  rw [expire_line_applies worlds (line + 1) env entry true sendable, copied]
  simp [setCopy, Solid]

theorem sync_applies (worlds : Nat → Oracle) (line : Nat) (envs : Nat → SyncEnv)
    (entries : List DictEntry) (sendable : ∀ entry ∈ entries, Sendable entry) (m : Mapping) :
    applyLines worlds line (syncLines envs entries) m =
      (copies worlds line true envs entries).foldl copied m := by
  induction entries generalizing line envs m with
  | nil => rfl
  | cons entry rest ih =>
      have first := sendable entry List.mem_cons_self
      have later := ih (line + (entryLines (envs 0) entry).length) (fun index => envs (index + 1))
        fun other member => sendable other (List.mem_cons_of_mem entry member)
      simp only [syncLines, apply_lines_append, copies]
      cases gone : expired (envs 0).check entry.val.expire with
      | true =>
          simp only [entryLines, gone, ↓reduceIte, List.length_nil, Nat.add_zero, applyLines] at later ⊢
          exact later m
      | false =>
          rw [entry_applies worlds line (envs 0) entry first gone, later]
          rfl

/-- The whole stream, behind what the replica held. -/
theorem joined_applies (worlds : Nat → Oracle) (held : Bytes) (envs : Nat → SyncEnv)
    (entries : List DictEntry) (sendable : ∀ entry ∈ entries, Sendable entry) (m : Mapping) :
    applyLines worlds 0 (joined held (syncLines envs entries)) m =
      (copies worlds 0 (held = []) envs entries).foldl copied
        (begun worlds held (syncLines envs entries) m) := by
  by_cases idle : held = []
  · have same : joined held (syncLines envs entries) = syncLines envs entries := by
      cases syncLines envs entries with
      | nil => rfl
      | cons line rest => simp [joined, idle]
    have unbegun : begun worlds held (syncLines envs entries) m = m := by
      cases syncLines envs entries with
      | nil => rfl
      | cons line rest => simp [begun, idle]
    rw [same, unbegun, sync_applies worlds 0 envs entries sendable]
    simp [idle]
  · simp only [idle, decide_false]
    induction entries generalizing envs with
    | nil => rfl
    | cons entry rest ih =>
        have first := sendable entry List.mem_cons_self
        have others := fun other member => sendable other (List.mem_cons_of_mem entry member)
        have later := ih (fun index => envs (index + 1)) others
        simp only [syncLines, copies]
        cases gone : expired (envs 0).check entry.val.expire with
        | true =>
            simp only [entryLines, gone, ↓reduceIte, List.nil_append]
            exact later
        | false =>
            simp only [entryLines, gone, Bool.false_eq_true, ↓reduceIte, List.cons_append, joined,
              begun, idle, applyLines, List.append_eq_nil_iff, false_and, apply_lines_append]
            rw [expire_line_applies worlds 1 (envs 0) entry false first, sync_applies worlds _ _ rest others]
            simp [copied, setCopy, Solid, Nat.add_comm]

end Copies

section Contents

/-- What an entry shows to a reader. -/
def shown (now : Nat) (entry : DictEntry) : Option Bytes :=
  if expired now entry.val.expire then none else some entry.val.ptr

/-- What the replica shows of a key whose SET was lost: its own value, with the
    new deadline if the EXPIRE found it. -/
def remaining (now : Nat) (m : Mapping) (copy : Copy) : Option Bytes :=
  if copy.seconds = 0 ∨ copy.entry.key = [] then liveValue now m copy.entry.key
  else if expired now (copyDeadline copy) then none
  else liveValue copy.lookup m copy.entry.key

/-- When a sync makes the replica show what the primary shows: nothing else was
    left over, the deadlines agree on what has passed, and what a lost SET should
    have written was there already. -/
structure Matching (now nowReplica : Nat) (copies : List Copy) (before : Mapping) : Prop where
  strays : ∀ key, (∀ copy ∈ copies, copy.entry.key ≠ key) → liveValue nowReplica before key = none
  deadlines : ∀ copy ∈ copies, Solid copy →
    expired nowReplica (copyDeadline copy) = expired now copy.entry.val.expire
  blanks : ∀ copy ∈ copies, ¬ Solid copy →
    remaining nowReplica before copy = shown now copy.entry

theorem set_copy_other (copy : Copy) (m : Mapping) (other : Bytes)
    (different : other ≠ copy.entry.key) : setCopy copy m other = m other := by
  simp only [setCopy]
  split
  · exact put_other m _ _ _ _ different
  · rfl

theorem expire_copy_other (copy : Copy) (m : Mapping) (other : Bytes)
    (different : other ≠ copy.entry.key) : expireCopy copy m other = m other := by
  simp only [expireCopy]
  split
  · rfl
  · cases fetch (expired copy.lookup) m copy.entry.key with
    | none => exact settle_other _ m _ _ different
    | some binding => exact put_other m _ _ _ _ different

theorem expire_copy_same (copy : Copy) (m : Mapping) :
    expireCopy copy m copy.entry.key =
      if copy.seconds = 0 ∨ copy.entry.key = [] then m copy.entry.key
      else
        (fetch (expired copy.lookup) m copy.entry.key).map
          fun binding => (binding.1, copyDeadline copy) := by
  simp only [expireCopy]
  split
  · rfl
  · cases bound : fetch (expired copy.lookup) m copy.entry.key with
    | none => exact settle_dead _ m _ bound
    | some binding => exact put_same m _ _ _

theorem copied_other (m : Mapping) (copy : Copy) (other : Bytes)
    (different : other ≠ copy.entry.key) : copied m copy other = m other := by
  rw [copied, expire_copy_other copy _ other different, set_copy_other copy m other different]

theorem copied_local (first second : Mapping) (copy : Copy)
    (same : first copy.entry.key = second copy.entry.key) :
    copied first copy copy.entry.key = copied second copy copy.entry.key := by
  have set : setCopy copy first copy.entry.key = setCopy copy second copy.entry.key := by
    simp only [setCopy]
    split
    · rw [put_same, put_same]
    · exact same
  simp only [copied, expire_copy_same, fetch, set]

theorem solid_copied (m : Mapping) (copy : Copy) (solid : Solid copy) :
    copied m copy copy.entry.key = some (copy.entry.val.ptr, copyDeadline copy) := by
  rw [copied, expire_copy_same, setCopy, if_pos solid, fetch, put_same]
  split
  case isTrue untimed =>
    have none_left : copy.seconds = 0 := untimed.resolve_right solid.2.1
    simp [copyDeadline, none_left]
  case isFalse => simp [Option.filter, expired]

theorem blank_live (now : Nat) (m : Mapping) (copy : Copy) (blank : ¬ Solid copy) :
    liveValue now (copied m copy) copy.entry.key = remaining now m copy := by
  rw [liveValue, fetch, copied, expire_copy_same, setCopy, if_neg blank, remaining]
  split
  · rfl
  · cases bound : fetch (expired copy.lookup) m copy.entry.key with
    | none => simp [liveValue, bound]
    | some binding =>
        simp only [Option.map_some, Option.filter_some, liveValue, bound]
        cases expired now (copyDeadline copy) <;> simp

theorem fold_other (copies : List Copy) (m : Mapping) (key : Bytes)
    (absent : ∀ copy ∈ copies, copy.entry.key ≠ key) : copies.foldl copied m key = m key := by
  induction copies generalizing m with
  | nil => rfl
  | cons copy rest ih =>
      have first := absent copy List.mem_cons_self
      rw [List.foldl_cons, ih _ fun other member => absent other (List.mem_cons_of_mem _ member)]
      exact copied_other m copy key (Ne.symm first)

/-- A key is written by its own copy and by no other. -/
theorem fold_same (copies : List Copy) (distinct : (copies.map (·.entry.key)).Nodup) (m : Mapping)
    (copy : Copy) (member : copy ∈ copies) :
    copies.foldl copied m copy.entry.key = copied m copy copy.entry.key := by
  induction copies generalizing m with
  | nil => contradiction
  | cons first rest ih =>
      rw [List.map_cons, List.nodup_cons] at distinct
      rcases distinct with ⟨fresh, later⟩
      rw [List.foldl_cons]
      rcases List.mem_cons.mp member with rfl | inside
      · apply fold_other
        intro other member same
        exact fresh (same ▸ List.mem_map_of_mem member)
      · have apart : copy.entry.key ≠ first.entry.key := by
          intro same
          exact fresh (same ▸ List.mem_map_of_mem inside)
        rw [ih later (copied m first) inside]
        exact copied_local _ _ copy (copied_other m first copy.entry.key apart)

theorem copies_sublist (worlds : Nat → Oracle) (line : Nat) (whole : Bool) (envs : Nat → SyncEnv)
    (entries : List DictEntry) :
    ((copies worlds line whole envs entries).map (·.entry)).Sublist entries := by
  induction entries generalizing line whole envs with
  | nil => exact List.Sublist.slnil
  | cons entry rest ih =>
      simp only [copies]
      split
      · exact (ih _ _ _).cons entry
      · exact (ih _ _ _).cons_cons entry

/-- What the sync passes over has expired. -/
theorem copies_cover (worlds : Nat → Oracle) (line : Nat) (whole : Bool) (envs : Nat → SyncEnv)
    (now : Nat) (passed : ∀ index, (envs index).check ≤ now) (entries : List DictEntry)
    (entry : DictEntry) (member : entry ∈ entries) :
    (∃ copy ∈ copies worlds line whole envs entries, copy.entry = entry) ∨
      expired now entry.val.expire = true := by
  induction entries generalizing line whole envs with
  | nil => contradiction
  | cons first rest ih =>
      have later := fun line whole => ih line whole (fun index => envs (index + 1))
        fun index => passed (index + 1)
      simp only [copies]
      rcases List.mem_cons.mp member with rfl | inside
      · split
        case isTrue gone => exact Or.inr (expired_later _ now _ (passed 0) gone)
        case isFalse => exact Or.inl ⟨_, List.mem_cons_self, rfl⟩
      · split
        · exact later _ _ inside
        · rcases later _ _ inside with ⟨copy, sent, same⟩ | gone
          · exact Or.inl ⟨copy, List.mem_cons_of_mem _ sent, same⟩
          · exact Or.inr gone

theorem live_value_shown (now : Nat) (db : Dict) (rep : Represents db) (entry : DictEntry)
    (member : entry ∈ db.table.flatten) :
    liveValue now (mapping db) entry.key = shown now entry := by
  have bound : mapping db entry.key = some (binding entry) :=
    (mapping_mem db rep _ _).mpr ⟨entry, member, rfl, rfl⟩
  simp only [liveValue, fetch, bound, Option.filter_some, binding, shown]
  cases expired now entry.val.expire <;> simp

/-- The two databases show the same exactly when the copies match. -/
theorem copies_match_iff (worlds : Nat → Oracle) (whole : Bool) (envs : Nat → SyncEnv)
    (now nowReplica : Nat) (passed : ∀ index, (envs index).check ≤ now) (db : Dict)
    (rep : Represents db) (before : Mapping) :
    (∀ key, liveValue nowReplica
        ((copies worlds 0 whole envs db.table.flatten).foldl copied before) key =
          liveValue now (mapping db) key) ↔
      Matching now nowReplica (copies worlds 0 whole envs db.table.flatten) before := by
  have cover := copies_cover worlds 0 whole envs now passed db.table.flatten
  have sub := copies_sublist worlds 0 whole envs db.table.flatten
  have distinct : ((copies worlds 0 whole envs db.table.flatten).map (·.entry.key)).Nodup := by
    have keys := (sub.map DictEntry.key).nodup rep.valid.distinct_flatten
    rwa [List.map_map] at keys
  generalize copies worlds 0 whole envs db.table.flatten = sent at cover sub distinct
  have entries (copy : Copy) (member : copy ∈ sent) : copy.entry ∈ db.table.flatten :=
    sub.subset (List.mem_map_of_mem member)
  have own (copy : Copy) (member : copy ∈ sent) :
      liveValue nowReplica (sent.foldl copied before) copy.entry.key =
        liveValue nowReplica (copied before copy) copy.entry.key := by
    rw [liveValue, fetch, fold_same sent distinct before copy member]
    rfl
  have solid (copy : Copy) (whole : Solid copy) :
      liveValue nowReplica (copied before copy) copy.entry.key =
        if expired nowReplica (copyDeadline copy) then none else some copy.entry.val.ptr := by
    rw [liveValue, fetch, solid_copied before copy whole, Option.filter_some]
    cases expired nowReplica (copyDeadline copy) <;> simp
  have other (key : Bytes) (absent : ∀ copy ∈ sent, copy.entry.key ≠ key) :
      liveValue nowReplica (sent.foldl copied before) key = liveValue nowReplica before key ∧
        liveValue now (mapping db) key = none := by
    constructor
    · rw [liveValue, fetch, fold_other sent before key absent]
      rfl
    · cases bound : mapping db key with
      | none => simp [liveValue, fetch, bound]
      | some binding =>
          obtain ⟨entry, member, rfl, -⟩ := (mapping_mem db rep _ _).mp bound
          rw [live_value_shown now db rep entry member, shown]
          rcases cover entry member with ⟨copy, inside, same⟩ | gone
          · exact absurd (congrArg DictEntry.key same) (absent copy inside)
          · rw [if_pos gone]
  constructor
  · intro same
    refine ⟨fun key absent => ?_, fun copy member whole => ?_, fun copy member blank => ?_⟩
    · rw [← (other key absent).1, same key, (other key absent).2]
    · have here := same copy.entry.key
      rw [own copy member, solid copy whole, live_value_shown now db rep _ (entries copy member),
        shown] at here
      cases first : expired nowReplica (copyDeadline copy) <;>
        cases second : expired now copy.entry.val.expire <;> simp [first, second] at here ⊢
    · rw [← blank_live nowReplica before copy blank, ← own copy member, same]
      exact live_value_shown now db rep _ (entries copy member)
  · rintro ⟨strays, deadlines, blanks⟩ key
    by_cases sentKey : ∃ copy ∈ sent, copy.entry.key = key
    · obtain ⟨copy, member, rfl⟩ := sentKey
      rw [own copy member, live_value_shown now db rep _ (entries copy member)]
      by_cases whole : Solid copy
      · rw [solid copy whole, deadlines copy member whole, shown]
      · rw [blank_live nowReplica before copy whole, blanks copy member whole]
    · have absent : ∀ copy ∈ sent, copy.entry.key ≠ key :=
        fun copy member same => sentKey ⟨copy, member, same⟩
      rw [(other key absent).1, (other key absent).2, strays key absent]

end Contents

section Stream

theorem expire_line_body (key : Bytes) (seconds : Nat) :
    expireLine key seconds = expireBody key seconds ++ crlf := by
  simp [expireLine, expireBody, ascii]

theorem Fitting.expire_fits {entry : DictEntry} (fitting : Fitting entry) (env : SyncEnv) :
    (expireLine entry.key (secondsLeft env entry)).length < 4096 := by
  have digits := decimal_length _ (seconds_left_fits env entry fitting.storable)
  have short := fitting.keyFits
  have text : (ascii "EXPIRE ").length = 7 ∧ (ascii " ").length = 1 ∧ crlf.length = 2 := by decide
  simp only [expireLine, List.length_append]
  omega

/-- Every write of the sync is taken whole. -/
def Complete (events : List Event) : Prop :=
  ∀ fd data result, .replicaWrite fd data result ∈ events → result = .wrote data.length

/-- The writes to one socket are. -/
def Whole (fd : Int) (events : List Event) : Prop :=
  ∀ data result, .replicaWrite fd data result ∈ events → result = .wrote data.length

/-- Whether a write to the socket falls short. -/
def fallsShort (fd : Int) : Event → Bool
  | .replicaWrite target data result => target = fd && result ≠ .wrote data.length
  | _ => false

theorem whole_iff (fd : Int) (events : List Event) :
    Whole fd events ↔ events.any (fallsShort fd) = false := by
  rw [List.any_eq_false]
  constructor
  · intro whole event member short
    cases event with
    | replicaWrite target data result =>
        simp only [fallsShort, Bool.and_eq_true, decide_eq_true_eq] at short
        rcases short with ⟨rfl, other⟩
        exact other (whole data result member)
    | _ => contradiction
  · intro none data result member
    by_contra other
    exact none _ member (by simp [fallsShort, other])

instance (fd : Int) (events : List Event) : Decidable (Whole fd events) :=
  decidable_of_iff _ (whole_iff fd events).symm

/-- The writes of an entry whose lines fit into the buffer. -/
theorem expire_events (env : SyncEnv) (fd : Int) (entry : DictEntry) (fitting : Fitting entry) :
    syncExpire env fd entry =
      if secondsLeft env entry > 0 then
        [.replicaWrite fd (expireLine entry.key (secondsLeft env entry)) env.expire]
      else [] := by
  have fits := fitting.expire_fits env
  simp only [syncExpire, secondsLeft] at fits ⊢
  split
  case isFalse => rfl
  case isTrue timed =>
    simp only [timed, ne_eq, not_false_eq_true, and_self, ↓reduceIte] at fits
    rw [formatted, if_pos fits]

theorem entry_events (env : SyncEnv) (fd : Int) (entry : DictEntry) (fitting : Fitting entry) :
    syncEntry env fd entry =
      if expired env.check entry.val.expire then []
      else
        .replicaWrite fd (setLine entry.key entry.val.ptr) env.set ::
          if env.set = .wrote (setLine entry.key entry.val.ptr).length then syncExpire env fd entry
          else [] := by
  simp only [syncEntry, fitting.storable.type, formatted, fitting.fits, ↓reduceIte]

theorem sent_write (fd : Int) (data : Bytes) (result : WriteResult) (rest : List Event) :
    sentTo fd (.replicaWrite fd data result :: rest) = result.taken data ++ sentTo fd rest := by
  simp [sentTo, Event.sent]

theorem taken_whole (data : Bytes) : WriteResult.taken data (.wrote data.length) = data :=
  List.take_length

theorem expire_sent (env : SyncEnv) (fd : Int) (entry : DictEntry) (fitting : Fitting entry)
    (whole : Whole fd (syncExpire env fd entry)) :
    sentTo fd (syncExpire env fd entry) =
      (if secondsLeft env entry > 0 then [expireBody entry.key (secondsLeft env entry)]
        else []).flatMap fun line => line ++ crlf := by
  rw [expire_events env fd entry fitting] at whole ⊢
  split
  case isFalse => rfl
  case isTrue left =>
    rw [if_pos left] at whole
    rw [sent_write, whole _ _ List.mem_cons_self, taken_whole, expire_line_body]
    simp [sentTo]

theorem entry_sent (env : SyncEnv) (fd : Int) (entry : DictEntry) (fitting : Fitting entry)
    (whole : Whole fd (syncEntry env fd entry)) :
    sentTo fd (syncEntry env fd entry) = (entryLines env entry).flatMap fun line => line ++ crlf := by
  rw [entry_events env fd entry fitting] at whole ⊢
  simp only [entryLines]
  split
  case isTrue => rfl
  case isFalse alive =>
    rw [if_neg alive] at whole
    have taken := whole _ _ List.mem_cons_self
    rw [if_pos taken] at whole ⊢
    have later := expire_sent env fd entry fitting
      fun data result member => whole data result (List.mem_cons_of_mem _ member)
    rw [sent_write, taken, taken_whole, later, set_line_body]
    rfl

theorem sync_sent (envs : Nat → SyncEnv) (fd : Int) (entries : List DictEntry)
    (sendable : ∀ entry ∈ entries, Sendable entry) (complete : Complete (syncEntries fd envs entries)) :
    sentTo fd (syncEntries fd envs entries) =
      (syncLines envs entries).flatMap fun line => line ++ crlf := by
  induction entries generalizing envs with
  | nil => rfl
  | cons entry rest ih =>
      have first := entry_sent (envs 0) fd entry (sendable entry List.mem_cons_self).fitting
        fun data result member => complete fd data result (List.mem_append_left _ member)
      have later := ih (fun index => envs (index + 1))
        (fun other member => sendable other (List.mem_cons_of_mem _ member))
        fun fd data result member => complete fd data result (List.mem_append_right _ member)
      rw [syncEntries, sent_to_append, first, later, syncLines, List.flatMap_append]

/-- A line of the sync starts with no LF and has neither a CR nor a NUL. -/
structure SyncLine (line : Bytes) : Prop where
  free : 0 ∉ line
  whole : cr ∉ line
  starts : line.head? ≠ some lf

theorem clean_free (text : Bytes) (clean : Clean text) : cr ∉ text := by
  intro member
  have solid := (clean cr member).1
  rw [crlf_blank cr List.mem_cons_self] at solid
  contradiction

theorem set_sync_line (entry : DictEntry) (sendable : Sendable entry) :
    SyncLine (setBody entry.key entry.val.ptr) := by
  have text : cr ∉ ascii "SET " := by decide
  have blank : cr ≠ 32 := by decide
  refine ⟨set_body_free _ _ sendable.storable.key sendable.storable.ptr, ?_, by simp [setBody, ascii, lf]⟩
  simp [setBody, writtenValue, clean_unquoted _ sendable.value, text, blank,
    clean_free _ sendable.key, clean_free _ sendable.value]

theorem expire_sync_line (key : Bytes) (free : 0 ∉ key) (whole : cr ∉ key) (seconds : Nat) :
    SyncLine (expireBody key seconds) := by
  have text : cr ∉ ascii "EXPIRE " := by decide
  have blank : cr ≠ 32 := by decide
  refine ⟨expire_body_free key seconds free, ?_, by simp [expireBody, ascii, lf]⟩
  simp [expireBody, text, blank, whole, clean_free _ (clean_decimal seconds)]

theorem sync_lines (envs : Nat → SyncEnv) (entries : List DictEntry)
    (sendable : ∀ entry ∈ entries, Sendable entry) :
    ∀ line ∈ syncLines envs entries, SyncLine line := by
  induction entries generalizing envs with
  | nil => simp [syncLines]
  | cons entry rest ih =>
      have first := sendable entry List.mem_cons_self
      intro line member
      rcases List.mem_append.mp member with here | later
      · simp only [entryLines] at here
        split at here
        · contradiction
        · rcases List.mem_cons.mp here with rfl | expire
          · exact set_sync_line entry first
          · split at expire
            case isTrue left =>
              obtain rfl := List.mem_singleton.mp expire
              exact expire_sync_line entry.key first.storable.key (clean_free _ first.key) _
            case isFalse => contradiction
      · exact ih (fun index => envs (index + 1))
          (fun other member => sendable other (List.mem_cons_of_mem _ member)) line later

/-- What the replication thread may hold of a line. -/
structure Unfinished (held : Bytes) : Prop where
  free : 0 ∉ held
  undivided : Undivided cr lf held

theorem joined_frames (held : Bytes) (unfinished : Unfinished held) (lines : List Bytes)
    (texts : ∀ line ∈ lines, SyncLine line) :
    (frames cr lf [] (held ++ lines.flatMap fun line => line ++ crlf)).1 = joined held lines := by
  cases lines with
  | nil =>
      have none := frames_undivided cr lf [] held (by simpa using unfinished.undivided)
      simp [none, joined]
  | cons line rest =>
      have first := texts line List.mem_cons_self
      have whole : ∀ text ∈ joined held (line :: rest), Undivided cr lf text := by
        intro text member
        rcases List.mem_cons.mp member with rfl | later
        · exact Undivided.append cr lf unfinished.undivided first.whole first.starts
        · exact Undivided.of_free cr lf (texts text (List.mem_cons_of_mem _ later)).whole
      have cut := frames_lines cr lf (joined held (line :: rest)) crlf_distinct whole
      simp only [joined, List.flatMap_cons, List.append_assoc] at cut ⊢
      exact congrArg Prod.fst cut

end Stream

section Equality

/-- A sync of clean and short entries, taken whole and received whole, in
    whatever chunks, by a replica with room for each line. -/
structure Delivered (primary : Dict) (replica : Server) (envs : Nat → SyncEnv) (fd : Int)
    (chunks : List Bytes) : Prop where
  clean : ∀ entry ∈ primary.table.flatten, Clean entry.key ∧ Clean entry.val.ptr
  short : ∀ entry ∈ primary.table.flatten,
    (setLine entry.key entry.val.ptr).length < 4096 ∧ entry.key.length < 4066
  complete : Complete (syncReplica envs fd primary)
  received : chunks.flatten = sentTo fd (syncReplica envs fd primary)
  unfinished : Unfinished replica.replicaBuffer
  room : ∀ line ∈ joined replica.replicaBuffer (syncLines envs primary.table.flatten),
    line.length + 2 < replica.config.bufferSize

theorem delivered_applies (primary : Dict) (sound : Sound primary) (replica : Server)
    (wf : Wellformed replica) (envs : Nat → SyncEnv) (fd : Int) (chunks : List Bytes)
    (delivered : Delivered primary replica envs fd chunks) (worlds : Nat → Oracle)
    (allocates : ∀ index, (worlds index).Allocates) :
    mapping (receiveChunks worlds 0 chunks replica).db =
      (copies worlds 0 (replica.replicaBuffer = []) envs primary.table.flatten).foldl copied
        (begun worlds replica.replicaBuffer (syncLines envs primary.table.flatten)
          (mapping replica.db)) := by
  rcases delivered with ⟨clean, short, complete, received, unfinished, room⟩
  have sendable (entry : DictEntry) (member : entry ∈ primary.table.flatten) : Sendable entry :=
    ⟨sound.storable entry member, (clean entry member).1, (clean entry member).2,
      (short entry member).1, (short entry member).2⟩
  have stream := sync_sent envs fd primary.table.flatten sendable complete
  have lines := sync_lines envs primary.table.flatten sendable
  have cut := joined_frames replica.replicaBuffer unfinished _ lines
  rw [← stream] at cut
  have free : 0 ∉ replica.replicaBuffer ++ chunks.flatten := by
    rw [received, syncReplica, stream, List.mem_append, List.mem_flatMap]
    rintro (early | ⟨line, member, zero⟩)
    · exact unfinished.free early
    · rcases List.mem_append.mp zero with inside | ended
      · exact (lines line member).free inside
      · exact absurd ended (by decide)
  have bounded : ∀ line ∈ (frames cr lf [] (replica.replicaBuffer ++ chunks.flatten)).1,
      line.length < 2 ^ 31 := by
    rw [received, syncReplica, cut]
    intro line member
    have fits := room line member
    have size := wf.bufferSize
    omega
  rw [chunks_apply worlds allocates chunks 0 replica wf.ready wf.sound unfinished.undivided free
    bounded, received, syncReplica, cut]
  exact joined_applies worlds _ envs _ sendable _

/-- A full sync makes the live values equal exactly when the copies match what
    the replica held before. -/
theorem sync_equalizes_iff (primary : Dict) (sound : Sound primary) (replica : Server)
    (wf : Wellformed replica) (envs : Nat → SyncEnv) (fd : Int) (chunks : List Bytes)
    (delivered : Delivered primary replica envs fd chunks) (worlds : Nat → Oracle)
    (allocates : ∀ index, (worlds index).Allocates) (now nowReplica : Nat)
    (passed : ∀ index, (envs index).check ≤ now) :
    (∀ key, liveValue nowReplica (mapping (receiveChunks worlds 0 chunks replica).db) key =
        liveValue now (mapping primary) key) ↔
      Matching now nowReplica
        (copies worlds 0 (replica.replicaBuffer = []) envs primary.table.flatten)
        (begun worlds replica.replicaBuffer (syncLines envs primary.table.flatten)
          (mapping replica.db)) := by
  rw [delivered_applies primary sound replica wf envs fd chunks delivered worlds allocates]
  exact copies_match_iff worlds _ envs now nowReplica passed primary sound.rep _

end Equality

section Samples

set_option maxRecDepth 4000

def wholeWrites : SyncEnv := ⟨0, 0, .wrote 9, .failed, fun _ => 0⟩

def oneKey : Dict := (storing "SET k v\r\n").db

/-- It held another key when it became a replica. -/
def formerPrimary : Server :=
  next (storing "SET stale 1\r\n") (.receive (calm 0) 7 (ascii "REPLICAOF h 6379\r\n"))

theorem former_primary_reachable : Reachable formerPrimary :=
  reachable_next _ _ (storing_reachable _ (by decide)) ⟨by decide, by decide⟩

theorem one_key_sound : Sound oneKey :=
  (reachable_wellformed _ (storing_reachable "SET k v\r\n" (by decide))).sound

theorem one_key_entries :
    oneKey.table.flatten = [⟨ascii "k", ⟨ascii "v", .string, 0, 2, 0⟩⟩] := by decide

theorem one_key_delivered (replica : Server) (idle : replica.replicaBuffer = [])
    (config : replica.config.bufferSize = 1024) :
    Delivered oneKey replica (fun _ => wholeWrites) 9 [ascii "SET k v\r\n"] := by
  have events : syncReplica (fun _ => wholeWrites) 9 oneKey =
      [.replicaWrite 9 (ascii "SET k v\r\n") (.wrote 9)] := by decide
  have lines : syncLines (fun _ => wholeWrites) oneKey.table.flatten = [ascii "SET k v"] := by
    decide
  refine ⟨?_, ?_, ?_, ?_, ?_, ?_⟩
  · rw [one_key_entries]
    decide
  · rw [one_key_entries]
    decide
  · rw [events]
    intro fd data result member
    obtain ⟨-, rfl, rfl⟩ := Event.replicaWrite.inj (List.mem_singleton.mp member)
    decide
  · rw [events]
    decide
  · rw [idle]
    exact ⟨List.not_mem_nil, undivided_nil cr lf⟩
  · rw [idle, lines, config]
    decide

theorem empty_replica_equalized :
    Delivered oneKey follower (fun _ => wholeWrites) 9 [ascii "SET k v\r\n"] ∧ ∀ key,
      liveValue 0 (mapping (receiveChunks (fun _ => calm 0) 0 [ascii "SET k v\r\n"] follower).db) key =
        liveValue 0 (mapping oneKey) key := by
  have idle : follower.replicaBuffer = [] := by decide +kernel
  have delivered := one_key_delivered follower idle (by decide +kernel)
  have sent : copies (fun _ => calm 0) 0 true (fun _ => wholeWrites) oneKey.table.flatten =
      [⟨⟨ascii "k", ⟨ascii "v", .string, 0, 2, 0⟩⟩, true, 0, 0, 0⟩] := by
    rw [one_key_entries]
    rfl
  have lines : syncLines (fun _ => wholeWrites) oneKey.table.flatten = [ascii "SET k v"] := by
    decide +kernel
  have blank : mapping follower.db = fun _ => none := by
    rw [follower_empty]
    exact mapping_empty _ (by decide +kernel)
  refine ⟨delivered, ?_⟩
  apply (sync_equalizes_iff oneKey one_key_sound follower
    (reachable_wellformed _ follower_reachable) (fun _ => wholeWrites) 9 [ascii "SET k v\r\n"]
    delivered (fun _ => calm 0) (fun _ => calm_allocates 0) 0 0 (fun _ => Nat.le_refl 0)).mpr
  rw [idle, lines, blank]
  simp only [decide_true, sent, begun, ↓reduceIte]
  constructor
  · intro key absent
    rfl
  · intro copy member solid
    obtain rfl := List.mem_singleton.mp member
    rfl
  · intro copy member blank
    obtain rfl := List.mem_singleton.mp member
    exact absurd (by decide) blank

/-- A key that the primary does not have outlives the sync. -/
theorem stale_key_survives :
    Sound oneKey ∧ Reachable formerPrimary ∧
      Delivered oneKey formerPrimary (fun _ => wholeWrites) 9 [ascii "SET k v\r\n"] ∧
      ¬ ∀ key, liveValue 0 (mapping (receiveChunks (fun _ => calm 0) 0 [ascii "SET k v\r\n"]
        formerPrimary).db) key = liveValue 0 (mapping oneKey) key := by
  refine ⟨one_key_sound, former_primary_reachable, ?_, ?_⟩
  · exact one_key_delivered formerPrimary (by decide +kernel) (by decide +kernel)
  · intro same
    have absent : liveValue 0 (mapping oneKey) (ascii "stale") = none := by decide +kernel
    have survives : liveValue 0 (mapping (receiveChunks (fun _ => calm 0) 0
        [ascii "SET k v\r\n"] formerPrimary).db) (ascii "stale") = some (ascii "1") := by
      decide +kernel
    rw [same, absent] at survives
    exact Option.some_ne_none _ survives.symm

end Samples

end CrimsonCache.FullSync
