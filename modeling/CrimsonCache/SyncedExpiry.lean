import CrimsonCache.SyncRaces

/-!
The deadline of an entry on its way through the initial sync. The SET line goes
first and makes the replica's copy permanent; the EXPIRE line that follows says
how many whole seconds are left, if there are any, and nobody looks whether the
socket took it. What the replica holds in the end depends on that second line.
-/

namespace CrimsonCache.SyncedExpiry

open CString Dictionary DeadlineMap Persistence Replies Replication Tokenizer ServerState StoredData
  Commands TransactionSteps ReplicationThread ServerRuns ReplicaAgreement AppliedWrites InitialSync
  FullSync SyncRaces Framing

/-- A whole second is left when the EXPIRE line is made, and the socket takes the line whole. -/
def Carried (env : SyncEnv) (entry : DictEntry) : Prop :=
  env.ttl + 1000 ≤ entry.val.expire ∧
    env.expire.taken (expireLine entry.key (secondsLeft env entry)) =
      expireLine entry.key (secondsLeft env entry)

instance (env : SyncEnv) (entry : DictEntry) : Decidable (Carried env entry) :=
  inferInstanceAs (Decidable (_ ∧ _))

/-- The deadline that the replica's copy ends with. -/
def syncedDeadline (env : SyncEnv) (entry : DictEntry) (later : Nat) : Nat :=
  if Carried env entry then wrap64 (later + secondsLeft env entry * 1000) else 0

/-- The copy has a deadline, and outlives the entry by no more than it was late. -/
def Preserved (env : SyncEnv) (entry : DictEntry) (later : Nat) (m : Mapping) : Prop :=
  ∃ deadline, m entry.key = some (entry.val.ptr, deadline) ∧ deadline ≠ 0 ∧
    (deadline : Int) ≤ entry.val.expire + (later - env.check)

theorem seconds_left_positive (env : SyncEnv) (entry : DictEntry) :
    secondsLeft env entry > 0 ↔ env.ttl + 1000 ≤ entry.val.expire := by
  simp only [secondsLeft]
  split <;> omega

section Stream

variable (env : SyncEnv) (fd : Int) (entry : DictEntry) (storable : Storable entry)
  (encodable : Encodable entry)

theorem taken_part (result : WriteResult) (data : Bytes) : result.taken data <+: data := by
  cases result with
  | wrote count => exact List.take_prefix count data
  | wouldBlock => exact List.nil_prefix
  | failed => exact List.nil_prefix

include storable encodable

/-- What the socket gets behind the SET line. -/
theorem expire_bytes : sentTo fd (syncExpire env fd entry) =
    if secondsLeft env entry > 0 then
      env.expire.taken (expireLine entry.key (secondsLeft env entry))
    else [] := by
  rw [expire_events env fd entry (encodable.fitting storable)]
  split
  case isTrue => rw [sent_write, sentTo, List.flatMap_nil, List.append_nil]
  case isFalse => rfl

/-- The EXPIRE line arrives whole or leaves no line at all. -/
theorem expire_frames : (frames cr lf [] (sentTo fd (syncExpire env fd entry))).1 =
    if Carried env entry then [expireBody entry.key (secondsLeft env entry)] else [] := by
  have line := expire_sync_line entry.key storable.key
    (bare_free entry.key encodable.transferable.bareKey) (secondsLeft env entry)
  have whole : Undivided cr lf (expireBody entry.key (secondsLeft env entry)) :=
    Undivided.of_free cr lf line.whole
  rw [expire_bytes env fd entry storable encodable]
  simp only [Carried, ← seconds_left_positive]
  by_cases left : secondsLeft env entry > 0
  · rw [if_pos left]
    by_cases taken : env.expire.taken (expireLine entry.key (secondsLeft env entry)) =
        expireLine entry.key (secondsLeft env entry)
    · rw [if_pos ⟨left, taken⟩, taken, expire_line_body]
      have cut := frames_line cr lf (expireBody entry.key (secondsLeft env entry)) [] crlf_distinct
        whole
      rw [List.append_nil] at cut
      rw [crlf, cut]
      rfl
    · rw [if_neg fun both => taken both.2]
      have part := taken_part env.expire (expireLine entry.key (secondsLeft env entry))
      rw [expire_line_body, crlf] at part taken ⊢
      exact congrArg Prod.fst
        (frames_undivided cr lf [] _ (Undivided.cut cr lf crlf_distinct whole part taken))
  · rw [if_neg left, if_neg fun both => left both.1]
    rfl

variable (alive : expired env.check entry.val.expire = false)
  (sent : env.set = .wrote (setLine entry.key entry.val.ptr).length)

include alive sent

theorem entry_bytes : sentTo fd (syncEntry env fd entry) =
    setBody entry.key entry.val.ptr ++ crlf ++ sentTo fd (syncExpire env fd entry) := by
  rw [entry_events env fd entry (encodable.fitting storable), if_neg (by simp [alive]), if_pos sent,
    sent_write, sent, taken_whole, set_line_body]

/-- The lines of an entry as the replica finds them. -/
theorem entry_frames : (frames cr lf [] (sentTo fd (syncEntry env fd entry))).1 =
    setBody entry.key entry.val.ptr ::
      if Carried env entry then [expireBody entry.key (secondsLeft env entry)] else [] := by
  rw [entry_bytes env fd entry storable encodable alive sent, crlf,
    frames_line cr lf _ _ crlf_distinct
      (body_undivided _ _ encodable.transferable.bareKey encodable.transferable.cleanValue),
    expire_frames env fd entry storable encodable]

theorem entry_free : 0 ∉ sentTo fd (syncEntry env fd entry) := by
  rw [entry_bytes env fd entry storable encodable alive sent, expire_bytes env fd entry storable
    encodable, List.mem_append, List.mem_append]
  rintro ((inside | ended) | behind)
  · exact set_body_free _ _ storable.key storable.ptr inside
  · exact absurd ended (by decide)
  · split at behind
    case isFalse => contradiction
    case isTrue =>
      have written := (taken_part _ _).subset behind
      rw [expire_line_body, List.mem_append] at written
      rcases written with body | ended
      · exact expire_body_free entry.key _ storable.key body
      · exact absurd ended (by decide)

theorem entry_short : ∀ line ∈ (frames cr lf [] (sentTo fd (syncEntry env fd entry))).1,
    line.length < 2 ^ 31 := by
  have relayed := entry_lines_relayed env entry storable encodable
  intro line member
  apply (relayed line _).short
  rw [entry_frames env fd entry storable encodable alive sent] at member
  simp only [entryLines, alive, Bool.false_eq_true, ↓reduceIte]
  rcases List.mem_cons.mp member with rfl | expire
  · exact List.mem_cons_self
  · split at expire
    case isTrue carried =>
      have left := (seconds_left_positive env entry).mpr carried.1
      rw [if_pos left]
      exact List.mem_cons_of_mem _ expire
    case isFalse => contradiction

end Stream

section Replica

/-- The two lines on the replica: the first one makes the copy permanent. -/
theorem lines_bind (worlds : Nat → Oracle) (later : Nat)
    (clock : ∀ line index, (worlds line []).clock index = later) (env : SyncEnv) (entry : DictEntry)
    (storable : Storable entry) (encodable : Encodable entry) (m : Mapping) :
    applyLines worlds 0 (setBody entry.key entry.val.ptr ::
        if Carried env entry then [expireBody entry.key (secondsLeft env entry)] else []) m entry.key =
      some (entry.val.ptr, syncedDeadline env entry later) := by
  have bare := encodable.transferable.bareKey
  have key := given_text entry.key bare.nonempty
  have value : entry.val.ptr ≠ [] := by
    intro empty
    have written := encodable.transferable.written
    rw [empty, if_neg (by decide)] at written
    exact written.nonempty rfl
  have words : tokens (setBody entry.key entry.val.ptr) =
      ascii "SET" :: (given entry.key ++ given entry.val.ptr) := by
    rw [tokens_body _ _ bare encodable.transferable.written, key, given_text _ value]
    rfl
  have present : setBody entry.key entry.val.ptr ≠ [] := by simp [setBody, ascii]
  simp only [applyLines, present, ↓reduceIte,
    cstr_of_nul_free _ (set_body_free _ _ storable.key storable.ptr), words, set_applies, bare.nonempty,
    value, ne_eq, not_false_eq_true, and_self, syncedDeadline]
  by_cases carried : Carried env entry
  · have timed : tokens (expireBody entry.key (secondsLeft env entry)) =
        ascii "EXPIRE" :: (given entry.key ++ [decimal (secondsLeft env entry)]) := by
      have seconds := scan_last _ (clean_decimal (secondsLeft env entry))
      rw [scan_expire, scan_bare entry.key _ bare (by simp [isspace]), key]
      simp [scan, isspace, seconds, given, Numerals.decimal_nonempty]
    have there : expireBody entry.key (secondsLeft env entry) ≠ [] := by simp [expireBody, ascii]
    simp only [carried, ↓reduceIte, applyLines, there,
      cstr_of_nul_free _ (expire_body_free _ (secondsLeft env entry) storable.key), timed,
      expire_applies _ _ _ (seconds_left_fits env entry storable), bare.nonempty, fetch, put_same,
      Option.filter_some, expired, ne_eq, not_true_eq_false, decide_false, Bool.false_and,
      Bool.not_false, clock]
  · simp only [carried, ↓reduceIte, applyLines, put_same]

theorem entry_arrives (replica : Server) (wf : Wellformed replica) (idle : replica.replicaBuffer = [])
    (env : SyncEnv) (fd : Int) (entry : DictEntry) (storable : Storable entry)
    (encodable : Encodable entry) (alive : expired env.check entry.val.expire = false)
    (sent : env.set = .wrote (setLine entry.key entry.val.ptr).length) (chunks : List Bytes)
    (received : chunks.flatten = sentTo fd (syncEntry env fd entry)) (worlds : Nat → Oracle)
    (allocates : ∀ line, (worlds line).Allocates) (later : Nat)
    (clock : ∀ line index, (worlds line []).clock index = later) :
    mapping (receiveChunks worlds 0 chunks replica).db entry.key =
      some (entry.val.ptr, syncedDeadline env entry later) := by
  have applied := chunks_apply worlds allocates chunks 0 replica wf.ready wf.sound
    (idle ▸ undivided_nil cr lf)
    (by
      rw [idle, List.nil_append, received]
      exact entry_free env fd entry storable encodable alive sent)
    (by
      rw [idle, List.nil_append, received]
      exact entry_short env fd entry storable encodable alive sent)
  rw [idle, List.nil_append, received, entry_frames env fd entry storable encodable alive sent]
    at applied
  rw [applied]
  exact lines_bind worlds later clock env entry storable encodable _

/-- However late the seconds are read, they do not reach beyond the entry's deadline by more. -/
theorem synced_deadline_bound (env : SyncEnv) (entry : DictEntry) (order : env.check ≤ env.ttl)
    (later : Nat) (carried : Carried env entry) :
    (syncedDeadline env entry later : Int) ≤ entry.val.expire + (later - env.check) := by
  have left : secondsLeft env entry = (entry.val.expire - env.ttl) / 1000 := by
    have enough := carried.1
    simp only [secondsLeft]
    rw [if_pos ⟨by omega, by omega⟩]
  have enough := carried.1
  simp only [syncedDeadline, if_pos carried, wrap64, left]
  omega

/-- The expiry of a synced entry is preserved exactly where its EXPIRE line is made, sent whole,
    and does not come out as the sentinel. -/
theorem synced_expiry_iff (primary replica : Server) (reachable : Reachable primary)
    (reachableReplica : Reachable replica) (idle : replica.replicaBuffer = []) (entry : DictEntry)
    (stored : entry ∈ primary.db.table.flatten) (encodable : Encodable entry) (env : SyncEnv)
    (alive : expired env.check entry.val.expire = false) (order : env.check ≤ env.ttl)
    (sent : env.set = .wrote (setLine entry.key entry.val.ptr).length) (fd : Int)
    (chunks : List Bytes) (received : chunks.flatten = sentTo fd (syncEntry env fd entry))
    (worlds : Nat → Oracle) (allocates : ∀ line, (worlds line).Allocates) (later : Nat)
    (clock : ∀ line index, (worlds line []).clock index = later) :
    Preserved env entry later (mapping (receiveChunks worlds 0 chunks replica).db) ↔
      Carried env entry ∧ wrap64 (later + secondsLeft env entry * 1000) ≠ 0 := by
  have storable := (reachable_wellformed primary reachable).sound.storable entry stored
  have bound := entry_arrives replica (reachable_wellformed replica reachableReplica) idle env fd entry
    storable encodable alive sent chunks received worlds allocates later clock
  rw [Preserved, bound]
  constructor
  · rintro ⟨deadline, same, nonzero, -⟩
    obtain ⟨-, rfl⟩ := Prod.mk.inj (Option.some.inj same)
    simp only [syncedDeadline] at nonzero
    split at nonzero
    case isTrue carried => exact ⟨carried, nonzero⟩
    case isFalse => contradiction
  · rintro ⟨carried, nonzero⟩
    refine ⟨_, rfl, ?_, synced_deadline_bound env entry order later carried⟩
    rwa [syncedDeadline, if_pos carried]

end Replica

section Samples

set_option maxRecDepth 4000

def timed (expire : Nat) : DictEntry := ⟨ascii "k", ⟨ascii "v", .string, expire, 2, 0⟩⟩

theorem timed_encodable (expire : Nat) : Encodable (timed expire) := by
  have transferable : Transferable (ascii "k") (ascii "v") := by
    refine ⟨clean_bare (ascii "k") (by decide) (by decide), by decide, ?_⟩
    rw [if_neg (by decide)]
    exact clean_bare (ascii "v") (by decide) (by decide)
  have short : (ascii "k").length < 4066 := by decide
  exact ⟨transferable, short⟩

/-- A socket that takes both lines. -/
def takingBoth : SyncEnv := ⟨0, 0, .wrote 9, .wrote 12, fun _ => 0⟩

theorem five_seconds_preserved :
    Preserved takingBoth (timed 5000) 7 (mapping (receiveChunks (fun _ => calm 7) 0
      [ascii "SET k v\r\nEXPIRE k 5\r\n"] follower).db) :=
  (synced_expiry_iff (storing "SET k v PX 5000\r\n") follower (storing_reachable _ (by decide))
    follower_reachable (by decide +kernel) (timed 5000) (by decide +kernel) (timed_encodable 5000)
    takingBoth (by decide) (Nat.le_refl 0) (by decide) 9 _ (by decide +kernel) (fun _ => calm 7)
    (fun _ => calm_allocates 7) 7 (fun _ _ => rfl)).mpr ⟨by decide +kernel, by decide +kernel⟩

/-- Half a second before its deadline a key is copied as a permanent one. -/
theorem last_second_is_permanent :
    Reachable (storing "SET k v PX 500\r\n") ∧ Reachable follower ∧
      timed 500 ∈ (storing "SET k v PX 500\r\n").db.table.flatten ∧ Encodable (timed 500) ∧
      sentTo 9 (syncEntry takingBoth 9 (timed 500)) = ascii "SET k v\r\n" ∧
      ¬ Preserved takingBoth (timed 500) 0 (mapping (receiveChunks (fun _ => calm 0) 0
        [ascii "SET k v\r\n"] follower).db) := by
  refine ⟨storing_reachable _ (by decide), follower_reachable, by decide +kernel,
    timed_encodable 500, by decide +kernel, ?_⟩
  rintro ⟨deadline, bound, nonzero, -⟩
  have permanent : mapping (receiveChunks (fun _ => calm 0) 0 [ascii "SET k v\r\n"] follower).db
      (timed 500).key = some (ascii "v", 0) := by
    decide +kernel
  rw [permanent] at bound
  exact nonzero (Prod.mk.inj (Option.some.inj bound)).2.symm

end Samples

end CrimsonCache.SyncedExpiry
