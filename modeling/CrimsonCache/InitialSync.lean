import CrimsonCache.ReplicaAgreement

/-!
The SET line of the initial sync and what a replica reads from it. The line
quotes values by three characters, escapes nothing and is cut at 4095 bytes;
the replica gets the entry back exactly when neither the cut, nor the CRLF
splitting, nor the tokenizer sees more in it than was meant.
-/

namespace CrimsonCache.InitialSync

open CString Dictionary DeadlineMap Replies Replication Tokenizer ServerState DataCommands StoredData
  Commands TransactionSteps WriteEffects ReplicationThread ServerRuns ReplicaAgreement Framing Persistence

/-- The value as the line has it. -/
def writtenValue (value : Bytes) : Bytes :=
  if needsQuotes value then quote :: (value ++ [quote]) else value

/-- The line up to its CRLF. -/
def setBody (key value : Bytes) : Bytes := ascii "SET " ++ (key ++ 32 :: writtenValue value)

/-- The keys and values that survive the line. -/
structure Transferable (key value : Bytes) : Prop where
  bareKey : Bare key
  fits : (setLine key value).length < 4096
  cleanValue : if needsQuotes value then Quotable value ∧ Undivided cr lf value else Bare value

/-- The value is read back from its written form. -/
theorem Transferable.written {key value : Bytes} (transferable : Transferable key value) :
    if needsQuotes value then Quotable value else Bare value := by
  have clean := transferable.cleanValue
  split
  case isTrue quotes =>
    simp only [quotes, ↓reduceIte] at clean
    exact clean.1
  case isFalse plain => simpa [plain] using clean

/-- The replica executed one SET of the key to the value, and nothing else. -/
def Transfers (oracles : Nat → Oracle) (replica : Server) (key value written : Bytes) : Prop :=
  (∃ line, executedInputs (-1) (receiveFromPrimary oracles written replica).2 = [line] ∧
    tokens line = [ascii "SET", key, value]) ∧
    mapping (receiveFromPrimary oracles written replica).1.db = put (mapping replica.db) key value 0

theorem set_line_body (key value : Bytes) : setLine key value = setBody key value ++ crlf := by
  simp only [setLine, setBody, writtenValue]
  split <;> simp [ascii, crlf, quote, cr, lf]

theorem set_body_free (key value : Bytes) (freeKey : 0 ∉ key) (freeValue : 0 ∉ value) :
    0 ∉ setBody key value := by
  have text : 0 ∉ ascii "SET " := by decide
  have zero : (0 : UInt8) ≠ 32 ∧ (0 : UInt8) ≠ quote := by decide
  simp only [setBody, writtenValue]
  split <;> simp [text, freeKey, freeValue, zero]

section Tokens

theorem blank_apart (c : UInt8) (blank : isspace c = true) : c ≠ quote := by
  rintro rfl
  rw [quote_solid] at blank
  cases blank

theorem needs_quotes_none (value : Bytes) (plain : needsQuotes value = false) : quote ∉ value := by
  simp only [needsQuotes, Bool.or_eq_false_iff, decide_eq_false_iff_not] at plain
  exact plain.2

/-- A quote behind whitespace closes. -/
theorem closes_after_blank (prev : UInt8) (space rest : Bytes) (plain : prev ≠ backslash)
    (blank : ∀ c ∈ space, isspace c = true) : closesAfter prev (space ++ quote :: rest) = false := by
  induction space generalizing prev with
  | nil => simp [closesAfter, plain]
  | cons c space ih =>
      have apart : c ≠ backslash := by
        rintro rfl
        simp [isspace, backslash] at blank
      have tail := ih c apart fun d member => blank d (List.mem_cons_of_mem c member)
      simp [closesAfter, tail]

theorem quotable_blank (token space : Bytes) (quotable : Quotable token)
    (blank : ∀ c ∈ space, isspace c = true) : ¬ space ++ [quote] <+: token := by
  rintro ⟨rest, rfl⟩
  have closed := closes_after_blank quote space rest (by decide) blank
  rw [Quotable, List.append_assoc, List.singleton_append, closed] at quotable
  contradiction

/-- An only token takes at least its own bytes. -/
theorem scan_single (input token : Bytes) (parsed : scan .skipping input = [token])
    (tight : input.length ≤ token.length) : input = token ∧ Bare token := by
  obtain ⟨space, rest, -, -, ⟨bare, rfl, -⟩ | ⟨-, rfl⟩⟩ := scan_cons_inv input token [] parsed
  · simp only [List.length_append] at tight
    have front : space = [] := List.length_eq_zero_iff.mp (by omega)
    have back : rest = [] := List.length_eq_zero_iff.mp (by omega)
    exact ⟨by simp [front, back], bare⟩
  · simp only [List.length_append, List.length_cons] at tight
    omega

/-- The value is read back from a part of its written form only if that is all of it. -/
theorem parse_value (input value : Bytes) (sub : input <+: writtenValue value)
    (parsed : scan .skipping input = [value]) :
    input = writtenValue value ∧ if needsQuotes value then Quotable value else Bare value := by
  have short := sub.length_le
  simp only [writtenValue] at sub short ⊢
  cases quotes : needsQuotes value with
  | true =>
      simp only [quotes, ↓reduceIte, List.length_cons, List.length_append, List.length_nil] at sub short ⊢
      obtain ⟨space, rest, blank, -, ⟨bare, rfl, -⟩ | ⟨quotable, rfl⟩⟩ :=
        scan_cons_inv input value [] parsed
      · -- The input starts with the quote, so it was not read as a bare token.
        exfalso
        rcases bare with ⟨nonempty, -, head⟩
        cases space with
        | nil =>
            cases value with
            | nil => exact nonempty rfl
            | cons c value => exact head (by simpa using (List.cons_prefix_cons.mp sub).1)
        | cons c space =>
            exact blank_apart c (blank c List.mem_cons_self) (List.cons_prefix_cons.mp sub).1
      · simp only [List.length_append, List.length_cons] at short
        have front : space = [] := List.length_eq_zero_iff.mp (by omega)
        have back : rest = [] := List.length_eq_zero_iff.mp (by omega)
        exact ⟨by simp [front, back], quotable⟩
  | false =>
      simp only [quotes, Bool.false_eq_true, ↓reduceIte] at sub short ⊢
      exact scan_single input value parsed short

/-- A quoted key does not fit into the value together with that value. -/
theorem no_inner_quote (space key value rest : Bytes) (blank : ∀ c ∈ space, isspace c = true)
    (sub : space ++ quote :: (key ++ quote :: rest) <+: writtenValue value)
    (parsed : scan .skipping rest = [value]) : False := by
  simp only [writtenValue] at sub
  cases quotes : needsQuotes value with
  | false =>
      simp only [quotes, Bool.false_eq_true, ↓reduceIte] at sub
      have inside : quote ∈ space ++ quote :: (key ++ quote :: rest) := by simp
      exact needs_quotes_none value quotes (sub.subset inside)
  | true =>
      simp only [quotes, ↓reduceIte] at sub
      cases space with
      | cons c space =>
          exact blank_apart c (blank c List.mem_cons_self) (List.cons_prefix_cons.mp sub).1
      | nil =>
          -- The value follows the key's closing quote, which leaves no room for the key.
          have inner : key ++ quote :: rest <+: value ++ [quote] := (List.cons_prefix_cons.mp sub).2
          have bound := inner.length_le
          simp only [List.length_append, List.length_cons, List.length_nil] at bound
          obtain ⟨same, nonempty, -, head⟩ := scan_single rest value parsed (by omega)
          have none : key = [] := List.length_eq_zero_iff.mp (by
            rw [same] at bound
            omega)
          subst none
          cases value with
          | nil => exact nonempty rfl
          | cons c value =>
              have first : quote = c := (List.cons_prefix_cons.mp inner).1
              exact head (by simp [first])

/-- A key that was read back was written without quotes. -/
theorem parse_key (input key value : Bytes) (sub : input <+: key ++ 32 :: writtenValue value)
    (parsed : scan .skipping input = [key, value]) :
    Bare key ∧ ∃ rest, input = key ++ 32 :: rest ∧ rest <+: writtenValue value ∧
      scan .skipping rest = [value] := by
  obtain ⟨space, rest, blank, tail, ⟨bare, rfl, stop⟩ | ⟨quotable, rfl⟩⟩ :=
    scan_cons_inv input key [value] parsed
  · have front : space = [] := by
      cases space with
      | nil => rfl
      | cons c space =>
          rcases bare with ⟨nonempty, solid, -⟩
          cases key with
          | nil => exact absurd rfl nonempty
          | cons d key =>
              have same : c = d := (List.cons_prefix_cons.mp sub).1
              have first := blank c List.mem_cons_self
              rw [same, solid d List.mem_cons_self] at first
              cases first
    subst front
    rw [List.nil_append, List.prefix_append_right_inj] at sub
    refine ⟨bare, ?_⟩
    cases rest with
    | nil => simp [scan] at tail
    | cons c rest =>
        obtain ⟨rfl, later⟩ := List.cons_prefix_cons.mp sub
        exact ⟨rest, by simp, later, by simpa [scan, isspace] using tail⟩
  · -- A closing quote in the input would have to come from the value.
    exfalso
    have opened : space ++ [quote] <+: key ++ 32 :: writtenValue value :=
      List.IsPrefix.trans ⟨key ++ quote :: rest, by simp⟩ sub
    rcases List.prefix_or_prefix_of_prefix opened (List.prefix_append key _) with inside | outside
    · exact quotable_blank key space quotable blank inside
    · rcases List.prefix_concat_iff.mp outside with rfl | early
      · exact quotable_blank _ space quotable blank (List.prefix_refl _)
      · rcases early with ⟨more, rfl⟩
        rw [List.append_assoc, List.prefix_append_right_inj] at sub
        cases more with
        | nil => exact absurd (List.cons_prefix_cons.mp sub).1 (by decide)
        | cons c more =>
            obtain ⟨rfl, later⟩ := List.cons_prefix_cons.mp sub
            exact no_inner_quote more key value rest (fun d member => blank d (by simp [member])) later
              tail

theorem bare_set : Bare (ascii "SET") :=
  ⟨by simp [ascii], by simp [ascii, isspace], by simp [ascii, quote]⟩

theorem scan_set (rest : Bytes) :
    scan .skipping (ascii "SET " ++ rest) = ascii "SET" :: scan .skipping rest := by
  have split : ascii "SET " ++ rest = ascii "SET" ++ 32 :: rest := rfl
  rw [split, scan_bare _ _ bare_set (by simp [isspace])]
  simp [scan, isspace]

/-- Reading the entry back takes the whole line, and a key and value that allow it. -/
theorem parse_set (line key value : Bytes) (sub : line <+: setBody key value)
    (parsed : scan .skipping line = [ascii "SET", key, value]) :
    line = setBody key value ∧ Bare key ∧
      if needsQuotes value then Quotable value else Bare value := by
  have whole : ascii "SET " <+: line := by
    rcases List.prefix_or_prefix_of_prefix sub (List.prefix_append (ascii "SET ") _) with
      short | long
    · -- Four bytes hold no three tokens.
      have few : ∀ count ≤ 4, (scan .skipping ((ascii "SET ").take count)).length < 3 := by decide
      rw [List.prefix_iff_eq_take.mp short] at parsed
      have bound := few line.length short.length_le
      rw [parsed] at bound
      exact absurd bound (by simp)
    · exact long
  rcases whole with ⟨rest, rfl⟩
  rw [scan_set] at parsed
  obtain ⟨bare, input, rfl, inner, later⟩ :=
    parse_key rest key value (List.prefix_append_right_inj _ |>.mp sub) (List.cons.inj parsed).2
  obtain ⟨rfl, clean⟩ := parse_value input value inner later
  exact ⟨rfl, bare, clean⟩

theorem scan_written (value : Bytes)
    (clean : if needsQuotes value then Quotable value else Bare value) :
    scan .skipping (writtenValue value) = [value] := by
  simp only [writtenValue]
  cases quotes : needsQuotes value with
  | true =>
      simp only [quotes, ↓reduceIte] at clean ⊢
      exact scan_quotable value [] clean
  | false =>
      simp only [quotes, Bool.false_eq_true, ↓reduceIte] at clean ⊢
      simpa [scan] using scan_bare value [] clean (by simp)

theorem tokens_body (key value : Bytes) (bare : Bare key)
    (clean : if needsQuotes value then Quotable value else Bare value) :
    tokens (setBody key value) = [ascii "SET", key, value] := by
  rw [tokens_scan, setBody, scan_set, scan_bare key _ bare (by simp [isspace])]
  simpa [scan, isspace] using scan_written value clean

end Tokens

section Lines

/-- A NUL ends what the line loop looks at. -/
theorem lines_nul (pos : Nat) (line front rest : Bytes) :
    (crlfLines pos line (front ++ 0 :: rest)).1 = (crlfLines pos line front).1 := by
  induction front generalizing pos line with
  | nil => simp [crlfLines]
  | cons c front ih =>
      simp only [List.cons_append, crlfLines]
      split
      · rfl
      · split
        · simp [ih]
        · exact ih _ _

/-- What a replica sees of a line that was cut. -/
theorem formatted_lines (overrun : Nat → UInt8) (line : Bytes) :
    replicaLines (formatted overrun line) =
      replicaLines (if line.length < 4096 then line else line.take 4095) := by
  simp only [formatted]
  split
  · rfl
  · simp only [replicaLines, lines_nul]

/-- The first line that is found is a part of the text with the CRLF behind it. -/
theorem only_line_prefix (text line : Bytes) (free : 0 ∉ text) (starts : ¬ [cr] <+: text)
    (only : replicaLines text = [line]) : line ++ crlf <+: text ∧ Undivided cr lf line := by
  rw [replica_lines_frames text free] at only
  have joined := frames_join cr lf [] text
  have members := frames_members cr lf [] text (undivided_nil cr lf)
  cases cut : (frames cr lf [] text).1 with
  | nil => simp [cut] at only
  | cons first rest =>
      rw [cut, List.flatMap_cons, List.nil_append] at joined
      have nonempty : first ≠ [] := by
        rintro rfl
        exact starts ⟨_, joined⟩
      have same : first = line := by
        rw [cut, List.filter_cons, if_pos (by simpa using nonempty)] at only
        exact (List.cons.inj only).1
      subst same
      refine ⟨⟨_, (List.append_assoc ..).symm.trans joined⟩, members first (by simp [cut])⟩

theorem bare_free (token : Bytes) (bare : Bare token) : cr ∉ token := by
  intro member
  have solid := bare.solid cr member
  rw [crlf_blank cr List.mem_cons_self] at solid
  contradiction

/-- No CRLF is found before the one that ends the line. -/
theorem body_undivided (key value : Bytes) (bare : Bare key)
    (clean : if needsQuotes value then Quotable value ∧ Undivided cr lf value else Bare value) :
    Undivided cr lf (setBody key value) := by
  have front : cr ∉ ascii "SET " := by decide
  have inner : Undivided cr lf (writtenValue value) := by
    simp only [writtenValue]
    cases quotes : needsQuotes value with
    | true =>
        simp only [quotes, ↓reduceIte] at clean ⊢
        have apart : cr ∉ [quote] := by decide
        have opened := Undivided.prepend cr lf apart clean.2
        exact Undivided.snoc cr lf opened quote fun wrong => absurd wrong.1 (by decide)
    | false =>
        simp only [quotes, Bool.false_eq_true, ↓reduceIte] at clean ⊢
        exact Undivided.of_free cr lf (bare_free value clean)
  have middle : cr ∉ key ++ [32] := by
    have solid := bare_free key bare
    simp only [cr] at solid ⊢
    simp [solid]
  rw [setBody, show key ++ 32 :: writtenValue value = (key ++ [32]) ++ writtenValue value by simp]
  exact Undivided.prepend cr lf front (Undivided.prepend cr lf middle inner)

end Lines

section Transfer

theorem lines_transfer_iff (key value : Bytes) (freeKey : 0 ∉ key) (freeValue : 0 ∉ value)
    (overrun : Nat → UInt8) :
    (∃ line, replicaLines (formatted overrun (setLine key value)) = [line] ∧
        tokens line = [ascii "SET", key, value]) ↔ Transferable key value := by
  have free : 0 ∉ setLine key value := by
    rw [set_line_body, List.mem_append]
    rintro (inside | ended)
    · exact set_body_free key value freeKey freeValue inside
    · exact absurd ended (by decide)
  rw [formatted_lines]
  constructor
  · rintro ⟨line, only, parsed⟩
    -- What the replica sees, whole or cut, is a part of the line.
    have seen : (if (setLine key value).length < 4096 then setLine key value
        else (setLine key value).take 4095) <+: setLine key value := by
      split
      · exact List.prefix_refl _
      · exact List.take_prefix _ _
    have starts : ¬ [cr] <+: (if (setLine key value).length < 4096 then setLine key value
        else (setLine key value).take 4095) := by
      intro wrong
      have first := wrong.trans seen
      rw [set_line_body, setBody] at first
      exact absurd (List.cons_prefix_cons.mp first).1 (by decide)
    -- The first line with its CRLF lies in the text, so the line lies in the body.
    obtain ⟨sub, undivided⟩ := only_line_prefix _ line (fun zero => free (seen.subset zero)) starts only
    have length := sub.length_le
    have whole := sub.trans seen
    have body : line <+: setBody key value := by
      rw [set_line_body] at whole
      have shorter := whole.length_le
      simp only [List.length_append] at shorter
      exact List.prefix_of_prefix_length_le ((List.prefix_append line crlf).trans whole)
        (List.prefix_append _ crlf) (by omega)
    rw [tokens_scan] at parsed
    obtain ⟨rfl, bare, clean⟩ := parse_set line key value body parsed
    refine ⟨bare, ?_, ?_⟩
    · by_contra cut
      simp only [cut, ↓reduceIte, List.length_take, ← set_line_body] at length
      omega
    · split
      case isTrue quotes =>
        simp only [quotes, ↓reduceIte] at clean
        refine ⟨clean, fun divided => undivided (divided.trans ?_)⟩
        exact ⟨ascii "SET " ++ key ++ [32, quote], [quote], by simp [setBody, writtenValue, quotes]⟩
      case isFalse plain =>
        simpa [plain] using clean
  · intro transferable
    have written := transferable.written
    rcases transferable with ⟨bare, fits, clean⟩
    refine ⟨setBody key value, ?_, tokens_body key value bare written⟩
    have cut := frames_line cr lf (setBody key value) [] crlf_distinct
      (body_undivided key value bare clean)
    rw [if_pos fits, replica_lines_frames _ free, set_line_body]
    rw [List.append_nil] at cut
    have nonempty : setBody key value ≠ [] := by simp [setBody, ascii]
    rw [crlf, cut]
    simp [frames, nonempty]

/-- Running the line on a replica. -/
theorem line_sets (oracle : Oracle) (allocates : oracle.Allocates) (replica : Server)
    (sound : Sound replica.db) (line key value : Bytes)
    (parsed : tokens (cstr line) = [ascii "SET", key, value]) :
    mapping (executeCommand oracle (-1) line replica).server.db = put (mapping replica.db) key value 0 := by
  have member : (⟨.set, ascii "set", 3, -1⟩ : CommandDef) ∈ commands := by decide
  have name : ascii "set" = commandName (cstr line) := by
    rw [commandName, parsed]
    rfl
  have arity : wrongArity ⟨.set, ascii "set", 3, -1⟩ (tokens (cstr line)).length = false := by
    rw [parsed]
    rfl
  have ran := write_replayed
    (fun index cmd server => executeCommandAt 0 (oracle.inner index) (-1) cmd server) (oracle [])
    (allocates []) (-1) line replica (outside_thread replica) _ member name
    (by simp [parsed]) arity
  have stored := store_string_mapping (oracle []) replica.db sound 1 key value 0 (.string (ascii "OK"))
    (store_string_ok (oracle []) replica.db (allocates []) _ _ _ _ _)
  have direct : executeCommand oracle (-1) line replica = executeWith
      (fun index cmd server => executeCommandAt 0 (oracle.inner index) (-1) cmd server) (oracle [])
      (-1) line replica := rfl
  rw [direct, ran, propagate_db, parsed]
  exact stored

/-- Every entry has its own write. -/
theorem sync_writes (envs : Nat → SyncEnv) (fd : Int) (entries : List DictEntry) (index : Nat)
    (entry : DictEntry) (there : entries[index]? = some entry)
    (alive : expired (envs index).check entry.val.expire = false) (type : entry.val.type = .string) :
    .replicaWrite fd (formatted (envs index).overrun (setLine entry.key entry.val.ptr))
      (envs index).set ∈ syncEntries fd envs entries := by
  induction entries generalizing envs index with
  | nil => simp at there
  | cons first rest ih =>
      cases index with
      | zero =>
          have same : first = entry := by simpa using there
          subst same
          simp [syncEntries, syncEntry, alive, type]
      | succ index =>
          exact List.mem_append_right _ (ih (fun other => envs (other + 1)) index (by simpa using there)
            alive)

/-- An initial sync transfers an entry exactly when its key and value allow it. -/
theorem sync_transfers_iff (primary replica : Server) (reachable : Reachable primary)
    (reachableReplica : Reachable replica) (idle : replica.replicaBuffer = []) (oracles : Nat → Oracle)
    (allocates : ∀ index, (oracles index).Allocates) (fd : Int) (envs : Nat → SyncEnv) (index : Nat)
    (entry : DictEntry) (there : primary.db.table.flatten[index]? = some entry)
    (alive : expired (envs index).check entry.val.expire = false) :
    .replicaWrite fd (formatted (envs index).overrun (setLine entry.key entry.val.ptr))
        (envs index).set ∈ syncReplica envs fd primary.db ∧
      (Transfers oracles replica entry.key entry.val.ptr
          (formatted (envs index).overrun (setLine entry.key entry.val.ptr)) ↔
        Transferable entry.key entry.val.ptr) := by
  have storable := (reachable_wellformed primary reachable).sound.storable entry
    (List.mem_of_getElem? there)
  have wfReplica := reachable_wellformed replica reachableReplica
  have lines := lines_transfer_iff entry.key entry.val.ptr storable.key storable.ptr (envs index).overrun
  obtain ⟨ran, followed⟩ := received_lines oracles
    (formatted (envs index).overrun (setLine entry.key entry.val.ptr)) replica idle wfReplica.ready
  constructor
  · exact sync_writes envs fd _ index entry there alive storable.type
  · rw [Transfers, ran, lines]
    constructor
    · exact fun both => both.1
    · intro transferable
      refine ⟨transferable, ?_⟩
      obtain ⟨line, only, parsed⟩ := lines.mpr transferable
      obtain ⟨position, before, db, after⟩ := followed line only
      rw [after, ← db]
      have free := replica_lines_free _ line (only ▸ List.mem_singleton_self line)
      exact line_sets (oracles position) (allocates position) before (db ▸ wfReplica.sound) line _ _
        (by rw [cstr_of_nul_free line free, parsed])

end Transfer

section Samples

def quietSync : SyncEnv := ⟨0, 0, .failed, .failed, fun _ => 0⟩

theorem plain_entry_transfers :
    Transfers (fun _ => calm 0) follower (ascii "k") (ascii "v")
      (formatted (fun _ => 0) (setLine (ascii "k") (ascii "v"))) := by
  have there : (storing "SET k v\r\n").db.table.flatten[0]? =
      some ⟨ascii "k", ⟨ascii "v", .string, 0, 2, 0⟩⟩ := by decide +kernel
  have bare : Bare (ascii "k") ∧ Bare (ascii "v") :=
    ⟨⟨by simp [ascii], by simp [ascii, isspace], by simp [ascii, quote]⟩,
      ⟨by simp [ascii], by simp [ascii, isspace], by simp [ascii, quote]⟩⟩
  exact (sync_transfers_iff (storing "SET k v\r\n") follower (storing_reachable _ (by decide))
    follower_reachable (by decide +kernel) (fun _ => calm 0) (fun _ => calm_allocates 0) 9
    (fun _ => quietSync) 0 _ there rfl).2.mpr
    ⟨bare.1, by decide, by rw [if_neg (by decide)]; exact bare.2⟩

/-- A key with a space arrives as another key with another value. -/
theorem spaced_key_is_lost :
    Reachable (storing "SET \"a b\" v\r\n") ∧
      (storing "SET \"a b\" v\r\n").db.table.flatten[0]? =
        some ⟨ascii "a b", ⟨ascii "v", .string, 0, 2, 0⟩⟩ ∧
      ¬ Transfers (fun _ => calm 0) follower (ascii "a b") (ascii "v")
        (formatted (fun _ => 0) (setLine (ascii "a b") (ascii "v"))) := by
  refine ⟨storing_reachable _ (by decide), by decide +kernel, ?_⟩
  rintro ⟨-, contents⟩
  have lost : mapping (receiveFromPrimary (fun _ => calm 0)
      (formatted (fun _ => 0) (setLine (ascii "a b") (ascii "v"))) follower).1.db (ascii "a b") =
        none := by decide +kernel
  rw [contents, put_same] at lost
  contradiction

end Samples

end CrimsonCache.InitialSync
