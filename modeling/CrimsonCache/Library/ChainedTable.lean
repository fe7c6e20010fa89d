import Mathlib.Data.List.Nodup

/-!
Chained hash tables over arbitrary entries. A table is a list of chains and
`place` names the chain a key belongs to; nothing is assumed of the hash beyond
that. The contents of a table are read through the whole entry list, so a
lookup that walks one chain is related to them by `lookup_flatten`, and a
rehash by the closed form of each new chain.
-/

namespace ChainedTable

variable {Key Entry : Type}

abbrev Table (Entry : Type) := List (List Entry)

def chain (table : Table Entry) (index : Nat) : List Entry := table.getD index []

def update (table : Table Entry) (index : Nat) (change : List Entry → List Entry) :
    Table Entry := table.modify index change

def empty (size : Nat) : Table Entry := List.replicate size []

/-- Every entry sits in the chain its key is placed in, once. -/
structure Valid (place : Key → Nat) (keyOf : Entry → Key) (table : Table Entry) : Prop where
  inRange : ∀ key, place key < table.length
  home : ∀ index, ∀ entry ∈ chain table index, place (keyOf entry) = index
  distinct : ∀ index, ((chain table index).map keyOf).Nodup

section Chains

@[simp] theorem length_update (table : Table Entry) (index : Nat)
    (change : List Entry → List Entry) : (update table index change).length = table.length := by
  simp [update]

theorem chain_update_same (table : Table Entry) (index : Nat)
    (change : List Entry → List Entry) (bound : index < table.length) :
    chain (update table index change) index = change (chain table index) := by
  simp [chain, update, List.getD_eq_getElem?_getD, List.getElem?_eq_getElem bound]

theorem chain_update_other (table : Table Entry) (index other : Nat)
    (change : List Entry → List Entry) (different : index ≠ other) :
    chain (update table index change) other = chain table other := by
  simp [chain, update, List.getD_eq_getElem?_getD, different]

@[simp] theorem chain_empty (size index : Nat) : chain (empty size : Table Entry) index = [] := by
  by_cases bound : index < size <;>
    simp [chain, empty, List.getD_eq_getElem?_getD, bound]

theorem flatten_empty (size : Nat) : (empty size : Table Entry).flatten = [] := by
  simp [empty]

theorem mem_flatten_chain (table : Table Entry) (entry : Entry) :
    entry ∈ table.flatten ↔ ∃ index, entry ∈ chain table index := by
  rw [List.mem_flatten]
  constructor
  · rintro ⟨row, stored, member⟩
    obtain ⟨index, bound, same⟩ := List.getElem_of_mem stored
    refine ⟨index, ?_⟩
    simpa [chain, List.getD_eq_getElem?_getD, List.getElem?_eq_getElem bound, same] using member
  · rintro ⟨index, member⟩
    by_cases bound : index < table.length
    · refine ⟨table[index], List.getElem_mem bound, ?_⟩
      simpa [chain, List.getD_eq_getElem?_getD, List.getElem?_eq_getElem bound] using member
    · simp [chain, List.getD_eq_getElem?_getD, List.getElem?_eq_none (Nat.le_of_not_lt bound)]
        at member

theorem table_ext (first second : Table Entry) (size : first.length = second.length)
    (chains : ∀ index, chain first index = chain second index) : first = second := by
  apply List.ext_getElem size
  intro index inFirst inSecond
  simpa [chain, List.getD_eq_getElem?_getD, List.getElem?_eq_getElem inFirst,
    List.getElem?_eq_getElem inSecond] using chains index

theorem chain_map_filter (table : Table Entry) (keep : Entry → Bool) (index : Nat) :
    chain (table.map (List.filter keep)) index = (chain table index).filter keep := by
  simp only [chain, List.getD_eq_getElem?_getD, List.getElem?_map]
  cases table[index]? <;> rfl

/-- Only the touched chain changes the list of stored entries, in place. -/
theorem flatten_update (table : Table Entry) (index : Nat) (bound : index < table.length)
    (change : List Entry → List Entry) :
    ∃ before after, table.flatten = before ++ chain table index ++ after ∧
      (update table index change).flatten = before ++ change (chain table index) ++ after := by
  induction table generalizing index with
  | nil => simp at bound
  | cons row rest ih =>
      cases index with
      | zero => exact ⟨[], rest.flatten, by simp [chain], by simp [chain, update]⟩
      | succ index =>
          obtain ⟨before, after, old, new⟩ := ih index (by simpa using bound)
          refine ⟨row ++ before, after, ?_, ?_⟩
          · simpa [chain] using congrArg (row ++ ·) old
          · simpa [chain, update] using congrArg (row ++ ·) new

end Chains

section Lookup
variable (keyOf : Entry → Key)

theorem nodup_unique (rows : List Entry) (distinct : (rows.map keyOf).Nodup) :
    ∀ a ∈ rows, ∀ b ∈ rows, keyOf a = keyOf b → a = b :=
  fun _ first _ second same => List.inj_on_of_nodup_map distinct first second same

variable [DecidableEq Key]

def lookup (key : Key) (rows : List Entry) : Option Entry :=
  rows.find? fun entry => keyOf entry = key

/-- Replace the first entry of a key, as a walk that stops there does. -/
def overwrite (key : Key) (change : Entry → Entry) : List Entry → List Entry
  | [] => []
  | entry :: rest =>
      if keyOf entry = key then change entry :: rest else entry :: overwrite key change rest

/-- Unlink the first entry of a key. -/
def unlink (key : Key) : List Entry → List Entry
  | [] => []
  | entry :: rest => if keyOf entry = key then rest else entry :: unlink key rest

theorem lookup_key (key : Key) (rows : List Entry) (entry : Entry)
    (found : lookup keyOf key rows = some entry) : keyOf entry = key := by
  simpa using List.find?_some found

theorem lookup_mem (key : Key) (rows : List Entry) (entry : Entry)
    (found : lookup keyOf key rows = some entry) : entry ∈ rows :=
  List.mem_of_find?_eq_some found

theorem lookup_none (key : Key) (rows : List Entry) :
    lookup keyOf key rows = none ↔ ∀ entry ∈ rows, keyOf entry ≠ key := by
  simp [lookup]

theorem lookup_some (key : Key) (rows : List Entry) (entry : Entry)
    (unique : ∀ a ∈ rows, ∀ b ∈ rows, keyOf a = keyOf b → a = b) :
    lookup keyOf key rows = some entry ↔ entry ∈ rows ∧ keyOf entry = key := by
  constructor
  · exact fun found => ⟨lookup_mem keyOf key rows entry found, lookup_key keyOf key rows entry found⟩
  · rintro ⟨member, same⟩
    cases found : lookup keyOf key rows with
    | none => exact absurd same ((lookup_none keyOf key rows).mp found entry member)
    | some other =>
        have matched := lookup_key keyOf key rows other found
        have stored := lookup_mem keyOf key rows other found
        rw [unique entry member other stored (same.trans matched.symm)]

theorem overwrite_keys (key : Key) (change : Entry → Entry)
    (kept : ∀ entry, keyOf entry = key → keyOf (change entry) = key) (rows : List Entry) :
    (overwrite keyOf key change rows).map keyOf = rows.map keyOf := by
  induction rows with
  | nil => rfl
  | cons entry rest ih =>
      by_cases hit : keyOf entry = key
      · simp [overwrite, hit, kept entry hit]
      · simp [overwrite, hit, ih]

/-- An overwrite leaves what its change leaves of every entry. -/
theorem overwrite_map {Part : Type*} (part : Entry → Part) (key : Key) (change : Entry → Entry)
    (rows : List Entry) (kept : ∀ entry, part (change entry) = part entry) :
    (overwrite keyOf key change rows).map part = rows.map part := by
  induction rows with
  | nil => rfl
  | cons entry rest ih =>
      by_cases hit : keyOf entry = key
      · simp [overwrite, hit, kept entry]
      · simp [overwrite, hit, ih]

theorem lookup_overwrite (key other : Key) (change : Entry → Entry)
    (kept : ∀ entry, keyOf entry = key → keyOf (change entry) = key) (rows : List Entry) :
    lookup keyOf other (overwrite keyOf key change rows) =
      if other = key then (lookup keyOf key rows).map change else lookup keyOf other rows := by
  induction rows with
  | nil => simp [overwrite, lookup]
  | cons entry rest ih =>
      by_cases hit : keyOf entry = key
      · by_cases same : other = key
        · simp [overwrite, lookup, hit, same, kept entry hit]
        · simp [overwrite, lookup, hit, same, kept entry hit, Ne.symm same]
      · simp only [overwrite, hit, ↓reduceIte]
        by_cases same : other = key
        · subst other
          simpa [lookup, hit] using ih
        · by_cases first : keyOf entry = other
          · simp [lookup, first, same]
          · simpa [lookup, first, same] using ih

theorem mem_overwrite (key : Key) (change : Entry → Entry) (rows : List Entry) (entry : Entry)
    (member : entry ∈ overwrite keyOf key change rows) :
    entry ∈ rows ∨ ∃ old ∈ rows, keyOf old = key ∧ entry = change old := by
  induction rows with
  | nil => simp [overwrite] at member
  | cons first rest ih =>
      by_cases hit : keyOf first = key
      · simp only [overwrite, hit, ↓reduceIte, List.mem_cons] at member
        rcases member with same | old
        · exact Or.inr ⟨first, List.mem_cons_self, hit, same⟩
        · exact Or.inl (List.mem_cons_of_mem first old)
      · simp only [overwrite, hit, ↓reduceIte, List.mem_cons] at member
        rcases member with same | old
        · exact Or.inl (by simp [same])
        · rcases ih old with kept | ⟨source, stored, matched, result⟩
          · exact Or.inl (List.mem_cons_of_mem first kept)
          · exact Or.inr ⟨source, List.mem_cons_of_mem first stored, matched, result⟩

theorem unlink_sublist (key : Key) (rows : List Entry) :
    (unlink keyOf key rows).Sublist rows := by
  induction rows with
  | nil => exact List.Sublist.slnil
  | cons entry rest ih =>
      by_cases hit : keyOf entry = key
      · simp [unlink, hit]
      · simpa [unlink, hit] using ih

/-- A walk to a key stops at its first entry: what is before and after it stays. -/
theorem lookup_split (key : Key) (rows : List Entry) (entry : Entry)
    (found : lookup keyOf key rows = some entry) :
    ∃ before after, rows = before ++ entry :: after ∧
      (∀ change, overwrite keyOf key change rows = before ++ change entry :: after) ∧
      unlink keyOf key rows = before ++ after := by
  induction rows with
  | nil => simp [lookup] at found
  | cons first rest ih =>
      by_cases hit : keyOf first = key
      · have same : first = entry := by simpa [lookup, hit] using found
        subst entry
        exact ⟨[], rest, rfl, fun change => by simp [overwrite, hit], by simp [unlink, hit]⟩
      · have tail : lookup keyOf key rest = some entry := by simpa [lookup, hit] using found
        obtain ⟨before, after, old, changed, removed⟩ := ih tail
        refine ⟨first :: before, after, by simp [old], fun change => ?_, ?_⟩
        · simp [overwrite, hit, changed]
        · simp [unlink, hit, removed]

theorem unlink_length (key : Key) (rows : List Entry) (entry : Entry)
    (found : lookup keyOf key rows = some entry) :
    (unlink keyOf key rows).length + 1 = rows.length := by
  obtain ⟨before, after, old, _, removed⟩ := lookup_split keyOf key rows entry found
  rw [removed, old]
  simp [Nat.add_assoc]

theorem lookup_unlink (key other : Key) (rows : List Entry) (distinct : (rows.map keyOf).Nodup) :
    lookup keyOf other (unlink keyOf key rows) =
      if other = key then none else lookup keyOf other rows := by
  induction rows with
  | nil => simp [unlink, lookup]
  | cons entry rest ih =>
      have parts := List.nodup_cons.mp (by simpa using distinct :
        (keyOf entry :: rest.map keyOf).Nodup)
      by_cases hit : keyOf entry = key
      · simp only [unlink, hit, ↓reduceIte]
        by_cases same : other = key
        · subst other
          have absent : lookup keyOf key rest = none := by
            rw [lookup_none]
            intro later member matched
            exact parts.1 (List.mem_map.mpr ⟨later, member, matched.trans hit.symm⟩)
          simp [absent]
        · simp [lookup, hit, same, Ne.symm same]
      · simp only [unlink, hit, ↓reduceIte]
        by_cases first : keyOf entry = other
        · have same : other ≠ key := fun wrong => hit (first.trans wrong)
          simp [lookup, first, same]
        · simpa [lookup, first] using ih parts.2

theorem lookup_filter (key : Key) (keep : Entry → Bool) (rows : List Entry)
    (distinct : (rows.map keyOf).Nodup) :
    lookup keyOf key (rows.filter keep) = (lookup keyOf key rows).filter keep := by
  induction rows with
  | nil => simp [lookup]
  | cons entry rest ih =>
      have parts := List.nodup_cons.mp (by simpa using distinct :
        (keyOf entry :: rest.map keyOf).Nodup)
      by_cases hit : keyOf entry = key
      · by_cases kept : keep entry = true
        · simp [lookup, hit, kept, Option.filter]
        · have absent : lookup keyOf key (rest.filter keep) = none := by
            rw [lookup_none]
            intro later member matched
            exact parts.1 (List.mem_map.mpr
              ⟨later, (List.mem_filter.mp member).1, matched.trans hit.symm⟩)
          simp only [List.filter_cons, kept, Bool.false_eq_true, ↓reduceIte, absent]
          simp [lookup, hit, kept, Option.filter]
      · by_cases kept : keep entry = true
        · simpa [lookup, List.filter_cons, kept, hit] using ih parts.2
        · simpa [lookup, List.filter_cons, kept, hit] using ih parts.2

end Lookup

section Placement
variable {place : Key → Nat} {keyOf : Entry → Key}

theorem Valid.mem_iff {table : Table Entry} (valid : Valid place keyOf table) (entry : Entry) :
    entry ∈ table.flatten ↔ entry ∈ chain table (place (keyOf entry)) := by
  rw [mem_flatten_chain]
  constructor
  · rintro ⟨index, member⟩
    rwa [valid.home index entry member]
  · exact fun member => ⟨_, member⟩

theorem Valid.unique {table : Table Entry} (valid : Valid place keyOf table) :
    ∀ a ∈ table.flatten, ∀ b ∈ table.flatten, keyOf a = keyOf b → a = b := by
  intro a first b second same
  have left := (valid.mem_iff a).mp first
  have right := (valid.mem_iff b).mp second
  rw [← same] at right
  exact nodup_unique keyOf _ (valid.distinct _) a left b right same

/-- Walking the home chain of a key reads the whole table. -/
theorem Valid.lookup_flatten [DecidableEq Key] {table : Table Entry} (valid : Valid place keyOf table) (key : Key) :
    lookup keyOf key table.flatten = lookup keyOf key (chain table (place key)) := by
  apply Option.ext
  intro entry
  rw [lookup_some keyOf key _ entry valid.unique,
    lookup_some keyOf key _ entry (nodup_unique keyOf _ (valid.distinct _))]
  constructor
  · rintro ⟨member, rfl⟩
    exact ⟨(valid.mem_iff entry).mp member, rfl⟩
  · rintro ⟨member, rfl⟩
    exact ⟨(valid.mem_iff entry).mpr member, rfl⟩

/-- A chain edit that keeps the chain valid keeps the table valid. -/
theorem Valid.update {table : Table Entry} (valid : Valid place keyOf table) (index : Nat)
    (change : List Entry → List Entry)
    (home : ∀ entry ∈ change (chain table index), place (keyOf entry) = index)
    (distinct : ((change (chain table index)).map keyOf).Nodup) :
    Valid place keyOf (update table index change) := by
  by_cases bound : index < table.length
  · constructor
    · simpa using valid.inRange
    · intro other entry member
      by_cases same : index = other
      · subst other
        rw [chain_update_same table index change bound] at member
        exact home entry member
      · rw [chain_update_other table index other change same] at member
        exact valid.home other entry member
    · intro other
      by_cases same : index = other
      · subst other
        rw [chain_update_same table index change bound]
        exact distinct
      · rw [chain_update_other table index other change same]
        exact valid.distinct other
  · have untouched : ChainedTable.update table index change = table := by
      simp [ChainedTable.update, List.modify_eq_self (Nat.le_of_not_lt bound)]
    rwa [untouched]

/-- An edit that rebinds one key in its home chain rebinds it in the table. -/
theorem Valid.lookup_update [DecidableEq Key] {table : Table Entry}
    (valid : Valid place keyOf table) (key : Key) (change : List Entry → List Entry)
    (result : Option Entry)
    (edited : Valid place keyOf (ChainedTable.update table (place key) change))
    (rebinds : ∀ other, lookup keyOf other (change (chain table (place key))) =
      if other = key then result else lookup keyOf other (chain table (place key)))
    (other : Key) :
    lookup keyOf other (ChainedTable.update table (place key) change).flatten =
      if other = key then result else lookup keyOf other table.flatten := by
  rw [edited.lookup_flatten other, valid.lookup_flatten other]
  by_cases home : place key = place other
  · rw [← home, chain_update_same table (place key) change (valid.inRange key)]
    exact rebinds other
  · have different : other ≠ key := fun same => home (same ▸ rfl)
    rw [chain_update_other table _ _ change home, if_neg different]

theorem Valid.filter {table : Table Entry} (valid : Valid place keyOf table) (keep : Entry → Bool) :
    Valid place keyOf (table.map (List.filter keep)) := by
  constructor
  · simpa using valid.inRange
  · intro index entry member
    rw [chain_map_filter] at member
    exact valid.home index entry (List.mem_filter.mp member).1
  · intro index
    rw [chain_map_filter]
    exact (valid.distinct index).sublist (List.filter_sublist.map keyOf)

theorem flatten_filter (table : Table Entry) (keep : Entry → Bool) :
    (table.map (List.filter keep)).flatten = table.flatten.filter keep := by
  rw [List.filter_flatten]

theorem Valid.distinct_flatten {table : Table Entry} (valid : Valid place keyOf table) :
    (table.flatten.map keyOf).Nodup := by
  rw [List.map_flatten, List.nodup_flatten]
  constructor
  · intro keys member
    obtain ⟨row, stored, same⟩ := List.mem_map.mp member
    subst keys
    obtain ⟨index, bound, rfl⟩ := List.getElem_of_mem stored
    simpa [chain, List.getD_eq_getElem?_getD, List.getElem?_eq_getElem bound]
      using valid.distinct index
  · rw [List.pairwise_iff_getElem]
    intro i j left right below key first second
    simp only [List.getElem_map, List.mem_map] at first second
    rcases first with ⟨a, inA, rfl⟩
    rcases second with ⟨b, inB, same⟩
    simp only [List.length_map] at left right
    have homeA := valid.home i a (by
      simpa [chain, List.getD_eq_getElem?_getD, List.getElem?_eq_getElem left] using inA)
    have homeB := valid.home j b (by
      simpa [chain, List.getD_eq_getElem?_getD, List.getElem?_eq_getElem right] using inB)
    rw [same] at homeB
    omega

end Placement

section Rehash
variable (place : Key → Nat) (keyOf : Entry → Key)

/-- Move entries one by one to the head of the chain they are placed in. -/
def relink (rows : List Entry) (table : Table Entry) : Table Entry :=
  rows.foldl (fun moved entry => update moved (place (keyOf entry)) (entry :: ·)) table

theorem length_relink (rows : List Entry) (table : Table Entry) :
    (relink place keyOf rows table).length = table.length := by
  induction rows generalizing table with
  | nil => rfl
  | cons entry rest ih => simpa [relink] using ih (update table (place (keyOf entry)) (entry :: ·))

theorem relink_append (first second : List Entry) (table : Table Entry) :
    relink place keyOf (first ++ second) table =
      relink place keyOf second (relink place keyOf first table) := by
  simp [relink, List.foldl_append]

-- Prepending one by one reverses the order inside each chain.
theorem chain_relink (rows : List Entry) (table : Table Entry)
    (inRange : ∀ key, place key < table.length) (index : Nat) :
    chain (relink place keyOf rows table) index =
      (rows.filter fun entry => place (keyOf entry) = index).reverse ++ chain table index := by
  induction rows generalizing table with
  | nil => simp [relink]
  | cons entry rest ih =>
      have step : relink place keyOf (entry :: rest) table =
          relink place keyOf rest (update table (place (keyOf entry)) (entry :: ·)) := rfl
      rw [step, ih _ (by simpa using inRange)]
      by_cases hit : place (keyOf entry) = index
      · subst index
        rw [chain_update_same _ _ _ (inRange _)]
        simp
      · rw [chain_update_other _ _ _ _ hit]
        simp [hit]

theorem mem_relink (rows : List Entry) (size : Nat) (inRange : ∀ key, place key < size)
    (entry : Entry) :
    entry ∈ (relink place keyOf rows (empty size)).flatten ↔ entry ∈ rows := by
  rw [mem_flatten_chain]
  have sized : ∀ key, place key < (empty size : Table Entry).length := by
    simpa [empty] using inRange
  simp only [chain_relink place keyOf rows _ sized, chain_empty, List.append_nil,
    List.mem_reverse, List.mem_filter, decide_eq_true_eq]
  exact ⟨fun ⟨_, member, _⟩ => member, fun member => ⟨_, member, rfl⟩⟩

theorem relink_valid (rows : List Entry) (size : Nat) (inRange : ∀ key, place key < size)
    (distinct : (rows.map keyOf).Nodup) :
    Valid place keyOf (relink place keyOf rows (empty size)) := by
  have sized : ∀ key, place key < (empty size : Table Entry).length := by
    simpa [empty] using inRange
  constructor
  · simpa [length_relink] using sized
  · intro index entry member
    simp only [chain_relink place keyOf rows _ sized, chain_empty, List.append_nil,
      List.mem_reverse, List.mem_filter, decide_eq_true_eq] at member
    exact member.2
  · intro index
    rw [chain_relink place keyOf rows _ sized, chain_empty, List.append_nil, List.map_reverse,
      List.nodup_reverse]
    exact distinct.sublist (List.filter_sublist.map keyOf)

/-- Moving entries reorders them and loses none. -/
theorem relink_perm (rows : List Entry) (table : Table Entry)
    (inRange : ∀ key, place key < table.length) :
    (relink place keyOf rows table).flatten.Perm (rows ++ table.flatten) := by
  induction rows generalizing table with
  | nil => exact List.Perm.refl _
  | cons entry rest ih =>
      have step : relink place keyOf (entry :: rest) table =
          relink place keyOf rest (update table (place (keyOf entry)) (entry :: ·)) := rfl
      obtain ⟨before, after, old, new⟩ :=
        flatten_update table (place (keyOf entry)) (inRange _) (entry :: ·)
      have moved : (before ++ entry :: chain table (place (keyOf entry)) ++ after).Perm
          (entry :: table.flatten) := by
        simp only [old, List.append_assoc, List.cons_append]
        exact List.perm_middle
      rw [step]
      have tail := ih (update table (place (keyOf entry)) (entry :: ·)) (by simpa using inRange)
      rw [new] at tail
      exact tail.trans ((moved.append_left rest).trans List.perm_middle)

theorem relink_length (rows : List Entry) (table : Table Entry)
    (inRange : ∀ key, place key < table.length) :
    (relink place keyOf rows table).flatten.length = rows.length + table.flatten.length := by
  simpa using (relink_perm place keyOf rows table inRange).length_eq

end Rehash

end ChainedTable
