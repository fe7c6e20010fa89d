import CrimsonCache.Library.ChainedTable

/-!
A walk over a chained table that is written to while the walk goes on. The walk
stands in front of a chain or on the entry of a key, whose chain it follows
from there. A key is ahead if the walk would still meet it in the table as it
is; a table that keeps its order keeps the keys ahead.
-/

namespace TableWalk

open ChainedTable

variable {Key Entry : Type}

structure Cursor (Key : Type) where
  bucket : Nat
  last : Option Key
  deriving DecidableEq

def keys (keyOf : Entry → Key) (table : Table Entry) (index : Nat) : List Key :=
  (chain table index).map keyOf

section Walk
variable [DecidableEq Key] (place : Key → Nat) (keyOf : Entry → Key)

/-- What follows the entry of a key in its chain. -/
def behind (key : Key) : List Entry → List Entry
  | [] => []
  | entry :: rest => if keyOf entry = key then rest else behind key rest

/-- What the walk has left of its chain. -/
def rest (table : Table Entry) (cursor : Cursor Key) : List Entry :=
  match cursor.last with
  | none => chain table cursor.bucket
  | some key => behind keyOf key (chain table (place key))

def Ahead (table : Table Entry) (cursor : Cursor Key) (key : Key) : Prop :=
  key ∈ (rest place keyOf table cursor).map keyOf ∨
    ∃ bucket, cursor.bucket < bucket ∧ key ∈ keys keyOf table bucket

theorem behind_suffix (key : Key) (rows : List Entry) : behind keyOf key rows <:+ rows := by
  induction rows with
  | nil => exact List.suffix_refl []
  | cons entry rows ih =>
      simp only [behind]
      split
      · exact List.suffix_cons entry rows
      · exact ih.trans (List.suffix_cons entry rows)

/-- Behind a key are those that the chain has in this order. -/
theorem mem_behind (key other : Key) (rows : List Entry) :
    other ∈ (behind keyOf key rows).map keyOf ↔ [key, other].Sublist (rows.map keyOf) := by
  induction rows with
  | nil => simp [behind]
  | cons entry rows ih =>
      by_cases here : keyOf entry = key
      · simp [behind, here]
      · simp only [behind, here, ↓reduceIte, ih, List.map_cons]
        constructor
        · exact fun inside => inside.cons (keyOf entry)
        · intro inside
          cases inside with
          | cons first later => exact later
          | cons_cons first later => exact absurd rfl here

theorem behind_append (entry : Entry) (before more : List Entry)
    (fresh : keyOf entry ∉ before.map keyOf) :
    behind keyOf (keyOf entry) (before ++ entry :: more) = more := by
  induction before with
  | nil => simp [behind]
  | cons first before ih =>
      rw [List.map_cons, List.mem_cons, not_or] at fresh
      rw [List.cons_append, behind, if_neg (Ne.symm fresh.1), ih fresh.2]

theorem rest_suffix (table : Table Entry) (cursor : Cursor Key) :
    ∃ index, rest place keyOf table cursor <:+ chain table index := by
  cases last : cursor.last with
  | none => exact ⟨cursor.bucket, by simp [rest, last]⟩
  | some key => exact ⟨place key, by simpa [rest, last] using behind_suffix keyOf key _⟩

theorem rest_stored (table : Table Entry) (cursor : Cursor Key) (entry : Entry)
    (member : entry ∈ rest place keyOf table cursor) : entry ∈ table.flatten := by
  obtain ⟨index, suffix⟩ := rest_suffix place keyOf table cursor
  exact (mem_flatten_chain table entry).mpr ⟨index, suffix.subset member⟩

variable {place keyOf}

/-- On the entry it has come to, the walk has left what followed it. -/
theorem rest_visited {table : Table Entry} (valid : Valid place keyOf table) (cursor : Cursor Key)
    (entry : Entry) (more : List Entry) (left : rest place keyOf table cursor = entry :: more) :
    rest place keyOf table ⟨cursor.bucket, some (keyOf entry)⟩ = more := by
  obtain ⟨index, before, whole⟩ := rest_suffix place keyOf table cursor
  rw [left] at whole
  have home := valid.home index entry (by rw [← whole]; simp)
  have fresh : keyOf entry ∉ before.map keyOf := by
    have distinct := valid.distinct index
    rw [← whole, List.map_append, List.nodup_append] at distinct
    intro member
    exact distinct.2.2 _ member _ (List.mem_map_of_mem List.mem_cons_self) rfl
  simp only [rest, home, ← whole]
  exact behind_append keyOf entry before more fresh

theorem ahead_visit {table : Table Entry} (valid : Valid place keyOf table) (cursor : Cursor Key)
    (entry : Entry) (more : List Entry) (left : rest place keyOf table cursor = entry :: more)
    (key : Key) (ahead : Ahead place keyOf table cursor key) :
    key = keyOf entry ∨ Ahead place keyOf table ⟨cursor.bucket, some (keyOf entry)⟩ key := by
  rcases ahead with here | later
  · rw [left, List.map_cons, List.mem_cons] at here
    rcases here with same | inside
    · exact Or.inl same
    · right
      left
      rw [rest_visited valid cursor entry more left]
      exact inside
  · exact Or.inr (Or.inr later)

variable (place keyOf)

theorem ahead_move (table : Table Entry) (cursor : Cursor Key)
    (done : rest place keyOf table cursor = []) (key : Key)
    (ahead : Ahead place keyOf table cursor key) :
    Ahead place keyOf table ⟨cursor.bucket + 1, none⟩ key := by
  rcases ahead with here | ⟨bucket, beyond, inside⟩
  · simp [done] at here
  · rcases Nat.eq_or_lt_of_le beyond with rfl | further
    · exact Or.inl inside
    · exact Or.inr ⟨bucket, further, inside⟩

/-- Behind the last chain nothing is ahead. -/
theorem ahead_over (table : Table Entry) (cursor : Cursor Key)
    (done : rest place keyOf table cursor = []) (last : table.length ≤ cursor.bucket + 1) (key : Key) :
    ¬ Ahead place keyOf table cursor key := by
  rintro (here | ⟨bucket, beyond, inside⟩)
  · simp [done] at here
  · have outside : chain table bucket = [] := by
      simp [chain, List.getD_eq_getElem?_getD, List.getElem?_eq_none (show table.length ≤ bucket by omega)]
    simp [keys, outside] at inside

/-- In front of the first chain everything is ahead. -/
theorem ahead_start (table : Table Entry) (entry : Entry) (member : entry ∈ table.flatten) :
    Ahead place keyOf table ⟨0, none⟩ (keyOf entry) := by
  obtain ⟨bucket, inside⟩ := (mem_flatten_chain table entry).mp member
  rcases Nat.eq_zero_or_pos bucket with rfl | later
  · exact Or.inl (List.mem_map_of_mem inside)
  · exact Or.inr ⟨bucket, later, List.mem_map_of_mem inside⟩

end Walk

section Order
variable [DecidableEq Key] {keyOf : Entry → Key}

/-- Every chain has its keys in the order of before, except for some that may be gone. -/
def Keeps (keyOf : Entry → Key) (gone : List Key) (table after : Table Entry) : Prop :=
  ∀ index, ((keys keyOf table index).filter (· ∉ gone)).Sublist (keys keyOf after index)

theorem Keeps.refl (table : Table Entry) : Keeps keyOf [] table table := by
  intro index
  exact List.filter_sublist

theorem Keeps.trans {first second : List Key} {table middle after : Table Entry}
    (early : Keeps keyOf first table middle) (late : Keeps keyOf second middle after) :
    Keeps keyOf (first ++ second) table after := by
  intro index
  have both : (keys keyOf table index).filter (· ∉ first ++ second) =
      ((keys keyOf table index).filter (· ∉ first)).filter (· ∉ second) := by
    rw [List.filter_filter]
    congr 1
    funext key
    simp [Bool.and_comm]
  rw [both]
  exact ((early index).filter _).trans (late index)

theorem keeps_update (gone : List Key) (table : Table Entry) (index : Nat)
    (change : List Entry → List Entry)
    (kept : ((keys keyOf table index).filter (· ∉ gone)).Sublist
      ((change (chain table index)).map keyOf)) :
    Keeps keyOf gone table (update table index change) := by
  intro other
  by_cases same : index = other
  · subst other
    by_cases bound : index < table.length
    · simpa [keys, chain_update_same table index change bound] using kept
    · have untouched : update table index change = table := by
        simp [update, List.modify_eq_self (Nat.le_of_not_lt bound)]
      rw [untouched]
      exact List.filter_sublist
  · rw [keys, keys, chain_update_other table index other change same]
    exact List.filter_sublist

theorem keeps_overwrite (table : Table Entry) (index : Nat) (key : Key) (change : Entry → Entry)
    (same : ∀ entry, keyOf entry = key → keyOf (change entry) = key) :
    Keeps keyOf [] table (update table index (overwrite keyOf key change)) := by
  apply keeps_update
  rw [overwrite_keys keyOf key change same]
  exact List.filter_sublist

theorem keeps_prepend (table : Table Entry) (index : Nat) (entry : Entry) :
    Keeps keyOf [] table (update table index (entry :: ·)) := by
  apply keeps_update
  exact List.filter_sublist.cons (keyOf entry)

theorem keeps_unlink (table : Table Entry) (index : Nat) (key : Key) :
    Keeps keyOf [key] table (update table index (unlink keyOf key)) := by
  apply keeps_update
  simp only [keys]
  induction chain table index with
  | nil => exact List.Sublist.slnil
  | cons entry rows ih =>
      by_cases here : keyOf entry = key
      · simp [unlink, here]
      · simpa [unlink, here] using ih

/-- What was ahead of the walk stays ahead, if it stays and the walk stands on what stays. -/
theorem ahead_kept (place : Key → Nat) (gone : List Key) (table after : Table Entry)
    (kept : Keeps keyOf gone table after) (cursor : Cursor Key)
    (standing : ∀ last, cursor.last = some last → last ∉ gone) (key : Key) (stays : key ∉ gone)
    (ahead : Ahead place keyOf table cursor key) : Ahead place keyOf after cursor key := by
  have stored (index : Nat) (inside : key ∈ keys keyOf table index) : key ∈ keys keyOf after index := by
    apply (kept index).subset
    simp [inside, stays]
  rcases ahead with here | ⟨bucket, beyond, inside⟩
  · left
    cases last : cursor.last with
    | none =>
        simp only [rest, last] at here ⊢
        exact stored cursor.bucket here
    | some other =>
        simp only [rest, last, mem_behind] at here ⊢
        have pair : [other, key].filter (· ∉ gone) = [other, key] := by
          simp [standing other last, stays]
        rw [← pair]
        exact (here.filter _).trans (kept (place other))
  · exact Or.inr ⟨bucket, beyond, stored bucket inside⟩

end Order

section Growth

/-- Where a rehash puts the keys depends on the keys and their order alone. -/
theorem relink_keys (place : Key → Nat) (keyOf : Entry → Key) (size : Nat)
    (inRange : ∀ key, place key < size) (first second : List Entry)
    (same : first.map keyOf = second.map keyOf) (index : Nat) :
    keys keyOf (relink place keyOf first (empty size)) index =
      keys keyOf (relink place keyOf second (empty size)) index := by
  have sized : ∀ key, place key < (empty size : Table Entry).length := by
    simpa [empty] using inRange
  have selected (rows : List Entry) :
      (rows.filter fun entry => place (keyOf entry) = index).map keyOf =
        (rows.map keyOf).filter fun key => place key = index := by
    rw [List.filter_map]
    rfl
  simp only [keys, chain_relink place keyOf _ _ sized, chain_empty, List.append_nil, List.map_reverse,
    selected, same]

end Growth

end TableWalk
