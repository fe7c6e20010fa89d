import Mathlib.Data.Finset.Card
import CrimsonCache.FixedFrames
import CrimsonCache.PubsubDelivery

/-!
The counts in the confirmations of SUBSCRIBE and UNSUBSCRIBE. The first counts
the channels of its own call and the second always says zero, which is what the
client is subscribed to only when a call starts with nothing, or ends with it.
-/

namespace CrimsonCache.ConfirmationCounts

open CString Replies Transaction Pubsub ServerState DataCommands Commands TransactionSteps Connections
  ServerRuns SubscriberLists PubsubDelivery RespValues FixedFrames Runs

section Sets

variable {α : Type} [DecidableEq α]

/-- A counter that goes up by one with each element is the size of the set they are put into. -/
def CountsSet (set : Finset α) : Nat → List α → Prop
  | _, [] => True
  | index, first :: rest =>
      (insert first set).card = index + 1 ∧ CountsSet (insert first set) (index + 1) rest

theorem counts_later (set : Finset α) (elements : List α) :
    CountsSet set set.card elements ↔ elements.Nodup ∧ ∀ element ∈ elements, element ∉ set := by
  induction elements generalizing set with
  | nil => simp [CountsSet]
  | cons first rest ih =>
      rw [CountsSet, List.nodup_cons, List.forall_mem_cons]
      constructor
      · rintro ⟨grows, later⟩
        rw [← grows, ih] at later
        have fresh : first ∉ set := fun held => by
          rw [Finset.insert_eq_of_mem held] at grows
          omega
        refine ⟨⟨fun member => later.2 first member (Finset.mem_insert_self first set), later.1⟩, fresh,
          fun element member held => later.2 element member (Finset.mem_insert_of_mem held)⟩
      · rintro ⟨⟨apart, distinct⟩, fresh, others⟩
        have grows := Finset.card_insert_of_notMem fresh
        refine ⟨grows, ?_⟩
        rw [← grows, ih]
        refine ⟨distinct, fun element member held => ?_⟩
        rcases Finset.mem_insert.mp held with rfl | old
        · exact apart member
        · exact others element member old

/-- An element that is counted does not come again. -/
theorem counts_once (set : Finset α) (index : Nat) (first : α) (rest : List α)
    (counts : CountsSet set index (first :: rest)) (place : Nat) (element : α)
    (there : rest[place]? = some element) : element ≠ first := by
  obtain ⟨grows, later⟩ := counts
  rw [← grows, counts_later] at later
  rintro rfl
  exact later.2 element (List.mem_of_getElem? there) (Finset.mem_insert_self element set)

theorem insert_single (set : Finset α) (first : α) (inside : set ⊆ {first}) :
    insert first set = {first} := by
  refine Finset.Subset.antisymm (Finset.insert_subset (Finset.mem_singleton_self first) inside) ?_
  exact Finset.singleton_subset_iff.mpr (Finset.mem_insert_self first set)

/-- From zero on: the set holds at most the first element, and none comes twice. -/
theorem counts_first (set : Finset α) (first : α) (rest : List α) :
    CountsSet set 0 (first :: rest) ↔ set ⊆ {first} ∧ (first :: rest).Nodup := by
  have single : (insert first set).card = 1 ↔ set ⊆ {first} := by
    constructor
    · intro one
      obtain ⟨only, same⟩ := Finset.card_eq_one.mp one
      have head : first = only := Finset.mem_singleton.mp (same ▸ Finset.mem_insert_self first set)
      rw [head, ← same]
      exact Finset.subset_insert first set
    · intro inside
      rw [insert_single set first inside, Finset.card_singleton]
  rw [CountsSet, single, List.nodup_cons]
  refine and_congr_right fun inside => ?_
  have same := insert_single set first inside
  have later := counts_later {first} rest
  rw [Finset.card_singleton] at later
  rw [same, Nat.zero_add, later, and_comm]
  refine and_congr_left fun _ => ?_
  simp only [Finset.mem_singleton]
  exact ⟨fun apart member => apart first member rfl, fun apart element member same => apart (same ▸ member)⟩

omit [DecidableEq α] in
/-- A property of the places of a list, shifted. -/
theorem places_cons (holds : Nat → α → Prop) (index : Nat) (first : α) (rest : List α) :
    (∀ place element, (first :: rest)[place]? = some element → holds (index + place) element) ↔
      holds index first ∧
        ∀ place element, rest[place]? = some element → holds (index + 1 + place) element := by
  constructor
  · intro each
    refine ⟨each 0 first rfl, fun place element there => ?_⟩
    have later := each (place + 1) element there
    rwa [← Nat.add_assoc, Nat.add_right_comm] at later
  · rintro ⟨head, later⟩ place element there
    cases place with
    | zero => exact Option.some.inj there ▸ head
    | succ place =>
        have held := later place element there
        rwa [Nat.add_right_comm, Nat.add_assoc] at held

end Sets

section Subscriptions

/-- The channels that a client is on. -/
def subscriptions (ptr : Nat) (channels : List Channel) : Finset Bytes :=
  ((channels.map (·.name)).filter fun name => isSubscribed ptr name channels).toFinset

theorem mem_subscriptions (ptr : Nat) (name : Bytes) (channels : List Channel) :
    name ∈ subscriptions ptr channels ↔ isSubscribed ptr name channels = true := by
  simp only [subscriptions, List.mem_toFinset, List.mem_filter, and_iff_right_iff_imp]
  intro subscribed
  simp only [isSubscribed] at subscribed
  split at subscribed
  case h_1 => cases subscribed
  case h_2 channel found =>
    have named := List.find?_some found
    simp only [decide_eq_true_eq] at named
    exact List.mem_map.mpr ⟨channel, List.mem_of_find?_eq_some found, named⟩

theorem mem_view (ptr : Nat) (name : Bytes) (channels : List Channel) :
    name ∈ subscriptions ptr channels ↔ (subscribersOf name channels).any (·.ptr = ptr) = true := by
  rw [mem_subscriptions, is_subscribed_view]

/-- The memory for the channel and the node, as far as they are new. -/
def Memory (channel node : Bool) (ptr : Nat) (name : Bytes) (channels : List Channel) : Prop :=
  (name ∈ channels.map (·.name) ∨ channel = true) ∧
    (name ∈ subscriptions ptr channels ∨ node = true)

theorem subscribe_ok_iff (channel node : Bool) (client : Client) (name : Bytes)
    (channels : List Channel) :
    (subscribeToChannel channel node client name channels).2 = true ↔
      Memory channel node client.ptr name channels := by
  have there : channels.any (·.name = name) = true ↔ name ∈ channels.map (·.name) := by simp
  simp only [Memory, ← there, mem_view]
  cases made : findOrCreateChannel channel name channels with
  | none =>
      have failed : subscribeToChannel channel node client name channels = (channels, false) := by
        simp [subscribeToChannel, made]
      simp only [findOrCreateChannel] at made
      split at made
      case isTrue => cases made
      case isFalse missing =>
        split at made
        case isTrue => cases made
        case isFalse refused =>
          rw [failed]
          simp [missing, refused]
  | some created =>
      have named := (created_view channel name name channels created made).2
      have known : channels.any (·.name = name) = true ∨ channel = true := by
        by_contra neither
        rw [not_or] at neither
        simp [findOrCreateChannel, neither.1, neither.2] at made
      rw [and_iff_right known]
      simp only [subscribeToChannel, made, is_subscribed_view, named]
      split
      case isTrue held => simp [held]
      case isFalse apart =>
        cases node with
        | true => simp
        | false => simpa using apart

theorem subscribed_set (channel node : Bool) (client : Client) (name : Bytes) (channels : List Channel)
    (ok : (subscribeToChannel channel node client name channels).2 = true) :
    subscriptions client.ptr (subscribeToChannel channel node client name channels).1 =
      insert name (subscriptions client.ptr channels) := by
  ext other
  rw [Finset.mem_insert, mem_view, mem_view, subscribed_view, ok]
  by_cases same : other = name
  · rw [if_pos ⟨same, rfl⟩]
    refine iff_of_true ?_ (Or.inl same)
    by_cases held : (subscribersOf other channels).any (·.ptr = client.ptr) = true
    · rwa [enroll_held (subscriber client) _ held]
    · rw [enroll_fresh (subscriber client) _ held]
      simp [subscriber]
  · simp [same]

theorem subscribed_names (channel node : Bool) (client : Client) (name : Bytes)
    (channels : List Channel) :
    (subscribeToChannel channel node client name channels).1.map (·.name) = channels.map (·.name) ∨
      name ∉ channels.map (·.name) ∧
        (subscribeToChannel channel node client name channels).1.map (·.name) =
          name :: channels.map (·.name) := by
  have added (node : Subscriber) (channels : List Channel) :
      (addSubscriber node name channels).map (·.name) = channels.map (·.name) := by
    induction channels with
    | nil => rfl
    | cons channel rest ih =>
        simp only [addSubscriber]
        split
        · rfl
        · rw [List.map_cons, List.map_cons, ih]
  have kept (created : List Channel) (made : findOrCreateChannel channel name channels = some created) :
      (subscribeToChannel channel node client name channels).1.map (·.name) =
        created.map (·.name) := by
    simp only [subscribeToChannel, made]
    split
    · rfl
    · split
      · exact added _ _
      · rfl
  cases made : findOrCreateChannel channel name channels with
  | none => exact Or.inl (by simp [subscribeToChannel, made])
  | some created =>
      rw [kept created made]
      simp only [findOrCreateChannel] at made
      split at made
      case isTrue => exact Or.inl (by rw [Option.some.inj made])
      case isFalse missing =>
        split at made
        case isFalse => cases made
        case isTrue =>
          rw [← Option.some.inj made]
          exact Or.inr ⟨by simpa using missing, rfl⟩

theorem unsubscribe_found_iff (client : Client) (name : Bytes) (channels : List Channel) :
    (unsubscribeFromChannel client name channels).2 = true ↔
      name ∈ subscriptions client.ptr channels := by
  rw [mem_view]
  induction channels with
  | nil => simp [unsubscribeFromChannel]
  | cons channel rest ih =>
      simp only [unsubscribeFromChannel, subscribers_cons]
      split
      case isTrue hit => split <;> simp_all
      case isFalse => exact ih

theorem unsubscribed_set (client : Client) (name : Bytes) (channels : List Channel)
    (distinct : ((subscribersOf name channels).map (·.ptr)).Nodup) :
    subscriptions client.ptr (unsubscribeFromChannel client name channels).1 =
      (subscriptions client.ptr channels).erase name := by
  ext other
  rw [Finset.mem_erase, mem_view, mem_view, unsubscribed_view]
  by_cases same : other = name
  · rw [if_pos same, same]
    refine iff_of_false (fun held => ?_) fun wrong => wrong.1 rfl
    rw [removeSubscriber, erase_unique (fun node : Subscriber => node.ptr) _ _ distinct] at held
    simp at held
  · rw [if_neg same, and_iff_right same]

end Subscriptions

section Confirmed

/-- The frames that a handler writes to its connection, apart from replies. -/
def confirmations (sock : Int) (events : List Event) : List Bytes :=
  events.filterMap fun
    | .write fd data => if fd = sock then some data else none
    | _ => none

/-- The channels that a SUBSCRIBE goes through, each with the lists behind it. -/
def subscribeSteps (channel node : Nat → Bool) (client : Client) :
    Nat → List Bytes → List Channel → List (Bytes × List Channel)
  | _, [], _ => []
  | index, name :: rest, channels =>
      let after := (subscribeToChannel (channel index) (node index) client name channels).1
      (name, after) :: subscribeSteps channel node client (index + 1) rest after

def unsubscribeSteps (client : Client) : List Bytes → List Channel → List (Bytes × List Channel)
  | [], _ => []
  | name :: rest, channels =>
      let after := (unsubscribeFromChannel client name channels).1
      (name, after) :: unsubscribeSteps client rest after

/-- The channels that a client leaves without naming them; `passed` are those in front. -/
def leaveSteps (client : Client) : List Channel → List Channel → List (Bytes × List Channel)
  | _, [] => []
  | passed, channel :: rest =>
      if channel.subscribers.any (·.ptr = client.ptr) then
        let left := { channel with subscribers := removeSubscriber client.ptr channel.subscribers }
        (channel.name, passed ++ left :: rest) :: leaveSteps client (passed ++ [left]) rest
      else leaveSteps client (passed ++ [channel]) rest

/-- What the confirmations of these channels are to say. -/
def trueValues (kind : Bytes) (ptr : Nat) (steps : List (Bytes × List Channel)) : List Value :=
  steps.map fun step => confirmationValue kind step.1 (subscriptions ptr step.2).card

end Confirmed

section Subscribe

variable (channel node : Nat → Bool) (client : Client)

theorem confirmations_skip (sock : Int) (fd : Int) (answer : Reply) (events : List Event) :
    confirmations sock (.reply fd answer :: events) = confirmations sock events := rfl

theorem confirmations_write (sock : Int) (data : Bytes) (events : List Event) :
    confirmations sock (.write sock data :: events) = data :: confirmations sock events := by
  simp [confirmations]

theorem subscribe_confirmations_length (index count : Nat) (names : List Bytes)
    (channels : List Channel) :
    (confirmations client.socket
      (subscribeChannels channel node client index count names channels).2).length ≤ names.length := by
  induction names generalizing index count channels with
  | nil => exact Nat.le_refl 0
  | cons name rest ih =>
      simp only [subscribeChannels]
      split
      · rw [confirmations_write, List.length_cons, List.length_cons]
        exact Nat.succ_le_succ (ih _ _ _)
      · rw [confirmations_skip, List.length_cons]
        exact Nat.le_succ_of_le (ih _ _ _)

theorem subscribe_steps_length (index : Nat) (names : List Bytes) (channels : List Channel) :
    (subscribeSteps channel node client index names channels).length = names.length := by
  induction names generalizing index channels with
  | nil => rfl
  | cons name rest ih => simp [subscribeSteps, ih]

/-- The name at a place gets its memory, and its confirmation fits. -/
def Confirmable (channels : List Channel) (index : Nat) (name : Bytes) : Prop :=
  Memory (channel index) (node index) client.ptr name channels ∧
    confirmationSize (ascii "subscribe") name (index + 1) < 256

/-- Another name finds the same behind a subscription. -/
theorem confirmable_after (name other : Bytes) (different : other ≠ name) (index place : Nat)
    (channels : List Channel)
    (ok : (subscribeToChannel (channel index) (node index) client name channels).2 = true) :
    Confirmable channel node client
        (subscribeToChannel (channel index) (node index) client name channels).1 place other ↔
      Confirmable channel node client channels place other := by
  have set : other ∈ subscriptions client.ptr
      (subscribeToChannel (channel index) (node index) client name channels).1 ↔
        other ∈ subscriptions client.ptr channels := by
    rw [subscribed_set _ _ client name channels ok, Finset.mem_insert, or_iff_right different]
  have names : other ∈ (subscribeToChannel (channel index) (node index) client name channels).1.map
      (·.name) ↔ other ∈ channels.map (·.name) := by
    rcases subscribed_names (channel index) (node index) client name channels with same | ⟨-, more⟩
    · rw [same]
    · rw [more, List.mem_cons, or_iff_right different]
  rw [Confirmable, Confirmable, Memory, Memory, set, names]

/-- The loop confirms the true counts exactly when every name is confirmed and its counter is the
    size of the client's set. -/
theorem subscribe_loop_iff (index : Nat) (names : List Bytes) (channels : List Channel) :
    (confirmations client.socket
        (subscribeChannels channel node client index index names channels).2).map decode =
      (trueValues (ascii "subscribe") client.ptr
        (subscribeSteps channel node client index names channels)).map some ↔
      (∀ place name, names[place]? = some name →
        Confirmable channel node client channels (index + place) name) ∧
      CountsSet (subscriptions client.ptr channels) index names := by
  induction names generalizing index channels with
  | nil => simp [subscribeChannels, subscribeSteps, trueValues, confirmations, CountsSet]
  | cons name rest ih =>
      have memory := subscribe_ok_iff (channel index) (node index) client name channels
      rw [places_cons (Confirmable channel node client channels) index name rest]
      by_cases ok : (subscribeToChannel (channel index) (node index) client name channels).2 = true
      · have set := subscribed_set _ _ client name channels ok
        have later := ih (index + 1)
          (subscribeToChannel (channel index) (node index) client name channels).1
        rw [set] at later
        simp only [subscribeChannels, ok, ↓reduceIte, confirmations_write, subscribeSteps, trueValues,
          List.map_cons, List.cons.injEq, set, confirmation_reads_iff] at later ⊢
        rw [later]
        constructor
        · rintro ⟨⟨fits, grows⟩, each, counts⟩
          have once := counts_once _ index name rest ⟨grows, counts⟩
          refine ⟨⟨⟨memory.mp ok, fits⟩, fun place other there => ?_⟩, grows, counts⟩
          exact (confirmable_after channel node client name other (once place other there) index _
            channels ok).mp (each place other there)
        · rintro ⟨⟨⟨-, fits⟩, each⟩, grows, counts⟩
          have once := counts_once _ index name rest ⟨grows, counts⟩
          refine ⟨⟨fits, grows⟩, fun place other there => ?_, counts⟩
          exact (confirmable_after channel node client name other (once place other there) index _
            channels ok).mpr (each place other there)
      · refine iff_of_false (fun same => ?_) fun holds => ok (memory.mpr holds.1.1.1)
        -- A name without a confirmation leaves too few of them.
        have few := subscribe_confirmations_length channel node client (index + 1) index rest
          (subscribeToChannel (channel index) (node index) client name channels).1
        have lengths := congrArg List.length same
        simp only [subscribeChannels, ok, Bool.false_eq_true, ↓reduceIte, confirmations_skip,
          subscribeSteps, trueValues, List.length_map, List.length_cons, subscribe_steps_length] at lengths
        omega

end Subscribe

section Unsubscribe

variable (client : Client)

theorem unsubscribe_confirmations_length (names : List Bytes) (channels : List Channel) :
    (confirmations client.socket (unsubscribeChannels client names channels).2).length ≤
      names.length := by
  induction names generalizing channels with
  | nil => exact Nat.le_refl 0
  | cons name rest ih =>
      simp only [unsubscribeChannels]
      split
      · rw [confirmations_write, List.length_cons, List.length_cons]
        exact Nat.succ_le_succ (ih _)
      · rw [List.length_cons]
        exact Nat.le_succ_of_le (ih _)

theorem unsubscribe_steps_length (names : List Bytes) (channels : List Channel) :
    (unsubscribeSteps client names channels).length = names.length := by
  induction names generalizing channels with
  | nil => rfl
  | cons name rest ih => simp [unsubscribeSteps, ih]

/-- A name that is not found leaves too few confirmations. -/
theorem missing_unconfirmed (name : Bytes) (rest : List Bytes) (channels : List Channel)
    (missing : name ∉ subscriptions client.ptr channels) :
    (confirmations client.socket (unsubscribeChannels client (name :: rest) channels).2).map decode ≠
      (trueValues (ascii "unsubscribe") client.ptr
        (unsubscribeSteps client (name :: rest) channels)).map some := by
  intro same
  rw [← unsubscribe_found_iff] at missing
  have few := unsubscribe_confirmations_length client rest (unsubscribeFromChannel client name channels).1
  have lengths := congrArg List.length same
  simp only [unsubscribeChannels, missing, Bool.false_eq_true, ↓reduceIte, unsubscribeSteps, trueValues,
    List.length_map, List.length_cons, unsubscribe_steps_length] at lengths
  omega

theorem unsubscribe_loop_iff (names : List Bytes) (channels : List Channel)
    (distinct : ∀ name, ((subscribersOf name channels).map (·.ptr)).Nodup) :
    (confirmations client.socket (unsubscribeChannels client names channels).2).map decode =
      (trueValues (ascii "unsubscribe") client.ptr (unsubscribeSteps client names channels)).map some ↔
      names = [] ∨ ∃ name, names = [name] ∧ subscriptions client.ptr channels = {name} ∧
        confirmationSize (ascii "unsubscribe") name 0 < 256 := by
  cases names with
  | nil => simp [unsubscribeChannels, unsubscribeSteps, trueValues, confirmations]
  | cons name rest =>
      by_cases held : name ∈ subscriptions client.ptr channels
      · have found := (unsubscribe_found_iff client name channels).mpr held
        have set := unsubscribed_set client name channels (distinct name)
        have none : (subscriptions client.ptr channels).erase name = ∅ ↔
            subscriptions client.ptr channels = {name} := by
          rw [Finset.erase_eq_empty_iff]
          exact or_iff_right fun empty => by simp [empty] at held
        constructor
        · intro same
          simp only [unsubscribeChannels, found, ↓reduceIte, confirmations_write, unsubscribeSteps,
            trueValues, List.map_cons, List.cons.injEq, set, confirmation_reads_iff,
            Finset.card_eq_zero, none] at same
          obtain ⟨⟨fits, only⟩, later⟩ := same
          cases rest with
          | nil => exact Or.inr ⟨name, rfl, only, fits⟩
          | cons next others =>
              refine absurd later (missing_unconfirmed client next others _ ?_)
              rw [set, none.mpr only]
              exact Finset.notMem_empty next
        · rintro (wrong | ⟨other, same, only, fits⟩)
          · cases wrong
          · obtain ⟨rfl, rfl⟩ := List.cons.inj same
            simp only [unsubscribeChannels, found, ↓reduceIte, confirmations_write, unsubscribeSteps,
              trueValues, List.map_cons, List.cons.injEq, set, confirmation_reads_iff,
              Finset.card_eq_zero, none]
            exact ⟨⟨fits, only⟩, rfl⟩
      · refine iff_of_false (missing_unconfirmed client name rest channels held) ?_
        rintro (wrong | ⟨other, same, only, -⟩)
        · cases wrong
        · obtain ⟨rfl, -⟩ := List.cons.inj same
          exact held (only ▸ Finset.mem_singleton_self name)

end Unsubscribe

section Leave

/-- One list for each name, and one node for each client in it. -/
structure Distinct (channels : List Channel) : Prop where
  names : (channels.map (·.name)).Nodup
  nodes : ∀ channel ∈ channels, (channel.subscribers.map (·.ptr)).Nodup

def holds (ptr : Nat) (channel : Channel) : Bool := channel.subscribers.any (·.ptr = ptr)

theorem own_subscribers (channels : List Channel) (names : (channels.map (·.name)).Nodup)
    (channel : Channel) (member : channel ∈ channels) :
    subscribersOf channel.name channels = channel.subscribers := by
  induction channels with
  | nil => cases member
  | cons first rest ih =>
      rw [List.map_cons, List.nodup_cons] at names
      rw [subscribers_cons]
      rcases List.mem_cons.mp member with rfl | later
      · rw [if_pos rfl]
      · have apart : first.name ≠ channel.name := fun same =>
          names.1 (same ▸ List.mem_map_of_mem (f := (·.name)) later)
        rw [if_neg apart, ih names.2 later]

/-- A client's subscriptions are the names of the channels that hold it. -/
theorem subscriptions_held (ptr : Nat) (channels : List Channel)
    (names : (channels.map (·.name)).Nodup) :
    subscriptions ptr channels = ((channels.filter (holds ptr)).map (·.name)).toFinset := by
  ext name
  rw [mem_view, List.mem_toFinset, List.mem_map]
  constructor
  · intro subscribed
    have present := (mem_view ptr name channels).mpr subscribed
    simp only [subscriptions, List.mem_toFinset, List.mem_filter, List.mem_map] at present
    obtain ⟨⟨channel, member, rfl⟩, -⟩ := present
    rw [own_subscribers channels names channel member] at subscribed
    exact ⟨channel, List.mem_filter.mpr ⟨member, subscribed⟩, rfl⟩
  · rintro ⟨channel, member, rfl⟩
    rw [List.mem_filter] at member
    rw [own_subscribers channels names channel member.1]
    exact member.2

theorem subscriptions_none_iff (ptr : Nat) (channels : List Channel)
    (names : (channels.map (·.name)).Nodup) :
    subscriptions ptr channels = ∅ ↔ channels.filter (holds ptr) = [] := by
  rw [subscriptions_held ptr channels names, List.toFinset_eq_empty_iff, List.map_eq_nil_iff]

theorem subscriptions_one_iff (ptr : Nat) (channels : List Channel)
    (names : (channels.map (·.name)).Nodup) (fits : Bytes → Prop) :
    (∃ name, subscriptions ptr channels = {name} ∧ fits name) ↔
      ∃ channel, channels.filter (holds ptr) = [channel] ∧ fits channel.name := by
  have distinct : ((channels.filter (holds ptr)).map (·.name)).Nodup :=
    names.sublist (List.filter_sublist.map _)
  rw [subscriptions_held ptr channels names]
  constructor
  · rintro ⟨name, only, fit⟩
    have card := List.toFinset_card_of_nodup distinct
    rw [only, Finset.card_singleton, List.length_map] at card
    obtain ⟨channel, single⟩ := List.length_eq_one_iff.mp card.symm
    rw [single] at only
    have same : channel.name = name := by simpa using only
    exact ⟨channel, single, same ▸ fit⟩
  · rintro ⟨channel, single, fit⟩
    exact ⟨channel.name, by simp [single], fit⟩

theorem Distinct.views {channels : List Channel} (distinct : Distinct channels) (name : Bytes) :
    ((subscribersOf name channels).map (·.ptr)).Nodup := by
  simp only [subscribersOf]
  split
  case h_1 => exact List.nodup_nil
  case h_2 channel found => exact distinct.nodes channel (List.mem_of_find?_eq_some found)

theorem Distinct.of_views {channels : List Channel} (names : (channels.map (·.name)).Nodup)
    (views : ∀ name, ((subscribersOf name channels).map (·.ptr)).Nodup) : Distinct channels :=
  ⟨names, fun channel member => own_subscribers channels names channel member ▸ views channel.name⟩

variable (client : Client)

theorem leave_events (channels : List Channel) :
    (unsubscribeAll client channels).2 = (channels.filter (holds client.ptr)).map fun channel =>
      .write client.socket (confirmation (ascii "unsubscribe") channel.name 0) := by
  induction channels with
  | nil => rfl
  | cons channel rest ih =>
      cases held : holds client.ptr channel with
      | true =>
          have first : (channel.subscribers.any (·.ptr = client.ptr)) = true := held
          simp only [unsubscribeAll, first, ↓reduceIte, List.filter_cons, held, List.map_cons, ih]
      | false =>
          have first : (channel.subscribers.any (·.ptr = client.ptr)) = false := held
          simp only [unsubscribeAll, first, Bool.false_eq_true, ↓reduceIte, List.filter_cons, held, ih]

theorem leave_steps_length (passed channels : List Channel) :
    (leaveSteps client passed channels).length = (channels.filter (holds client.ptr)).length := by
  induction channels generalizing passed with
  | nil => rfl
  | cons channel rest ih =>
      cases held : holds client.ptr channel with
      | true =>
          have first : (channel.subscribers.any (·.ptr = client.ptr)) = true := held
          simp only [leaveSteps, first, ↓reduceIte, List.filter_cons, held, List.length_cons, ih]
      | false =>
          have first : (channel.subscribers.any (·.ptr = client.ptr)) = false := held
          simp only [leaveSteps, first, Bool.false_eq_true, ↓reduceIte, List.filter_cons, held, ih]

/-- Every confirmation says that nothing remains, which is so after the last channel. -/
theorem leave_loop_iff (passed channels : List Channel) (distinct : Distinct (passed ++ channels))
    (gone : passed.filter (holds client.ptr) = []) :
    (confirmations client.socket (unsubscribeAll client channels).2).map decode =
      (trueValues (ascii "unsubscribe") client.ptr (leaveSteps client passed channels)).map some ↔
      channels.filter (holds client.ptr) = [] ∨
        ∃ channel, channels.filter (holds client.ptr) = [channel] ∧
          confirmationSize (ascii "unsubscribe") channel.name 0 < 256 := by
  induction channels generalizing passed with
  | nil => simp [unsubscribeAll, leaveSteps, trueValues, confirmations]
  | cons channel rest ih =>
      by_cases held : holds client.ptr channel = true
      · -- The channel without the client.
        generalize removed : ({ channel with
          subscribers := removeSubscriber client.ptr channel.subscribers } : Channel) = left
        have nodes := distinct.nodes channel (by simp)
        have name : left.name = channel.name := by rw [← removed]
        have released : holds client.ptr left = false := by
          rw [← removed, holds, removeSubscriber,
            erase_unique (fun node : Subscriber => node.ptr) _ _ nodes]
          simp
        have after : Distinct (passed ++ left :: rest) := by
          constructor
          · have names := distinct.names
            rwa [List.map_append, List.map_cons, name, ← List.map_cons, ← List.map_append]
          · intro other member
            rcases List.mem_append.mp member with early | late
            · exact distinct.nodes other (List.mem_append_left _ early)
            · rcases List.mem_cons.mp late with rfl | late
              · rw [← removed]
                exact nodes.sublist (List.eraseP_sublist.map _)
              · exact distinct.nodes other (List.mem_append_right _ (List.mem_cons_of_mem _ late))
        have remain : (subscriptions client.ptr (passed ++ left :: rest)).card = 0 ↔
            rest.filter (holds client.ptr) = [] := by
          rw [Finset.card_eq_zero, subscriptions_none_iff _ _ after.names, List.filter_append, gone,
            List.nil_append, List.filter_cons, released]
          rfl
        have later := ih (passed ++ [left]) (by simpa using after) (by simp [gone, released])
        have first := held
        rw [holds] at first
        simp only [unsubscribeAll, first, leaveSteps, ↓reduceIte, confirmations_write, removed,
          trueValues, List.map_cons, List.cons.injEq, confirmation_reads_iff, remain,
          List.filter_cons, held] at later ⊢
        constructor
        · rintro ⟨⟨fits, none⟩, -⟩
          exact Or.inr ⟨channel, ⟨rfl, none⟩, fits⟩
        · rintro (wrong | ⟨other, ⟨rfl, none⟩, fits⟩)
          · cases wrong
          · exact ⟨⟨fits, none⟩, later.mpr (Or.inl none)⟩
      · have later := ih (passed ++ [channel]) (by simpa using distinct) (by simp [gone, held])
        have first := held
        rw [holds] at first
        simp only [unsubscribeAll, first, leaveSteps, List.filter_cons, held, Bool.false_eq_true,
          ↓reduceIte] at later ⊢
        exact later

/-- What an UNSUBSCRIBE that names no channel is to say. -/
def leaveValues (channels : List Channel) : List Value :=
  match leaveSteps client [] channels with
  | [] => [.array [.bulk (ascii "unsubscribe"), .nullBulk,
      .integer (subscriptions client.ptr channels).card]]
  | steps => trueValues (ascii "unsubscribe") client.ptr steps

theorem leave_iff (argv : List Bytes) (all : argv.length = 1) (channels : List Channel)
    (distinct : Distinct channels) :
    (confirmations client.socket (pubsubUnsubscribeClient client argv channels).2).map decode =
      (leaveValues client channels).map some ↔
      subscriptions client.ptr channels = ∅ ∨
        ∃ name, subscriptions client.ptr channels = {name} ∧
          confirmationSize (ascii "unsubscribe") name 0 < 256 := by
  have events := leave_events client channels
  have steps := leave_steps_length client [] channels
  have loop := leave_loop_iff client [] channels distinct rfl
  rw [subscriptions_none_iff _ _ distinct.names, subscriptions_one_iff _ _ distinct.names
    fun name => confirmationSize (ascii "unsubscribe") name 0 < 256]
  simp only [pubsubUnsubscribeClient, all, ↓reduceIte]
  cases held : channels.filter (holds client.ptr) with
  | nil =>
      rw [held] at events steps
      have none := List.length_eq_zero_iff.mp steps
      have empty := (subscriptions_none_iff _ _ distinct.names).mpr held
      refine iff_of_true ?_ (Or.inl rfl)
      simp only [events, List.map_nil, List.isEmpty_nil, ↓reduceIte, confirmations_write, leaveValues,
        none, empty, Finset.card_empty, List.map_cons, no_channel_decodes]
      rfl
  | cons channel rest =>
      rw [held] at events steps loop
      obtain ⟨step, others, split⟩ := List.exists_cons_of_length_eq_add_one steps
      rw [split] at loop
      have some : (unsubscribeAll client channels).2.isEmpty = false := by rw [events]; rfl
      simp only [leaveValues, split, some, Bool.false_eq_true, ↓reduceIte]
      exact loop

end Leave

section Steps

/-- The confirmations that a command sends to its connection. -/
def sentConfirmations (server : Server) : PubsubStep → List Bytes
  | .subscribe env sock argv => confirmations sock (subscribeCommand env sock argv server).events
  | .unsubscribe sock argv => confirmations sock (unsubscribeCommand sock argv server).events
  | .connect _ _ | .publish _ _ | .disconnect _ => []

/-- One value for each channel that the command names, or leaves without naming it, with the number
    of channels that the client is on behind it. -/
def trueConfirmations (server : Server) : PubsubStep → List Value
  | .subscribe env sock argv =>
      match findClient sock server with
      | none => argv.tail.map fun name => confirmationValue (ascii "subscribe") name 0
      | some client =>
          trueValues (ascii "subscribe") client.ptr
            (subscribeSteps (fun index => env.alloc (.channel index))
              (fun index => env.alloc (.subscriber index)) client 0 argv.tail server.channels)
  | .unsubscribe sock argv =>
      match findClient sock server with
      | none => argv.tail.map fun name => confirmationValue (ascii "unsubscribe") name 0
      | some client =>
          if argv.length = 1 then leaveValues client server.channels
          else trueValues (ascii "unsubscribe") client.ptr
            (unsubscribeSteps client argv.tail server.channels)
  | .connect _ _ | .publish _ _ | .disconnect _ => []

def TrueCounts (server : Server) (step : PubsubStep) : Prop :=
  (sentConfirmations server step).map decode = (trueConfirmations server step).map some

/-- A SUBSCRIBE of distinct names by a client that is on none but the first of them, all with their
    memory; an UNSUBSCRIBE from the only channel of its client, or of a client without one when it
    names none. All confirmations fit. -/
def Countable (server : Server) : PubsubStep → Prop
  | .subscribe env sock argv =>
      argv.tail = [] ∨ ∃ client, findClient sock server = some client ∧ argv.tail.Nodup ∧
        (∀ first ∈ argv.tail.head?, subscriptions client.ptr server.channels ⊆ {first}) ∧
          ∀ index name, argv.tail[index]? = some name →
            Confirmable (fun index => env.alloc (.channel index))
              (fun index => env.alloc (.subscriber index)) client server.channels index name
  | .unsubscribe sock argv =>
      match findClient sock server with
      | none => argv.tail = []
      | some client =>
          (if argv.length = 1 then subscriptions client.ptr server.channels = ∅ else argv.tail = []) ∨
            ∃ name, (argv.length = 1 ∨ argv.tail = [name]) ∧
              subscriptions client.ptr server.channels = {name} ∧
                confirmationSize (ascii "unsubscribe") name 0 < 256
  | .connect _ _ | .publish _ _ | .disconnect _ => True

theorem subscribe_counts_iff (server : Server) (env : Env) (sock : Int) (argv : List Bytes) :
    TrueCounts server (.subscribe env sock argv) ↔ Countable server (.subscribe env sock argv) := by
  simp only [TrueCounts, sentConfirmations, trueConfirmations, Countable]
  cases found : findClient sock server with
  | none =>
      have refused : (subscribeCommand env sock argv server).events =
          [.reply sock (.error (ascii "err client not found for subscribe"))] := by
        simp [subscribeCommand, found, replied]
      rw [refused, confirmations_skip]
      cases argv.tail <;> simp [confirmations]
  | some client =>
      obtain ⟨-, rfl⟩ := get_mem sock _ client found
      have loop := subscribe_loop_iff (fun index => env.alloc (.channel index))
        (fun index => env.alloc (.subscriber index)) client 0 argv.tail server.channels
      have events : confirmations client.socket (subscribeCommand env client.socket argv server).events =
          confirmations client.socket (subscribeChannels (fun index => env.alloc (.channel index))
            (fun index => env.alloc (.subscriber index)) client 0 0 argv.tail server.channels).2 := by
        simp only [subscribeCommand, found, pubsubSubscribeClient]
        split
        case isTrue short =>
          have none : argv.tail = [] := by
            rw [← List.length_eq_zero_iff, List.length_tail]
            omega
          rw [none]
          rfl
        case isFalse => rfl
      simp only [events, loop, Nat.zero_add, Option.some.injEq, exists_eq_left']
      cases argv.tail with
      | nil => simp [CountsSet]
      | cons first rest =>
          rw [counts_first]
          simp only [List.cons_ne_nil, false_or, List.head?_cons, Option.mem_some_iff, forall_eq']
          constructor
          · rintro ⟨each, inside, distinct⟩
            exact ⟨distinct, inside, each⟩
          · rintro ⟨distinct, inside, each⟩
            exact ⟨each, inside, distinct⟩

theorem unsubscribe_counts_iff (server : Server) (distinct : Distinct server.channels) (sock : Int)
    (argv : List Bytes) :
    TrueCounts server (.unsubscribe sock argv) ↔ Countable server (.unsubscribe sock argv) := by
  simp only [TrueCounts, sentConfirmations, trueConfirmations, Countable]
  cases found : findClient sock server with
  | none =>
      have refused : (unsubscribeCommand sock argv server).events =
          [.reply sock (.error (ascii "err client not found for unsubscribe"))] := by
        simp [unsubscribeCommand, found, replied]
      rw [refused, confirmations_skip]
      cases argv.tail <;> simp [confirmations]
  | some client =>
      obtain ⟨-, rfl⟩ := get_mem sock _ client found
      have events : (unsubscribeCommand client.socket argv server).events =
          (pubsubUnsubscribeClient client argv server.channels).2 := by
        simp [unsubscribeCommand, found]
      by_cases all : argv.length = 1
      · have leaves := leave_iff client argv all server.channels distinct
        simpa [events, all] using leaves
      · have loop := unsubscribe_loop_iff client argv.tail server.channels distinct.views
        simp only [events, pubsubUnsubscribeClient, all, ↓reduceIte, false_or]
        exact loop

/-- In every state that keeps one list a name and one node a client. -/
theorem step_counts_iff (server : Server) (distinct : Distinct server.channels) (step : PubsubStep) :
    TrueCounts server step ↔ Countable server step := by
  cases step with
  | connect ptr socket => exact iff_of_true rfl trivial
  | subscribe env sock argv => exact subscribe_counts_iff server env sock argv
  | unsubscribe sock argv => exact unsubscribe_counts_iff server distinct sock argv
  | publish sock argv => exact iff_of_true rfl trivial
  | disconnect sock => exact iff_of_true rfl trivial

end Steps

section Runs

theorem Distinct.subscribe {channels : List Channel} (distinct : Distinct channels)
    (channel node : Nat → Bool) (client : Client) (argv : List Bytes) :
    Distinct (pubsubSubscribeClient channel node client argv channels).1 := by
  have loop (names : List Bytes) (index count : Nat) (channels : List Channel)
      (once : (channels.map (·.name)).Nodup) :
      ((subscribeChannels channel node client index count names channels).1.map (·.name)).Nodup := by
    induction names generalizing index count channels with
    | nil => exact once
    | cons name rest ih =>
        have kept : ((subscribeToChannel (channel index) (node index) client name channels).1.map
            (·.name)).Nodup := by
          rcases subscribed_names (channel index) (node index) client name channels with
            same | ⟨fresh, more⟩
          · rwa [same]
          · rw [more]
            exact List.nodup_cons.mpr ⟨fresh, once⟩
        exact ih _ _ _ kept
  simp only [pubsubSubscribeClient]
  split
  · exact distinct
  · refine Distinct.of_views (loop _ _ _ _ distinct.names) fun name => ?_
    rcases subscribe_channels_cases channel node client 0 0 argv.tail name channels with same | added
    · exact same ▸ distinct.views name
    · exact added ▸ enroll_distinct _ _ (distinct.views name)

theorem unsubscribed_names (client : Client) (name : Bytes) (channels : List Channel) :
    (unsubscribeFromChannel client name channels).1.map (·.name) = channels.map (·.name) := by
  induction channels with
  | nil => rfl
  | cons channel rest ih =>
      simp only [unsubscribeFromChannel]
      split
      · split <;> rfl
      · rw [List.map_cons, List.map_cons, ih]

theorem Distinct.unsubscribe {channels : List Channel} (distinct : Distinct channels)
    (client : Client) (argv : List Bytes) :
    Distinct (pubsubUnsubscribeClient client argv channels).1 := by
  have all (channels : List Channel) :
      (unsubscribeAll client channels).1.map (·.name) = channels.map (·.name) := by
    induction channels with
    | nil => rfl
    | cons channel rest ih =>
        simp only [unsubscribeAll]
        split <;> rw [List.map_cons, List.map_cons, ih]
  have named (names : List Bytes) (channels : List Channel) :
      (unsubscribeChannels client names channels).1.map (·.name) = channels.map (·.name) := by
    induction names generalizing channels with
    | nil => rfl
    | cons name rest ih => exact (ih _).trans (unsubscribed_names client name channels)
  simp only [pubsubUnsubscribeClient]
  split
  · refine Distinct.of_views (by rw [all]; exact distinct.names) fun name => ?_
    rw [left_view]
    exact (distinct.views name).sublist (List.eraseP_sublist.map _)
  · refine Distinct.of_views (by rw [named]; exact distinct.names) fun name => ?_
    rw [unsubscribe_channels_view client argv.tail name channels (distinct.views name)]
    split
    · exact (distinct.views name).sublist (List.eraseP_sublist.map _)
    · exact distinct.views name

theorem Distinct.remove {channels : List Channel} (distinct : Distinct channels) (ptr : Nat) :
    Distinct (pubsubRemoveClient ptr channels) := by
  constructor
  · rw [pubsubRemoveClient, List.map_map]
    exact distinct.names
  · intro channel member
    obtain ⟨old, there, rfl⟩ := List.mem_map.mp member
    exact (distinct.nodes old there).sublist (List.eraseP_sublist.map _)

theorem step_distinct (server : Server) (step : PubsubStep) (distinct : Distinct server.channels) :
    Distinct (stepPubsub server step).channels := by
  cases step with
  | connect ptr socket => exact distinct
  | subscribe env sock argv =>
      cases found : findClient sock server with
      | none => simpa [stepPubsub, subscribeCommand, found, replied] using distinct
      | some client =>
          simp only [stepPubsub, subscribeCommand, found]
          exact distinct.subscribe _ _ client argv
  | unsubscribe sock argv =>
      cases found : findClient sock server with
      | none => simpa [stepPubsub, unsubscribeCommand, found, replied] using distinct
      | some client =>
          simp only [stepPubsub, unsubscribeCommand, found]
          exact distinct.unsubscribe client argv
  | publish sock argv =>
      rw [stepPubsub, publish_state]
      exact distinct
  | disconnect sock =>
      simp only [stepPubsub, closeConnection]
      split
      · exact distinct
      · exact distinct.remove _

/-- In every run of the pub/sub commands, by any clients, a command confirms the true counts exactly
    when it is countable in the state it finds. -/
theorem counts_true_iff (start : Server) (starts : Starts start) (steps : List PubsubStep) :
    ∀ pass ∈ trace stepPubsub start steps, TrueCounts pass.1 pass.2 ↔ Countable pass.1 pass.2 := by
  obtain ⟨now, files, config, same, -⟩ := starts.rest
  have none : start.channels = [] := by rw [same]; rfl
  have fresh : Distinct start.channels := by
    rw [none]
    exact ⟨List.nodup_nil, fun channel member => absurd member List.not_mem_nil⟩
  intro pass member
  have distinct : Distinct pass.1.channels :=
    @trace_invariant _ _ stepPubsub (fun server => Distinct server.channels) step_distinct start fresh
      steps pass member
  exact step_counts_iff pass.1 distinct pass.2

/-- A client that connects subscribes to a channel. -/
def firstChannel : List PubsubStep :=
  [.connect 1 7, .subscribe (calm 0 []) 7 [ascii "subscribe", ascii "a"]]

theorem first_subscription_counts :
    TrueCounts (run stepPubsub emptyServer [.connect 1 7])
      (.subscribe (calm 0 []) 7 [ascii "subscribe", ascii "a"]) := by
  have taken := trace_prefix stepPubsub emptyServer firstChannel [.connect 1 7]
    (.subscribe (calm 0 []) 7 [ascii "subscribe", ascii "a"]) (List.prefix_refl _)
  refine (counts_true_iff emptyServer empty_starts firstChannel _ taken).mpr (Or.inr
    ⟨newClient 1 7 loadDefaultConfig, by decide +kernel, by decide, ?_, ?_⟩)
  · intro first _ name held
    rw [mem_subscriptions] at held
    cases held
  · intro index name there
    cases index with
    | zero =>
        obtain rfl := Option.some.inj there
        exact ⟨⟨Or.inr rfl, Or.inr rfl⟩, by decide⟩
    | succ index => cases there

/-- The SUBSCRIBE of a second channel says one again. -/
theorem second_channel_miscounted :
    Starts emptyServer ∧ Possible emptyServer (.connect 1 7) ∧
      ¬ TrueCounts (run stepPubsub emptyServer firstChannel)
        (.subscribe (calm 0 []) 7 [ascii "subscribe", ascii "b"]) := by
  refine ⟨empty_starts, empty_connects, ?_⟩
  rw [subscribe_counts_iff]
  rintro (none | ⟨client, found, -, inside, -⟩)
  · cases none
  · have own : findClient 7 (run stepPubsub emptyServer firstChannel) =
        some (newClient 1 7 loadDefaultConfig) := by decide +kernel
    rw [own] at found
    obtain rfl := Option.some.inj found
    have there : ascii "a" ∈ subscriptions 1 (run stepPubsub emptyServer firstChannel).channels := by
      rw [mem_subscriptions]
      decide +kernel
    have same := Finset.mem_singleton.mp (inside (ascii "b") rfl there)
    exact absurd same (by decide)

end Runs

end CrimsonCache.ConfirmationCounts
