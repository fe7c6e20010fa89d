import CrimsonCache.Pubsub

/-!
The channel list seen through its lookups: for each name the subscribers of the
first channel of that name. Every operation of pubsub.c is described by what it
does to this view, with a removal that takes the first node of a client only.
-/

namespace CrimsonCache.SubscriberLists

open CString Replies Transaction Pubsub

def subscribersOf (name : Bytes) (channels : List Channel) : List Subscriber :=
  match channels.find? (·.name = name) with
  | none => []
  | some channel => channel.subscribers

/-- A node is added unless the client has one. -/
def enroll (node : Subscriber) (nodes : List Subscriber) : List Subscriber :=
  if nodes.any (·.ptr = node.ptr) then nodes else node :: nodes

theorem enroll_held (node : Subscriber) (nodes : List Subscriber)
    (held : nodes.any (·.ptr = node.ptr) = true) : enroll node nodes = nodes := if_pos held

theorem enroll_fresh (node : Subscriber) (nodes : List Subscriber)
    (fresh : ¬ nodes.any (·.ptr = node.ptr) = true) : enroll node nodes = node :: nodes := if_neg fresh

section Views

@[simp] theorem subscribers_nil (name : Bytes) : subscribersOf name [] = [] := rfl

@[simp] theorem subscribers_cons (name : Bytes) (channel : Channel) (rest : List Channel) :
    subscribersOf name (channel :: rest) =
      if channel.name = name then channel.subscribers else subscribersOf name rest := by
  by_cases hit : channel.name = name
  · simp [subscribersOf, hit]
  · simp [subscribersOf, hit]

theorem is_subscribed_view (ptr : Nat) (name : Bytes) (channels : List Channel) :
    isSubscribed ptr name channels = (subscribersOf name channels).any (·.ptr = ptr) := by
  simp only [isSubscribed, subscribersOf]
  cases channels.find? (·.name = name) <;> rfl

theorem created_view (alloc : Bool) (name other : Bytes) (channels created : List Channel)
    (done : findOrCreateChannel alloc name channels = some created) :
    created.any (·.name = name) = true ∧ subscribersOf other created = subscribersOf other channels := by
  simp only [findOrCreateChannel] at done
  split at done
  case isTrue there =>
    obtain rfl := Option.some.inj done
    exact ⟨there, rfl⟩
  case isFalse missing =>
    split at done
    · obtain rfl := Option.some.inj done
      refine ⟨by simp, ?_⟩
      by_cases hit : name = other
      · subst hit
        have none : channels.find? (·.name = name) = none := by
          simpa using missing
        simp [subscribersOf, none]
      · simp [hit]
    · simp at done

theorem added_view (node : Subscriber) (name other : Bytes) (channels : List Channel)
    (there : channels.any (·.name = name) = true) :
    subscribersOf other (addSubscriber node name channels) =
      if other = name then node :: subscribersOf name channels else subscribersOf other channels := by
  induction channels with
  | nil => simp at there
  | cons channel rest ih =>
      by_cases hit : channel.name = name
      · by_cases same : other = name
        · simp [addSubscriber, hit, same]
        · simp [addSubscriber, hit, same, Ne.symm same]
      · by_cases same : other = name
        · simpa [addSubscriber, hit, same] using ih (by simpa [hit] using there)
        · have rest := ih (by simpa [hit] using there)
          simp [addSubscriber, hit, rest, same]

theorem subscribed_view (channel node : Bool) (client : Client) (name other : Bytes)
    (channels : List Channel) :
    subscribersOf other (subscribeToChannel channel node client name channels).1 =
      if other = name ∧ (subscribeToChannel channel node client name channels).2 = true then
        enroll (subscriber client) (subscribersOf other channels)
      else subscribersOf other channels := by
  cases made : findOrCreateChannel channel name channels with
  | none =>
      have failed : subscribeToChannel channel node client name channels = (channels, false) := by
        simp [subscribeToChannel, made]
      simp [failed]
  | some created =>
      obtain ⟨there, same⟩ := created_view channel name other channels created made
      have named := (created_view channel name name channels created made).2
      by_cases already : (subscribersOf name channels).any (·.ptr = client.ptr) = true
      · have found : subscribeToChannel channel node client name channels = (created, true) := by
          simp only [subscribeToChannel, made, is_subscribed_view, named, already, ↓reduceIte]
        by_cases hit : other = name
        · simp only [found, hit, named, and_self, ↓reduceIte]
          exact (enroll_held (subscriber client) _ already).symm
        · simp only [found, same, hit, false_and, ↓reduceIte]
      · cases node with
        | false =>
            have failed : subscribeToChannel channel false client name channels = (created, false) := by
              simp only [subscribeToChannel, made, is_subscribed_view, named, already, ↓reduceIte,
                Bool.false_eq_true]
            simp [failed, same]
        | true =>
            have added : subscribeToChannel channel true client name channels =
                (addSubscriber (subscriber client) name created, true) := by
              simp only [subscribeToChannel, made, is_subscribed_view, named, already, ↓reduceIte,
                Bool.false_eq_true]
            by_cases hit : other = name
            · simp only [added, added_view _ _ _ _ there, named, hit, and_self, ↓reduceIte]
              exact (enroll_fresh (subscriber client) _ already).symm
            · simp only [added, added_view _ _ _ _ there, same, hit, false_and, ↓reduceIte]

theorem unsubscribed_view (client : Client) (name other : Bytes) (channels : List Channel) :
    subscribersOf other (unsubscribeFromChannel client name channels).1 =
      if other = name then removeSubscriber client.ptr (subscribersOf other channels)
      else subscribersOf other channels := by
  induction channels with
  | nil => simp [unsubscribeFromChannel, removeSubscriber]
  | cons channel rest ih =>
      by_cases hit : channel.name = name
      · by_cases same : other = name
        · subst same
          cases held : channel.subscribers.any (·.ptr = client.ptr) with
          | true => simp [unsubscribeFromChannel, hit, held]
          | false =>
              have kept : removeSubscriber client.ptr channel.subscribers = channel.subscribers :=
                List.eraseP_of_forall_not (by simpa using held)
              simp [unsubscribeFromChannel, hit, held, kept]
        · simp only [unsubscribeFromChannel, hit, ↓reduceIte]
          split <;> simp [hit, Ne.symm same]
      · simp only [unsubscribeFromChannel, hit, ↓reduceIte, subscribers_cons, ih]
        by_cases same : other = name
        · simp [same, hit]
        · simp [same]

theorem left_view (client : Client) (other : Bytes) (channels : List Channel) :
    subscribersOf other (unsubscribeAll client channels).1 =
      removeSubscriber client.ptr (subscribersOf other channels) := by
  induction channels with
  | nil => rfl
  | cons channel rest ih =>
      simp only [unsubscribeAll]
      cases held : channel.subscribers.any (·.ptr = client.ptr) with
      | true =>
          simp only [↓reduceIte, subscribers_cons, ih]
          split <;> rfl
      | false =>
          have kept : removeSubscriber client.ptr channel.subscribers = channel.subscribers :=
            List.eraseP_of_forall_not (by simpa using held)
          simp only [Bool.false_eq_true, ↓reduceIte, subscribers_cons, ih]
          split
          · exact kept.symm
          · rfl

theorem removed_view (ptr : Nat) (other : Bytes) (channels : List Channel) :
    subscribersOf other (pubsubRemoveClient ptr channels) =
      removeSubscriber ptr (subscribersOf other channels) := by
  induction channels with
  | nil => rfl
  | cons channel rest ih =>
      simp only [pubsubRemoveClient, List.map_cons, subscribers_cons]
      split
      · rfl
      · exact ih

theorem subscribe_allocated (client : Client) (name : Bytes) (channels : List Channel) :
    (subscribeToChannel true true client name channels).2 = true := by
  cases there : channels.any (·.name = name) with
  | true =>
      simp only [subscribeToChannel, findOrCreateChannel, there, ↓reduceIte]
      split <;> rfl
  | false =>
      simp only [subscribeToChannel, findOrCreateChannel, there, Bool.false_eq_true, ↓reduceIte]
      split <;> rfl

theorem enroll_twice (node : Subscriber) (nodes : List Subscriber) :
    enroll node (enroll node nodes) = enroll node nodes := by
  apply enroll_held
  by_cases held : nodes.any (·.ptr = node.ptr) = true
  · rw [enroll_held node nodes held, held]
  · rw [enroll_fresh node nodes held]
    simp

/-- A SUBSCRIBE adds nodes of its own client only. -/
theorem subscribe_channels_cases (channel node : Nat → Bool) (client : Client) (index count : Nat)
    (names : List Bytes) (other : Bytes) (channels : List Channel) :
    subscribersOf other (subscribeChannels channel node client index count names channels).1 =
        subscribersOf other channels ∨
      subscribersOf other (subscribeChannels channel node client index count names channels).1 =
        enroll (subscriber client) (subscribersOf other channels) := by
  induction names generalizing index count channels with
  | nil => exact Or.inl rfl
  | cons name rest ih =>
      simp only [subscribeChannels]
      have first := subscribed_view (channel index) (node index) client name other channels
      rcases ih (index + 1) _ (subscribeToChannel (channel index) (node index) client name channels).1 with
        same | added
      · rw [same, first]
        split
        · exact Or.inr rfl
        · exact Or.inl rfl
      · rw [added, first]
        split
        · exact Or.inr (enroll_twice _ _)
        · exact Or.inr rfl

theorem subscribe_channels_view (channel node : Nat → Bool) (client : Client)
    (allocated : ∀ index, channel index = true ∧ node index = true) (index count : Nat)
    (names : List Bytes) (other : Bytes) (channels : List Channel) :
    subscribersOf other (subscribeChannels channel node client index count names channels).1 =
      if other ∈ names then enroll (subscriber client) (subscribersOf other channels)
      else subscribersOf other channels := by
  induction names generalizing index count channels with
  | nil => simp [subscribeChannels]
  | cons name rest ih =>
      have first := subscribed_view true true client name other channels
      simp only [subscribe_allocated, and_true] at first
      simp only [subscribeChannels, (allocated index).1, (allocated index).2, ih, first]
      by_cases here : other = name
      · simp [here, enroll_twice]
      · simp [here]

theorem unsubscribe_channels_view (client : Client) (names : List Bytes) (other : Bytes)
    (channels : List Channel) (distinct : ((subscribersOf other channels).map (·.ptr)).Nodup) :
    subscribersOf other (unsubscribeChannels client names channels).1 =
      if other ∈ names then removeSubscriber client.ptr (subscribersOf other channels)
      else subscribersOf other channels := by
  induction names generalizing channels with
  | nil => simp [unsubscribeChannels]
  | cons name rest ih =>
      have first := unsubscribed_view client name other channels
      by_cases here : other = name
      · simp only [here, ↓reduceIte] at first distinct
        have shorter : ((removeSubscriber client.ptr (subscribersOf name channels)).map (·.ptr)).Nodup :=
          distinct.sublist (List.eraseP_sublist.map _)
        have later := ih (unsubscribeFromChannel client name channels).1 (by rw [here, first]; exact shorter)
        have gone : removeSubscriber client.ptr
            (removeSubscriber client.ptr (subscribersOf name channels)) =
              removeSubscriber client.ptr (subscribersOf name channels) := by
          apply List.eraseP_of_forall_not
          rw [removeSubscriber, erase_unique (fun node : Subscriber => node.ptr) _ _ distinct]
          simp
        simp only [unsubscribeChannels, here, first, gone, ite_self, List.mem_cons, true_or,
          ↓reduceIte] at later ⊢
        exact later
      · simp only [here, ↓reduceIte] at first
        have later := ih (unsubscribeFromChannel client name channels).1 (by rw [first]; exact distinct)
        simpa [unsubscribeChannels, here, first] using later

end Views

section Enrolled

theorem mem_enroll (client node : Subscriber) (nodes : List Subscriber)
    (own : ∀ other ∈ nodes, other.ptr = client.ptr → other = client) :
    node ∈ enroll client nodes ↔ node = client ∨ node ∈ nodes := by
  by_cases held : nodes.any (·.ptr = client.ptr) = true
  · rw [enroll_held client nodes held]
    simp only [List.any_eq_true, decide_eq_true_eq] at held
    obtain ⟨other, member, same⟩ := held
    constructor
    · exact Or.inr
    · rintro (rfl | there)
      · exact own other member same ▸ member
      · exact there
  · rw [enroll_fresh client nodes held]
    exact List.mem_cons

theorem mem_remove (ptr : Nat) (node : Subscriber) (nodes : List Subscriber)
    (distinct : (nodes.map (·.ptr)).Nodup) :
    node ∈ removeSubscriber ptr nodes ↔ node ∈ nodes ∧ node.ptr ≠ ptr := by
  rw [removeSubscriber, erase_unique (fun node : Subscriber => node.ptr) _ _ distinct]
  simp

theorem enroll_distinct (node : Subscriber) (nodes : List Subscriber)
    (distinct : (nodes.map (·.ptr)).Nodup) : ((enroll node nodes).map (·.ptr)).Nodup := by
  by_cases held : nodes.any (·.ptr = node.ptr) = true
  · rwa [enroll_held node nodes held]
  · rw [enroll_fresh node nodes held, List.map_cons, List.nodup_cons]
    refine ⟨fun member => held ?_, distinct⟩
    simpa using member

/-- No client has two nodes in a channel, and only holders have nodes at all. -/
structure Enrolled (holders : List Subscriber) (channels : List Channel) : Prop where
  distinct : ∀ name, ((subscribersOf name channels).map (·.ptr)).Nodup
  held : ∀ name, ∀ node ∈ subscribersOf name channels, node ∈ holders

theorem none_enrolled (holders : List Subscriber) : Enrolled holders [] :=
  ⟨fun _ => List.nodup_nil, fun _ _ member => absurd member List.not_mem_nil⟩

variable {holders : List Subscriber} {channels : List Channel}

theorem Enrolled.subscribe (enrolled : Enrolled holders channels) (channel node : Nat → Bool)
    (client : Client) (holds : subscriber client ∈ holders) (argv : List Bytes) :
    Enrolled holders (pubsubSubscribeClient channel node client argv channels).1 := by
  simp only [pubsubSubscribeClient]
  split
  · exact enrolled
  · constructor
    · intro name
      rcases subscribe_channels_cases channel node client 0 0 argv.tail name channels with same | added
      · exact same ▸ enrolled.distinct name
      · exact added ▸ enroll_distinct _ _ (enrolled.distinct name)
    · intro name other member
      rcases subscribe_channels_cases channel node client 0 0 argv.tail name channels with same | added
      · exact enrolled.held name other (same ▸ member)
      · rw [added] at member
        simp only [enroll] at member
        split at member
        · exact enrolled.held name other member
        · rcases List.mem_cons.mp member with rfl | old
          · exact holds
          · exact enrolled.held name other old

/-- Views that lose at most the nodes of one client. -/
theorem Enrolled.shrink (enrolled : Enrolled holders channels) (after : List Channel)
    (sub : ∀ name, (subscribersOf name after).Sublist (subscribersOf name channels)) :
    Enrolled holders after :=
  ⟨fun name => (enrolled.distinct name).sublist ((sub name).map _),
    fun name node member => enrolled.held name node ((sub name).subset member)⟩

theorem unsubscribe_view (enrolled : Enrolled holders channels) (client : Client) (argv : List Bytes)
    (name : Bytes) :
    subscribersOf name (pubsubUnsubscribeClient client argv channels).1 =
      if argv.length = 1 ∨ name ∈ argv.tail then
        removeSubscriber client.ptr (subscribersOf name channels)
      else subscribersOf name channels := by
  by_cases all : argv.length = 1
  · simp only [pubsubUnsubscribeClient, all, ↓reduceIte, true_or]
    exact left_view client name channels
  · simp only [pubsubUnsubscribeClient, all, ↓reduceIte, false_or]
    exact unsubscribe_channels_view client argv.tail name channels (enrolled.distinct name)

theorem Enrolled.unsubscribe (enrolled : Enrolled holders channels) (client : Client)
    (argv : List Bytes) : Enrolled holders (pubsubUnsubscribeClient client argv channels).1 := by
  apply enrolled.shrink
  intro name
  rw [unsubscribe_view enrolled]
  split
  · exact List.eraseP_sublist
  · exact List.Sublist.refl _

theorem Enrolled.remove (enrolled : Enrolled holders channels) (ptr : Nat) :
    Enrolled (holders.filter (·.ptr ≠ ptr)) (pubsubRemoveClient ptr channels) := by
  constructor
  · intro name
    rw [removed_view]
    exact (enrolled.distinct name).sublist (List.eraseP_sublist.map _)
  · intro name node member
    rw [removed_view, mem_remove _ _ _ (enrolled.distinct name)] at member
    exact List.mem_filter.mpr ⟨enrolled.held name node member.1, by simpa using member.2⟩

end Enrolled

end CrimsonCache.SubscriberLists
