import CrimsonCache.ServerRuns
import CrimsonCache.SubscriberLists

/-!
Runs of the pub/sub commands: connections come, subscribe, unsubscribe, publish
and go, each operation under the mutex of pubsub.c. The channel lists are at all
times what the history of the run says about the connections that are open.
-/

namespace CrimsonCache.PubsubDelivery

open CString Replies Transaction Pubsub ServerState DataCommands Commands TransactionSteps
  Connections ServerRuns SubscriberLists Runs

inductive PubsubStep where
  | connect (ptr : Nat) (socket : Int)
  | subscribe (env : Env) (sock : Int) (argv : List Bytes)
  | unsubscribe (sock : Int) (argv : List Bytes)
  | publish (sock : Int) (argv : List Bytes)
  | disconnect (sock : Int)

def closeConnection (sock : Int) (server : Server) : Server :=
  match openClient sock server with
  | none => server
  | some client => (disconnectClient client server).1

def stepPubsub (server : Server) : PubsubStep → Server
  | .connect ptr socket => connectClient (newClient ptr socket server.config) server
  | .subscribe env sock argv => (subscribeCommand env sock argv server).server
  | .unsubscribe sock argv => (unsubscribeCommand sock argv server).server
  | .publish sock argv => (publishCommand sock argv server).server
  | .disconnect sock => closeConnection sock server

/-- Descriptors and addresses in use are not handed out again, and no
    allocation of a subscription fails. -/
def Serves (server : Server) : PubsubStep → Prop
  | .connect ptr socket => Possible server (.connect ptr socket)
  | .subscribe env _ _ => ∀ index,
      env.alloc (.channel index) = true ∧ env.alloc (.subscriber index) = true
  | .unsubscribe _ _ => True
  | .publish _ _ => True
  | .disconnect _ => True

/-- Whether an operation puts the connection on the channel or takes it off. A
    SUBSCRIBE of a connection without a slot is answered with an error. -/
def effect (server : Server) (sock : Int) (name : Bytes) : PubsubStep → Option Bool
  | .subscribe _ other argv =>
      if other = sock ∧ name ∈ argv.tail ∧ (findClient sock server).isSome then some true else none
  | .unsubscribe other argv =>
      if other = sock ∧ (argv.length = 1 ∨ name ∈ argv.tail) then some false else none
  | .disconnect other => if other = sock then some false else none
  | .connect _ _ => none
  | .publish _ _ => none

/-- The most recent effective operation of the connection on the channel was a subscribe. -/
def Subscribed (history : List (Server × PubsubStep)) (sock : Int) (name : Bytes) : Prop :=
  (history.filterMap fun taken => effect taken.1 sock name taken.2).getLast? = some true

section Invariant

/-- The channel lists hold what the history says. -/
structure Delivers (history : List (Server × PubsubStep)) (server : Server) : Prop where
  wf : Wellformed server
  enrolled : Enrolled ((listed server.clientList).map subscriber) server.channels
  members : ∀ client ∈ listed server.clientList, ∀ name,
    subscriber client ∈ subscribersOf name server.channels ↔ Subscribed history client.socket name
  registered : ∀ sock name, Subscribed history sock name →
    ∃ client ∈ listed server.clientList, client.socket = sock

theorem subscribed_step (history : List (Server × PubsubStep)) (server : Server) (step : PubsubStep)
    (sock : Int) (name : Bytes) :
    Subscribed (history ++ [(server, step)]) sock name ↔
      match effect server sock name step with
      | none => Subscribed history sock name
      | some joined => joined = true := by
  cases effects : effect server sock name step with
  | none => simp [Subscribed, effects]
  | some joined => simp [Subscribed, effects]

variable {history : List (Server × PubsubStep)} {server : Server}

theorem Delivers.slots (delivers : Delivers history server) :
    ((listed server.clientList).map (·.socket)).Nodup ∧
      ((listed server.clientList).map (·.ptr)).Nodup :=
  ⟨delivers.wf.sockets.sublist ((List.sublist_append_left _ _).map _),
    delivers.wf.ptrs.sublist ((List.sublist_append_left _ _).map _)⟩

theorem Delivers.found_iff (delivers : Delivers history server) (client : Client) :
    findClient client.socket server = some client ↔ client ∈ listed server.clientList := by
  rw [findClient, get_iff _ delivers.slots.1]
  simp

/-- Nodes of one address are nodes of one client. -/
theorem Delivers.own (delivers : Delivers history server) (client : Client)
    (there : client ∈ listed server.clientList) (name : Bytes) :
    ∀ node ∈ subscribersOf name server.channels, node.ptr = client.ptr → node = subscriber client := by
  intro node member same
  obtain ⟨holder, present, rfl⟩ := List.mem_map.mp (delivers.enrolled.held name node member)
  rw [List.inj_on_of_nodup_map delivers.slots.2 present there same]

/-- A step that keeps the clients, and changes the lists as its effects say. -/
theorem Delivers.keep (delivers : Delivers history server) (step : PubsubStep) (after : Server)
    (wf : Wellformed after) (clients : after.clientList = server.clientList)
    (enrolled : Enrolled ((listed server.clientList).map subscriber) after.channels)
    (joins : ∀ client ∈ listed server.clientList, ∀ name,
      subscriber client ∈ subscribersOf name after.channels ↔
        match effect server client.socket name step with
        | none => subscriber client ∈ subscribersOf name server.channels
        | some joined => joined = true)
    (silent : ∀ sock name, findClient sock server = none → effect server sock name step ≠ some true) :
    Delivers (history ++ [(server, step)]) after := by
  constructor
  · exact wf
  · exact clients ▸ enrolled
  · intro client member name
    rw [clients] at member
    rw [joins client member name, subscribed_step]
    cases effect server client.socket name step with
    | none => exact delivers.members client member name
    | some joined => exact Iff.rfl
  · intro sock name subscribed
    rw [clients]
    rw [subscribed_step] at subscribed
    cases found : findClient sock server with
    | some client => exact ⟨client, get_mem sock _ client found⟩
    | none =>
        have quiet := silent sock name found
        cases effects : effect server sock name step with
        | none => exact delivers.registered sock name (by simpa [effects] using subscribed)
        | some joined =>
            rw [effects] at subscribed quiet
            exact absurd (congrArg some subscribed) quiet

theorem subscribe_delivers (delivers : Delivers history server) (env : Env) (sock : Int)
    (argv : List Bytes) (serves : Serves server (.subscribe env sock argv)) :
    Delivers (history ++ [(server, .subscribe env sock argv)])
      (subscribeCommand env sock argv server).server := by
  cases found : findClient sock server with
  | none =>
      have refused : (subscribeCommand env sock argv server).server = server := by
        simp [subscribeCommand, found, replied]
      rw [refused]
      refine delivers.keep _ server delivers.wf rfl delivers.enrolled ?_ ?_
      · intro client member name
        have other : sock ≠ client.socket := by
          rintro rfl
          simp [(delivers.found_iff client).mpr member] at found
        simp [effect, other]
      · intro other name missing
        simp [effect, missing]
  | some holder =>
      obtain ⟨member, rfl⟩ := get_mem sock _ holder found
      have ran : (subscribeCommand env holder.socket argv server).server =
          { server with
            channels := (pubsubSubscribeClient (fun index => env.alloc (.channel index))
              (fun index => env.alloc (.subscriber index)) holder argv server.channels).1 } := by
        simp [subscribeCommand, found]
      rw [ran]
      refine delivers.keep _ _ (same_wellformed _ _ delivers.wf rfl ⟨rfl, rfl, rfl⟩) rfl
        (delivers.enrolled.subscribe _ _ holder (List.mem_map_of_mem member) argv) ?_ ?_
      · intro client there name
        have view : subscribersOf name (pubsubSubscribeClient (fun index => env.alloc (.channel index))
            (fun index => env.alloc (.subscriber index)) holder argv server.channels).1 =
              if name ∈ argv.tail then enroll (subscriber holder) (subscribersOf name server.channels)
              else subscribersOf name server.channels := by
          simp only [pubsubSubscribeClient]
          split
          case isTrue short =>
            have none : argv.tail = [] := List.eq_nil_of_length_eq_zero (by simp; omega)
            simp [none]
          case isFalse => exact subscribe_channels_view _ _ holder serves 0 0 argv.tail name _
        rw [view]
        by_cases listening : name ∈ argv.tail
        · by_cases same : client = holder
          · subst same
            simp [effect, listening, found, mem_enroll (subscriber client) _ _ (delivers.own client there name)]
          · have differs : holder.socket ≠ client.socket := fun equal =>
              same (List.inj_on_of_nodup_map delivers.slots.1 there member equal.symm)
            have nodes : subscriber client ≠ subscriber holder := fun equal =>
              differs (congrArg Subscriber.socket equal).symm
            have joined := mem_enroll (subscriber holder) (subscriber client) _
              (delivers.own holder member name)
            simp [effect, listening, differs, nodes, joined]
        · simp [effect, listening]
      · intro other name missing
        simp [effect, missing]

theorem unsubscribe_delivers (delivers : Delivers history server) (sock : Int)
    (argv : List Bytes) :
    Delivers (history ++ [(server, .unsubscribe sock argv)])
      (unsubscribeCommand sock argv server).server := by
  have silent : ∀ other name, findClient other server = none →
      effect server other name (.unsubscribe sock argv) ≠ some true := by
    intro other name missing
    simp [effect]
  cases found : findClient sock server with
  | none =>
      have refused : (unsubscribeCommand sock argv server).server = server := by
        simp [unsubscribeCommand, found, replied]
      rw [refused]
      refine delivers.keep _ server delivers.wf rfl delivers.enrolled ?_ silent
      intro client member name
      have other : sock ≠ client.socket := by
        rintro rfl
        simp [(delivers.found_iff client).mpr member] at found
      simp [effect, other]
  | some holder =>
      obtain ⟨member, rfl⟩ := get_mem sock _ holder found
      have ran : (unsubscribeCommand holder.socket argv server).server =
          { server with channels := (pubsubUnsubscribeClient holder argv server.channels).1 } := by
        simp [unsubscribeCommand, found]
      rw [ran]
      refine delivers.keep _ _ (same_wellformed _ _ delivers.wf rfl ⟨rfl, rfl, rfl⟩) rfl
        (delivers.enrolled.unsubscribe holder argv) ?_ silent
      intro client there name
      rw [unsubscribe_view delivers.enrolled]
      by_cases leaving : argv.length = 1 ∨ name ∈ argv.tail
      · have gone := mem_remove holder.ptr (subscriber client) _ (delivers.enrolled.distinct name)
        by_cases same : client = holder
        · subst same
          simp only [leaving, ↓reduceIte, gone, effect, and_self, Bool.false_eq_true, iff_false]
          exact fun both => both.2 rfl
        · have differs : holder.socket ≠ client.socket := fun equal =>
            same (List.inj_on_of_nodup_map delivers.slots.1 there member equal.symm)
          have ptrs : client.ptr ≠ holder.ptr := fun equal =>
            same (List.inj_on_of_nodup_map delivers.slots.2 there member equal)
          simp only [leaving, ↓reduceIte, gone, effect, differs, false_and]
          exact and_iff_left ptrs
      · simp [effect, leaving]

theorem publish_state (sock : Int) (argv : List Bytes) (server : Server) :
    (publishCommand sock argv server).server = server := by
  simp only [publishCommand]
  split <;> rfl

theorem publish_delivers (delivers : Delivers history server) (sock : Int) (argv : List Bytes) :
    Delivers (history ++ [(server, .publish sock argv)]) (publishCommand sock argv server).server := by
  rw [publish_state]
  refine delivers.keep _ server delivers.wf rfl delivers.enrolled ?_ ?_
  · intro client _ name
    simp [effect]
  · intro other name _
    simp [effect]

/-- A new connection is on no channel: what its descriptor was once used for has
    ended with a disconnect. -/
theorem connect_delivers (delivers : Delivers history server) (ptr : Nat) (socket : Int)
    (possible : Possible server (.connect ptr socket)) :
    Delivers (history ++ [(server, .connect ptr socket)])
      (connectClient (newClient ptr socket server.config) server) := by
  have kept (client : Client) (member : client ∈ listed server.clientList) :
      client ∈ listed (connectClient (newClient ptr socket server.config) server).clientList := by
    by_cases free : none ∈ server.clientList
    · exact (register_listed _ _ free).symm.subset (List.mem_cons_of_mem _ member)
    · simpa [connectClient, register_full _ _ free] using member
  have unchanged (sock : Int) (name : Bytes) :
      Subscribed (history ++ [(server, .connect ptr socket)]) sock name ↔
        Subscribed history sock name := by simp [subscribed_step, effect]
  obtain ⟨positive, freshSocket, freshPtr⟩ := possible
  constructor
  · exact connect_wellformed ptr socket server delivers.wf ⟨positive, freshSocket, freshPtr⟩
  · constructor
    · exact delivers.enrolled.distinct
    · intro name node member
      obtain ⟨client, there, same⟩ := List.mem_map.mp (delivers.enrolled.held name node member)
      exact List.mem_map.mpr ⟨client, kept client there, same⟩
  · intro client member name
    rw [unchanged]
    rcases connect_listed ptr socket server client member with rfl | old
    · have silent : ¬ Subscribed history socket name := by
        intro subscribed
        obtain ⟨other, there, same⟩ := delivers.registered socket name subscribed
        exact freshSocket (List.mem_map.mpr ⟨other, List.mem_append_left _ there, same⟩)
      have absent : subscriber (newClient ptr socket server.config) ∉
          subscribersOf name server.channels := by
        intro there
        obtain ⟨other, present, same⟩ := List.mem_map.mp (delivers.enrolled.held name _ there)
        exact freshPtr (List.mem_map.mpr ⟨other, List.mem_append_left _ present,
          congrArg Subscriber.ptr same⟩)
      exact ⟨fun there => absurd there absent, fun subscribed => absurd subscribed silent⟩
    · exact delivers.members client old name
  · intro sock name subscribed
    obtain ⟨client, there, same⟩ := delivers.registered sock name ((unchanged sock name).mp subscribed)
    exact ⟨client, kept client there, same⟩

theorem disconnect_delivers (delivers : Delivers history server) (sock : Int) :
    Delivers (history ++ [(server, .disconnect sock)]) (closeConnection sock server) := by
  cases found : openClient sock server with
  | none =>
      simp only [closeConnection, found]
      have absent (client : Client) (member : client ∈ listed server.clientList) :
          sock ≠ client.socket := by
        rintro rfl
        have missing := List.find?_eq_none.mp found client (List.mem_append_left _ member)
        simp at missing
      refine delivers.keep _ server delivers.wf rfl delivers.enrolled ?_ ?_
      · intro client member name
        simp [effect, absent client member]
      · intro other name _
        simp [effect]
  | some holder =>
      simp only [closeConnection, found]
      obtain ⟨member, rfl⟩ := open_client_mem sock server holder found
      obtain ⟨slots, -⟩ := disconnect_open holder server delivers.wf
      have stays (client : Client) :
          client ∈ listed (disconnectClient holder server).1.clientList ↔
            client ∈ listed server.clientList ∧ client.socket ≠ holder.socket := by
        rw [slots, List.mem_filter]
        simp only [ne_eq, decide_not, Bool.not_eq_eq_eq_not, Bool.not_true, decide_eq_false_iff_not]
        refine and_congr_right fun there => not_congr ?_
        exact open_socket_ptr server delivers.wf holder client member (List.mem_append_left _ there)
      constructor
      · exact disconnect_wellformed holder server delivers.wf
      · have removed := delivers.enrolled.remove holder.ptr
        rw [List.filter_map] at removed
        exact slots ▸ removed
      · intro client there name
        obtain ⟨old, differs⟩ := (stays client).mp there
        have ptrs : client.ptr ≠ holder.ptr := fun same =>
          differs ((open_socket_ptr server delivers.wf holder client member
            (List.mem_append_left _ old)).mp same)
        have view := removed_view holder.ptr name server.channels
        simp only [disconnectClient, view, mem_remove _ _ _ (delivers.enrolled.distinct name),
          subscribed_step, effect, Ne.symm differs, ↓reduceIte, delivers.members client old name]
        exact and_iff_left ptrs
      · intro sock name subscribed
        rw [subscribed_step] at subscribed
        by_cases same : holder.socket = sock
        · simp [effect, same] at subscribed
        · simp only [effect, same, ↓reduceIte] at subscribed
          obtain ⟨client, there, socket⟩ := delivers.registered sock name subscribed
          exact ⟨client, (stays client).mpr ⟨there, fun equal => same (equal.symm.trans socket)⟩, socket⟩

end Invariant

section Runs

theorem step_delivers (history : List (Server × PubsubStep)) (server : Server) (step : PubsubStep)
    (delivers : Delivers history server) (serves : Serves server step) :
    Delivers (history ++ [(server, step)]) (stepPubsub server step) := by
  cases step with
  | connect ptr socket => exact connect_delivers delivers ptr socket serves
  | subscribe env sock argv => exact subscribe_delivers delivers env sock argv serves
  | unsubscribe sock argv => exact unsubscribe_delivers delivers sock argv
  | publish sock argv => exact publish_delivers delivers sock argv
  | disconnect sock => exact disconnect_delivers delivers sock

theorem run_delivers (start : Server) (starts : Starts start) (steps : List PubsubStep)
    (admitted : Admitted Serves stepPubsub start steps) :
    Delivers (trace stepPubsub start steps) (run stepPubsub start steps) := by
  refine run_history Serves stepPubsub step_delivers start ?_ steps admitted
  have wf := start_wellformed start starts
  obtain ⟨now, files, config, same, -⟩ := starts.rest
  have empty : listed start.clientList = [] := by rw [same]; exact listed_empty _
  have none : start.channels = [] := by rw [same]; rfl
  constructor
  · exact wf
  · exact none ▸ none_enrolled _
  · intro client member
    simp [empty] at member
  · intro sock name subscribed
    simp [Subscribed] at subscribed

/-- Two connections subscribe, the first twice, and the second leaves again. -/
def comings : List PubsubStep :=
  [.connect 1 7, .connect 2 8, .subscribe (calm 0 []) 7 [ascii "subscribe", ascii "c", ascii "c"],
    .subscribe (calm 0 []) 8 [ascii "subscribe", ascii "c"], .unsubscribe 8 [ascii "unsubscribe"]]

/-- The frame goes to the first connection only, and once. -/
example : (publishCommand 8 [ascii "publish", ascii "c", ascii "m"]
    (run stepPubsub emptyServer comings)).events =
      [.write 7 (messageFrame (ascii "c") (ascii "m")), .reply 8 (.integer 1)] := by decide +kernel

end Runs

end CrimsonCache.PubsubDelivery
