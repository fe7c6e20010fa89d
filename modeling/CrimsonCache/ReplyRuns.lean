import CrimsonCache.RequestReplies

/-!
Runs of the server seen from one registered connection that never subscribes.
Its inputs come between the steps of the other connections and of the threads;
what a step writes to it is a reply to its own input.
-/

namespace CrimsonCache.ReplyRuns

open CString Replies Transaction Pubsub Replication Tokenizer ServerState Commands TransactionSteps
  Connections ReplicationThread ServerRuns SubscriberLists ChannelHolders ExecLoop RequestReplies Runs

section Runs

/-- One step of a run in which the connection stays open and never subscribes. The kernel
    does not hand its descriptor to a connection to a primary. -/
def Talks (sock : Int) (server : Server) (step : ServerStep) : Prop :=
  Possible server step ∧
    match step with
    | .receive oracle other chunk =>
        (∀ path, (oracle path).connect ≠ .connected sock) ∧
          (other = sock → chunk ≠ [] ∧ ¬ Subscribes (cstr chunk))
    | .replication oracle _ connect =>
        (∀ index path, (oracle index path).connect ≠ .connected sock) ∧ connect ≠ .connected sock
    | .connect _ _ => True
    | .sweep _ => True
    | .autoSave _ _ _ => True

/-- An input of the connection is replied to once, and no other step writes a reply to it. -/
def StepReplies (sock : Int) (server : Server) (step : ServerStep) : Prop :=
  match step with
  | .receive oracle other chunk =>
      if other = sock then
        RepliesOnce sock (announced oracle sock chunk server) (stepServer server step).2
      else replies sock (stepServer server step).2 = []
  | step => replies sock (stepServer server step).2 = []

def StepDiscards (sock : Int) (server : Server) : ServerStep → Prop
  | .receive oracle other chunk => other = sock ∧ Discards (oracle []) sock chunk server
  | _ => False

structure Talking (sock : Int) (server : Server) : Prop where
  wf : Wellformed server
  registered : ∃ client ∈ listed server.clientList, client.socket = sock
  enrolled : Enrolled (slots (·.socket ≠ sock) server) server.channels
  queue : ∀ client ∈ listed server.clientList, client.socket = sock →
    ∀ cmd ∈ client.queuedCommands, ¬ Subscribes cmd

/-- What is queued was queued before, or is the input of its own client. -/
theorem transition_queue (ok : Bool) (sock : Int) (input : Bytes) (before after : ClientList)
    (events : List Event) (transition : Transition ok sock input before after events) :
    ∀ client ∈ listed after, ∀ cmd ∈ client.queuedCommands,
      (∃ old ∈ listed before, old.socket = client.socket ∧ cmd ∈ old.queuedCommands) ∨
        (client.socket = sock ∧ cmd = input) := by
  intro client member cmd queued
  -- A change of the client of the connection that adds no command but the input.
  have changed (change : Client → Client) (keeps : KeepsSocket change)
      (adds : ∀ old, ∀ cmd ∈ (change old).queuedCommands, cmd ∈ old.queuedCommands ∨ cmd = input)
      (updated : after = updateClient sock change before) :
      (∃ old ∈ listed before, old.socket = client.socket ∧ cmd ∈ old.queuedCommands) ∨
        (client.socket = sock ∧ cmd = input) := by
    rw [updated] at member
    rcases update_mem sock change before client member with old | ⟨old, found, rfl⟩
    · exact Or.inl ⟨client, old, rfl, queued⟩
    · obtain ⟨there, socket⟩ := get_mem sock before old found
      rcases adds old cmd queued with kept | new
      · exact Or.inl ⟨old, there, (keeps old).symm, kept⟩
      · exact Or.inr ⟨(keeps old).trans socket, new⟩
  cases transition with
  | quiet same => exact Or.inl ⟨client, same ▸ member, rfl, queued⟩
  | queued holder found inside capacity nonempty direct updated =>
      apply changed _ (enqueue_keeps input capacity) _ updated
      intro old cmd member
      rcases List.mem_append.mp member with early | late
      · exact Or.inl early
      · exact Or.inr (List.mem_singleton.mp late)
  | failed holder found inside capacity direct updated =>
      exact changed _ (failed_keeps capacity) (fun _ _ member => Or.inl member) updated
  | started holder found outside alone updated =>
      exact changed _ begin_keeps (fun _ _ member => Or.inl member) updated
  | executed holder found inside alone updated =>
      exact changed _ cleanup_keeps (fun _ _ member => absurd member List.not_mem_nil) updated
  | discarded holder found inside alone updated =>
      exact changed _ cleanup_keeps (fun _ _ member => absurd member List.not_mem_nil) updated

variable {sock : Int} {server : Server}

theorem Talking.positive (talking : Talking sock server) : 0 ≤ sock := by
  obtain ⟨client, member, rfl⟩ := talking.registered
  exact talking.wf.positive client (List.mem_append_left _ member)

theorem Talking.keeps (talking : Talking sock server) (step : ServerStep)
    (talks : Talks sock server step) : Keeps (·.socket ≠ sock) server step := by
  cases step with
  | connect | replication | sweep | autoSave => trivial
  | receive oracle other chunk =>
      intro input taken name node socket
      by_cases own : other = sock
      · subst own
        exfalso
        rcases taken with rfl | ⟨client, found, queued⟩
        · exact (talks.2.2 rfl).2 (Or.inl name)
        · obtain ⟨member, same⟩ := get_mem other _ client found
          have text : cstr input = input :=
            cstr_of_nul_free input (talking.wf.queueable client member input queued).plain.free
          exact talking.queue client member same input queued (Or.inl (text ▸ name))
      · simpa [socket] using own

/-- The connection is in the list, and its queue holds inputs of its own only. -/
structure Seated (sock : Int) (clients : ClientList) : Prop where
  registered : ∃ client ∈ listed clients, client.socket = sock
  queue : ∀ client ∈ listed clients, client.socket = sock →
    ∀ cmd ∈ client.queuedCommands, ¬ Subscribes cmd

theorem Talking.seated (talking : Talking sock server) : Seated sock server.clientList :=
  ⟨talking.registered, talking.queue⟩

theorem connect_seated (seated : Seated sock server.clientList) (ptr : Nat) (other : Int)
    (possible : Possible server (.connect ptr other)) :
    Seated sock (next server (.connect ptr other)).clientList := by
  obtain ⟨holder, there, socket⟩ := seated.registered
  have fresh : other ≠ sock := by
    rintro rfl
    exact possible.2.1 (List.mem_map.mpr ⟨holder, List.mem_append_left _ there, socket⟩)
  constructor
  · refine ⟨holder, ?_, socket⟩
    by_cases free : none ∈ server.clientList
    · exact (register_listed _ _ free).symm.subset (List.mem_cons_of_mem _ there)
    · simpa [next, stepServer, connectClient, register_full _ _ free] using there
  · intro client member own
    rcases connect_listed ptr other server client member with rfl | old
    · exact absurd own fresh
    · exact seated.queue client old own

theorem disconnect_seated (seated : Seated sock server.clientList) (wf : Wellformed server)
    (client : Client) (member : client ∈ openClients server) (apart : client.socket ≠ sock) :
    Seated sock (disconnectClient client server).1.clientList := by
  obtain ⟨holder, there, socket⟩ := seated.registered
  obtain ⟨left, -⟩ := disconnect_open client server wf
  constructor
  · refine ⟨holder, ?_, socket⟩
    rw [left, List.mem_filter]
    refine ⟨there, ?_⟩
    simp only [ne_eq, decide_not, Bool.not_eq_eq_eq_not, Bool.not_true, decide_eq_false_iff_not]
    intro equal
    have sockets := (open_socket_ptr server wf client holder member
      (List.mem_append_left _ there)).mp equal
    exact apart (sockets.symm.trans socket)
  · intro survivor member own
    rw [left, List.mem_filter] at member
    exact seated.queue survivor member.1 own

/-- What an input adds to the queue of the connection is an input of its own. -/
theorem transition_seated (ok : Bool) (other : Int) (input : Bytes) (before after : ClientList)
    (events : List Event) (transition : Transition ok other input before after events)
    (seated : Seated sock before) (own : other = sock → ¬ Subscribes input) :
    Seated sock after := by
  constructor
  · obtain ⟨holder, there, socket⟩ := seated.registered
    have sockets := transition_map (fun client => client.socket)
      (fun _ _ _ _ _ _ _ _ _ _ _ _ => rfl) _ _ _ _ _ _ transition
    have there : sock ∈ (listed before).map (·.socket) := List.mem_map.mpr ⟨holder, there, socket⟩
    rw [← sockets] at there
    exact List.mem_map.mp there
  · intro client member mine cmd queued
    rcases transition_queue _ _ _ _ _ _ transition client member cmd queued with
      ⟨old, was, same, kept⟩ | ⟨source, rfl⟩
    · exact seated.queue old was (same.trans mine) cmd kept
    · exact own (source.symm.trans mine)

/-- The connection stays, and its queue holds inputs of its own only. -/
theorem talking_next (talking : Talking sock server) (step : ServerStep)
    (talks : Talks sock server step) : Talking sock (next server step) := by
  have wf := next_wellformed server step talking.wf talks.1
  have enrolled := next_enrolled step talking.wf talks.1 (talking.keeps step talks) talking.enrolled
  suffices seated : Seated sock (next server step).clientList from
    ⟨wf, seated.registered, enrolled, seated.queue⟩
  -- Steps that leave the list as it is.
  have same (clients : (next server step).clientList = server.clientList) :
      Seated sock (next server step).clientList := clients ▸ talking.seated
  cases step with
  | sweep => exact same rfl
  | autoSave now saveNow io =>
      apply same
      simp only [next, stepServer, autoSave]
      split
      · split <;> rfl
      · rfl
  | replication oracle received connect =>
      exact same (replication_same_clients oracle received connect server talking.wf talks.1).clientList
  | connect ptr other => exact connect_seated talking.seated ptr other talks.1
  | receive oracle other chunk =>
      have served := serve_cases oracle other chunk server
      simp only [next, stepServer] at same ⊢
      generalize serve oracle other chunk server = reading at same served ⊢
      cases served with
      | absent => exact same rfl
      | dropped => exact same rfl
      | closed client member own ended =>
          have apart : client.socket ≠ sock := fun equal =>
            (talks.2.2 (own.symm.trans equal)).1 ended
          exact disconnect_seated talking.seated talking.wf client member apart
      | read client member own =>
          subst own
          have state := read_executes oracle client chunk server talking.wf member talks.1.2
          have transition := execute_transition oracle client.socket (client.buffer ++ chunk) server
            talking.wf.ready
          rw [state]
          apply transition_seated _ _ _ _ _ _ transition talking.seated
          intro mine
          rw [talking.wf.whole_input client member chunk]
          exact (talks.2.2 mine).2

theorem lines_elsewhere (oracle : Nat → Oracle)
    (elsewhere : ∀ index path, (oracle index path).connect ≠ .connected sock) (positive : 0 ≤ sock)
    (lines : List (Bytes × Nat)) (short : ∀ line ∈ lines, line.1.length < 2 ^ 31)
    (known holders : List Subscriber) (positives : ∀ node ∈ known, 0 ≤ node.socket)
    (apart : ∀ node ∈ holders, node.socket ≠ sock) (index : Nat) (server : Server)
    (wf : Wellformed server) (held : Held known holders server) :
    replies sock (executeLines oracle index lines server).2 = [] := by
  have joins (input : Bytes) : Joins known holders (-1) input := by
    intro _ node member socket
    have positive := positives node member
    omega
  induction lines generalizing index server with
  | nil => rfl
  | cons line rest ih =>
      obtain ⟨text, stop⟩ := line
      have later : ∀ line ∈ rest, line.1.length < 2 ^ 31 := fun line member =>
        short line (List.mem_cons_of_mem _ member)
      by_cases empty : text = []
      · simp only [executeLines, empty, ↓reduceIte]
        exact ih later (index + 1) (advanceOffset stop server)
          (same_wellformed _ _ wf rfl ⟨rfl, rfl, rfl⟩) ⟨held.clients, held.enrolled⟩
      · have silent := execute_elsewhere (oracle index) sock (-1) (by omega) (elsewhere index) text
          server wf.ready known holders apart held joins
        have wellformed := execute_wellformed (oracle index) (-1) text server wf
          (short (text, stop) List.mem_cons_self)
        have kept := execute_held known holders (oracle index) (-1) text server (joins text)
          (fun _ _ cmd _ => joins cmd) held
        have others := ih later (index + 1)
          (advanceOffset stop (executeCommand (oracle index) (-1) text server).server)
          (same_wellformed _ _ wellformed rfl ⟨rfl, rfl, rfl⟩) ⟨kept.clients, kept.enrolled⟩
        simp only [executeLines, empty, ↓reduceIte, replies_executing, replies_append, silent, others,
          List.append_nil]

theorem reconnect_elsewhere (connect : Connect) (elsewhere : connect ≠ .connected sock)
    (server : Server) : replies sock (reconnect connect server).2 = [] :=
  replies_set_primary sock connect elsewhere _ _ _ _

theorem replication_elsewhere (talking : Talking sock server) (oracle : Nat → Oracle)
    (received : Received) (connect : Connect)
    (talks : Talks sock server (.replication oracle received connect)) :
    replies sock (replicationThread oracle received connect server).2 = [] := by
  have held := slots_held talking.enrolled
  simp only [replicationThread]
  split
  · rfl
  · rfl
  · split
    · exact reconnect_elsewhere connect talks.2.2 server
    · rfl
  · cases received with
    | wouldBlock => rfl
    | lost =>
        simp only [losePrimary, replies_append, replies_closed, replies_nil, List.nil_append]
        exact reconnect_elsewhere connect talks.2.2 _
    | data chunk =>
        apply lines_elsewhere oracle talks.2.1 talking.positive _
          (received_short server chunk talking.wf talks.1)
          ((listed server.clientList).map subscriber) (slots (·.socket ≠ sock) server)
        · intro node member
          obtain ⟨client, there, rfl⟩ := List.mem_map.mp member
          exact talking.wf.positive client (List.mem_append_left _ there)
        · intro node member
          simpa using (List.mem_filter.mp member).2
        · exact talking.wf
        · exact held

/-- One input of the connection: a DISCARD of an open transaction is the exception. -/
theorem input_replies (talking : Talking sock server) (oracle : Oracle) (chunk : Bytes)
    (elsewhere : ∀ path, (oracle path).connect ≠ .connected sock) (direct : ¬ Subscribes (cstr chunk)) :
    RepliesOnce sock (announced oracle sock chunk server)
        (executeCommand oracle sock chunk server).events ↔
      ¬ Discards (oracle []) sock chunk server := by
  have held := slots_held talking.enrolled
  have apart : ∀ node ∈ slots (·.socket ≠ sock) server, node.socket ≠ sock := fun node member => by
    simpa using (List.mem_filter.mp member).2
  by_cases exec : lower (tokens (cstr chunk)) = [ascii "exec"]
  · simp only [announced, exec, ↓reduceIte]
    refine iff_of_true ?_ ?_
    · exact exec_replies oracle sock talking.positive elsewhere chunk server talking.wf.ready _ _ apart
        held exec talking.queue
    · rintro ⟨alone, -⟩
      rw [exec] at alone
      exact tx_names.2.1 (List.cons.inj alone).1
  · simp only [announced, exec, ↓reduceIte, RepliesOnce]
    by_cases discard : lower (tokens (cstr chunk)) = [ascii "discard"]
    · exact discard_call_replies oracle sock talking.positive chunk server discard
    · refine iff_of_true ?_ fun discards => discard discards.1
      exact direct_replies _ _ sock talking.positive (elsewhere []) chunk server
        (unheard_of_held sock _ _ server apart held) exec discard direct

theorem step_replies_iff (talking : Talking sock server) (step : ServerStep)
    (talks : Talks sock server step) :
    StepReplies sock server step ↔ ¬ StepDiscards sock server step := by
  cases step with
  | connect | sweep | autoSave => exact iff_of_true rfl fun wrong => wrong
  | replication oracle received connect =>
      exact iff_of_true (replication_elsewhere talking oracle received connect talks) fun wrong => wrong
  | receive oracle other chunk =>
      have served := serve_cases oracle other chunk server
      simp only [StepReplies, StepDiscards, stepServer]
      generalize serve oracle other chunk server = reading at served
      by_cases own : other = sock
      · subst own
        obtain ⟨holder, there, socket⟩ := talking.registered
        obtain ⟨input, direct⟩ := talks.2.2 rfl
        simp only [↓reduceIte, true_and]
        cases served with
        | closed client member same ended => exact absurd ended input
        | absent missing =>
            exact absurd (List.mem_map.mpr ⟨holder, List.mem_append_left _ there, socket⟩) missing
        | dropped loop missing =>
            have found := get_unique server.clientList
              (talking.wf.sockets.sublist ((List.sublist_append_left _ _).map _)) holder there
            rw [socket] at found
            exact absurd (found.symm.trans missing) (by simp)
        | read client member same =>
            subst same
            have whole := talking.wf.whole_input client member chunk
            have events : (readInput oracle client chunk server).events =
                (executeCommand oracle client.socket chunk server).events := by
              simp [readInput, whole]
            rw [events]
            exact input_replies talking oracle chunk talks.2.1 direct
      · simp only [own, ↓reduceIte, false_and, not_false_eq_true, iff_true]
        cases served with
        | absent => rfl
        | dropped => rfl
        | closed => rfl
        | read client member same =>
            subst same
            exact execute_elsewhere oracle sock client.socket own talks.2.1 _ server talking.wf.ready _ _
              (fun node member => by simpa using (List.mem_filter.mp member).2)
              (slots_held talking.enrolled) fun cmd _ node known socket =>
                List.mem_filter.mpr ⟨known, by simpa [socket] using own⟩

/-- A connection that has just found a free slot. -/
theorem connect_talking (server : Server) (reachable : Reachable server) (ptr : Nat) (sock : Int)
    (possible : Possible server (.connect ptr sock)) (free : none ∈ server.clientList) :
    Talking sock (next server (.connect ptr sock)) := by
  have wf := reachable_wellformed server reachable
  have enrolled := reachable_enrolled server reachable
  have fresh (client : Client) (member : client ∈ listed server.clientList) : client.socket ≠ sock :=
    fun same => possible.2.1 (List.mem_map.mpr ⟨client, List.mem_append_left _ member, same⟩)
  have slot := register_listed (newClient ptr sock server.config) server.clientList free
  constructor
  · exact next_wellformed server _ wf possible
  · exact ⟨_, slot.symm.subset List.mem_cons_self, rfl⟩
  · refine ⟨enrolled.distinct, fun name node member => ?_⟩
    have old := enrolled.held name node member
    simp only [slots, List.mem_filter, List.mem_map] at old ⊢
    obtain ⟨⟨client, there, rfl⟩, -⟩ := old
    exact ⟨⟨client, slot.symm.subset (List.mem_cons_of_mem _ there), rfl⟩,
      decide_eq_true (fresh client there)⟩
  · intro client member own cmd queued
    rcases connect_listed ptr sock server client member with rfl | old
    · exact absurd queued List.not_mem_nil
    · exact absurd own (fresh client old)

/-- Every input of a registered connection is replied to once, and nothing else is written
    to it as a reply, exactly if none of its inputs is a DISCARD of an open transaction. -/
theorem one_reply_each_iff (server : Server) (reachable : Reachable server) (ptr : Nat) (sock : Int)
    (possible : Possible server (.connect ptr sock)) (free : none ∈ server.clientList)
    (steps : List ServerStep)
    (admitted : Admitted (Talks sock) next (next server (.connect ptr sock)) steps) :
    (∀ taken ∈ trace next (next server (.connect ptr sock)) steps,
        StepReplies sock taken.1 taken.2) ↔
      ∀ taken ∈ trace next (next server (.connect ptr sock)) steps,
        ¬ StepDiscards sock taken.1 taken.2 := by
  have talking := connect_talking server reachable ptr sock possible free
  generalize next server (.connect ptr sock) = start at talking admitted
  induction steps generalizing start with
  | nil => simp [trace]
  | cons step rest ih =>
      rcases admitted with ⟨first, later⟩
      simp only [trace, List.forall_mem_cons, step_replies_iff talking step first,
        ih (next start step) (talking_next talking step first) later]

end Runs

section Samples

theorem talks_calmly (server : Server) (input : String)
    (opened : 7 ∈ (openClients server).map (·.socket))
    (short : (ascii input).length < server.config.bufferSize)
    (spoken : ascii input ≠ [] ∧ ¬ Subscribes (cstr (ascii input))) :
    Talks 7 server (.receive (calm 0) 7 (ascii input)) :=
  ⟨⟨opened, short⟩, fun _ => by simp [calm], fun _ => spoken⟩

def inputs (texts : List String) : List ServerStep :=
  texts.map fun text => .receive (calm 0) 7 (ascii text)

/-- A transaction that is run to its end. -/
def ended : List ServerStep := inputs ["MULTI\r\n", "SET k v\r\n", "EXEC\r\n"]

theorem ended_replies :
    Admitted (Talks 7) next oneClient ended ∧
      ∀ taken ∈ trace next oneClient ended, StepReplies 7 taken.1 taken.2 := by
  have admitted : Admitted (Talks 7) next oneClient ended :=
    ⟨talks_calmly _ _ (by decide +kernel) (by decide +kernel) (by decide +kernel),
      talks_calmly _ _ (by decide +kernel) (by decide +kernel) (by decide +kernel),
      talks_calmly _ _ (by decide +kernel) (by decide +kernel) (by decide +kernel), trivial⟩
  refine ⟨admitted, (one_reply_each_iff emptyServer empty_reachable 1 7 empty_connects
    (by decide +kernel) ended admitted).mpr ?_⟩
  intro taken member
  simp only [ended, inputs, List.map_cons, List.map_nil, trace, List.mem_cons, List.not_mem_nil,
    or_false] at member
  rcases member with rfl | rfl | rfl
  · rintro ⟨-, alone, -⟩
    exact absurd alone (by decide +kernel)
  · rintro ⟨-, alone, -⟩
    exact absurd alone (by decide +kernel)
  · rintro ⟨-, alone, -⟩
    exact absurd alone (by decide +kernel)

/-- A transaction that is given up. -/
def givenUp : List ServerStep := inputs ["MULTI\r\n", "DISCARD\r\n"]

/-- The DISCARD is replied to twice. -/
theorem given_up_replies_twice :
    Reachable emptyServer ∧ Possible emptyServer (.connect 1 7) ∧ none ∈ emptyServer.clientList ∧
      Admitted (Talks 7) next (next emptyServer (.connect 1 7)) givenUp ∧
      ¬ ∀ taken ∈ trace next (next emptyServer (.connect 1 7)) givenUp,
        StepReplies 7 taken.1 taken.2 := by
  refine ⟨empty_reachable, empty_connects, by decide +kernel, ?_, ?_⟩
  · exact ⟨talks_calmly _ _ (by decide +kernel) (by decide +kernel) (by decide +kernel),
      talks_calmly _ _ (by decide +kernel) (by decide +kernel) (by decide +kernel), trivial⟩
  · intro each
    have last := each (next oneClient (.receive (calm 0) 7 (ascii "MULTI\r\n")),
      .receive (calm 0) 7 (ascii "DISCARD\r\n")) (List.mem_cons_of_mem _ List.mem_cons_self)
    have single : announced (calm 0) 7 (ascii "DISCARD\r\n")
        (next oneClient (.receive (calm 0) 7 (ascii "MULTI\r\n"))) = none :=
      if_neg (by decide +kernel)
    simp only [StepReplies, ↓reduceIte, single] at last
    have twice : (replies 7 (stepServer (next oneClient (.receive (calm 0) 7 (ascii "MULTI\r\n")))
        (.receive (calm 0) 7 (ascii "DISCARD\r\n"))).2).length = 2 := by decide +kernel
    exact absurd (twice.symm.trans last) (by decide)

end Samples

end CrimsonCache.ReplyRuns
