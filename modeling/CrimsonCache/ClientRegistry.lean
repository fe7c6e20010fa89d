import Mathlib.Data.List.Perm.Subperm
import CrimsonCache.ThreadLoops

/-!
The slots of `client_list`. A command finds its client by a search for the
socket, so that it behaves the same in any list where the client has a slot. A
client that found none free is served by its thread all the same, but the
search does not find it.
-/

namespace CrimsonCache.ClientRegistry

open CString Dictionary Replies Transaction Pubsub Replication Tokenizer ServerState DataCommands
  StoredData Commands TransactionSteps Connections ReplicationThread ServerRuns ThreadLoops Runs

section Alike

/-- The same outcome in a server with other clients beside the connection's own. -/
def Alike (sock : Int) (outcome other : Outcome) : Prop :=
  ∃ clients others, getClientBySocket sock clients = findClient sock outcome.server ∧
    other = reseated clients others outcome

variable (sock : Int) (clients : ClientList) (others : List Client) (server : Server)
variable (same : getClientBySocket sock clients = findClient sock server)

include same

theorem alike_kept (events : List Event) (result : CmdResult) :
    Alike sock ⟨server, events, result⟩ ⟨reseat clients others server, events, result⟩ :=
  ⟨clients, others, same, rfl⟩

theorem modify_same (change : Client → Client) (keeps : KeepsSocket change) :
    getClientBySocket sock (updateClient sock change clients) =
      findClient sock (modifyClient sock change server) := by
  rw [get_update sock sock change keeps, find_modify sock change keeps, same]
  simp

theorem alike_modified (change : Client → Client) (keeps : KeepsSocket change) (events : List Event)
    (result : CmdResult) :
    Alike sock ⟨modifyClient sock change server, events, result⟩
      ⟨modifyClient sock change (reseat clients others server), events, result⟩ :=
  ⟨updateClient sock change clients, others, modify_same sock clients server same change keeps, rfl⟩

theorem queue_alike (env : Env) (input : Bytes) :
    Alike sock (queueInput env sock input server)
      (queueInput env sock input (reseat clients others server)) := by
  have found : findClient sock (reseat clients others server) = findClient sock server := same
  simp only [queueInput, found]
  cases own : findClient sock server with
  | none => exact alike_kept sock clients others server same [] .ok
  | some client =>
      obtain ⟨-, socket⟩ := get_mem sock server.clientList client own
      -- The client that is written back is the one that was found.
      have constant (change : Client → Client) (keeps : KeepsSocket change) (events : List Event) :
          Alike sock ⟨modifyClient sock (fun _ => change client) server, events, .ok⟩
            ⟨modifyClient sock (fun _ => change client) (reseat clients others server), events, .ok⟩ := by
        have here := update_congr sock (fun _ => change client) change server.clientList fun old there => by
          rw [Option.some.inj (there.symm.trans own)]
        have there := update_congr sock (fun _ => change client) change clients fun old there => by
          rw [Option.some.inj (there.symm.trans (same.trans own))]
        have moved := alike_modified sock clients others server same change keeps events .ok
        simpa only [modifyClient, reseat, here, there] using moved
      rcases queue_command_cases (env.alloc .queueArray) (env.alloc .queueCopy) client input with
        ⟨capacity, queued⟩ | ⟨capacity, failed⟩
      · simp only [queued, ↓reduceIte]
        exact constant (enqueue input capacity) (enqueue_keeps input capacity) _
      · simp only [failed, Bool.false_eq_true, ↓reduceIte]
        exact constant (fun client => markFailed (grow capacity client)) (failed_keeps capacity) _

theorem run_queued_alike (execute : Nat → Bytes → Server → Outcome)
    (nested : ∀ index cmd server clients others,
      getClientBySocket sock clients = findClient sock server →
        Alike sock (execute index cmd server) (execute index cmd (reseat clients others server)))
    (index : Nat) (cmds : List Bytes) :
    ∃ slots unlisted,
      getClientBySocket sock slots = findClient sock (runQueued execute sock index cmds server).1 ∧
        runQueued execute sock index cmds (reseat clients others server) =
          (reseat slots unlisted (runQueued execute sock index cmds server).1,
            (runQueued execute sock index cmds server).2) := by
  induction cmds generalizing index server clients others with
  | nil => exact ⟨clients, others, same, rfl⟩
  | cons cmd rest ih =>
      obtain ⟨slots, unlisted, found, ran⟩ := nested index cmd server clients others same
      obtain ⟨slots, unlisted, kept, later⟩ :=
        ih slots unlisted (execute index cmd server).server found (index + 1)
      refine ⟨slots, unlisted, kept, ?_⟩
      simp only [runQueued, ran, reseated]
      simp only [later]

/-- A command finds the same client in both, and looks at no other. -/
theorem handler_alike (execute : Nat → Bytes → Server → Outcome)
    (nested : ∀ index cmd server clients others,
      getClientBySocket sock clients = findClient sock server →
        Alike sock (execute index cmd server) (execute index cmd (reseat clients others server)))
    (env : Env) (argv : List Bytes) (command : Command) :
    Alike sock (runHandler execute env sock argv server command)
      (runHandler execute env sock argv (reseat clients others server) command) := by
  have found : findClient sock (reseat clients others server) = findClient sock server := same
  by_cases direct : command ≠ .multi ∧ command ≠ .exec ∧ command ≠ .discard
  · have kept := handler_same_clients execute env sock argv server command direct
    refine ⟨clients, others, ?_, handler_reseat execute env sock argv server clients others same
      command direct⟩
    rw [findClient, kept.clientList]
    exact same
  · have error (message : String) : Alike sock (replied server sock (.error (ascii message)) .err)
        (replied (reseat clients others server) sock (.error (ascii message)) .err) :=
      alike_kept sock clients others server same _ _
    have left : command = .multi ∨ command = .exec ∨ command = .discard := by
      cases command <;> simp_all
    rcases left with rfl | rfl | rfl
    · simp only [runHandler, multiCommand, found]
      cases findClient sock server with
      | none => exact error _
      | some client =>
          cases inside : client.inTransaction with
          | true =>
              simp only [inside, ↓reduceIte]
              exact error _
          | false =>
              simp only [inside, Bool.false_eq_true, ↓reduceIte]
              exact alike_modified sock clients others server same beginTransaction begin_keeps _ _
    · simp only [runHandler, execCommand, found]
      cases own : findClient sock server with
      | none => exact error _
      | some client =>
          obtain ⟨-, socket⟩ := get_mem sock server.clientList client own
          cases inside : client.inTransaction with
          | false =>
              simp only [inside, Bool.false_eq_true, ↓reduceIte]
              exact error _
          | true =>
              have cleaned := modify_same sock clients server same txCleanup cleanup_keeps
              have leaves (server : Server) (slots : ClientList) (unlisted : List Client)
                  (found : getClientBySocket sock slots = findClient sock server)
                  (events : List Event) :=
                alike_modified sock slots unlisted server found leaveTransaction (fun _ => rfl) events
                  .ok
              simp only [inside, ↓reduceIte, txExecuteCommands, socket]
              split
              · exact leaves _ _ others cleaned _
              · split
                · obtain ⟨slots, unlisted, kept, ran⟩ := run_queued_alike sock _ others _ cleaned
                    execute nested 0 client.queuedCommands
                  have queue : modifyClient sock txCleanup (reseat clients others server) =
                      reseat (updateClient sock txCleanup clients) others
                        (modifyClient sock txCleanup server) := rfl
                  rw [queue, ran]
                  exact leaves _ slots unlisted kept _
                · exact leaves _ _ others cleaned _
    · simp only [runHandler, discardCommand, found]
      cases findClient sock server with
      | none => exact error _
      | some client =>
          cases inside : client.inTransaction with
          | true =>
              simp only [inside, ↓reduceIte]
              exact alike_modified sock clients others server same txCleanup cleanup_keeps _ _
          | false =>
              simp only [inside, Bool.false_eq_true, ↓reduceIte]
              exact error _

theorem execute_with_alike (execute : Nat → Bytes → Server → Outcome)
    (nested : ∀ index cmd server clients others,
      getClientBySocket sock clients = findClient sock server →
        Alike sock (execute index cmd server) (execute index cmd (reseat clients others server)))
    (env : Env) (buffer : Bytes) :
    Alike sock (executeWith execute env sock buffer server)
      (executeWith execute env sock buffer (reseat clients others server)) := by
  have refused (message : String) : Alike sock (refuse server sock message)
      (refuse (reseat clients others server) sock message) :=
    ⟨clients, others, same, refuse_reseat clients others server sock message⟩
  have inside : inTransaction sock (reseat clients others server) = inTransaction sock server := by
    have found : findClient sock (reseat clients others server) = findClient sock server := same
    simp only [inTransaction, found]
  simp only [executeWith, inside]
  split
  case isFalse => exact refused _
  case isTrue =>
    split
    case h_1 => exact refused _
    case h_2 => exact refused _
    case h_3 argv _ _ =>
      split
      · exact queue_alike sock clients others server same env (cstr buffer)
      · have handled : Alike sock (dispatch execute env sock (lower argv) server)
            (dispatch execute env sock (lower argv) (reseat clients others server)) := by
          simp only [dispatch]
          split
          · exact refused _
          · split
            · exact refused _
            · exact handler_alike sock clients others server same execute nested env _ _
        obtain ⟨slots, unlisted, kept, ran⟩ := handled
        rw [ran, propagate_reseat env sock _ _ slots unlisted _ kept]
        refine ⟨slots, unlisted, ?_, rfl⟩
        rw [findClient, (propagate_same_clients env sock _ _ _).clientList]
        exact kept

theorem execute_alike (oracle : Oracle) (buffer : Bytes) :
    Alike sock (executeCommand oracle sock buffer server)
      (executeCommand oracle sock buffer (reseat clients others server)) := by
  apply execute_with_alike sock clients others server same
  intro index cmd inner slots unlisted found
  apply execute_with_alike sock slots unlisted inner found
  exact fun _ _ _ clients others found => ⟨clients, others, found, rfl⟩

end Alike

section Model

/-- The server with the sockets of the connections that are open. -/
structure Tracked where
  server : Server
  connections : List Int

instance (server : Server) (sock : Int) (chunk : Bytes) : Decidable (Closes server sock chunk) :=
  inferInstanceAs (Decidable (_ ∨ _))

def track (tracked : Tracked) (step : ServerStep) : Tracked where
  server := next tracked.server step
  connections :=
    match step with
    | .connect _ socket => socket :: tracked.connections
    | .receive _ sock chunk =>
        if Closes tracked.server sock chunk then tracked.connections.filter (· ≠ sock)
        else tracked.connections
    | _ => tracked.connections

/-- Descriptors of open connections are not handed out again, and only those are read. -/
def Steps (tracked : Tracked) : ServerStep → Prop
  | .connect ptr socket =>
      0 ≤ socket ∧ socket ∉ tracked.connections ∧ ptr ∉ (openClients tracked.server).map (·.ptr)
  | .receive _ sock chunk =>
      sock ∈ tracked.connections ∧ chunk.length < tracked.server.config.bufferSize
  | step => Possible tracked.server step

/-- A thread is started for a client only when there is a slot for it. -/
def Room (tracked : Tracked) : ServerStep → Prop
  | .connect _ _ => tracked.server.config.concurrencyModel = .threaded → none ∈ tracked.server.clientList
  | _ => True

/-- Some input of the connection gets to `execute_command`. -/
def Served (tracked : Tracked) (sock : Int) : Prop :=
  ∃ oracle chunk, Steps tracked (.receive oracle sock chunk) ∧
    (serve oracle sock chunk tracked.server).passed ≠ []

/-- What the other slots hold makes no difference to what the connection's inputs do. -/
def Unaffected (tracked : Tracked) (sock : Int) : Prop :=
  ∀ oracle chunk clients others, Steps tracked (.receive oracle sock chunk) →
    (serve oracle sock chunk tracked.server).passed ≠ [] →
    getClientBySocket sock clients = openClient sock tracked.server →
    let here := serve oracle sock chunk tracked.server
    let there := serve oracle sock chunk (reseat clients others tracked.server)
    there.events = here.events ∧ there.passed = here.passed ∧
      ∃ slots unlisted, there.server = reseat slots unlisted here.server ∧
        getClientBySocket sock slots = findClient sock here.server

/-- The registry in one state of a run. -/
structure Registers (tracked : Tracked) : Prop where
  slot : ∀ sock, Served tracked sock →
    tracked.server.clientList.countP (fun slot => slot.any (·.socket = sock)) = 1
  opened : ∀ client ∈ listed tracked.server.clientList, client.socket ∈ tracked.connections
  distinct : ((listed tracked.server.clientList).map (·.socket)).Nodup
  few : ∀ socks : List Int, socks.Nodup → (∀ sock ∈ socks, Served tracked sock) →
    socks.length ≤ tracked.server.config.maxClients
  unaffected : ∀ sock, Unaffected tracked sock

end Model

section Slots

theorem update_length (sock : Int) (change : Client → Client) (clients : ClientList) :
    (updateClient sock change clients).length = clients.length := by
  induction clients with
  | nil => rfl
  | cons slot rest ih =>
      cases slot with
      | none => simpa [updateClient] using ih
      | some client =>
          by_cases hit : client.socket = sock
          · simp [updateClient, hit]
          · simpa [updateClient, hit] using ih

theorem register_length (client : Client) (clients : ClientList) :
    (registerClient client clients).length = clients.length := by
  induction clients with
  | nil => rfl
  | cons slot rest ih =>
      cases slot with
      | none => simp [registerClient]
      | some other => simpa [registerClient] using ih

theorem unregister_length (ptr : Nat) (clients : ClientList) :
    (unregisterClient ptr clients).length = clients.length := by
  induction clients with
  | nil => rfl
  | cons slot rest ih =>
      cases slot with
      | none => simpa [unregisterClient] using ih
      | some client =>
          by_cases hit : client.ptr = ptr
          · simp [unregisterClient, hit]
          · simpa [unregisterClient, hit] using ih

theorem transition_length (ok : Bool) (sock : Int) (input : Bytes) (before after : ClientList)
    (events : List Event) (transition : Transition ok sock input before after events) :
    after.length = before.length := by
  cases transition with
  | quiet same => rw [same]
  | queued _ _ _ _ _ _ updated => rw [updated, update_length]
  | failed _ _ _ _ _ updated => rw [updated, update_length]
  | started _ _ _ _ updated => rw [updated, update_length]
  | executed _ _ _ _ updated => rw [updated, update_length]
  | discarded _ _ _ _ updated => rw [updated, update_length]

theorem listed_length (clients : ClientList) : (listed clients).length ≤ clients.length :=
  List.length_filterMap_le _ _

/-- The slots of a socket are the listed clients with it. -/
theorem slots_of (sock : Int) (clients : ClientList) :
    clients.countP (fun slot => slot.any (·.socket = sock)) =
      ((listed clients).map (·.socket)).count sock := by
  induction clients with
  | nil => rfl
  | cons slot rest ih =>
      cases slot with
      | none => simpa using ih
      | some client => simp [List.countP_cons, List.count_cons, ih]

end Slots

section Invariant

structure Orderly (tracked : Tracked) : Prop where
  wf : Wellformed tracked.server
  connected : ∀ sock, sock ∈ tracked.connections ↔ sock ∈ (openClients tracked.server).map (·.socket)
  slots : tracked.server.clientList.length = tracked.server.config.maxClients
  listed : tracked.server.config.concurrencyModel = .threaded → tracked.server.unlisted = []

theorem start_orderly (server : Server) (starts : Starts server) : Orderly ⟨server, []⟩ := by
  have wf := start_wellformed server starts
  obtain ⟨-, now, files, config, same, -⟩ := starts
  have slots : server.clientList = List.replicate config.maxClients none := by rw [same]; rfl
  have unlisted : server.unlisted = [] := by rw [same]; rfl
  refine ⟨wf, fun sock => ?_, ?_, fun _ => unlisted⟩
  · simp [openClients, slots, listed_empty, unlisted]
  · rw [slots, List.length_replicate, same]
    rfl

/-- Steps that leave the clients alone. -/
theorem aside_orderly (tracked : Tracked) (orderly : Orderly tracked) (after : Server)
    (wf : Wellformed after) (same : SameClients tracked.server after) :
    Orderly ⟨after, tracked.connections⟩ where
  wf := wf
  connected := by
    intro sock
    rw [orderly.connected sock]
    simp only [openClients, same.clientList, same.unlisted]
  slots := by
    rw [same.clientList, same.config]
    exact orderly.slots
  listed := by
    rw [same.unlisted, same.config]
    exact orderly.listed

theorem connect_orderly (tracked : Tracked) (orderly : Orderly tracked) (ptr : Nat) (socket : Int)
    (allowed : Steps tracked (.connect ptr socket)) (room : Room tracked (.connect ptr socket)) :
    Orderly (track tracked (.connect ptr socket)) := by
  obtain ⟨positive, fresh, unused⟩ := allowed
  have possible : Possible tracked.server (.connect ptr socket) :=
    ⟨positive, fun wrong => fresh ((orderly.connected socket).mpr wrong), unused⟩
  have perm := (connect_open ptr socket tracked.server).map (·.socket)
  refine ⟨connect_wellformed ptr socket tracked.server orderly.wf possible, ?_, ?_, ?_⟩
  · intro sock
    simp only [track, next, stepServer]
    rw [perm.mem_iff, List.map_cons, List.mem_cons, List.mem_cons, orderly.connected sock]
    rfl
  · simp only [track, next, stepServer, connectClient, register_length]
    exact orderly.slots
  · intro threaded
    simp only [track, next, stepServer, connectClient]
    rw [if_pos (room threaded)]
    exact orderly.listed threaded

theorem closed_orderly (tracked : Tracked) (orderly : Orderly tracked) (client : Client)
    (member : client ∈ openClients tracked.server) :
    Orderly ⟨(disconnectClient client tracked.server).1,
      tracked.connections.filter (· ≠ client.socket)⟩ := by
  refine ⟨disconnect_wellformed client tracked.server orderly.wf, ?_, ?_, ?_⟩
  · intro sock
    rw [List.mem_filter, orderly.connected sock, (disconnect_open client tracked.server orderly.wf).2]
    have ptrs (other : Client) (there : other ∈ openClients tracked.server) :=
      open_socket_ptr tracked.server orderly.wf client other member there
    constructor
    · rintro ⟨inside, apart⟩
      obtain ⟨other, there, rfl⟩ := List.mem_map.mp inside
      refine List.mem_map.mpr ⟨other, List.mem_filter.mpr ⟨there, ?_⟩, rfl⟩
      simpa [ptrs other there] using apart
    · intro inside
      obtain ⟨other, remains, rfl⟩ := List.mem_map.mp inside
      obtain ⟨there, apart⟩ := List.mem_filter.mp remains
      refine ⟨List.mem_map.mpr ⟨other, there, rfl⟩, ?_⟩
      simpa [ptrs other there] using apart
  · simp only [disconnectClient, unregister_length]
    exact orderly.slots
  · intro threaded
    simp only [disconnectClient, orderly.listed threaded, List.filter_nil]

theorem read_orderly (tracked : Tracked) (orderly : Orderly tracked) (oracle : Oracle)
    (client : Client) (member : client ∈ openClients tracked.server) (chunk : Bytes)
    (fits : chunk.length < tracked.server.config.bufferSize) :
    Orderly ⟨(readInput oracle client chunk tracked.server).server, tracked.connections⟩ := by
  have wf := orderly.wf
  have short := wf.input_short client member chunk fits
  have after := execute_wellformed oracle client.socket (client.buffer ++ chunk) tracked.server wf short
  obtain ⟨-, fixed⟩ := execute_sound oracle client.socket (client.buffer ++ chunk) tracked.server short
    wf.queueable wf.sound
  have unlisted : (executeCommand oracle client.socket (client.buffer ++ chunk)
      tracked.server).server.unlisted = tracked.server.unlisted := congrArg Prod.fst fixed
  have config : (executeCommand oracle client.socket (client.buffer ++ chunk)
      tracked.server).server.config = tracked.server.config := congrArg Prod.snd fixed
  rw [read_input_server oracle client chunk tracked.server after]
  refine ⟨after, ?_, ?_, ?_⟩
  · intro sock
    rw [orderly.connected sock, execute_map (fun client => client.socket)
      (fun _ _ _ _ _ _ _ _ _ _ _ _ => rfl) oracle client.socket _ tracked.server wf short]
  · rw [config, transition_length _ _ _ _ _ _
      (execute_transition oracle client.socket (client.buffer ++ chunk) tracked.server wf.ready)]
    exact orderly.slots
  · rw [config, unlisted]
    exact orderly.listed

theorem receive_orderly (tracked : Tracked) (orderly : Orderly tracked) (oracle : Oracle) (sock : Int)
    (chunk : Bytes) (allowed : Steps tracked (.receive oracle sock chunk)) :
    Orderly (track tracked (.receive oracle sock chunk)) := by
  obtain ⟨open_, fits⟩ := allowed
  have served := serve_cases oracle sock chunk tracked.server
  simp only [track, next, stepServer]
  generalize serve oracle sock chunk tracked.server = reading at served
  cases served with
  | closed client member same ended =>
      subst same
      have closes : Closes tracked.server client.socket chunk := Or.inl ended
      simp only [closes, ↓reduceIte]
      exact closed_orderly tracked orderly client member
  | read client member same stays =>
      simp only [stays, ↓reduceIte]
      exact read_orderly tracked orderly oracle client member chunk fits
  | absent missing => exact absurd ((orderly.connected sock).mp open_) missing
  | dropped loop missing =>
      have closes : Closes tracked.server sock chunk := Or.inr ⟨loop, missing⟩
      simp only [closes, ↓reduceIte]
      refine ⟨shrink_wellformed tracked.server _ orderly.wf rfl rfl (List.Sublist.refl _)
        List.filter_sublist, ?_, orderly.slots, ?_⟩
      · have unlisted : ∀ client ∈ listed tracked.server.clientList, client.socket ≠ sock := by
          intro client member
          rw [findClient, get_listed] at missing
          simpa using List.find?_eq_none.mp missing client member
        intro other
        rw [List.mem_filter, orderly.connected other]
        simp only [openClients, List.map_append, List.mem_append, List.mem_map, List.mem_filter,
          decide_eq_true_eq, ne_eq]
        constructor
        · rintro ⟨⟨client, member, rfl⟩ | ⟨client, member, rfl⟩, apart⟩
          · exact Or.inl ⟨client, member, rfl⟩
          · exact Or.inr ⟨client, ⟨member, by simpa using apart⟩, rfl⟩
        · rintro (⟨client, member, rfl⟩ | ⟨client, ⟨member, apart⟩, rfl⟩)
          · exact ⟨Or.inl ⟨client, member, rfl⟩, by simpa using unlisted client member⟩
          · exact ⟨Or.inr ⟨client, member, rfl⟩, by simpa using apart⟩
      · exact fun threaded => absurd (threaded.symm.trans loop) (by decide)

theorem step_orderly (tracked : Tracked) (step : ServerStep) (orderly : Orderly tracked)
    (allowed : Steps tracked step ∧ Room tracked step) : Orderly (track tracked step) := by
  cases step with
  | connect ptr socket => exact connect_orderly tracked orderly ptr socket allowed.1 allowed.2
  | receive oracle sock chunk => exact receive_orderly tracked orderly oracle sock chunk allowed.1
  | replication oracle received connect =>
      exact aside_orderly tracked orderly _ (next_wellformed _ _ orderly.wf allowed.1)
        (replication_same_clients oracle received connect tracked.server orderly.wf allowed.1)
  | sweep now =>
      exact aside_orderly tracked orderly _ (next_wellformed _ _ orderly.wf allowed.1) ⟨rfl, rfl, rfl⟩
  | autoSave now saveNow io =>
      have same : SameClients tracked.server (autoSave now saveNow io tracked.server) := by
        simp only [autoSave]
        split
        · split <;> exact ⟨rfl, rfl, rfl⟩
        · exact ⟨rfl, rfl, rfl⟩
      exact aside_orderly tracked orderly _ (next_wellformed _ _ orderly.wf allowed.1) same

end Invariant

section Registry

variable (tracked : Tracked)

theorem read_unaffected (sock : Int) (client : Client)
    (found : findClient sock tracked.server = some client) (oracle : Oracle) (chunk : Bytes)
    (clients : ClientList) (others : List Client)
    (same : getClientBySocket sock clients = findClient sock tracked.server) :
    let here := readInput oracle client chunk tracked.server
    let there := readInput oracle client chunk (reseat clients others tracked.server)
    there.events = here.events ∧ there.passed = here.passed ∧
      ∃ slots unlisted, there.server = reseat slots unlisted here.server ∧
        getClientBySocket sock slots = findClient sock here.server := by
  obtain ⟨-, rfl⟩ := get_mem sock tracked.server.clientList client found
  obtain ⟨slots, unlisted, kept, ran⟩ := execute_alike client.socket clients others tracked.server same
    oracle (client.buffer ++ chunk)
  have reset : KeepsSocket resetBuffer := fun _ => rfl
  simp only [readInput, ran]
  refine ⟨rfl, trivial, updateClient client.socket resetBuffer slots,
    resetUnlisted client.socket unlisted, rfl, ?_⟩
  rw [findClient, get_update _ _ _ reset, get_update _ _ _ reset, kept]
  rfl

variable (orderly : Orderly tracked)

include orderly

/-- The client whose input is executed has a slot. -/
theorem served_listed (sock : Int) (served : Served tracked sock) :
    ∃ client, findClient sock tracked.server = some client ∧
      openClient sock tracked.server = some client := by
  obtain ⟨oracle, chunk, ⟨open_, -⟩, executes⟩ := served
  have first : openClient sock tracked.server = (findClient sock tracked.server).or
      (tracked.server.unlisted.find? (·.socket = sock)) := by
    rw [openClient, openClients, List.find?_append, findClient, get_listed]
  cases found : findClient sock tracked.server with
  | some client => exact ⟨client, rfl, by rw [first, found]; rfl⟩
  | none =>
      exfalso
      cases model : tracked.server.config.concurrencyModel with
      | eventLoop => simp [serve, model, handleClientMessage, found] at executes
      | threaded =>
          rw [orderly.listed model] at first
          have missing : openClient sock tracked.server = none := by simpa [found] using first
          obtain ⟨client, member, same⟩ := List.mem_map.mp ((orderly.connected sock).mp open_)
          simpa [same] using List.find?_eq_none.mp missing client member

theorem served_unaffected (sock : Int) : Unaffected tracked sock := by
  intro oracle chunk clients others allowed executes same
  obtain ⟨client, found, opened⟩ := served_listed tracked orderly sock ⟨oracle, chunk, allowed, executes⟩
  have seat : getClientBySocket sock clients = findClient sock tracked.server := by
    rw [same, opened, found]
  have elsewhere : openClient sock (reseat clients others tracked.server) = some client := by
    have lookup : getClientBySocket sock clients = some client := by rw [same, opened]
    rw [get_listed] at lookup
    simp only [openClient, openClients, reseat, List.find?_append, lookup, Option.some_or]
  have named : findClient sock (reseat clients others tracked.server) = some client := by
    rw [← found]
    exact seat
  have more : chunk ≠ [] := by
    rintro rfl
    cases model : tracked.server.config.concurrencyModel with
    | threaded => simp [serve, model, handleClient, opened] at executes
    | eventLoop => simp [serve, model, handleClientMessage, found] at executes
  have read := read_unaffected tracked sock client found oracle chunk clients others seat
  cases model : tracked.server.config.concurrencyModel with
  | threaded =>
      simpa only [serve, reseat_config, model, handleClient, opened, elsewhere, more, ↓reduceIte] using read
  | eventLoop =>
      simpa only [serve, reseat_config, model, handleClientMessage, found, named, more,
        ↓reduceIte] using read

theorem orderly_registers : Registers tracked := by
  have distinct : ((listed tracked.server.clientList).map (·.socket)).Nodup :=
    orderly.wf.sockets.sublist ((List.sublist_append_left _ _).map _)
  have inside : ∀ sock, Served tracked sock → sock ∈ (listed tracked.server.clientList).map (·.socket) := by
    intro sock served
    obtain ⟨client, found, -⟩ := served_listed tracked orderly sock served
    obtain ⟨member, same⟩ := get_mem sock tracked.server.clientList client found
    exact List.mem_map.mpr ⟨client, member, same⟩
  refine ⟨?_, ?_, distinct, ?_, served_unaffected tracked orderly⟩
  · intro sock served
    rw [slots_of]
    exact List.count_eq_one_of_mem distinct (inside sock served)
  · intro client member
    rw [orderly.connected client.socket]
    exact List.mem_map_of_mem ((open_mem tracked.server client).mpr (Or.inl member))
  · intro socks unique served
    have few := (List.Nodup.subperm unique fun sock member => inside sock (served sock member)).length_le
    rw [List.length_map] at few
    exact (few.trans (listed_length _)).trans orderly.slots.le

end Registry

section Runs

/-- In every run of either model that starts a thread only for a client with a slot, whoever is
    served is registered. -/
theorem served_clients_registered (server : Server) (starts : Starts server) (steps : List ServerStep)
    (admitted : Admitted (fun tracked step => Steps tracked step ∧ Room tracked step) track
      ⟨server, []⟩ steps) : Registers (run track ⟨server, []⟩ steps) :=
  orderly_registers _ (run_invariant _ track step_orderly ⟨server, []⟩ (start_orderly server starts)
    steps admitted)

instance (tracked : Tracked) (ptr : Nat) (socket : Int) :
    Decidable (Steps tracked (.connect ptr socket)) := inferInstanceAs (Decidable (_ ∧ _ ∧ _))

instance (tracked : Tracked) (oracle : Oracle) (sock : Int) (chunk : Bytes) :
    Decidable (Steps tracked (.receive oracle sock chunk)) := inferInstanceAs (Decidable (_ ∧ _))

theorem connected_client_registered :
    Registers (run track ⟨emptyServer, []⟩ [.connect 1 7, .receive (calm 0) 7 (ascii "MULTI\r\n")]) := by
  have read : Steps (track ⟨emptyServer, []⟩ (.connect 1 7))
      (.receive (calm 0) 7 (ascii "MULTI\r\n")) := by decide +kernel
  have connect : Steps ⟨emptyServer, []⟩ (.connect 1 7) := by decide +kernel
  exact served_clients_registered emptyServer empty_starts _
    ⟨⟨connect, fun _ => by decide +kernel⟩, ⟨read, trivial⟩, trivial⟩

/-- The server of a configuration for one client. -/
def narrowServer : Server :=
  initServer ⟨ChainedTable.empty 1024, 1024, 0, 1023, 0, 0⟩ 0 (fun _ => none)
    { loadDefaultConfig with maxClients := 1 }

theorem narrow_starts : Starts narrowServer :=
  ⟨⟨true, rfl⟩, 0, fun _ => none, { loadDefaultConfig with maxClients := 1 }, rfl, by decide⟩

/-- The second connection is served without a slot, and cannot start a transaction. -/
theorem second_client_unregistered :
    Starts narrowServer ∧
      Admitted Steps track ⟨narrowServer, []⟩ [.connect 1 7, .connect 2 8] ∧
      (serve (calm 0) 8 (ascii "MULTI\r\n")
        (run track ⟨narrowServer, []⟩ [.connect 1 7, .connect 2 8]).server).events =
          [.reply 8 (.error (ascii "ERR client not found"))] ∧
      ¬ Registers (run track ⟨narrowServer, []⟩ [.connect 1 7, .connect 2 8]) := by
  have first : Steps ⟨narrowServer, []⟩ (.connect 1 7) := by decide +kernel
  have second : Steps (track ⟨narrowServer, []⟩ (.connect 1 7)) (.connect 2 8) := by decide +kernel
  refine ⟨narrow_starts, ⟨first, second, trivial⟩, by decide +kernel, fun registers => ?_⟩
  have none := registers.slot 8 ⟨calm 0, ascii "PING\r\n", by decide +kernel, by decide +kernel⟩
  exact absurd none (by decide +kernel)

end Runs

end CrimsonCache.ClientRegistry
