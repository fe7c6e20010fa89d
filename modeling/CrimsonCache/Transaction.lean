import Mathlib.Data.List.Nodup
import CrimsonCache.CString

/-!
The clients of crimsoncache.h, the client list of main.c and the queue
operations of transaction.c. A client is identified by its address; the queue
is the first `queue_size` entries of `queued_commands`. Slots of the list are
empty or hold a client, and a lookup takes the first match.
-/

namespace CrimsonCache.Transaction

open CString

structure Client where
  ptr : Nat
  socket : Int
  bufferCapacity : Nat
  /-- The bytes before `buffer_pos`. -/
  buffer : Bytes
  inTransaction : Bool
  transactionErrors : Bool
  queuedCommands : List Bytes
  queueCapacity : Nat
  deriving DecidableEq

abbrev ClientList := List (Option Client)

def registerClient (client : Client) : ClientList → ClientList
  | [] => []
  | none :: rest => some client :: rest
  | some other :: rest => some other :: registerClient client rest

def getClientBySocket (socket : Int) : ClientList → Option Client
  | [] => none
  | none :: rest => getClientBySocket socket rest
  | some client :: rest =>
      if client.socket = socket then some client else getClientBySocket socket rest

/-- A write through the pointer that `get_client_by_socket` returned. -/
def updateClient (socket : Int) (change : Client → Client) : ClientList → ClientList
  | [] => []
  | none :: rest => none :: updateClient socket change rest
  | some client :: rest =>
      if client.socket = socket then some (change client) :: rest
      else some client :: updateClient socket change rest

def unregisterClient (ptr : Nat) : ClientList → ClientList
  | [] => []
  | none :: rest => none :: unregisterClient ptr rest
  | some client :: rest =>
      if client.ptr = ptr then none :: rest else some client :: unregisterClient ptr rest

def txCleanup (client : Client) : Client :=
  { client with
    queuedCommands := []
    queueCapacity := 0
    inTransaction := false
    transactionErrors := false }

def txInit (client : Client) : Client :=
  { client with
    inTransaction := false
    transactionErrors := false
    queuedCommands := []
    queueCapacity := 0 }

/-- `array` and `copy` are the outcomes of the `realloc` and the `strdup`. -/
def txQueueCommand (array copy : Bool) (client : Client) (cmd : Bytes) : Client × Bool :=
  let full : Bool := client.queuedCommands.length ≥ client.queueCapacity
  if full && !array then (client, false)
  else
    let client :=
      if full then
        { client with
          queueCapacity := if client.queueCapacity = 0 then 10 else client.queueCapacity * 2 }
      else client
    -- A failed copy leaves the larger array behind.
    if copy then ({ client with queuedCommands := client.queuedCommands ++ [cmd] }, true)
    else (client, false)

section Lookups

/-- The clients in the occupied slots. -/
def listed (clients : ClientList) : List Client := clients.filterMap id

@[simp] theorem listed_none (rest : ClientList) : listed (none :: rest) = listed rest := rfl

@[simp] theorem listed_some (client : Client) (rest : ClientList) :
    listed (some client :: rest) = client :: listed rest := rfl

theorem get_listed (socket : Int) (clients : ClientList) :
    getClientBySocket socket clients = (listed clients).find? (·.socket = socket) := by
  induction clients with
  | nil => rfl
  | cons slot rest ih =>
      cases slot with
      | none => exact ih
      | some client =>
          by_cases hit : client.socket = socket
          · simp [getClientBySocket, hit]
          · simp [getClientBySocket, hit, ih]

theorem get_mem (socket : Int) (clients : ClientList) (client : Client)
    (found : getClientBySocket socket clients = some client) :
    client ∈ listed clients ∧ client.socket = socket := by
  rw [get_listed] at found
  exact ⟨List.mem_of_find?_eq_some found, by simpa using List.find?_some found⟩

theorem get_unique (clients : ClientList) (distinct : ((listed clients).map (·.socket)).Nodup)
    (client : Client) (member : client ∈ listed clients) :
    getClientBySocket client.socket clients = some client := by
  rw [get_listed]
  cases found : (listed clients).find? (·.socket = client.socket) with
  | none => simpa using List.find?_eq_none.mp found client member
  | some other =>
      have there := List.mem_of_find?_eq_some found
      have same : other.socket = client.socket := by simpa using List.find?_some found
      rw [List.inj_on_of_nodup_map distinct there member same]

theorem get_iff (clients : ClientList) (distinct : ((listed clients).map (·.socket)).Nodup)
    (socket : Int) (client : Client) :
    getClientBySocket socket clients = some client ↔
      client ∈ listed clients ∧ client.socket = socket := by
  constructor
  · exact get_mem socket clients client
  · rintro ⟨member, rfl⟩
    exact get_unique clients distinct client member

/-- An update applies to the client that the lookup returns, and to no other. -/
theorem update_listed (socket : Int) (change : Client → Client) (clients : ClientList)
    (client : Client) (found : getClientBySocket socket clients = some client) :
    ∃ before after, listed clients = before ++ client :: after ∧
      listed (updateClient socket change clients) = before ++ change client :: after := by
  induction clients with
  | nil => simp [getClientBySocket] at found
  | cons slot rest ih =>
      cases slot with
      | none => exact ih found
      | some first =>
          by_cases hit : first.socket = socket
          · have same : first = client := by simpa [getClientBySocket, hit] using found
            subst same
            exact ⟨[], listed rest, rfl, by simp [updateClient, hit]⟩
          · obtain ⟨before, after, whole, updated⟩ :=
              ih (by simpa [getClientBySocket, hit] using found)
            exact ⟨first :: before, after, by simp [whole], by simp [updateClient, hit, updated]⟩

end Lookups

/-- No transaction is open and none of its state is left over. -/
structure Idle (client : Client) : Prop where
  inTransaction : client.inTransaction = false
  transactionErrors : client.transactionErrors = false
  queuedCommands : client.queuedCommands = []
  queueCapacity : client.queueCapacity = 0

theorem cleanup_idle (client : Client) : Idle (txCleanup client) := ⟨rfl, rfl, rfl, rfl⟩

theorem init_idle (client : Client) : Idle (txInit client) := ⟨rfl, rfl, rfl, rfl⟩

theorem cleanup_of_idle (client : Client) (idle : Idle client) : txCleanup client = client := by
  rcases idle with ⟨h1, h2, h3, h4⟩
  cases client
  simp_all [txCleanup]

/-- A queue that took a command, with the capacity it then has. -/
def enqueue (cmd : Bytes) (capacity : Nat) (client : Client) : Client :=
  { client with queuedCommands := client.queuedCommands ++ [cmd], queueCapacity := capacity }

def grow (capacity : Nat) (client : Client) : Client := { client with queueCapacity := capacity }

/-- A failed call may have grown the array, but it queued nothing. -/
theorem queue_command_cases (array copy : Bool) (client : Client) (cmd : Bytes) :
    (∃ capacity, txQueueCommand array copy client cmd = (enqueue cmd capacity client, true)) ∨
      ∃ capacity, txQueueCommand array copy client cmd = (grow capacity client, false) := by
  by_cases full : client.queueCapacity ≤ client.queuedCommands.length
  · cases array with
    | false => exact Or.inr ⟨client.queueCapacity, by simp [txQueueCommand, full, grow]⟩
    | true =>
        cases copy with
        | false => exact Or.inr ⟨_, by simp [txQueueCommand, full]; rfl⟩
        | true => exact Or.inl ⟨_, by simp [txQueueCommand, full]; rfl⟩
  · cases copy with
    | false => exact Or.inr ⟨client.queueCapacity, by simp [txQueueCommand, full, grow]⟩
    | true => exact Or.inl ⟨client.queueCapacity, by simp [txQueueCommand, full, enqueue]⟩

theorem queue_command_success (client : Client) (cmd : Bytes) :
    (txQueueCommand true true client cmd).2 = true := by
  simp [txQueueCommand]

section ClientList

theorem update_absent (socket : Int) (change : Client → Client) (clients : ClientList)
    (absent : getClientBySocket socket clients = none) :
    updateClient socket change clients = clients := by
  induction clients with
  | nil => rfl
  | cons slot rest ih =>
      cases slot with
      | none => simpa [updateClient, getClientBySocket] using ih absent
      | some first =>
          by_cases hit : first.socket = socket
          · simp [getClientBySocket, hit] at absent
          · simpa [updateClient, hit] using ih (by simpa [getClientBySocket, hit] using absent)

theorem update_mem (socket : Int) (change : Client → Client) (clients : ClientList)
    (client : Client) (member : client ∈ listed (updateClient socket change clients)) :
    client ∈ listed clients ∨
      ∃ old, getClientBySocket socket clients = some old ∧ client = change old := by
  cases found : getClientBySocket socket clients with
  | none => exact Or.inl (update_absent socket change clients found ▸ member)
  | some old =>
      obtain ⟨before, after, whole, updated⟩ := update_listed socket change clients old found
      rw [updated] at member
      rcases List.mem_append.mp member with first | later
      · exact Or.inl (by simp [whole, first])
      · rcases List.mem_cons.mp later with rfl | last
        · exact Or.inr ⟨old, rfl, rfl⟩
        · exact Or.inl (by simp [whole, last])

/-- A field that the update keeps is kept throughout the list. -/
theorem update_map {Field : Type} (field : Client → Field) (socket : Int)
    (change : Client → Client) (keeps : ∀ client, field (change client) = field client)
    (clients : ClientList) :
    (listed (updateClient socket change clients)).map field = (listed clients).map field := by
  induction clients with
  | nil => rfl
  | cons slot rest ih =>
      cases slot with
      | none => exact ih
      | some first =>
          by_cases hit : first.socket = socket
          · simp [updateClient, hit, keeps]
          · simp [updateClient, hit, ih]

theorem update_congr (socket : Int) (first second : Client → Client) (clients : ClientList)
    (same : ∀ client, getClientBySocket socket clients = some client → first client = second client) :
    updateClient socket first clients = updateClient socket second clients := by
  induction clients with
  | nil => rfl
  | cons slot rest ih =>
      cases slot with
      | none => simpa [updateClient] using ih same
      | some client =>
          by_cases hit : client.socket = socket
          · simp [updateClient, hit, same client (by simp [getClientBySocket, hit])]
          · simpa [updateClient, hit] using
              ih fun other found => same other (by simpa [getClientBySocket, hit] using found)

theorem update_id (socket : Int) (clients : ClientList) :
    updateClient socket (fun client => client) clients = clients := by
  induction clients with
  | nil => rfl
  | cons slot rest ih =>
      cases slot with
      | none => simpa [updateClient] using ih
      | some client =>
          by_cases hit : client.socket = socket
          · simp [updateClient, hit]
          · simpa [updateClient, hit] using ih

/-- Changes that leave the socket alone. -/
def KeepsSocket (change : Client → Client) : Prop := ∀ client, (change client).socket = client.socket

theorem update_update (socket : Int) (first second : Client → Client) (keeps : KeepsSocket first)
    (clients : ClientList) :
    updateClient socket second (updateClient socket first clients) =
      updateClient socket (fun client => second (first client)) clients := by
  induction clients with
  | nil => rfl
  | cons slot rest ih =>
      cases slot with
      | none => simpa [updateClient] using ih
      | some client =>
          by_cases hit : client.socket = socket
          · simp [updateClient, hit, keeps client]
          · simpa [updateClient, hit] using ih

theorem update_comm (socket other : Int) (apart : socket ≠ other) (first second : Client → Client)
    (keepsFirst : KeepsSocket first) (keepsSecond : KeepsSocket second) (clients : ClientList) :
    updateClient socket first (updateClient other second clients) =
      updateClient other second (updateClient socket first clients) := by
  induction clients with
  | nil => rfl
  | cons slot rest ih =>
      cases slot with
      | none => simp [updateClient, ih]
      | some client =>
          by_cases here : client.socket = socket
          · have there : client.socket ≠ other := fun same => apart (here.symm.trans same)
            simp [updateClient, here, keepsFirst client, apart]
          · by_cases there : client.socket = other
            · simp [updateClient, there, keepsSecond client, Ne.symm apart]
            · simp [updateClient, here, there, ih]

theorem get_update (socket other : Int) (change : Client → Client) (keeps : KeepsSocket change)
    (clients : ClientList) :
    getClientBySocket other (updateClient socket change clients) =
      if other = socket then (getClientBySocket socket clients).map change
      else getClientBySocket other clients := by
  induction clients with
  | nil => simp [updateClient, getClientBySocket]
  | cons slot rest ih =>
      cases slot with
      | none => simpa [updateClient, getClientBySocket] using ih
      | some client =>
          by_cases hit : client.socket = socket
          · by_cases same : other = socket
            · simp [updateClient, getClientBySocket, hit, keeps client, same]
            · simp [updateClient, getClientBySocket, hit, keeps client, same, Ne.symm same]
          · by_cases same : other = socket
            · subst same
              simpa [updateClient, getClientBySocket, hit] using ih
            · simp only [same, ↓reduceIte] at ih
              simp [updateClient, getClientBySocket, hit, same, ih]

theorem register_listed (client : Client) (clients : ClientList) (free : none ∈ clients) :
    (listed (registerClient client clients)).Perm (client :: listed clients) := by
  induction clients with
  | nil => simp at free
  | cons slot rest ih =>
      cases slot with
      | none => exact List.Perm.refl _
      | some first =>
          have later : none ∈ rest := by simpa using free
          exact ((ih later).cons first).trans (List.Perm.swap client first _)

theorem register_full (client : Client) (clients : ClientList) (full : none ∉ clients) :
    registerClient client clients = clients := by
  induction clients with
  | nil => rfl
  | cons slot rest ih =>
      cases slot with
      | none => simp at full
      | some first => simpa [registerClient] using ih (by simpa using full)

theorem unregister_listed (ptr : Nat) (clients : ClientList) :
    listed (unregisterClient ptr clients) = (listed clients).eraseP (·.ptr = ptr) := by
  induction clients with
  | nil => rfl
  | cons slot rest ih =>
      cases slot with
      | none => exact ih
      | some first =>
          by_cases hit : first.ptr = ptr
          · simp [unregisterClient, hit]
          · simp [unregisterClient, hit, ih]

theorem register_update (client : Client) (socket : Int) (apart : client.socket ≠ socket)
    (change : Client → Client) (clients : ClientList) :
    registerClient client (updateClient socket change clients) =
      updateClient socket change (registerClient client clients) := by
  induction clients with
  | nil => rfl
  | cons slot rest ih =>
      cases slot with
      | none => simp [registerClient, updateClient, apart]
      | some other =>
          by_cases here : other.socket = socket
          · simp [registerClient, updateClient, here]
          · simp [registerClient, updateClient, here, ih]

theorem get_register (client : Client) (socket : Int) (apart : client.socket ≠ socket)
    (clients : ClientList) :
    getClientBySocket socket (registerClient client clients) = getClientBySocket socket clients := by
  induction clients with
  | nil => rfl
  | cons slot rest ih =>
      cases slot with
      | none => simp [registerClient, getClientBySocket, apart]
      | some other => simp [registerClient, getClientBySocket, ih]

theorem free_update (socket : Int) (change : Client → Client) (clients : ClientList) :
    none ∈ updateClient socket change clients ↔ none ∈ clients := by
  induction clients with
  | nil => rfl
  | cons slot rest ih =>
      cases slot with
      | none => simp [updateClient]
      | some other =>
          by_cases here : other.socket = socket
          · simp [updateClient, here]
          · simp [updateClient, here, ih]

/-- With distinct keys, dropping the first item of a key drops all. -/
theorem erase_unique {Item Key : Type} [DecidableEq Key] (keyOf : Item → Key) (key : Key)
    (items : List Item) (distinct : (items.map keyOf).Nodup) :
    items.eraseP (keyOf · = key) = items.filter (keyOf · ≠ key) := by
  induction items with
  | nil => rfl
  | cons item rest ih =>
      obtain ⟨fresh, apart⟩ := List.nodup_cons.mp distinct
      by_cases hit : keyOf item = key
      · have others : rest.filter (keyOf · ≠ key) = rest := by
          rw [List.filter_eq_self]
          intro other member
          have differs : keyOf other ≠ key := fun same =>
            fresh (List.mem_map.mpr ⟨other, member, same.trans hit.symm⟩)
          simpa using differs
        rw [List.eraseP_cons_of_pos (by simpa using hit), List.filter_cons_of_neg (by simpa using hit),
          others]
      · rw [List.eraseP_cons_of_neg (by simpa using hit), List.filter_cons_of_pos (by simpa using hit),
          ih apart]

end ClientList

end CrimsonCache.Transaction
