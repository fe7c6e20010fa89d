import CrimsonCache.ServerRuns

/-!
A REPLICAOF that is answered with an error. The port is checked before anything
is touched; the host is resolved and connected to after the old link is closed
and the role is switched, and neither of the two exits behind that undoes it.
-/

namespace CrimsonCache.RefusedReplicaof

open CString Replies Replication ServerState DataCommands Commands Connections ServerRuns

/-- One turn of the loop over the addresses of a host. -/
inductive Attempt where
  | noSocket
  | refused
  | connected (fd : Int)
  deriving DecidableEq

def tryAddresses : List Attempt → Connect
  | [] => .refused
  | .noSocket :: rest => tryAddresses rest
  | .refused :: rest => tryAddresses rest
  | .connected fd :: _ => .connected fd

/-- `getaddrinfo` fails or returns the addresses that are tried in order. -/
def connectPrimary : Option (List Attempt) → Connect
  | none => .unresolved
  | some attempts => tryAddresses attempts

def isAccepted : Attempt → Bool
  | .connected _ => true
  | _ => false

/-- Some address of the host accepts. -/
def Accepted (resolution : Option (List Attempt)) : Prop :=
  ∃ attempts, resolution = some attempts ∧ attempts.any isAccepted = true

theorem try_addresses_accepted (attempts : List Attempt) (accepted : attempts.any isAccepted = true) :
    ∃ fd, tryAddresses attempts = .connected fd := by
  induction attempts with
  | nil => simp at accepted
  | cons attempt rest ih =>
      cases attempt with
      | noSocket => exact ih (by simpa [isAccepted] using accepted)
      | refused => exact ih (by simpa [isAccepted] using accepted)
      | connected fd => exact ⟨fd, rfl⟩

theorem try_addresses_refused (attempts : List Attempt) (none : attempts.any isAccepted = false) :
    tryAddresses attempts = .refused := by
  induction attempts with
  | nil => rfl
  | cons attempt rest ih =>
      cases attempt with
      | noSocket => exact ih (by simpa [isAccepted] using none)
      | refused => exact ih (by simpa [isAccepted] using none)
      | connected fd => simp [isAccepted] at none

theorem connect_accepted (resolution : Option (List Attempt)) (accepted : Accepted resolution) :
    ∃ fd, connectPrimary resolution = .connected fd := by
  obtain ⟨attempts, rfl, some⟩ := accepted
  exact try_addresses_accepted attempts some

theorem connect_failed (resolution : Option (List Attempt)) (failed : ¬ Accepted resolution) :
    connectPrimary resolution = .unresolved ∨ connectPrimary resolution = .refused := by
  cases resolution with
  | none => exact Or.inl rfl
  | some attempts =>
      right
      apply try_addresses_refused
      by_contra some
      exact failed ⟨attempts, rfl, by simpa using some⟩

/-- The role, the primary's host and port, the link state and the descriptor. -/
def linkState (repl : ReplicationInfo) : Role × Bytes × Int × ReplState × Int :=
  (repl.role, repl.primaryHost, repl.primaryPort, repl.state, repl.primaryFd)

def asksPromotion (argv : List Bytes) : Bool :=
  strcaseeq (arg argv 1) (ascii "NO") && strcaseeq (arg argv 2) (ascii "ONE")

def portRefused (argv : List Bytes) : Prop := atoi (arg argv 2) ≤ 0 ∨ atoi (arg argv 2) > 65535

/-- What a REPLICAOF leaves before it tries to connect. -/
def detached (argv : List Bytes) : Role × Bytes × Int × ReplState × Int :=
  (.replica, (arg argv 1).take 255, atoi (arg argv 2), .connecting, -1)

section Command

variable (env : Env) (sock : Int) (argv : List Bytes) (server : Server)

theorem promotion_ok (promotes : asksPromotion argv = true) :
    (replicaofCommand env sock argv server).result = .ok := by
  simp only [asksPromotion] at promotes
  simp [replicaofCommand, promotes]

theorem port_refused (follows : asksPromotion argv = false) (refused : portRefused argv) :
    (replicaofCommand env sock argv server).server = server := by
  simp only [asksPromotion] at follows
  simp only [portRefused] at refused
  simp only [replicaofCommand, follows, refused, Bool.false_eq_true, ↓reduceIte]
  rfl

theorem connected_ok (follows : asksPromotion argv = false) (port : ¬ portRefused argv) (fd : Int)
    (connected : env.connect = .connected fd) :
    (replicaofCommand env sock argv server).result = .ok := by
  simp only [asksPromotion] at follows
  simp only [portRefused] at port
  simp only [replicaofCommand, follows, port, Bool.false_eq_true, ↓reduceIte, connected,
    replicationSetPrimary]

/-- A failure of the connection is an error, and the server has become a replica by then. -/
theorem connect_failed_detaches (follows : asksPromotion argv = false) (port : ¬ portRefused argv)
    (failed : env.connect = .unresolved ∨ env.connect = .refused) :
    (replicaofCommand env sock argv server).result = .err ∧
      linkState (replicaofCommand env sock argv server).server.repl = detached argv := by
  have closed : (closePrimary server.repl).1.primaryFd = -1 := by
    simp only [closePrimary]
    split
    · rfl
    case isFalse unset => simpa using unset
  simp only [asksPromotion] at follows
  simp only [portRefused] at port
  rcases failed with same | same
  · simp only [replicaofCommand, follows, port, Bool.false_eq_true, ↓reduceIte, same,
      replicationSetPrimary, linkState, detached, closed, and_self]
  · simp only [replicaofCommand, follows, port, Bool.false_eq_true, ↓reduceIte, same,
      replicationSetPrimary, linkState, detached, closed, and_self]

end Command

/-- A REPLICAOF that returns an error leaves the link as it was exactly when it does not get as far
    as connecting, when an address accepts, or when the server has been trying that primary. -/
theorem refused_unchanged_iff (env : Env) (resolution : Option (List Attempt)) (sock : Int)
    (argv : List Bytes) (server : Server) :
    ((replicaofCommand { env with connect := connectPrimary resolution } sock argv server).result =
        .err →
      linkState (replicaofCommand { env with connect := connectPrimary resolution } sock argv
        server).server.repl = linkState server.repl) ↔
    asksPromotion argv = true ∨ portRefused argv ∨ Accepted resolution ∨
      linkState server.repl = detached argv := by
  generalize outcome : replicaofCommand { env with connect := connectPrimary resolution } sock argv
    server = reached
  cases promotes : asksPromotion argv with
  | true =>
      have ok := promotion_ok { env with connect := connectPrimary resolution } sock argv server promotes
      rw [outcome] at ok
      simp [ok]
  | false =>
      by_cases refused : portRefused argv
      · have same := port_refused { env with connect := connectPrimary resolution } sock argv server
          promotes refused
        rw [outcome] at same
        simp [same, refused]
      · by_cases accepted : Accepted resolution
        · obtain ⟨fd, connected⟩ := connect_accepted resolution accepted
          have ok := connected_ok { env with connect := connectPrimary resolution } sock argv server
            promotes refused fd connected
          rw [outcome] at ok
          simp [ok, accepted]
        · obtain ⟨error, left⟩ := connect_failed_detaches
            { env with connect := connectPrimary resolution } sock argv server promotes refused
            (connect_failed resolution accepted)
          rw [outcome] at error left
          simp only [error, left, forall_const, Bool.false_eq_true, refused, accepted, false_or]
          exact eq_comm

/-- No address of the host accepts, and the primary that answers with an error is one no more:
    what it is sent from here on is not propagated. -/
theorem refused_primary_follows :
    Reachable oneClient ∧
      (replicaofCommand { calm 0 [] with connect := connectPrimary (some [.noSocket, .refused]) } 7
        [ascii "replicaof", ascii "h", ascii "6379"] oneClient).result = .err ∧
      oneClient.repl.role = .primary ∧
      (replicaofCommand { calm 0 [] with connect := connectPrimary (some [.noSocket, .refused]) } 7
        [ascii "replicaof", ascii "h", ascii "6379"] oneClient).server.repl.role = .replica :=
  ⟨one_client_reachable, by decide +kernel, by decide +kernel, by decide +kernel⟩

end CrimsonCache.RefusedReplicaof
