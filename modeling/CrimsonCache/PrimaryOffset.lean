import CrimsonCache.ServerRuns

/-!
What the feed loop adds to `repl_offset`. The counter is advanced within the
loop over the replicas, once for each whole write, so that after a sequence of
commands it has moved by the length of their stream times the replicas attached.
It is a position in the stream exactly when one replica is.
-/

namespace CrimsonCache.PrimaryOffset

open CString Replies Replication ServerState Connections ServerRuns Runs

/-- A propagated command, and whether the copy of one without a CRLF gets its memory. -/
structure Fed where
  cmd : Bytes
  malloc : Bool

def Fed.line (fed : Fed) : Bytes := framed fed.malloc fed.cmd

/-- The bytes that one replica is sent. -/
def stream (feds : List Fed) : Bytes := feds.flatMap Fed.line

def feedCommands : (Nat → Nat → Delivery) → List Fed → ReplicationInfo → ReplicationInfo
  | _, [], repl => repl
  | delivery, fed :: rest, repl =>
      feedCommands (fun index => delivery (index + 1)) rest
        (replicationFeedSlaves fed.malloc (delivery 0) fed.cmd repl).1

/-- Every write of every command to one of `count` replicas is whole. -/
def Written (delivery : Nat → Nat → Delivery) (feds : List Fed) (count : Nat) : Prop :=
  ∀ index fed, feds[index]? = some fed → ∀ place < count,
    (delivery index place).result = .wrote fed.line.length

/-- By how much a `uint64_t` has moved. -/
def advance (before after : Nat) : Nat := wrap64 (after - before)

def offsetAdvance (delivery : Nat → Nat → Delivery) (feds : List Fed) (repl : ReplicationInfo) : Nat :=
  advance repl.replOffset (feedCommands delivery feds repl).replOffset

section Loop

/-- One command moves the offset by its length for each replica, and marks none for removal. -/
theorem feed_written (cmd : Bytes) (delivery : Nat → Delivery) (feed : Feed) (replicas : List Replica)
    (written : ∀ place < replicas.length, (delivery place).result = .wrote cmd.length) :
    (feedReplicas cmd delivery feed replicas).1.offset % 2 ^ 64 =
        (feed.offset + replicas.length * cmd.length) % 2 ^ 64 ∧
      (feedReplicas cmd delivery feed replicas).1.toRemove = feed.toRemove ∧
      (feedReplicas cmd delivery feed replicas).2.length = replicas.length := by
  induction replicas generalizing delivery feed with
  | nil => simp [feedReplicas]
  | cons replica rest ih =>
      obtain ⟨offset, marked, length⟩ := ih (fun index => delivery (index + 1))
        ⟨(feed.offset + cmd.length) % 2 ^ 64, feed.toRemove⟩
        fun place inside => written (place + 1) (Nat.succ_lt_succ inside)
      have first : feedReplica cmd (delivery 0) feed replica =
          (⟨(feed.offset + cmd.length) % 2 ^ 64, feed.toRemove⟩,
            { replica with lastAckTime := (delivery 0).now / 1000 }) := by
        simp [feedReplica, written 0 (Nat.succ_pos rest.length)]
      simp only [feedReplicas, first, List.length_cons]
      refine ⟨?_, marked, by rw [length]⟩
      rw [offset, Nat.mod_add_mod, Nat.add_mul, Nat.one_mul]
      congr 1
      omega

theorem feed_slaves_written (malloc : Bool) (delivery : Nat → Delivery) (cmd : Bytes)
    (repl : ReplicationInfo) (primary : repl.role = .primary)
    (written : ∀ place < repl.replicas.length,
      (delivery place).result = .wrote (framed malloc cmd).length) :
    (replicationFeedSlaves malloc delivery cmd repl).1.role = .primary ∧
      (replicationFeedSlaves malloc delivery cmd repl).1.replicas.length = repl.replicas.length ∧
      (replicationFeedSlaves malloc delivery cmd repl).1.replOffset % 2 ^ 64 =
        (repl.replOffset + repl.replicas.length * (framed malloc cmd).length) % 2 ^ 64 := by
  obtain ⟨offset, marked, length⟩ := feed_written (framed malloc cmd) delivery
    ⟨repl.replOffset, []⟩ repl.replicas written
  simp only [replicationFeedSlaves, primary, ↓reduceIte, marked, List.foldl_nil]
  exact ⟨trivial, length, offset⟩

theorem feed_commands_written (delivery : Nat → Nat → Delivery) (feds : List Fed)
    (repl : ReplicationInfo) (primary : repl.role = .primary)
    (written : Written delivery feds repl.replicas.length) :
    (feedCommands delivery feds repl).replOffset % 2 ^ 64 =
      (repl.replOffset + repl.replicas.length * (stream feds).length) % 2 ^ 64 := by
  induction feds generalizing delivery repl with
  | nil => simp [feedCommands, stream]
  | cons fed rest ih =>
      obtain ⟨role, replicas, offset⟩ := feed_slaves_written fed.malloc (delivery 0) fed.cmd repl
        primary (written 0 fed rfl)
      have later := ih (fun index => delivery (index + 1)) _ role
        fun index other there place inside => written (index + 1) other there place (replicas ▸ inside)
      have length : (stream (fed :: rest)).length = (framed fed.malloc fed.cmd).length +
          (stream rest).length := by simp [stream, Fed.line]
      rw [feedCommands, later, replicas, Nat.add_mod, offset, ← Nat.add_mod, length, Nat.mul_add,
        Nat.add_assoc]

/-- The offset moves by the stream's length once for each replica. -/
theorem offset_advance_written (delivery : Nat → Nat → Delivery) (feds : List Fed)
    (repl : ReplicationInfo) (primary : repl.role = .primary)
    (written : Written delivery feds repl.replicas.length) :
    offsetAdvance delivery feds repl = repl.replicas.length * (stream feds).length % 2 ^ 64 := by
  have moved := feed_commands_written delivery feds repl primary written
  simp only [offsetAdvance, advance, wrap64]
  omega

end Loop

/-- What remains of the replicas but one. -/
theorem multiple_iff (count length : Nat) (some : 0 < count) :
    count * length % 2 ^ 64 = length % 2 ^ 64 ↔ 2 ^ 64 ∣ (count - 1) * length := by
  obtain ⟨others, rfl⟩ : ∃ others, count = others + 1 := ⟨count - 1, by omega⟩
  rw [Nat.add_sub_cancel, Nat.add_mul, Nat.one_mul, Nat.dvd_iff_mod_eq_zero]
  omega

/-- In two runs over the same commands in which all writes are whole, the offset of both moves by
    the length of the stream exactly when what the other replicas of each add to it is a multiple
    of the counter's range: with one replica always. -/
theorem same_advance_iff (feds : List Fed) (first second : ReplicationInfo)
    (deliveries others : Nat → Nat → Delivery)
    (primary : first.role = .primary ∧ second.role = .primary)
    (attached : first.replicas ≠ [] ∧ second.replicas ≠ [])
    (written : Written deliveries feds first.replicas.length ∧
      Written others feds second.replicas.length) :
    (offsetAdvance deliveries feds first = (stream feds).length % 2 ^ 64 ∧
        offsetAdvance others feds second = (stream feds).length % 2 ^ 64) ↔
      2 ^ 64 ∣ (first.replicas.length - 1) * (stream feds).length ∧
        2 ^ 64 ∣ (second.replicas.length - 1) * (stream feds).length := by
  rw [offset_advance_written deliveries feds first primary.1 written.1,
    offset_advance_written others feds second primary.2 written.2,
    multiple_iff _ _ (List.length_pos_of_ne_nil attached.1),
    multiple_iff _ _ (List.length_pos_of_ne_nil attached.2)]

/-- Connections of replicas: each is accepted and sends its REPLCONF. -/
def attach (ptr : Nat) (socket : Int) : List ServerStep :=
  [.connect ptr socket, .receive (calm 0) socket (ascii "REPLCONF listening-port 6380\r\n")]

def oneReplica : Server := run next emptyServer (attach 1 7)

def twoReplicas : Server := run next emptyServer (attach 1 7 ++ attach 2 8)

def setCommands : List Fed := [⟨ascii "SET a 1\r\n", true⟩, ⟨ascii "DEL a", true⟩]

/-- Each of the two commands is written whole. -/
def wholeWrites (index place : Nat) : Delivery := ⟨.wrote (if index = 0 then 9 else 7), place⟩

theorem set_commands_written (count : Nat) : Written wholeWrites setCommands count := by
  intro index fed there place _
  match index with
  | 0 => obtain rfl := Option.some.inj there; rfl
  | 1 => obtain rfl := Option.some.inj there; rfl
  | index + 2 => cases there

theorem one_replica_counts_once :
    offsetAdvance wholeWrites setCommands oneReplica.repl = 16 ∧
      offsetAdvance wholeWrites setCommands oneReplica.repl = 16 := by
  have single : oneReplica.repl.replicas.length = 1 := by decide +kernel
  have one : oneReplica.repl.replicas ≠ [] := by
    intro none
    simp [none] at single
  exact (same_advance_iff setCommands oneReplica.repl oneReplica.repl wholeWrites wholeWrites
    ⟨by decide +kernel, by decide +kernel⟩ ⟨one, one⟩ ⟨set_commands_written _, set_commands_written _⟩).mpr
    ⟨by simp [single], by simp [single]⟩

/-- With a second replica the same stream is counted twice. -/
theorem two_replicas_count_twice :
    Reachable oneReplica ∧ Reachable twoReplicas ∧
      (∀ count, Written wholeWrites setCommands count) ∧
      (stream setCommands).length = 16 ∧
      offsetAdvance wholeWrites setCommands oneReplica.repl = 16 ∧
      offsetAdvance wholeWrites setCommands twoReplicas.repl = 32 := by
  have first : Reachable oneReplica :=
    ⟨emptyServer, attach 1 7, empty_starts, ⟨empty_connects, ⟨one_client_open, by decide +kernel⟩,
      trivial⟩, rfl⟩
  refine ⟨first, ⟨emptyServer, attach 1 7 ++ attach 2 8, empty_starts, ?_, rfl⟩,
    set_commands_written, by decide +kernel, by decide +kernel, by decide +kernel⟩
  exact ⟨empty_connects, ⟨one_client_open, by decide +kernel⟩,
    ⟨by decide, by decide +kernel, by decide +kernel⟩, ⟨by decide +kernel, by decide +kernel⟩, trivial⟩

end CrimsonCache.PrimaryOffset
