import CrimsonCache.Library.Runs
import CrimsonCache.Replication

/-!
What an attached replica has been sent. The replica list is annotated with two
histories per entry: the commands propagated since it was added and the bytes
its socket took of them. The annotation follows every step of the list, so
erasing it gives `server_repl.replicas` back.
-/

namespace CrimsonCache.ReplicaStream

open CString Dictionary Replies Replication Runs

structure Attached where
  replica : Replica
  due : List Bytes
  sent : Bytes
  deriving DecidableEq

def Complete (entry : Attached) : Prop := entry.sent = entry.due.flatten

instance (entry : Attached) : Decidable (Complete entry) :=
  inferInstanceAs (Decidable (entry.sent = entry.due.flatten))

structure Stream where
  repl : ReplicationInfo
  log : List Attached

/-- The calls that change the replica list. -/
inductive StreamCall where
  | attach (malloc : Bool) (now : Nat) (env : Nat → SyncEnv) (fd : Int) (ip : Bytes) (port : Int)
      (db : Dict)
  | feed (malloc : Bool) (delivery : Nat → Delivery) (cmd : Bytes)

section Annotation

def attachLog (malloc : Bool) (now : Nat) (fd : Int) (ip : Bytes) (port : Int)
    (log : List Attached) : List Attached :=
  if malloc then ⟨⟨fd, ip, port, now / 1000⟩, [], []⟩ :: log else log

def feedEntry (cmd : Bytes) (delivery : Delivery) (feed : Feed) (entry : Attached) : Attached where
  replica := (feedReplica cmd delivery feed entry.replica).2
  due := entry.due ++ [cmd]
  sent := entry.sent ++ delivery.result.taken cmd

def feedLog (cmd : Bytes) : (Nat → Delivery) → Feed → List Attached → List Attached
  | _, _, [] => []
  | delivery, feed, entry :: rest =>
      feedEntry cmd (delivery 0) feed entry ::
        feedLog cmd (fun index => delivery (index + 1))
          (feedReplica cmd (delivery 0) feed entry.replica).1 rest

def removeEntry (log : List Attached) (fd : Int) : List Attached :=
  log.eraseP (·.replica.fd = fd)

def feedStream (malloc : Bool) (delivery : Nat → Delivery) (cmd : Bytes) (repl : ReplicationInfo)
    (log : List Attached) : List Attached :=
  if repl.role = .primary then
    let cmd := framed malloc cmd
    let feed := (feedReplicas cmd delivery ⟨repl.replOffset, []⟩ repl.replicas).1
    feed.toRemove.foldl removeEntry (feedLog cmd delivery ⟨repl.replOffset, []⟩ log)
  else log

def streamStep (stream : Stream) : StreamCall → Stream
  | .attach malloc now env fd ip port db =>
      { repl := (addReplica malloc now env fd ip port db stream.repl).1
        log := attachLog malloc now fd ip port stream.log }
  | .feed malloc delivery cmd =>
      { repl := (replicationFeedSlaves malloc delivery cmd stream.repl).1
        log := feedStream malloc delivery cmd stream.repl stream.log }

/-- The annotated list is the replica list. -/
def Annotates (stream : Stream) : Prop := stream.log.map Attached.replica = stream.repl.replicas

theorem feed_log_replicas (cmd : Bytes) (delivery : Nat → Delivery) (feed : Feed)
    (log : List Attached) :
    (feedLog cmd delivery feed log).map Attached.replica =
      (feedReplicas cmd delivery feed (log.map Attached.replica)).2 := by
  induction log generalizing delivery feed with
  | nil => rfl
  | cons entry rest ih => simp [feedLog, feedReplicas, feedEntry, ih]

theorem remove_entry_replicas (log : List Attached) (fd : Int) :
    (removeEntry log fd).map Attached.replica = removeReplica (log.map Attached.replica) fd := by
  simp only [removeEntry, removeReplica, List.eraseP_map]
  rfl

theorem remove_entries_replicas (fds : List Int) (log : List Attached) :
    (fds.foldl removeEntry log).map Attached.replica =
      fds.foldl removeReplica (log.map Attached.replica) := by
  induction fds generalizing log with
  | nil => rfl
  | cons fd rest ih => simp only [List.foldl_cons, ih, remove_entry_replicas]

theorem step_annotates (stream : Stream) (next : StreamCall) (annotated : Annotates stream) :
    Annotates (streamStep stream next) := by
  unfold Annotates at annotated ⊢
  cases next with
  | attach malloc now env fd ip port db =>
      simp only [streamStep, attachLog, addReplica]
      split
      · simp [annotated]
      · exact annotated
  | feed malloc delivery cmd =>
      simp only [streamStep, feedStream, replicationFeedSlaves]
      split
      · rw [remove_entries_replicas, feed_log_replicas, annotated]
      · exact annotated

end Annotation

section Removal

def failed (cmd : Bytes) (delivery : Delivery) : Bool := delivery.result ≠ .wrote cmd.length

/-- The fds whose write did not take the whole command, in list order. -/
def failing (cmd : Bytes) : (Nat → Delivery) → List Replica → List Int
  | _, [] => []
  | delivery, replica :: rest =>
      let later := failing cmd (fun index => delivery (index + 1)) rest
      if failed cmd (delivery 0) then replica.fd :: later else later

/-- Under which outcomes one feed call takes every replica it failed off the list:
    nothing would block, the removal array has room, and a failing entry is
    the first of its fd that is left. -/
structure Removable (cmd : Bytes) (delivery : Nat → Delivery) (replicas : List Replica) : Prop where
  noBlock : ∀ index < replicas.length, (delivery index).result ≠ .wouldBlock
  room : (failing cmd delivery replicas).length ≤ 100
  ordered : ∀ early late : Fin replicas.length, early < late →
    replicas[early].fd = replicas[late].fd → failed cmd (delivery late) = true →
    failed cmd (delivery early) = true

theorem Removable.tail {cmd : Bytes} {delivery : Nat → Delivery} {replica : Replica}
    {rest : List Replica} (removable : Removable cmd delivery (replica :: rest)) :
    Removable cmd (fun index => delivery (index + 1)) rest where
  noBlock index bound := removable.noBlock (index + 1) (by simpa using bound)
  room := by
    have whole := removable.room
    simp only [failing] at whole
    split at whole
    · simp only [List.length_cons] at whole
      omega
    · exact whole
  ordered early late before same fails := by
    apply removable.ordered early.succ late.succ
    · exact Fin.succ_lt_succ_iff.mpr before
    · simpa using same
    · simpa using fails

-- A failing fd is kept with the place of its entry, which the order condition speaks of.
theorem mem_failing (cmd : Bytes) (delivery : Nat → Delivery) (replicas : List Replica) (fd : Int)
    (member : fd ∈ failing cmd delivery replicas) :
    ∃ index : Fin replicas.length, replicas[index].fd = fd ∧ failed cmd (delivery index) = true := by
  induction replicas generalizing delivery with
  | nil => simp [failing] at member
  | cons replica rest ih =>
      simp only [failing] at member
      split at member
      case isTrue fails =>
        rcases List.mem_cons.mp member with rfl | later
        · exact ⟨⟨0, by simp⟩, rfl, fails⟩
        · obtain ⟨index, same, failsThere⟩ := ih _ later
          exact ⟨index.succ, by simpa using same, by simpa using failsThere⟩
      case isFalse =>
        obtain ⟨index, same, failsThere⟩ := ih _ member
        exact ⟨index.succ, by simpa using same, by simpa using failsThere⟩

/-- The loop marks exactly the failing fds. -/
theorem feed_marks (cmd : Bytes) (delivery : Nat → Delivery) (feed : Feed)
    (replicas : List Replica)
    (noBlock : ∀ index < replicas.length, (delivery index).result ≠ .wouldBlock)
    (room : feed.toRemove.length + (failing cmd delivery replicas).length ≤ 100) :
    (feedReplicas cmd delivery feed replicas).1.toRemove =
      feed.toRemove ++ failing cmd delivery replicas := by
  induction replicas generalizing delivery feed with
  | nil => simp [feedReplicas, failing]
  | cons replica rest ih =>
      have open0 := noBlock 0 (by simp)
      have openRest : ∀ index < rest.length, (delivery (index + 1)).result ≠ .wouldBlock :=
        fun index bound => noBlock (index + 1) (by simpa using bound)
      simp only [feedReplicas, failing, feedReplica] at room ⊢
      by_cases complete : (delivery 0).result = .wrote cmd.length
      · simp only [failed, complete] at room ⊢
        rw [ih _ _ openRest (by simpa using room)]
        simp
      · -- Not complete and not blocked, so the entry takes one of the free places.
        have fails : failed cmd (delivery 0) = true := by simp [failed, complete]
        simp only [fails, complete, open0, ↓reduceIte, List.length_cons] at room ⊢
        have free : feed.toRemove.length < 100 := by omega
        simp only [free, ↓reduceIte]
        rw [ih _ _ openRest (by simp only [List.length_append, List.length_singleton]; omega)]
        simp

theorem remove_entries_kept (fds : List Int) (entry : Attached) (log : List Attached)
    (apart : entry.replica.fd ∉ fds) :
    fds.foldl removeEntry (entry :: log) = entry :: fds.foldl removeEntry log := by
  induction fds generalizing log with
  | nil => rfl
  | cons fd rest ih =>
      have other : entry.replica.fd ≠ fd := fun same => apart (by simp [same])
      have kept : removeEntry (entry :: log) fd = entry :: removeEntry log fd := by
        simp [removeEntry, other]
      rw [List.foldl_cons, List.foldl_cons, kept]
      exact ih _ fun member => apart (List.mem_cons_of_mem fd member)

theorem feed_entry_fd (cmd : Bytes) (delivery : Delivery) (feed : Feed) (entry : Attached) :
    (feedEntry cmd delivery feed entry).replica.fd = entry.replica.fd := by
  simp only [feedEntry, feedReplica]
  split
  · rfl
  · split
    · rfl
    · split <;> rfl

theorem feed_entry_complete (cmd : Bytes) (delivery : Delivery) (feed : Feed) (entry : Attached)
    (complete : Complete entry) (taken : failed cmd delivery = false) :
    Complete (feedEntry cmd delivery feed entry) := by
  have whole : delivery.result = .wrote cmd.length := by simpa [failed] using taken
  simp only [Complete] at complete
  simp [Complete, feedEntry, whole, complete, WriteResult.taken]

/-- Removing the failing fds leaves only entries that took the command. -/
theorem feed_removes (cmd : Bytes) (delivery : Nat → Delivery) (feed : Feed) (log : List Attached)
    (complete : ∀ entry ∈ log, Complete entry)
    (removable : Removable cmd delivery (log.map Attached.replica)) :
    ∀ entry ∈ (failing cmd delivery (log.map Attached.replica)).foldl removeEntry
        (feedLog cmd delivery feed log), Complete entry := by
  induction log generalizing delivery feed with
  | nil => simp [failing, feedLog]
  | cons first rest ih =>
      have tail := ih (fun index => delivery (index + 1))
        (feedReplica cmd (delivery 0) feed first.replica).1
        (fun entry member => complete entry (List.mem_cons_of_mem first member)) removable.tail
      simp only [List.map_cons, failing, feedLog]
      split
      case isTrue fails =>
        -- The first removal of this fd meets this entry.
        have gone : removeEntry (feedEntry cmd (delivery 0) feed first ::
            feedLog cmd (fun index => delivery (index + 1))
              (feedReplica cmd (delivery 0) feed first.replica).1 rest) first.replica.fd =
            feedLog cmd (fun index => delivery (index + 1))
              (feedReplica cmd (delivery 0) feed first.replica).1 rest := by
          simp [removeEntry, feed_entry_fd]
        rw [List.foldl_cons, gone]
        exact tail
      case isFalse takes =>
        -- A later failing entry of this fd would break the order condition.
        have apart : first.replica.fd ∉ failing cmd (fun index => delivery (index + 1))
            (rest.map Attached.replica) := by
          intro member
          obtain ⟨index, same, fails⟩ := mem_failing _ _ _ _ member
          have early := removable.ordered ⟨0, by simp⟩ index.succ (Fin.succ_pos index)
            (by simpa using same.symm) (by simpa using fails)
          exact takes early
        rw [remove_entries_kept _ _ _ (by rw [feed_entry_fd]; exact apart)]
        intro entry member
        rcases List.mem_cons.mp member with rfl | later
        · exact feed_entry_complete _ _ _ _ (complete first List.mem_cons_self)
            (by simpa using takes)
        · exact tail entry later

end Removal

section Runs

def initialStream : Stream := ⟨replicationInit, []⟩

/-- No write of a feed call would block, at most 100 fail, and a failing entry
    has no entry of the same fd in front of it whose write was complete. -/
def Feedable (stream : Stream) : StreamCall → Prop
  | .attach .. => True
  | .feed malloc delivery cmd =>
      Removable (framed malloc cmd) delivery stream.repl.replicas

def NoGaps (stream : Stream) : Prop := Annotates stream ∧ ∀ entry ∈ stream.log, Complete entry

theorem step_no_gaps (stream : Stream) (next : StreamCall) (noGaps : NoGaps stream)
    (feedable : Feedable stream next) : NoGaps (streamStep stream next) := by
  rcases noGaps with ⟨annotated, complete⟩
  constructor
  · exact step_annotates stream next annotated
  · cases next with
    | attach malloc now env fd ip port db =>
        simp only [streamStep, attachLog]
        split
        · intro entry member
          rcases List.mem_cons.mp member with rfl | old
          · rfl
          · exact complete entry old
        · exact complete
    | feed malloc delivery cmd =>
        simp only [streamStep, feedStream]
        split
        · have removable : Removable (framed malloc cmd) delivery stream.repl.replicas := feedable
          rw [feed_marks _ _ _ _ removable.noBlock (by simpa using removable.room), List.nil_append]
          rw [← annotated] at removable ⊢
          exact feed_removes _ _ _ _ complete removable
        · exact complete

theorem replica_stream_without_gaps (calls : List StreamCall)
    (feedable : Admitted Feedable streamStep initialStream calls) :
    NoGaps (run streamStep initialStream calls) :=
  run_invariant Feedable streamStep step_no_gaps initialStream ⟨rfl, by simp [initialStream]⟩ calls
    feedable

/-- One replica, attached with an empty database, and one command for it. -/
def oneReplica (result : WriteResult) : List StreamCall :=
  [.attach true 0 (fun _ => ⟨0, 0, .failed, .failed, fun _ => 0⟩) 7 [] 6380 ⟨[], 0, 0, 0, 0, 0⟩,
    .feed true (fun _ => ⟨result, 0⟩) (ascii "DEL k\r\n")]

theorem prompt_replica_without_gaps :
    NoGaps (run streamStep initialStream (oneReplica (.wrote 7))) := by
  refine replica_stream_without_gaps _ ⟨trivial, ⟨?_, ?_, ?_⟩, trivial⟩
  · decide
  · decide
  · decide

/-- A replica whose socket buffer is full stays attached and misses the command. -/
theorem blocked_replica_misses :
    ¬ NoGaps (run streamStep initialStream (oneReplica .wouldBlock)) := by
  intro noGaps
  have missed : ¬ ∀ entry ∈ (run streamStep initialStream (oneReplica .wouldBlock)).log,
      Complete entry := by decide
  exact missed noGaps.2

end Runs

end CrimsonCache.ReplicaStream
