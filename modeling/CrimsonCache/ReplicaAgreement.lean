import CrimsonCache.ServerRuns
import CrimsonCache.WriteEffects

/-!
A write on the primary and on a replica. The primary reads the whole input as
one command and feeds it as it is; the replica cuts the same bytes at every
CRLF and runs the lines. The two agree exactly when the cut finds one line.
-/

namespace CrimsonCache.ReplicaAgreement

open CString Dictionary DeadlineMap Replies Transaction Replication Tokenizer ServerState DataCommands
  StoredData Commands TransactionSteps WriteEffects ReplicationThread ServerRuns Framing

def lineBreaks (count : Nat) : Bytes := (List.replicate count crlf).flatten

/-- One line among line breaks. An unfinished rest, which only a failed copy leaves,
    adds no token. -/
def Intact (written : Bytes) : Prop :=
  ∃ before line after rest,
    written = lineBreaks before ++ (line ++ crlf) ++ lineBreaks after ++ rest ∧
      line ≠ [] ∧ Undivided cr lf line ∧ Undivided cr lf rest ∧
        (rest = [] ∨ tokens written = tokens line)

/-- The replica executed the one command and holds the primary's map. -/
def Agrees (input : Bytes) (primary : Server) (received : Server × List Event) : Prop :=
  (∃ line, executedInputs (-1) received.2 = [line] ∧ tokens line = tokens input) ∧
    mapping received.1.db = mapping primary.db

section Framed

theorem framed_tokens (malloc : Bool) (input : Bytes) : tokens (framed malloc input) = tokens input := by
  have extended : tokens (input ++ crlf) = tokens input := by
    simpa using tokens_surrounded [] input crlf (by simp) crlf_blank
  simp only [framed]
  split
  · rfl
  · split
    · exact extended
    · rfl

theorem framed_free (malloc : Bool) (input : Bytes) (free : 0 ∉ input) : 0 ∉ framed malloc input := by
  have clean : 0 ∉ crlf := by simp [crlf, cr, lf]
  simp only [framed]
  split
  · exact free
  · split
    · simp [free, clean]
    · exact free

theorem line_breaks_frames (count : Nat) :
    lineBreaks count = (List.replicate count []).flatMap fun text => text ++ [cr, lf] := by
  induction count with
  | zero => rfl
  | succ count ih =>
      simp only [lineBreaks, List.replicate_succ, List.flatten_cons, List.flatMap_cons] at ih ⊢
      rw [ih]
      rfl

theorem line_breaks_blank (count : Nat) : ∀ c ∈ lineBreaks count, isspace c = true := by
  intro c member
  obtain ⟨text, inside, there⟩ := List.mem_flatten.mp member
  rw [List.eq_of_mem_replicate inside] at there
  exact crlf_blank c there

theorem empty_frames (texts : List Bytes) (empty : ∀ text ∈ texts, text = []) :
    texts = List.replicate texts.length [] := List.eq_replicate_iff.mpr ⟨rfl, empty⟩

/-- Bytes whose only nonempty frame is one line. -/
theorem frames_intact (written line : Bytes)
    (only : (frames cr lf [] written).1.filter (· ≠ []) = [line])
    (parsed : tokens line = tokens written) : Intact written := by
  obtain ⟨before, after, whole, none, nonempty, rest⟩ := List.filter_eq_cons_iff.mp only
  -- The frames around the line are empty, so with their delimiters they are line breaks.
  have later : ∀ text ∈ after, text = [] := by
    simpa using List.filter_eq_nil_iff.mp rest
  have earlier : ∀ text ∈ before, text = [] := by simpa using none
  have joined := frames_join cr lf [] written
  have undivided := frames_members cr lf [] written (undivided_nil cr lf)
  have held := frames_held cr lf [] written (undivided_nil cr lf)
  rw [whole, List.flatMap_append, List.flatMap_cons, empty_frames before earlier,
    empty_frames after later, ← line_breaks_frames, ← line_breaks_frames, List.nil_append] at joined
  refine ⟨before.length, line, after.length, (frames cr lf [] written).2, ?_, by simpa using nonempty,
    undivided line (by simp [whole]), held, Or.inr parsed.symm⟩
  conv_lhs => rw [← joined]
  simp [crlf]

theorem intact_frames (written : Bytes) (intact : Intact written) :
    ∃ line, (frames cr lf [] written).1.filter (· ≠ []) = [line] ∧ tokens line = tokens written := by
  rcases intact with ⟨before, line, after, rest, whole, nonempty, undivided, held, parsed⟩
  have tokensLine : tokens line = tokens written := by
    rcases parsed with rfl | parsed
    · have blank : ∀ c ∈ crlf ++ lineBreaks after, isspace c = true := by
        intro c member
        rcases List.mem_append.mp member with first | later
        · exact crlf_blank c first
        · exact line_breaks_blank after c later
      rw [whole, List.append_nil, List.append_assoc, List.append_assoc, ← List.append_assoc _ line]
      exact (tokens_surrounded _ line _ (line_breaks_blank before) blank).symm
    · exact parsed.symm
  refine ⟨line, ?_, tokensLine⟩
  have texts : ∀ text ∈ List.replicate before [] ++ line :: List.replicate after [],
      Undivided cr lf text := by
    intro text member
    simp only [List.mem_append, List.mem_cons, List.mem_replicate] at member
    rcases member with ⟨-, rfl⟩ | rfl | ⟨-, rfl⟩
    · exact undivided_nil cr lf
    · exact undivided
    · exact undivided_nil cr lf
  have cut := frames_lines cr lf _ crlf_distinct texts
  have flat : written = ((List.replicate before [] ++ line :: List.replicate after []).flatMap
      fun text => text ++ [cr, lf]) ++ rest := by
    rw [whole, List.flatMap_append, List.flatMap_cons, ← line_breaks_frames, ← line_breaks_frames]
    simp [crlf]
  rw [flat, frames_append, cut, frames_undivided cr lf [] rest held]
  simp [nonempty]

end Framed

section Thread

/-- The thread executes the nonempty lines, each once and in order. -/
theorem lines_executed (oracle : Nat → Oracle) (lines : List (Bytes × Nat)) (index : Nat)
    (server : Server) (ready : QueuesReady server.clientList) :
    executedInputs (-1) (executeLines oracle index lines server).2 =
      (lines.map Prod.fst).filter (· ≠ []) := by
  induction lines generalizing index server with
  | nil => rfl
  | cons line rest ih =>
      rcases line with ⟨text, stop⟩
      simp only [executeLines, List.map_cons]
      split
      case isTrue empty =>
        rw [ih (index + 1) (advanceOffset stop server) ready]
        simp [empty]
      case isFalse nonempty =>
        obtain ⟨same, silent⟩ := thread_line (oracle index) text server ready
        have later := ih (index + 1)
          (advanceOffset stop (executeCommand (oracle index) (-1) text server).server)
          (by simpa [advanceOffset, same] using ready)
        simp [silent, later, nonempty]

theorem empty_lines_db (oracle : Nat → Oracle) (lines : List (Bytes × Nat)) (index : Nat)
    (server : Server) (empty : ∀ line ∈ lines, line.1 = []) :
    (executeLines oracle index lines server).1.db = server.db := by
  induction lines generalizing index server with
  | nil => rfl
  | cons line rest ih =>
      rcases line with ⟨text, stop⟩
      have first : text = [] := empty (text, stop) List.mem_cons_self
      simp only [executeLines, first, ↓reduceIte]
      exact ih _ _ fun other member => empty other (List.mem_cons_of_mem _ member)

/-- With one nonempty line the thread makes the one call. -/
theorem one_line_db (oracle : Nat → Oracle) (line : Bytes) (lines : List (Bytes × Nat)) (index : Nat)
    (server : Server) (only : (lines.map Prod.fst).filter (· ≠ []) = [line]) :
    ∃ position before, before.db = server.db ∧
      (executeLines oracle index lines server).1.db =
        (executeCommand (oracle position) (-1) line before).server.db := by
  induction lines generalizing index server with
  | nil => simp at only
  | cons head rest ih =>
      rcases head with ⟨text, stop⟩
      simp only [executeLines]
      by_cases empty : text = []
      · simp only [List.map_cons, empty, List.filter_cons, ne_eq, not_true_eq_false, decide_false,
          Bool.false_eq_true, ↓reduceIte] at only ⊢
        exact ih (index + 1) (advanceOffset stop server) only
      · simp only [List.map_cons, List.filter_cons, ne_eq, empty, not_false_eq_true, decide_true,
          ↓reduceIte, List.cons.injEq] at only ⊢
        rcases only with ⟨rfl, none⟩
        refine ⟨index, server, rfl, ?_⟩
        rw [empty_lines_db]
        · rfl
        · intro other member
          have gone := List.filter_eq_nil_iff.mp none other.1 (List.mem_map_of_mem member)
          simpa using gone

theorem received_lines (oracle : Nat → Oracle) (written : Bytes) (server : Server)
    (idle : server.replicaBuffer = []) (ready : QueuesReady server.clientList) :
    executedInputs (-1) (receiveFromPrimary oracle written server).2 = replicaLines written ∧
      ∀ line, replicaLines written = [line] →
        ∃ position before, before.db = server.db ∧
          (receiveFromPrimary oracle written server).1.db =
            (executeCommand (oracle position) (-1) line before).server.db := by
  simp only [receiveFromPrimary, idle, List.nil_append, replicaLines]
  constructor
  · exact lines_executed oracle _ 0 server ready
  · exact fun line only => one_line_db oracle line _ 0 server only

end Thread

section Agreement

theorem outside_thread (server : Server) : inTransaction (-1) server = false := by
  simp [inTransaction]

/-- A replica that runs a line with the tokens of an accepted write makes the same
    change to the same map. -/
theorem line_follows (primary replica : Server) (sound : Sound primary.db)
    (soundReplica : Sound replica.db) (same : mapping replica.db = mapping primary.db)
    (oracle oracles : Oracle) (sock : Int) (input line : Bytes)
    (outside : inTransaction sock primary = false)
    (write : isWriteCommand (commandName (cstr input)) = true)
    (accepted : (executeCommand oracle sock input primary).result = .ok)
    (allocates : oracles.Allocates) (clock : (oracles []).clock = (oracle []).clock)
    (parsed : tokens (cstr line) = tokens (cstr input)) :
    mapping (executeCommand oracles (-1) line replica).server.db =
      mapping (executeCommand oracle sock input primary).server.db := by
  obtain ⟨row, member, named, arity, ok, ran⟩ := write_executed
    (fun index cmd server => executeCommandAt 0 (oracle.inner index) sock cmd server) (oracle []) sock
    input primary outside accepted
  have contents := handler_mapping
    (fun index cmd server => executeCommandAt 0 (oracle.inner index) sock cmd server) (oracle []) sock
    (lower (tokens (cstr input))) primary sound row member (named ▸ write) ok
  rw [← propagate_db (oracle []) sock (cstr input) (commandName (cstr input)), ← ran] at contents
  have nonempty : tokens (cstr input) ≠ [] := by
    intro empty
    rw [commandName, empty] at write
    contradiction
  have name : commandName (cstr line) = commandName (cstr input) := by rw [commandName, parsed, commandName]
  have replayed := write_replayed
    (fun index cmd server => executeCommandAt 0 (oracles.inner index) (-1) cmd server) (oracles [])
    (allocates []) (-1) line replica (outside_thread replica) row member (by rw [name, named])
    (by rw [parsed]; exact nonempty) (by rw [parsed]; exact arity)
  have followed := handler_accepts _
    (fun index cmd server => executeCommandAt 0 (oracles.inner index) (-1) cmd server) (oracle [])
    (oracles []) clock (allocates []) sock (-1) (lower (tokens (cstr input))) primary replica sound
    soundReplica same row member (named ▸ write) ok
  have changed := handler_mapping
    (fun index cmd server => executeCommandAt 0 (oracles.inner index) (-1) cmd server) (oracles []) (-1)
    (lower (tokens (cstr input))) replica soundReplica row member (named ▸ write) followed
  have direct : executeCommand oracles (-1) line replica = executeWith
      (fun index cmd server => executeCommandAt 0 (oracles.inner index) (-1) cmd server) (oracles [])
      (-1) line replica := rfl
  rw [direct, replayed, propagate_db, parsed, changed, same, write_map_clock _ _ clock]
  exact contents.symm

/-- What an accepted write is fed as, and when a replica makes the same of it. -/
theorem replica_agrees_iff_intact (primary replica : Server) (reachable : Reachable primary)
    (reachableReplica : Reachable replica) (isPrimary : primary.repl.role = .primary)
    (same : mapping replica.db = mapping primary.db) (idle : replica.replicaBuffer = [])
    (oracle : Oracle) (sock : Int) (connected : 0 ≤ sock)
    (outside : inTransaction sock primary = false) (input : Bytes) (free : 0 ∉ input)
    (write : isWriteCommand (commandName input) = true)
    (accepted : (executeCommand oracle sock input primary).result = .ok)
    (oracles : Nat → Oracle) (allocates : ∀ index, (oracles index).Allocates)
    (clock : ∀ index, (oracles index []).clock = (oracle []).clock) :
    (∀ fd data result,
      .replicaWrite fd data result ∈ (executeCommand oracle sock input primary).events →
        data = framed ((oracle []).alloc .feedCopy) input) ∧
      (Agrees input (executeCommand oracle sock input primary).server
          (receiveFromPrimary oracles (framed ((oracle []).alloc .feedCopy) input) replica) ↔
        Intact (framed ((oracle []).alloc .feedCopy) input)) := by
  have whole := cstr_of_nul_free input free
  have wf := reachable_wellformed primary reachable
  have wfReplica := reachable_wellformed replica reachableReplica
  rw [← whole] at write
  constructor
  · intro fd data result member
    obtain ⟨answer, events⟩ := write_fed
      (fun index cmd server => executeCommandAt 0 (oracle.inner index) sock cmd server) (oracle []) sock
      input primary connected isPrimary outside write accepted
    have inside : .replicaWrite fd data result ∈ Event.reply sock answer :: .fed (cstr input) ::
        feedWrites (framed ((oracle []).alloc .feedCopy) (cstr input)) (oracle []).delivery
          primary.repl.replicas := events ▸ member
    simp only [List.mem_cons, reduceCtorEq, false_or] at inside
    obtain ⟨_, _, event⟩ := feed_writes_data _ _ _ _ inside
    simp only [Event.replicaWrite.injEq] at event
    rw [event.2.1, whole]
  · have parsed := framed_tokens ((oracle []).alloc .feedCopy) input
    obtain ⟨ran, followed⟩ := received_lines oracles (framed ((oracle []).alloc .feedCopy) input)
      replica idle wfReplica.ready
    rw [replica_lines_frames _ (framed_free ((oracle []).alloc .feedCopy) input free)] at ran followed
    constructor
    · rintro ⟨⟨line, executed, tokensLine⟩, -⟩
      rw [ran] at executed
      exact frames_intact _ line executed (tokensLine.trans parsed.symm)
    · intro intact
      obtain ⟨line, only, tokensLine⟩ := intact_frames _ intact
      obtain ⟨position, before, db, after⟩ := followed line only
      have freeLine : 0 ∉ line := by
        apply replica_lines_free (framed ((oracle []).alloc .feedCopy) input)
        rw [replica_lines_frames _ (framed_free ((oracle []).alloc .feedCopy) input free), only]
        exact List.mem_singleton_self line
      refine ⟨⟨line, ran.trans only, tokensLine.trans parsed⟩, ?_⟩
      -- The one call runs on the state the thread started from, up to its offset.
      rw [after]
      exact line_follows primary before wf.sound (db ▸ wfReplica.sound) (db ▸ same) oracle
        (oracles position) sock input line outside write accepted (allocates position) (clock position)
        (by rw [cstr_of_nul_free line freeLine, whole, tokensLine, parsed])

end Agreement

section Samples

set_option maxRecDepth 4000

/-- A server that was told to follow another one, before anything arrived. -/
def follower : Server := storing "REPLICAOF h 6379\r\n"

theorem follower_reachable : Reachable follower := storing_reachable _ (by decide)

theorem follower_empty : follower.db = oneClient.db := by decide

theorem single_line_agrees :
    Agrees (ascii "SET a 1\r\n") (executeCommand (calm 0) 7 (ascii "SET a 1\r\n") oneClient).server
      (receiveFromPrimary (fun _ => calm 0) (framed true (ascii "SET a 1\r\n")) follower) := by
  have apart : Undivided cr lf (ascii "SET a 1") := Undivided.of_free cr lf (by decide)
  exact (replica_agrees_iff_intact oneClient follower one_client_reachable follower_reachable rfl
    (by rw [follower_empty]) (by decide +kernel) (calm 0) 7 (by decide) (by decide +kernel)
    (ascii "SET a 1\r\n") (by decide) (by decide) (by decide +kernel) (fun _ => calm 0)
    (fun _ => calm_allocates 0) fun _ => rfl).2.mpr
    ⟨0, ascii "SET a 1", 0, [], rfl, by decide, apart, undivided_nil cr lf, Or.inl rfl⟩

/-- Two commands in one read are one write here and two there. -/
theorem pipelined_write_disagrees :
    (executeCommand (calm 0) 7 (ascii "SET a 1\r\nSET b 2\r\n") oneClient).result = .ok ∧
      ¬ Agrees (ascii "SET a 1\r\nSET b 2\r\n")
        (executeCommand (calm 0) 7 (ascii "SET a 1\r\nSET b 2\r\n") oneClient).server
        (receiveFromPrimary (fun _ => calm 0) (framed true (ascii "SET a 1\r\nSET b 2\r\n"))
          follower) := by
  refine ⟨by decide +kernel, ?_⟩
  rintro ⟨-, same⟩
  have differ : mapping (receiveFromPrimary (fun _ => calm 0)
      (framed true (ascii "SET a 1\r\nSET b 2\r\n")) follower).1.db (ascii "b") ≠
        mapping (executeCommand (calm 0) 7 (ascii "SET a 1\r\nSET b 2\r\n") oneClient).server.db
          (ascii "b") := by decide +kernel
  rw [same] at differ
  exact differ rfl

end Samples

end CrimsonCache.ReplicaAgreement
