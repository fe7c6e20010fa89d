import CrimsonCache.SnapshotRestore
import CrimsonCache.WritePropagation

/-!
The counter of unsaved changes. The auto-save thread tests it, saves, and sets
it to zero behind the save, and a call of `execute_command` may land between any
two of these steps. The counter hides nothing while no write lands between a
save and its reset and none goes uncounted at zero.
-/

namespace CrimsonCache.ChangeCounter

open CString Dictionary DeadlineMap Persistence Replies Transaction Replication Tokenizer ServerState
  DataCommands StoredData Commands TransactionSteps ReplicationThread ServerRuns SnapshotRestore
  LiveContents WritePropagation Runs

section Thread

/-- Where the auto-save thread stands, with its reading of the clock. -/
inductive SavePoint where
  | waiting
  | due (now : Nat)
  | saved (now : Nat)
  deriving DecidableEq

def isDue : SavePoint → Bool
  | .due _ => true
  | _ => false

def isSaved : SavePoint → Bool
  | .saved _ => true
  | _ => false

/-- `snapshot` holds what the last file has that the thread saved, or what was
    loaded before the first one. -/
structure Saving where
  server : Server
  point : SavePoint
  snapshot : Mapping

/-- A call of `execute_command`, which is made by the thread of a client, by the
    loop of an EXEC or, without a socket, by the replication thread. -/
inductive SavingStep where
  | call (oracle : Oracle) (sock : Int) (input : Bytes)
  | sweep (now : Nat)
  | test (now : Nat)
  | save (saveNow : Nat) (io : SaveIo)
  | reset

/-- What a file restores before any deadline. -/
def savedContents (file : Option Bytes) : Mapping :=
  match file with
  | none => fun _ => none
  | some file => mapping (loadRdb (fun _ => plenty) 0 emptyServer.db file).1

def nextSaving (state : Saving) : SavingStep → Saving
  | .call oracle sock input =>
      -- The commands that an EXEC has queued are steps of their own.
      { state with server := (executeCommandAt 0 oracle sock input state.server).server }
  | .sweep now => { state with server := cleanupExpiredKeys now state.server }
  | .test now =>
      if saveDue now state.server then { state with point := .due now } else state
  | .save saveNow io =>
      match state.point with
      | .due now =>
          let (files, saved) := saveRdbToFile io saveNow state.server.db dumpRdb state.server.files
          if saved then
            ⟨{ state.server with files := files }, .saved now, savedContents (files dumpRdb)⟩
          else ⟨{ state.server with files := files }, .waiting, state.snapshot⟩
      | _ => state
  | .reset =>
      match state.point with
      | .saved now =>
          ⟨{ state.server with changesSinceSave := 0, lastSave := now / 1000 }, .waiting,
            state.snapshot⟩
      | _ => state

/-- The steps of the thread stand in their order. An input fits into a buffer. -/
def Allowed (state : Saving) : SavingStep → Prop
  | .call _ _ input => input.length < 2 ^ 31
  | .sweep _ => True
  | .test _ => state.point = .waiting
  | .save _ _ => isDue state.point = true
  | .reset => isSaved state.point = true

instance (state : Saving) : ∀ step, Decidable (Allowed state step)
  | .call _ _ input => inferInstanceAs (Decidable (input.length < 2 ^ 31))
  | .sweep _ => .isTrue trivial
  | .test _ => inferInstanceAs (Decidable (state.point = .waiting))
  | .save _ _ => inferInstanceAs (Decidable (isDue state.point = true))
  | .reset => inferInstanceAs (Decidable (isSaved state.point = true))

/-- Every reading of the clock is at most `now`. -/
def Past (now : Nat) : SavingStep → Prop
  | .call oracle _ _ => ∀ index, (oracle []).clock index ≤ now
  | .sweep clock => clock ≤ now
  | .save saveNow _ => saveNow ≤ now
  | _ => True

/-- The server has just loaded its snapshot, or found none. -/
structure Boots (state : Saving) : Prop where
  sound : Sound state.server.db
  uncounted : state.server.changesSinceSave = 0
  waiting : state.point = .waiting
  loaded : state.snapshot = mapping state.server.db

def writes (input : Bytes) : Bool := isWriteCommand (commandName (cstr input))

/-- A write finds no save without its reset, and is counted unless the counter is
    above zero anyway. A save puts all it wrote into the file. -/
def Tracked (state : Saving) : SavingStep → Prop
  | .call _ sock input => writes input = true →
      isSaved state.point = false ∧
        (0 < state.server.changesSinceSave ∨ (state.server.repl.role = .primary ∧ 0 ≤ sock))
  | .save saveNow io =>
      ¬ FlushLost io saveNow state.server.db ∧ state.server.db.used < 2 ^ 64
  | _ => True

/-- The snapshot shows what the database shows. -/
def Faithful (now : Nat) (state : Saving) : Prop :=
  liveMapping now state.server.db = sweep (expired now) state.snapshot

end Thread

section Passes

/-- Without a step in between the three steps are a pass of the thread. -/
theorem pass_is_auto_save (state : Saving) (waiting : state.point = .waiting) (now saveNow : Nat)
    (io : SaveIo) :
    (run nextSaving state [.test now, .save saveNow io, .reset]).server =
      autoSave now saveNow io state.server := by
  simp only [run, List.foldl_cons, List.foldl_nil, nextSaving, autoSave]
  by_cases due : saveDue now state.server = true
  · simp only [due, ↓reduceIte]
    by_cases saved : (saveRdbToFile io saveNow state.server.db dumpRdb state.server.files).2 = true
    · simp only [saved, ↓reduceIte]
    · simp only [saved, Bool.false_eq_true, ↓reduceIte]
  · simp only [due, Bool.false_eq_true, ↓reduceIte, waiting]

/-- The calls of the loop of EXEC. -/
def queueCalls (oracle : Oracle) (sock : Int) : Nat → List Bytes → List SavingStep
  | _, [] => []
  | index, cmd :: rest => .call (oracle.inner index) sock cmd :: queueCalls oracle sock (index + 1) rest

/-- Without a step in between the calls of a queue are its loop. -/
theorem queue_calls_run (oracle : Oracle) (sock : Int) (cmds : List Bytes) (index : Nat)
    (state : Saving) :
    (run nextSaving state (queueCalls oracle sock index cmds)).server =
      (runQueued (fun index cmd server => executeCommandAt 0 (oracle.inner index) sock cmd server) sock
        index cmds state.server).1 := by
  induction cmds generalizing index state with
  | nil => rfl
  | cons cmd rest ih => exact ih (index + 1) _

end Passes

section Calls

/-- A loop of EXEC that leaves its commands to later calls. -/
theorem exec_defers (env : Env) (sock : Int) (server : Server) :
    let after := (execCommand (fun _ _ server => ⟨server, [], .unknown⟩) env sock server).server
    after.db = server.db ∧ after.changesSinceSave = server.changesSinceSave := by
  simp only [execCommand, txExecuteCommands]
  split
  · exact ⟨rfl, rfl⟩
  case h_2 client _ =>
    split
    case isFalse => exact ⟨rfl, rfl⟩
    case isTrue =>
      split
      · exact ⟨rfl, rfl⟩
      · split
        · exact run_queued_invariant
            (fun after => after.db = server.db ∧ after.changesSinceSave = server.changesSinceSave)
            (fun _ _ server => ⟨server, [], .unknown⟩) client.socket client.queuedCommands
            (fun _ _ _ _ same => same) 0 (modifyClient client.socket txCleanup server) ⟨rfl, rfl⟩
        · exact ⟨rfl, rfl⟩

/-- A call that is no write changes nothing that is live and counts nothing. -/
theorem call_quiet (oracle : Oracle) (sock : Int) (input : Bytes) (server : Server)
    (rep : Represents server.db) (now : Nat) (past : ∀ index, (oracle []).clock index ≤ now)
    (plain : writes input = false) :
    liveMapping now (executeCommandAt 0 oracle sock input server).server.db =
        liveMapping now server.db ∧
      (executeCommandAt 0 oracle sock input server).server.changesSinceSave =
        server.changesSinceSave := by
  have ran := execute_with_cases (fun _ _ server => ⟨server, [], .unknown⟩) (oracle []) sock input
    server
  rw [executeCommandAt]
  generalize executeWith (fun _ _ server => ⟨server, [], .unknown⟩) (oracle []) sock input server =
    outcome at ran
  cases ran with
  | refused message =>
      have silent := refuse_silent (oracle []) server sock message
      exact ⟨silent.live now past, silent.uncounted⟩
  | queued =>
      have silent := queue_silent (oracle []) sock (cstr input) server
      exact ⟨silent.live now past, silent.uncounted⟩
  | ran row member named =>
      have kept (outcome : Outcome) :
          propagate (oracle []) sock (cstr input) (commandName (cstr input)) outcome = outcome := by
        rw [writes] at plain
        simp [propagate_eq, propagated, plain]
      rw [kept]
      by_cases exec : row.command = .exec
      · obtain ⟨db, counter⟩ := exec_defers (oracle []) sock server
        rw [exec]
        exact ⟨congrArg (liveMapping now) db, counter⟩
      · constructor
        · rcases handler_live (fun _ _ server => ⟨server, [], .unknown⟩) (oracle []) sock
            (lower (tokens (cstr input))) server rep now past row member exec with same | ⟨write, -⟩
          · exact same
          · rw [named] at write
            exact absurd write (by simpa [writes] using plain)
        · exact (handler_unfed _ (oracle []) sock _ server row.command exec).2

/-- A write counts up by one or not at all, and on a primary it counts whatever a
    client changes. -/
theorem call_counts (oracle : Oracle) (sock : Int) (input : Bytes) (server : Server)
    (rep : Represents server.db) (now : Nat) (past : ∀ index, (oracle []).clock index ≤ now)
    (write : writes input = true) :
    server.changesSinceSave ≤ (executeCommandAt 0 oracle sock input server).server.changesSinceSave ∧
      (server.repl.role = .primary → 0 ≤ sock →
        (executeCommandAt 0 oracle sock input server).server.changesSinceSave =
          server.changesSinceSave →
            liveMapping now (executeCommandAt 0 oracle sock input server).server.db =
              liveMapping now server.db) := by
  have direct : lower (tokens (cstr input)) ≠ [ascii "exec"] := by
    intro alone
    rw [writes, (alone_tx (cstr input) _ alone).2] at write
    exact absurd write (by decide)
  constructor
  · have ran := execute_with_cases (fun _ _ server => ⟨server, [], .unknown⟩) (oracle []) sock input
      server
    rw [executeCommandAt]
    generalize executeWith (fun _ _ server => ⟨server, [], .unknown⟩) (oracle []) sock input server =
      outcome at ran
    cases ran with
    | refused message => exact le_of_eq (refuse_silent (oracle []) server sock message).uncounted.symm
    | queued => exact le_of_eq (queue_silent (oracle []) sock (cstr input) server).uncounted.symm
    | ran row member named =>
        have apart : row.command ≠ .exec := by
          intro same
          rw [writes, ← named, exec_name row member same] at write
          exact absurd write (by decide)
        have unfed := (handler_unfed (fun _ _ server => ⟨server, [], .unknown⟩) (oracle []) sock
          (lower (tokens (cstr input))) server row.command apart).2
        rw [propagate_eq]
        split
        · simp only [fedServer]
          omega
        · exact le_of_eq unfed.symm
  · intro isPrimary connected uncounted
    have accounted := run_accounted (fun _ _ server => ⟨server, [], .unknown⟩) (oracle []) sock
      connected input server rep direct
    rcases accounted.primary isPrimary with silent | propagated
    · exact silent.live now past
    · have counted := propagated.counted
      simp only [executeCommandAt] at uncounted
      simp only [uncounted] at counted
      omega

end Calls

section Snapshots

theorem sweep_start (m : Mapping) : sweep (expired 0) m = m := by
  funext key
  simp only [sweep]
  cases m key with
  | none => rfl
  | some binding => simp [expired]

/-- A save that loses nothing leaves what had not expired in the file. -/
theorem saved_restores (io : SaveIo) (saveNow : Nat) (db : Dict) (sound : Sound db)
    (counted : db.used < 2 ^ 64) (kept : ¬ FlushLost io saveNow db) (files : Files)
    (ok : (saveRdbToFile io saveNow db dumpRdb files).2 = true) :
    savedContents ((saveRdbToFile io saveNow db dumpRdb files).1 dumpRdb) =
      sweep (expired saveNow) (mapping db) := by
  rcases save_outcome io saveNow db files with ⟨-, -, -, -, content⟩ | ⟨-, failed, -⟩
  · obtain ⟨blank, unused⟩ := create_represents true 1024 emptyServer.db rfl
    have whole := (flushed_complete io saveNow db).mpr kept
    have allocates : plenty.Succeeds := ⟨fun _ => rfl, fun _ => rfl, rfl, rfl, rfl⟩
    have loaded := (load_encoding (fun _ => plenty) 0 saveNow db emptyServer.db sound.rep
      sound.storable counted (fun _ => allocates) blank).1
    have contents := restored_mapping (fun _ => plenty) 0 saveNow db emptyServer.db sound.rep
      (fun _ => allocates) blank unused
    rw [content, whole, savedContents, loaded, contents, sweep_start]
  · rw [failed] at ok
    contradiction

end Snapshots

section Runs

/-- At zero the snapshot is faithful, and so it is between a save and its reset. -/
structure Tracking (now : Nat) (state : Saving) : Prop where
  sound : Sound state.server.db
  counted : state.server.changesSinceSave = 0 → Faithful now state
  saved : isSaved state.point = true → Faithful now state

theorem boots_tracking (now : Nat) (state : Saving) (boots : Boots state) : Tracking now state := by
  have faithful : Faithful now state := by
    rw [Faithful, boots.loaded]
    rfl
  exact ⟨boots.sound, fun _ => faithful, fun _ => faithful⟩

theorem call_tracking (now : Nat) (state : Saving) (tracking : Tracking now state) (oracle : Oracle)
    (sock : Int) (input : Bytes) (short : input.length < 2 ^ 31)
    (past : ∀ index, (oracle []).clock index ≤ now)
    (tracked : Tracked state (.call oracle sock input)) :
    Tracking now (nextSaving state (.call oracle sock input)) := by
  have sound := (execute_with_sound (Fixed state.server) (fun _ _ server => ⟨server, [], .unknown⟩)
    (oracle []) sock input state.server (cstr_plain input short) (fun _ _ _ _ _ _ _ kept => kept)
    ⟨tracking.sound, rfl⟩).1
  cases write : writes input with
  | false =>
      obtain ⟨live, counter⟩ := call_quiet oracle sock input state.server tracking.sound.rep now past write
      refine ⟨sound, fun zero => ?_, fun saved => ?_⟩
      · exact live.trans (tracking.counted (counter.symm.trans zero))
      · exact live.trans (tracking.saved saved)
  | true =>
      obtain ⟨apart, counts⟩ := tracked write
      obtain ⟨grows, primary⟩ :=
        call_counts oracle sock input state.server tracking.sound.rep now past write
      refine ⟨sound, fun zero => ?_, fun saved => absurd saved (ne_true_of_eq_false apart)⟩
      have after : (executeCommandAt 0 oracle sock input state.server).server.changesSinceSave = 0 := zero
      have before : state.server.changesSinceSave = 0 := by omega
      rcases counts with above | ⟨isPrimary, connected⟩
      · omega
      · exact (primary isPrimary connected (after.trans before.symm)).trans (tracking.counted before)

theorem save_tracking (now : Nat) (state : Saving) (tracking : Tracking now state) (saveNow : Nat)
    (io : SaveIo) (past : saveNow ≤ now) (tracked : Tracked state (.save saveNow io)) :
    Tracking now (nextSaving state (.save saveNow io)) := by
  simp only [nextSaving]
  split
  case h_2 => exact tracking
  case h_1 clock due =>
    by_cases ok : (saveRdbToFile io saveNow state.server.db dumpRdb state.server.files).2 = true
    · have restores := saved_restores io saveNow state.server.db tracking.sound tracked.2 tracked.1
        state.server.files ok
      simp only [ok, ↓reduceIte]
      have faithful : liveMapping now state.server.db = sweep (expired now) (savedContents
          ((saveRdbToFile io saveNow state.server.db dumpRdb state.server.files).1 dumpRdb)) := by
        rw [restores, sweep_passed saveNow now past]
        rfl
      exact ⟨tracking.sound, fun _ => faithful, fun _ => faithful⟩
    · simp only [ok, Bool.false_eq_true, ↓reduceIte]
      exact ⟨tracking.sound, tracking.counted, fun saved => by cases saved⟩

theorem next_tracking (now : Nat) (state : Saving) (step : SavingStep) (tracking : Tracking now state)
    (allowed : Allowed state step) (tracked : Tracked state step) (past : Past now step) :
    Tracking now (nextSaving state step) := by
  cases step with
  | call oracle sock input => exact call_tracking now state tracking oracle sock input allowed past tracked
  | save saveNow io => exact save_tracking now state tracking saveNow io past tracked
  | sweep clock =>
      have live : liveMapping now (dictClearExpired clock state.server.db) =
          liveMapping now state.server.db := by
        rw [liveMapping, mapping_clear_expired clock state.server.db tracking.sound.rep,
          sweep_passed clock now past]
        rfl
      constructor
      · exact clear_expired_sound clock state.server.db tracking.sound
      · exact fun zero => live.trans (tracking.counted zero)
      · exact fun saved => live.trans (tracking.saved saved)
  | test clock =>
      simp only [nextSaving]
      split
      · exact ⟨tracking.sound, tracking.counted, fun saved => by cases saved⟩
      · exact tracking
  | reset =>
      simp only [nextSaving]
      split
      case h_1 clock saved =>
        have faithful := tracking.saved (by rw [saved]; rfl)
        exact ⟨tracking.sound, fun _ => faithful, fun _ => faithful⟩
      case h_2 => exact tracking

/-- In a run in which every write is tracked the counter hides nothing. -/
theorem counter_hides_nothing (start : Saving) (boots : Boots start) (steps : List SavingStep)
    (admitted : Admitted Allowed nextSaving start steps)
    (tracked : Admitted Tracked nextSaving start steps) (now : Nat)
    (past : ∀ step ∈ steps, Past now step)
    (zero : (run nextSaving start steps).server.changesSinceSave = 0) :
    liveMapping now (run nextSaving start steps).server.db =
      sweep (expired now) (run nextSaving start steps).snapshot := by
  have all := (admitted_and _ _ _ start steps).mpr ⟨(admitted_and _ _ _ start steps).mpr
    ⟨admitted, tracked⟩, admitted_each nextSaving (Past now) start steps past⟩
  exact (run_invariant _ _
    (fun state step holds taken => next_tracking now state step holds taken.1.1 taken.1.2 taken.2)
    start (boots_tracking now start boots) steps all).counted zero

/-- The state behind a start without a snapshot, with one client. -/
def booted : Saving := ⟨oneClient, .waiting, mapping oneClient.db⟩

theorem booted_boots : Boots booted := by
  constructor
  · exact (reachable_wellformed oneClient one_client_reachable).sound
  · decide
  · decide
  · rw [booted]

def savedInTurn : List SavingStep :=
  [.call (calm 0) 7 (ascii "SET a 1\r\n"), .test 1000000000, .save 1000000000 reliable, .reset]

theorem saved_in_turn_hides_nothing :
    (run nextSaving booted savedInTurn).server.changesSinceSave = 0 ∧
      liveMapping 1000000000 (run nextSaving booted savedInTurn).server.db =
        sweep (expired 1000000000) (run nextSaving booted savedInTurn).snapshot := by
  have zero : (run nextSaving booted savedInTurn).server.changesSinceSave = 0 := by decide +kernel
  have tracked : Admitted Tracked nextSaving booted savedInTurn := by
    refine ⟨fun _ => ?_, trivial, ⟨?_, ?_⟩, trivial, trivial⟩
    · decide +kernel
    · rintro ⟨kept, lost, -⟩
      cases lost
    · decide +kernel
  exact ⟨zero, counter_hides_nothing booted booted_boots savedInTurn (by decide +kernel) tracked
    1000000000 (by simp [savedInTurn, Past, calm]) zero⟩

/-- The second SET lands between the save and the reset. -/
def savedAcross : List SavingStep :=
  [.call (calm 0) 7 (ascii "SET a 1\r\n"), .test 1000000000, .save 1000000000 reliable,
    .call (calm 0) 7 (ascii "SET b 2\r\n"), .reset]

theorem reset_hides_write :
    Boots booted ∧ Admitted Allowed nextSaving booted savedAcross ∧
      (∀ step ∈ savedAcross, Past 1000000000 step) ∧
      (run nextSaving booted savedAcross).server.changesSinceSave = 0 ∧
      liveMapping 1000000000 (run nextSaving booted savedAcross).server.db ≠
        sweep (expired 1000000000) (run nextSaving booted savedAcross).snapshot := by
  refine ⟨booted_boots, by decide +kernel, by simp [savedAcross, Past, calm], by decide +kernel, ?_⟩
  intro same
  have unsaved := congrFun same (ascii "b")
  revert unsaved
  decide +kernel

end Runs

end CrimsonCache.ChangeCounter
