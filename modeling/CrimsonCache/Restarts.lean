import Mathlib.Data.List.InsertIdx
import CrimsonCache.ChangeCounter
import CrimsonCache.Keyspace
import CrimsonCache.Library.Snapshots

/-!
The server over its lives. It saves by SAVE, by itself and in the children of
BGSAVE, is killed at any moment, also in the middle of a save, and starts again
from its snapshot. A save is one step here, so no two are under way at a time;
what it has left in the temporary file when it is killed is arbitrary.
-/

namespace CrimsonCache.Restarts

open CString Dictionary DeadlineMap Persistence Replies Transaction Tokenizer ServerState
  DataCommands StoredData Commands TransactionSteps Connections ReplicationThread ServerRuns AppliedWrites ExecLoop StepRuns
  Keyspace SnapshotRestore ChangeCounter Runs Snapshots

section Lives

/-- The process, and the databases of the children that have not saved yet. -/
structure Machine where
  server : Server
  children : List Dict

/-- What `main` does before it serves. -/
def boot (malloc : Bool) (alloc : Nat → LoadAlloc) (now : Nat) (config : ServerConfig) (files : Files) :
    Option Server :=
  (dictCreate malloc 1024).map fun db =>
    -- A load that fails is reported, and what it has read stays.
    initServer (loadRdbFromFile true alloc now db dumpRdb files).1 now files config

def asksFor (command : Command) (words : List Bytes) : Bool :=
  (commands.find? (·.name = arg (lower words) 0)).any fun row =>
    row.command = command && !wrongArity row words.length

/-- The run of a SAVE that was answered OK. -/
def published (run : HandlerRun) : Bool :=
  asksFor .save (tokens run.input) && run.outcome.result = .ok

/-- What the child of a BGSAVE has. -/
def forks (run : HandlerRun) : List Dict :=
  if asksFor .bgsave (tokens run.input) && run.outcome.result = .ok then [run.server.db] else []

inductive LifeStep where
  | serve (step : ServerStep)
  | finish (child : Nat) (now : Nat) (io : SaveIo)
  | kill (child : Nat) (torn : Option Bytes)
  | restart (torn : Option Bytes) (malloc : Bool) (alloc : Nat → LoadAlloc) (now : Nat)
      (config : ServerConfig)

def leaveTorn (torn : Option Bytes) (files : Files) : Files :=
  Function.update files (tempFilename dumpRdb) torn

def nextLife (machine : Machine) : LifeStep → Machine
  | .serve step =>
      ⟨next machine.server step, machine.children ++ (stepRuns machine.server step).2.flatMap forks⟩
  | .finish child now io =>
      match machine.children[child]? with
      | none => machine
      | some db =>
          ⟨{ machine.server with files := (saveRdbToFile io now db dumpRdb machine.server.files).1 },
            machine.children.eraseIdx child⟩
  | .kill child torn =>
      ⟨{ machine.server with files := leaveTorn torn machine.server.files },
        machine.children.eraseIdx child⟩
  | .restart torn malloc alloc now config =>
      -- The children outlive their parent.
      match boot malloc alloc now config (leaveTorn torn machine.server.files) with
      | none => machine
      | some server => ⟨server, machine.children⟩

/-- The world of a command allocates, and the last flush of a file loses nothing. -/
structure Fair (env : Env) : Prop where
  alloc : ∀ site, env.alloc site = true
  fclose : env.save.fclose = none

def Allowed (machine : Machine) : LifeStep → Prop
  | .serve step =>
      Possible machine.server step ∧ Worlds Fair step ∧
        (∀ run ∈ (stepRuns machine.server step).2, run.server.db.used < 2 ^ 64) ∧
        match step with
        | .autoSave _ _ io => io.fclose = none ∧ machine.server.db.used < 2 ^ 64
        | _ => True
  | .finish _ _ io => io.fclose = none
  | .kill _ _ => True
  | .restart _ malloc alloc _ config =>
      malloc = true ∧ (∀ index, (alloc index).Succeeds) ∧ config.bufferSize < 2 ^ 31

end Lives

section Purpose

def unexpired (now : Nat) (m : Mapping) : Mapping := sweep (expired now) m

def held (machine : Machine) : Held Mapping :=
  ⟨mapping machine.server.db, savedContents (machine.server.files dumpRdb),
    machine.children.map mapping⟩

def runMoves (sock : Int) (run : HandlerRun) : List (Move KeyStep Nat) :=
  .act (runStep sock run) ::
    if published run then [.publish (run.env.clock 0)] else (forks run).map fun _ => .capture

/-- What a step is to the snapshots. -/
def moves (machine : Machine) : LifeStep → List (Move KeyStep Nat)
  | .serve (.sweep now) => [.act (.sweep now)]
  | .serve (.autoSave now saveNow io) =>
      if saveDue now machine.server &&
          (saveRdbToFile io saveNow machine.server.db dumpRdb machine.server.files).2 then
        [.publish saveNow]
      else []
  | .serve step =>
      (stepRuns machine.server step).2.flatMap (runMoves (stepRuns machine.server step).1)
  | .finish child now io =>
      match machine.children[child]? with
      | none => []
      | some db =>
          if (saveRdbToFile io now db dumpRdb machine.server.files).2 then [.finish child now]
          else [.lose child]
  | .kill child _ => [.lose child]
  | .restart _ _ _ now _ => [.restart now]

/-- The snapshot is absent or a whole encoding. -/
def Fits (files : Files) : Prop :=
  files dumpRdb = none ∨
    ∃ saved db, Sound db ∧ db.used < 2 ^ 64 ∧ files dumpRdb = some (rdbEncoding saved db)

structure Intact (machine : Machine) : Prop where
  wf : Wellformed machine.server
  fits : Fits machine.server.files
  children : ∀ db ∈ machine.children, Sound db ∧ db.used < 2 ^ 64

end Purpose

section Saves

/-- A save is a publication or changes nothing, if its flush loses nothing. -/
theorem save_publishes (io : SaveIo) (kept : io.fclose = none) (now : Nat) (db : Dict) (sound : Sound db)
    (counted : db.used < 2 ^ 64) (files : Files) (fits : Fits files) :
    savedContents ((saveRdbToFile io now db dumpRdb files).1 dumpRdb) =
        (if (saveRdbToFile io now db dumpRdb files).2 then unexpired now (mapping db)
          else savedContents (files dumpRdb)) ∧
      Fits (saveRdbToFile io now db dumpRdb files).1 := by
  have whole : ¬ FlushLost io now db := by
    rintro ⟨left, lost, -⟩
    rw [kept] at lost
    cases lost
  rcases save_outcome io now db files with ⟨-, -, -, saved, content⟩ | ⟨-, failed, same⟩
  · have complete := (flushed_complete io now db).mpr whole
    constructor
    · rw [if_pos saved]
      exact saved_restores io now db sound counted whole files saved
    · exact .inr ⟨now, db, sound, counted, by rw [content, complete]⟩
  · constructor
    · rw [failed, same]
      rfl
    · simpa only [Fits, same] using fits

theorem torn_apart (torn : Option Bytes) (files : Files) : leaveTorn torn files dumpRdb = files dumpRdb :=
  temp_untouched files torn

/-- Rows of a sound table are restored to a sound one. -/
theorem restore_rows_sound (now : Nat) (rows : List DictEntry)
    (storable : ∀ entry ∈ rows, Storable entry) (alloc : Nat → LoadAlloc) (db : Dict) (sound : Sound db) :
    Sound (restoreRows now alloc db rows) := by
  induction rows generalizing alloc db with
  | nil => exact sound
  | cons entry rest ih =>
      rw [List.forall_mem_cons] at storable
      have stored := storable.1
      apply ih storable.2
      split
      · exact add_sound _ now db sound entry.key _
          ⟨stored.key, stored.keyLength, stored.ptr, stored.ptrLength, rfl, stored.expire⟩
      · exact sound

/-- A restart finds what the snapshot holds, less what has expired since. -/
theorem boot_restores (alloc : Nat → LoadAlloc) (allocates : ∀ index, (alloc index).Succeeds) (now : Nat)
    (config : ServerConfig) (files : Files) (fits : Fits files) :
    ∃ server, boot true alloc now config files = some server ∧
      mapping server.db = unexpired now (savedContents (files dumpRdb)) ∧ Sound server.db ∧
      server = initServer server.db now files config := by
  have created : dictCreate true 1024 = some emptyServer.db := rfl
  have fresh := create_sound true 1024 _ created
  have unused := (create_represents true 1024 _ created).2
  have plentiful : plenty.Succeeds := ⟨fun _ => rfl, fun _ => rfl, rfl, rfl, rfl⟩
  refine ⟨_, by rw [boot, created]; rfl, ?_⟩
  rcases fits with none | ⟨saved, db, sound, counted, content⟩
  · simp only [initServer, loadRdbFromFile, none, savedContents]
    refine ⟨?_, fresh, trivial⟩
    rw [mapping_empty _ unused]
    rfl
  · simp only [initServer, loadRdbFromFile, content, savedContents, ↓reduceIte]
    have loaded := (load_encoding alloc now saved db emptyServer.db sound.rep sound.storable counted
      allocates fresh.rep).1
    have again := (load_encoding (fun _ => plenty) 0 saved db emptyServer.db sound.rep sound.storable
      counted (fun _ => plentiful) fresh.rep).1
    rw [loaded, again, restored_mapping alloc now saved db _ sound.rep allocates fresh.rep unused,
      restored_mapping _ 0 saved db _ sound.rep (fun _ => plentiful) fresh.rep unused, sweep_start]
    refine ⟨rfl, ?_, trivial⟩
    exact restore_rows_sound now _
      (fun entry member => sound.storable entry (List.mem_filter.mp member).1) alloc _ fresh

/-- A server as `main` sets it up has no clients. -/
theorem booted_wellformed (server : Server) (now : Nat) (files : Files) (config : ServerConfig)
    (shape : server = initServer server.db now files config) (sound : Sound server.db)
    (bound : config.bufferSize < 2 ^ 31) : Wellformed server := by
  have clients : listed server.clientList = [] := by
    rw [shape]
    exact listed_empty config.maxClients
  have unlisted : server.unlisted = [] := by rw [shape]; rfl
  have none : openClients server = [] := by simp [openClients, clients, unlisted]
  constructor
  · exact sound
  · simp [clients]
  · simp [clients]
  · simp [unlisted]
  · simp [none]
  · simp [none]
  · simp [none]
  · simp [none]
  · rw [shape]
    exact bound

end Saves

section Handlers

theorem asks_row (command : Command) (words : List Bytes) (row : CommandDef)
    (found : commands.find? (·.name = arg (lower words) 0) = some row) :
    asksFor command words = (decide (row.command = command) && !wrongArity row words.length) := by
  simp [asksFor, found]

theorem asks_nothing (command : Command) (words : List Bytes)
    (missing : commands.find? (·.name = arg (lower words) 0) = none) :
    asksFor command words = false := by
  simp [asksFor, missing]

/-- Words ask for one command at most. -/
theorem asks_once (words : List Bytes) (first second : Command) (asks : asksFor first words = true)
    (different : first ≠ second) : asksFor second words = false := by
  cases found : commands.find? (·.name = arg (lower words) 0) with
  | none => exact asks_nothing second words found
  | some row =>
      rw [asks_row first words row found] at asks
      have same : row.command = first := of_decide_eq_true (Bool.and_eq_true_iff.mp asks).1
      rw [asks_row second words row found, same]
      simp [different]

/-- The saves do nothing to the map. -/
theorem saves_apart (command : Command) (saves : command = .save ∨ command = .bgsave) (env : Env)
    (words : List Bytes) (asks : asksFor command words = true) (m : Mapping) :
    applyWords env words m = m := by
  simp only [applyWords]
  cases found : commands.find? (·.name = arg (lower words) 0) with
  | none => rfl
  | some row =>
      rw [asks_row command words row found] at asks
      have same : row.command = command := of_decide_eq_true (Bool.and_eq_true_iff.mp asks).1
      dsimp only
      split
      · rfl
      · rcases saves with rfl | rfl <;> rw [same] <;> rfl

theorem handler_files (execute : Nat → Bytes → Server → Outcome) (env : Env) (sock : Int)
    (argv : List Bytes) (server : Server) (command : Command) (direct : command ≠ .exec)
    (other : command ≠ .save) :
    (runHandler execute env sock argv server command).server.files = server.files := by
  cases command with
  | exec => exact absurd rfl direct
  | save => exact absurd rfl other
  | set | get | del | exist | expire | ttl | incr | role => rfl
  | ping | bgsave | publish | replconf =>
      simp only [runHandler, pingCommand, bgsaveCommand, publishCommand, replconfCommand]
      split <;> rfl
  | multi | discard =>
      simp only [runHandler, multiCommand, discardCommand]
      split
      · rfl
      · split <;> rfl
  | subscribe | unsubscribe =>
      simp only [runHandler, subscribeCommand, unsubscribeCommand]
      split <;> rfl
  | replicaof =>
      simp only [runHandler, replicaofCommand]
      split
      · rfl
      · split
        · rfl
        · split <;> rfl

/-- What a command does to the files: SAVE saves, and its answer says whether it did. -/
theorem call_files (execute : Nat → Bytes → Server → Outcome) (env : Env)
    (allocates : ∀ site, env.alloc site = true) (sock : Int) (buffer : Bytes) (server : Server)
    (runs : (inTransaction sock server && !isTxCommand (commandName (cstr buffer))) = false)
    (direct : lower (tokens (cstr buffer)) ≠ [ascii "exec"]) :
    let outcome := executeWith execute env sock buffer server
    let saved := saveRdbToFile env.save (env.clock 0) server.db dumpRdb server.files
    outcome.server.files = (if asksFor .save (tokens (cstr buffer)) then saved.1 else server.files) ∧
      (asksFor .save (tokens (cstr buffer)) = true → (outcome.result = .ok ↔ saved.2 = true)) := by
  by_cases empty : tokens (cstr buffer) = []
  · have nameless : commands.find? (·.name = arg (lower []) 0) = none := by decide
    have whole : tokenizeCommand true (cstr buffer) = some [] := congrArg some empty
    simp [executeWith, allocates, whole, refuse, empty, asks_nothing .save [] nameless]
  · have kept (name : Bytes) (outcome : Outcome) :
        (propagate env sock (cstr buffer) name outcome).server.files = outcome.server.files ∧
          (propagate env sock (cstr buffer) name outcome).result = outcome.result := by
      rw [propagate_eq]
      split <;> exact ⟨rfl, rfl⟩
    rw [execute_allocated _ _ _ _ _ (allocates _) (allocates _) empty, runs]
    simp only [Bool.false_eq_true, ↓reduceIte, kept, dispatch]
    cases found : commands.find? (·.name = arg (lower (tokens (cstr buffer))) 0) with
    | none => simp [refuse, asks_nothing .save _ found]
    | some row =>
        rw [asks_row .save _ row found]
        simp only [lower_length]
        cases arity : wrongArity row (tokens (cstr buffer)).length with
        | true => simp [refuse]
        | false =>
            have member := List.mem_of_find?_eq_some found
            have apart : row.command ≠ .exec := by
              intro exec
              have named : row.name = commandName (cstr buffer) := by
                simpa [commandName] using List.find?_some found
              exact direct (exec_alone row member exec _ arity named)
            by_cases save : row.command = .save
            · simp only [save, Bool.false_eq_true, ↓reduceIte, runHandler, saveCommand]
              cases (saveRdbToFile env.save (env.clock 0) server.db dumpRdb server.files).2 with
              | true => simp [replied]
              | false => simp [replied]
            · have same := handler_files execute env sock (lower (tokens (cstr buffer))) server
                row.command apart save
              simp [save, same]

end Handlers

section Simulation

/-- The runs are moves of the snapshots. -/
def HeldBy (sock : Int) (runs : List HandlerRun) (before after : Server) : Prop :=
  Fits before.files → (∀ run ∈ runs, run.server.db.used < 2 ^ 64) → ∀ captures,
    (⟨mapping after.db, savedContents (after.files dumpRdb),
        captures ++ (runs.flatMap forks).map mapping⟩ : Held Mapping) =
      run (move actKeys unexpired)
        ⟨mapping before.db, savedContents (before.files dumpRdb), captures⟩
        (runs.flatMap (runMoves sock)) ∧
    Fits after.files ∧ ∀ db ∈ runs.flatMap forks, Sound db ∧ db.used < 2 ^ 64

theorem call_held (sock : Int) (execute : Nat → Bytes → Server → Outcome) (env : Env) (fair : Fair env)
    (buffer : Bytes) (server : Server) (sound : Sound server.db)
    (runs : (inTransaction sock server && !isTxCommand (commandName (cstr buffer))) = false)
    (direct : lower (tokens (cstr buffer)) ≠ [ascii "exec"]) :
    HeldBy sock [⟨env, server, cstr buffer, executeWith execute env sock buffer server⟩] server
      (executeWith execute env sock buffer server).server := by
  intro fits counted captures
  have applied := (input_step execute env fair.alloc sock buffer server sound runs direct).1
  obtain ⟨files, answered⟩ := call_files execute env fair.alloc sock buffer server runs direct
  have used : server.db.used < 2 ^ 64 := counted _ List.mem_cons_self
  obtain ⟨content, fitting⟩ :=
    save_publishes env.save fair.fclose (env.clock 0) server.db sound used server.files fits
  generalize executeWith execute env sock buffer server = outcome at *
  simp only [List.flatMap_cons, List.flatMap_nil, List.append_nil, runMoves, published, forks, files]
  cases save : asksFor .save (tokens (cstr buffer)) with
  | true =>
      have other := asks_once _ .save .bgsave save (by decide)
      have answer := answered save
      -- A failed save leaves the snapshot that was there.
      cases ok : (saveRdbToFile env.save (env.clock 0) server.db dumpRdb server.files).2 with
      | true =>
          have replied := answer.mpr ok
          have unchanged := saves_apart .save (.inl rfl) env _ save (mapping server.db)
          simp [replied, other, run, move, applied, runStep, actKeys, content, fitting, ok, unchanged]
      | false =>
          have refused : outcome.result ≠ .ok := fun replied => by simp [answer.mp replied] at ok
          simp [refused, other, run, move, applied, runStep, actKeys, content, fitting, ok]
  | false =>
      cases bgsave : asksFor .bgsave (tokens (cstr buffer)) with
      | true =>
          have unchanged := saves_apart .bgsave (.inr rfl) env _ bgsave (mapping server.db)
          by_cases forked : outcome.result = .ok
          · simpa [forked, run, move, applied, runStep, actKeys, fits, unchanged, sound] using used
          · simp [forked, run, move, applied, runStep, actKeys, fits, unchanged]
      | false => simp [run, move, applied, runStep, actKeys, fits]

theorem held_rule (sock : Int) : RunRule Fair sock (HeldBy sock) where
  quiet before after db files := by
    intro fits counted captures
    simp only [db, files, List.flatMap_nil, List.map_nil, List.append_nil]
    exact ⟨rfl, fits, by simp⟩
  append first second start middle final left right := by
    intro fits counted captures
    obtain ⟨reached, fitting, sound⟩ :=
      left fits (fun run member => counted run (List.mem_append_left _ member)) captures
    obtain ⟨last, fitted, sounder⟩ :=
      right fitting (fun run member => counted run (List.mem_append_right _ member))
        (captures ++ (first.flatMap forks).map mapping)
    refine ⟨?_, fitted, ?_⟩
    · rw [List.flatMap_append, List.map_append, ← List.append_assoc, last, List.flatMap_append,
        run_append, ← reached]
    · rw [List.flatMap_append]
      intro db member
      rcases List.mem_append.mp member with before | after
      · exact sound db before
      · exact sounder db after
  call execute env buffer server fair sound runs direct :=
    call_held sock execute env fair buffer server sound runs direct

/-- A step of the process. -/
theorem serve_held (machine : Machine) (intact : Intact machine) (step : ServerStep)
    (allowed : Allowed machine (.serve step)) :
    held (nextLife machine (.serve step)) =
        run (move actKeys unexpired) (held machine) (moves machine (.serve step)) ∧
      Intact (nextLife machine (.serve step)) := by
  obtain ⟨possible, fair, counted, saving⟩ := allowed
  have wf := next_wellformed machine.server step intact.wf possible
  have commanded (runs : Commanded step)
      (same : moves machine (.serve step) = (stepRuns machine.server step).2.flatMap
        (runMoves (stepRuns machine.server step).1)) :
      held (nextLife machine (.serve step)) =
          run (move actKeys unexpired) (held machine) (moves machine (.serve step)) ∧
        Intact (nextLife machine (.serve step)) := by
    have stepped := step_rule held_rule machine.server intact.wf step runs possible fair
    obtain ⟨reached, fits, sound⟩ := stepped intact.fits counted (machine.children.map mapping)
    constructor
    · rw [same, held, held, ← reached]
      simp only [nextLife, List.map_append]
    · refine ⟨wf, fits, ?_⟩
      intro db member
      rcases List.mem_append.mp member with old | new
      · exact intact.children db old
      · exact sound db new
  cases step with
  | connect ptr socket => exact commanded trivial rfl
  | receive oracle sock chunk => exact commanded trivial rfl
  | replication oracle received connect => exact commanded trivial rfl
  | sweep now =>
      have swept := mapping_clear_expired now machine.server.db intact.wf.sound.rep
      constructor
      · simp only [nextLife, stepRuns, List.flatMap_nil, List.append_nil, held, moves, run, move,
          List.foldl_cons, List.foldl_nil, actKeys]
        rw [← swept]
        rfl
      · refine ⟨wf, intact.fits, ?_⟩
        simpa [nextLife, stepRuns] using intact.children
  | autoSave now saveNow io =>
      obtain ⟨content, fitting⟩ := save_publishes io saving.1 saveNow machine.server.db intact.wf.sound
        saving.2 machine.server.files intact.fits
      have children : (nextLife machine (.serve (.autoSave now saveNow io))).children =
          machine.children := by simp [nextLife, stepRuns]
      cases due : saveDue now machine.server with
      | false =>
          have still : next machine.server (.autoSave now saveNow io) = machine.server := by
            simp [next, stepServer, autoSave, due]
          constructor
          · simp [nextLife, stepRuns, still, held, moves, due, run]
          · exact ⟨wf, by simpa [nextLife, still] using intact.fits, children ▸ intact.children⟩
      | true =>
          cases ok : (saveRdbToFile io saveNow machine.server.db dumpRdb machine.server.files).2 with
          | true =>
              rw [ok] at content
              constructor
              · simpa [nextLife, stepRuns, next, stepServer, autoSave, due, ok, held, moves, run,
                  move] using content
              · exact ⟨wf, by simpa [nextLife, next, stepServer, autoSave, due, ok] using fitting,
                  children ▸ intact.children⟩
          | false =>
              rw [ok] at content
              constructor
              · simpa [nextLife, stepRuns, next, stepServer, autoSave, due, ok, held, moves, run]
                  using content
              · exact ⟨wf, by simpa [nextLife, next, stepServer, autoSave, due, ok] using fitting,
                  children ▸ intact.children⟩

theorem life_held (machine : Machine) (intact : Intact machine) (step : LifeStep)
    (allowed : Allowed machine step) :
    held (nextLife machine step) = run (move actKeys unexpired) (held machine) (moves machine step) ∧
      Intact (nextLife machine step) := by
  have same (files : Files) : Wellformed { machine.server with files := files } :=
    same_wellformed machine.server _ intact.wf rfl ⟨rfl, rfl, rfl⟩
  cases step with
  | serve step => exact serve_held machine intact step allowed
  | finish child now io =>
      simp only [nextLife, moves]
      cases found : machine.children[child]? with
      | none => exact ⟨rfl, intact⟩
      | some db =>
          obtain ⟨sound, counted⟩ := intact.children db (List.mem_of_getElem? found)
          obtain ⟨content, fitting⟩ :=
            save_publishes io allowed now db sound counted machine.server.files intact.fits
          refine ⟨?_, same _, fitting,
            fun other member => intact.children other (List.mem_of_mem_eraseIdx member)⟩
          have known : (held machine).captures[child]? = some (mapping db) := by simp [held, found]
          cases ok : (saveRdbToFile io now db dumpRdb machine.server.files).2 with
          | true =>
              rw [ok] at content
              simp only [ok, ↓reduceIte, run, List.foldl_cons, List.foldl_nil, move, known]
              simp only [held, content, List.eraseIdx_map, ↓reduceIte]
          | false =>
              rw [ok] at content
              simp only [ok, Bool.false_eq_true, ↓reduceIte, run, List.foldl_cons, List.foldl_nil, move]
              simp only [held, content, List.eraseIdx_map, Bool.false_eq_true, ↓reduceIte]
  | kill child torn =>
      constructor
      · simp only [nextLife, moves, run, List.foldl_cons, List.foldl_nil, move, held, torn_apart,
          List.eraseIdx_map]
      · refine ⟨same _, ?_,
          fun other member => intact.children other (List.mem_of_mem_eraseIdx member)⟩
        simpa only [nextLife, Fits, torn_apart] using intact.fits
  | restart torn malloc alloc now config =>
      obtain ⟨rfl, allocates, bound⟩ := allowed
      have fits : Fits (leaveTorn torn machine.server.files) := by
        simpa only [Fits, torn_apart] using intact.fits
      obtain ⟨server, booted, restored, sound, shape⟩ := boot_restores alloc allocates now config _ fits
      have files : server.files = leaveTorn torn machine.server.files := by rw [shape]; rfl
      simp only [nextLife, booted]
      constructor
      · simp only [moves, run, List.foldl_cons, List.foldl_nil, move, held, restored, files, torn_apart]
      · exact ⟨booted_wellformed server now _ config shape sound bound, by rw [files]; exact fits,
          intact.children⟩

end Simulation

section Recovery

/-- Every run of the server over its lives is a run of moves. -/
theorem lives_held (start : Machine) (intact : Intact start) (steps : List LifeStep)
    (admitted : Admitted Allowed nextLife start steps) :
    held (run nextLife start steps) =
        run (move actKeys unexpired) (held start) (outputs nextLife moves start steps) ∧
      Intact (run nextLife start steps) := by
  constructor
  · exact run_refines Allowed nextLife held (move actKeys unexpired) moves
      (fun machine step intact allowed => (life_held machine intact step allowed).2)
      (fun machine step intact allowed => (life_held machine intact step allowed).1) start intact steps
      admitted
  · exact run_invariant Allowed nextLife
      (fun machine step intact allowed => (life_held machine intact step allowed).2) start intact steps
      admitted

variable (start : Machine) (intact : Intact start) (steps : List LifeStep)
variable (admitted : Admitted Allowed nextLife start steps)
variable (torn : Option Bytes) (malloc : Bool) (alloc : Nat → LoadAlloc) (now : Nat)
variable (config : ServerConfig)
variable (boots : Allowed (run nextLife start steps) (.restart torn malloc alloc now config))

include intact admitted boots

/-- A restart finds what is published. -/
theorem restart_finds :
    mapping (nextLife (run nextLife start steps) (.restart torn malloc alloc now config)).server.db =
      unexpired now
        (run (move actKeys unexpired) (held start) (outputs nextLife moves start steps)).kept := by
  obtain ⟨reached, still⟩ := lives_held start intact steps admitted
  have found := (life_held _ still _ boots).1
  rw [← reached]
  exact congrArg Held.live found

end Recovery

section Example

set_option maxRecDepth 4000

theorem calm_fair (now : Nat) (path : List Nat) : Fair (calm now path) := ⟨fun _ => rfl, rfl⟩

/-- A server that was started in an empty directory. -/
def firstLife : Machine := ⟨emptyServer, []⟩

theorem first_life_intact : Intact firstLife :=
  ⟨start_wellformed _ empty_starts, .inl rfl, by simp [firstLife]⟩

/-- A client stores a value. -/
def stored : List LifeStep :=
  [.serve (.connect 1 7), .serve (.receive (calm 0) 7 (ascii "SET a 1\r\n"))]

def saves : LifeStep := .serve (.receive (calm 0) 7 (ascii "SAVE\r\n"))

theorem stored_admitted : Admitted Allowed nextLife firstLife (stored ++ [saves]) := by
  refine ⟨⟨empty_connects, trivial, by simp [stepRuns], trivial⟩,
    ⟨⟨one_client_open, by decide⟩, calm_fair 0, by decide, trivial⟩,
    ⟨⟨by decide, by decide⟩, calm_fair 0, by decide, trivial⟩, trivial⟩

theorem reboots (machine : Machine) (now : Nat) :
    Allowed machine (.restart none true (fun _ => plenty) now loadDefaultConfig) :=
  ⟨rfl, fun _ => ⟨fun _ => rfl, fun _ => rfl, rfl, rfl, rfl⟩, by decide⟩

theorem saves_moves : ∃ step, moves (run nextLife firstLife stored) saves = [.act step, .publish 0] := by
  have runs := input_runs (calm 0) 7 (ascii "SAVE\r\n") (run nextLife firstLife stored).server
    (newClient 1 7 loadDefaultConfig) (by decide) (by decide) (by decide)
    (by decide)
  refine ⟨.call (calm 0 []) 7 (tokens (cstr (ascii "SAVE\r\n"))), ?_⟩
  rw [saves, moves, runs]
  · simp only [List.flatMap_cons, List.flatMap_nil, List.append_nil, runMoves]
    rw [if_pos (by decide)]
    rfl
  · simp
  · simp

end Example

end CrimsonCache.Restarts
