import CrimsonCache.Library.Inodes
import CrimsonCache.Library.Runs
import CrimsonCache.SnapshotCommit

/-!
Saves under way at the same time, in the threads of the server and in its
BGSAVE children. Each is the program of `save_rdb_to_file` over its own
database, and all of them write to one temporary name. stdio hands the bytes of
an `fwrite` to the file when it likes, at the latest at `fclose`. What a child
inherits of the open streams of its parent is left out.
-/

namespace CrimsonCache.ConcurrentSaves

open CString Dictionary Persistence Inodes

/-- What one save is given: the clock it reads and the database it walks. -/
structure Job where
  now : Nat
  db : Dict

def encoding (job : Job) : Bytes := rdbEncoding job.now job.db

def dumpTmp : Bytes := tempFilename dumpRdb

/-- A `FILE` open for writing. The buffer is what has not reached the file yet. -/
structure Stream where
  inode : Nat
  offset : Nat
  buffer : Bytes

/-- How far a save has come. Behind `fclose` it knows its result; whether every
    byte of the encoding is in the file is something it does not look at. -/
inductive Save where
  | ready
  | writing (stream : Stream) (rest : List Bytes)
  | failed (stream : Stream)
  | closed (result whole : Bool)
  | ended (result whole : Bool)

/-- Every byte of the encoding got into the file that the save had opened. -/
def whole : Save → Bool
  | .closed _ whole => whole
  | .ended _ whole => whole
  | _ => false

/-- The files with the saves that may be running, each under a number of its
    own, and for each file the save that opened it last. -/
structure Savers where
  files : FileSystem Bytes UInt8
  saves : Nat → Save
  opener : Nat → Option Nat

def idle (files : FileSystem Bytes UInt8) : Savers := ⟨files, fun _ => .ready, fun _ => none⟩

/-- `fwrite := some taken` fails with so many bytes taken, and `fclose := some kept`
    when so many of the buffered bytes have reached the file. -/
inductive Action where
  | fopen (opened : Bool)
  | fwrite (failed : Option Nat)
  | flush (count : Nat)
  | fclose (lost : Option Nat)
  | rename (renamed : Bool)
  | unlink

structure Step where
  save : Nat
  action : Action

def survives (lost : Option Nat) (buffer : Bytes) : Bytes :=
  match lost with
  | none => buffer
  | some kept => buffer.take kept

def setSave (save : Nat) (phase : Save) (savers : Savers) : Savers :=
  { savers with saves := Function.update savers.saves save phase }

def openTemp (save : Nat) (chunks : List Bytes) (savers : Savers) : Savers :=
  let (files, inode) := openTruncated savers.files dumpTmp
  { files := files
    saves := Function.update savers.saves save (.writing ⟨inode, 0, []⟩ chunks)
    opener := Function.update savers.opener inode (some save) }

/-- The kernel's part of a flush, and the phase it leaves the save in. -/
def emit (save : Nat) (stream : Stream) (bytes : Bytes) (phase : Save) (savers : Savers) :
    Savers :=
  setSave save phase
    { savers with files := writeAt savers.files stream.inode stream.offset bytes }

def advance (count : Nat) (stream : Stream) : Stream :=
  { stream with
    offset := stream.offset + (stream.buffer.take count).length
    buffer := stream.buffer.drop count }

def renameTemp (save : Nat) (renamed whole : Bool) (savers : Savers) : Savers :=
  match if renamed then rename savers.files dumpTmp dumpRdb else none with
  | none => setSave save (.ended false whole) savers
  | some files => setSave save (.ended true whole) { savers with files := files }

/-- The next call of a save. An action that is not the save's next one does nothing. -/
def step (job : Nat → Job) (savers : Savers) (next : Step) : Savers :=
  match savers.saves next.save, next.action with
  | .ready, .fopen true =>
      openTemp next.save (saveChunks (job next.save).now (job next.save).db) savers
  | .ready, .fopen false => setSave next.save (.ended false false) savers
  | .writing stream (chunk :: rest), .fwrite none =>
      setSave next.save (.writing { stream with buffer := stream.buffer ++ chunk } rest) savers
  | .writing stream (chunk :: _), .fwrite (some taken) =>
      setSave next.save (.failed { stream with buffer := stream.buffer ++ chunk.take taken }) savers
  | .writing stream rest, .flush count =>
      emit next.save stream (stream.buffer.take count) (.writing (advance count stream) rest) savers
  | .failed stream, .flush count =>
      emit next.save stream (stream.buffer.take count) (.failed (advance count stream)) savers
  | .writing stream [], .fclose lost =>
      let bytes := survives lost stream.buffer
      emit next.save stream bytes (.closed true (bytes = stream.buffer)) savers
  | .failed stream, .fclose lost =>
      emit next.save stream (survives lost stream.buffer) (.closed false false) savers
  | .closed true whole, .rename renamed => renameTemp next.save renamed whole savers
  | .closed false whole, .unlink =>
      setSave next.save (.ended false whole)
        { savers with files := unlink savers.files dumpTmp }
  | _, _ => savers

/-- The bytes that a step hands to the kernel, with the file they go to. -/
def writes (savers : Savers) (next : Step) : Option (Nat × Bytes) :=
  match savers.saves next.save, next.action with
  | .writing stream _, .flush count => some (stream.inode, stream.buffer.take count)
  | .failed stream, .flush count => some (stream.inode, stream.buffer.take count)
  | .writing stream [], .fclose lost => some (stream.inode, survives lost stream.buffer)
  | .failed stream, .fclose lost => some (stream.inode, survives lost stream.buffer)
  | _, _ => none

/-- The file that a step is about to publish. -/
def renames (savers : Savers) (next : Step) : Option Nat :=
  match savers.saves next.save, next.action with
  | .closed true _, .rename true => savers.files.names dumpTmp
  | _, _ => none

/-- A step that no other save is in the way of: it writes only to a file that no
    other save has opened since, and it renames only a file that the save which
    opened it last has written whole. -/
def Orderly (savers : Savers) (next : Step) : Prop :=
  (∀ written ∈ writes savers next, written.2 ≠ [] →
      savers.opener written.1 = some next.save) ∧
    ∀ inode ∈ renames savers next, ∃ author ∈ savers.opener inode,
      whole (savers.saves author) = true

instance (savers : Savers) (next : Step) : Decidable (Orderly savers next) :=
  inferInstanceAs (Decidable (_ ∧ _))

/-- The snapshot is the one of the start or the encoding of a single save. -/
def Intact (job : Nat → Job) (files : FileSystem Bytes UInt8) (savers : Savers) : Prop :=
  contentOf savers.files dumpRdb = contentOf files dumpRdb ∨
    ∃ save, whole (savers.saves save) = true ∧
      contentOf savers.files dumpRdb = some (encoding (job save))

/-- The step does not write to the file that is the snapshot. -/
def Untouched (savers : Savers) (next : Step) : Prop :=
  ∀ written ∈ writes savers next, written.2 ≠ [] →
    savers.files.names dumpRdb ≠ some written.1

instance (savers : Savers) (next : Step) : Decidable (Untouched savers next) :=
  inferInstanceAs (Decidable (∀ written ∈ writes savers next, _))

section Accounts

/-- What the content of a file is to the save that opened it last. -/
def Account (encoding content : Bytes) (inode : Nat) : Save → Prop
  | .ready => False
  | .writing stream rest =>
      stream.inode = inode ∧ stream.offset = content.length ∧
        content ++ stream.buffer ++ rest.flatten = encoding
  | .failed stream => stream.inode = inode
  | .closed _ whole => whole = true → content = encoding
  | .ended _ whole => whole = true → content = encoding

theorem account_whole (encoding content : Bytes) (inode : Nat) (save : Save)
    (account : Account encoding content inode save) (all : whole save = true) :
    content = encoding := by
  cases save with
  | closed => exact account all
  | ended => exact account all
  | ready => simp [whole] at all
  | writing => simp [whole] at all
  | failed => simp [whole] at all

/-- The snapshot is a file that no save has opened, or one that a save has written whole. -/
def Settled (files : FileSystem Bytes UInt8) (savers : Savers) : Prop :=
  (contentOf savers.files dumpRdb = contentOf files dumpRdb ∧
      ∀ inode, savers.files.names dumpRdb = some inode → savers.opener inode = none) ∨
    ∃ inode author, savers.files.names dumpRdb = some inode ∧
      savers.opener inode = some author ∧ whole (savers.saves author) = true

structure Sound (job : Nat → Job) (files : FileSystem Bytes UInt8) (savers : Savers) : Prop where
  account : ∀ inode save, savers.opener inode = some save →
    Account (encoding (job save)) (savers.files.contents inode) inode (savers.saves save)
  settled : Settled files savers

variable {job : Nat → Job} {files : FileSystem Bytes UInt8} {savers : Savers}

theorem idle_sound (job : Nat → Job) (files : FileSystem Bytes UInt8) :
    Sound job files (idle files) where
  account := by
    intro inode save opened
    simp [idle] at opened
  settled := Or.inl ⟨rfl, fun _ _ => rfl⟩

theorem sound_intact (sound : Sound job files savers) : Intact job files savers := by
  rcases sound.settled with ⟨same, _⟩ | ⟨inode, author, leads, opened, all⟩
  · exact Or.inl same
  · have content := account_whole _ _ _ _ (sound.account inode author opened) all
    exact Or.inr ⟨author, all, by simp [contentOf, leads, content]⟩

/-- A save that still writes has not written everything. -/
theorem writes_unfinished (savers : Savers) (next : Step) (written : Nat × Bytes)
    (found : writes savers next = some written) : whole (savers.saves next.save) = false := by
  cases phase : savers.saves next.save with
  | closed => cases action : next.action <;> simp [writes, phase, action] at found
  | ended => cases action : next.action <;> simp [writes, phase, action] at found
  | ready => rfl
  | writing => rfl
  | failed => rfl

theorem sound_untouched (sound : Sound job files savers) (next : Step)
    (orderly : Orderly savers next) : Untouched savers next := by
  intro written found some_byte leads
  have opened := orderly.1 written found some_byte
  rcases sound.settled with ⟨_, unopened⟩ | ⟨other, author, same, by_author, all⟩
  · simp [unopened written.1 leads] at opened
  · have here : other = written.1 := by simpa [leads] using same.symm
    have self : author = next.save := by simpa [here, opened] using by_author.symm
    simp [self, writes_unfinished savers next written found] at all

/-- A save at work writes to no file that is unopened or written whole. -/
theorem finished_kept (savers : Savers) (save inode : Nat) (content : Bytes)
    (owns : content ≠ savers.files.contents inode →
      savers.opener inode = some save ∧ whole (savers.saves save) = false)
    (other : Nat)
    (finished : savers.opener other = none ∨ ∃ author, savers.opener other = some author ∧
      whole (savers.saves author) = true) :
    Function.update savers.files.contents inode content other = savers.files.contents other := by
  by_cases here : other = inode
  · subst here
    rw [Function.update_self]
    by_contra changed
    rcases owns changed with ⟨mine, unfinished⟩
    rcases finished with none | ⟨author, opened, all⟩
    · simp [mine] at none
    · have self : author = save := by simpa [mine] using opened.symm
      simp [self, unfinished] at all
  · rw [Function.update_of_ne here]

/-- What a step that leaves the names alone owes: it writes to a file only for the
    save that opened it last, which is still at work, and keeps that save's accounts. -/
theorem sound_update (sound : Sound job files savers) (save inode : Nat) (phase : Save)
    (content : Bytes)
    (owns : content ≠ savers.files.contents inode →
      savers.opener inode = some save ∧ whole (savers.saves save) = false)
    (keeps : whole (savers.saves save) = true → whole phase = true)
    (account : ∀ other, savers.opener other = some save →
      Account (encoding (job save)) (Function.update savers.files.contents inode content other)
        other phase) :
    Sound job files
      (setSave save phase { savers with files := setContent savers.files inode content }) := by
  constructor
  · intro other author opened
    by_cases mine : author = save
    · subst mine
      simpa [setSave, setContent] using account other opened
    · have theirs := sound.account other author opened
      simp only [setSave, setContent, Function.update_of_ne mine]
      by_cases here : other = inode
      · subst here
        by_cases changed : content = savers.files.contents other
        · rw [Function.update_self, changed]
          exact theirs
        · have wrong : some author = some save := opened.symm.trans (owns changed).1
          exact absurd (Option.some.inj wrong) mine
      · rw [Function.update_of_ne here]
        exact theirs
  · rcases sound.settled with ⟨start, unopened⟩ | ⟨other, author, leads, opened, all⟩
    · left
      constructor
      · rw [← start]
        cases leads : savers.files.names dumpRdb with
        | none => simp [contentOf, setSave, setContent, leads]
        | some other =>
            have kept := finished_kept savers save inode content owns other
              (Or.inl (unopened other leads))
            simp [contentOf, setSave, setContent, leads, kept]
      · exact unopened
    · right
      exists other, author, leads, opened
      by_cases mine : author = save
      · subst mine
        simpa [setSave] using keeps all
      · simpa [setSave, Function.update_of_ne mine] using all

theorem sound_phase (sound : Sound job files savers) (save : Nat) (phase : Save)
    (keeps : whole (savers.saves save) = true → whole phase = true)
    (account : ∀ inode, savers.opener inode = some save →
      Account (encoding (job save)) (savers.files.contents inode) inode phase) :
    Sound job files (setSave save phase savers) := by
  have still := sound_update sound save 0 phase (savers.files.contents 0) (fun changed => absurd rfl changed)
    keeps (by simpa using account)
  simpa [setContent] using still

/-- The accounts behind a write of the save that opened the file last. -/
theorem sound_emit (sound : Sound job files savers) (save : Nat) (stream : Stream) (bytes : Bytes)
    (phase : Save)
    (owns : bytes ≠ [] → savers.opener stream.inode = some save)
    (working : whole (savers.saves save) = false)
    (open_here : ∀ inode, savers.opener inode = some save → stream.inode = inode)
    (account : savers.opener stream.inode = some save →
      Account (encoding (job save))
        (overwrite (savers.files.contents stream.inode) stream.offset bytes) stream.inode phase) :
    Sound job files (emit save stream bytes phase savers) := by
  apply sound_update sound
  · intro changed
    have some_byte : bytes ≠ [] := by
      rintro rfl
      exact changed rfl
    exact ⟨owns some_byte, working⟩
  · intro all
    simp [working] at all
  · intro inode opened
    have here := open_here inode opened
    subst here
    rw [Function.update_self]
    exact account opened

theorem temp_apart_dump : dumpRdb ≠ dumpTmp := temp_apart

theorem sound_open (sound : Sound job files savers) (save : Nat)
    (ready : savers.saves save = .ready) :
    Sound job files
      (openTemp save (saveChunks (job save).now (job save).db) savers) := by
  have unopened : ∀ inode, savers.opener inode ≠ some save := by
    intro inode opened
    have account := sound.account inode save opened
    simp [ready, Account] at account
  have elsewhere := open_inode savers.files dumpTmp dumpRdb temp_apart_dump
  constructor
  · intro inode author opened
    simp only [openTemp, open_contents] at opened ⊢
    by_cases here : inode = (openTruncated savers.files dumpTmp).2
    · rw [here, Function.update_self, Option.some.injEq] at opened
      subst opened
      rw [Function.update_self, here, Function.update_self]
      exact ⟨rfl, rfl, rfl⟩
    · rw [Function.update_of_ne here] at opened ⊢
      have apart : author ≠ save := by
        rintro rfl
        exact unopened inode opened
      rw [Function.update_of_ne apart]
      exact sound.account inode author opened
  · have names : (openTruncated savers.files dumpTmp).1.names dumpRdb = savers.files.names dumpRdb := by
      rw [open_names, Function.update_of_ne temp_apart_dump]
    rcases sound.settled with ⟨start, none_opened⟩ | ⟨inode, author, leads, opened, all⟩
    · left
      constructor
      · rw [← start, openTemp, content_open, Function.update_of_ne temp_apart_dump]
      · intro inode leads
        simp only [openTemp, names] at leads ⊢
        have apart : inode ≠ (openTruncated savers.files dumpTmp).2 := by
          rintro rfl
          exact elsewhere leads
        rw [Function.update_of_ne apart]
        exact none_opened inode leads
    · right
      have apart : inode ≠ (openTruncated savers.files dumpTmp).2 := by
        rintro rfl
        exact elsewhere leads
      have other : author ≠ save := by
        rintro rfl
        exact unopened inode opened
      refine ⟨inode, author, names.trans leads, ?_, ?_⟩
      · simpa [openTemp, apart] using opened
      · simpa [openTemp, other] using all

theorem sound_unlink (sound : Sound job files savers) :
    Sound job files { savers with files := unlink savers.files dumpTmp } := by
  constructor
  · exact sound.account
  · rcases sound.settled with ⟨start, unopened⟩ | ⟨inode, author, leads, opened, all⟩
    · left
      constructor
      · rw [← start, content_unlink, Function.update_of_ne temp_apart_dump]
      · simpa [unlink, point, temp_apart_dump] using unopened
    · right
      refine ⟨inode, author, ?_, opened, all⟩
      simpa [unlink, point, temp_apart_dump] using leads

/-- A rename publishes a file that the save which opened it last has written whole. -/
theorem sound_rename (sound : Sound job files savers) (save : Nat) (renamed all : Bool)
    (phase : savers.saves save = .closed true all)
    (orderly : Orderly savers ⟨save, .rename renamed⟩) :
    Sound job files (renameTemp save renamed all savers) := by
  have ended : ∀ result, Sound job files (setSave save (.ended result all) savers) := by
    intro result
    apply sound_phase sound
    · intro done
      simpa [phase, whole] using done
    · intro inode opened
      have account := sound.account inode save opened
      rw [phase] at account
      exact account
  cases renamed with
  | false => exact ended false
  | true =>
      cases leads : savers.files.names dumpTmp with
      | none =>
          simp only [renameTemp, ↓reduceIte, rename_absent savers.files dumpTmp dumpRdb leads]
          exact ended false
      | some inode =>
          obtain ⟨moved, result, names, contents⟩ :=
            rename_present savers.files dumpTmp dumpRdb inode leads
          obtain ⟨author, opened, finished⟩ := orderly.2 inode (by simp [renames, phase, leads])
          simp only [renameTemp, ↓reduceIte, result]
          constructor
          · intro other owner owned
            have account := (ended true).account other owner owned
            simpa [setSave, contents] using account
          · right
            refine ⟨inode, author, ?_, opened, ?_⟩
            · simp [setSave, names]
            · by_cases self : author = save
              · subst self
                simpa [setSave, phase, whole] using finished
              · simpa [setSave, self] using finished

/-- A save that is failing takes no part in the accounts until it is closed. -/
theorem sound_failed (sound : Sound job files savers) (save : Nat) (stream : Stream)
    (phase : savers.saves save = .failed stream) (inode : Nat)
    (opened : savers.opener inode = some save) : stream.inode = inode := by
  have account := sound.account inode save opened
  rwa [phase] at account

theorem sound_writing (sound : Sound job files savers) (save : Nat) (stream : Stream)
    (rest : List Bytes) (phase : savers.saves save = .writing stream rest) (inode : Nat)
    (opened : savers.opener inode = some save) :
    stream.inode = inode ∧ stream.offset = (savers.files.contents inode).length ∧
      savers.files.contents inode ++ stream.buffer ++ rest.flatten = encoding (job save) := by
  have account := sound.account inode save opened
  rwa [phase] at account

theorem sound_step (sound : Sound job files savers) (next : Step)
    (orderly : Orderly savers next) : Sound job files (step job savers next) := by
  rcases next with ⟨save, action⟩
  unfold step
  split
  -- `fopen`
  case h_1 ready _ => exact sound_open sound save ready
  case h_2 ready _ =>
    apply sound_phase sound
    · simp [ready, whole]
    · intro inode opened
      have account := sound.account inode save opened
      rw [ready] at account
      exact account.elim
  -- `fwrite`
  case h_3 stream chunk rest phase _ =>
    apply sound_phase sound
    · simp [phase, whole]
    · intro inode opened
      rcases sound_writing sound save stream _ phase inode opened with ⟨here, offset, content⟩
      exact ⟨here, offset, by simpa using content⟩
  case h_4 stream chunk rest taken phase _ =>
    apply sound_phase sound
    · simp [phase, whole]
    · intro inode opened
      exact (sound_writing sound save stream _ phase inode opened).1
  -- `flush`
  case h_5 stream rest count phase called =>
    cases called
    apply sound_emit sound
    · intro some_byte
      exact orderly.1 (stream.inode, _) (by simp [writes, phase]) some_byte
    · simp [phase, whole]
    · intro inode opened
      exact (sound_writing sound save stream rest phase inode opened).1
    · intro opened
      rcases sound_writing sound save stream rest phase _ opened with ⟨_, offset, content⟩
      rw [offset, overwrite_end]
      refine ⟨rfl, ?_, ?_⟩
      · simp [advance, offset]
      · simpa [advance] using content
  case h_6 stream count phase called =>
    cases called
    apply sound_emit sound
    · intro some_byte
      exact orderly.1 (stream.inode, _) (by simp [writes, phase]) some_byte
    · simp [phase, whole]
    · exact sound_failed sound save stream phase
    · intro _
      rfl
  -- `fclose`
  case h_7 stream lost phase called =>
    cases called
    apply sound_emit sound
    · intro some_byte
      exact orderly.1 (stream.inode, _) (by rw [writes, phase]; rfl) some_byte
    · simp [phase, whole]
    · intro inode opened
      exact (sound_writing sound save stream [] phase inode opened).1
    · intro opened all
      rcases sound_writing sound save stream [] phase _ opened with ⟨_, offset, content⟩
      have kept : survives lost stream.buffer = stream.buffer := of_decide_eq_true all
      rw [offset, overwrite_end, kept]
      simpa using content
  case h_8 stream lost phase called =>
    cases called
    apply sound_emit sound
    · intro some_byte
      exact orderly.1 (stream.inode, _) (by rw [writes, phase]; rfl) some_byte
    · simp [phase, whole]
    · exact sound_failed sound save stream phase
    · intro _ all
      simp at all
  case h_9 all renamed phase called =>
    cases called
    exact sound_rename sound save renamed all phase orderly
  case h_10 all phase _ =>
    apply sound_phase (sound_unlink sound)
    · intro done
      simpa [phase, whole] using done
    · intro inode opened
      have account := sound.account inode save opened
      rwa [phase] at account
  case h_11 => exact sound

end Accounts

/-- However the steps of the saves are interleaved, the snapshot is whole and
    nobody writes to it, as long as every step is orderly. -/
theorem published_is_whole (job : Nat → Job) (files : FileSystem Bytes UInt8) (steps : List Step)
    (orderly : Runs.Admitted Orderly (step job) (idle files) steps) :
    Intact job files (Runs.run (step job) (idle files) steps) ∧
      ∀ visited ∈ Runs.trace (step job) (idle files) steps, Untouched visited.1 visited.2 := by
  have preserved : ∀ history savers next,
      (Sound job files savers ∧ ∀ visited ∈ history, Untouched visited.1 visited.2) →
      Orderly savers next →
      Sound job files (step job savers next) ∧
        ∀ visited ∈ history ++ [(savers, next)], Untouched visited.1 visited.2 := by
    rintro history savers next ⟨sound, before⟩ allowed
    constructor
    · exact sound_step sound next allowed
    · intro visited member
      rcases List.mem_append.mp member with earlier | last
      · exact before visited earlier
      · rw [List.mem_singleton.mp last]
        exact sound_untouched sound next allowed
  have invariant := Runs.run_history Orderly (step job) preserved (idle files)
    ⟨idle_sound job files, by simp⟩ steps orderly
  exact ⟨sound_intact invariant.1, invariant.2⟩

section Alone

/-- The calls of a save in program order, with stdio flushing at `fclose` only. -/
def fwriteCalls (ok : Nat → Bool) : Nat → List Bytes → List Action
  | _, [] => []
  | index, _ :: rest =>
      if ok index then .fwrite none :: fwriteCalls ok (index + 1) rest else [.fwrite (some 0)]

def calls (io : SaveIo) (job : Job) : List Action :=
  let chunks := saveChunks job.now job.db
  if io.fopen then
    .fopen true :: fwriteCalls io.fwrite 0 chunks ++
      [.fclose io.fclose,
        if (fwriteAll io.fwrite 0 chunks).1 then .rename io.rename else .unlink]
  else [.fopen false]

def buffered (stream : Stream) (bytes : Bytes) : Stream :=
  { stream with buffer := stream.buffer ++ bytes }

variable (job : Nat → Job) (savers : Savers) (save : Nat)

theorem fwrite_calls_run (ok : Nat → Bool) (index : Nat) (chunks : List Bytes) (stream : Stream) :
    Runs.run (step job) (setSave save (.writing stream chunks) savers)
        ((fwriteCalls ok index chunks).map (Step.mk save)) =
      setSave save
        (if (fwriteAll ok index chunks).1 then
          .writing (buffered stream (fwriteAll ok index chunks).2) []
        else .failed (buffered stream (fwriteAll ok index chunks).2)) savers := by
  -- The buffer takes the chunks up to the first call that fails.
  induction chunks generalizing index stream with
  | nil => simp [fwriteCalls, fwriteAll, buffered, Runs.run]
  | cons chunk rest ih =>
      simp only [fwriteCalls, fwriteAll]
      split
      · have first : step job (setSave save (.writing stream (chunk :: rest)) savers)
            ⟨save, .fwrite none⟩ = setSave save (.writing (buffered stream chunk) rest) savers := by
          simp [step, setSave, buffered]
        have later := ih (index + 1) (buffered stream chunk)
        simp only [List.map_cons, Runs.run, List.foldl_cons] at later ⊢
        rw [first, later]
        simp [buffered]
      · simp [Runs.run, step, setSave, buffered]

theorem survives_flushed (io : SaveIo) (written : Bytes) :
    survives io.fclose written = flushed io written := rfl

/-- Behind the last `fwrite` comes `fclose`, and then a rename or an unlink. -/
theorem closing_run (io : SaveIo) (written : Bytes) (result : Bool) (inode : Nat)
    (leads : savers.files.names dumpTmp = some inode)
    (empty : savers.files.contents inode = [])
    (phase : savers.saves save =
      if result then .writing ⟨inode, 0, written⟩ [] else .failed ⟨inode, 0, written⟩) :
    let closed := step job savers ⟨save, .fclose io.fclose⟩
    (∃ all, closed.saves save = .closed result all) ∧ closed.files.names = savers.files.names ∧
      contentOf closed.files =
        Function.update (contentOf savers.files) dumpTmp (some (flushed io written)) := by
  have content := content_set savers.files dumpTmp inode leads (flushed io written)
  cases result with
  | true =>
      simp only [↓reduceIte] at phase
      simp only [step, phase]
      refine ⟨⟨_, Function.update_self ..⟩, rfl, ?_⟩
      simpa [emit, setSave, writeAt, empty, overwrite_empty, survives_flushed] using content
  | false =>
      simp only [Bool.false_eq_true, ↓reduceIte] at phase
      simp only [step, phase]
      refine ⟨⟨_, Function.update_self ..⟩, rfl, ?_⟩
      simpa [emit, setSave, writeAt, empty, overwrite_empty, survives_flushed] using content

theorem ending_run (result renamed all : Bool) (content : Bytes)
    (phase : savers.saves save = .closed result all)
    (present : contentOf savers.files dumpTmp = some content) :
    let ended := step job savers ⟨save, if result then .rename renamed else .unlink⟩
    contentOf ended.files =
        (if result then
          if renamed then
            Function.update (Function.update (contentOf savers.files) dumpTmp none) dumpRdb
              (some content)
          else contentOf savers.files
        else Function.update (contentOf savers.files) dumpTmp none) ∧
      ∃ all, ended.saves save = .ended (result && renamed) all := by
  cases result with
  | false =>
      simp only [step, phase, Bool.false_eq_true, ↓reduceIte]
      exact ⟨content_unlink savers.files dumpTmp, all, by simp [setSave]⟩
  | true =>
      simp only [step, phase, ↓reduceIte]
      cases renamed with
      | false => exact ⟨rfl, all, by simp [renameTemp, setSave]⟩
      | true =>
          obtain ⟨moved, found, same⟩ := content_rename savers.files dumpTmp dumpRdb content present
          simp only [renameTemp, ↓reduceIte, found]
          exact ⟨same, all, by simp [setSave]⟩

/-- A save that nothing comes between is `save_rdb_to_file`. -/
theorem alone_is_save (io : SaveIo) (ready : savers.saves save = .ready) :
    let alone := Runs.run (step job) savers ((calls io (job save)).map (Step.mk save))
    let saved := saveRdbToFile io (job save).now (job save).db dumpRdb (contentOf savers.files)
    contentOf alone.files = saved.1 ∧ ∃ all, alone.saves save = .ended saved.2 all := by
  simp only [calls, saveRdbToFile]
  split
  case isFalse =>
    simp only [Runs.run, List.map_cons, List.map_nil, List.foldl_cons, List.foldl_nil, step, ready]
    exact ⟨rfl, false, by simp [setSave]⟩
  case isTrue =>
    let chunks := saveChunks (job save).now (job save).db
    let opened : Savers :=
      { savers with
        files := (openTruncated savers.files dumpTmp).1
        opener := Function.update savers.opener (openTruncated savers.files dumpTmp).2 (some save) }
    let inode := (openTruncated savers.files dumpTmp).2
    let accepted := fwriteAll io.fwrite 0 chunks
    let written := setSave save
      (if accepted.1 then .writing ⟨inode, 0, accepted.2⟩ [] else .failed ⟨inode, 0, accepted.2⟩)
      opened
    have first : step job savers ⟨save, .fopen true⟩ =
        setSave save (.writing ⟨inode, 0, []⟩ chunks) opened := by
      simp [step, ready, openTemp, setSave, opened, inode, chunks]
    have middle : Runs.run (step job) (setSave save (.writing ⟨inode, 0, []⟩ chunks) opened)
        ((fwriteCalls io.fwrite 0 chunks).map (Step.mk save)) = written :=
      fwrite_calls_run job opened save io.fwrite 0 chunks ⟨inode, 0, []⟩
    have leads : written.files.names dumpTmp = some inode := by
      simp [written, setSave, opened, open_names, inode]
    have empty : written.files.contents inode = [] := by
      simp [written, setSave, opened, open_contents, inode]
    obtain ⟨⟨all, phase⟩, _, seen⟩ := closing_run job written save io accepted.2 accepted.1 inode
      leads empty (by simp [written, setSave])
    have ending := ending_run job _ save accepted.1 io.rename all _ phase
      (by rw [seen, Function.update_self])
    have before : contentOf written.files =
        Function.update (contentOf savers.files) dumpTmp (some []) :=
      content_open savers.files dumpTmp
    simp only [List.map_cons, List.map_append, List.map_nil, List.cons_append, Runs.run,
      List.foldl_cons, List.foldl_append, List.foldl_nil] at middle ⊢
    rw [first, middle]
    rw [seen, before, Function.update_idem, Function.update_idem] at ending
    rcases ending with ⟨same, ended⟩
    constructor
    · refine same.trans ?_
      simp only [accepted, chunks]
      split
      · cases io.rename <;> simp [dumpTmp]
      · rfl
    · rcases ended with ⟨all, ended⟩
      exists all
      refine ended.trans ?_
      simp only [accepted, chunks]
      split
      case isTrue kept => cases io.rename <;> simp [kept]
      case isFalse cut => simp [cut]

end Alone

section Samples

def faultless : SaveIo := ⟨true, fun _ => true, none, true⟩

def lastingEntry : Dict where
  table := [[⟨ascii "k", ⟨ascii "v", .string, 0, 2, 0⟩⟩]]
  size := 1
  used := 1
  mask := 0
  maxMemory := 0
  usedMemory := 0

/-- Save 0 finds one entry, the others an empty table. -/
def sampleJob : Nat → Job
  | 0 => ⟨9, lastingEntry⟩
  | _ => ⟨9, { lastingEntry with table := [[]], used := 0 }⟩

def noFiles : FileSystem Bytes UInt8 where
  names _ := none
  contents _ := []
  next := 0
  fresh := by simp
  single := by simp

def wholeCalls (save : Nat) : List Step := (calls faultless (sampleJob save)).map (Step.mk save)

/-- Save 1 waits for the rename of save 0. -/
theorem saves_in_turn :
    Intact sampleJob noFiles
        (Runs.run (step sampleJob) (idle noFiles) (wholeCalls 0 ++ wholeCalls 1)) ∧
      ∀ visited ∈ Runs.trace (step sampleJob) (idle noFiles) (wholeCalls 0 ++ wholeCalls 1),
        Untouched visited.1 visited.2 :=
  published_is_whole sampleJob noFiles _ (by decide +kernel)

/-- Save 1 opens the temporary file between the last two calls of save 0, and
    goes on writing to what has become the snapshot. -/
def overlap : List Step :=
  (wholeCalls 0).dropLast ++
    [⟨1, .fopen true⟩, ⟨0, .rename true⟩, ⟨1, .fwrite none⟩, ⟨1, .flush 4⟩]

theorem overlap_tears_snapshot :
    ¬ Intact sampleJob noFiles (Runs.run (step sampleJob) (idle noFiles) overlap) ∧
      ∃ visited ∈ Runs.trace (step sampleJob) (idle noFiles) overlap,
        ¬ Untouched visited.1 visited.2 := by
  constructor
  · have torn : contentOf (Runs.run (step sampleJob) (idle noFiles) overlap).files dumpRdb =
        some rdbMagic := by decide +kernel
    rintro (same | ⟨save, _, encoded⟩)
    · rw [torn] at same
      simp [contentOf, noFiles] at same
    · rw [torn, Option.some.injEq] at encoded
      -- An encoding goes on behind the magic.
      have short := congrArg List.length encoded
      simp [encoding, rdbEncoding, saveChunks, rdbMagic] at short
  · decide +kernel

end Samples

end CrimsonCache.ConcurrentSaves
