import CrimsonCache.FullSync
import CrimsonCache.ReadLengths
import CrimsonCache.ReplicaList
import CrimsonCache.WritePropagation

/-!
Whether what a primary sends can fill the buffer of a replica of the same
buffer size. The thread asks `recv` for what is left of its buffer but one byte,
and keeps what is behind the last line end; a line that leaves no room for its
own CRLF makes it ask for nothing, which it takes for a closed connection.
-/

namespace CrimsonCache.WedgedReplica

open CString Dictionary Persistence Replies Transaction Replication Tokenizer ServerState DataCommands StoredData
  Commands TransactionSteps Connections ReplicationThread ServerRuns ExecLoop WritePropagation
  ReplicaFraming ReplicaReconnect InitialSync FullSync ReadLengths Framing
  Runs

/-- However the stream is cut, `recv` is asked for a byte in every pass of the thread. -/
def ThreadServes (bufferSize : Nat) (stream : Bytes) : Prop :=
  ∀ chunks,
    Admitted (fun held (chunk : Bytes) => chunk ≠ [] ∧ held.length + chunk.length < bufferSize)
        threadPass [] chunks →
      chunks.flatten <+: stream → 0 < bufferSize - (run threadPass [] chunks).length - 1

/-- The lines of the stream fit with their CRLF and a terminator, and so does what stands behind the
    last of them. Behind a NUL no line end is found. -/
structure LinesFit (bufferSize : Nat) (stream : Bytes) : Prop where
  lines : ∀ line ∈ (frames cr lf [] (cstr stream)).1, line.length + 3 ≤ bufferSize
  behind : (frames cr lf [] (cstr stream)).2.length + (stream.drop (strlen stream)).length + 2 ≤
    bufferSize

/-- A client of a reachable primary can have the command propagated by what one read takes from it. -/
def Fed (bufferSize : Nat) (cmd : Bytes) : Prop :=
  ∃ server, Reachable server ∧ server.config.bufferSize = bufferSize ∧
    ∃ oracle socket chunk, Possible server (.receive oracle socket chunk) ∧
      cmd ∈ fedCommands (stepServer server (.receive oracle socket chunk)).2

/-- A sync of a reachable database writes the line. -/
def Synced (bufferSize : Nat) (line : Bytes) : Prop :=
  ∃ server, Reachable server ∧ server.config.bufferSize = bufferSize ∧
    ∃ envs fd result, .replicaWrite fd line result ∈ syncReplica envs fd server.db

/-- What a primary writes to a replica. -/
inductive Emission (bufferSize : Nat) where
  | command (malloc : Bool) (cmd : Bytes) (fed : Fed bufferSize cmd)
  | line (text : Bytes) (synced : Synced bufferSize text)

def Emission.text {bufferSize : Nat} : Emission bufferSize → Bytes
  | .command malloc cmd _ => framed malloc cmd
  | .line text _ => text

/-- The copy of a command without a CRLF had its memory, and the line was not cut by `cmd_buffer`. -/
def Emission.Whole {bufferSize : Nat} : Emission bufferSize → Prop
  | .command malloc cmd _ => malloc = true ∨ crlf <:+ cmd
  | .line text _ => text.length < 4096

/-- A command has a CRLF in it or leaves room for one. A sync line may hold more than one line. -/
def Emission.Fits {bufferSize : Nat} : Emission bufferSize → Prop
  | .command _ cmd _ => crlf <:+: cmd ∨ cmd.length + 3 ≤ bufferSize
  | .line text _ => ∀ part ∈ (frames cr lf [] text).1, part.length + 3 ≤ bufferSize

def stream {bufferSize : Nat} (sent : List (Emission bufferSize)) : Bytes := sent.flatMap Emission.text

/-- In every run of a server whose thread receives a front of the stream, however it is cut, `recv`
    is asked for a byte. -/
def ServerServes (bufferSize : Nat) (stream : Bytes) : Prop :=
  ∀ server, Starts server → server.config.bufferSize = bufferSize → ∀ steps,
    Admitted Possible next server steps → outputs next receivedBytes server steps <+: stream →
      0 < requested (run next server steps)

section Buffer

theorem held_free (front : Bytes) (free : 0 ∉ front) : 0 ∉ (frames cr lf [] front).2 := by
  have joined := frames_join cr lf [] front
  rw [List.nil_append] at joined
  rw [← joined] at free
  exact fun zero => free (List.mem_append_right _ zero)

theorem frames_again (front more : Bytes) :
    (frames cr lf [] ((frames cr lf [] front).2 ++ more)).2 = (frames cr lf [] (front ++ more)).2 := by
  have resumed := frames_resumed [] front more
  simp only [List.nil_append] at resumed
  rw [resumed]

/-- What a pass keeps is where the scan of the stream has come to. -/
theorem pass_resumes (front chunk : Bytes) :
    threadPass (threadPass [] front) chunk = threadPass [] (front ++ chunk) := by
  obtain ⟨text, back, rfl, free, stop⟩ := nul_cut front
  have kept := held_free text free
  have first := (crlf_lines_cut 0 [] text back free stop).2
  simp only [threadPass, List.nil_append, first]
  cases back with
  | nil =>
      obtain ⟨more, rest, rfl, freeMore, stopRest⟩ := nul_cut chunk
      have joined (front : Bytes) (free : 0 ∉ front) : 0 ∉ front ++ more := by
        simp [free, freeMore]
      simp only [List.append_nil, ← List.append_assoc]
      rw [(crlf_lines_cut 0 [] _ rest (joined _ kept) stopRest).2,
        (crlf_lines_cut 0 [] _ rest (joined _ free) stopRest).2, frames_again]
  | cons c back =>
      have stopMore : ∀ d ∈ ((c :: back) ++ chunk).head?, d = 0 := stop
      have same := frames_again text []
      simp only [List.append_nil] at same
      simp only [List.append_assoc]
      rw [(crlf_lines_cut 0 [] _ _ kept stopMore).2, (crlf_lines_cut 0 [] _ _ free stopMore).2, same]

theorem thread_run (chunks : List Bytes) :
    run threadPass [] chunks = threadPass [] chunks.flatten := by
  induction chunks using List.reverseRecOn with
  | nil => rfl
  | append_singleton chunks last ih =>
      rw [run_snoc, ih, pass_resumes, List.flatten_append, List.flatten_singleton]

/-- Byte by byte a text can be received as long as no shorter front of it has filled the buffer. -/
theorem bytes_admitted (bufferSize : Nat) (text : Bytes)
    (room : ∀ front, front <+: text → front ≠ text → (threadPass [] front).length + 2 ≤ bufferSize) :
    Admitted (fun held (chunk : Bytes) => chunk ≠ [] ∧ held.length + chunk.length < bufferSize)
      threadPass [] (text.map fun c => [c]) := by
  induction text using List.reverseRecOn with
  | nil => trivial
  | append_singleton text c ih =>
      rw [List.map_append, admitted_append]
      have shorter (front : Bytes) (sub : front <+: text) : front ≠ text ++ [c] := by
        rintro rfl
        simpa using sub.length_le
      constructor
      · exact ih fun front sub _ => room front (sub.trans (List.prefix_append text [c])) (shorter front sub)
      · have held := room text (List.prefix_append text [c]) (shorter text (List.prefix_refl text))
        refine ⟨⟨List.cons_ne_nil c [], ?_⟩, trivial⟩
        rw [thread_run, ← List.flatMap_def, List.flatMap_singleton', List.length_singleton]
        omega

/-- The thread is served as long as what it keeps of each front leaves two bytes. -/
theorem serves_fronts (bufferSize : Nat) (stream : Bytes) :
    ThreadServes bufferSize stream ↔
      ∀ front, front <+: stream → (threadPass [] front).length + 2 ≤ bufferSize := by
  constructor
  · intro serves whole
    -- With the fronts of a text the text itself can be received, and is one of the next one's.
    suffices fronts : whole <+: stream → ∀ front, front <+: whole →
        (threadPass [] front).length + 2 ≤ bufferSize from
      fun sub => fronts sub whole (List.prefix_refl whole)
    induction whole using List.reverseRecOn with
    | nil =>
        intro sub front empty
        obtain rfl := List.prefix_nil.mp empty
        have asked := serves [] trivial sub
        rw [thread_run] at asked
        simp only [List.flatten_nil] at asked
        omega
    | append_singleton whole c ih =>
        intro sub front inside
        have earlier := ih ((List.prefix_append whole [c]).trans sub)
        rcases List.prefix_concat_iff.mp inside with rfl | inside
        · have admitted := bytes_admitted bufferSize (whole ++ [c]) fun other there proper =>
            earlier other ((List.prefix_concat_iff.mp there).resolve_left proper)
          have delivered : ((whole ++ [c]).map fun c => [c]).flatten = whole ++ [c] := by
            rw [← List.flatMap_def, List.flatMap_singleton']
          have asked := serves _ admitted (by rwa [delivered])
          rw [thread_run, delivered] at asked
          omega
        · exact earlier front inside
  · intro room chunks _ sub
    have kept := room _ sub
    rw [thread_run]
    omega

/-- Each front is kept within the buffer exactly when each line and the end of the stream are. -/
theorem fronts_fit (bufferSize pos : Nat) (line stream : Bytes) :
    (∀ front, front <+: stream → (crlfLines pos line front).2.length + 2 ≤ bufferSize) ↔
      (∀ found ∈ (crlfLines pos line stream).1.map Prod.fst, found.length + 3 ≤ bufferSize) ∧
        (crlfLines pos line stream).2.length + 2 ≤ bufferSize := by
  induction stream generalizing pos line with
  | nil => simp [crlfLines]
  | cons c rest ih =>
      have fronts : (∀ front, front <+: c :: rest →
            (crlfLines pos line front).2.length + 2 ≤ bufferSize) ↔
          line.length + 2 ≤ bufferSize ∧
            ∀ front, front <+: rest → (crlfLines pos line (c :: front)).2.length + 2 ≤ bufferSize := by
        constructor
        · intro all
          exact ⟨all [] List.nil_prefix, fun front sub => all _ (List.prefix_cons_inj c |>.mpr sub)⟩
        · rintro ⟨none, some⟩ front sub
          cases front with
          | nil => exact none
          | cons d front =>
              obtain ⟨rfl, tail⟩ := List.cons_prefix_cons.mp sub
              exact some front tail
      rw [fronts]
      by_cases zero : c = 0
      · simp only [crlfLines, zero, ↓reduceIte, List.length_append, List.length_cons, List.map_nil,
          List.not_mem_nil, false_implies, implies_true, true_and]
        constructor
        · exact fun all => all.2 rest (List.prefix_refl rest)
        · intro whole
          refine ⟨by omega, fun front sub => ?_⟩
          have shorter := sub.length_le
          omega
      · by_cases closes : c = lf ∧ line.getLast? = some cr
        · have nonempty : line ≠ [] := by
            rintro rfl
            cases closes.2
          have longer := List.length_pos_of_ne_nil nonempty
          have scan (more : Bytes) : crlfLines pos line (c :: more) =
              ((line.dropLast, pos + 1) :: (crlfLines (pos + 1) [] more).1,
                (crlfLines (pos + 1) [] more).2) := by
            rw [crlfLines, if_neg zero, if_pos closes]
          simp only [scan, List.map_cons, List.forall_mem_cons, ih (pos + 1) [], List.length_dropLast]
          rw [and_assoc]
          exact and_congr_left' (by omega)
        · simp only [crlfLines, zero, closes, ↓reduceIte, ih (pos + 1) (line ++ [c])]
          refine and_iff_right_of_imp fun fits => ?_
          have start := (ih (pos + 1) (line ++ [c])).mpr fits [] List.nil_prefix
          simp only [crlfLines, List.length_append, List.length_singleton] at start
          omega

theorem serves_iff (bufferSize : Nat) (stream : Bytes) :
    ThreadServes bufferSize stream ↔ LinesFit bufferSize stream := by
  obtain ⟨text, back, rfl, free, stop⟩ := nul_cut stream
  have cut : cstr (text ++ back) = text := by
    rw [cstr, List.takeWhile_append_of_pos]
    · cases back with
      | nil => simp
      | cons c back => simp [stop c rfl]
    · intro c member
      simp only [decide_eq_true_eq]
      rintro rfl
      exact free member
  have scanned := crlf_lines_cut 0 [] text back free stop
  rw [serves_fronts]
  refine (fronts_fit bufferSize 0 [] (text ++ back)).trans ?_
  rw [scanned.1, scanned.2, List.length_append]
  constructor
  · rintro ⟨lines, behind⟩
    refine ⟨by rwa [cut], ?_⟩
    rwa [strlen, cut, List.drop_left]
  · rintro ⟨lines, behind⟩
    rw [cut] at lines
    rw [strlen, cut, List.drop_left] at behind
    exact ⟨lines, behind⟩

end Buffer

section Commands

/-- A run of a handler feeds nothing but its own input. -/
theorem run_fed (execute : Nat → Bytes → Server → Outcome) (env : Env) (sock : Int) (buffer : Bytes)
    (server : Server) (direct : lower (tokens (cstr buffer)) ≠ [ascii "exec"]) :
    ∀ cmd ∈ fedCommands (executeWith execute env sock buffer server).events, cmd = cstr buffer := by
  have ran := execute_with_cases execute env sock buffer server
  generalize executeWith execute env sock buffer server = outcome at ran
  intro cmd fed
  cases ran with
  | refused message => simp [(refuse_silent env server sock message).unfed] at fed
  | queued => simp [(queue_silent env sock (cstr buffer) server).unfed] at fed
  | ran row member named arity =>
      have apart : row.command ≠ .exec := fun exec =>
        direct (exec_alone row member exec (tokens (cstr buffer)) arity named)
      have unfed := (handler_unfed execute env sock (lower (tokens (cstr buffer))) server row.command
        apart).1
      rw [propagate_eq] at fed
      split at fed
      · simp only [fed_append, unfed, fed_once, List.nil_append, List.mem_singleton] at fed
        exact fed
      · simp [unfed] at fed

theorem queue_fed (oracle : Oracle) (sock : Int) (cmds : List Bytes)
    (queueable : ∀ cmd ∈ cmds, Queueable cmd) (index : Nat) (server : Server) (sound : Sound server.db) :
    ∀ run ∈ queuedRuns oracle sock index cmds server,
      ∀ cmd ∈ fedCommands run.outcome.events, cmd ∈ cmds := by
  refine queued_runs_each oracle sock (fun server => Sound server.db) _ cmds ?_ index server sound
  intro index cmd member server sound
  obtain ⟨text, direct, kept⟩ := queued_run_sound (oracle.inner index) sock cmd (queueable cmd member)
    server sound
  refine ⟨fun fed inside => ?_, kept⟩
  have same := run_fed (fun _ _ server => ⟨server, [], .unknown⟩) (oracle.inner index []) sock cmd server
    (text.symm ▸ direct) fed inside
  rw [text] at same
  exact same ▸ member

/-- What a call feeds is its input or was queued by a client. -/
theorem command_fed (oracle : Oracle) (sock : Int) (connected : 0 ≤ sock) (buffer : Bytes)
    (server : Server) (wf : Wellformed server) :
    ∀ cmd ∈ fedCommands (executeCommand oracle sock buffer server).events,
      cmd = cstr buffer ∨ ∃ client ∈ listed server.clientList, cmd ∈ client.queuedCommands := by
  intro cmd fed
  by_cases alone : lower (tokens (cstr buffer)) = [ascii "exec"]
  · right
    rw [(exec_accounted oracle sock connected buffer server wf alone).2.2.1] at fed
    obtain ⟨run, member, inside⟩ := List.mem_flatMap.mp fed
    rw [execRuns] at member
    split at member
    · cases member
    case h_2 cmds queue =>
      obtain ⟨client, there, -, same⟩ := exec_queue_client oracle sock server cmds queue
      have queued := queue_fed oracle sock cmds (same ▸ wf.queueable client there) 0
        (modifyClient sock txCleanup server) wf.sound run member cmd inside
      exact ⟨client, there, same ▸ queued⟩
  · exact Or.inl (run_fed _ _ sock buffer server alone cmd fed)

/-- Every queued command was read at once. -/
structure ShortQueues (bufferSize : Nat) (server : Server) : Prop where
  wf : Wellformed server
  size : server.config.bufferSize = bufferSize
  queued : ∀ client ∈ listed server.clientList, ∀ cmd ∈ client.queuedCommands, cmd.length < bufferSize

theorem queues_kept (bufferSize : Nat) (server : Server) (step : ServerStep)
    (short : ShortQueues bufferSize server) (possible : Possible server step)
    (kept : ∀ client ∈ listed (next server step).clientList, ∀ cmd ∈ client.queuedCommands,
      cmd.length < bufferSize) : ShortQueues bufferSize (next server step) :=
  ⟨next_wellformed server step short.wf possible,
    by rw [next_config server step short.wf possible, short.size], kept⟩

theorem step_queues (bufferSize : Nat) (server : Server) (step : ServerStep)
    (short : ShortQueues bufferSize server) (possible : Possible server step) :
    ShortQueues bufferSize (next server step) := by
  apply queues_kept bufferSize server step short possible
  cases step with
  | connect ptr socket =>
      intro client member cmd queued
      rcases connect_listed ptr socket server client member with rfl | old
      · cases queued
      · exact short.queued client old cmd queued
  | sweep now => exact short.queued
  | autoSave now saveNow io =>
      have same : (next server (.autoSave now saveNow io)).clientList = server.clientList := by
        simp only [next, stepServer, autoSave]
        split
        · split <;> rfl
        · rfl
      rw [same]
      exact short.queued
  | replication oracle received connect =>
      have same := (replication_same_clients oracle received connect server short.wf possible).clientList
      simp only [next, stepServer, same]
      exact short.queued
  | receive oracle sock chunk =>
      have served := serve_cases oracle sock chunk server
      simp only [next, stepServer]
      generalize serve oracle sock chunk server = reading at served
      cases served with
      | closed client =>
          intro other member
          simp only [disconnectClient, unregister_listed] at member
          exact short.queued other (List.mem_of_mem_eraseP member)
      | dropped => exact short.queued
      | absent => exact short.queued
      | read client member same =>
          have fits : chunk.length < server.config.bufferSize := possible.2
          rw [read_executes oracle client chunk server short.wf member fits]
          intro other there cmd queued
          rcases ReplicaList.transition_queued _ _ _ _ _ _ (execute_transition oracle client.socket
            (client.buffer ++ chunk) server short.wf.ready) other there cmd queued with
              ⟨old, before, -, earlier⟩ | ⟨-, rfl⟩
          · exact short.queued old before cmd earlier
          · rw [short.wf.whole_input client member chunk, ← short.size]
            exact lt_of_le_of_lt (cstr_length chunk) fits

theorem reachable_queues (server : Server) (reachable : Reachable server) :
    ShortQueues server.config.bufferSize server := by
  rcases reachable with ⟨start, steps, starts, admitted, rfl⟩
  have wf := start_wellformed start starts
  have first : ShortQueues start.config.bufferSize start := by
    refine ⟨wf, rfl, ?_⟩
    rcases starts with ⟨-, now, files, config, same, -⟩
    have none : listed start.clientList = [] := by
      rw [same]
      exact listed_empty config.maxClients
    simp [none]
  rw [run_config start wf steps admitted]
  exact run_invariant Possible next (step_queues start.config.bufferSize) start first steps admitted

end Commands

section Emissions

theorem fed_input (bufferSize : Nat) (cmd : Bytes) (fed : Fed bufferSize cmd) :
    0 ∉ cmd ∧ cmd.length < bufferSize := by
  obtain ⟨server, reachable, rfl, oracle, socket, chunk, possible, fed⟩ := fed
  have short := reachable_queues server reachable
  have served := serve_cases oracle socket chunk server
  simp only [stepServer] at fed
  generalize serve oracle socket chunk server = reading at served fed
  cases served with
  | closed => cases fed
  | dropped => cases fed
  | absent => cases fed
  | read client member =>
      have found := command_fed oracle client.socket (short.wf.positive client member)
        (client.buffer ++ chunk) server short.wf cmd fed
      rw [short.wf.whole_input client member chunk] at found
      rcases found with rfl | ⟨other, there, queued⟩
      · exact ⟨cstr_nul_free chunk, lt_of_le_of_lt (cstr_length chunk) possible.2⟩
      · exact ⟨(short.wf.queueable other there cmd queued).plain.free, short.queued other there cmd queued⟩

/-- Every write of a sync is that of a text without a NUL that ends in its CRLF, unless it is cut. -/
theorem sync_texts (fd : Int) (envs : Nat → SyncEnv) (entries : List DictEntry)
    (storable : ∀ entry ∈ entries, Storable entry) :
    ∀ line result, .replicaWrite fd line result ∈ syncEntries fd envs entries →
      ∃ overrun body, 0 ∉ body ∧ line = formatted overrun (body ++ crlf) := by
  induction entries generalizing envs with
  | nil => exact fun line result member => absurd member List.not_mem_nil
  | cons entry rest ih =>
      obtain ⟨here, later⟩ := List.forall_mem_cons.mp storable
      have set : ∃ overrun body, 0 ∉ body ∧
          formatted (envs 0).overrun (setLine entry.key entry.val.ptr) = formatted overrun (body ++ crlf) :=
        ⟨_, _, set_body_free _ _ here.key here.ptr, by rw [set_line_body]⟩
      have expire (seconds : Nat) : ∃ overrun body, 0 ∉ body ∧
          formatted (envs 0).overrun (expireLine entry.key seconds) = formatted overrun (body ++ crlf) :=
        ⟨_, _, expire_body_free _ seconds here.key, by rw [expire_line_body]⟩
      intro line result member
      rcases List.mem_append.mp member with first | tail
      · simp only [syncEntry, syncExpire] at first
        split at first
        · cases first
        · split at first
          · rcases List.mem_cons.mp first with same | timed
            · cases same
              exact set
            · split at timed
              · split at timed
                · split at timed
                  · cases List.mem_singleton.mp timed
                    exact expire _
                  · cases timed
                · cases timed
              · cases timed
          · cases first
      · exact ih (fun index => envs (index + 1)) later line result tail

theorem cut_length (overrun : Nat → UInt8) (line : Bytes) (long : 4096 ≤ line.length) :
    (line.take 4095 ++ 0 :: (List.range (line.length - 4096)).map overrun).length = line.length := by
  rw [List.length_append, List.length_take, Nat.min_eq_left (by omega), List.length_cons,
    List.length_map, List.length_range]
  omega

theorem formatted_short (overrun : Nat → UInt8) (line : Bytes)
    (short : (formatted overrun line).length < 4096) : formatted overrun line = line := by
  rw [formatted] at short ⊢
  split at short
  case isTrue fits => rw [if_pos fits]
  case isFalse long =>
    rw [cut_length overrun line (Nat.le_of_not_lt long)] at short
    exact absurd short long

theorem ended_text (body : Bytes) (free : 0 ∉ body) : 0 ∉ body ++ crlf ∧ crlf <:+ body ++ crlf := by
  have clean : 0 ∉ crlf := by decide
  exact ⟨fun zero => (List.mem_append.mp zero).elim free clean, List.suffix_append body crlf⟩

/-- What is written whole has no NUL and ends in a CRLF. -/
theorem whole_text {bufferSize : Nat} (emission : Emission bufferSize) (whole : emission.Whole) :
    0 ∉ emission.text ∧ crlf <:+ emission.text := by
  cases emission with
  | command malloc cmd fed =>
      have free := (fed_input bufferSize cmd fed).1
      simp only [Emission.text, framed]
      split
      case isTrue ends => exact ⟨free, ends⟩
      case isFalse bare =>
        have memory : malloc = true := whole.resolve_right bare
        rw [if_pos memory]
        exact ended_text cmd free
  | line text synced =>
      have short : text.length < 4096 := whole
      obtain ⟨server, reachable, -, envs, fd, result, written⟩ := synced
      have storable := (reachable_wellformed server reachable).sound.storable
      obtain ⟨overrun, body, free, same⟩ := sync_texts fd envs _ storable text result written
      have uncut : text = body ++ crlf := by
        rw [same] at short
        rw [same, formatted_short overrun _ short]
      simp only [Emission.text, uncut]
      exact ended_text body free

end Emissions

section Lines

theorem ended_frames (text : Bytes) (ends : crlf <:+ text) : (frames cr lf [] text).2 = [] := by
  obtain ⟨front, rfl⟩ := ends
  rw [frames_append, crlf, frames_close cr lf _ crlf_distinct]

/-- Texts that end in a CRLF have the lines of their stream. -/
theorem texts_frames (texts : List Bytes) (ended : ∀ text ∈ texts, crlf <:+ text) :
    frames cr lf [] texts.flatten = (texts.flatMap fun text => (frames cr lf [] text).1, []) := by
  induction texts with
  | nil => rfl
  | cons text rest ih =>
      obtain ⟨here, later⟩ := List.forall_mem_cons.mp ended
      rw [List.flatten_cons, frames_append, ended_frames text here, ih later, List.flatMap_cons]

theorem line_within (text line : Bytes) (member : line ∈ (frames cr lf [] text).1) :
    line.length + 2 + (frames cr lf [] text).2.length ≤ text.length := by
  have joined := congrArg List.length (frames_join cr lf [] text)
  obtain ⟨front, back, split⟩ := List.append_of_mem member
  rw [split] at joined
  simp only [List.flatMap_append, List.flatMap_cons, List.length_append, List.length_cons,
    List.length_nil, List.nil_append] at joined
  omega

/-- The lines of a command that was read at once fit, or it is one line that does not. -/
theorem command_lines (bufferSize : Nat) (malloc : Bool) (cmd : Bytes) (short : cmd.length < bufferSize)
    (whole : malloc = true ∨ crlf <:+ cmd) :
    (∀ line ∈ (frames cr lf [] (framed malloc cmd)).1, line.length + 3 ≤ bufferSize) ↔
      crlf <:+: cmd ∨ cmd.length + 3 ≤ bufferSize := by
  by_cases ends : crlf <:+ cmd
  · rw [framed, if_pos ends]
    refine iff_of_true (fun line member => ?_) (Or.inl ends.isInfix)
    have within := line_within cmd line member
    omega
  · have memory : malloc = true := whole.resolve_right ends
    have scanned : (frames cr lf [] (cmd ++ crlf)).1 =
        (frames cr lf [] cmd).1 ++ [(frames cr lf [] cmd).2] := by
      rw [frames_append, crlf, frames_close cr lf _ crlf_distinct]
    rw [framed, if_neg ends, if_pos memory, scanned]
    by_cases inside : crlf <:+: cmd
    · refine iff_of_true (fun line member => ?_) (Or.inl inside)
      rcases List.mem_append.mp member with closed | last
      · have within := line_within cmd line closed
        omega
      · obtain rfl := List.mem_singleton.mp last
        -- Without a line the command would be what is held, which has no CRLF.
        cases closed : (frames cr lf [] cmd).1 with
        | nil =>
            have joined := frames_join cr lf [] cmd
            have undivided := frames_held cr lf [] cmd (undivided_nil cr lf)
            rw [closed, List.flatMap_nil, List.nil_append, List.nil_append] at joined
            rw [joined] at undivided
            exact absurd inside undivided
        | cons first rest =>
            have within := line_within cmd first (closed ▸ List.mem_cons_self)
            omega
    · have undivided : Undivided cr lf ([] ++ cmd) := inside
      rw [frames_undivided cr lf [] cmd undivided]
      simp [inside]

theorem emission_lines {bufferSize : Nat} (emission : Emission bufferSize) (whole : emission.Whole) :
    (∀ line ∈ (frames cr lf [] emission.text).1, line.length + 3 ≤ bufferSize) ↔ emission.Fits := by
  cases emission with
  | command malloc cmd fed =>
      exact command_lines bufferSize malloc cmd (fed_input bufferSize cmd fed).2 whole
  | line text synced => rfl

/-- A stream of whole texts fits exactly when each of them does. -/
theorem stream_fits (bufferSize : Nat) (sent : List (Emission bufferSize))
    (whole : ∀ emission ∈ sent, emission.Whole) :
    LinesFit bufferSize (stream sent) ↔ 2 ≤ bufferSize ∧ ∀ emission ∈ sent, emission.Fits := by
  have free : 0 ∉ stream sent := by
    intro zero
    obtain ⟨emission, member, inside⟩ := List.mem_flatMap.mp zero
    exact (whole_text emission (whole emission member)).1 inside
  have ended : ∀ text ∈ sent.map Emission.text, crlf <:+ text := by
    intro text member
    obtain ⟨emission, there, rfl⟩ := List.mem_map.mp member
    exact (whole_text emission (whole emission there)).2
  have text := cstr_of_nul_free (stream sent) free
  have length : (stream sent).drop (strlen (stream sent)) = [] := by
    rw [strlen, text, List.drop_length]
  have scanned := texts_frames (sent.map Emission.text) ended
  rw [← List.flatMap_def] at scanned
  have lines : (∀ line ∈ (frames cr lf [] (stream sent)).1, line.length + 3 ≤ bufferSize) ↔
      ∀ emission ∈ sent, emission.Fits := by
    rw [stream, scanned]
    simp only [List.flatMap_map, List.mem_flatMap, forall_exists_index, and_imp]
    constructor
    · intro all emission member
      exact (emission_lines emission (whole emission member)).mp fun line inside =>
        all line emission member inside
    · intro fits line emission member
      exact (emission_lines emission (whole emission member)).mpr (fits emission member) line
  have behind : (frames cr lf [] (stream sent)).2 = [] := by rw [stream, scanned]
  constructor
  · rintro ⟨each, room⟩
    rw [text] at each
    rw [text, behind, length] at room
    exact ⟨room, lines.mp each⟩
  · rintro ⟨room, fits⟩
    refine ⟨?_, ?_⟩
    · rw [text]
      exact lines.mpr fits
    · rw [text, behind, length]
      exact room

end Lines

section Servers

/-- The thread of a server keeps what a thread of its own would. -/
theorem run_buffer (server : Server) (wf : Wellformed server) (front : Bytes)
    (held : server.replicaBuffer = threadPass [] front) (steps : List ServerStep)
    (admitted : Admitted Possible next server steps) :
    (run next server steps).replicaBuffer =
      threadPass [] (front ++ outputs next receivedBytes server steps) := by
  induction steps generalizing server front with
  | nil => simpa [run, outputs] using held
  | cons step rest ih =>
      obtain ⟨possible, later⟩ := admitted
      have kept : (next server step).replicaBuffer =
          threadPass [] (front ++ receivedBytes server step) := by
        cases step_passes server wf step with
        | scanned passed left =>
            rw [← pass_resumes, ← held]
            exact left
        | silent received passed same => rw [received, List.append_nil, same, held]
      have tail := ih (next server step) (next_wellformed server step wf possible) _ kept later
      rw [outputs, ← List.append_assoc]
      exact tail

theorem server_serves (bufferSize : Nat) (stream : Bytes) (fits : LinesFit bufferSize stream) :
    ServerServes bufferSize stream := by
  intro server starts size steps admitted delivered
  have wf := start_wellformed server starts
  have empty : server.replicaBuffer = threadPass [] [] := by
    rcases starts with ⟨-, now, files, config, same, -⟩
    rw [same]
    rfl
  have held := run_buffer server wf [] empty steps admitted
  have room := (serves_fronts bufferSize stream).mp ((serves_iff bufferSize stream).mpr fits) _ delivered
  rw [requested, run_config server wf steps admitted, size, held, List.nil_append]
  omega

end Servers

/-- The thread is asked for a byte at all times exactly when the lines that it is sent fit, and then
    so is the thread of every server; where nothing was cut, each text has to fit on its own. -/
theorem sent_served_iff (bufferSize : Nat) (sent : List (Emission bufferSize)) :
    (ThreadServes bufferSize (stream sent) ↔ LinesFit bufferSize (stream sent)) ∧
      (LinesFit bufferSize (stream sent) → ServerServes bufferSize (stream sent)) ∧
      ((∀ emission ∈ sent, emission.Whole) →
        (LinesFit bufferSize (stream sent) ↔
          2 ≤ bufferSize ∧ ∀ emission ∈ sent, emission.Fits)) :=
  ⟨serves_iff bufferSize (stream sent), server_serves bufferSize (stream sent),
    stream_fits bufferSize sent⟩

theorem short_command_served :
    ∃ fed : Fed 1024 (ascii "SET k v"),
      ThreadServes 1024 (stream [Emission.command true (ascii "SET k v") fed]) := by
  have fed : Fed 1024 (ascii "SET k v") :=
    ⟨oneClient, one_client_reachable, by decide +kernel, calm 0, 7, ascii "SET k v",
      ⟨one_client_open, by decide +kernel⟩, by decide +kernel⟩
  obtain ⟨served, -, fits⟩ := sent_served_iff 1024 [Emission.command true (ascii "SET k v") fed]
  refine ⟨fed, served.mpr ((fits ?_).mpr ⟨by decide, ?_⟩)⟩
  · exact List.forall_mem_singleton.mpr (Or.inl rfl)
  · exact List.forall_mem_singleton.mpr (Or.inr (by decide))

/-- A SET that a client of the default buffer size sends in one read of 1023 bytes. -/
def longCommand : Bytes := ascii "SET k " ++ List.replicate 1017 118

theorem long_command_fed : Fed 1024 longCommand :=
  ⟨oneClient, one_client_reachable, by decide +kernel, calm 0, 7, longCommand,
    ⟨one_client_open, by decide +kernel⟩, by decide +kernel⟩

/-- A replica of the same size that has received all of it, but not the CRLF that the primary added. -/
def fullReplica : Server :=
  next linked (.replication (fun _ => calm 0) (.data longCommand) .refused)

/-- It asks for no byte, with the connection open and the rest of the line to come. -/
theorem long_command_wedges :
    Fed 1024 longCommand ∧ ¬ ThreadServes 1024 (framed true longCommand) ∧ Reachable fullReplica ∧
      receiving fullReplica.repl = true ∧ fullReplica.replicaBuffer = longCommand ∧
      longCommand <+: framed true longCommand ∧ requested fullReplica = 0 := by
  have whole : framed true longCommand = longCommand ++ crlf := by decide +kernel
  refine ⟨long_command_fed, ?_, ?_, by decide +kernel, by decide +kernel, ?_, by decide +kernel⟩
  · rw [serves_fronts, whole]
    intro room
    have kept := room longCommand (List.prefix_append longCommand crlf)
    revert kept
    decide +kernel
  · have room : linked.replicaBuffer.length + longCommand.length < linked.config.bufferSize := by
      decide +kernel
    exact reachable_next linked _ linked_reachable room
  · rw [whole]
    exact List.prefix_append longCommand crlf

end CrimsonCache.WedgedReplica
