import CrimsonCache.Library.Framing
import CrimsonCache.TransactionEquivalence

/-!
How a connection's byte stream reaches `execute_command`. The handlers keep
`buffer_pos` at zero between reads and hand on whatever one read returned, so
the inputs are the chunks. They are the lines of the stream exactly when the
network cut it behind every line and nowhere else.
-/

namespace CrimsonCache.InputFraming

open CString Dictionary Replies Transaction Replication ServerState Commands TransactionSteps Connections ServerRuns
  TransactionEquivalence Framing

/-- Text without a delimiter inside, and its CRLF. -/
structure Line (line : Bytes) : Prop where
  ended : ∃ text, Undivided cr lf text ∧ line = text ++ crlf
  free : 0 ∉ line

abbrev Handler := Oracle → Int → Bytes → Server → Reading

/-- One connection's reads in order, and the strings `execute_command` was
    called with. -/
def readChunks (handler : Handler) (oracle : Nat → Oracle) (sock : Int) :
    Nat → List Bytes → Server → Server × List Bytes
  | _, [], server => (server, [])
  | index, chunk :: rest, server =>
      let reading := handler (oracle index) sock chunk server
      let (server, passed) := readChunks handler oracle sock (index + 1) rest reading.server
      (server, reading.passed.map cstr ++ passed)

/-- The thread of an open connection, or the event loop for one with a slot. -/
def Handles (handler : Handler) (sock : Int) (server : Server) : Prop :=
  (handler = handleClient ∧ sock ∈ (openClients server).map (·.socket)) ∨
    (handler = handleClientMessage ∧ sock ∈ (listed server.clientList).map (·.socket))

section Lines

theorem texts_of_lines (lines : List Bytes) (each : ∀ line ∈ lines, Line line) :
    ∃ texts : List Bytes, (∀ text ∈ texts, Undivided cr lf text) ∧
      lines = texts.map fun text => text ++ crlf := by
  induction lines with
  | nil => exact ⟨[], by simp, rfl⟩
  | cons line rest ih =>
      obtain ⟨text, whole, same⟩ := (each line List.mem_cons_self).ended
      obtain ⟨texts, wholes, sames⟩ := ih fun other member => each other (List.mem_cons_of_mem _ member)
      refine ⟨text :: texts, ?_, by rw [List.map_cons, ← same, ← sames]⟩
      intro other member
      rcases List.mem_cons.mp member with rfl | later
      · exact whole
      · exact wholes other later

/-- A stream is cut into lines in one way only. -/
theorem lines_unique (first second : List Bytes) (eachFirst : ∀ line ∈ first, Line line)
    (eachSecond : ∀ line ∈ second, Line line) (same : first.flatten = second.flatten) :
    first = second := by
  obtain ⟨texts, whole, rfl⟩ := texts_of_lines first eachFirst
  obtain ⟨others, wholes, rfl⟩ := texts_of_lines second eachSecond
  -- Scanning the one stream gives both lists of texts back.
  have scanned := frames_lines cr lf texts crlf_distinct whole
  have scannedOther := frames_lines cr lf others crlf_distinct wholes
  have flat (list : List Bytes) : (list.map fun text => text ++ crlf).flatten =
      list.flatMap fun text => text ++ [cr, lf] := (List.flatMap_def ..).symm
  rw [flat, flat] at same
  rw [same, scannedOther] at scanned
  rw [(Prod.mk.inj scanned).1]

theorem cut_iff_lines (lines chunks : List Bytes) (each : ∀ line ∈ lines, Line line)
    (split : chunks.flatten = lines.flatten) :
    chunks = lines ↔ ∀ chunk ∈ chunks, Line chunk := by
  constructor
  · rintro rfl
    exact each
  · exact fun cut => lines_unique chunks lines cut each split

end Lines

section Reads

variable (handler : Handler) (sock : Int)

/-- A handler reads into the buffer of the connection's client. -/
theorem handler_reads (server : Server) (handles : Handles handler sock server) (oracle : Oracle)
    (chunk : Bytes) (more : chunk ≠ []) :
    ∃ client ∈ openClients server, client.socket = sock ∧
      handler oracle sock chunk server = readInput oracle client chunk server := by
  rcases handles with ⟨rfl, there⟩ | ⟨rfl, there⟩
  · cases found : openClient sock server with
    | none =>
        obtain ⟨client, member, same⟩ := List.mem_map.mp there
        simpa [same] using List.find?_eq_none.mp found client member
    | some client =>
        obtain ⟨member, same⟩ := open_client_mem _ _ _ found
        exact ⟨client, member, same, by simp [handleClient, found, more]⟩
  · cases found : findClient sock server with
    | none =>
        obtain ⟨client, member, same⟩ := List.mem_map.mp there
        rw [findClient, get_listed] at found
        simpa [same] using List.find?_eq_none.mp found client member
    | some client =>
        obtain ⟨member, same⟩ := get_mem _ _ _ found
        exact ⟨client, (open_mem server client).mpr (Or.inl member), same,
          by simp [handleClientMessage, found, more]⟩

/-- Executing an input opens and closes no connection. -/
theorem execute_handles (server : Server) (wf : Wellformed server)
    (handles : Handles handler sock server) (oracle : Oracle) (buffer : Bytes)
    (short : buffer.length < 2 ^ 31) :
    Handles handler sock (executeCommand oracle sock buffer server).server := by
  rcases handles with ⟨same, there⟩ | ⟨same, there⟩
  · refine Or.inl ⟨same, ?_⟩
    rw [execute_map (fun client => client.socket) (fun _ _ _ _ _ _ _ _ _ _ _ _ => rfl) oracle sock
      buffer server wf short]
    exact there
  · refine Or.inr ⟨same, ?_⟩
    rw [transition_map (fun client => client.socket) (fun _ _ _ _ _ _ _ _ _ _ _ _ => rfl) _ _ _ _ _ _
      (execute_transition oracle sock buffer server wf.ready)]
    exact there

theorem execute_buffer_size (server : Server) (wf : Wellformed server) (oracle : Oracle)
    (buffer : Bytes) (short : buffer.length < 2 ^ 31) :
    (executeCommand oracle sock buffer server).server.config = server.config :=
  congrArg Prod.snd (execute_sound oracle sock buffer server short wf.queueable wf.sound).2

/-- The reads of a connection execute its chunks. -/
theorem read_chunks_direct (oracle : Nat → Oracle) (chunks : List Bytes) (index : Nat)
    (server : Server) (wf : Wellformed server) (handles : Handles handler sock server)
    (more : ∀ chunk ∈ chunks, chunk ≠ [])
    (fits : ∀ chunk ∈ chunks, chunk.length < server.config.bufferSize) :
    readChunks handler oracle sock index chunks server =
      ((runDirect oracle sock index chunks server).1, chunks.map cstr) := by
  induction chunks generalizing index server with
  | nil => rfl
  | cons chunk rest ih =>
      have bound := wf.bufferSize
      have room := fits chunk List.mem_cons_self
      have short : chunk.length < 2 ^ 31 := by omega
      obtain ⟨client, member, same, reads⟩ := handler_reads handler sock server handles (oracle index)
        chunk (more chunk List.mem_cons_self)
      have buffer := wf.whole_input client member chunk
      have after := execute_wellformed (oracle index) sock chunk server wf short
      have state := read_executes (oracle index) client chunk server wf member room
      rw [buffer, same] at state
      have passed : (readInput (oracle index) client chunk server).passed = [chunk] := by
        simp [readInput, buffer]
      have config := execute_buffer_size sock server wf (oracle index) chunk short
      have later := ih (index + 1) (executeCommand (oracle index) sock chunk server).server after
        (execute_handles handler sock server wf handles (oracle index) chunk short)
        (fun other inside => more other (List.mem_cons_of_mem _ inside))
        (fun other inside => by rw [config]; exact fits other (List.mem_cons_of_mem _ inside))
      simp only [readChunks, reads, state, passed, later, runDirect]
      rfl

/-- The inputs are the lines of the stream exactly when every read returned one
    line, and then the connection leaves what the lines leave one by one. -/
theorem inputs_are_lines_iff (server : Server) (reachable : Reachable server)
    (handles : Handles handler sock server) (oracle : Nat → Oracle) (lines chunks : List Bytes)
    (each : ∀ line ∈ lines, Line line) (split : chunks.flatten = lines.flatten)
    (more : ∀ chunk ∈ chunks, chunk ≠ [])
    (fits : ∀ chunk ∈ chunks, chunk.length < server.config.bufferSize) :
    ((readChunks handler oracle sock 0 chunks server).2 = lines ↔ ∀ chunk ∈ chunks, Line chunk) ∧
      ((∀ chunk ∈ chunks, Line chunk) →
        (readChunks handler oracle sock 0 chunks server).1 = (runDirect oracle sock 0 lines server).1) := by
  have ran := read_chunks_direct handler sock oracle chunks 0 server
    (reachable_wellformed server reachable) handles more fits
  have free : ∀ chunk ∈ chunks, 0 ∉ chunk := by
    intro chunk member zero
    have inside : 0 ∈ lines.flatten := split ▸ List.mem_flatten.mpr ⟨chunk, member, zero⟩
    obtain ⟨line, there, wrong⟩ := List.mem_flatten.mp inside
    exact (each line there).free wrong
  have whole : chunks.map cstr = chunks :=
    (List.map_congr_left fun chunk member => cstr_of_nul_free chunk (free chunk member)).trans
      (List.map_id chunks)
  have cut := cut_iff_lines lines chunks each split
  rw [ran, whole]
  constructor
  · exact cut
  · intro cutThere
    rw [cut.mpr cutThere]

end Reads

section Samples

/-- Two commands of a client that does not wait for the first answer. -/
def twoLines : List Bytes := [ascii "SET a 1\r\n", ascii "SET b 2\r\n"]

theorem two_lines_each : ∀ line ∈ twoLines, Line line := by
  intro line member
  simp only [twoLines, List.mem_cons, List.not_mem_nil, or_false] at member
  rcases member with rfl | rfl
  · exact ⟨⟨ascii "SET a 1", Undivided.of_free cr lf (by decide), by decide⟩, by decide⟩
  · exact ⟨⟨ascii "SET b 2", Undivided.of_free cr lf (by decide), by decide⟩, by decide⟩

theorem one_client_handles : Handles handleClientMessage 7 oneClient :=
  Or.inr ⟨rfl, by decide⟩

/-- Read one by one, both reach `execute_command`. -/
theorem separate_reads_pass_lines :
    (readChunks handleClientMessage (fun _ => calm 0) 7 0 twoLines oneClient).2 = twoLines :=
  (inputs_are_lines_iff handleClientMessage 7 oneClient one_client_reachable one_client_handles
    (fun _ => calm 0) twoLines twoLines two_lines_each rfl (by decide) (by decide)).1.mpr two_lines_each

/-- Read together, they are one input for either handler, and the second is lost. -/
theorem pipelined_read_passes_one :
    (readChunks handleClient (fun _ => calm 0) 7 0 [twoLines.flatten] oneClient).2 ≠ twoLines ∧
      (readChunks handleClientMessage (fun _ => calm 0) 7 0 [twoLines.flatten] oneClient).2 ≠
        twoLines ∧
      mapping (readChunks handleClient (fun _ => calm 0) 7 0 [twoLines.flatten] oneClient).1.db
          (ascii "b") ≠
        mapping (readChunks handleClient (fun _ => calm 0) 7 0 twoLines oneClient).1.db (ascii "b") := by
  decide +kernel

end Samples

end CrimsonCache.InputFraming
