import Mathlib.Data.List.Permutation
import CrimsonCache.ThreadLoops

/-!
When EXEC is isolated. A run of the threads in which no other thread gets to a
handler inside a loop of EXEC follows a serial run of the server; the serial
run is ahead by the rest of the loop while one is left.
-/

namespace CrimsonCache.ExecIsolation

open CString Replies Transaction Tokenizer ServerState Commands TransactionSteps Connections
  ServerRuns ExecLoop ThreadLoops Runs

section Simulation

/-- An input that starts a loop gets to a handler, that of EXEC. -/
theorem starts_handled (oracle : Oracle) (sock : Int) (chunk : Bytes) (server : Server)
    (cmds : List Bytes) (started : starts oracle sock chunk server = some cmds) :
    ∃ client, openClient sock server = some client ∧
      runsHandler (oracle []) sock (client.buffer ++ chunk) server = true := by
  obtain ⟨client, found, -, alone, queue⟩ := starts_cases oracle sock chunk server cmds started
  obtain ⟨nonempty, name⟩ := alone_tx _ _ alone
  have allocated : (oracle []).alloc .inputCopy = true ∧ (oracle []).alloc .tokens = true := by
    simp only [execQueue] at queue
    split at queue
    · simp at queue
    · split at queue
      case isTrue gate =>
        simp only [Bool.and_eq_true] at gate
        exact ⟨gate.1.1.2, gate.1.2⟩
      case isFalse => simp at queue
  have arity : (tokens (cstr (client.buffer ++ chunk))).length = 1 := by
    rw [← lower_length, alone]
    rfl
  have taken : commands.any (fun row => row.name = commandName (cstr (client.buffer ++ chunk)) &&
      !wrongArity row (tokens (cstr (client.buffer ++ chunk))).length) = true := by
    rw [name, arity]
    exact List.any_eq_true.mpr ⟨_, exec_row, by decide⟩
  have unqueued : (inTransaction sock server &&
      !isTxCommand (commandName (cstr (client.buffer ++ chunk)))) = false := by
    rw [name, exec_tx, Bool.not_true, Bool.and_false]
  refine ⟨client, found, ?_⟩
  simp only [runsHandler, allocated.1, allocated.2, nonempty, unqueued, taken, ne_eq,
    not_false_eq_true, decide_true, Bool.not_false, Bool.and_self]

/-- What the thread of the connection writes in a step. -/
def threadEvents (sock : Int) (threads : Threads) : ThreadStep → List Event
  | .connect _ _ => []
  | .receive oracle other chunk =>
      if other = sock then (stepThreads threads (.receive oracle other chunk)).2 else []
  | .proceed other => if other = sock then (stepThreads threads (.proceed other)).2 else []

def serialEvents (sock : Int) (server : Server) : ServerStep → List Event
  | .receive oracle other chunk =>
      if other = sock then (stepServer server (.receive oracle other chunk)).2 else []
  | _ => []

/-- Events of one thread. -/
def ofThread (sock : Int) (events : List Event) (other : Int) : List Event :=
  if other = sock then events else []

/-- The serial run is ahead by the rest of the one loop; `owed` is what the thread in it
    has still to write. -/
inductive Follows : Threads → Server → (Int → List Event) → Prop where
  | idle (server : Server) : Follows ⟨server, []⟩ server fun _ => []
  | looping (loop : Loop) (server : Server) (looping : Looping loop server) :
      Follows ⟨server, [loop]⟩ (complete loop server).1 (ofThread loop.sock (complete loop server).2)

theorem starts_looping (oracle : Oracle) (sock : Int) (chunk : Bytes) (server : Server)
    (ready : QueuesReady server.clientList) (cmds : List Bytes)
    (started : starts oracle sock chunk server = some cmds) :
    Looping ⟨sock, oracle, 0, cmds⟩ (modifyClient sock txCleanup server) := by
  obtain ⟨client, found, -, -, queue⟩ := starts_cases oracle sock chunk server cmds started
  obtain ⟨member, socket⟩ := open_client_mem sock server client found
  obtain ⟨holder, there, -, same⟩ := exec_queue_client oracle sock server cmds queue
  constructor
  · have sockets : (openClients (modifyClient sock txCleanup server)).map (·.socket) =
        (openClients server).map (·.socket) := by
      have listed := update_map (fun client => client.socket) sock txCleanup (fun _ => rfl)
        server.clientList
      simp only [openClients, modifyClient, List.map_append, listed]
    rw [sockets]
    exact List.mem_map.mpr ⟨client, member, socket⟩
  · exact cleaned_outside sock server
  · exact same ▸ ready.direct holder there

theorem run_next_looping (loop : Loop) (server : Server) (looping : Looping loop server)
    (later : Loop) (goes : (runNext loop server).1 = some later) :
    Looping later (runNext loop server).2.1 ∧ later.sock = loop.sock := by
  obtain ⟨sock, oracle, index, cmds⟩ := loop
  cases cmds with
  | nil => simp [runNext] at goes
  | cons cmd rest =>
      by_cases last : rest = []
      · simp [runNext, last] at goes
      · simp only [runNext, last, ↓reduceIte, Option.some.injEq] at goes ⊢
        subst goes
        have kept := (direct_execution (fun _ _ server => ⟨server, [], .unknown⟩)
          (oracle.inner index []) sock cmd server looping.outside
          (looping.direct cmd List.mem_cons_self)).1
        refine ⟨⟨?_, ?_, ?_⟩, rfl⟩
        · have same : openClients (executeCommandAt 0 (oracle.inner index) sock cmd server).server =
              openClients server := by
            have clients := kept.clientList
            have others := kept.unlisted
            simp only [openClients]
            rw [← clients, ← others]
            rfl
          rw [same]
          exact looping.present
        · exact (kept.inTransaction sock).trans looping.outside
        · exact fun other member => looping.direct other (List.mem_cons_of_mem cmd member)

/-- One command of a loop. -/
theorem run_next_follows (loop : Loop) (server : Server) (looping : Looping loop server) :
    ∃ owed, Follows ⟨(runNext loop server).2.1, (runNext loop server).1.toList⟩
        (complete loop server).1 owed ∧
      ∀ sock, ofThread loop.sock (runNext loop server).2.2 sock ++ owed sock =
        ofThread loop.sock (complete loop server).2 sock := by
  have whole := run_next_complete loop server
  cases goes : (runNext loop server).1 with
  | none =>
      rw [goes] at whole
      rw [whole]
      exact ⟨fun _ => [], .idle _, fun _ => List.append_nil _⟩
  | some later =>
      rw [goes] at whole
      obtain ⟨next, same⟩ := run_next_looping loop server looping later goes
      refine ⟨ofThread later.sock (complete later (runNext loop server).2.1).2, ?_, ?_⟩
      · rw [whole]
        exact .looping later _ next
      · intro sock
        rw [whole, same]
        by_cases own : sock = loop.sock <;> simp [ofThread, own]

theorem serve_threaded (oracle : Oracle) (sock : Int) (chunk : Bytes) (server : Server)
    (threaded : server.config.concurrencyModel = .threaded) :
    serve oracle sock chunk server = handleClient oracle sock chunk server := by
  simp only [serve, threaded]

/-- The step is a step of the serial run, or one that run has made already, and what it writes has
    the same order there. -/
def Matched (threads : Threads) (server : Server) (owed : Int → List Event) (step : ThreadStep) :
    Prop :=
  ∃ owed', Follows (nextThreads threads step) (run next server (serial [step])) owed' ∧
    Admitted Possible next server (serial [step]) ∧
    ∀ sock, threadEvents sock threads step ++ owed' sock =
      owed sock ++ outputs next (serialEvents sock) server (serial [step])

theorem connect_matched (threads : Threads) (server : Server) (owed : Int → List Event)
    (follows : Follows threads server owed) (ptr : Nat) (socket : Int)
    (steps : Steps threads (.connect ptr socket)) :
    Matched threads server owed (.connect ptr socket) := by
  cases follows with
  | idle server => exact ⟨fun _ => [], .idle _, ⟨steps, trivial⟩, fun _ => rfl⟩
  | looping loop inner looping =>
      obtain ⟨commutes, still⟩ := connect_commutes loop inner looping ptr socket steps.2.1
      have config := (complete_seats loop inner looping).2.2
      have after := Follows.looping loop _ still
      rw [commutes, ← config] at after
      refine ⟨ofThread loop.sock (complete loop inner).2, ?_, ⟨?_, trivial⟩, ?_⟩
      · simpa [nextThreads, stepThreads, config, serial, run, next, stepServer] using after
      · obtain ⟨positive, freshSocket, freshPtr⟩ := steps
        refine ⟨positive, ?_, ?_⟩
        · rwa [complete_open loop inner looping (·.socket) fun _ => ⟨rfl, rfl⟩]
        · rwa [complete_open loop inner looping (·.ptr) fun _ => ⟨rfl, rfl⟩]
      · intro sock
        simp [threadEvents, outputs, serial, serialEvents]

/-- With no loop running, an input is the serial run's own, or starts the loop that run completes
    at once. -/
theorem idle_receive_matched (server : Server) (wf : Wellformed server)
    (threaded : server.config.concurrencyModel = .threaded) (oracle : Oracle) (other : Int)
    (chunk : Bytes) (steps : Steps ⟨server, []⟩ (.receive oracle other chunk)) :
    Matched ⟨server, []⟩ server (fun _ => []) (.receive oracle other chunk) := by
  have served := serve_threaded oracle other chunk server threaded
  cases started : starts oracle other chunk server with
  | none =>
      refine ⟨fun _ => [], ?_, ⟨steps.1, trivial⟩, ?_⟩
      · simp only [nextThreads, stepThreads, started, serial, List.filterMap_cons,
          List.filterMap_nil, run, List.foldl_cons, List.foldl_nil, next, stepServer, served]
        exact .idle _
      · intro sock
        simp only [threadEvents, stepThreads, started, serial, List.filterMap_cons,
          List.filterMap_nil, outputs, serialEvents, stepServer, served, List.append_nil,
          List.nil_append]
  | some cmds =>
      have looping := starts_looping oracle other chunk server wf.ready cmds started
      obtain ⟨state, events⟩ := starts_complete oracle other chunk server cmds started
      obtain ⟨owed, after, written⟩ := run_next_follows _ _ looping
      refine ⟨owed, ?_, ⟨steps.1, trivial⟩, ?_⟩
      · simp only [nextThreads, stepThreads, started, serial, List.filterMap_cons,
          List.filterMap_nil, run, List.foldl_cons, List.foldl_nil, next, stepServer, served,
          state, List.append_nil]
        exact after
      · intro sock
        have rest := written sock
        simp only [threadEvents, stepThreads, started, serial, List.filterMap_cons,
          List.filterMap_nil, outputs, serialEvents, stepServer, served, events,
          List.append_nil, List.nil_append]
        by_cases own : other = sock
        · simp only [ofThread, own, ↓reduceIte] at rest ⊢
          rw [List.cons_append, rest]
        · have apart : sock ≠ other := Ne.symm own
          simpa [ofThread, own, apart] using rest

/-- An input that no handler sees starts no loop: an EXEC gets to a handler. -/
theorem quiet_starts_nothing (oracle : Oracle) (other : Int) (chunk : Bytes) (inner : Server)
    (quiet : ∀ client, openClient other inner = some client →
      runsHandler (oracle []) other (client.buffer ++ chunk) inner = false) :
    starts oracle other chunk inner = none := by
  cases starting : starts oracle other chunk inner with
  | none => rfl
  | some cmds =>
      obtain ⟨client, found, handled⟩ := starts_handled oracle other chunk inner cmds starting
      simp [quiet client found] at handled

/-- While a loop runs, an input of another connection commutes with what is left of it. -/
theorem looping_receive_matched (loop : Loop) (inner : Server) (looping : Looping loop inner)
    (threaded : (complete loop inner).1.config.concurrencyModel = .threaded) (oracle : Oracle)
    (other : Int) (chunk : Bytes) (steps : Steps ⟨inner, [loop]⟩ (.receive oracle other chunk))
    (undisturbed : Undisturbed ⟨inner, [loop]⟩ (.receive oracle other chunk)) :
    Matched ⟨inner, [loop]⟩ (complete loop inner).1 (ofThread loop.sock (complete loop inner).2)
      (.receive oracle other chunk) := by
  have apart : other ≠ loop.sock := Ne.symm (steps.2 loop List.mem_cons_self)
  obtain ⟨input, quiet⟩ := undisturbed.resolve_left (by simp)
  obtain ⟨events, commutes, still⟩ := handlerless_commutes loop inner looping oracle other chunk
    apart input quiet
  have served := serve_threaded oracle other chunk _ threaded
  have config := (complete_seats loop inner looping).2.2
  have after := Follows.looping loop _ still
  rw [commutes] at after
  have started := quiet_starts_nothing oracle other chunk inner quiet
  refine ⟨ofThread loop.sock (complete loop inner).2, ?_, ⟨?_, trivial⟩, ?_⟩
  · simp only [nextThreads, stepThreads, started, serial, List.filterMap_cons,
      List.filterMap_nil, run, List.foldl_cons, List.foldl_nil, next, stepServer, served]
    exact after
  · obtain ⟨opened, short⟩ := steps.1
    refine ⟨?_, ?_⟩
    · rwa [complete_open loop inner looping (·.socket) fun _ => ⟨rfl, rfl⟩]
    · rwa [config]
  · intro sock
    simp only [threadEvents, stepThreads, started, serial, List.filterMap_cons,
      List.filterMap_nil, outputs, serialEvents, stepServer, served, events, List.append_nil]
    by_cases own : other = sock
    · have differs : sock ≠ loop.sock := own ▸ apart
      simp [ofThread, own, differs]
    · simp [own]

theorem proceed_matched (threads : Threads) (server : Server) (owed : Int → List Event)
    (follows : Follows threads server owed) (other : Int) (steps : Steps threads (.proceed other))
    (undisturbed : Undisturbed threads (.proceed other)) :
    Matched threads server owed (.proceed other) := by
  cases follows with
  | idle server => exact absurd steps (by simp [Steps])
  | looping loop inner looping =>
      have own : loop.sock = other := by simpa [Undisturbed] using undisturbed
      subst own
      obtain ⟨owed, after, written⟩ := run_next_follows loop inner looping
      refine ⟨owed, ?_, trivial, ?_⟩
      · simpa [nextThreads, stepThreads, serial, run] using after
      · intro sock
        have same := written sock
        simpa [threadEvents, stepThreads, serial, outputs, ofThread, eq_comm] using same

theorem follows_step (threads : Threads) (server : Server) (owed : Int → List Event)
    (follows : Follows threads server owed) (wf : Wellformed server)
    (threaded : server.config.concurrencyModel = .threaded) (step : ThreadStep)
    (steps : Steps threads step) (undisturbed : Undisturbed threads step) :
    Matched threads server owed step := by
  cases step with
  | connect ptr socket => exact connect_matched threads server owed follows ptr socket steps
  | receive oracle other chunk =>
      cases follows with
      | idle server => exact idle_receive_matched server wf threaded oracle other chunk steps
      | looping loop inner looping =>
          exact looping_receive_matched loop inner looping threaded oracle other chunk steps undisturbed
  | proceed other => exact proceed_matched threads server owed follows other steps undisturbed

theorem follows_run (steps : List ThreadStep) (threads : Threads) (server : Server)
    (owed : Int → List Event) (follows : Follows threads server owed) (wf : Wellformed server)
    (threaded : server.config.concurrencyModel = .threaded)
    (admitted : Admitted (fun threads step => Steps threads step ∧ Undisturbed threads step)
      nextThreads threads steps) :
    ∃ owed', Follows (run nextThreads threads steps) (run next server (serial steps)) owed' ∧
      Admitted Possible next server (serial steps) ∧
      ∀ sock, outputs nextThreads (threadEvents sock) threads steps ++ owed' sock =
        owed sock ++ outputs next (serialEvents sock) server (serial steps) := by
  induction steps generalizing threads server owed with
  | nil => exact ⟨owed, follows, trivial, fun sock => by simp [outputs, serial]⟩
  | cons step rest ih =>
      rcases admitted with ⟨⟨possible, undisturbed⟩, later⟩
      obtain ⟨between, reached, allowed, written⟩ := follows_step threads server owed follows wf threaded
        step possible undisturbed
      have preserved : ∀ state step, Wellformed state ∧ state.config = server.config →
          Possible state step →
          Wellformed (next state step) ∧ (next state step).config = server.config := by
        rintro state step ⟨wf, same⟩ possible
        exact ⟨next_wellformed state step wf possible, (next_config state step wf possible).trans same⟩
      obtain ⟨wellformed, same⟩ := run_invariant Possible next preserved server ⟨wf, rfl⟩ _ allowed
      have still : (run next server (serial [step])).config.concurrencyModel = .threaded := by
        rw [same]
        exact threaded
      obtain ⟨last, ends, admitted, others⟩ := ih _ _ between reached wellformed still later
      have split : serial (step :: rest) = serial [step] ++ serial rest := by
        simp only [serial, ← List.filterMap_append, List.singleton_append]
      refine ⟨last, ?_, ?_, ?_⟩
      · rw [split, run_append]
        exact ends
      · rw [split, admitted_append]
        exact ⟨allowed, admitted⟩
      · intro sock
        rw [split, outputs_append, ← List.append_assoc, ← written sock, List.append_assoc,
          ← others sock, ← List.append_assoc]
        rfl

/-- While no thread is disturbed in the loop of EXEC, the threads do what the server does
    that runs every input at once, in the order in which they were read: the states agree,
    and every thread writes the same. -/
theorem exec_is_isolated (server : Server) (reachable : Reachable server)
    (threaded : server.config.concurrencyModel = .threaded) (steps : List ThreadStep)
    (admitted : Admitted (fun threads step => Steps threads step ∧ Undisturbed threads step)
      nextThreads ⟨server, []⟩ steps)
    (ended : (run nextThreads ⟨server, []⟩ steps).loops = []) :
    Admitted Possible next server (serial steps) ∧
      (run nextThreads ⟨server, []⟩ steps).server = run next server (serial steps) ∧
      ∀ sock, outputs nextThreads (threadEvents sock) ⟨server, []⟩ steps =
        outputs next (serialEvents sock) server (serial steps) := by
  obtain ⟨owed, follows, allowed, written⟩ := follows_run steps ⟨server, []⟩ server (fun _ => [])
    (.idle server) (reachable_wellformed server reachable) threaded admitted
  generalize run nextThreads ⟨server, []⟩ steps = threads at ended follows
  generalize run next server (serial steps) = after at follows
  cases follows with
  | idle => exact ⟨allowed, rfl, fun sock => by simpa using written sock⟩
  | looping => simp at ended

end Simulation

section Samples

/-- Two connections, the first with two GETs in its queue. -/
def waiting : Server :=
  run next oneClient (.connect 2 8 :: ["MULTI\r\n", "GET k\r\n", "GET k\r\n"].map fun input =>
    .receive (calm 0) 7 (ascii input))

theorem waiting_reachable : Reachable waiting := by
  obtain ⟨start, steps, starts, admitted, same⟩ := one_client_reachable
  refine ⟨start, steps ++ .connect 2 8 :: ["MULTI\r\n", "GET k\r\n", "GET k\r\n"].map fun input =>
    .receive (calm 0) 7 (ascii input), starts, ?_, by rw [run_append, ← same]; rfl⟩
  rw [admitted_append, ← same]
  exact ⟨admitted, ⟨by omega, by decide, by decide⟩,
    ⟨by decide, by decide⟩, ⟨by decide, by decide⟩,
    ⟨by decide, by decide⟩, trivial⟩

def execInput : ThreadStep := .receive (calm 0) 7 (ascii "EXEC\r\n")

def setInput : ThreadStep := .receive (calm 0) 8 (ascii "SET k v\r\n")

/-- The SET comes behind the EXEC. -/
theorem waited_is_isolated :
    (run nextThreads ⟨waiting, []⟩ [execInput, .proceed 7, setInput]).server =
      run next waiting (serial [execInput, .proceed 7, setInput]) := by
  have inside : ∃ loop, (nextThreads ⟨waiting, []⟩ execInput).loops = [loop] ∧ loop.sock = 7 := by
    have one : ((nextThreads ⟨waiting, []⟩ execInput).loops.map (·.sock)) = [7] := by decide +kernel
    obtain ⟨loop, only, same⟩ := List.map_eq_singleton_iff.mp one
    exact ⟨loop, only, same⟩
  obtain ⟨loop, only, same⟩ := inside
  have outside : (nextThreads (nextThreads ⟨waiting, []⟩ execInput) (.proceed 7)).loops = [] := by
    decide +kernel
  have admitted : Admitted (fun threads step => Steps threads step ∧ Undisturbed threads step)
      nextThreads ⟨waiting, []⟩ [execInput, .proceed 7, setInput] := by
    refine ⟨⟨⟨⟨by decide +kernel, by decide +kernel⟩, by simp⟩, Or.inl rfl⟩, ⟨?_, ?_⟩, ⟨?_, ?_⟩, trivial⟩
    · exact ⟨loop, by rw [only]; exact List.mem_cons_self, same⟩
    · intro other member
      rw [only, List.mem_singleton] at member
      exact member ▸ same
    · exact ⟨⟨by decide +kernel, by decide +kernel⟩, by rw [outside]; simp⟩
    · exact Or.inl outside
  exact (exec_is_isolated waiting waiting_reachable (by decide +kernel) _ admitted (by decide +kernel)).2.1

/-- The SET comes between the GETs, which then see different values: no serial order has
    the replies of this run. -/
theorem set_disturbs_exec :
    Reachable waiting ∧ waiting.config.concurrencyModel = .threaded ∧
      Admitted Steps nextThreads ⟨waiting, []⟩ [execInput, setInput, .proceed 7] ∧
      (run nextThreads ⟨waiting, []⟩ [execInput, setInput, .proceed 7]).loops = [] ∧
      ¬ ∃ order : List ServerStep, order.Perm (serial [execInput, setInput, .proceed 7]) ∧
        outputs next (serialEvents 7) waiting order =
          outputs nextThreads (threadEvents 7) ⟨waiting, []⟩ [execInput, setInput, .proceed 7] := by
  have first : (nextThreads ⟨waiting, []⟩ execInput).loops.map (·.sock) = [7] := by decide +kernel
  have second : (nextThreads (nextThreads ⟨waiting, []⟩ execInput) setInput).loops.map (·.sock) =
      [7] := by decide +kernel
  refine ⟨waiting_reachable, by decide +kernel, ⟨?_, ?_, ?_, trivial⟩, by decide +kernel, ?_⟩
  · exact ⟨⟨by decide +kernel, by decide +kernel⟩, by simp⟩
  · refine ⟨⟨by decide +kernel, by decide +kernel⟩, fun loop member => ?_⟩
    have there := List.mem_map_of_mem (f := Loop.sock) member
    rw [first, List.mem_singleton] at there
    omega
  · have there : (7 : Int) ∈ (nextThreads (nextThreads ⟨waiting, []⟩ execInput) setInput).loops.map
        (·.sock) := by
      rw [second]
      exact List.mem_cons_self
    exact List.mem_map.mp there
  · rintro ⟨order, perm, same⟩
    have orders := List.mem_permutations'.mpr perm
    have both : (serial [execInput, setInput, .proceed 7]).permutations' =
        [serial [execInput, setInput], serial [setInput, execInput]] := rfl
    rw [both] at orders
    simp only [List.mem_cons, List.not_mem_nil, or_false] at orders
    rcases orders with rfl | rfl
    · exact absurd same (by decide +kernel)
    · exact absurd same (by decide +kernel)

end Samples

end CrimsonCache.ExecIsolation
