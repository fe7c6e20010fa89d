import CrimsonCache.ReplicaFraming
import CrimsonCache.ReplicaPast

/-!
A failover. The primary is gone, and a client makes a primary of the replica, which goes on
from a moment of the other's past: one history, of which the end of the first part is lost.
-/

namespace CrimsonCache.Failovers

open CString Dictionary DeadlineMap Replies Transaction Replication Tokenizer ServerState DataCommands Commands
  TransactionSteps Connections ReplicationThread ServerRuns WriteEffects AppliedWrites StepRuns Keyspace
  KeyIsolation UntimedKeys Promotion ReplicaFraming ReplicaLines ReplicaPast Footprints Runs

section Keys

theorem exists_agrees (clock : Nat → Nat) (keys : List Bytes) (left right : Mapping) (key : Bytes)
    (same : left key = right key) : existsMap clock keys left key = existsMap clock keys right key := by
  induction keys generalizing clock left right with
  | nil => exact same
  | cons first rest ih =>
      refine ih (fun index => clock (index + 1)) _ _ ?_
      by_cases here : key = first
      · subst here
        have agree : Agree (fun other => other = key) left right := fun other here => here ▸ same
        exact settle_local left right agree _ key rfl key rfl
      · rw [settle_other _ left _ key here, settle_other _ right _ key here, same]

/-- Apart from DEL and EXISTS a command names one key at most. -/
theorem one_key (argv : List Bytes) (command : Command) (del : command ≠ .del) (exist : command ≠ .exist) :
    ∀ key ∈ handlerKeys argv command, key = arg argv 1 := by
  cases command with
  | del => exact absurd rfl del
  | exist => exact absurd rfl exist
  | set | get | expire | ttl | incr | ping | save | bgsave | replicaof | role | replconf | multi | exec | discard | subscribe
  | unsubscribe | publish => simp [handlerKeys]

/-- What a handler leaves in a key depends on what it found there. -/
theorem handler_agrees (env : Env) (argv : List Bytes) (command : Command) (left right : Mapping)
    (key : Bytes) (same : left key = right key) :
    handlerMap env argv left command key = handlerMap env argv right command key := by
  by_cases del : command = .del
  · simp only [del, handlerMap, writeMap, del_map_eq, same]
  · by_cases exist : command = .exist
    · subst exist
      exact exists_agrees env.clock argv.tail left right key same
    · by_cases named : key ∈ handlerKeys argv command
      · have only := one_key argv command del exist
        have inside : ∀ other ∈ handlerKeys argv command, other = key := fun other member =>
          (only other member).trans (only key named).symm
        exact (handler_local env argv command inside left right (fun _ here => here ▸ same)).1 key rfl
      · rw [handler_apart env argv command left key named, handler_apart env argv command right key named, same]

theorem words_agree (env : Env) (words : List Bytes) (left right : Mapping) (key : Bytes)
    (same : left key = right key) : applyWords env words left key = applyWords env words right key := by
  simp only [applyWords]
  cases commands.find? (·.name = arg (lower words) 0) with
  | none => exact same
  | some row =>
      dsimp only
      split
      · exact same
      · exact handler_agrees env (lower words) row.command left right key same

/-- The command names keys of the region only. -/
def inside (region : Bytes → Bool) (said : Exchange) : Bool := (keysOf said.words).all region

/-- The machine works on a region by itself, and answers by it who asks for nothing else. -/
theorem step_local (region : Bytes → Bool) (step : KeyStep) :
    Keeps actKeys (fun m step => (sayKeys m step).filter (inside region)) (fun key => region key = true) step := by
  intro left right agree
  cases step with
  | sweep now =>
      refine ⟨?_, rfl⟩
      intro key member
      simp only [actKeys, sweep, agree key member]
  | call env sock words =>
      refine ⟨fun key member => words_agree env words left right key (agree key member), ?_⟩
      by_cases all : (keysOf words).all region = true
      · have told := (words_local env words (fun key member => List.all_eq_true.mp all key member) left right
          agree).2
        simp only [sayKeys, told]
      · have unsaid : (inside region) ∘ (fun reply => (⟨sock, words, reply⟩ : Exchange)) =
            fun _ => false := by
          funext reply
          simpa [inside] using all
        simp only [sayKeys, List.filter_map, unsaid]
        simp

end Keys

section Primaries

variable {server : Server} (wf : Wellformed server) (standing : Standing server) (step : ServerStep)

include wf standing in
/-- A primary that nobody makes a replica stays one, and all that it executes is sent by clients. -/
theorem primary_stays (leads : (clientOrders server step).getLast? ≠ some .follow) :
    Standing (next server step) ∧
      ∀ env sock words, .call env sock words ∈ keySteps server step → 0 ≤ sock := by
  by_cases apart : ∀ oracle received connect, step ≠ .replication oracle received connect
  · constructor
    · have ordered := step_ordered ⟨server, fun _ => .head⟩ step apart
      simp only [clientOrders] at leads
      cases last : (stepOrders ⟨server, fun _ => .head⟩ (.serve step)).getLast? with
      | none =>
          rw [last] at ordered
          exact standing_link server _ ordered standing
      | some order =>
          rw [last] at ordered leads
          cases order with
          | promote => exact ordered
          | follow => exact absurd rfl leads
    · intro env sock words member
      cases step with
      | connect | sweep | autoSave => simp [keySteps, stepRuns] at member
      | replication oracle received connect => exact absurd rfl (apart oracle received connect)
      | receive oracle fd chunk =>
          have served := serve_attended oracle fd chunk server
          simp only [keySteps, stepRuns] at member
          cases found : attended fd server with
          | none => simp [found] at member
          | some client =>
              simp only [found] at served member
              have connected := wf.positive client served.1
              split at member
              · simp at member
              · obtain ⟨run, _, same⟩ := List.mem_map.mp member
                simp only [runStep, KeyStep.call.injEq] at same
                exact same.2.1 ▸ connected
  · push Not at apart
    obtain ⟨oracle, received, connect, rfl⟩ := apart
    constructor
    · simpa only [next, stepServer, replicationThread, standing.1] using standing
    · intro env sock words member
      simp [keySteps, stepRuns, standing.1] at member

/-- A client makes a primary of the server. -/
theorem promoted_stands (promotes : (clientOrders server step).getLast? = some .promote) :
    Standing (next server step) := by
  have apart : ∀ oracle received connect, step ≠ .replication oracle received connect := by
    rintro oracle received connect rfl
    simp [clientOrders, stepOrders] at promotes
  have ordered := step_ordered ⟨server, fun _ => .head⟩ step apart
  rw [clientOrders] at promotes
  rwa [promotes] at ordered

/-- The kernel does its part, and no client makes a replica of the server. -/
def Leads (server : Server) (step : ServerStep) : Prop :=
  Possible server step ∧ (clientOrders server step).getLast? ≠ some .follow

theorem primary_run (start : Server) (wf : Wellformed start) (standing : Standing start) (steps : List ServerStep)
    (admitted : Admitted Leads next start steps) :
    Standing (run next start steps) ∧
      ∀ env sock words, .call env sock words ∈ outputs next keySteps start steps → 0 ≤ sock := by
  induction steps generalizing start with
  | nil => exact ⟨standing, by simp [outputs]⟩
  | cons step rest ih =>
      obtain ⟨⟨possible, leads⟩, later⟩ := admitted
      obtain ⟨stays, sent⟩ := primary_stays wf standing step leads
      obtain ⟨reached, others⟩ := ih (next start step) (next_wellformed start step wf possible) stays later
      refine ⟨reached, fun env sock words member => ?_⟩
      rcases List.mem_append.mp member with now | later
      · exact sent env sock words now
      · exact others env sock words later

end Primaries

section Takeover

variable {region : Bytes → Bool} {fd : Int}

end Takeover

section Example

set_option maxRecDepth 4000

def takeover : ServerStep := .receive (calm 7) 7 (ascii "REPLICAOF NO ONE\r\n")

def counting : List ServerStep := [.receive (calm 8) 7 (ascii "INCR k\r\n")]

theorem counting_leads :
    Admitted Leads next (next (run (nextPair 9) linked firstHalf).replica takeover) counting :=
  ⟨⟨⟨by decide, by decide⟩, by decide⟩, trivial⟩

theorem takeover_allocates : ∀ step ∈ takeover :: counting, Allocating step := by
  intro step member
  simp only [counting, List.mem_cons, List.not_mem_nil, or_false] at member
  rcases member with rfl | rfl
  · exact calm_allocates 7
  · exact calm_allocates 8

end Example

end CrimsonCache.Failovers
