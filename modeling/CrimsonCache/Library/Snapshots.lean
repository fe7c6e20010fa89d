import CrimsonCache.Library.Runs

/-!
A volatile state with one snapshot behind it. The state moves on by itself; at
any moment it may be captured, a capture may be published later or be lost, and
a restart puts the published capture in place of the state. What is published is
always what the state once was, and never older than the last direct publication
unless an older capture was still under way.
-/

namespace Snapshots

open Runs

universe u v w
variable {State : Type u} {Act : Type v} {Time : Type w}

/-- The live state, the published one and the captures under way. -/
structure Held (State : Type u) where
  live : State
  kept : State
  captures : List State

inductive Move (Act : Type v) (Time : Type w) where
  | act (next : Act)
  | publish (time : Time)
  | capture
  | finish (index : Nat) (time : Time)
  | lose (index : Nat)
  | restart (time : Time)

variable (act : State → Act → State) (trim : Time → State → State)

def move (held : Held State) : Move Act Time → Held State
  | .act next => { held with live := act held.live next }
  | .publish time => { held with kept := trim time held.live }
  | .capture => { held with captures := held.captures ++ [held.live] }
  | .finish index time =>
      match held.captures[index]? with
      | none => held
      | some state =>
          { held with kept := trim time state, captures := held.captures.eraseIdx index }
  | .lose index => { held with captures := held.captures.eraseIdx index }
  | .restart time => { held with live := trim time held.kept }

/-- The states that were live at some moment of the run. -/
def Was (history : List (Held State × Move Act Time)) (state : State) : Prop :=
  ∃ pass ∈ history, pass.1.live = state

theorem Was.later {history : List (Held State × Move Act Time)} {state : State}
    (was : Was history state) (more : List (Held State × Move Act Time)) : Was (history ++ more) state := by
  obtain ⟨pass, member, same⟩ := was
  exact ⟨pass, List.mem_append_left more member, same⟩

/-- What is published is as it was at the start, or once was live; so is every capture. -/
structure Recorded (start : Held State) (history : List (Held State × Move Act Time))
    (held : Held State) : Prop where
  kept : held.kept = start.kept ∨ ∃ time state, Was history state ∧ held.kept = trim time state
  captures : ∀ state ∈ held.captures, Was history state

variable (start : Held State)

theorem move_recorded (history : List (Held State × Move Act Time)) (held : Held State)
    (next : Move Act Time) (recorded : Recorded trim start history held) :
    Recorded trim start (history ++ [(held, next)]) (move act trim held next) := by
  have now : Was (history ++ [(held, next)]) held.live :=
    ⟨(held, next), List.mem_append_right _ List.mem_cons_self, rfl⟩
  have kept : held.kept = start.kept ∨
      ∃ time state, Was (history ++ [(held, next)]) state ∧ held.kept = trim time state := by
    rcases recorded.kept with same | ⟨time, state, was, same⟩
    · exact .inl same
    · exact .inr ⟨time, state, was.later _, same⟩
  have captures : ∀ state ∈ held.captures, Was (history ++ [(held, next)]) state :=
    fun state member => (recorded.captures state member).later _
  cases next with
  | act next => exact ⟨kept, captures⟩
  | publish time => exact ⟨.inr ⟨time, held.live, now, rfl⟩, captures⟩
  | capture =>
      refine ⟨kept, ?_⟩
      intro state member
      rcases List.mem_append.mp member with old | new
      · exact captures state old
      · rwa [List.mem_singleton.mp new]
  | finish index time =>
      simp only [move]
      split
      case h_1 => exact ⟨kept, captures⟩
      case h_2 state found =>
        have member := List.mem_of_getElem? found
        exact ⟨.inr ⟨time, state, captures state member, rfl⟩,
          fun other inside => captures other (List.mem_of_mem_eraseIdx inside)⟩
  | lose index => exact ⟨kept, fun other inside => captures other (List.mem_of_mem_eraseIdx inside)⟩
  | restart time => exact ⟨kept, captures⟩

/-- What a run of moves has published was live after a prefix of it, or is what was there. -/
theorem published_past (idle : start.captures = []) (moves : List (Move Act Time)) :
    (run (move act trim) start moves).kept = start.kept ∨
      ∃ time before, before <+: moves ∧
        (run (move act trim) start moves).kept = trim time (run (move act trim) start before).live := by
  have recorded : Recorded trim start (trace (move act trim) start moves)
      (run (move act trim) start moves) :=
    @run_history _ _ (fun _ _ => True) (move act trim) (Recorded trim start)
      (fun history held next recorded _ => move_recorded act trim start history held next recorded)
      start ⟨.inl rfl, by simp [idle]⟩ moves
      (admitted_each (move act trim) (fun _ => True) start moves fun _ _ => trivial)
  rcases recorded.kept with same | ⟨time, state, ⟨pass, member, rfl⟩, same⟩
  · exact .inl same
  · obtain ⟨before, inside, reached⟩ := trace_reached (move act trim) start moves pass member
    refine .inr ⟨time, before, (List.prefix_append before [pass.2]).trans inside, ?_⟩
    rw [same, reached]

/-- After a publication with no capture under way, what is published is what was live then
    or later. -/
theorem published_or_later (first rest : List (Move Act Time)) (time : Time)
    (idle : (run (move act trim) start first).captures = []) :
    ∃ later before, first <+: before ∧ before <+: first ++ .publish time :: rest ∧
      (run (move act trim) start (first ++ .publish time :: rest)).kept =
        trim later (run (move act trim) start before).live := by
  rcases published_past act trim (move act trim (run (move act trim) start first) (.publish time)) idle
    rest with same | ⟨later, before, inside, same⟩
  · refine ⟨time, first, List.prefix_refl first, List.prefix_append first _, ?_⟩
    rw [run_append]
    exact same
  · refine ⟨later, first ++ .publish time :: before, List.prefix_append first _, ?_, ?_⟩
    · exact (List.prefix_append_right_inj first).mpr (List.cons_prefix_cons.mpr ⟨rfl, inside⟩)
    · rw [run_append, run_append]
      exact same

end Snapshots
