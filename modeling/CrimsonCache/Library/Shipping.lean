import CrimsonCache.Library.Runs
import Mathlib.Data.List.Infix

/-!
A leader that logs what it does. Wherever the log is cut, the steps of the leader
can be cut so that redoing the front of the log shows what the leader showed there.
-/

namespace Shipping

open Runs

universe u v w x
variable {State : Type u} {Step : Type v} {Entry : Type w} {View : Type x}
variable (act : State → Step → State) (view : State → View) (redo : View → Entry → View)

/-- The log of the leader's steps. A step that is logged does to the view what redoing its entry
    does, and one that is not leaves the view. -/
inductive Logs : State → List Step → List Entry → Prop where
  | nil (state : State) : Logs state [] []
  | silent {state : State} {step : Step} {steps : List Step} {log : List Entry}
      (leaves : view (act state step) = view state) (later : Logs (act state step) steps log) :
      Logs state (step :: steps) log
  | logged {state : State} {step : Step} {entry : Entry} {steps : List Step} {log : List Entry}
      (done : view (act state step) = redo (view state) entry) (later : Logs (act state step) steps log) :
      Logs state (step :: steps) (entry :: log)

variable {act view redo} {start : State} {steps more : List Step} {log entries : List Entry}

theorem Logs.append (first : Logs act view redo start steps log)
    (second : Logs act view redo (run act start steps) more entries) :
    Logs act view redo start (steps ++ more) (log ++ entries) := by
  induction first with
  | nil => exact second
  | silent leaves _ ih => exact .silent leaves (ih second)
  | logged done _ ih => exact .logged done (ih second)

/-- The log accounts for the view. -/
theorem Logs.shows (logs : Logs act view redo start steps log) :
    view (run act start steps) = run redo (view start) log := by
  induction logs with
  | nil => rfl
  | silent leaves _ ih => exact ih.trans (by rw [leaves])
  | logged done _ ih => exact ih.trans (by rw [done, run, run, List.foldl_cons])

/-- Where the log is cut, so are the steps. -/
theorem Logs.cut {back : List Entry} (front : List Entry)
    (logs : Logs act view redo start steps (front ++ back)) :
    ∃ before after, steps = before ++ after ∧ Logs act view redo start before front ∧
      Logs act view redo (run act start before) after back := by
  generalize whole : front ++ back = log at logs
  induction logs generalizing front with
  | nil state =>
      obtain ⟨rfl, rfl⟩ := List.append_eq_nil_iff.mp whole
      exact ⟨[], [], rfl, .nil state, .nil state⟩
  | silent leaves _ ih =>
      obtain ⟨before, after, rfl, early, late⟩ := ih front whole
      exact ⟨_ :: before, after, rfl, .silent leaves early, late⟩
  | logged done later ih =>
      cases front with
      | nil =>
          obtain rfl : back = _ := whole
          exact ⟨[], _, rfl, .nil _, .logged done later⟩
      | cons entry front =>
          obtain ⟨rfl, rest⟩ := List.cons.inj whole
          obtain ⟨before, after, rfl, early, late⟩ := ih front rest
          exact ⟨_ :: before, after, rfl, .logged done early, late⟩

end Shipping
