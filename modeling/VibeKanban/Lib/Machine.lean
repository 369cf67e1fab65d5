import Mathlib.Logic.Basic

/-! Runs of a machine that may refuse an event, in which every step meets a condition. -/
namespace VibeKanban.Lib

universe u v

variable {σ : Type u} {ε : Type v}

/-- A run by a list of events, each of them accepted and meeting the condition where it is taken. -/
inductive Run (step : σ → ε → Option σ) (ok : σ → ε → Prop) : σ → List ε → σ → Prop where
  | nil (s : σ) : Run step ok s [] s
  | cons {s mid s' : σ} {event : ε} {rest : List ε} (hok : ok s event)
      (hstep : step s event = some mid) (hrest : Run step ok mid rest s') :
      Run step ok s (event :: rest) s'

namespace Run
variable {step : σ → ε → Option σ} {ok : σ → ε → Prop} {s s' : σ} {events : List ε}

/-- What every step keeps holds after a run. -/
theorem invariant {I : σ → Prop}
    (hkeep : ∀ s event s', I s → ok s event → step s event = some s' → I s')
    (h : Run step ok s events s') (hs : I s) : I s' := by
  induction h with
  | nil _ => exact hs
  | cons hok hstep _ ih => exact ih (hkeep _ _ _ hs hok hstep)

/-- One more step behind a run. -/
theorem concat {s'' : σ} {event : ε} (h : Run step ok s events s') (hok : ok s' event)
    (hstep : step s' event = some s'') : Run step ok s (events ++ [event]) s'' := by
  induction h with
  | nil s => exact .cons hok hstep (.nil s'')
  | cons hfirst hmid _ ih => exact .cons hfirst hmid (ih hok hstep)

theorem weaken {ok' : σ → ε → Prop} (hweaker : ∀ s event, ok s event → ok' s event)
    (h : Run step ok s events s') : Run step ok' s events s' := by
  induction h with
  | nil s => exact .nil s
  | cons hok hstep _ ih => exact .cons (hweaker _ _ hok) hstep ih

/-- Running the machine is a run without conditions. -/
theorem of_foldlM (h : events.foldlM step s = some s') :
    Run step (fun _ _ => True) s events s' := by
  induction events generalizing s with
  | nil =>
    obtain rfl := Option.some.inj h
    exact .nil s
  | cons event rest ih =>
    rw [List.foldlM_cons] at h
    obtain ⟨mid, hstep, hrest⟩ := Option.bind_eq_some_iff.mp h
    exact .cons trivial hstep (ih hrest)

end Run

end VibeKanban.Lib
