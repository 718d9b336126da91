import Mathlib.Data.List.Basic

namespace Uskit.Data

/-! Partial labelled machines.  A label with no successor is not enabled; a run
is a list of labels that are enabled one after another. -/

abbrev Machine (σ : Type u) (ℓ : Type v) := σ → ℓ → Option σ

namespace Machine

variable {σ : Type u} {ℓ : Type v} {step : Machine σ ℓ}

def run (step : Machine σ ℓ) : σ → List ℓ → Option σ
  | state, [] => some state
  | state, label :: labels => (step state label).bind (run step · labels)

/-- Every step of the run starts in a state where `guard` admits its label. -/
def Guarded (step : Machine σ ℓ) (guard : σ → ℓ → Prop) : σ → List ℓ → Prop
  | _, [] => True
  | state, label :: labels =>
      guard state label ∧
        ∀ next, step state label = some next → Guarded step guard next labels

@[simp] theorem run_nil (state : σ) : run step state [] = some state := rfl

theorem run_cons {state final : σ} {label : ℓ} {labels : List ℓ} :
    run step state (label :: labels) = some final ↔
      ∃ next, step state label = some next ∧
        run step next labels = some final := by
  simp [run, Option.bind_eq_some_iff]

theorem run_append (state : σ) (first second : List ℓ) :
    run step state (first ++ second) = (run step state first).bind (run step · second) := by
  induction first generalizing state with
  | nil => rfl
  | cons label labels ih =>
      rw [List.cons_append, run, run, Option.bind_assoc]
      congr 1
      funext next
      exact ih next

theorem run_invariant {inv : σ → Prop}
    (preserved : ∀ {state label next},
      inv state → step state label = some next → inv next)
    {state final : σ} {labels : List ℓ} (hinv : inv state)
    (hrun : run step state labels = some final) : inv final := by
  induction labels generalizing state with
  | nil =>
      obtain rfl : state = final := by simpa using hrun
      exact hinv
  | cons label labels ih =>
      obtain ⟨next, hstep, hrest⟩ := run_cons.mp hrun
      exact ih (preserved hinv hstep) hrest

theorem guarded_invariant {guard : σ → ℓ → Prop} {inv : σ → Prop}
    (preserved : ∀ {state label next},
      inv state → guard state label → step state label = some next → inv next)
    {state final : σ} {labels : List ℓ} (hinv : inv state)
    (hguarded : Guarded step guard state labels)
    (hrun : run step state labels = some final) : inv final := by
  induction labels generalizing state with
  | nil =>
      obtain rfl : state = final := by simpa using hrun
      exact hinv
  | cons label labels ih =>
      obtain ⟨next, hstep, hrest⟩ := run_cons.mp hrun
      exact ih (preserved hinv hguarded.1 hstep) (hguarded.2 next hstep) hrest

theorem Guarded.cons {guard : σ → ℓ → Prop} {state next : σ} {label : ℓ} {labels : List ℓ}
    (hguard : guard state label) (hstep : step state label = some next)
    (hrest : Guarded step guard next labels) :
    Guarded step guard state (label :: labels) := by
  refine ⟨hguard, fun other hother => ?_⟩
  obtain rfl := Option.some.inj (hstep.symm.trans hother)
  exact hrest

theorem Guarded.of_forall {guard : σ → ℓ → Prop} {state : σ} {labels : List ℓ}
    (hlabels : ∀ label ∈ labels, ∀ state, guard state label) :
    Guarded step guard state labels := by
  induction labels generalizing state with
  | nil => trivial
  | cons label labels ih =>
      refine ⟨hlabels label List.mem_cons_self state, fun next _ => ih ?_⟩
      exact fun other hother => hlabels other (.tail label hother)

theorem Guarded.of_labels {allowed : ℓ → Prop} {state : σ} {labels : List ℓ}
    (hlabels : ∀ label ∈ labels, allowed label) :
    Guarded step (fun _ => allowed) state labels :=
  of_forall fun label hlabel _ => hlabels label hlabel

end Machine

end Uskit.Data
