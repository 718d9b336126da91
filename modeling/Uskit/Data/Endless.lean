import Mathlib.Data.Fintype.Pigeonhole
import Mathlib.Data.Set.Finite.List
import Mathlib.Logic.Hydra
import Mathlib.Order.WellFounded
import Uskit.Data.Machine

namespace Uskit.Data

/-! Runs that never end: of machines, of machines whose steps replace one task by
others, and in graphs with finitely many sources. -/

namespace Machine

variable {σ : Type u} {ℓ : Type v} {step : Machine σ ℓ} {allowed : ℓ → Prop}

/-- A run of allowed labels that goes on for ever. -/
def Endless (step : Machine σ ℓ) (allowed : ℓ → Prop) (start : σ) : Prop :=
  ∃ states : Nat → σ, states 0 = start ∧
    ∀ n, ∃ label, allowed label ∧ step (states n) label = some (states (n + 1))

theorem Endless.of_kept {good : σ → Prop} {start : σ} (hstart : good start)
    (hstep : ∀ state, good state →
      ∃ label next, allowed label ∧ step state label = some next ∧ good next) :
    Endless step allowed start := by
  choose label next hallowed hnext hgood using hstep
  let following (state : { state // good state }) : { state // good state } :=
    ⟨next state.1 state.2, hgood state.1 state.2⟩
  let states (n : Nat) : { state // good state } := following^[n] ⟨start, hstart⟩
  have hsucc : ∀ n, (states (n + 1)).1 = next (states n).1 (states n).2 := fun n =>
    congrArg Subtype.val (Function.iterate_succ_apply' following n _)
  refine ⟨fun n => (states n).1, rfl, fun n => ?_⟩
  refine ⟨label (states n).1 (states n).2, hallowed _ _, ?_⟩
  simp only [hsucc]
  exact hnext _ _

theorem not_endless_of_acc {r : σ → σ → Prop} {start : σ} (hacc : Acc r start)
    (hstep : ∀ {state label next}, allowed label → step state label = some next →
      r next state) : ¬ Endless step allowed start := by
  intro hendless
  obtain ⟨states, hstart, hsteps⟩ := hendless
  refine not_acc_iff_exists_descending_chain.mpr ⟨states, hstart, fun n => ?_⟩ hacc
  obtain ⟨label, hallowed, hnext⟩ := hsteps n
  exact hstep hallowed hnext

/-- A machine that replaces a task by lower ones comes to an end. -/
theorem not_endless_of_tasks {τ : Type w} {lower : τ → τ → Prop} [Std.Irrefl lower]
    {start : σ} (tasks : σ → Multiset τ)
    (hacc : ∀ task ∈ tasks start, Acc lower task)
    (hstep : ∀ {state label next}, allowed label → step state label = some next →
      Relation.CutExpand lower (tasks next) (tasks state)) :
    ¬ Endless step allowed start := by
  have hstart : Acc (Relation.CutExpand lower) (tasks start) :=
    Relation.acc_of_singleton fun task htask => (hacc task htask).cutExpand
  exact not_endless_of_acc (InvImage.accessible tasks hstart) hstep

end Machine

namespace Graph

variable {κ : Type u} {edge : κ → κ → Prop}

/-- No node that is reached from `start` reaches itself. -/
def AcyclicFrom (edge : κ → κ → Prop) (start : κ) : Prop :=
  ∀ node, Relation.ReflTransGen edge start node → ¬ Relation.TransGen edge node node

theorem transGen_of_path {path : Nat → κ}
    (hpath : ∀ n, edge (path n) (path (n + 1))) {m n : Nat} (hlt : m < n) :
    Relation.TransGen edge (path m) (path n) := by
  induction n, hlt using Nat.le_induction with
  | base => exact .single (hpath m)
  | succ n _ ih => exact ih.tail (hpath n)

theorem reaches_of_path {path : Nat → κ}
    (hpath : ∀ n, edge (path n) (path (n + 1))) (n : Nat) :
    Relation.ReflTransGen edge (path 0) (path n) := by
  induction n with
  | zero => exact .refl
  | succ n ih => exact ih.tail (hpath n)

/-- With finitely many sources, a graph without a cycle has no endless path. -/
theorem acc_of_acyclic {sources : List κ} {start : κ}
    (hsources : ∀ {first second}, edge first second → first ∈ sources)
    (hacyclic : AcyclicFrom edge start) :
    Acc (fun second first => edge first second) start := by
  by_contra hnot
  obtain ⟨path, rfl, hpath⟩ := not_acc_iff_exists_descending_chain.mp hnot
  -- Two places of the path are one node, as there are finitely many.
  have hfinite : Finite { node // node ∈ sources } := sources.finite_toSet.to_subtype
  let place (n : Nat) : { node // node ∈ sources } := ⟨path n, hsources (hpath n)⟩
  obtain ⟨m, n, hne, hsame⟩ := Finite.exists_ne_map_eq_of_infinite place
  have hsame : path m = path n := congrArg Subtype.val hsame
  rcases Nat.lt_or_gt_of_ne hne with hlt | hlt
  · apply hacyclic (path m) (reaches_of_path hpath m)
    have hcycle := transGen_of_path hpath hlt
    rwa [← hsame] at hcycle
  · apply hacyclic (path n) (reaches_of_path hpath n)
    have hcycle := transGen_of_path hpath hlt
    rwa [hsame] at hcycle

/-- The nodes from which a cycle through `node` is reached. -/
theorem edge_to_cycle {start node : κ} (hreach : Relation.ReflTransGen edge start node)
    (hcycle : Relation.TransGen edge node node) :
    ∃ next, edge start next ∧ Relation.ReflTransGen edge next node := by
  cases hreach.cases_head with
  | inl heq =>
      subst heq
      obtain ⟨next, hedge, hrest⟩ := Relation.TransGen.head'_iff.mp hcycle
      exact ⟨next, hedge, hrest⟩
  | inr hhead => exact hhead

end Graph

end Uskit.Data
