import Mathlib.Data.Set.Finite.Basic
import Mathlib.Data.Set.Finite.Lemmas
import Mathlib.Logic.Function.Iterate
import Mathlib.Logic.Relation

namespace Uskit.Data

/-! Loops: a turn goes on from a next state or returns. -/

abbrev Loop (σ : Type u) (β : Type v) := σ → σ ⊕ β

namespace Loop

variable {σ : Type u} {β : Type v} {turn : Loop σ β}

/-- The loop, for as many turns as there is fuel. -/
def run (turn : Loop σ β) : Nat → σ → Option β
  | 0, _ => none
  | fuel + 1, state =>
      match turn state with
      | .inl next => run turn fuel next
      | .inr result => some result

def GoesOn (turn : Loop σ β) (state next : σ) : Prop :=
  turn state = .inl next

abbrev Reaches (turn : Loop σ β) : σ → σ → Prop :=
  Relation.ReflTransGen (GoesOn turn)

def Returns (turn : Loop σ β) (state : σ) (result : β) : Prop :=
  ∃ last, Reaches turn state last ∧ turn last = .inr result

theorem goesOn_unique {state first second : σ} (hfirst : GoesOn turn state first)
    (hsecond : GoesOn turn state second) : first = second :=
  Sum.inl.inj (hfirst.symm.trans hsecond)

theorem Returns.of_reaches {state middle : σ} {result : β}
    (hreaches : Reaches turn state middle)
    (hreturns : Returns turn middle result) : Returns turn state result := by
  obtain ⟨last, hlast, hresult⟩ := hreturns
  exact ⟨last, hreaches.trans hlast, hresult⟩

/-- What a loop returns it returns from every state it passes. -/
theorem Returns.along {state middle : σ} {result : β}
    (hreturns : Returns turn state result)
    (hreaches : Reaches turn state middle) : Returns turn middle result := by
  induction hreaches with
  | refl => exact hreturns
  | tail _ hstep ih =>
      obtain ⟨last, hlast, hresult⟩ := ih
      cases hlast.cases_head with
      | inl hhere =>
          subst hhere
          rw [GoesOn, hresult] at hstep
          cases hstep
      | inr hnext =>
          obtain ⟨next, hgoes, hrest⟩ := hnext
          obtain rfl := goesOn_unique hgoes hstep
          exact ⟨last, hrest, hresult⟩

theorem Returns.of_return {state : σ} {first second : β}
    (hreturns : Returns turn state first) (hturn : turn state = .inr second) :
    first = second := by
  obtain ⟨last, hlast, hresult⟩ := hreturns
  cases hlast.cases_head with
  | inl hhere =>
      subst hhere
      exact Sum.inr.inj (hresult.symm.trans hturn)
  | inr hnext =>
      obtain ⟨next, hgoes, -⟩ := hnext
      rw [GoesOn, hturn] at hgoes
      cases hgoes

theorem Returns.unique {state : σ} {first second : β}
    (hfirst : Returns turn state first) (hsecond : Returns turn state second) :
    first = second := by
  obtain ⟨last, hlast, hresult⟩ := hsecond
  exact (hfirst.along hlast).of_return hresult

/-- A loop does not return where an invariant keeps it going. -/
theorem not_returns (inv : σ → Prop)
    (keeps : ∀ state, inv state → ∃ next, turn state = .inl next ∧ inv next)
    {state : σ} (hinv : inv state) (result : β) : ¬ Returns turn state result := by
  intro hreturns
  obtain ⟨last, hlast, hresult⟩ := hreturns
  have hinvLast : inv last := by
    clear hresult
    induction hlast with
    | refl => exact hinv
    | tail _ hstep ih =>
        obtain ⟨next, hnext, hkept⟩ := keeps _ ih
        obtain rfl := goesOn_unique hnext hstep
        exact hkept
  obtain ⟨next, hnext, -⟩ := keeps last hinvLast
  rw [hresult] at hnext
  cases hnext

/-- A loop follows another through `image`, but where that returns `escape`. -/
theorem Returns.follow {τ : Type w} {follower : Loop τ β} {image : σ → τ}
    {escape : β}
    (hturn : ∀ state, turn state = .inr escape ∨
      follower (image state) = (turn state).map image id)
    {state : σ} {result : β} (hreturns : Returns turn state result) :
    result = escape ∨ Returns follower (image state) result := by
  obtain ⟨last, hreaches, hresult⟩ := hreturns
  induction hreaches using Relation.ReflTransGen.head_induction_on with
  | refl =>
      rcases hturn last with hescape | hfollows
      · exact .inl (Sum.inr.inj (hresult.symm.trans hescape))
      · exact .inr ⟨_, .refl, by rw [hfollows, hresult]; rfl⟩
  | @head first next hstep _ ih =>
      rcases hturn first with hescape | hfollows
      · rw [GoesOn, hescape] at hstep
        cases hstep
      · rw [GoesOn] at hstep
        have hnext : GoesOn follower (image first) (image next) := by
          rw [GoesOn, hfollows, hstep]
          rfl
        exact ih.imp_right fun hrest => .of_reaches (.single hnext) hrest

/-! A measure that every turn lowers bounds the fuel. -/

section Measure

variable {measure : σ → Nat}

theorem exists_run (lowers : ∀ state next, turn state = .inl next →
    measure next < measure state) {fuel : Nat} {state : σ}
    (hfuel : measure state < fuel) :
    ∃ result, run turn fuel state = some result ∧ Returns turn state result := by
  induction fuel generalizing state with
  | zero => exact absurd hfuel (Nat.not_lt_zero _)
  | succ fuel ih =>
      cases hturn : turn state with
      | inl next =>
          have hless := lowers state next hturn
          have hfuel : measure next < fuel := by omega
          obtain ⟨result, hrun, hreturns⟩ := ih hfuel
          refine ⟨result, ?_, .of_reaches (.single hturn) hreturns⟩
          simp only [run, hturn, hrun]
      | inr result =>
          refine ⟨result, ?_, state, .refl, hturn⟩
          simp only [run, hturn]

end Measure

/-! With finitely many states to go on to, a loop returns unless it comes back
to a state it has passed. -/

section Finite

theorem cycle_along {state next : σ}
    (hcycle : Relation.TransGen (GoesOn turn) state state)
    (hstep : GoesOn turn state next) :
    Relation.TransGen (GoesOn turn) next next := by
  obtain ⟨middle, hmiddle, hback⟩ := Relation.TransGen.head'_iff.mp hcycle
  obtain rfl := goesOn_unique hmiddle hstep
  exact Relation.TransGen.tail' hback hstep

theorem not_cycle_of_returns {state : σ} {result : β}
    (hreturns : Returns turn state result) :
    ¬ Relation.TransGen (GoesOn turn) state state := by
  intro hcycle
  have hgoes : ∀ last, Relation.TransGen (GoesOn turn) last last →
      ∃ next, turn last = .inl next ∧
        Relation.TransGen (GoesOn turn) next next := by
    intro last hlast
    obtain ⟨next, hnext, -⟩ := Relation.TransGen.head'_iff.mp hlast
    exact ⟨next, hnext, cycle_along hlast hnext⟩
  exact not_returns _ hgoes hcycle result hreturns

/-- The next state; a loop that returns stays where it is. -/
def advance (turn : Loop σ β) (state : σ) : σ :=
  match turn state with
  | .inl next => next
  | .inr _ => state

theorem goesOn_advance {state : σ}
    (hlive : ∀ result, turn state ≠ .inr result) :
    GoesOn turn state (advance turn state) := by
  unfold GoesOn advance
  cases hturn : turn state with
  | inl next => rfl
  | inr result => exact absurd hturn (hlive result)

theorem goesOn_iterate {state : σ}
    (hlive : ∀ result, ¬ Returns turn state result) (n : Nat) :
    Reaches turn state ((advance turn)^[n] state) ∧
      GoesOn turn ((advance turn)^[n] state)
        ((advance turn)^[n + 1] state) := by
  induction n with
  | zero =>
      refine ⟨.refl, goesOn_advance fun result hturn => ?_⟩
      exact hlive result ⟨state, .refl, hturn⟩
  | succ n ih =>
      have hreaches := ih.1.tail ih.2
      refine ⟨hreaches, ?_⟩
      rw [Function.iterate_succ_apply' (advance turn) (n + 1)]
      exact goesOn_advance fun result hturn => hlive result ⟨_, hreaches, hturn⟩

theorem transGen_iterate {state : σ}
    (hlive : ∀ result, ¬ Returns turn state result) {m n : Nat} (hlt : m < n) :
    Relation.TransGen (GoesOn turn) ((advance turn)^[m] state)
      ((advance turn)^[n] state) := by
  induction hlt with
  | refl => exact .single (goesOn_iterate hlive m).2
  | step _ ih => exact ih.tail (goesOn_iterate hlive _).2

theorem exists_returns_iff {targets : Set σ} (hfinite : targets.Finite)
    (htargets : ∀ state next, turn state = .inl next → next ∈ targets)
    (state : σ) :
    (∃ result, Returns turn state result) ↔
      ∀ passed, Reaches turn state passed →
        ¬ Relation.TransGen (GoesOn turn) passed passed := by
  constructor
  · rintro ⟨result, hreturns⟩ passed hpassed
    exact not_cycle_of_returns (hreturns.along hpassed)
  · intro hacyclic
    by_contra hnever
    have hlive : ∀ result, ¬ Returns turn state result :=
      fun result hreturns => hnever ⟨result, hreturns⟩
    have hdistinct : ∀ m n, m < n →
        (advance turn)^[m] state ≠ (advance turn)^[n] state := by
      intro m n hlt heq
      have hcycle := transGen_iterate hlive hlt
      rw [← heq] at hcycle
      exact hacyclic _ (goesOn_iterate hlive m).1 hcycle
    have hinjective :
        Function.Injective fun n => (advance turn)^[n + 1] state := by
      intro m n heq
      rcases Nat.lt_trichotomy m n with hlt | heqn | hgt
      · exact absurd heq (hdistinct _ _ (by omega))
      · exact heqn
      · exact absurd heq.symm (hdistinct _ _ (by omega))
    exact Set.infinite_of_injective_forall_mem hinjective
      (fun n => htargets _ _ (goesOn_iterate hlive n).2) hfinite

end Finite

end Loop

end Uskit.Data
