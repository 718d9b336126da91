import Mathlib.Data.List.Basic

namespace Uskit.Data

/-! Computations that check what they do: they succeed, report a failure, or make
a fault.  A computation without a result is undefined. -/

theorem exists_split_cons_iff {α : Type u} {p q : α → Prop} {x : α} {xs : List α} :
    (∃ before y after, x :: xs = before ++ y :: after ∧ (∀ z ∈ before, p z) ∧ q y) ↔
      q x ∨ p x ∧ ∃ before y after, xs = before ++ y :: after ∧
        (∀ z ∈ before, p z) ∧ q y := by
  constructor
  · intro hfirst
    obtain ⟨before, y, after, hsplit, hbefore, hy⟩ := hfirst
    cases before with
    | nil =>
        cases hsplit
        exact .inl hy
    | cons first before =>
        cases hsplit
        exact .inr ⟨hbefore x List.mem_cons_self, before, y, after, rfl,
          fun z hz => hbefore z (.tail x hz), hy⟩
  · intro hfirst
    rcases hfirst with hx | ⟨hx, before, y, after, rfl, hbefore, hy⟩
    · exact ⟨[], x, xs, rfl, by simp, hx⟩
    · exact ⟨x :: before, y, after, rfl, List.forall_mem_cons.mpr ⟨hx, hbefore⟩, hy⟩

/-- Where every element that is not `q` lets the next one be reached. -/
theorem exists_split_iff_of_total {α : Type u} {p q : α → Prop}
    (htotal : ∀ x, p x ∨ q x) {xs : List α} :
    (∃ before x after, xs = before ++ x :: after ∧ (∀ z ∈ before, p z) ∧ q x) ↔
      ∃ x ∈ xs, q x := by
  induction xs with
  | nil => simp
  | cons x xs ih =>
      rw [exists_split_cons_iff, ih, List.exists_mem_cons_iff]
      constructor
      · exact Or.imp_right And.right
      · intro hmem
        rcases hmem with hx | hlater
        · exact .inl hx
        · exact (htotal x).symm.imp_right fun hx => ⟨hx, hlater⟩

inductive Checked (φ : Type u) (α : Type v) where
  | ok (value : α)
  | failed
  | fault (kind : φ)
  | undefined
deriving DecidableEq, Repr

namespace Checked

variable {φ : Type u} {α β : Type v}

def bind (computation : Checked φ α) (next : α → Checked φ β) : Checked φ β :=
  match computation with
  | .ok value => next value
  | .failed => .failed
  | .fault kind => .fault kind
  | .undefined => .undefined

instance : Monad (Checked φ) where
  pure := .ok
  bind := bind

@[simp] theorem ok_bind (value : α) (next : α → Checked φ β) :
    Bind.bind (Checked.ok value) next = next value := rfl

@[simp] theorem failed_bind (next : α → Checked φ β) :
    Bind.bind (Checked.failed : Checked φ α) next = .failed := rfl

@[simp] theorem fault_bind (kind : φ) (next : α → Checked φ β) :
    Bind.bind (Checked.fault kind : Checked φ α) next = .fault kind := rfl

@[simp] theorem undefined_bind (next : α → Checked φ β) :
    Bind.bind (Checked.undefined : Checked φ α) next = .undefined := rfl

def require (condition : Bool) : Checked φ Unit :=
  if condition then .ok () else .failed

/-- The same computation for all elements, one after another. -/
def traverse (each : α → Checked φ β) : List α → Checked φ (List β)
  | [] => .ok []
  | x :: rest => do
      let value ← each x
      let values ← traverse each rest
      .ok (value :: values)

def Succeeds (computation : Checked φ α) : Prop :=
  ∃ value, computation = .ok value

def Faults (computation : Checked φ α) : Prop :=
  ∃ kind, computation = .fault kind

@[simp] theorem require_true : (require true : Checked φ Unit) = .ok () := rfl

@[simp] theorem require_false : (require false : Checked φ Unit) = .failed := rfl

@[simp] theorem not_faults_ok (value : α) : ¬ (Checked.ok value : Checked φ α).Faults := by
  intro hfault
  obtain ⟨kind, heq⟩ := hfault
  cases heq

@[simp] theorem not_faults_failed : ¬ (Checked.failed : Checked φ α).Faults := by
  intro hfault
  obtain ⟨kind, heq⟩ := hfault
  cases heq

@[simp] theorem not_faults_undefined : ¬ (Checked.undefined : Checked φ α).Faults := by
  intro hfault
  obtain ⟨kind, heq⟩ := hfault
  cases heq

@[simp] theorem faults_fault (kind : φ) : (Checked.fault kind : Checked φ α).Faults :=
  ⟨kind, rfl⟩

theorem faults_bind_iff {computation : Checked φ α} {next : α → Checked φ β} :
    (Bind.bind computation next).Faults ↔
      computation.Faults ∨ ∃ value, computation = .ok value ∧ (next value).Faults := by
  cases computation with
  | ok value => simp
  | failed => simp
  | fault kind => simp
  | undefined => simp

theorem faults_require_bind_iff {α : Type} {condition : Bool}
    {next : Unit → Checked φ α} :
    (Bind.bind (require condition) next).Faults ↔
      condition = true ∧ (next ()).Faults := by
  cases condition with
  | false => simp
  | true => simp

theorem faults_bind_ok_iff {computation : Checked φ α} {result : α → β} :
    (Bind.bind computation fun value => .ok (result value)).Faults ↔
      computation.Faults := by
  rw [faults_bind_iff]
  constructor
  · intro hfault
    rcases hfault with hfault | ⟨_, _, hok⟩
    · exact hfault
    · exact absurd hok (not_faults_ok _)
  · exact .inl

/-- A traversal makes a fault exactly when an element does that follows on
elements without one. -/
theorem faults_traverse_iff {each : α → Checked φ β} {xs : List α} :
    (traverse each xs).Faults ↔
      ∃ before x after, xs = before ++ x :: after ∧
        (∀ y ∈ before, (each y).Succeeds) ∧ (each x).Faults := by
  induction xs with
  | nil => simp [traverse]
  | cons x rest ih =>
      rw [traverse, faults_bind_iff, exists_split_cons_iff, ← ih, Succeeds,
        exists_and_right.symm]
      simp only [faults_bind_ok_iff]

theorem faults_traverse_iff_exists {each : α → Checked φ β} {xs : List α}
    (htotal : ∀ x, (each x).Succeeds ∨ (each x).Faults) :
    (traverse each xs).Faults ↔ ∃ x ∈ xs, (each x).Faults :=
  faults_traverse_iff.trans (exists_split_iff_of_total htotal)

theorem traverse_congr {first second : α → Checked φ β} {xs : List α}
    (heq : ∀ x ∈ xs, first x = second x) : traverse first xs = traverse second xs := by
  induction xs with
  | nil => rfl
  | cons x rest ih =>
      rw [traverse, traverse, heq x List.mem_cons_self,
        ih fun y hy => heq y (.tail x hy)]

theorem ok_ne_failed (value : α) : (Checked.ok value : Checked φ α) ≠ .failed := by
  intro heq
  cases heq

theorem bind_ne_failed {computation : Checked φ α} {next : α → Checked φ β}
    (hfirst : computation ≠ .failed)
    (hnext : ∀ value, computation = .ok value → next value ≠ .failed) :
    Bind.bind computation next ≠ .failed := by
  cases computation with
  | ok value => exact hnext value rfl
  | failed => exact absurd rfl hfirst
  | fault kind => simp
  | undefined => simp

theorem traverse_ne_failed {each : α → Checked φ β} {xs : List α}
    (heach : ∀ x ∈ xs, each x ≠ .failed) : traverse each xs ≠ .failed := by
  induction xs with
  | nil => exact ok_ne_failed _
  | cons x rest ih =>
      apply bind_ne_failed (heach x List.mem_cons_self)
      intro _ _
      apply bind_ne_failed (ih fun y hy => heach y (.tail x hy))
      intro _ _
      exact ok_ne_failed _

theorem require_bind_ne_failed_iff {α : Type} {condition : Bool}
    {next : Unit → Checked φ α} :
    Bind.bind (require condition) next ≠ .failed ↔
      condition = true ∧ next () ≠ .failed := by
  cases condition with
  | false => simp
  | true => simp

/-! How a computation is free of faults: rule by rule along its steps. -/

theorem not_faults_bind {computation : Checked φ α} {next : α → Checked φ β}
    (hfirst : ¬ computation.Faults)
    (hnext : ∀ value, computation = .ok value → ¬ (next value).Faults) :
    ¬ (Bind.bind computation next).Faults := by
  rw [faults_bind_iff, not_or]
  refine ⟨hfirst, ?_⟩
  intro hlater
  obtain ⟨value, hvalue, hfault⟩ := hlater
  exact hnext value hvalue hfault

theorem not_faults_require {α : Type} {condition : Bool}
    {next : Unit → Checked φ α}
    (hnext : condition = true → ¬ (next ()).Faults) :
    ¬ (Bind.bind (require condition) next).Faults := by
  rw [faults_require_bind_iff]
  intro hfault
  obtain ⟨hcondition, hfault⟩ := hfault
  exact hnext hcondition hfault

end Checked

end Uskit.Data
