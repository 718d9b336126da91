import Mathlib.Data.List.Nodup

namespace Uskit.Data

/-! The first occurrences of a list whose elements are told apart by a key. -/

variable {α : Type u} {κ : Type v} [DecidableEq κ]

/-- Each element goes first, and what follows on it with its key is left out. -/
def firsts (key : α → κ) : List α → List α
  | [] => []
  | x :: rest => x :: (firsts key rest).filter fun y => decide (key y ≠ key x)

/-- The elements with none of the keys. -/
def without (key : α → κ) (keys : List κ) (l : List α) : List α :=
  l.filter fun x => decide (key x ∉ keys)

section

variable (key : α → κ)

@[simp] theorem firsts_nil : firsts key [] = [] := rfl

theorem firsts_cons (x : α) (rest : List α) :
    firsts key (x :: rest) =
      x :: (firsts key rest).filter fun y => decide (key y ≠ key x) := rfl

theorem mem_without {keys : List κ} {l : List α} {x : α} :
    x ∈ without key keys l ↔ x ∈ l ∧ key x ∉ keys := by
  rw [without, List.mem_filter, decide_eq_true_iff]

@[simp] theorem without_nil (l : List α) : without key [] l = l := by
  simp [without]

theorem without_cons (keys : List κ) (x : α) (rest : List α) :
    without key keys (x :: rest) =
      if key x ∈ keys then without key keys rest
      else x :: without key keys rest := by
  rw [without, List.filter_cons]
  by_cases hx : key x ∈ keys
  · rw [if_pos hx, if_neg (by simpa using hx), without]
  · rw [if_neg hx, if_pos (by simpa using hx), without]

theorem without_append (keys : List κ) (first second : List α) :
    without key keys (first ++ second) =
      without key keys first ++ without key keys second :=
  List.filter_append ..

theorem without_without (first second : List κ) (l : List α) :
    without key first (without key second l) = without key (second ++ first) l := by
  rw [without, without, without, List.filter_filter]
  apply List.filter_congr
  intro x _
  rw [← Bool.decide_and, decide_eq_decide, List.mem_append, not_or]
  exact and_comm

theorem without_self (l : List α) : without key (l.map key) l = [] := by
  rw [without, List.filter_eq_nil_iff]
  intro x hx
  simpa using ⟨x, hx, rfl⟩

/-- What is filtered by its key alone is filtered before or after. -/
theorem firsts_filter (p : κ → Bool) (l : List α) :
    firsts key (l.filter fun x => p (key x)) =
      (firsts key l).filter fun x => p (key x) := by
  induction l with
  | nil => rfl
  | cons x rest ih =>
      rw [firsts_cons]
      cases hx : p (key x) with
      | true =>
          rw [List.filter_cons, if_pos hx, List.filter_cons, if_pos hx, firsts_cons, ih,
            List.filter_filter, List.filter_filter]
          simp only [Bool.and_comm]
      | false =>
          have hnot : ¬ p (key x) = true := by simp [hx]
          rw [List.filter_cons, if_neg hnot, List.filter_cons, if_neg hnot, ih,
            List.filter_filter]
          apply List.filter_congr
          intro y _
          by_cases hy : key y = key x
          · simp [hy, hx]
          · simp [hy]

theorem firsts_without (keys : List κ) (l : List α) :
    firsts key (without key keys l) = without key keys (firsts key l) :=
  firsts_filter key (fun k => decide (k ∉ keys)) l

theorem firsts_cons_without (x : α) (rest : List α) :
    firsts key (x :: rest) = x :: without key [key x] (firsts key rest) := by
  rw [firsts_cons, without]
  simp only [List.mem_singleton, ne_eq]

theorem mem_map_firsts {k : κ} {l : List α} :
    k ∈ (firsts key l).map key ↔ k ∈ l.map key := by
  induction l with
  | nil => rfl
  | cons x rest ih =>
      rw [firsts_cons_without, List.map_cons, List.map_cons, List.mem_cons,
        List.mem_cons, ← ih]
      simp only [List.mem_map, mem_without, List.mem_singleton]
      constructor
      · intro hmem
        rcases hmem with heq | ⟨y, ⟨hy, -⟩, hkey⟩
        · exact .inl heq
        · exact .inr ⟨y, hy, hkey⟩
      · intro hmem
        rcases hmem with heq | ⟨y, hy, hkey⟩
        · exact .inl heq
        · by_cases hsame : k = key x
          · exact .inl hsame
          · exact .inr ⟨y, ⟨hy, hkey ▸ hsame⟩, hkey⟩

theorem nodup_map_firsts (l : List α) : ((firsts key l).map key).Nodup := by
  induction l with
  | nil => exact .nil
  | cons x rest ih =>
      rw [firsts_cons_without, List.map_cons, List.nodup_cons]
      constructor
      · intro hmem
        obtain ⟨y, hy, hkey⟩ := List.mem_map.mp hmem
        exact ((mem_without key).mp hy).2 (List.mem_singleton.mpr hkey)
      · exact ih.sublist (List.filter_sublist.map key)

theorem without_congr {first second : List κ} (hsame : ∀ k, k ∈ first ↔ k ∈ second)
    (l : List α) : without key first l = without key second l := by
  apply List.filter_congr
  intro x _
  rw [decide_eq_decide, hsame]

theorem firsts_append (first second : List α) :
    firsts key (first ++ second) =
      firsts key first ++ without key (first.map key) (firsts key second) := by
  induction first with
  | nil => simp
  | cons x rest ih =>
      rw [List.cons_append, firsts_cons_without, ih, firsts_cons_without,
        without_append, without_without, List.cons_append, List.map_cons]
      congr 2
      apply without_congr
      simp [or_comm]

/-- A list without repetitions has nothing to leave out. -/
theorem firsts_eq_self {l : List α} (hnodup : (l.map key).Nodup) :
    firsts key l = l := by
  induction l with
  | nil => rfl
  | cons x rest ih =>
      rw [List.map_cons, List.nodup_cons] at hnodup
      rw [firsts_cons, ih hnodup.2, List.filter_eq_self.mpr]
      intro y hy
      apply decide_eq_true
      intro heq
      exact hnodup.1 (List.mem_map.mpr ⟨y, hy, heq⟩)

theorem firsts_firsts (l : List α) : firsts key (firsts key l) = firsts key l :=
  firsts_eq_self key (nodup_map_firsts key l)

theorem firsts_append_firsts (first second : List α) :
    firsts key (first ++ firsts key second) = firsts key (first ++ second) := by
  rw [firsts_append, firsts_append, firsts_firsts]

theorem firsts_firsts_append (first second : List α) :
    firsts key (firsts key first ++ second) = firsts key (first ++ second) := by
  rw [firsts_append, firsts_append, firsts_firsts]
  congr 1
  exact without_congr key (fun _ => mem_map_firsts key) _

end

end Uskit.Data
