import Mathlib.Data.List.Sort

namespace Uskit.Data

/-! Insertion sort by a comparator that goes by a rank, but may put elements of
one rank either way. -/

variable {α : Type u} {r : α → α → Prop} [DecidableRel r] {rank : α → Nat}

structure GoesBy (r : α → α → Prop) (rank : α → Nat) : Prop where
  le_of_rel : ∀ a b, r a b → rank a ≤ rank b
  le_of_not_rel : ∀ a b, ¬ r a b → rank b ≤ rank a

def RankSorted (rank : α → Nat) (elements : List α) : Prop :=
  elements.Pairwise (rank · ≤ rank ·)

namespace GoesBy

theorem orderedInsert_sorted (hgoes : GoesBy r rank) (a : α) {elements : List α}
    (hsorted : RankSorted rank elements) :
    RankSorted rank (elements.orderedInsert r a) := by
  induction elements with
  | nil => exact List.pairwise_singleton _ a
  | cons b rest ih =>
      rw [RankSorted, List.pairwise_cons] at hsorted
      rw [List.orderedInsert_cons]
      split
      · rename_i hrel
        have hle := hgoes.le_of_rel a b hrel
        refine .cons ?_ (.cons hsorted.1 hsorted.2)
        intro c hc
        rcases List.mem_cons.mp hc with rfl | hrest
        · exact hle
        · exact hle.trans (hsorted.1 c hrest)
      · rename_i hrel
        refine .cons ?_ (ih hsorted.2)
        intro c hc
        rcases (List.mem_orderedInsert r).mp hc with rfl | hrest
        · exact hgoes.le_of_not_rel _ _ hrel
        · exact hsorted.1 c hrest

theorem insertionSort_sorted (hgoes : GoesBy r rank) (elements : List α) :
    RankSorted rank (elements.insertionSort r) := by
  induction elements with
  | nil => exact .nil
  | cons a rest ih =>
      rw [List.insertionSort_cons]
      exact hgoes.orderedInsert_sorted a ih

/-- What is not to stay before an element goes behind it. -/
theorem pair_sublist_orderedInsert
    (hfirm : ∀ a b c, ¬ r a b → rank c ≤ rank b → ¬ r a c) {a b : α}
    (hrel : ¬ r a b) {elements : List α} (hsorted : RankSorted rank elements)
    (hmem : b ∈ elements) : [b, a].Sublist (elements.orderedInsert r a) := by
  induction elements with
  | nil => cases hmem
  | cons c rest ih =>
      rw [RankSorted, List.pairwise_cons] at hsorted
      have hcb : rank c ≤ rank b := by
        rcases List.mem_cons.mp hmem with rfl | hrest
        · exact Nat.le_refl _
        · exact hsorted.1 b hrest
      rw [List.orderedInsert_cons, if_neg (hfirm a b c hrel hcb)]
      rcases List.mem_cons.mp hmem with rfl | hrest
      · refine List.Sublist.cons_cons b ?_
        rw [List.singleton_sublist]
        exact (List.mem_orderedInsert r).mpr (.inl rfl)
      · exact (ih hsorted.2 hrest).cons c

theorem pair_sublist_insertionSort (hgoes : GoesBy r rank)
    (hfirm : ∀ a b c, ¬ r a b → rank c ≤ rank b → ¬ r a c) {a b : α}
    (hrel : ¬ r a b) {before after : List α} (hmem : b ∈ after) :
    [b, a].Sublist ((before ++ a :: after).insertionSort r) := by
  induction before with
  | nil =>
      rw [List.nil_append, List.insertionSort_cons]
      exact pair_sublist_orderedInsert hfirm hrel
        (hgoes.insertionSort_sorted after) ((List.mem_insertionSort r).mpr hmem)
  | cons c rest ih =>
      rw [List.cons_append, List.insertionSort_cons]
      exact ih.trans (List.sublist_orderedInsert c _)

end GoesBy

/-- A list that is not sorted as it stands has two neighbours to exchange. -/
theorem exists_inverted_of_not_isChain {elements : List α}
    (hchain : ¬ elements.IsChain r) :
    ∃ before a b after, elements = before ++ a :: b :: after ∧ ¬ r a b := by
  induction elements with
  | nil => exact absurd .nil hchain
  | cons a rest ih =>
      cases rest with
      | nil => exact absurd (.singleton a) hchain
      | cons b rest =>
          by_cases hrel : r a b
          · have hrest : ¬ (b :: rest).IsChain r := by
              intro hrest
              exact hchain (List.isChain_cons_cons.mpr ⟨hrel, hrest⟩)
            obtain ⟨before, c, d, after, heq, hinverted⟩ := ih hrest
            exact ⟨a :: before, c, d, after, by rw [heq]; rfl, hinverted⟩
          · exact ⟨[], a, b, rest, rfl, hrel⟩

section Fold

variable {β : Type v} {step : β → α → β} {alike : β → β → Prop}

/-- Steps that keep a relation, one after another. -/
theorem foldl_alike {elements : List α}
    (hcongr : ∀ a ∈ elements, ∀ x y, alike x y → alike (step x a) (step y a))
    {x y : β} (halike : alike x y) :
    alike (elements.foldl step x) (elements.foldl step y) := by
  induction elements generalizing x y with
  | nil => exact halike
  | cons a rest ih =>
      exact ih (fun b hb => hcongr b (.tail _ hb))
        (hcongr a List.mem_cons_self x y halike)

/-- An element is brought to the front past others that it commutes with. -/
theorem foldl_alike_middle (htrans : ∀ x y z, alike x y → alike y z → alike x z)
    (hrefl : ∀ x, alike x x) (a : α) {before after : List α}
    (hcongr : ∀ b ∈ before ++ after, ∀ x y, alike x y →
      alike (step x b) (step y b))
    (hcomm : ∀ b ∈ before, ∀ x, alike (step (step x b) a) (step (step x a) b))
    (x : β) :
    alike ((before ++ a :: after).foldl step x)
      ((a :: (before ++ after)).foldl step x) := by
  induction before generalizing x with
  | nil => exact hrefl _
  | cons b rest ih =>
      have hrest := ih (fun c hc => hcongr c (.tail _ hc))
        (fun c hc => hcomm c (.tail _ hc)) (step x b)
      have hswap := foldl_alike (fun c hc => hcongr c (.tail _ hc))
        (hcomm b List.mem_cons_self x)
      exact htrans _ _ _ hrest hswap

/-- Rank-sorted lists of the same elements are folded alike, once elements of one
rank commute. -/
theorem foldl_alike_of_rankSorted
    (htrans : ∀ x y z, alike x y → alike y z → alike x z)
    (hrefl : ∀ x, alike x x) {first second : List α} (hperm : first.Perm second)
    (hcongr : ∀ a ∈ first, ∀ x y, alike x y → alike (step x a) (step y a))
    (hcomm : first.Pairwise fun a b => rank a = rank b →
      ∀ x, alike (step (step x b) a) (step (step x a) b))
    (hfirst : RankSorted rank first) (hsecond : RankSorted rank second) (x : β) :
    alike (second.foldl step x) (first.foldl step x) := by
  induction first generalizing second x with
  | nil =>
      rw [List.nil_perm.mp hperm]
      exact hrefl x
  | cons a rest ih =>
      obtain ⟨before, after, rfl⟩ :=
        List.append_of_mem (hperm.mem_iff.mp List.mem_cons_self)
      have hrestPerm : rest.Perm (before ++ after) :=
        (List.perm_cons a).mp (hperm.trans List.perm_middle)
      rw [RankSorted, List.pairwise_cons] at hfirst
      rw [List.pairwise_cons] at hcomm
      have hrestCongr : ∀ b ∈ rest, ∀ x y, alike x y →
          alike (step x b) (step y b) := fun b hb => hcongr b (.tail _ hb)
      have hfront : ∀ b ∈ before, ∀ x,
          alike (step (step x b) a) (step (step x a) b) := by
        intro b hb
        have hbrest : b ∈ rest :=
          hrestPerm.mem_iff.mpr (List.mem_append_left _ hb)
        have hle : rank b ≤ rank a :=
          (List.pairwise_append.mp hsecond).2.2 b hb a List.mem_cons_self
        exact hcomm.1 b hbrest (Nat.le_antisymm (hfirst.1 b hbrest) hle)
      have hmiddle := foldl_alike_middle htrans hrefl a
        (fun b hb => hrestCongr b (hrestPerm.mem_iff.mpr hb)) hfront x
      have hsorted : RankSorted rank (before ++ after) :=
        hsecond.sublist
          (List.Sublist.append_left (List.sublist_cons_self a after) before)
      exact htrans _ _ _ hmiddle
        (ih hrestPerm hrestCongr hcomm.2 hfirst.2 hsorted (step x a))

end Fold

end Uskit.Data
