import Mathlib.Data.List.Infix

namespace Uskit.Data

/-! Occurrences of a pattern in a text, and the pieces that the leftmost ones that
do not overlap leave of it. -/

variable {α : Type u}

/-- The first position from `pos` on at which the pattern occurs. -/
def findFrom [DecidableEq α] (pattern text : List α) (pos : Nat) : Option Nat :=
  (List.range (text.length + 1)).find? fun index =>
    decide (pos ≤ index) && pattern.isPrefixOf (text.drop index)

/-- What an occurrence at the position is replaced by. -/
def replaceAt (pattern replacement text : List α) (pos : Nat) : List α :=
  text.take pos ++ replacement ++ text.drop (pos + pattern.length)

/-- The text is cut at the leftmost occurrence, and so is what follows on it. -/
inductive Pieces (pattern : List α) : List α → List (List α) → Prop
  | last (piece : List α) (hnone : ∀ index, ¬ pattern <+: piece.drop index) :
      Pieces pattern piece [piece]
  | next (piece rest : List α) (pieces : List (List α))
      (hfirst : ∀ index, index < piece.length →
        ¬ pattern <+: (piece ++ pattern ++ rest).drop index)
      (hrest : Pieces pattern rest pieces) :
      Pieces pattern (piece ++ pattern ++ rest) (piece :: pieces)

theorem drop_before (before text : List α) (index : Nat) :
    (before ++ text).drop (before.length + index) = text.drop index := by
  rw [← List.drop_drop, List.drop_left]

section Find

variable [DecidableEq α]

theorem findFrom_eq_some {pattern text : List α} {pos index : Nat} :
    findFrom pattern text pos = some index ↔
      (pos ≤ index ∧ pattern <+: text.drop index) ∧ index ≤ text.length ∧
        ∀ earlier, earlier < index → pos ≤ earlier →
          ¬ pattern <+: text.drop earlier := by
  rw [findFrom, List.find?_range_eq_some, List.mem_range, Nat.lt_succ_iff]
  simp only [Bool.not_eq_true', ← Bool.not_eq_true, Bool.and_eq_true,
    decide_eq_true_eq, List.isPrefixOf_iff_prefix, not_and]

theorem findFrom_eq_none {pattern text : List α} {pos : Nat} :
    findFrom pattern text pos = none ↔
      ∀ index, index ≤ text.length → pos ≤ index →
        ¬ pattern <+: text.drop index := by
  rw [findFrom, List.find?_range_eq_none]
  simp only [Nat.lt_succ_iff, Bool.not_eq_true', ← Bool.not_eq_true,
    Bool.and_eq_true, decide_eq_true_eq, List.isPrefixOf_iff_prefix, not_and]

/-- An empty pattern occurs wherever the search begins. -/
theorem findFrom_nil {text : List α} {pos : Nat} (hpos : pos ≤ text.length) :
    findFrom [] text pos = some pos := by
  rw [findFrom_eq_some]
  refine ⟨⟨Nat.le_refl _, List.nil_prefix⟩, hpos, ?_⟩
  intro earlier hless hle
  omega

/-- A search behind a text does not look at it. -/
theorem findFrom_append_last (before : List α) {pattern piece : List α}
    (hnone : ∀ index, ¬ pattern <+: piece.drop index) :
    findFrom pattern (before ++ piece) before.length = none := by
  rw [findFrom_eq_none]
  intro index _ hindex
  obtain ⟨offset, rfl⟩ := Nat.exists_eq_add_of_le hindex
  rw [drop_before]
  exact hnone offset

theorem findFrom_append_next (before : List α) {pattern piece rest : List α}
    (hfirst : ∀ index, index < piece.length →
      ¬ pattern <+: (piece ++ pattern ++ rest).drop index) :
    findFrom pattern (before ++ (piece ++ pattern ++ rest)) before.length =
      some (before.length + piece.length) := by
  rw [findFrom_eq_some]
  refine ⟨⟨Nat.le_add_right _ _, ?_⟩, ?_, ?_⟩
  · rw [drop_before, List.append_assoc, List.drop_left]
    exact List.prefix_append _ _
  · simp only [List.length_append]
    omega
  · intro earlier hless hle
    obtain ⟨offset, rfl⟩ := Nat.exists_eq_add_of_le hle
    rw [drop_before]
    exact hfirst offset (by omega)

end Find

theorem replaceAt_append (before piece pattern replacement rest : List α) :
    replaceAt pattern replacement (before ++ (piece ++ pattern ++ rest))
        (before.length + piece.length) =
      before ++ piece ++ replacement ++ rest := by
  have hsplit : before ++ (piece ++ pattern ++ rest) =
      (before ++ piece) ++ (pattern ++ rest) := by
    simp only [List.append_assoc]
  rw [replaceAt, hsplit, ← List.length_append, List.take_left, drop_before,
    List.drop_left]

namespace Pieces

variable {pattern text : List α} {pieces : List (List α)}

theorem ne_nil (hpieces : Pieces pattern text pieces) : pieces ≠ [] := by
  cases hpieces with
  | last => exact List.cons_ne_nil _ _
  | next => exact List.cons_ne_nil _ _

theorem intercalate_cons (hpieces : Pieces pattern text pieces)
    (replacement piece : List α) :
    replacement.intercalate (piece :: pieces) =
      piece ++ replacement ++ replacement.intercalate pieces :=
  List.intercalate_cons_of_ne_nil hpieces.ne_nil

/-- A pattern that is not empty cuts every text. -/
theorem exists_of_ne_nil [DecidableEq α] (hpattern : pattern ≠ []) (text : List α) :
    ∃ pieces, Pieces pattern text pieces := by
  induction hlength : text.length using Nat.strong_induction_on
    generalizing text with
  | _ length ih =>
      cases hfound : findFrom pattern text 0 with
      | none =>
          refine ⟨[text], .last text ?_⟩
          intro index hoccurs
          by_cases hindex : index ≤ text.length
          · exact findFrom_eq_none.mp hfound index hindex (Nat.zero_le _) hoccurs
          · rw [List.drop_eq_nil_of_le (by omega), List.prefix_nil] at hoccurs
            exact hpattern hoccurs
      | some index =>
          obtain ⟨⟨-, hoccurs⟩, hindex, hfirst⟩ := findFrom_eq_some.mp hfound
          obtain ⟨rest, hrest⟩ := hoccurs
          have hsplit : text = text.take index ++ pattern ++ rest := by
            rw [List.append_assoc, hrest, List.take_append_drop]
          have hpositive := List.length_pos_iff.mpr hpattern
          have hshorter : rest.length < length := by
            rw [← hlength, hsplit]
            simp only [List.length_append]
            omega
          obtain ⟨pieces, hpieces⟩ := ih _ hshorter rest rfl
          refine ⟨text.take index :: pieces, ?_⟩
          have hfirst : ∀ earlier, earlier < (text.take index).length →
              ¬ pattern <+: (text.take index ++ pattern ++ rest).drop earlier := by
            intro earlier hless
            rw [← hsplit]
            rw [List.length_take] at hless
            exact hfirst earlier (by omega) (Nat.zero_le _)
          have hnext := Pieces.next _ rest pieces hfirst hpieces
          rwa [← hsplit] at hnext

theorem piece_length_le {piece other rest last : List α}
    (heq : piece ++ pattern ++ rest = other ++ pattern ++ last)
    (hfirst : ∀ index, index < piece.length →
      ¬ pattern <+: (piece ++ pattern ++ rest).drop index) :
    piece.length ≤ other.length := by
  by_contra hless
  apply hfirst other.length (by omega)
  rw [heq, List.append_assoc, List.drop_left]
  exact List.prefix_append _ _

/-- There is one way to cut a text. -/
theorem unique {others : List (List α)} (hpieces : Pieces pattern text pieces)
    (hothers : Pieces pattern text others) : pieces = others := by
  induction hpieces generalizing others with
  | last piece hnone =>
      cases hothers with
      | last => rfl
      | next other rest pieces hfirst hrest =>
          apply absurd _ (hnone other.length)
          rw [List.append_assoc, List.drop_left]
          exact List.prefix_append _ _
  | next piece rest pieces hfirst hrest ih =>
      generalize htext : piece ++ pattern ++ rest = text at hothers
      cases hothers with
      | last other hnone =>
          apply absurd _ (hnone piece.length)
          rw [← htext, List.append_assoc, List.drop_left]
          exact List.prefix_append _ _
      | next other last pieces' hfirst' hlast =>
          have hle := piece_length_le htext hfirst
          have hge := piece_length_le htext.symm hfirst'
          rw [List.append_assoc, List.append_assoc] at htext
          obtain ⟨rfl, hrests⟩ := List.append_inj htext (Nat.le_antisymm hle hge)
          obtain rfl := List.append_cancel_left hrests
          rw [ih hlast]

end Pieces

end Uskit.Data
