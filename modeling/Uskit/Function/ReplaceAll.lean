import Uskit.Data.Loop
import Uskit.Data.Occurrences
import Uskit.Utils

namespace Uskit

open Uskit.Data

/-! The loop of `replace_all`, which replaces in the string that it searches. -/

/-- A turn: the string, and `start_pos`. -/
def replaceTurn (source target : List Char) : Loop (List Char × Nat) (List Char)
  | (str, startPos) =>
      match findFrom source str startPos with
      | some startPos =>
          .inl (replaceAt source target str startPos, startPos + target.length)
      | none => .inr str

/-- `replace_all` comes to an end, with the result in the string. -/
def ReplacesAll (str source target result : String) : Prop :=
  if str = "" then result = ""
  else (replaceTurn source.toList target.toList).Returns (str.toList, 0) result.toList

section Loop

variable {source : List Char} (target : List Char)

/-- From behind what is done, the loop joins the pieces of the rest. -/
theorem replaceTurn_returns {rest : List Char} {pieces : List (List Char)}
    (hpieces : Pieces source rest pieces) (done : List Char) :
    (replaceTurn source target).Returns (done ++ rest, done.length)
      (done ++ target.intercalate pieces) := by
  induction hpieces generalizing done with
  | last piece hnone =>
      refine ⟨_, .refl, ?_⟩
      rw [replaceTurn, findFrom_append_last done hnone, List.intercalate_singleton]
  | next piece rest pieces hfirst hrest ih =>
      have hgoes : (replaceTurn source target).GoesOn
          (done ++ (piece ++ source ++ rest), done.length)
          (done ++ piece ++ target ++ rest, (done ++ piece ++ target).length) := by
        rw [Loop.GoesOn, replaceTurn, findFrom_append_next done hfirst]
        simp only [replaceAt_append, List.length_append]
      have hjoined : done ++ target.intercalate (piece :: pieces) =
          done ++ piece ++ target ++ target.intercalate pieces := by
        rw [hrest.intercalate_cons]
        simp only [List.append_assoc]
      rw [hjoined]
      exact .of_reaches (.single hgoes) (ih (done ++ piece ++ target))

/-- An empty `source` is found in every turn. -/
theorem replaceTurn_not_returns {str : List Char} {startPos : Nat}
    (hpos : startPos ≤ str.length) (result : List Char) :
    ¬ (replaceTurn [] target).Returns (str, startPos) result := by
  apply Loop.not_returns fun state => state.2 ≤ state.1.length
  · intro state hstate
    obtain ⟨str, startPos⟩ := state
    refine ⟨_, by rw [replaceTurn, findFrom_nil hstate], ?_⟩
    simp only [replaceAt, List.length_append, List.length_take, List.length_drop,
      List.length_nil]
    simp only at hstate
    omega
  · exact hpos

end Loop

/-- The loop ends unless it looks for the empty string in a text. -/
theorem replacesAll_iff (str source target : String) :
    (∃ result, ReplacesAll str source target result) ↔ str = "" ∨ source ≠ "" := by
  by_cases hempty : str = ""
  · simp [ReplacesAll, hempty]
  · simp only [ReplacesAll, hempty, false_or]
    constructor
    · intro hreturns
      obtain ⟨result, hreturns⟩ := hreturns
      rintro rfl
      exact replaceTurn_not_returns _ (Nat.zero_le _) _ hreturns
    · intro hsource
      have hpattern : source.toList ≠ [] := by simpa using hsource
      obtain ⟨pieces, hpieces⟩ := Pieces.exists_of_ne_nil hpattern str.toList
      refine ⟨.ofList (target.toList.intercalate pieces), ?_⟩
      rw [String.toList_ofList]
      exact replaceTurn_returns target.toList hpieces []

theorem emptySource_endless :
    ¬ ∀ str source target : String, ∃ result, ReplacesAll str source target result := by
  intro hall
  obtain ⟨result, hreturns⟩ := hall "a" "" ""
  exact replaceTurn_not_returns _ (Nat.zero_le _) _ hreturns

/-! The string is scanned once: what is left of it is a suffix of the original. -/

section Scanned

variable {source target : List Char}

/-- The string from `start_pos` on is still that of the original. -/
def Unscanned (original : List Char) (state : List Char × Nat) : Prop :=
  ∃ done rest, state = (done ++ rest, done.length) ∧ rest <:+ original

theorem Unscanned.turn {original : List Char} {state next : List Char × Nat}
    (hstate : Unscanned original state)
    (hgoes : (replaceTurn source target).GoesOn state next) :
    Unscanned original next := by
  obtain ⟨done, rest, rfl, hsuffix⟩ := hstate
  rw [Loop.GoesOn, replaceTurn] at hgoes
  split at hgoes
  · rename_i startPos hfound
    cases hgoes
    obtain ⟨⟨hpos, -⟩, hbound, -⟩ := findFrom_eq_some.mp hfound
    obtain ⟨offset, rfl⟩ := Nat.exists_eq_add_of_le hpos
    have hscanned : (done ++ rest).take (done.length + offset) =
        done ++ rest.take offset := by
      rw [List.take_append, List.take_of_length_le (Nat.le_add_right _ _),
        Nat.add_sub_cancel_left]
    have hlength : (rest.take offset).length = offset := by
      rw [List.length_append] at hbound
      rw [List.length_take]
      omega
    refine ⟨done ++ rest.take offset ++ target, rest.drop (offset + source.length), ?_,
      (List.drop_suffix _ _).trans hsuffix⟩
    rw [replaceAt, hscanned, Nat.add_assoc, drop_before]
    simp only [List.length_append, hlength]
  · cases hgoes

theorem unscanned_of_reaches {original : List Char} {state : List Char × Nat}
    (hreaches : (replaceTurn source target).Reaches (original, 0) state) :
    Unscanned original state := by
  induction hreaches with
  | refl => exact ⟨[], original, rfl, List.suffix_refl _⟩
  | tail _ hgoes ih => exact ih.turn hgoes

/-- A match lies, with all that follows on it, in what is left of the original. -/
theorem Unscanned.found {original : List Char} {state : List Char × Nat}
    (hstate : Unscanned original state) {startPos : Nat}
    (hfound : findFrom source state.1 state.2 = some startPos) :
    state.1.drop startPos <:+ original := by
  obtain ⟨done, rest, rfl, hsuffix⟩ := hstate
  obtain ⟨⟨hpos, -⟩, -⟩ := findFrom_eq_some.mp hfound
  obtain ⟨offset, rfl⟩ := Nat.exists_eq_add_of_le hpos
  rw [drop_before]
  exact (List.drop_suffix _ _).trans hsuffix

end Scanned

/-! The recursion of `replaceAll` is what the loop computes. -/

section Recursion

variable {source target : List Char}

theorem replaceFrom_skip (skipped rest : List Char) :
    replaceFrom source target skipped.length (skipped ++ rest) =
      replaceFrom source target 0 rest := by
  induction skipped with
  | nil => rfl
  | cons c skipped ih => exact ih

theorem replaceFrom_piece (target rest : List Char) {piece : List Char}
    (hfirst : ∀ index, index < piece.length →
      ¬ source <+: (piece ++ rest).drop index) :
    replaceFrom source target 0 (piece ++ rest) =
      piece ++ replaceFrom source target 0 rest := by
  induction piece with
  | nil => rfl
  | cons c piece ih =>
      have hhere : ¬ source.isPrefixOf (c :: (piece ++ rest)) = true := by
        rw [List.isPrefixOf_iff_prefix]
        exact hfirst 0 (Nat.zero_lt_succ _)
      have hlater := ih fun index hindex =>
        hfirst (index + 1) (Nat.succ_lt_succ hindex)
      rw [List.cons_append, replaceFrom, if_neg hhere, hlater, List.cons_append]

theorem replaceFrom_match (hsource : source ≠ []) (rest : List Char) :
    replaceFrom source target 0 (source ++ rest) =
      target ++ replaceFrom source target 0 rest := by
  cases source with
  | nil => exact absurd rfl hsource
  | cons c others =>
      have hhere : (c :: others).isPrefixOf (c :: (others ++ rest)) = true := by
        rw [List.isPrefixOf_iff_prefix]
        exact List.prefix_append (c :: others) rest
      rw [List.cons_append, replaceFrom, if_pos hhere, List.length_cons,
        Nat.add_sub_cancel, replaceFrom_skip]

theorem replaceFrom_pieces (hsource : source ≠ []) {text : List Char}
    {pieces : List (List Char)} (hpieces : Pieces source text pieces) :
    replaceFrom source target 0 text = target.intercalate pieces := by
  induction hpieces with
  | last piece hnone =>
      have hpiece := replaceFrom_piece target []
        fun index _ => (List.append_nil piece).symm ▸ hnone index
      rw [List.append_nil] at hpiece
      rw [hpiece, replaceFrom, List.append_nil, List.intercalate_singleton]
  | next piece rest pieces hfirst hrest ih =>
      rw [List.append_assoc] at hfirst ⊢
      rw [replaceFrom_piece target (source ++ rest) hfirst, replaceFrom_match hsource, ih,
        hrest.intercalate_cons, List.append_assoc]

end Recursion

theorem replaceAll_eq_some_iff {str source target result : String} :
    replaceAll str source target = some result ↔
      ReplacesAll str source target result := by
  unfold replaceAll ReplacesAll
  by_cases hempty : str = ""
  · rw [if_pos hempty, if_pos hempty, hempty, Option.some.injEq]
    exact eq_comm
  · rw [if_neg hempty, if_neg hempty]
    by_cases hsource : source = ""
    · subst hsource
      rw [if_pos rfl]
      constructor
      · intro hnone
        cases hnone
      · intro hreturns
        exact absurd hreturns (replaceTurn_not_returns _ (Nat.zero_le _) _)
    · have hpattern : source.toList ≠ [] := by simpa using hsource
      obtain ⟨pieces, hpieces⟩ := Pieces.exists_of_ne_nil hpattern str.toList
      have hreturns := replaceTurn_returns target.toList hpieces []
      rw [if_neg hsource, replaceFrom_pieces hpattern hpieces, Option.some.injEq]
      constructor
      · rintro rfl
        rw [String.toList_ofList]
        exact hreturns
      · intro hresult
        rw [← String.toList_inj, String.toList_ofList]
        exact hreturns.unique hresult

/-- The string is cut at the leftmost occurrences of `source` that do not overlap,
and joined by `target`; what is matched is text of the original string. -/
theorem replaceAll_joins (str source target : String) (hsource : source ≠ "") :
    ∃ pieces, Pieces source.toList str.toList pieces ∧
      (∀ others, Pieces source.toList str.toList others → others = pieces) ∧
      replaceAll str source target =
        some (.ofList (target.toList.intercalate pieces)) ∧
      ReplacesAll str source target (.ofList (target.toList.intercalate pieces)) ∧
      ∀ state startPos,
        (replaceTurn source.toList target.toList).Reaches (str.toList, 0) state →
          findFrom source.toList state.1 state.2 = some startPos →
            state.1.drop startPos <:+ str.toList := by
  have hpattern : source.toList ≠ [] := by simpa using hsource
  obtain ⟨pieces, hpieces⟩ := Pieces.exists_of_ne_nil hpattern str.toList
  have hresult : replaceAll str source target =
      some (.ofList (target.toList.intercalate pieces)) := by
    rw [replaceAll, if_neg hsource, replaceFrom_pieces hpattern hpieces]
    split
    · rename_i hempty
      subst hempty
      rw [← replaceFrom_pieces hpattern hpieces]
      rfl
    · rfl
  refine ⟨pieces, hpieces, fun others hothers => hothers.unique hpieces, hresult,
    replaceAll_eq_some_iff.mp hresult, ?_⟩
  intro state startPos hreaches hfound
  exact (unscanned_of_reaches hreaches).found hfound

theorem replaceAll_overlapping :
    ∃ pieces, Pieces "aa".toList "aaaab".toList pieces ∧
      (∀ others, Pieces "aa".toList "aaaab".toList others → others = pieces) ∧
      replaceAll "aaaab" "aa" "a" = some (.ofList ("a".toList.intercalate pieces)) ∧
      ReplacesAll "aaaab" "aa" "a" (.ofList ("a".toList.intercalate pieces)) ∧
      ∀ state startPos,
        (replaceTurn "aa".toList "a".toList).Reaches ("aaaab".toList, 0) state →
          findFrom "aa".toList state.1 state.2 = some startPos →
            state.1.drop startPos <:+ "aaaab".toList :=
  replaceAll_joins "aaaab" "aa" "a" (by decide)

end Uskit
