import Mathlib.Data.List.Duplicate
import Uskit.Expression.Expression

namespace Uskit

/-! Union, intersection and difference of arrays, whose elements are told apart
by their texts. -/

namespace Library

/-- The texts that stand for the elements of an array in the hash. -/
def texts (library : Library) (elements : List Json) : List String :=
  elements.map library.jsonEncode

theorem texts_cons (library : Library) (v : Json) (rest : List Json) :
    library.texts (v :: rest) = library.jsonEncode v :: library.texts rest := rfl

/-- What `docs/expression.md` calls the intersection of two arrays. -/
structure IsIntersection (library : Library) (l r result : List Json) : Prop where
  mem_iff : ∀ text, text ∈ library.texts result ↔
    text ∈ library.texts l ∧ text ∈ library.texts r
  nodup : (library.texts result).Nodup

/-- What it calls their union. -/
structure IsUnion (library : Library) (l r result : List Json) : Prop where
  mem_iff : ∀ text, text ∈ library.texts result ↔
    text ∈ library.texts l ∨ text ∈ library.texts r
  nodup : (library.texts result).Nodup

end Library

namespace BinaryOp

variable (library : Library)

theorem hashPass_cons (emit : Bool → Bool) (hash : List String) (v : Json)
    (rest : List Json) :
    hashPass library emit hash (v :: rest) =
      ((hashPass library emit (library.jsonEncode v :: hash) rest).1,
        if emit (hash.contains (library.jsonEncode v)) then
          v :: (hashPass library emit (library.jsonEncode v :: hash) rest).2
        else (hashPass library emit (library.jsonEncode v :: hash) rest).2) := rfl

theorem mem_hashPass_hash (emit : Bool → Bool) (text : String) (hash : List String)
    (elements : List Json) :
    text ∈ (hashPass library emit hash elements).1 ↔
      text ∈ hash ∨ text ∈ library.texts elements := by
  induction elements generalizing hash with
  | nil => simp [hashPass, Library.texts]
  | cons v rest ih =>
      rw [hashPass_cons, ih, library.texts_cons, List.mem_cons, List.mem_cons]
      tauto

theorem hashPass_sublist (emit : Bool → Bool) (hash : List String)
    (elements : List Json) :
    (hashPass library emit hash elements).2.Sublist elements := by
  induction elements generalizing hash with
  | nil => exact .slnil
  | cons v rest ih =>
      rw [hashPass_cons]
      split
      · exact (ih _).cons_cons v
      · exact (ih _).cons v

/-- The pass that copies what it has met before also meets the elements it has
passed itself. -/
theorem mem_copied (text : String) (hash : List String) (elements : List Json) :
    text ∈ library.texts (hashPass library (·) hash elements).2 ↔
      (text ∈ hash ∧ text ∈ library.texts elements) ∨
        (library.texts elements).Duplicate text := by
  induction elements generalizing hash with
  | nil => simp [hashPass, Library.texts]
  | cons v rest ih =>
      have hrest := ih (library.jsonEncode v :: hash)
      rw [List.mem_cons] at hrest
      rw [hashPass_cons, library.texts_cons, List.duplicate_cons_iff, List.mem_cons]
      by_cases hknown : library.jsonEncode v ∈ hash
      · rw [if_pos (by simpa using hknown), library.texts_cons, List.mem_cons, hrest]
        constructor
        · intro hmem
          rcases hmem with heq | ⟨heq | hhash, hlater⟩ | hdup
          · exact .inl ⟨heq ▸ hknown, .inl heq⟩
          · exact .inl ⟨heq ▸ hknown, .inl heq⟩
          · exact .inl ⟨hhash, .inr hlater⟩
          · exact .inr (.inr hdup)
        · intro hmem
          rcases hmem with ⟨hhash, heq | hlater⟩ | ⟨heq, -⟩ | hdup
          · exact .inl heq
          · exact .inr (.inl ⟨.inr hhash, hlater⟩)
          · exact .inl heq.symm
          · exact .inr (.inr hdup)
      · rw [if_neg (by simpa using hknown), hrest]
        constructor
        · intro hmem
          rcases hmem with ⟨heq | hhash, hlater⟩ | hdup
          · exact .inr (.inl ⟨heq.symm, heq ▸ hlater⟩)
          · exact .inl ⟨hhash, .inr hlater⟩
          · exact .inr (.inr hdup)
        · intro hmem
          rcases hmem with ⟨hhash, heq | hlater⟩ | ⟨heq, hlater⟩ | hdup
          · exact absurd (heq ▸ hhash) hknown
          · exact .inl ⟨.inr hhash, hlater⟩
          · exact .inl ⟨.inl heq.symm, heq ▸ hlater⟩
          · exact .inr hdup

/-- Every occurrence of a text that the hash knows from the start is copied. -/
theorem count_copied {text : String} {hash : List String} (hknown : text ∈ hash)
    (elements : List Json) :
    (library.texts (hashPass library (·) hash elements).2).count text =
      (library.texts elements).count text := by
  induction elements generalizing hash with
  | nil => rfl
  | cons v rest ih =>
      have hrest := ih (List.mem_cons_of_mem (library.jsonEncode v) hknown)
      rw [hashPass_cons, library.texts_cons, List.count_cons]
      by_cases heq : library.jsonEncode v = text
      · rw [if_pos (by simpa [heq] using hknown), library.texts_cons,
          List.count_cons, hrest]
      · have hother : ¬ (library.jsonEncode v == text) = true := by simpa using heq
        rw [if_neg hother, Nat.add_zero, ← hrest]
        split
        · rw [library.texts_cons, List.count_cons, if_neg hother, Nat.add_zero]
        · rfl

/-- The pass that copies what it has not met before copies each text once. -/
theorem mem_fresh (text : String) (hash : List String) (elements : List Json) :
    text ∈ library.texts (hashPass library (!·) hash elements).2 ↔
      text ∉ hash ∧ text ∈ library.texts elements := by
  induction elements generalizing hash with
  | nil => simp [hashPass, Library.texts]
  | cons v rest ih =>
      have hrest := ih (library.jsonEncode v :: hash)
      rw [hashPass_cons, library.texts_cons, List.mem_cons]
      by_cases hknown : library.jsonEncode v ∈ hash
      · rw [if_neg (by simpa using hknown), hrest, List.mem_cons]
        constructor
        · intro hmem
          exact ⟨fun hhash => hmem.1 (.inr hhash), .inr hmem.2⟩
        · intro hmem
          obtain ⟨hfresh, heq | hlater⟩ := hmem
          · exact absurd (heq ▸ hknown) hfresh
          · refine ⟨?_, hlater⟩
            intro hmet
            rcases hmet with heq | hhash
            · exact hfresh (heq ▸ hknown)
            · exact hfresh hhash
      · rw [if_pos (by simpa using hknown), library.texts_cons, List.mem_cons, hrest,
          List.mem_cons]
        by_cases heq : text = library.jsonEncode v
        · simp [heq, hknown]
        · simp [heq]

theorem nodup_fresh (hash : List String) (elements : List Json) :
    (library.texts (hashPass library (!·) hash elements).2).Nodup := by
  induction elements generalizing hash with
  | nil => exact .nil
  | cons v rest ih =>
      rw [hashPass_cons]
      split
      · rw [library.texts_cons, List.nodup_cons, mem_fresh]
        refine ⟨?_, ih _⟩
        intro hmem
        exact hmem.1 (List.mem_cons_self ..)
      · exact ih _

theorem texts_append (first second : List Json) :
    library.texts (first ++ second) =
      library.texts first ++ library.texts second :=
  List.map_append

theorem setUnion_isUnion (l r : List Json) :
    library.IsUnion l r (setUnion library l r) := by
  constructor
  · intro text
    rw [setUnion, texts_append, List.mem_append, mem_fresh, mem_fresh,
      mem_hashPass_hash]
    simp only [List.not_mem_nil, not_false_eq_true, true_and, false_or]
    tauto
  · rw [setUnion, texts_append, List.nodup_append']
    refine ⟨nodup_fresh library [] l, nodup_fresh library _ r, ?_⟩
    intro text hleft hright
    rw [mem_fresh] at hleft hright
    exact hright.1 ((mem_hashPass_hash library _ text [] l).mpr (.inr hleft.2))

theorem mem_setDifference (text : String) (l r : List Json) :
    text ∈ library.texts (setDifference library l r) ↔
      text ∈ library.texts l ∧ text ∉ library.texts r := by
  rw [setDifference, mem_fresh]
  exact and_comm

theorem mem_setIntersection (text : String) (l r : List Json) :
    text ∈ library.texts (setIntersection library l r) ↔
      (text ∈ library.texts l ∧ text ∈ library.texts r) ∨
        (library.texts r).Duplicate text := by
  rw [setIntersection, mem_copied, mem_hashPass_hash]
  simp only [List.not_mem_nil, false_or]

theorem setIntersection_isIntersection {l r : List Json}
    (hnodup : (library.texts r).Nodup) :
    library.IsIntersection l r (setIntersection library l r) := by
  constructor
  · intro text
    rw [mem_setIntersection]
    constructor
    · intro hmem
      rcases hmem with hboth | hdup
      · exact hboth
      · exact absurd hnodup hdup.not_nodup
    · exact .inl
  · exact hnodup.sublist ((hashPass_sublist library _ _ r).map _)

theorem nodup_of_isIntersection {l r : List Json}
    (hresult : library.IsIntersection l r (setIntersection library l r)) :
    (library.texts r).Nodup := by
  rw [List.nodup_iff_forall_not_duplicate]
  intro text hdup
  have hcopied : text ∈ library.texts (setIntersection library l r) :=
    (mem_setIntersection library text l r).mpr (.inr hdup)
  have hleft : text ∈ library.texts l := ((hresult.mem_iff text).mp hcopied).1
  have hknown : text ∈ (hashPass library (fun _ => false) [] l).1 :=
    (mem_hashPass_hash library _ text [] l).mpr (.inr hleft)
  have hcount : (library.texts (setIntersection library l r)).count text =
      (library.texts r).count text :=
    count_copied library hknown r
  have honce := List.nodup_iff_count_le_one.mp hresult.nodup text
  have htwice := List.duplicate_iff_two_le_count.mp hdup
  omega

/-- The code reads every element that the second array repeats as one of both. -/
theorem bitAnd_intersects_iff (l r : List Json) :
    (∃ result, run library .bitAnd (.array l) (.array r) = .ok (.array result) ∧
      library.IsIntersection l r result) ↔ (library.texts r).Nodup := by
  constructor
  · intro hresult
    obtain ⟨result, hrun, hinter⟩ := hresult
    cases hrun
    exact nodup_of_isIntersection library hinter
  · intro hnodup
    exact ⟨_, rfl, setIntersection_isIntersection library hnodup⟩

theorem bitAnd_repeated_element :
    ¬ ∀ (library : Library) (l r : List Json), ∃ result,
      run library .bitAnd (.array l) (.array r) = .ok (.array result) ∧
        library.IsIntersection l r result := by
  intro hall
  obtain ⟨result, hrun, hinter⟩ := hall .bare [] [.null, .null]
  have hresult : run .bare .bitAnd (.array []) (.array [.null, .null]) =
      .ok (.array [.null]) := by decide
  rw [hresult] at hrun
  cases hrun
  have hnone := ((hinter.mem_iff "null").mp (by decide)).1
  cases hnone

end BinaryOp

end Uskit
