import Uskit.Data.FirstOccurrences
import Uskit.Expression.ArraySets

namespace Uskit.BinaryOp

open Uskit.Data

/-! Union and difference of arrays as lists of first occurrences, and the laws
that they keep. -/

variable (library : Library)

/-- The pass that copies what it has not met before keeps the first occurrences
of what the hash does not know from the start. -/
theorem hashPass_fresh (hash : List String) (elements : List Json) :
    (hashPass library (!·) hash elements).2 =
      without library.jsonEncode hash (firsts library.jsonEncode elements) := by
  induction elements generalizing hash with
  | nil => rfl
  | cons v rest ih =>
      have hrest : without library.jsonEncode (library.jsonEncode v :: hash)
          (firsts library.jsonEncode rest) =
          without library.jsonEncode hash (without library.jsonEncode
            [library.jsonEncode v] (firsts library.jsonEncode rest)) := by
        rw [without_without]
        rfl
      rw [hashPass_cons, ih, firsts_cons_without, without_cons, ← hrest]
      by_cases hknown : library.jsonEncode v ∈ hash
      · rw [if_pos hknown, if_neg (by simpa using hknown)]
      · rw [if_neg hknown, if_pos (by simpa using hknown)]

theorem setDifference_eq (l r : List Json) :
    setDifference library l r =
      without library.jsonEncode (library.texts r)
        (firsts library.jsonEncode l) :=
  hashPass_fresh library _ l

theorem setUnion_eq (l r : List Json) :
    setUnion library l r = firsts library.jsonEncode (l ++ r) := by
  have hpasses : setUnion library l r =
      (hashPass library (!·) [] l).2 ++
        (hashPass library (!·) (hashPass library (!·) [] l).1 r).2 := rfl
  rw [hpasses, hashPass_fresh, hashPass_fresh, without_nil, firsts_append]
  congr 1
  apply without_congr
  intro text
  rw [mem_hashPass_hash]
  simp [Library.texts]

theorem setUnion_assoc (a b c : List Json) :
    setUnion library (setUnion library a b) c =
      setUnion library a (setUnion library b c) := by
  simp only [setUnion_eq]
  rw [firsts_firsts_append, firsts_append_firsts, List.append_assoc]

theorem setDifference_setUnion (a b : List Json) :
    setDifference library (setUnion library a b) b = setDifference library a b := by
  have hnone : without library.jsonEncode (library.texts b) b = [] :=
    without_self library.jsonEncode b
  rw [setDifference_eq, setDifference_eq, setUnion_eq, firsts_firsts,
    ← firsts_without, without_append, hnone, List.append_nil, firsts_without]

theorem setDifference_disjoint (a b : List Json) :
    (library.texts (setDifference library a b)).Disjoint (library.texts b) := by
  intro text hdifference hb
  exact ((mem_setDifference library text a b).mp hdifference).2 hb

/-- What `|` and `-` make of arrays, that `|` is associative, and that `-` takes
back what `|` has added. -/
theorem array_laws (a b c : List Json) :
    run library .bitOr (.array a) (.array b) =
        .ok (.array (firsts library.jsonEncode (a ++ b))) ∧
      run library .sub (.array a) (.array b) =
        .ok (.array (without library.jsonEncode (library.texts b)
          (firsts library.jsonEncode a))) ∧
      (run library .bitOr (.array a) (.array b) >>= fun ab =>
          run library .bitOr ab (.array c)) =
        (run library .bitOr (.array b) (.array c) >>= fun bc =>
          run library .bitOr (.array a) bc) ∧
      (run library .bitOr (.array a) (.array b) >>= fun ab =>
          run library .sub ab (.array b)) =
        run library .sub (.array a) (.array b) ∧
      ∃ difference,
        run library .sub (.array a) (.array b) = .ok (.array difference) ∧
          (library.texts difference).Disjoint (library.texts b) := by
  refine ⟨?_, ?_, ?_, ?_, ?_⟩
  · exact congrArg (fun list => Result.ok (Json.array list)) (setUnion_eq library a b)
  · exact congrArg (fun list => Result.ok (Json.array list))
      (setDifference_eq library a b)
  · exact congrArg (fun list => Result.ok (Json.array list))
      (setUnion_assoc library a b c)
  · exact congrArg (fun list => Result.ok (Json.array list))
      (setDifference_setUnion library a b)
  · exact ⟨setDifference library a b, rfl, setDifference_disjoint library a b⟩

end Uskit.BinaryOp
