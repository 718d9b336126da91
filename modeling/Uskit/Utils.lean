import Mathlib.Data.List.Basic

namespace Uskit

/-! `replace_all` of the utilities. -/

/-- The loop over `str.find`.  After a match it goes on behind the replacement;
`skip` counts the characters of the match that are left. -/
def replaceFrom (source target : List Char) : (skip : Nat) → List Char → List Char
  | _, [] => []
  | skip + 1, _ :: rest => replaceFrom source target skip rest
  | 0, c :: rest =>
      if source.isPrefixOf (c :: rest) then
        target ++ replaceFrom source target (source.length - 1) rest
      else c :: replaceFrom source target 0 rest

/-- No value: an empty `source` is found at every position, and the loop does not
end. -/
def replaceAll (str source target : String) : Option String :=
  if str = "" then some str
  else if source = "" then none
  else some (.ofList (replaceFrom source.toList target.toList 0 str.toList))

/-- What the escape of a log line makes of a text. -/
def percentDoubled (text : List Char) : List Char :=
  text.flatMap fun c => if c = '%' then ['%', '%'] else [c]

theorem replaceFrom_percent (text : List Char) :
    replaceFrom ['%'] ['%', '%'] 0 text = percentDoubled text := by
  induction text with
  | nil => rfl
  | cons c rest ih =>
      rw [replaceFrom]
      by_cases hc : c = '%'
      · subst hc
        have hmatch : ['%'].isPrefixOf ('%' :: rest) = true := by simp
        rw [if_pos hmatch, List.length_singleton, Nat.sub_self, ih]
        rfl
      · have hne : ('%' == c) = false := beq_eq_false_iff_ne.mpr (Ne.symm hc)
        have hmatch : ['%'].isPrefixOf (c :: rest) = false := by
          rw [List.isPrefixOf, hne, Bool.false_and]
        rw [hmatch, if_neg Bool.false_ne_true, ih, percentDoubled, percentDoubled,
          List.flatMap_cons, if_neg hc]
        rfl

theorem replaceAll_percent (text : String) :
    replaceAll text "%" "%%" = some (.ofList (percentDoubled text.toList)) := by
  by_cases hempty : text = ""
  · subst hempty
    rfl
  · rw [replaceAll, if_neg hempty, if_neg (by decide)]
    exact congrArg (fun list => some (String.ofList list))
      (replaceFrom_percent text.toList)

theorem length_le_percentDoubled (text : List Char) :
    text.length ≤ (percentDoubled text).length := by
  induction text with
  | nil => exact Nat.le_refl _
  | cons c rest ih =>
      rw [percentDoubled, List.flatMap_cons, List.length_append, List.length_cons]
      have hhead : 1 ≤ (if c = '%' then ['%', '%'] else [c]).length := by
        split
        · exact Nat.le_add_left 1 1
        · exact Nat.le_refl 1
      have htail : rest.length ≤
          (rest.flatMap fun c => if c = '%' then ['%', '%'] else [c]).length := ih
      omega

theorem percentDoubled_eq_self_iff {text : List Char} :
    percentDoubled text = text ↔ '%' ∉ text := by
  induction text with
  | nil => simp [percentDoubled]
  | cons c rest ih =>
      by_cases hc : c = '%'
      · subst hc
        have hlength := length_le_percentDoubled rest
        constructor
        · intro heq
          have heq := congrArg List.length heq
          rw [percentDoubled, List.flatMap_cons, if_pos rfl, List.length_append] at heq
          have hrest : (percentDoubled rest).length =
            (rest.flatMap fun c => if c = '%' then ['%', '%'] else [c]).length := rfl
          simp only [List.length_cons, List.length_nil] at heq
          omega
        · intro hfree
          exact absurd List.mem_cons_self hfree
      · have hcons : percentDoubled (c :: rest) = c :: percentDoubled rest := by
          simp [percentDoubled, hc]
        rw [hcons, List.cons_inj_right, ih]
        simp [Ne.symm hc]

end Uskit
