import Uskit.Data.RankedSort
import Uskit.DynamicConfig.KE
import Uskit.Expression.Driver
import Uskit.Function.StdString

namespace Uskit

open Uskit.Data

/-! `KEMap::init`: the keys of a map are put in the order of their depth. -/

structure KVE where
  key : String
  value : Option String
  expr : Option String

/-- The expression of an entry; `expr` goes before `value`. -/
def KVE.expression (runtime : Expression.Runtime) (kve : KVE) : Option Expr :=
  match kve.expr, kve.value with
  | some text, _ =>
      match Expression.Driver.parse runtime text.toList with
      | .accepted expr => some expr
      | _ => none
  | none, some value => some (.string value)
  | none, none => none

def kveDelimeter : String := "/"

def kveIsRoot2path : Bool := true

section Order

variable (trimString : String → String → String)

/-- `StringCompare::operator()`. -/
def stringCompare (delimeter : String) (isRoot2leaf : Bool) (a b : String) : Bool :=
  let aTrim := trimString a delimeter
  let bTrim := trimString b delimeter
  let aLevels := aTrim.toList.count (delimeter.toList.headD '\x00')
  let bLevels := bTrim.toList.count (delimeter.toList.headD '\x00')
  if aLevels = bLevels ∧ aLevels = 0 then
    if aTrim = "" then isRoot2leaf
    else if bTrim = "" then !isRoot2leaf
    else false
  else if aLevels < bLevels then isRoot2leaf
  else if bLevels < aLevels then !isRoot2leaf
  else false

/-- The comparator of `init`. -/
def keyLess (a b : String) : Bool :=
  stringCompare trimString kveDelimeter kveIsRoot2path a b

/-- May `a` stay before `b`? -/
def KeyStays (a b : String) : Prop :=
  keyLess trimString b a = false

instance : DecidableRel (KeyStays trimString) :=
  fun a b => inferInstanceAs (Decidable (keyLess trimString b a = false))

namespace KEMap

/-- `std::stable_sort` of the keys: what does not compare less stays behind. -/
def keyOrder (keys : List String) : List String :=
  keys.insertionSort (KeyStays trimString)

/-- `_ke_map` has the first expression of a key; `_key_order` has every key as
often as it is listed. -/
def ofPairs (pairs : List (String × Expr)) : KEMap :=
  (keyOrder trimString (pairs.map Prod.fst)).filterMap fun key =>
    (pairs.lookup key).map (key, ·)

def init (runtime : Expression.Runtime) (kveList : List KVE) : Option KEMap := do
  let pairs ← kveList.mapM fun kve =>
    (kve.expression runtime).map (kve.key, ·)
  some (ofPairs trimString pairs)

end KEMap

/-- The depth of a key as the comparator sees it, from 0 for the root. -/
def keyDepth (key : String) : Nat :=
  let trimmed := trimString key kveDelimeter
  if trimmed = "" then 0 else trimmed.toList.count '/' + 1

variable {trimString}

/-- The comparator goes by the depth, and sets two keys of the root apart. -/
theorem stringCompare_eq (isRoot2leaf : Bool) (a b : String) :
    stringCompare trimString kveDelimeter isRoot2leaf a b =
      if keyDepth trimString a < keyDepth trimString b then isRoot2leaf
      else if keyDepth trimString b < keyDepth trimString a then !isRoot2leaf
      else decide (keyDepth trimString a = 0) && isRoot2leaf := by
  have hempty : ∀ text : String, text = "" → text.toList.count '/' = 0 := by
    intro text htext
    rw [htext]
    rfl
  have ha := hempty (trimString a kveDelimeter)
  have hb := hempty (trimString b kveDelimeter)
  simp only [stringCompare, keyDepth,
    show kveDelimeter.toList.headD '\x00' = '/' from rfl]
  grind

theorem stringCompare_root2leaf (a b : String) :
    stringCompare trimString kveDelimeter true a b = true ↔
      keyDepth trimString a < keyDepth trimString b ∨
        (keyDepth trimString a = 0 ∧ keyDepth trimString b = 0) := by
  rw [stringCompare_eq]
  split
  · rename_i hless
    simp [hless]
  · split
    · simp
      omega
    · simp
      omega

theorem stringCompare_leaf2root (a b : String) :
    stringCompare trimString kveDelimeter false a b = true ↔
      keyDepth trimString b < keyDepth trimString a := by
  rw [stringCompare_eq]
  split
  · simp
    omega
  · simp

theorem keyLess_iff (a b : String) :
    keyLess trimString a b = true ↔
      keyDepth trimString a < keyDepth trimString b ∨
        (keyDepth trimString a = 0 ∧ keyDepth trimString b = 0) :=
  stringCompare_root2leaf a b

theorem keyStays_iff (a b : String) :
    KeyStays trimString a b ↔
      keyDepth trimString a ≤ keyDepth trimString b ∧
        (keyDepth trimString a ≠ 0 ∨ keyDepth trimString b ≠ 0) := by
  rw [KeyStays, ← Bool.not_eq_true, keyLess_iff]
  omega

theorem keyStays_goesBy : GoesBy (KeyStays trimString) (keyDepth trimString) where
  le_of_rel a b hrel := ((keyStays_iff a b).mp hrel).1
  le_of_not_rel a b hrel := by
    rw [keyStays_iff] at hrel
    omega

theorem not_keyStays_of_le (a b c : String) (hrel : ¬ KeyStays trimString a b)
    (hle : keyDepth trimString c ≤ keyDepth trimString b) : ¬ KeyStays trimString a c := by
  rw [keyStays_iff] at hrel ⊢
  omega

namespace KEMap

theorem keyOrder_perm (trimString : String → String → String) (keys : List String) :
    (keyOrder trimString keys).Perm keys :=
  List.perm_insertionSort (KeyStays trimString) keys

theorem keyOrder_sorted (trimString : String → String → String) (keys : List String) :
    RankSorted (keyDepth trimString) (keyOrder trimString keys) :=
  keyStays_goesBy.insertionSort_sorted keys

theorem ofPairs_of_lookup {pairs : List (String × Expr)} {expr : String → Expr}
    (hlookup : ∀ key ∈ pairs.map Prod.fst, pairs.lookup key = some (expr key)) :
    ofPairs trimString pairs =
      (keyOrder trimString (pairs.map Prod.fst)).map fun key => (key, expr key) := by
  have hkeys : ∀ key ∈ keyOrder trimString (pairs.map Prod.fst),
      pairs.lookup key = some (expr key) := by
    intro key hkey
    exact hlookup key ((keyOrder_perm trimString _).mem_iff.mp hkey)
  rw [ofPairs]
  generalize keyOrder trimString (pairs.map Prod.fst) = order at hkeys
  induction order with
  | nil => rfl
  | cons key rest ih =>
      rw [List.filterMap_cons, hkeys key List.mem_cons_self, List.map_cons,
        ih fun other hother => hkeys other (.tail _ hother)]
      rfl

theorem lookup_map_key (expr : String → Expr) {keys : List String} {key : String}
    (hkey : key ∈ keys) :
    (keys.map fun key => (key, expr key)).lookup key = some (expr key) := by
  induction keys with
  | nil => cases hkey
  | cons first rest ih =>
      by_cases heq : key = first
      · rw [heq, List.map_cons, List.lookup_cons_self]
      · rw [List.map_cons, Members.lookup_cons_of_ne heq]
        exact ih (List.mem_of_ne_of_mem heq hkey)

/-- One expression for each key: the map is the keys in their order with it. -/
theorem ofPairs_map (expr : String → Expr) (keys : List String) :
    ofPairs trimString (keys.map fun key => (key, expr key)) =
      (keyOrder trimString keys).map fun key => (key, expr key) := by
  have hfst : (keys.map fun key => (key, expr key)).map Prod.fst = keys := by
    rw [List.map_map]
    exact List.map_id keys
  have hlookup : ∀ key ∈ (keys.map fun key => (key, expr key)).map Prod.fst,
      (keys.map fun key => (key, expr key)).lookup key = some (expr key) := by
    intro key hkey
    rw [hfst] at hkey
    exact lookup_map_key expr hkey
  rw [ofPairs_of_lookup hlookup, hfst]

/-- Pairs of distinct keys are some expression for each key. -/
theorem exists_expr_of_nodup {pairs : List (String × Expr)}
    (hnodup : (pairs.map Prod.fst).Nodup) :
    ∃ expr : String → Expr,
      pairs = (pairs.map Prod.fst).map fun key => (key, expr key) := by
  refine ⟨fun key => (pairs.lookup key).getD .null, ?_⟩
  have hself : ∀ pair ∈ pairs,
      (pair.1, (pairs.lookup pair.1).getD .null) = pair := by
    intro pair hpair
    rw [Members.lookup_of_mem hnodup hpair]
    rfl
  rw [List.map_map]
  exact ((List.map_congr_left hself).trans (List.map_id pairs)).symm

end KEMap

end Order

end Uskit
