import Uskit.Data.WeakOrder
import Uskit.DynamicConfig.KeyPath

namespace Uskit

open Uskit.Data

/-! `StringCompare` on the keys of a list: when it is a strict weak order, and that
it puts a key before those that go on from it. -/

/-- The path of the other key goes on from that of the key, by tokens that are not
empty. -/
def Extends (key other : String) : Prop :=
  ∃ more, more ≠ [] ∧ [] ∉ more ∧ keyNames other = keyNames key ++ more

variable {trimString : String → String → String}

/-- The comparator orders the keys as `std::stable_sort` needs it, and from the root
to the leaves if it is to. -/
structure OrdersKeys (trimString : String → String → String) (isRoot2leaf : Bool)
    (keys : Set String) : Prop where
  weakOrder : IsStrictWeakOrder keys fun a b =>
    stringCompare trimString kveDelimeter isRoot2leaf a b = true
  places : isRoot2leaf = true → ∀ key ∈ keys, ∀ other ∈ keys, Extends key other →
    stringCompare trimString kveDelimeter isRoot2leaf key other = true ∧
      stringCompare trimString kveDelimeter isRoot2leaf other key = false

/-- The depth of a path that is written in full. -/
def textDepth (text : List Char) : Nat :=
  if trimEnds ['/'] text = [] then 0 else (trimEnds ['/'] text).count '/' + 1

section Depth

theorem keyDepth_eq_textDepth (htrims : Function.TrimsEnds trimString) (key : String) :
    keyDepth trimString key = textDepth key.toList := by
  have htrim : (trimString key kveDelimeter).toList =
      trimEnds ['/'] key.toList :=
    htrims key kveDelimeter
  have hempty : trimString key kveDelimeter = "" ↔
      trimEnds ['/'] key.toList = [] := by
    rw [← htrim, String.toList_eq_nil_iff]
  exact if_congr hempty rfl (congrArg (fun text => text.count '/' + 1) htrim)

theorem textDepth_cons (text : List Char) : textDepth ('/' :: text) = textDepth text := by
  have htrim : trimEnds ['/'] ('/' :: text) = trimEnds ['/'] text :=
    trimEnds_cons List.mem_cons_self
  rw [textDepth, htrim, ← textDepth]

theorem keyDepth_normalizePath (htrims : Function.TrimsEnds trimString) (key : String) :
    keyDepth trimString key = textDepth (normalizePath key).toList := by
  rw [keyDepth_eq_textDepth htrims]
  rcases normalizePath_cases key with ⟨hkey, hroot⟩ | ⟨rest, -, hkey, hpath⟩
  · rw [hroot]
    rcases hkey with rfl | rfl
    · rfl
    · exact textDepth_cons []
  · rw [hpath, textDepth_cons]
    rcases hkey with hkey | hkey
    · rw [hkey]
    · rw [hkey, textDepth_cons]

theorem textDepth_eq_zero {text : List Char} (htext : ∀ c ∈ text, c ∈ ['/']) :
    textDepth text = 0 :=
  if_pos (trimEnds_eq_nil_iff.mpr htext)

theorem textDepth_of_not {text : List Char} (htext : ¬ ∀ c ∈ text, c ∈ ['/']) :
    textDepth text = (trimEnds ['/'] text).count '/' + 1 :=
  if_neg (mt trimEnds_eq_nil_iff.mp htext)

/-- What ends in a token goes deeper by its separators. -/
theorem textDepth_lt_append (text : List Char) {more : List Char} (hslash : '/' ∈ more)
    (hlast : ∀ last ∈ more.getLast?, last ∉ ['/']) :
    textDepth text < textDepth (text ++ more) := by
  have hmore : more ≠ [] := List.ne_nil_of_mem hslash
  have hboth : ¬ ∀ c ∈ text ++ more, c ∈ ['/'] := by
    intro hall
    exact hlast _ (List.getLast?_eq_some_getLast hmore)
      (hall _ (List.mem_append_right _ (List.getLast_mem hmore)))
  rw [textDepth_of_not hboth]
  by_cases hroot : ∀ c ∈ text, c ∈ ['/']
  · rw [textDepth_eq_zero hroot]
    exact Nat.zero_lt_succ _
  · have hcount : 0 < more.count '/' := List.count_pos_iff.mpr hslash
    have hback : (trimEnds ['/'] text).count '/' ≤
        (text.dropWhile (['/'].contains ·)).count '/' :=
      (List.rdropWhile_prefix _ _).sublist.count_le '/'
    rw [textDepth_of_not hroot, trimEnds_append_of_last hroot hmore hlast,
      List.count_append]
    omega

end Depth

section Names

/-- No token has a separator in it. -/
theorem slash_not_mem_keyNames {key : String} {name : List Char}
    (hname : name ∈ keyNames key) : '/' ∉ name :=
  slash_not_mem_splitOn (List.mem_of_mem_tail hname)

theorem normalizePath_extends {key other : String} {more : List (List Char)}
    (hmore : more ≠ []) (hnames : keyNames other = keyNames key ++ more) :
    (normalizePath other).toList =
      (normalizePath key).toList ++ '/' :: ['/'].intercalate more := by
  rcases normalizePath_cases other with ⟨-, hroot⟩ | ⟨rest, -, -, hother⟩
  · rw [keyNames_of_root hroot] at hnames
    exact absurd (List.append_eq_nil_iff.mp hnames.symm).2 hmore
  · have hjoin : ['/'].intercalate (rest.splitOn '/') = rest :=
      List.intercalate_splitOn '/'
    rw [keyNames_of_path hother] at hnames
    rw [hother, ← hjoin, hnames]
    rcases normalizePath_cases key with ⟨-, hroot⟩ | ⟨first, -, -, hkey⟩
    · rw [keyNames_of_root hroot, hroot]
      rfl
    · have hfirst : ['/'].intercalate (first.splitOn '/') = first :=
        List.intercalate_splitOn '/'
      rw [keyNames_of_path hkey, hkey,
        intercalate_append (List.splitOn_ne_nil '/' first) hmore, hfirst]
      simp

theorem keyDepth_lt_of_extends (htrims : Function.TrimsEnds trimString)
    {key other : String} (hextends : Extends key other) :
    keyDepth trimString key < keyDepth trimString other := by
  obtain ⟨more, hmore, hfilled, hnames⟩ := hextends
  have hfree : ∀ name ∈ more, ∀ c ∈ name, c ∉ ['/'] := by
    intro name hname c hc hslash
    rw [List.mem_singleton.mp hslash] at hc
    have hother : name ∈ keyNames other := by
      rw [hnames]
      exact List.mem_append_right _ hname
    exact slash_not_mem_keyNames hother hc
  rw [keyDepth_normalizePath htrims, keyDepth_normalizePath htrims,
    normalizePath_extends hmore hnames]
  apply textDepth_lt_append _ List.mem_cons_self
  intro last hlast
  rw [List.getLast?_cons_of_ne_nil (intercalate_ne_nil hmore hfilled)] at hlast
  exact (trimmed_intercalate hfilled hfree).last last hlast

end Names

theorem keyDepth_eq_zero {key : String} :
    keyDepth trimString key = 0 ↔ trimString key kveDelimeter = "" := by
  rw [keyDepth]
  simp

/-- The comparator goes by the depth, from the root to the leaves but for two keys of
the root. -/
theorem ordersKeys_iff (htrims : Function.TrimsEnds trimString) (isRoot2leaf : Bool)
    (keys : Set String) :
    OrdersKeys trimString isRoot2leaf keys ↔
      (isRoot2leaf = true → ∀ key ∈ keys, trimString key kveDelimeter ≠ "") := by
  constructor
  · rintro horders rfl key hkey hroot
    have hirrefl := horders.weakOrder.irrefl ⟨key, hkey⟩
    rw [stringCompare_root2leaf] at hirrefl
    have hdepth := keyDepth_eq_zero.mpr hroot
    exact hirrefl (.inr ⟨hdepth, hdepth⟩)
  · intro hkeys
    cases isRoot2leaf with
    | false =>
        have hrank (a b : keys) : stringCompare trimString kveDelimeter false a b = true ↔
            OrderDual.toDual (keyDepth trimString a) <
              OrderDual.toDual (keyDepth trimString b) := by
          rw [stringCompare_leaf2root, OrderDual.toDual_lt_toDual]
        exact ⟨isStrictWeakOrder_of_rank hrank, nofun⟩
    | true =>
        have hrank (a b : keys) : stringCompare trimString kveDelimeter true a b = true ↔
            keyDepth trimString a < keyDepth trimString b := by
          have hdepth : keyDepth trimString a ≠ 0 :=
            mt keyDepth_eq_zero.mp (hkeys rfl a a.property)
          rw [stringCompare_root2leaf]
          simp only [hdepth, false_and, or_false]
        refine ⟨isStrictWeakOrder_of_rank hrank, ?_⟩
        intro _ key hkey other hother hextends
        have hless := keyDepth_lt_of_extends htrims hextends
        rw [← Bool.not_eq_true]
        constructor
        · exact (hrank ⟨key, hkey⟩ ⟨other, hother⟩).mpr hless
        · intro hback
          exact Nat.lt_asymm hless ((hrank ⟨other, hother⟩ ⟨key, hkey⟩).mp hback)

theorem ordersKeys_nested : OrdersKeys Function.trimBoth true {"a/b", "/a"} := by
  apply (ordersKeys_iff Function.trimBoth_trimsEnds true {"a/b", "/a"}).mpr
  intro _ key hkey
  rcases hkey with rfl | rfl
  · decide
  · decide

/-- A key of the root compares less than itself. -/
theorem rootKey_before_itself :
    ¬ ∀ trimString, Function.TrimsEnds trimString →
      ∀ isRoot2leaf, OrdersKeys trimString isRoot2leaf Set.univ := by
  intro hall
  have horders := hall Function.trimBoth Function.trimBoth_trimsEnds true
  have hirrefl := horders.weakOrder.irrefl ⟨"", trivial⟩
  exact hirrefl (by decide)

end Uskit
