import Mathlib.Algebra.GroupWithZero.Nat
import Mathlib.Algebra.Order.BigOperators.Group.List
import Mathlib.Algebra.Order.Group.Nat
import Uskit.DynamicConfig.Ranking

namespace Uskit

open Uskit.Data

/-! When a ranking is right for every rule: a rule that lists one candidate and
evaluates for one item only tells what the turns have shown. -/

namespace RankConfig

/-! The names of the entries. -/

theorem toString_injective {first second : Nat}
    (hsame : toString first = toString second) : first = second := by
  rw [Nat.toString_eq_repr, Nat.toString_eq_repr] at hsame
  have hread : ∀ value : Nat,
      Nat.ofDigitChars 10 (Nat.repr value).toList 0 = value := by
    intro value
    rw [Nat.toList_repr]
    exact Nat.ofDigitChars_toDigits (by decide) (by decide)
  rw [← hread first, hsame, hread second]

theorem element_injective {name : String} {first second : Nat}
    (hsame : name ++ "/" ++ toString first = name ++ "/" ++ toString second) :
    first = second := by
  apply toString_injective
  rw [← String.toList_inj] at hsame ⊢
  simp only [String.toList_append] at hsame
  exact List.append_cancel_left hsame

theorem names_elementItems (name : String) (index : Nat) (elements : List Json) :
    Members.names (elementItems name index elements) =
      (List.range' index elements.length).map fun index => name ++ "/" ++ toString index := by
  induction elements generalizing index with
  | nil => rfl
  | cons element rest ih =>
      rw [elementItems, Members.names, List.map_cons, List.length_cons,
        List.range'_succ, List.map_cons]
      exact congrArg _ (ih (index + 1))

theorem nodup_names_itemsOf (candidate : String) (result : Option Json) :
    (Members.names (itemsOf candidate result)).Nodup := by
  unfold itemsOf
  split
  · exact List.nodup_nil
  · rw [names_elementItems]
    apply List.Nodup.map _ List.nodup_range'
    intro first second hsame
    exact element_injective hsame
  · exact List.nodup_singleton candidate

theorem names_itemsOf (candidate : String) (result : Option Json) :
    Members.names (itemsOf candidate result) = [candidate] ∨
      ∃ count, Members.names (itemsOf candidate result) =
        (List.range' 0 count).map fun index => candidate ++ "/" ++ toString index := by
  unfold itemsOf
  split
  · exact .inr ⟨0, rfl⟩
  · exact .inr ⟨_, names_elementItems candidate 0 _⟩
  · exact .inl rfl

theorem candidate_ne_element (candidate : String) (index : Nat) :
    candidate ≠ candidate ++ "/" ++ toString index := by
  intro hsame
  have hlength := congrArg String.length hsame
  have hslash : "/".length = 1 := rfl
  simp only [String.length_append, hslash] at hlength
  omega

theorem not_perm_elements {candidate : String} {count : Nat} :
    ¬ [candidate].Perm
      ((List.range' 0 count).map fun index => candidate ++ "/" ++ toString index) := by
  intro hperm
  obtain ⟨index, -, hindex⟩ :=
    List.mem_map.mp (hperm.mem_iff.mp (List.mem_singleton.mpr rfl))
  exact candidate_ne_element candidate index hindex.symm

/-- The names of its items, in any order, tell how they are counted. -/
theorem names_itemsOf_of_perm {candidate : String} {first second : Option Json}
    (hperm : (Members.names (itemsOf candidate first)).Perm
      (Members.names (itemsOf candidate second))) :
    Members.names (itemsOf candidate first) =
      Members.names (itemsOf candidate second) := by
  rcases names_itemsOf candidate first with hfirst | ⟨count, hfirst⟩
  · rcases names_itemsOf candidate second with hsecond | ⟨other, hsecond⟩
    · rw [hfirst, hsecond]
    · rw [hfirst, hsecond] at hperm
      exact absurd hperm not_perm_elements
  · rcases names_itemsOf candidate second with hsecond | ⟨other, hsecond⟩
    · rw [hfirst, hsecond] at hperm
      exact absurd hperm.symm not_perm_elements
    · have hcount := hperm.length_eq
      rw [hfirst, hsecond, List.length_map, List.length_map, List.length_range',
        List.length_range'] at hcount
      rw [hfirst, hsecond, hcount]

theorem eq_of_perm_of_names {α : Type} {first second : Members String α}
    (hperm : first.Perm second) (hnames : Members.names first = Members.names second)
    (hnodup : (Members.names second).Nodup) : first = second := by
  induction first generalizing second with
  | nil => exact hperm.nil_eq
  | cons entry rest ih =>
      cases second with
      | nil => exact absurd hperm.length_eq (by simp)
      | cons other others =>
          rw [Members.names, Members.names, List.map_cons, List.map_cons,
            List.cons.injEq] at hnames
          rw [Members.names, List.map_cons, List.nodup_cons] at hnodup
          have hentry : entry = other := by
            rcases List.mem_cons.mp (hperm.mem_iff.mp List.mem_cons_self) with
              hhead | htail
            · exact hhead
            · rw [← hnames.1] at hnodup
              exact absurd (List.mem_map_of_mem htail) hnodup.1
          subst hentry
          rw [ih (List.perm_cons entry |>.mp hperm) hnames.2 hnodup.2]

/-! A rule that lists one candidate and evaluates for one item. -/

/-- Its function is defined for the item only. -/
def probe (item : Json) : Library :=
  { Library.bare with
    callFunction := fun _ args => if args = [item] then .ok (.number (.int 0)) else .failed }

def probing (candidate : String) : RankConfig where
  sortBy := [.call "probe" [.variable "item"] []]
  desc := [true, true]
  order := [(candidate, 1)]

def probed : List Json := [.number (.int 1), .number (.int 0)]

theorem probing_built (candidate : String) : (probing candidate).Built :=
  ⟨[true], rfl, rfl⟩

theorem orderFeatures_probing (candidate other : String) :
    (probing candidate).orderFeatures other =
      if other = candidate then [.number (.int 1)] else [] := by
  rw [orderFeatures, probing]
  dsimp only
  by_cases hother : other = candidate
  · rw [if_pos hother, hother, List.lookup_cons_self]
  · rw [if_neg hother, Members.lookup_cons_of_ne hother, List.lookup_nil]

theorem runArgs_probing (item : Json) (candidate : String) (context : Context) :
    Expr.runArgs (probe item) context (probing candidate).sortBy =
      if context.getVariable "item" = some item then .ok [.number (.int 0)] else .failed := by
  simp only [probing, Expr.runArgs, Expr.run]
  cases context.getVariable "item" with
  | none => rfl
  | some found =>
      simp only [Result.ok_bind, probe, List.cons.injEq, and_true, Option.some.injEq]
      split
      · simp only [Result.ok_bind, Expr.runNext]
      · rfl

/-- The names under which the item is. -/
def namesOf (item : Json) (seen : Members String (Option Json)) : List String :=
  (seen.filter fun entry => entry.2 = some item).map Prod.fst

theorem gather_probing (item : Json) (candidate other : String)
    (turns : List (String × Context)) :
    ∃ entries, gather (probe item) (probing candidate)
        ((probing candidate).orderFeatures other) turns = .ok entries ∧
      (∀ entry ∈ entries, entry.features = probed) ∧
      entries.map RankEntry.name =
        if other = candidate then namesOf item (shown turns) else [] := by
  rw [orderFeatures_probing]
  induction turns with
  | nil => exact ⟨[], rfl, List.forall_mem_nil _, by simp [namesOf, shown]⟩
  | cons turn rest ih =>
      obtain ⟨entries, hrest, hfeatures, hnames⟩ := ih
      obtain ⟨name, context⟩ := turn
      rw [gather, runArgs_probing]
      by_cases hitem : context.getVariable "item" = some item
      · rw [if_pos hitem]
        dsimp only
        rw [hrest, Result.ok_bind]
        by_cases hother : other = candidate
        · refine ⟨⟨name, probed⟩ :: entries, ?_, ?_, ?_⟩
          · simp [hother, probing, probed]
          · rw [List.forall_mem_cons]
            exact ⟨rfl, hfeatures⟩
          · rw [List.map_cons, hnames, if_pos hother, if_pos hother]
            simp [namesOf, shown, hitem]
        · refine ⟨entries, ?_, hfeatures, ?_⟩
          · simp [hother, probing]
          · rw [hnames, if_neg hother, if_neg hother]
      · rw [if_neg hitem]
        refine ⟨entries, hrest, hfeatures, ?_⟩
        rw [hnames]
        simp [namesOf, shown, hitem]

theorem gatherAll_probing (item : Json) (candidate : String)
    (all : List (String × List (String × Context))) :
    ∃ entries, gatherAll (probe item) (probing candidate) all = .ok entries ∧
      (∀ entry ∈ entries, entry.features = probed) ∧
      entries.map RankEntry.name =
        (all.filter fun turns => turns.1 = candidate).flatMap fun turns =>
          namesOf item (shown turns.2) := by
  induction all with
  | nil => exact ⟨[], rfl, List.forall_mem_nil _, rfl⟩
  | cons turns rest ih =>
      obtain ⟨others, hothers, hotherFeatures, hotherNames⟩ := ih
      obtain ⟨first, hfirst, hfeatures, hnames⟩ :=
        gather_probing item candidate turns.1 turns.2
      refine ⟨first ++ others, ?_, ?_, ?_⟩
      · rw [gatherAll, hfirst, Result.ok_bind, hothers, Result.ok_bind]
      · rw [List.forall_mem_append]
        exact ⟨hfeatures, hotherFeatures⟩
      · rw [List.map_append, hnames, hotherNames]
        by_cases hcandidate : turns.1 = candidate
        · simp [hcandidate]
        · simp [hcandidate]

theorem entriesOf_probing (item : Json) (candidate other : String)
    (context : Context) (items : List (String × Json)) :
    (∀ entry ∈ items.filterMap ((probing candidate).entryOf (probe item) context other),
      entry.features = probed) ∧
    (items.filterMap ((probing candidate).entryOf (probe item) context other)).map
        RankEntry.name =
      if other = candidate then namesOf item (wanted items) else [] := by
  induction items with
  | nil => exact ⟨List.forall_mem_nil _, by simp [namesOf, wanted]⟩
  | cons first rest ih =>
      obtain ⟨hfeatures, hnames⟩ := ih
      have hvalues := runArgs_probing item candidate (withItem first.2 context)
      rw [getVariable_withItem_self first.2 context cStr_item] at hvalues
      by_cases hother : other = candidate
      · subst hother
        by_cases hitem : first.2 = item
        · rw [if_pos (congrArg some hitem)] at hvalues
          have hentry : (probing other).entryOf (probe item) context other first =
              some ⟨first.1, probed⟩ := by
            rw [entryOf, hvalues, orderFeatures_probing]
            simp [probing, probed]
          rw [List.filterMap_cons_some hentry, List.forall_mem_cons, List.map_cons, hnames]
          refine ⟨⟨rfl, hfeatures⟩, ?_⟩
          simp [namesOf, wanted, hitem]
        · rw [if_neg fun hsame => hitem (Option.some.inj hsame)] at hvalues
          have hentry : (probing other).entryOf (probe item) context other first = none := by
            rw [entryOf, hvalues, ite_self]
          rw [List.filterMap_cons_none hentry, hnames]
          refine ⟨hfeatures, ?_⟩
          simp [namesOf, wanted, hitem]
      · have hentry : (probing candidate).entryOf (probe item) context other first =
            none := by
          rw [entryOf, if_neg]
          simp [probing, Members.lookup_cons_of_ne hother]
        rw [List.filterMap_cons_none hentry, hnames, if_neg hother, if_neg hother]
        exact ⟨hfeatures, rfl⟩

theorem eligible_probing (item : Json) (candidate : String) (backend : JsonMembers)
    (candidates : List String) (context : Context) :
    (∀ entry ∈ (probing candidate).eligible (probe item) backend candidates context,
      entry.features = probed) ∧
    ((probing candidate).eligible (probe item) backend candidates context).map
        RankEntry.name =
      (candidates.filter fun other => other = candidate).flatMap fun other =>
        namesOf item (wanted (itemsOf other (backend.lookup other))) := by
  induction candidates with
  | nil => exact ⟨List.forall_mem_nil _, rfl⟩
  | cons other rest ih =>
      obtain ⟨hfeatures, hnames⟩ := entriesOf_probing item candidate other context
        (itemsOf other (backend.lookup other))
      rw [eligible, List.flatMap_cons, List.forall_mem_append, List.map_append, hnames]
      refine ⟨⟨hfeatures, ih.1⟩, ?_⟩
      rw [eligible] at ih
      rw [ih.2]
      by_cases hother : other = candidate
      · simp [hother]
      · simp [hother]

theorem probing_numeric (item : Json) (candidate : String) (backend : JsonMembers)
    (candidates : List String) (context : Context) :
    Numeric (probe item) (probing candidate) backend candidates context := by
  intro _ _ given _ values hvalues value hvalue
  rw [runArgs_probing] at hvalues
  split at hvalues
  · cases hvalues
    exact ⟨.int 0, List.mem_singleton.mp hvalue⟩
  · cases hvalues

theorem probed_exact : ∀ feature ∈ probed, ∃ number, feature = .number number ∧
    number.Exact := by
  intro feature hfeature
  simp only [probed, List.mem_cons, List.not_mem_nil, or_false] at hfeature
  rcases hfeature with rfl | rfl
  · exact ⟨_, rfl, by decide⟩
  · exact ⟨_, rfl, by decide⟩

theorem probing_plain (item : Json) (candidate : String) (backend : JsonMembers)
    (candidates : List String) (context : Context) :
    PlainFeatures (probe item) (probing candidate) backend candidates context := by
  have hprobed := (eligible_probing item candidate backend candidates context).1
  refine ⟨?_, ?_, ?_⟩
  · intro _ _ given _
    rw [runArgs_probing]
    split
    · exact fun hundefined => nomatch hundefined
    · exact fun hundefined => nomatch hundefined
  · intro entry hentry
    rw [hprobed entry hentry]
    decide +kernel
  · intro a ha b hb
    rw [hprobed a ha, hprobed b hb]
    exact featureLt_iff_of_exact probed_exact probed_exact

theorem probed_weaklyOrders {entries : List RankEntry}
    (hprobed : ∀ entry ∈ entries, entry.features = probed) :
    WeaklyOrders (RankEntry.compare [true, true]) entries := by
  have hnot : ∀ a b : {entry // entry ∈ entries},
      RankEntry.compare [true, true] a b = false := by
    intro a b
    rw [RankEntry.compare, hprobed a a.2, hprobed b b.2]
    decide +kernel
  have hfree : ∀ a b : {entry // entry ∈ entries},
      ¬ RankEntry.compare [true, true] a b = true := by
    intro a b
    rw [hnot]
    exact Bool.false_ne_true
  exact {
    irrefl := fun a => hfree a a
    trans := fun a b _ hab => absurd hab (hfree a b)
    incomp_trans := fun a _ c _ _ => ⟨hfree a c, hfree c a⟩ }

/-! What the probes tell. -/

theorem count_namesOf (name : String) (item : Json)
    (seen : Members String (Option Json)) :
    (namesOf item seen).count name = seen.count (name, some item) := by
  induction seen with
  | nil => rfl
  | cons entry rest ih =>
      obtain ⟨other, found⟩ := entry
      rw [namesOf] at ih ⊢
      by_cases hfound : found = some item
      · rw [List.filter_cons_of_pos (by simp [hfound]), List.map_cons, List.count_cons, ih,
          List.count_cons, hfound]
        simp
      · rw [List.filter_cons_of_neg (by simp [hfound]), ih, List.count_cons]
        simp [hfound]

theorem eq_of_sum_eq {α : Type} {elements : List α} {low high : α → Nat}
    (hle : ∀ element ∈ elements, low element ≤ high element)
    (hsum : (elements.map low).sum = (elements.map high).sum) :
    ∀ element ∈ elements, low element = high element := by
  induction elements with
  | nil => exact List.forall_mem_nil _
  | cons first rest ih =>
      rw [List.forall_mem_cons] at hle ⊢
      rw [List.map_cons, List.map_cons, List.sum_cons, List.sum_cons] at hsum
      have hrest : (rest.map low).sum ≤ (rest.map high).sum := List.sum_le_sum hle.2
      exact ⟨by omega, ih hle.2 (by omega)⟩

theorem string_names_injective {first second : List RankEntry}
    (hsame : names first = names second) :
    first.map RankEntry.name = second.map RankEntry.name := by
  induction first generalizing second with
  | nil =>
      cases second with
      | nil => rfl
      | cons => cases hsame
  | cons entry rest ih =>
      cases second with
      | nil => cases hsame
      | cons other others =>
          rw [names, names, List.map_cons, List.map_cons, List.cons.injEq] at hsame
          rw [List.map_cons, List.map_cons, ih hsame.2, Json.string.inj hsame.1]

theorem names_wanted (items : List (String × Json)) :
    Members.names (wanted items) = Members.names items := by
  simp [Members.names, wanted]

theorem names_shown_turns (items : List (String × Json)) (context : Context) :
    Members.names (shown (turns items context)) = Members.names items := by
  induction items generalizing context with
  | nil => rfl
  | cons item rest ih =>
      rw [turns, shown, List.map_cons, Members.names, List.map_cons, Members.names,
        List.map_cons]
      exact congrArg _ (ih _)

theorem not_mem_wanted_none (name : String) (items : List (String × Json)) :
    (name, none) ∉ wanted items := by
  simp [wanted]

/-- In a turn, `item` shows some item. -/
theorem not_mem_shown_none (name : String) (items : List (String × Json))
    (context : Context) : (name, none) ∉ shown (turns items context) := by
  induction items generalizing context with
  | nil => exact List.not_mem_nil
  | cons item rest ih =>
      rw [turns, shown, List.map_cons, List.mem_cons, not_or]
      refine ⟨?_, ih _⟩
      rw [setItem, Context.getVariable_reset cStr_item]
      intro hsame
      have hnone := (Prod.mk.inj hsame).2
      rw [eq_comm, Option.map_eq_none_iff, List.head?_eq_none_iff] at hnone
      exact List.append_ne_nil_of_right_ne_nil _ (List.cons_ne_nil _ _) hnone

/-- The turns of a candidate are those of what the pointer showed. -/
theorem candidateTurns_come {place : Option Nat} {candidates : List String}
    {context final : Context} {all : List (String × List (String × Context))}
    (hturns : candidateTurns place candidates context = some (all, final)) :
    ∀ candidate ∈ all, ∃ result start,
      candidate.2 = turns (itemsOf candidate.1 result) start := by
  induction candidates generalizing context all with
  | nil =>
      cases hturns
      exact List.forall_mem_nil _
  | cons candidate rest ih =>
      rw [candidateTurns] at hturns
      split at hturns
      · obtain ⟨others, hothers, hall⟩ := Option.map_eq_some_iff.mp hturns
        cases hall
        rw [List.forall_mem_cons]
        exact ⟨⟨_, _, rfl⟩, ih hothers⟩
      · cases hturns

section Probes

variable {sort : (RankEntry → RankEntry → Bool) → List RankEntry → List RankEntry}
  {backend : JsonMembers} {candidates : List String} {context final : Context}
  {all : List (String × List (String × Context))}
  (hsort : SortsWeakOrders sort)
  (hbackend : context.getVariable "backend" = some (.object backend))
  (hnames : ∀ candidate ∈ candidates, cStr candidate = candidate)

include hsort hbackend hnames

theorem names_perm_of_right
    (hturns : candidateTurns (backendPlace context) candidates context = some (all, final))
    {item : Json} {candidate : String}
    (hright : RanksRight (probe item) sort (probing candidate) backend candidates
      context) :
    ((all.filter fun turns => turns.1 = candidate).flatMap fun turns =>
      namesOf item (shown turns.2)).Perm
    ((all.filter fun turns => turns.1 = candidate).flatMap fun turns =>
      namesOf item (wanted (itemsOf turns.1 (backend.lookup turns.1)))) := by
  obtain ⟨after, sorted, hranked, hrun, -⟩ := hright
  obtain ⟨entries, hentries, hprobed, hentryNames⟩ :=
    gatherAll_probing item candidate all
  rw [run_eq hbackend hnames, hturns] at hrun
  dsimp only at hrun
  rw [hentries, Result.ok_bind] at hrun
  split at hrun
  · have hsorted := (hsort _ _ (probed_weaklyOrders hprobed)).1
    have hsame := string_names_injective (Prod.mk.inj (Result.ok.inj hrun)).2
    have heligible := (eligible_probing item candidate backend candidates context).2
    have hcandidates := candidateTurns_names hturns
    rw [← hcandidates, List.filter_map, List.flatMap_map] at heligible
    have hperm := (hsorted.map RankEntry.name).symm.trans
      (hsame ▸ hranked.perm.map RankEntry.name)
    rw [hentryNames, ← hcandidates, heligible] at hperm
    exact hperm
  · cases hrun

theorem count_shown_of_right
    (hturns : candidateTurns (backendPlace context) candidates context = some (all, final))
    (hnodup : ∀ turns ∈ all, (Members.names (shown turns.2)).Nodup)
    {turns : String × List (String × Context)} (hmem : turns ∈ all)
    (name : String) (item : Json)
    (hright : RanksRight (probe item) sort (probing turns.1) backend candidates context) :
    (shown turns.2).count (name, some item) =
      (wanted (itemsOf turns.1 (backend.lookup turns.1))).count (name, some item) := by
  have hperm := names_perm_of_right hsort hbackend hnames hturns hright
  have hsum := hperm.count_eq name
  simp only [List.count_flatMap, Function.comp_def, count_namesOf] at hsum
  have hown : turns ∈ all.filter fun other => other.1 = turns.1 := by
    rw [List.mem_filter]
    exact ⟨hmem, by simp⟩
  have hsame : ∀ other ∈ all.filter fun other => other.1 = turns.1,
      other.1 = turns.1 ∧ other ∈ all := by
    intro other hother
    obtain ⟨hmem, hother⟩ := List.mem_filter.mp hother
    exact ⟨by simpa using hother, hmem⟩
  have hlow : ∀ other ∈ all.filter fun other => other.1 = turns.1,
      (shown other.2).count (name, some item) ≤ 1 := by
    intro other hother
    exact List.nodup_iff_count_le_one.mp
      ((hnodup other (hsame other hother).2).of_map Prod.fst) _
  by_cases hwanted : (name, some item) ∈ wanted (itemsOf turns.1 (backend.lookup turns.1))
  · have hhigh : ∀ other ∈ all.filter fun other => other.1 = turns.1,
        (wanted (itemsOf other.1 (backend.lookup other.1))).count (name, some item) ≥ 1 := by
      intro other hother
      rw [(hsame other hother).1]
      exact List.count_pos_iff.mpr hwanted
    apply eq_of_sum_eq _ hsum turns hown
    intro other hother
    exact (hlow other hother).trans (hhigh other hother)
  · have hnone : ∀ other ∈ all.filter fun other => other.1 = turns.1,
        (wanted (itemsOf other.1 (backend.lookup other.1))).count (name, some item) = 0 := by
      intro other hother
      rw [(hsame other hother).1]
      exact List.count_eq_zero.mpr hwanted
    symm
    apply eq_of_sum_eq _ hsum.symm turns hown
    intro other hother
    rw [hnone other hother]
    exact Nat.zero_le _

theorem seesBackend_of_right
    (hright : ∀ item, ∀ candidate ∈ candidates,
      RanksRight (probe item) sort (probing candidate) backend candidates context) :
    SeesBackend backend candidates context := by
  cases hturns : candidateTurns (backendPlace context) candidates context with
  | none =>
      cases candidates with
      | nil => cases hturns
      | cons candidate rest =>
          obtain ⟨after, sorted, -, hrun, -⟩ := hright .null candidate List.mem_cons_self
          rw [run_eq hbackend hnames, hturns] at hrun
          cases hrun
  | some turned =>
      obtain ⟨all, final⟩ := turned
      refine ⟨all, final, hturns, ?_⟩
      have hcome := candidateTurns_come hturns
      have hnodup : ∀ turns ∈ all, (Members.names (shown turns.2)).Nodup := by
        intro turns hmem
        obtain ⟨result, start, hitems⟩ := hcome turns hmem
        rw [hitems, names_shown_turns]
        exact nodup_names_itemsOf turns.1 result
      intro turns hmem
      have hcandidate : turns.1 ∈ candidates := by
        rw [← candidateTurns_names hturns]
        exact List.mem_map_of_mem hmem
      obtain ⟨result, start, hitems⟩ := hcome turns hmem
      have hperm : (shown turns.2).Perm
          (wanted (itemsOf turns.1 (backend.lookup turns.1))) := by
        rw [List.perm_iff_count]
        intro entry
        obtain ⟨name, found⟩ := entry
        cases found with
        | some item =>
            exact count_shown_of_right hsort hbackend hnames hturns hnodup hmem name item
              (hright item turns.1 hcandidate)
        | none =>
            rw [List.count_eq_zero.mpr (not_mem_wanted_none name _), hitems,
              List.count_eq_zero.mpr (not_mem_shown_none name _ start)]
      apply eq_of_perm_of_names hperm
      · have hnamed := hperm.map Prod.fst
        change (Members.names _).Perm (Members.names _) at hnamed
        rw [hitems, names_shown_turns, names_wanted] at hnamed ⊢
        exact names_itemsOf_of_perm hnamed
      · rw [names_wanted]
        exact nodup_names_itemsOf turns.1 _

end Probes

/-! The variable `rank`. -/

/-- `rank` shows what is set, or no candidate has an item and the variable that hides
it is the empty list. -/
def SeesRank (backend : JsonMembers) (candidates : List String) (context : Context) :
    Prop :=
  (Members.named "rank" context.ownVariables).length ≤ 1 ∨
    (∀ candidate ∈ candidates, itemsOf candidate (backend.lookup candidate) = []) ∧
      ∀ rank, (FlowRankConfig.setRank rank context).getVariable "rank" = some (.array [])

theorem getVariable_setRank (rank : Json) (context : Context) :
    (FlowRankConfig.setRank rank context).getVariable "rank" =
      (((Members.named "rank" context.ownVariables).tail ++ [("rank", rank)]).head?).map
        Prod.snd :=
  Context.getVariable_reset cStr_rank rank context

theorem getVariable_setRank_congr {first second : Context}
    (hsame : first.allNamed "rank" = second.allNamed "rank") (rank : Json) :
    (FlowRankConfig.setRank rank first).getVariable "rank" =
      (FlowRankConfig.setRank rank second).getVariable "rank" := by
  rw [Context.allNamed_eq, Context.allNamed_eq, List.cons.injEq] at hsame
  rw [getVariable_setRank, getVariable_setRank, hsame.1]

theorem getVariable_setRank_of_le {context : Context}
    (hone : (Members.named "rank" context.ownVariables).length ≤ 1) (rank : Json) :
    (FlowRankConfig.setRank rank context).getVariable "rank" = some rank := by
  have htail : (Members.named "rank" context.ownVariables).tail = [] := by
    rw [← List.length_eq_zero_iff, List.length_tail]
    omega
  rw [getVariable_setRank, htail]
  rfl

theorem flow_run_eq {library : Library} {engine : RankEngine} {flow : FlowRankConfig}
    {config : RankConfig} {input : Json} {context after : Context} {ranked : List Json}
    (hrule : engine.rankMap.lookup flow.rule = some config)
    (hinput : flow.input.run library context = .ok input)
    (hrun : config.run library engine.sort input context = .ok (after, ranked)) :
    flow.run library engine context =
      .ok (FlowRankConfig.setRank (.array (top flow.topK ranked)) after) := by
  have htop : (if 0 < flow.topK ∧ flow.topK < ranked.length then ranked.take flow.topK
      else ranked) = top flow.topK ranked := by
    rw [top]
    by_cases hall : flow.topK = 0
    · rw [if_pos hall, if_neg (by omega)]
    · rw [if_neg hall]
      split
      · rfl
      · exact (List.take_of_length_le (by omega)).symm
  rw [FlowRankConfig.run, hinput, Outcome.evaluate_ok, hrule]
  dsimp only
  rw [hrun]
  dsimp only
  rw [htop]

theorem eligible_eq_nil {library : Library} {config : RankConfig} {backend : JsonMembers}
    {candidates : List String} {context : Context}
    (hnone : ∀ candidate ∈ candidates,
      itemsOf candidate (backend.lookup candidate) = []) :
    config.eligible library backend candidates context = [] := by
  rw [eligible, List.flatMap_eq_nil_iff]
  intro candidate hcandidate
  rw [hnone candidate hcandidate]
  rfl

/-- Seeing `backend`, `item` and `rank` is enough for a rule with plain features. -/
theorem ranksRight_of_sees {library : Library} {config : RankConfig}
    {sort : (RankEntry → RankEntry → Bool) → List RankEntry → List RankEntry}
    (hsort : SortsWeakOrders sort) {backend : JsonMembers} {candidates : List String}
    {context : Context} (hbackend : context.getVariable "backend" = some (.object backend))
    (hnames : ∀ candidate ∈ candidates, cStr candidate = candidate)
    (hbuilt : config.Built)
    (hnumeric : Numeric library config backend candidates context)
    (hplain : PlainFeatures library config backend candidates context)
    (hsees : SeesBackend backend candidates context)
    (hrank : SeesRank backend candidates context) :
    RanksRight library sort config backend candidates context := by
  obtain ⟨after, hafter, hrun⟩ :=
    run_of_seesBackend hbuilt hnumeric hplain sort hbackend hnames hsees
  have hranked := hnumeric.ranked hbuilt hplain hsort
  refine ⟨after, _, hranked, hrun, ?_⟩
  intro engine flow hengine hrule hinput
  rw [← hengine] at hrun
  refine ⟨_, flow_run_eq hrule hinput hrun, ?_⟩
  rw [hengine, getVariable_setRank_congr (hafter "rank" (by decide))]
  rcases hrank with hone | ⟨hnone, hshown⟩
  · exact getVariable_setRank_of_le hone _
  · have hempty : sort (RankEntry.compare config.desc)
        (config.eligible library backend candidates context) = [] := by
      rw [← List.perm_nil, ← eligible_eq_nil hnone]
      exact hranked.perm
    rw [hempty, hshown, top]
    split
    · rfl
    · exact congrArg some (congrArg Json.array List.take_nil.symm)

/-! Two more rules: one ranks every item, the other none. -/

def listing : RankConfig where
  sortBy := []
  desc := []
  order := []

def failing : RankConfig where
  sortBy := [.call "" [] []]
  desc := [true]
  order := []

theorem listing_numeric (backend : JsonMembers) (candidates : List String)
    (context : Context) : Numeric .bare listing backend candidates context := by
  intro _ _ _ _ values hvalues
  cases hvalues
  exact List.forall_mem_nil _

theorem listing_plain (backend : JsonMembers) (candidates : List String)
    (context : Context) : PlainFeatures .bare listing backend candidates context := by
  have hnone : ∀ entry ∈ listing.eligible .bare backend candidates context,
      entry.features = [] := by
    intro entry hentry
    obtain ⟨candidate, -, item, -, values, -, hvalues, rfl⟩ := mem_eligible hentry
    cases hvalues
    rfl
  refine ⟨?_, ?_, ?_⟩
  · intro _ _ _ _ hundefined
    cases hundefined
  · intro entry hentry
    rw [hnone entry hentry]
    exact List.forall_mem_nil _
  · intro a ha b _
    rw [hnone a ha, List.zip_nil_left]
    exact List.forall_mem_nil _

theorem itemsOf_of_listing {backend : JsonMembers} {candidates : List String}
    (context : Context) (hnone : listing.eligible .bare backend candidates context = []) :
    ∀ candidate ∈ candidates, itemsOf candidate (backend.lookup candidate) = [] := by
  intro candidate hcandidate
  have hentries := List.flatMap_eq_nil_iff.mp hnone candidate hcandidate
  rw [List.filterMap_eq_nil_iff] at hentries
  rw [List.eq_nil_iff_forall_not_mem]
  intro item hitem
  cases hentries item hitem

theorem failing_eligible (backend : JsonMembers) (candidates : List String)
    (context : Context) : failing.eligible .bare backend candidates context = [] := by
  rw [eligible, List.flatMap_eq_nil_iff]
  intro candidate _
  rw [List.filterMap_eq_nil_iff]
  intro item _
  rfl

theorem failing_numeric (backend : JsonMembers) (candidates : List String)
    (context : Context) : Numeric .bare failing backend candidates context := by
  intro _ _ _ _ values hvalues
  cases hvalues

theorem failing_plain (backend : JsonMembers) (candidates : List String)
    (context : Context) : PlainFeatures .bare failing backend candidates context := by
  refine ⟨?_, ?_, ?_⟩
  · intro _ _ _ _ hundefined
    cases hundefined
  · rw [failing_eligible]
    exact List.forall_mem_nil _
  · rw [failing_eligible]
    exact List.forall_mem_nil _

theorem runArgs_strings (library : Library) (context : Context) (texts : List String) :
    Expr.runArgs library context (texts.map .string) = .ok (texts.map .string) := by
  induction texts with
  | nil => rfl
  | cons text rest ih =>
      rw [List.map_cons, Expr.runArgs, Expr.run, Result.ok_bind, ih]
      rfl

/-- What a right ranking leaves to see of all its names. -/
theorem rank_of_right {library : Library} {config : RankConfig}
    {sort : (RankEntry → RankEntry → Bool) → List RankEntry → List RankEntry}
    {backend : JsonMembers} {candidates : List String} {context : Context}
    (hright : RanksRight library sort config backend candidates context) :
    ∃ sorted, Ranked library config backend candidates context sorted ∧
      (FlowRankConfig.setRank (.array (names sorted)) context).getVariable "rank" =
        some (.array (names sorted)) := by
  obtain ⟨after, sorted, hranked, hrun, hflow⟩ := hright
  refine ⟨sorted, hranked, ?_⟩
  have hinput : (Expr.array (candidates.map .string)).run library context =
      .ok (.array (candidates.map .string)) := by
    rw [Expr.run, runArgs_strings]
    rfl
  obtain ⟨final, hfinal, hrank⟩ := hflow ⟨[("", config)], sort⟩
    ⟨0, .array (candidates.map .string), ""⟩ rfl rfl hinput
  rw [flow_run_eq rfl hinput hrun] at hfinal
  cases hfinal
  have hkept : after.allNamed "rank" = context.allNamed "rank" :=
    run_view (allNamed_setItem (by decide)) hrun
  rw [getVariable_setRank_congr hkept] at hrank
  exact hrank

theorem seesRank_of_right
    {sort : (RankEntry → RankEntry → Bool) → List RankEntry → List RankEntry}
    {backend : JsonMembers} {candidates : List String} {context : Context}
    (hlisting : RanksRight .bare sort listing backend candidates context)
    (hfailing : RanksRight .bare sort failing backend candidates context) :
    SeesRank backend candidates context := by
  by_cases hone : (Members.named "rank" context.ownVariables).length ≤ 1
  · exact .inl hone
  · right
    have hhidden : ∀ rank other,
        (FlowRankConfig.setRank rank context).getVariable "rank" =
          (FlowRankConfig.setRank other context).getVariable "rank" := by
      intro rank other
      rw [getVariable_setRank, getVariable_setRank]
      cases htail : (Members.named "rank" context.ownVariables).tail with
      | nil =>
          rw [← List.length_eq_zero_iff, List.length_tail] at htail
          omega
      | cons first rest => rfl
    obtain ⟨none, hnone, hshown⟩ := rank_of_right hfailing
    have hempty : none = [] := by
      rw [← List.perm_nil, ← failing_eligible backend candidates context]
      exact hnone.perm
    subst hempty
    have hall : ∀ rank, (FlowRankConfig.setRank rank context).getVariable "rank" =
        some (.array []) := fun rank => (hhidden rank _).trans hshown
    refine ⟨?_, hall⟩
    obtain ⟨sorted, hsorted, hnames⟩ := rank_of_right hlisting
    rw [hall] at hnames
    have hnil : sorted = [] := by
      have hlist := Json.array.inj (Option.some.inj hnames)
      exact List.map_eq_nil_iff.mp hlist.symm
    apply itemsOf_of_listing context
    rw [← List.nil_perm, ← hnil]
    exact hsorted.perm

/-- For the rules with plain features, the ranking is right exactly where the pointer
to `backend`, `item` and `rank` go on showing what they are to show. -/
theorem allRight_iff
    {sort : (RankEntry → RankEntry → Bool) → List RankEntry → List RankEntry}
    (hsort : SortsWeakOrders sort) {backend : JsonMembers} {candidates : List String}
    {context : Context} (hbackend : context.getVariable "backend" = some (.object backend))
    (hnames : ∀ candidate ∈ candidates, cStr candidate = candidate) :
    (∀ library (config : RankConfig), config.Built →
      Numeric library config backend candidates context →
      PlainFeatures library config backend candidates context →
        RanksRight library sort config backend candidates context) ↔
      SeesBackend backend candidates context ∧ SeesRank backend candidates context := by
  constructor
  · intro hright
    constructor
    · apply seesBackend_of_right hsort hbackend hnames
      intro item candidate _
      exact hright (probe item) (probing candidate) (probing_built candidate)
        (probing_numeric item candidate backend candidates context)
        (probing_plain item candidate backend candidates context)
    · exact seesRank_of_right
        (hright .bare listing ⟨[], rfl, rfl⟩ (listing_numeric backend candidates context)
          (listing_plain backend candidates context))
        (hright .bare failing ⟨[true], rfl, rfl⟩
          (failing_numeric backend candidates context)
          (failing_plain backend candidates context))
  · intro hsees library config hbuilt hnumeric hplain
    exact ranksRight_of_sees hsort hbackend hnames hbuilt hnumeric hplain hsees.1 hsees.2

/-- The pointer shows the backend, there is at most one `item`, and none before what
is pointed to. -/
structure Shows (backend : JsonMembers) (place : Option Nat) (context : Context) :
    Prop where
  backend : backendAt place context = some (.object backend)
  item : (Members.named "item" context.ownVariables).length ≤ 1
  behind : ∀ index, place = some index → ∃ before after,
    context.ownVariables = before ++ after ∧ index < before.length ∧
      "item" ∉ Members.names before

variable {backend : JsonMembers} {place : Option Nat} {context : Context}

end RankConfig

end Uskit
