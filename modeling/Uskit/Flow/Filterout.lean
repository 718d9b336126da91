import Uskit.Flow.DeliverFlows
import Uskit.Json.NumberOrder

namespace Uskit

open Uskit.Data
open Uskit.Function (getType isString)

/-! Which of the delivered services a response leaves, and when it is looked for
where there are none. -/

namespace FlowDeliverConfig

/-- The entry has the type of the threshold, and equals it or is not below it, as the
numbers are. -/
def meets (entry threshold : Json) : Bool :=
  getType entry == getType threshold &&
    match entry, threshold with
    | .string text, .string other => text == other
    | .number value, .number bound => !decide (value.Less bound)
    | _, _ => false

/-- What the tests of a turn find, where they read no text that is freed. -/
def rejects (entry threshold : Json) : Bool :=
  getType entry != getType threshold ||
    match entry, threshold with
    | .string text, .string other => cStr text != cStr other
    | .number value, .number bound => value.getDouble.lt bound.getDouble
    | _, _ => false

theorem filtersOut_eq (entry threshold : Json) :
    filtersOut entry threshold =
      if isString entry && freed threshold then .undefined
      else .ok (rejects entry threshold) := by
  unfold filtersOut rejects
  by_cases htype : getType entry = getType threshold
  · rw [if_neg (not_not.mpr htype), htype, bne_self_eq_false, Bool.false_or]
    cases entry with
    | string text =>
        cases threshold with
        | string other => rfl
        | bool value => cases value <;> cases htype
        | null => cases htype
        | number value => cases htype
        | array elements => cases htype
        | object members => cases htype
    | number value =>
        cases threshold with
        | number bound => rfl
        | bool value => cases value <;> cases htype
        | null => cases htype
        | string text => cases htype
        | array elements => cases htype
        | object members => cases htype
    | null => rfl
    | bool value => cases value <;> rfl
    | array elements => rfl
    | object members => rfl
  · rw [if_pos htype, bne_iff_ne.mpr htype, Bool.true_or]
    cases hstring : isString entry && freed threshold with
    | false => rfl
    | true =>
        rw [Bool.and_eq_true] at hstring
        exfalso
        apply htype
        cases threshold with
        | string other =>
            rw [isString, beq_iff_eq] at hstring
            exact hstring.1
        | null => cases hstring.2
        | bool value => cases hstring.2
        | number value => cases hstring.2
        | array elements => cases hstring.2
        | object members => cases hstring.2

theorem exists_of_isString {value : Json} (hstring : isString value = true) :
    ∃ text, value = .string text := by
  cases value with
  | string text => exact ⟨text, rfl⟩
  | bool value => cases value <;> cases hstring
  | null => cases hstring
  | number value => cases hstring
  | array elements => cases hstring
  | object members => cases hstring

/-- A turn of the loop compares the entry with the threshold for the service. -/
structure Compares (config : FlowDeliverConfig) (entries : List Json) (index : Nat)
    (service : String) (entry threshold : Json) : Prop where
  service : config.deliverServiceVec[index]? = some service
  entry : entries[index + 1]? = some entry
  threshold : config.thresholdVec[index]? = some threshold

variable {config : FlowDeliverConfig} {entries : List Json} {index : Nat}

theorem Compares.unique {service other : String} {entry read threshold bound : Json}
    (hfirst : Compares config entries index service entry threshold)
    (hsecond : Compares config entries index other read bound) :
    other = service ∧ read = entry ∧ bound = threshold :=
  ⟨Option.some.inj (hsecond.service.symm.trans hfirst.service),
    Option.some.inj (hsecond.entry.symm.trans hfirst.entry),
    Option.some.inj (hsecond.threshold.symm.trans hfirst.threshold)⟩

theorem Compares.index_mem {service : String} {entry threshold : Json}
    (hcompares : Compares config entries index service entry threshold) :
    index ∈ List.range config.deliverServiceVec.length := by
  obtain ⟨hindex, -⟩ := List.getElem?_eq_some_iff.mp hcompares.service
  exact List.mem_range.mpr hindex

theorem exists_compares (hentries : entries.length = config.deliverServiceVec.length + 1)
    (hindex : index < config.deliverServiceVec.length) :
    ∃ service entry threshold, Compares config entries index service entry threshold := by
  have hthreshold : index < config.thresholdVec.length := config.sameSize ▸ hindex
  exact ⟨_, _, _, List.getElem?_eq_getElem hindex,
    List.getElem?_eq_getElem (by omega), List.getElem?_eq_getElem hthreshold⟩

theorem filterTurn_eq {service : String} {entry threshold : Json}
    (hcompares : Compares config entries index service entry threshold)
    (filterout : List String) :
    config.filterTurn entries filterout index =
      if isString entry && freed threshold then .undefined
      else .ok (if rejects entry threshold then filterout ++ [service] else filterout) := by
  unfold filterTurn
  rw [hcompares.service, hcompares.entry, hcompares.threshold]
  dsimp only
  rw [filtersOut_eq]
  cases isString entry && freed threshold with
  | true => rfl
  | false => rfl

/-- No string is compared with a threshold that is freed. -/
def Readable (config : FlowDeliverConfig) (entries : List Json) (indices : List Nat) :
    Prop :=
  ∀ index ∈ indices, ∀ service entry threshold,
    Compares config entries index service entry threshold →
      (isString entry && freed threshold) = false

/-- The service is filtered out in one of the turns. -/
def Rejected (config : FlowDeliverConfig) (entries : List Json) (indices : List Nat)
    (service : String) : Prop :=
  ∃ index ∈ indices, ∃ entry threshold,
    Compares config entries index service entry threshold ∧
      rejects entry threshold = true

theorem foldlM_filterTurn_of_readable {indices : List Nat}
    (hall : ∀ index ∈ indices, ∃ service entry threshold,
      Compares config entries index service entry threshold)
    (hreadable : Readable config entries indices) (before : List String) :
    ∃ filterout, indices.foldlM (config.filterTurn entries) before = .ok filterout ∧
      ∀ service, service ∈ filterout ↔
        service ∈ before ∨ Rejected config entries indices service := by
  induction indices generalizing before with
  | nil =>
      refine ⟨before, rfl, ?_⟩
      intro service
      simp [Rejected]
  | cons index rest ih =>
      rw [List.forall_mem_cons] at hall
      obtain ⟨⟨service, entry, threshold, hcompares⟩, hrest⟩ := hall
      have hread := hreadable index List.mem_cons_self service entry threshold hcompares
      obtain ⟨filterout, hfold, hmem⟩ := ih hrest
        (fun other hother => hreadable other (.tail _ hother))
        (if rejects entry threshold then before ++ [service] else before)
      refine ⟨filterout, ?_, ?_⟩
      · rw [List.foldlM_cons, filterTurn_eq hcompares, if_neg (by rw [hread]; simp),
          Result.ok_bind, hfold]
      · intro other
        have hhere : other ∈ (if rejects entry threshold then before ++ [service]
            else before) ↔ other ∈ before ∨ (∃ entry threshold,
              Compares config entries index other entry threshold ∧
                rejects entry threshold = true) := by
          cases hrejects : rejects entry threshold with
          | true =>
              rw [if_pos rfl, List.mem_append, List.mem_singleton]
              apply or_congr_right
              constructor
              · intro heq
                subst heq
                exact ⟨entry, threshold, hcompares, hrejects⟩
              · intro hexists
                obtain ⟨_, _, hother, -⟩ := hexists
                exact (hcompares.unique hother).1
          | false =>
              rw [if_neg Bool.false_ne_true]
              refine (or_iff_left ?_).symm
              intro hexists
              obtain ⟨_, _, hother, hyes⟩ := hexists
              obtain ⟨-, rfl, rfl⟩ := hcompares.unique hother
              rw [hrejects] at hyes
              cases hyes
        rw [hmem, hhere, Rejected, Rejected, or_assoc]
        apply or_congr_right
        simp

theorem foldlM_filterTurn_of_freed {indices : List Nat}
    (hall : ∀ index ∈ indices, ∃ service entry threshold,
      Compares config entries index service entry threshold)
    (hfreed : ¬ Readable config entries indices) (before : List String) :
    indices.foldlM (config.filterTurn entries) before = .undefined := by
  induction indices generalizing before with
  | nil => exact absurd (fun _ hmem => nomatch hmem) hfreed
  | cons index rest ih =>
      rw [List.forall_mem_cons] at hall
      obtain ⟨⟨service, entry, threshold, hcompares⟩, hrest⟩ := hall
      rw [List.foldlM_cons, filterTurn_eq hcompares]
      cases hread : isString entry && freed threshold with
      | true => rfl
      | false =>
          rw [if_neg Bool.false_ne_true, Result.ok_bind]
          apply ih hrest
          intro hreadable
          apply hfreed
          intro other hother name value bound hturn
          cases hother with
          | head =>
              obtain ⟨-, rfl, rfl⟩ := hcompares.unique hturn
              exact hread
          | tail _ htail => exact hreadable other htail _ _ _ hturn

/-- What a service is compared with: the entries of the array, or as many copies of
a single string as there are classes. -/
def readAs (classNum : Nat) : Json → Option (List Json)
  | .array [.string text] => some (List.replicate classNum (.string text))
  | .array elements => if elements.length = classNum then some elements else none
  | _ => none

theorem length_of_readAs {classNum : Nat} {response : Json}
    (hread : readAs classNum response = some entries) : entries.length = classNum := by
  unfold readAs at hread
  split at hread
  · cases hread
    exact List.length_replicate
  · split at hread
    · rename_i hlength
      cases hread
      exact hlength
    · cases hread
  · cases hread

theorem readAs_of_not_string {element : Json} (hstring : isString element = false)
    (classNum : Nat) :
    readAs classNum (.array [element]) =
      if 1 = classNum then some [element] else none := by
  cases element with
  | string text => cases hstring
  | bool value => rfl
  | null => rfl
  | number value => rfl
  | array elements => rfl
  | object members => rfl

/-- Of the copies of a single string, those after the first two are null. -/
def held (response : Json) (entries : List Json) : List Json :=
  match response with
  | .array [_] => entries.take 2 ++ List.replicate (entries.length - 2) .null
  | _ => entries

theorem pushCopies_null (count : Nat) :
    pushCopies .null count = List.replicate count .null := by
  induction count with
  | zero => rfl
  | succ count ih => rw [pushCopies, ih, List.replicate_succ]

theorem responseArray_eq {response : Json}
    (hread : readAs config.classNum response = some entries) (hnum : 0 < config.classNum) :
    ∃ elements, response = .array elements ∧
      config.responseArray elements = held response entries ∧
      (held response entries).length = config.classNum := by
  unfold readAs at hread
  split at hread
  · rename_i text
    cases hread
    refine ⟨[.string text], rfl, ?_, ?_⟩
    · obtain ⟨count, hcount⟩ : ∃ count, config.classNum = count + 1 :=
        ⟨config.classNum - 1, by omega⟩
      rw [responseArray, held, hcount]
      cases count with
      | zero => rfl
      | succ count =>
          rw [List.length_replicate, Nat.add_sub_cancel, pushCopies, pushCopies_null]
          rfl
    · rw [held, List.length_append, List.length_take, List.length_replicate,
        List.length_replicate]
      omega
  · rename_i elements hsingle
    split at hread
    · rename_i hlength
      cases hread
      refine ⟨entries, rfl, ?_⟩
      match entries, hlength with
      | [], hlength => exact ⟨rfl, hlength⟩
      | [element], hlength =>
          rw [responseArray, held, ← hlength]
          exact ⟨rfl, rfl⟩
      | _ :: _ :: _, hlength => exact ⟨rfl, hlength⟩
    · cases hread
  · cases hread

end FlowDeliverConfig

namespace CascadeAsyncPolicy

open FlowDeliverConfig

/-- No missing configuration is used and no index is out of bounds; and where there is
a configuration for a response of its shape, a service is kept just if its entry
meets its threshold. -/
def FiltersRight (policy : CascadeAsyncPolicy) (currFlow : String) (response : Json) :
    Prop :=
  policy.getFilteroutServices currFlow response ≠ .undefined ∧
  ∀ flow config entries, policy.flowMap.lookup currFlow = some flow →
    flow.deliverConfig = some config →
    readAs config.classNum response = some entries →
    ∃ filterout, policy.getFilteroutServices currFlow response = .ok filterout ∧
      ∀ index service, config.deliverServiceVec[index]? = some service →
        ∃ entry threshold, Compares config entries index service entry threshold ∧
          (service ∉ filterout ↔ meets entry threshold = true)

/-- A nonempty array, other than one that holds a single value that is no string. -/
def readsConfig : Json → Bool
  | .array [element] => isString element
  | .array elements => !elements.isEmpty
  | _ => false

/-- What has to hold of the entries of a response and the thresholds of a flow. -/
structure Judged (config : FlowDeliverConfig) (response : Json) (entries : List Json) :
    Prop where
  readable : ∀ index service entry threshold,
    Compares config (held response entries) index service entry threshold →
      isString entry = true → freed threshold = false
  kept : ∀ index other service entry threshold value bound,
    Compares config entries index service entry threshold →
      meets entry threshold = true →
        Compares config (held response entries) other service value bound →
          rejects value bound = false
  dropped : ∀ index service entry threshold,
    Compares config entries index service entry threshold →
      meets entry threshold = false →
        ∃ other value bound,
          Compares config (held response entries) other service value bound ∧
            rejects value bound = true

/-- A flow without a configuration is asked for no response that needs one. -/
def ResponseFits (policy : CascadeAsyncPolicy) (currFlow : String) (response : Json) :
    Prop :=
  ∀ flow, policy.flowMap.lookup currFlow = some flow →
    (flow.deliverConfig = none → readsConfig response = false) ∧
    ∀ config entries, flow.deliverConfig = some config →
      readAs config.classNum response = some entries → Judged config response entries

theorem filteroutByResponse_none {flow : DeliverFlow} (hnone : flow.deliverConfig = none)
    (response : Json) :
    flow.filteroutByResponse response =
      if readsConfig response then .undefined else .ok [] := by
  unfold DeliverFlow.filteroutByResponse
  cases response with
  | array elements =>
      match elements with
      | [] => rfl
      | [element] =>
          rw [hnone]
          cases hstring : isString element with
          | true => simp [readsConfig, hstring]
          | false => simp [readsConfig, hstring]
      | _ :: _ :: _ =>
          rw [hnone]
          simp [readsConfig]
  | null => rfl
  | bool value => rfl
  | number value => rfl
  | string text => rfl
  | object members => rfl

theorem filterout_of_readAs {config : FlowDeliverConfig} {elements entries : List Json}
    (hsize : config.classNum = config.deliverServiceVec.length + 1)
    (hread : readAs config.classNum (.array elements) = some entries) :
    config.filterout elements =
      (List.range config.deliverServiceVec.length).foldlM
        (config.filterTurn (held (.array elements) entries)) [] := by
  obtain ⟨_, helements, harray, hlength⟩ := responseArray_eq hread (by omega)
  cases helements
  rw [FlowDeliverConfig.filterout, harray, if_neg (not_not.mpr hlength.symm), hsize,
    Nat.add_sub_cancel]

theorem filterout_of_not_readAs {config : FlowDeliverConfig} {elements : List Json}
    (hmany : elements.length ≠ 1) (hread : readAs config.classNum (.array elements) = none) :
    config.filterout elements = .ok [] := by
  have harray : config.responseArray elements = elements := by
    match elements, hmany with
    | [], _ => rfl
    | _ :: _ :: _, _ => rfl
  unfold readAs at hread
  split at hread
  · cases hread
  · rename_i others _ heq
    cases heq
    rw [FlowDeliverConfig.filterout, harray, if_pos]
    intro hlength
    rw [if_pos hlength.symm] at hread
    cases hread
  · rename_i hno
    exact absurd rfl (hno elements)

/-- A flow with a configuration goes through its services just for the responses of
the right shape. -/
theorem filteroutByResponse_some {flow : DeliverFlow} {config : FlowDeliverConfig}
    (hconfig : flow.deliverConfig = some config)
    (hsize : config.classNum = config.deliverServiceVec.length + 1) (response : Json) :
    flow.filteroutByResponse response =
      match readAs config.classNum response with
      | some entries =>
          (List.range config.deliverServiceVec.length).foldlM
            (config.filterTurn (held response entries)) []
      | none => .ok [] := by
  unfold DeliverFlow.filteroutByResponse
  cases response with
  | array elements =>
      rw [hconfig]
      dsimp only
      match elements with
      | [] =>
          have hnone : readAs config.classNum (.array []) = none := by
            rw [hsize]
            rfl
          rw [hnone]
          rfl
      | [element] =>
          cases hstring : isString element with
          | true =>
              obtain ⟨text, rfl⟩ := exists_of_isString hstring
              rw [if_neg (by simp), if_neg (by simp [hstring])]
              exact filterout_of_readAs hsize rfl
          | false =>
              rw [if_neg (by simp), if_pos (by simp [hstring])]
              rw [readAs_of_not_string hstring]
              by_cases hone : 1 = config.classNum
              · have hnone : config.deliverServiceVec.length = 0 := by omega
                rw [if_pos hone, hnone]
                rfl
              · rw [if_neg hone]
      | first :: second :: rest =>
          rw [if_neg (by simp), if_neg (by simp)]
          cases hread : readAs config.classNum (.array (first :: second :: rest)) with
          | none => exact filterout_of_not_readAs (by simp) hread
          | some entries => exact filterout_of_readAs hsize hread
  | null => rfl
  | bool value => rfl
  | number value => rfl
  | string text => rfl
  | object members => rfl

variable {config : FlowDeliverConfig} {response : Json} {entries : List Json}

theorem Judged.rejected_iff (hjudged : Judged config response entries) {index : Nat}
    {service : String} {entry threshold : Json}
    (hcompares : Compares config entries index service entry threshold) :
    Rejected config (held response entries) (List.range config.deliverServiceVec.length)
      service ↔ meets entry threshold = false := by
  constructor
  · intro hrejected
    obtain ⟨other, -, value, bound, hother, hyes⟩ := hrejected
    cases hfits : meets entry threshold with
    | false => rfl
    | true =>
        rw [hjudged.kept index other service entry threshold value bound hcompares hfits
          hother] at hyes
        cases hyes
  · intro hfits
    obtain ⟨other, value, bound, hother, hyes⟩ :=
      hjudged.dropped index service entry threshold hcompares hfits
    exact ⟨other, hother.index_mem, value, bound, hother, hyes⟩

theorem readable_iff :
    Readable config (held response entries) (List.range config.deliverServiceVec.length) ↔
      ∀ index service entry threshold,
        Compares config (held response entries) index service entry threshold →
          isString entry = true → freed threshold = false := by
  constructor
  · intro hreadable index service entry threshold hcompares hstring
    have hread := hreadable index hcompares.index_mem service entry threshold hcompares
    rwa [hstring, Bool.true_and] at hread
  · intro hreadable index _ service entry threshold hcompares
    cases hstring : isString entry with
    | false => rfl
    | true =>
        rw [Bool.true_and]
        exact hreadable index service entry threshold hcompares hstring

theorem judged_iff (hsize : config.classNum = config.deliverServiceVec.length + 1)
    (hread : readAs config.classNum response = some entries) :
    (∃ filterout, (List.range config.deliverServiceVec.length).foldlM
        (config.filterTurn (held response entries)) [] = .ok filterout ∧
      ∀ index service, config.deliverServiceVec[index]? = some service →
        ∃ entry threshold, Compares config entries index service entry threshold ∧
          (service ∉ filterout ↔ meets entry threshold = true)) ↔
      Judged config response entries := by
  obtain ⟨_, _, _, hheld⟩ := responseArray_eq hread (by omega)
  have hentries := length_of_readAs hread
  have hall : ∀ index ∈ List.range config.deliverServiceVec.length,
      ∃ service entry threshold,
        Compares config (held response entries) index service entry threshold :=
    fun index hindex => exists_compares (hheld.trans hsize) (List.mem_range.mp hindex)
  constructor
  · intro hkept
    obtain ⟨filterout, hfold, hkept⟩ := hkept
    have hreadable : Readable config (held response entries)
        (List.range config.deliverServiceVec.length) := by
      by_contra hfreed
      rw [foldlM_filterTurn_of_freed hall hfreed] at hfold
      cases hfold
    obtain ⟨_, hsame, hmem⟩ := foldlM_filterTurn_of_readable hall hreadable []
    cases hsame.symm.trans hfold
    have hverdict : ∀ {index service entry threshold},
        Compares config entries index service entry threshold →
          (¬ Rejected config (held response entries)
            (List.range config.deliverServiceVec.length) service ↔
              meets entry threshold = true) := by
      intro index service entry threshold hcompares
      obtain ⟨value, bound, hother, hiff⟩ := hkept index service hcompares.service
      obtain ⟨-, rfl, rfl⟩ := hcompares.unique hother
      rwa [hmem, List.mem_nil_iff, false_or] at hiff
    refine ⟨readable_iff.mp hreadable, ?_, ?_⟩
    · intro index other service entry threshold value bound hcompares hfits hother
      rw [← Bool.not_eq_true]
      intro hyes
      exact (hverdict hcompares).mpr hfits
        ⟨other, hother.index_mem, value, bound, hother, hyes⟩
    · intro index service entry threshold hcompares hfits
      have hrejected : Rejected config (held response entries)
          (List.range config.deliverServiceVec.length) service := by
        by_contra hnot
        rw [(hverdict hcompares).mp hnot] at hfits
        cases hfits
      obtain ⟨other, -, value, bound, hother, hyes⟩ := hrejected
      exact ⟨other, value, bound, hother, hyes⟩
  · intro hjudged
    obtain ⟨filterout, hfold, hmem⟩ :=
      foldlM_filterTurn_of_readable hall (readable_iff.mpr hjudged.readable) []
    refine ⟨filterout, hfold, ?_⟩
    intro index service hservice
    obtain ⟨hindex, -⟩ := List.getElem?_eq_some_iff.mp hservice
    obtain ⟨other, entry, threshold, hcompares⟩ :=
      exists_compares (hentries.trans hsize) hindex
    cases hcompares.service.symm.trans hservice
    refine ⟨entry, threshold, hcompares, ?_⟩
    rw [hmem, List.mem_nil_iff, false_or, hjudged.rejected_iff hcompares,
      Bool.not_eq_false]

section Flow

variable {policy : CascadeAsyncPolicy} {currFlow : String} {flow : DeliverFlow}

theorem responseFits_unset (hflow : policy.flowMap.lookup currFlow = some flow)
    (hconfig : flow.deliverConfig = none) :
    ResponseFits policy currFlow response ↔ readsConfig response = false := by
  constructor
  · exact fun hfits => (hfits flow hflow).1 hconfig
  · intro hreads other hother
    cases hflow.symm.trans hother
    refine ⟨fun _ => hreads, ?_⟩
    intro _ _ hsome
    rw [hconfig] at hsome
    cases hsome

theorem responseFits_set (hflow : policy.flowMap.lookup currFlow = some flow)
    (hconfig : flow.deliverConfig = some config) :
    ResponseFits policy currFlow response ↔
      ∀ entries, readAs config.classNum response = some entries →
        Judged config response entries := by
  constructor
  · exact fun hfits entries hread => (hfits flow hflow).2 config entries hconfig hread
  · intro hjudged other hother
    cases hflow.symm.trans hother
    constructor
    · intro hnone
      rw [hconfig] at hnone
      cases hnone
    · intro again entries hsome hread
      cases hconfig.symm.trans hsome
      exact hjudged entries hread

theorem filtersRight_unset (hflow : policy.flowMap.lookup currFlow = some flow)
    (hconfig : flow.deliverConfig = none) :
    FiltersRight policy currFlow response ↔
      policy.getFilteroutServices currFlow response ≠ .undefined := by
  constructor
  · exact fun hright => hright.1
  · intro hdefined
    refine ⟨hdefined, ?_⟩
    intro other _ _ hother hsome
    cases hflow.symm.trans hother
    rw [hconfig] at hsome
    cases hsome

theorem filtersRight_set (hflow : policy.flowMap.lookup currFlow = some flow)
    (hconfig : flow.deliverConfig = some config) :
    FiltersRight policy currFlow response ↔
      policy.getFilteroutServices currFlow response ≠ .undefined ∧
      ∀ entries, readAs config.classNum response = some entries →
        ∃ filterout, policy.getFilteroutServices currFlow response = .ok filterout ∧
          ∀ index service, config.deliverServiceVec[index]? = some service →
            ∃ entry threshold, Compares config entries index service entry threshold ∧
              (service ∉ filterout ↔ meets entry threshold = true) := by
  constructor
  · exact fun hright => ⟨hright.1, fun entries => hright.2 flow config entries hflow hconfig⟩
  · intro hright
    refine ⟨hright.1, ?_⟩
    intro other again entries hother hsome
    cases hflow.symm.trans hother
    cases hconfig.symm.trans hsome
    exact hright.2 entries

end Flow

/-- The services that are left are the right ones for the responses that fit. -/
theorem filtersRight_iff {order : HashOrder} {library : Library}
    {cancelConfig : Option FlowGlobalCancelConfig} {configs : List DeliverNodeConfig}
    {policy : CascadeAsyncPolicy}
    (hinit : init order library cancelConfig configs = .ok policy) (currFlow : String)
    (response : Json) :
    FiltersRight policy currFlow response ↔ ResponseFits policy currFlow response := by
  cases hflow : policy.flowMap.lookup currFlow with
  | none =>
      constructor
      · intro _ flow hother
        rw [hflow] at hother
        cases hother
      · intro _
        constructor
        · rw [getFilteroutServices, hflow]
          exact fun hfailed => nomatch hfailed
        · intro flow config entries hother
          rw [hflow] at hother
          cases hother
  | some flow =>
      have hget : policy.getFilteroutServices currFlow response =
          flow.filteroutByResponse response := by
        rw [getFilteroutServices, hflow]
      cases hconfig : flow.deliverConfig with
      | none =>
          rw [filtersRight_unset hflow hconfig, responseFits_unset hflow hconfig, hget,
            filteroutByResponse_none hconfig]
          cases readsConfig response with
          | false => simp
          | true => simp
      | some config =>
          obtain ⟨deliver, hdeliver⟩ := deliverConfig_source hinit hflow hconfig
          have hsize := (FlowDeliverConfig.init_spec hdeliver).1
          rw [filteroutByResponse_some hconfig hsize] at hget
          rw [filtersRight_set hflow hconfig, responseFits_set hflow hconfig, hget]
          cases hread : readAs config.classNum response with
          | none => simp
          | some entries =>
              constructor
              · intro hright again hagain
                cases hagain
                exact (judged_iff hsize hread).mp (hright.2 entries rfl)
              · intro hjudged
                obtain ⟨filterout, hfold, hkept⟩ :=
                  (judged_iff hsize hread).mpr (hjudged entries rfl)
                refine ⟨?_, ?_⟩
                · intro hundefined
                  exact nomatch hundefined.symm.trans hfold
                · intro again hagain
                  cases hagain
                  exact ⟨filterout, hfold, hkept⟩

/-- A threshold that can be compared as it was written. -/
def PlainThreshold : Json → Prop
  | .number bound => bound.Exact
  | .string text => cStr text = text ∧ text.length ≤ shortStringMaxSize
  | _ => False

/-- Different services, thresholds that are numbers or short texts, and entries of
their own: each service is judged by its entry. -/
theorem Judged.of_plain (hnodup : config.deliverServiceVec.Nodup)
    (hheld : held response entries = entries)
    (hthresholds : ∀ threshold ∈ config.thresholdVec, PlainThreshold threshold)
    (htexts : ∀ text, .string text ∈ entries → cStr text = text)
    (hnumbers : ∀ number, .number number ∈ entries → number.Exact) :
    Judged config response entries := by
  have hverdict : ∀ {index service entry threshold},
      Compares config entries index service entry threshold →
        rejects entry threshold = !meets entry threshold := by
    intro index service entry threshold hcompares
    have hentry := List.mem_of_getElem? hcompares.entry
    have hplain := hthresholds threshold (List.mem_of_getElem? hcompares.threshold)
    cases threshold with
    | number bound =>
        cases entry with
        | number value =>
            have hless := Number.lt_iff_less (hnumbers value hentry) hplain
            rw [rejects, meets, Bool.eq_iff_iff]
            simp [getType, hless]
        | bool value => cases value <;> rfl
        | null => rfl
        | string text => rfl
        | array elements => rfl
        | object members => rfl
    | string other =>
        cases entry with
        | string text => simp [rejects, meets, getType, htexts text hentry, hplain.1, bne]
        | bool value => cases value <;> rfl
        | null => rfl
        | number value => rfl
        | array elements => rfl
        | object members => rfl
    | null => exact hplain.elim
    | bool value => exact hplain.elim
    | array elements => exact hplain.elim
    | object members => exact hplain.elim
  constructor
  · intro index service entry threshold hcompares _
    have hplain := hthresholds threshold (List.mem_of_getElem? hcompares.threshold)
    cases threshold with
    | string text => exact decide_eq_false (Nat.not_lt.mpr hplain.2)
    | null => rfl
    | bool value => rfl
    | number value => rfl
    | array elements => rfl
    | object members => rfl
  · intro index other service entry threshold value bound hcompares hfits hother
    rw [hheld] at hother
    obtain ⟨hindex, heq⟩ := List.getElem?_eq_some_iff.mp hcompares.service
    have hsame : index = other :=
      (List.getElem?_inj hindex hnodup).mp (hcompares.service.trans hother.service.symm)
    subst hsame
    obtain ⟨-, rfl, rfl⟩ := hcompares.unique hother
    rw [hverdict hcompares, hfits]
    rfl
  · intro index service entry threshold hcompares hfits
    rw [hheld]
    exact ⟨index, entry, threshold, hcompares, by rw [hverdict hcompares, hfits]; rfl⟩

/-- A flow that a recall leads to from another one. -/
def Follows (policy : CascadeAsyncPolicy) (first second : String) : Prop :=
  ∃ flow service, policy.flowMap.lookup first = some flow ∧
    service ∈ flow.getRecallServiceList ∧
    flow.recallConfig.recallNext.lookup service = some second

/-- The current flow of a service that completes, from the start on. -/
inductive CurrentFlow (policy : CascadeAsyncPolicy) : String → Prop
  | start {next : String} : Follows policy policy.startFlow next → CurrentFlow policy next
  | later {flow next : String} : CurrentFlow policy flow → Follows policy flow next →
      CurrentFlow policy next

theorem filtersRight_help :
    ∃ policy, init HashOrder.insertion Library.bare none
        [deliverNode "start" "topic" "faq" "help"] = .ok policy ∧
      FiltersRight policy "topic__NEXT" (.array [.string "chat", .string "help"]) := by
  have hinit : init HashOrder.insertion Library.bare none
      [deliverNode "start" "topic" "faq" "help"] = .ok _ := rfl
  refine ⟨_, hinit, (filtersRight_iff hinit _ _).mpr ?_⟩
  intro flow hflow
  cases (show some _ = some flow from hflow)
  constructor
  · intro hnone
    cases (show some _ = none from hnone)
  · intro config entries hconfig hread
    cases (show some _ = some config from hconfig)
    cases (show some _ = some entries from hread)
    apply Judged.of_plain
    · decide
    · rfl
    · intro threshold hthreshold
      cases (List.mem_singleton.mp hthreshold)
      exact ⟨by decide, by decide⟩
    · intro text htext
      rcases List.mem_cons.mp htext with hchat | htext
      · cases hchat
        decide
      · cases List.mem_singleton.mp htext
        decide
    · intro number hnumber
      simp at hnumber

/-- A service with an ordinary `next_flow` answers with two values. -/
theorem deliverConfig_missing :
    ¬ ∀ (order : HashOrder) (library : Library)
        (cancelConfig : Option FlowGlobalCancelConfig) (configs : List DeliverNodeConfig)
        (policy : CascadeAsyncPolicy),
      init order library cancelConfig configs = .ok policy →
        ∀ currFlow, CurrentFlow policy currFlow → ∀ response,
          FiltersRight policy currFlow response := by
  intro hall
  have hright := hall HashOrder.insertion Library.bare none
    [{ node :=
        { name := "start"
          recallConfig := some ⟨"ALL", [{ recallName := "faq", nextFlow := some "chat" }]⟩ }
       deliverConfigs := []
       classifyServices := rfl },
     { node := { name := "chat", recallNames := ["chat"] }
       deliverConfigs := []
       classifyServices := rfl }] _ rfl "chat"
    (.start ⟨_, "faq", rfl, List.mem_cons_self, rfl⟩) (.array [.null, .null])
  exact hright.1 rfl

end CascadeAsyncPolicy

end Uskit
