import Uskit.Data.Turns
import Uskit.Expression.SetByPath
import Uskit.Manager.Dispatch

namespace Uskit

open Uskit.Data

/-! What `parse_request` leaves of the members of the body that are required
parameters. -/

/-- The names of the headers and of the query string are well escaped. -/
def IncomingRequest.WellEscaped (incoming : IncomingRequest) : Prop :=
  ∀ field ∈ incoming.headers ++ incoming.query, wellEscapedPath field.1 = true

instance (incoming : IncomingRequest) : Decidable incoming.WellEscaped :=
  inferInstanceAs (Decidable (∀ field ∈ _, _))

theorem fieldTokens_isSome (name : String) :
    (fieldTokens name).isSome = wellEscapedPath name :=
  Pointer.scan_isSome [] (cStr name).toList

/-- The members under a name, but for the first. -/
structure SameBehind (name : String) (before after : JsonMembers) : Prop where
  kept : Members.under name before ≠ [] → Members.under name after ≠ []
  tail : Members.under name before ≠ [] →
    (Members.under name after).tail = (Members.under name before).tail

theorem SameBehind.length {name : String} {before after : JsonMembers}
    (hsame : SameBehind name before after) (hnamed : Members.under name before ≠ []) :
    (Members.under name after).length = (Members.under name before).length := by
  have htail := congrArg List.length (hsame.tail hnamed)
  rw [List.length_tail, List.length_tail] at htail
  have hbefore := List.length_pos_iff.mpr hnamed
  have hafter := List.length_pos_iff.mpr (hsame.kept hnamed)
  omega

/-- A request that has lost its body: at most the fields are left. -/
def Emptied (request : Json) : Prop :=
  ∀ members, request = .object members → ∀ name,
    (Members.under name members).length ≤ 1 ∧
      (name ≠ "__HEADER__" → name ≠ "__QUERYSTRING__" →
        Members.under name members = [])

section Root

variable {key root : String} (hroot : FieldRoot key root)

include hroot

theorem setText_wellEscaped {name : String} (hname : wellEscapedPath name = true)
    (text : String) (members : JsonMembers) :
    ∃ after, setText (root ++ name) text (.object members) = .object after ∧
      (∀ other ≠ key, Members.under other after = Members.under other members) ∧
      SameBehind key members after := by
  rw [← fieldTokens_isSome, Option.isSome_iff_exists] at hname
  obtain ⟨tokens, htokens⟩ := hname
  rw [setText_eq hroot, htokens]
  cases hold : members.lookup key with
  | some old =>
      refine ⟨_, set_key_found _ tokens hold, ?_, ?_, ?_⟩
      · intro other hne
        rw [Members.under, Members.named_replaceFirst_of_ne (Ne.symm hne)]
        rfl
      · intro hkey
        rw [Members.under, Members.named_replaceFirst_self]
        cases hnamed : Members.named key members with
        | nil =>
            rw [Members.under, hnamed] at hkey
            exact absurd rfl hkey
        | cons first rest =>
            obtain ⟨found, value⟩ := first
            rw [Members.replaceFirst]
            split <;> simp
      · intro hkey
        rw [Members.under, Members.named_replaceFirst_self, Members.under]
        cases hnamed : Members.named key members with
        | nil => rfl
        | cons first rest =>
            obtain ⟨found, value⟩ := first
            have hfirst : (found, value) ∈ Members.named key members := by
              rw [hnamed]
              exact List.mem_cons_self
            rw [Members.named, List.mem_filter, beq_iff_eq] at hfirst
            rw [Members.replaceFirst, if_pos hfirst.2]
            rfl
  | none =>
      have hnone : Members.under key members = [] := Members.under_eq_nil hold
      refine ⟨_, set_key_absent _ tokens hold, ?_, ?_, ?_⟩
      · intro other hne
        rw [Members.under, Members.named_append, Members.named_cons_of_ne (Ne.symm hne)]
        simp [Members.under]
      · exact fun hkey => absurd hnone hkey
      · exact fun hkey => absurd hnone hkey

theorem Emptied.setText (hkey : key = "__HEADER__" ∨ key = "__QUERYSTRING__")
    {request : Json} (hrequest : Emptied request) (name text : String) :
    Emptied (setText (root ++ name) text request) := by
  rw [setText_eq hroot]
  cases htokens : fieldTokens name with
  | none => exact fun members heq => by cases heq
  | some tokens =>
      have hkeys : ∀ other, other ≠ "__HEADER__" → other ≠ "__QUERYSTRING__" →
          other ≠ key := by
        rintro other hheader hquery rfl
        exact hkey.elim hheader hquery
      simp only
      cases hobject : request.isObject with
      | false =>
          intro members heq other
          rw [set_key_other hroot _ _ hobject] at heq
          cases heq
          by_cases hother : other = key
          · subst hother
            refine ⟨by simp [Members.under], fun hheader hquery => ?_⟩
            exact absurd rfl (hkeys other hheader hquery)
          · rw [Members.under_cons_of_ne (Ne.symm hother)]
            exact ⟨Nat.zero_le 1, fun _ _ => rfl⟩
      | true =>
          obtain ⟨before, rfl⟩ := Json.isObject_iff.mp hobject
          have hbefore := hrequest before rfl
          intro members heq other
          cases hold : before.lookup key with
          | some old =>
              simp only [set_key_found _ tokens hold, Json.object.injEq] at heq
              subst heq
              have hlength : ∀ other, (Members.under other
                  (Members.replaceFirst key
                    (Pointer.set (.string (cStr text)) tokens old) before)).length =
                  (Members.under other before).length := by
                intro other
                rw [Members.length_under, Members.length_under,
                  Members.names_replaceFirst]
              refine ⟨hlength other ▸ (hbefore other).1, fun hheader hquery => ?_⟩
              rw [← List.length_eq_zero_iff, hlength,
                (hbefore other).2 hheader hquery]
              rfl
          | none =>
              simp only [set_key_absent _ tokens hold, Json.object.injEq] at heq
              subst heq
              by_cases hother : other = key
              · subst hother
                have hnone : Members.under other before = [] :=
                  Members.under_eq_nil hold
                rw [Members.under, Members.named_append, List.map_append]
                refine ⟨?_, fun hheader hquery =>
                  absurd rfl (hkeys other hheader hquery)⟩
                rw [show List.map Prod.snd (Members.named other before) = [] from hnone]
                simp
              · rw [Members.under, Members.named_append,
                  Members.named_cons_of_ne (Ne.symm hother)]
                simpa [Members.under] using hbefore other

theorem setFields_wellEscaped {pairs : TextPairs}
    (hpairs : ∀ pair ∈ pairs, wellEscapedPath pair.1 = true)
    (members : JsonMembers) :
    ∃ after, setFields root pairs (.object members) = .object after ∧
      (∀ other ≠ key, Members.under other after = Members.under other members) ∧
      SameBehind key members after := by
  induction pairs generalizing members with
  | nil => exact ⟨members, rfl, fun _ _ => rfl, ⟨id, fun _ => rfl⟩⟩
  | cons pair rest ih =>
      obtain ⟨name, text⟩ := pair
      obtain ⟨middle, hset, hothers, hkey⟩ := setText_wellEscaped hroot
        (hpairs _ List.mem_cons_self) text members
      obtain ⟨after, hrest, hrestOthers, hrestKey⟩ :=
        ih (fun other hother => hpairs other (.tail _ hother)) middle
      refine ⟨after, ?_, ?_, ?_, ?_⟩
      · rw [setFields, hset, hrest]
      · intro other hne
        rw [hrestOthers other hne, hothers other hne]
      · exact fun hbefore => hrestKey.kept (hkey.kept hbefore)
      · intro hbefore
        rw [hrestKey.tail (hkey.kept hbefore), hkey.tail hbefore]

theorem Emptied.setFields (hkey : key = "__HEADER__" ∨ key = "__QUERYSTRING__")
    {request : Json} (hrequest : Emptied request) (pairs : TextPairs) :
    Emptied (setFields root pairs request) := by
  induction pairs generalizing request with
  | nil => exact hrequest
  | cons pair rest ih => exact ih (hrequest.setText hroot hkey pair.1 pair.2)

/-- A malformed name replaces the request. -/
theorem setFields_malformed (hkey : key = "__HEADER__" ∨ key = "__QUERYSTRING__")
    {pairs : TextPairs} {pair : String × String} (hpair : pair ∈ pairs)
    (hname : wellEscapedPath pair.1 = false) (request : Json) :
    Emptied (Uskit.setFields root pairs request) := by
  induction pairs generalizing request with
  | nil => cases hpair
  | cons first rest ih =>
      cases hpair with
      | head =>
          rw [← fieldTokens_isSome, Option.isSome_eq_false_iff,
            Option.isNone_iff_eq_none] at hname
          rw [Uskit.setFields, setText_eq hroot, hname]
          exact Emptied.setFields hroot hkey (fun members heq => by cases heq) rest
      | tail _ hrest => exact ih hrest _

end Root

namespace IncomingRequest

variable (incoming : IncomingRequest)

def addFields (request : Json) : Json :=
  addHttpFields incoming.headers incoming.ipAddr incoming.query request

variable {incoming}

theorem addFields_wellEscaped (hwell : incoming.WellEscaped) (body : JsonMembers) :
    ∃ members, incoming.addFields (.object body) = .object members ∧
      (∀ name, name ≠ "__HEADER__" → name ≠ "__QUERYSTRING__" →
        Members.under name members = Members.under name body) ∧
      ∀ name, SameBehind name body members := by
  have hheaders : ∀ field ∈ incoming.headers ++ [("__IP__", incoming.ipAddr)],
      wellEscapedPath field.1 = true := by
    intro field hfield
    cases List.mem_append.mp hfield with
    | inl hheader => exact hwell field (List.mem_append_left _ hheader)
    | inr hip =>
        rw [List.mem_singleton.mp hip]
        exact (by decide : wellEscapedPath "__IP__" = true)
  obtain ⟨middle, hmiddle, hmiddleOthers, hheader⟩ :=
    setFields_wellEscaped headerRoot hheaders body
  obtain ⟨members, hmembers, hothers, hquery⟩ :=
    setFields_wellEscaped queryRoot
      (fun field hfield => hwell field (List.mem_append_right _ hfield)) middle
  have hsame : ∀ name, name ≠ "__HEADER__" → name ≠ "__QUERYSTRING__" →
      Members.under name members = Members.under name body := by
    intro name hneHeader hneQuery
    rw [hothers name hneQuery, hmiddleOthers name hneHeader]
  refine ⟨members, ?_, hsame, ?_⟩
  · rw [addFields, addHttpFields_eq, hmiddle, hmembers]
  · intro name
    by_cases hneQuery : name = "__QUERYSTRING__"
    · subst hneQuery
      have heq := hmiddleOthers "__QUERYSTRING__" (by decide)
      exact ⟨fun hbody => hquery.kept (heq ▸ hbody),
        fun hbody => heq ▸ hquery.tail (heq ▸ hbody)⟩
    · have heq := hothers name hneQuery
      by_cases hneHeader : name = "__HEADER__"
      · subst hneHeader
        exact ⟨fun hbody => heq ▸ hheader.kept hbody,
          fun hbody => heq ▸ hheader.tail hbody⟩
      · rw [hmiddleOthers name hneHeader] at heq
        exact ⟨fun hbody => heq ▸ hbody, fun _ => by rw [heq]⟩

theorem addFields_malformed (hmalformed : ¬ incoming.WellEscaped) (request : Json) :
    Emptied (incoming.addFields request) := by
  rw [addFields, addHttpFields_eq]
  simp only [WellEscaped, not_forall] at hmalformed
  obtain ⟨field, hfield, hname⟩ := hmalformed
  rw [Bool.not_eq_true] at hname
  cases List.mem_append.mp hfield with
  | inl hheader =>
      apply Emptied.setFields queryRoot (.inr rfl)
      exact setFields_malformed headerRoot (.inl rfl)
        (List.mem_append_left _ hheader) hname request
  | inr hquery => exact setFields_malformed queryRoot (.inr rfl) hquery hname _

end IncomingRequest

theorem Checked.bind_eq_ok {checked : Checked α} {next : α → Checked β} {result : β} :
    (checked >>= next) = .ok result ↔
      ∃ value, checked = .ok value ∧ next value = .ok result := by
  cases checked with
  | ok value =>
      refine ⟨fun hnext => ⟨value, rfl, hnext⟩, ?_⟩
      rintro ⟨_, ⟨⟩, hnext⟩
      exact hnext
  | rejected code message => exact ⟨nofun, nofun⟩
  | undefined => exact ⟨nofun, nofun⟩

namespace UnifiedSchedulerManager

/-- The value that a turn of the loop sets for a parameter. -/
def loggedText (param value : String) : String :=
  if param = "logid" then .ofList (percentDoubled value.toList) else value

theorem loggedValue_eq (param value : String) :
    loggedValue param value = .ok (loggedText param value) := by
  unfold loggedValue loggedText
  rw [replaceAll_percent]
  split <;> rfl

variable {υ : Type u} (library : Library) (manager : UnifiedSchedulerManager υ)
  (context : Context)

/-- The members that the loop sets, in its order. -/
inductive Sets : List String → JsonMembers → JsonMembers → Prop where
  | nil (members : JsonMembers) : Sets [] members []
  | cons {param value : String} {rest : List String} {members pairs : JsonMembers} :
      manager.paramValue library context (.object members) param = .ok value →
      Sets rest
        (Members.setLast (cStr param) (.string (cStr (loggedText param value)))
          members) pairs →
      Sets (param :: rest) members
        ((cStr param, .string (cStr (loggedText param value))) :: pairs)

variable {library manager context}

theorem paramValue_default {param default : String} {request : Json}
    (hdefault : manager.paramsDefault.lookup (cStr param) = some default) :
    manager.paramValue library context request param = .ok default := by
  unfold paramValue
  simp only [hdefault]

theorem paramValue_member {param value : String} {members : JsonMembers}
    (hdefault : manager.paramsDefault.lookup (cStr param) = none)
    (hpath : manager.paramsPath.lookup (cStr param) = none)
    (hexpr : manager.paramsExpr.lookup (cStr param) = none)
    (hvalue : manager.paramValue library context (.object members) param =
      .ok value) :
    ∃ text, members.lookup (cStr param) = some (.string text) ∧
      value = cStr text := by
  unfold paramValue at hvalue
  simp only [hdefault, hpath, hexpr] at hvalue
  split at hvalue
  · cases hvalue
  · rename_i text hmember
    exact ⟨text, hmember, (Checked.ok.inj hvalue).symm⟩
  · cases hvalue

theorem checkParams_sets {params : List String} {members : JsonMembers} {final : Json}
    (hcheck : manager.checkParams library context params (.object members) =
      .ok final) :
    ∃ pairs, manager.Sets library context params members pairs ∧
      final = .object (Members.setAllLast pairs members) := by
  induction params generalizing members with
  | nil =>
      cases hcheck
      exact ⟨[], .nil members, rfl⟩
  | cons param rest ih =>
      rw [checkParams, Checked.bind_eq_ok] at hcheck
      obtain ⟨value, hvalue, hlater⟩ := hcheck
      rw [loggedValue_eq, Checked.bind_eq_ok] at hlater
      obtain ⟨_, ⟨⟩, hset⟩ := hlater
      obtain ⟨pairs, hsets, hfinal⟩ := ih hset
      exact ⟨_, .cons hvalue hsets, hfinal⟩

theorem checkParams_not_object {params : List String} {request final : Json}
    (hparams : params ≠ []) (hrequest : request.isObject = false) :
    manager.checkParams library context params request ≠ .ok final := by
  cases params with
  | nil => exact absurd rfl hparams
  | cons param rest =>
      intro hcheck
      rw [checkParams, Checked.bind_eq_ok] at hcheck
      obtain ⟨value, hvalue, hlater⟩ := hcheck
      rw [loggedValue_eq, Checked.bind_eq_ok] at hlater
      obtain ⟨_, ⟨⟩, hset⟩ := hlater
      cases request with
      | object members => cases hrequest
      | null | bool | number | string | array => cases hset

section Sets

variable {params : List String} {members pairs : JsonMembers}
  (hsets : manager.Sets library context params members pairs)

include hsets

theorem Sets.length_under (name : String) :
    (Members.under name pairs).length =
      (params.filter (cStr · = name)).length := by
  induction hsets with
  | nil members => rfl
  | @cons param value rest members pairs hvalue hrest ih =>
      by_cases hname : cStr param = name
      · rw [List.filter_cons_of_pos (by simpa using hname), List.length_cons, ← ih,
          ← hname, Members.under_cons_self, List.length_cons]
      · rw [List.filter_cons_of_neg (by simpa using hname), ← ih,
          Members.under_cons_of_ne hname]

theorem Sets.strings {name : String} {value : Json}
    (hvalue : value ∈ Members.under name pairs) : ∃ text, value = .string text := by
  have hmem := Members.mem_of_mem_under hvalue
  clear hvalue
  induction hsets with
  | nil members => cases hmem
  | @cons param found rest members pairs hfound hrest ih =>
      cases hmem with
      | head => exact ⟨_, rfl⟩
      | tail _ hlater => exact ih hlater

/-- A default is the value of all turns of its name. -/
theorem Sets.under_default {name default : String}
    (hdefault : manager.paramsDefault.lookup name = some default) :
    Members.under name pairs =
      (params.filter (cStr · = name)).map fun param =>
        .string (cStr (loggedText param default)) := by
  induction hsets with
  | nil members => rfl
  | @cons param value rest members pairs hvalue hrest ih =>
      by_cases hname : cStr param = name
      · have hread : value = default := by
          rw [← hname] at hdefault
          rw [paramValue_default hdefault] at hvalue
          exact (Checked.ok.inj hvalue).symm
        rw [List.filter_cons_of_pos (by simpa using hname), List.map_cons, ← ih, hread,
          ← hname, Members.under_cons_self]
      · rw [List.filter_cons_of_neg (by simpa using hname), ← ih,
          Members.under_cons_of_ne hname]

theorem Sets.under_default_eq_some_iff {name default : String}
    (hdefault : manager.paramsDefault.lookup name = some default) (place : Nat)
    (value : Json) :
    (Members.under name pairs)[place]? = some value ↔
      ∃ param other, (params.filter (cStr · = name))[place]? = some param ∧
        manager.paramsDefault.lookup name = some other ∧
          value = .string (cStr (loggedText param other)) := by
  rw [hsets.under_default hdefault, List.getElem?_map, Option.map_eq_some_iff]
  constructor
  · intro hset
    obtain ⟨param, hparam, rfl⟩ := hset
    exact ⟨param, default, hparam, hdefault, rfl⟩
  · intro hset
    obtain ⟨param, other, hparam, hother, rfl⟩ := hset
    obtain rfl : default = other := Option.some.inj (hdefault.symm.trans hother)
    exact ⟨param, hparam, rfl⟩

/-- Without a source of its own a parameter is read from the request. -/
theorem Sets.under_once {name param : String}
    (honce : params.filter (cStr · = name) = [param])
    (hdefault : manager.paramsDefault.lookup name = none)
    (hpath : manager.paramsPath.lookup name = none)
    (hexpr : manager.paramsExpr.lookup name = none) :
    ∃ text, (Members.under name members).head? = some (.string text) ∧
      Members.under name pairs =
        [.string (cStr (loggedText param (cStr text)))] := by
  induction hsets with
  | nil members => cases honce
  | @cons other value rest members pairs hvalue hrest ih =>
      by_cases hname : cStr other = name
      · rw [List.filter_cons_of_pos (by simpa using hname), List.cons.injEq] at honce
        obtain ⟨rfl, hothers⟩ := honce
        have hlater := hrest.length_under name
        rw [hothers, List.length_nil, List.length_eq_zero_iff] at hlater
        rw [← hname] at hdefault hpath hexpr
        obtain ⟨text, hmember, rfl⟩ :=
          paramValue_member hdefault hpath hexpr hvalue
        rw [hname, Members.lookup_eq_head_under] at hmember
        refine ⟨text, hmember, ?_⟩
        rw [← hname] at hlater ⊢
        rw [Members.under_cons_self, hlater]
      · rw [List.filter_cons_of_neg (by simpa using hname)] at honce
        obtain ⟨text, hhead, hpairs⟩ := ih honce
        rw [Members.under_setLast_of_ne hname] at hhead
        refine ⟨text, hhead, ?_⟩
        rw [← hpairs, Members.under_cons_of_ne hname]

end Sets

variable (manager)

/-- The required parameters that are set under a name, one turn for each. -/
def turns (name : String) : List String :=
  manager.requiredParams.filter (cStr · = name)

variable {manager}

/-- What `parse_request` leaves under a name, by what it finds there after the
fields of the transport were added. -/
theorem parseRequest_findMember? {incoming : IncomingRequest} {body : JsonMembers}
    {request : Json} (hbody : library.parseJson (cStr incoming.body) = some (.object body))
    (hparams : manager.requiredParams ≠ [])
    (hparse : manager.parseRequest library incoming = .ok request) :
    ∃ context members pairs,
      incoming.addFields (.object body) = .object members ∧
        manager.Sets library context manager.requiredParams members pairs ∧
        ∀ name, request.findMember? name =
          if (manager.turns name).length < (Members.under name members).length then
            (Members.under name members)[(manager.turns name).length]?
          else
            (Members.under name pairs)[(manager.turns name).length -
              max 1 (Members.under name members).length]? := by
  unfold parseRequest at hparse
  rw [hbody] at hparse
  simp only at hparse
  cases hobject : (incoming.addFields (.object body)).isObject with
  | false => exact absurd hparse (checkParams_not_object hparams hobject)
  | true =>
      obtain ⟨members, hmembers⟩ := Json.isObject_iff.mp hobject
      have hfields : addHttpFields incoming.headers incoming.ipAddr incoming.query
          (.object body) = .object members := hmembers
      rw [hfields] at hparse
      obtain ⟨pairs, hsets, rfl⟩ := checkParams_sets hparse
      refine ⟨_, members, pairs, hmembers, hsets, fun name => ?_⟩
      rw [Json.findMember?_object, Members.lookup_setAllLast, hsets.length_under name]
      rfl

/-! What `init` makes of the configured parameters. -/

theorem addParam_spec {param : RequiredParam} {before after : UnifiedSchedulerManager υ}
    (hadd : addParam before param = some after) :
    after.requiredParams = before.requiredParams ++ [param.paramName] ∧
      (∀ name, (before.paramsDefault.lookup name).isSome →
        (after.paramsDefault.lookup name).isSome) ∧
      (param.defaultValue.isSome →
        (after.paramsDefault.lookup param.paramName).isSome) ∧
      (param.paramPath = none → param.paramExpr = none →
        param.defaultValue.isSome) := by
  unfold addParam at hadd
  split at hadd
  · rename_i value hdefault
    cases hadd
    refine ⟨rfl, ?_, ?_, fun _ _ => by rw [hdefault]; rfl⟩
    · intro name hname
      rw [Members.lookup_isSome] at hname ⊢
      exact Members.mem_names_emplace_of_mem hname
    · intro _
      rw [Members.lookup_isSome]
      exact Members.mem_names_emplace_self _ _ _
  · rename_i path hdefault hpath
    cases hadd
    refine ⟨rfl, fun _ => id, ?_, ?_⟩
    · intro hsome
      rw [hdefault] at hsome
      cases hsome
    · intro hnone
      rw [hpath] at hnone
      cases hnone
  · rename_i expr hdefault hpath hexpr
    cases hadd
    refine ⟨rfl, fun _ => id, ?_, ?_⟩
    · intro hsome
      rw [hdefault] at hsome
      cases hsome
    · intro _ hnone
      rw [hexpr] at hnone
      cases hnone
  · cases hadd

theorem addParams_spec {params : List RequiredParam}
    {before after : UnifiedSchedulerManager υ}
    (hadd : params.foldlM addParam before = some after) :
    after.requiredParams = before.requiredParams ++ params.map (·.paramName) ∧
      (∀ name, (before.paramsDefault.lookup name).isSome →
        (after.paramsDefault.lookup name).isSome) ∧
      (∀ param ∈ params, param.defaultValue.isSome →
        (after.paramsDefault.lookup param.paramName).isSome) ∧
      ∀ param ∈ params, param.paramPath = none → param.paramExpr = none →
        param.defaultValue.isSome := by
  induction params generalizing before with
  | nil =>
      cases hadd
      exact ⟨(List.append_nil _).symm, fun _ => id, by simp, by simp⟩
  | cons param rest ih =>
      rw [List.foldlM_cons, Option.bind_eq_bind, Option.bind_eq_some_iff] at hadd
      obtain ⟨middle, hfirst, hrest⟩ := hadd
      obtain ⟨hnames, hkept, hdefault, hsource⟩ := addParam_spec hfirst
      obtain ⟨hrestNames, hrestKept, hrestDefault, hrestSource⟩ := ih hrest
      refine ⟨?_, fun name hname => hrestKept name (hkept name hname), ?_, ?_⟩
      · rw [hrestNames, hnames, List.append_assoc]
        rfl
      · intro other hother hsome
        cases hother with
        | head => exact hrestKept _ (hdefault hsome)
        | tail _ hlater => exact hrestDefault other hlater hsome
      · intro other hother
        cases hother with
        | head => exact hsource
        | tail _ hlater => exact hrestSource other hlater

/-- The parameters of a configuration without `required_params`. -/
def listedParams : List String :=
  ["logid", "uuid", "usid", "query"]

theorem init_spec {loadUs : String → Option υ} {config : UnifiedSchedulerConfig}
    (hinit : init loadUs config = some manager) :
    (config.requiredParams = [] ∧ manager.requiredParams = listedParams ∧
        manager.paramsDefault = [] ∧ manager.paramsPath = [] ∧
        manager.paramsExpr = []) ∨
      (config.requiredParams ≠ [] ∧
        manager.requiredParams = config.requiredParams.map (·.paramName) ∧
        (∀ param ∈ config.requiredParams, param.defaultValue.isSome →
          (manager.paramsDefault.lookup param.paramName).isSome) ∧
        ∀ param ∈ config.requiredParams, param.paramPath = none →
          param.paramExpr = none → param.defaultValue.isSome) := by
  rw [init, Option.bind_eq_bind, Option.bind_eq_some_iff] at hinit
  obtain ⟨usMap, -, hadd⟩ := hinit
  cases hconfig : config.requiredParams with
  | nil =>
      rw [hconfig] at hadd
      cases hadd
      exact .inl ⟨rfl, rfl, rfl, rfl, rfl⟩
  | cons first rest =>
      rw [hconfig] at hadd
      obtain ⟨hnames, -, hdefault, hsource⟩ := addParams_spec hadd
      exact .inr ⟨List.cons_ne_nil _ _, hnames, hdefault, hsource⟩

theorem requiredParams_ne_nil {loadUs : String → Option υ}
    {config : UnifiedSchedulerConfig}
    (hinit : init loadUs config = some manager) : manager.requiredParams ≠ [] := by
  rcases init_spec hinit with ⟨-, hnames, -⟩ | ⟨hconfig, hnames, -⟩
  · rw [hnames]
    exact List.cons_ne_nil _ _
  · rw [hnames]
    exact fun hnil => hconfig (List.map_eq_nil_iff.mp hnil)

variable (manager) in
/-- A string is left under `usid`: a member of the body that the turns of the
parameter do not reach, or what the last turn sets. -/
def UsidLeft (incoming : IncomingRequest) (body : JsonMembers) : Prop :=
  let sent := Members.under "usid" body
  if incoming.WellEscaped ∧ (manager.turns "usid").length < sent.length then
    ∃ text, sent[(manager.turns "usid").length]? = some (.string text)
  else manager.turns "usid" ≠ []

/-- `run` finds the name of a scheduler in a request exactly when there is one
left under `usid`. -/
theorem usid_found_iff {loadUs : String → Option υ} {config : UnifiedSchedulerConfig}
    {incoming : IncomingRequest} {body : JsonMembers} {request : Json}
    (hinit : init loadUs config = some manager)
    (hbody : library.parseJson (cStr incoming.body) = some (.object body))
    (hparse : manager.parseRequest library incoming = .ok request) :
    (∃ text, request.findMember? "usid" = some (.string text)) ↔
      manager.UsidLeft incoming body := by
  obtain ⟨context, members, pairs, hfields, hsets, hfind⟩ :=
    parseRequest_findMember? hbody (requiredParams_ne_nil hinit) hparse
  have hlength := hsets.length_under "usid"
  rw [hfind, UsidLeft]
  have hset : ∀ place, place < (manager.turns "usid").length →
      ∃ text, (Members.under "usid" pairs)[place]? = some (.string text) := by
    intro place hplace
    have hlt : place < (Members.under "usid" pairs).length := hlength ▸ hplace
    obtain ⟨text, htext⟩ := hsets.strings (List.getElem_mem hlt)
    exact ⟨text, by rw [List.getElem?_eq_getElem hlt, htext]⟩
  have hlast : ∀ count, (∃ text, (Members.under "usid" pairs)[
        (manager.turns "usid").length - max 1 count]? = some (.string text)) ↔
      manager.turns "usid" ≠ [] := by
    intro count
    constructor
    · rintro ⟨text, htext⟩ hnil
      obtain ⟨hlt, -⟩ := List.getElem?_eq_some_iff.mp htext
      rw [hlength] at hlt
      change _ < (manager.turns "usid").length at hlt
      rw [hnil] at hlt
      exact Nat.not_lt_zero _ hlt
    · intro hne
      have hpos := List.length_pos_iff.mpr hne
      exact hset _ (by omega)
  by_cases hwell : incoming.WellEscaped
  · obtain ⟨after, hafter, hsame, -⟩ := IncomingRequest.addFields_wellEscaped hwell body
    obtain rfl : members = after := Json.object.inj (hfields.symm.trans hafter)
    rw [hsame "usid" (by decide) (by decide)]
    simp only [hwell, true_and]
    split
    · exact Iff.rfl
    · exact hlast _
  · have hempty := (IncomingRequest.addFields_malformed hwell (.object body) members
      hfields "usid").2 (by decide) (by decide)
    rw [hempty]
    simp only [hwell, false_and, List.length_nil, Nat.not_lt_zero, if_false]
    exact hlast 0

/-- A parameter with a default, and no `usid`. -/
def userConfig : UnifiedSchedulerConfig where
  requiredParams := [{ paramName := "user_id", defaultValue := some "USER_1" }]

def sending (members : JsonMembers) : Library :=
  { Library.bare with parseJson := fun _ => some (.object members) }

theorem usid_missing :
    ¬ ∀ (library : Library) (loadUs : String → Option Unit)
        (config : UnifiedSchedulerConfig) (manager : UnifiedSchedulerManager Unit)
        (incoming : IncomingRequest) (request : Json),
      init loadUs config = some manager →
      manager.parseRequest library incoming = .ok request →
        ∃ text, request.findMember? "usid" = some (.string text) := by
  intro hall
  obtain ⟨text, htext⟩ := hall (sending []) (fun _ => none) userConfig _
    ⟨"", [], "", []⟩
    (.object [("__HEADER__", .object [("__IP__", .string "")]),
      ("user_id", .string "USER_1")]) rfl (by decide +kernel)
  cases htext

/-- A request of the default parameters. -/
def listedMembers : JsonMembers :=
  [("logid", .string "1"), ("uuid", .string "1"), ("usid", .string "demo"),
    ("query", .string "")]

def listedRequest : Json :=
  .object
    [("__HEADER__", .object [("__IP__", .string "")]), ("logid", .string "1"),
      ("uuid", .string "1"), ("usid", .string "demo"), ("query", .string "")]

theorem listedRequest_usid :
    ∃ text, listedRequest.findMember? "usid" = some (.string text) := by
  have hiff := @usid_found_iff Unit (sending listedMembers) _ (fun _ => none) {}
    ⟨"", [], "", []⟩ listedMembers listedRequest rfl rfl (by decide +kernel)
  apply hiff.mpr
  unfold UsidLeft
  simp only
  rw [if_neg (by decide +kernel)]
  exact List.cons_ne_nil _ _

variable (manager) in
/-- What is left under the name of a parameter with a default is the value that
the client sent. -/
def DefaultFits (incoming : IncomingRequest) (body : JsonMembers) (name : String)
    (value : Json) : Prop :=
  let sent := Members.under name body
  let turns := manager.turns name
  if incoming.WellEscaped ∧ turns.length < sent.length then
    sent[turns.length]? = some value
  else
    ∃ param default,
      turns[turns.length - if incoming.WellEscaped then sent.length else 1]? =
          some param ∧
        manager.paramsDefault.lookup name = some default ∧
        value = .string (cStr (loggedText param default))

end UnifiedSchedulerManager

/-- The names of the required parameters that have neither a path nor an
expression. -/
def UnifiedSchedulerConfig.plainParams (config : UnifiedSchedulerConfig) :
    List String :=
  if config.requiredParams.isEmpty then UnifiedSchedulerManager.listedParams
  else
    (config.requiredParams.filter fun param =>
      param.paramPath.isNone && param.paramExpr.isNone).map (·.paramName)

/-- The request has what the client sent for a parameter: a string, where the
parameter has no path and no expression, and anything, where it has a default. -/
structure ClientValuesKept (config : UnifiedSchedulerConfig) (body : JsonMembers)
    (request : Json) : Prop where
  strings : ∀ param ∈ config.plainParams, ∀ text,
    body.lookup param = some (.string text) →
      request.findMember? param = some (.string text)
  defaults : ∀ param ∈ config.requiredParams, param.defaultValue.isSome →
    ∀ value, body.lookup param.paramName = some value →
      request.findMember? param.paramName = some value

/-- A text that is neither cut nor escaped on its way. -/
def PlainText (param text : String) : Prop :=
  '\x00' ∉ text.toList ∧ (param = "logid" → '%' ∉ text.toList)

/-- The values of the client that come through. -/
structure ClientValuesFit (config : UnifiedSchedulerConfig)
    (manager : UnifiedSchedulerManager υ) (incoming : IncomingRequest)
    (body : JsonMembers) : Prop where
  /-- Without `required_params`: a plain text sent once, or sent again at the second
  place. -/
  listed : config.requiredParams = [] →
    ∀ param ∈ UnifiedSchedulerManager.listedParams, ∀ text,
      body.lookup param = some (.string text) →
        (Members.under param body).length = 1 ∧ PlainText param text ∨
          (Members.under param body)[1]? = some (.string text)
  defaults : ∀ param ∈ config.requiredParams, param.defaultValue.isSome →
    ∀ value, body.lookup param.paramName = some value →
      manager.DefaultFits incoming body param.paramName value

theorem mem_of_mem_percentDoubled {c : Char} {text : List Char}
    (hc : c ∈ percentDoubled text) : c ∈ text := by
  obtain ⟨other, hother, hmem⟩ := List.mem_flatMap.mp hc
  split at hmem
  · rename_i hpercent
    simp only [List.mem_cons, List.not_mem_nil, or_false, or_self] at hmem
    rwa [hmem, ← hpercent]
  · rwa [List.mem_singleton.mp hmem]

namespace UnifiedSchedulerManager

theorem cStr_loggedText_eq_iff {param text : String} :
    cStr (loggedText param (cStr text)) = text ↔ PlainText param text := by
  have hlogged : '\x00' ∉ text.toList →
      cStr (loggedText param (cStr text)) = loggedText param text := by
    intro hfree
    rw [cStr_eq_self hfree]
    apply cStr_eq_self
    unfold loggedText
    split
    · rw [String.toList_ofList]
      exact fun hmem => hfree (mem_of_mem_percentDoubled hmem)
    · exact hfree
  have hsame : loggedText param text = text ↔ (param = "logid" → '%' ∉ text.toList) := by
    unfold loggedText
    split
    · rename_i hlogid
      rw [← String.toList_inj, String.toList_ofList, percentDoubled_eq_self_iff]
      exact ⟨fun hfree _ => hfree, fun hfree => hfree hlogid⟩
    · rename_i hother
      exact ⟨fun _ heq => absurd heq hother, fun _ => rfl⟩
  constructor
  · intro heq
    have hfree : '\x00' ∉ text.toList := by
      have hcut := cStr_free (loggedText param (cStr text))
      rwa [heq] at hcut
    exact ⟨hfree, hsame.mp ((hlogged hfree).symm.trans heq)⟩
  · intro hplain
    obtain ⟨hfree, hplain⟩ := hplain
    exact (hlogged hfree).trans (hsame.mpr hplain)

section

variable {υ : Type u} {library : Library} {manager : UnifiedSchedulerManager υ}
  {incoming : IncomingRequest} {body : JsonMembers} {request : Json}

theorem cStr_ne_of_turns_nil {name : String} (hname : name ∈ manager.requiredParams)
    (hturns : manager.turns name = []) : cStr name ≠ name := by
  intro hcut
  have hmem : name ∈ manager.turns name := by
    rw [turns, List.mem_filter]
    exact ⟨hname, by simpa using hcut⟩
  rw [hturns] at hmem
  cases hmem

/-- The turns of a parameter with a default. -/
theorem defaultFits_iff (hbody : library.parseJson (cStr incoming.body) = some (.object body))
    (hparse : manager.parseRequest library incoming = .ok request) {name : String}
    (hname : name ∈ manager.requiredParams)
    (hdefault : (manager.paramsDefault.lookup name).isSome) {value : Json}
    (hvalue : body.lookup name = some value) :
    request.findMember? name = some value ↔
      manager.DefaultFits incoming body name value := by
  have hparams : manager.requiredParams ≠ [] := List.ne_nil_of_mem hname
  obtain ⟨context, members, pairs, hfields, hsets, hfind⟩ :=
    parseRequest_findMember? hbody hparams hparse
  obtain ⟨default, hdefault⟩ := Option.isSome_iff_exists.mp hdefault
  have hset (place : Nat) := hsets.under_default_eq_some_iff hdefault place value
  -- Without a turn the name has a NUL, and is not one of a transport field.
  have hkeys : manager.turns name = [] → name ≠ "__HEADER__" ∧
      name ≠ "__QUERYSTRING__" := by
    intro hturns
    have hcut := cStr_ne_of_turns_nil hname hturns
    refine ⟨?_, ?_⟩ <;> rintro rfl <;> exact hcut (by decide)
  have hsent : Members.under name body ≠ [] := by
    rw [Members.lookup_eq_head_under] at hvalue
    intro hnil
    rw [hnil] at hvalue
    cases hvalue
  rw [hfind, DefaultFits]
  by_cases hwell : incoming.WellEscaped
  · obtain ⟨after, hafter, hsame, hbehind⟩ :=
      IncomingRequest.addFields_wellEscaped hwell body
    obtain rfl : members = after := Json.object.inj (hfields.symm.trans hafter)
    have htail := (hbehind name).tail hsent
    have hlength := (hbehind name).length hsent
    have hpos := List.length_pos_iff.mpr hsent
    simp only [hwell, true_and, if_true]
    rw [hlength, Nat.max_eq_right hpos]
    split
    · have hplace : (Members.under name members)[(manager.turns name).length]? =
          (Members.under name body)[(manager.turns name).length]? := by
        cases hturns : manager.turns name with
        | nil => rw [hsame name (hkeys hturns).1 (hkeys hturns).2]
        | cons first rest =>
            rw [List.length_cons, ← List.getElem?_tail, ← List.getElem?_tail, htail]
      rw [hplace]
    · exact hset _
  · have hempty := IncomingRequest.addFields_malformed hwell (.object body) members
      hfields name
    have hle : ¬ (manager.turns name).length < (Members.under name members).length := by
      intro hlt
      have hnil : manager.turns name = [] := by
        rw [← List.length_eq_zero_iff]
        omega
      rw [hempty.2 (hkeys hnil).1 (hkeys hnil).2] at hlt
      exact Nat.not_lt_zero _ hlt
    simp only [hwell, false_and, if_false]
    rw [if_neg hle, Nat.max_eq_left hempty.1]
    exact hset _

/-- The turn of one of the listed parameters. -/
theorem listed_iff (hbody : library.parseJson (cStr incoming.body) = some (.object body))
    (hparse : manager.parseRequest library incoming = .ok request)
    (hrequired : manager.requiredParams = listedParams)
    (hdefault : manager.paramsDefault = []) (hpath : manager.paramsPath = [])
    (hexpr : manager.paramsExpr = []) {name : String} (hname : name ∈ listedParams)
    {text : String} (htext : body.lookup name = some (.string text)) :
    request.findMember? name = some (.string text) ↔
      (Members.under name body).length = 1 ∧ PlainText name text ∨
        (Members.under name body)[1]? = some (.string text) := by
  have hparams : manager.requiredParams ≠ [] := by
    rw [hrequired]
    exact List.cons_ne_nil _ _
  obtain ⟨context, members, pairs, hfields, hsets, hfind⟩ :=
    parseRequest_findMember? hbody hparams hparse
  have honce : manager.turns name = [name] ∧ name ≠ "__HEADER__" ∧
      name ≠ "__QUERYSTRING__" := by
    rw [turns, hrequired]
    simp only [listedParams, List.mem_cons, List.not_mem_nil, or_false] at hname
    obtain rfl | rfl | rfl | rfl := hname <;> decide
  obtain ⟨hturns, hneHeader, hneQuery⟩ := honce
  obtain ⟨found, hhead, hpairs⟩ := hsets.under_once hturns (by rw [hdefault]; rfl)
    (by rw [hpath]; rfl) (by rw [hexpr]; rfl)
  have hwell : incoming.WellEscaped := by
    by_contra hmalformed
    have hempty := (IncomingRequest.addFields_malformed hmalformed (.object body)
      members hfields name).2 hneHeader hneQuery
    rw [hempty] at hhead
    cases hhead
  obtain ⟨after, hafter, hsame, -⟩ := IncomingRequest.addFields_wellEscaped hwell body
  obtain rfl : members = after := Json.object.inj (hfields.symm.trans hafter)
  rw [hsame name hneHeader hneQuery] at hhead
  rw [Members.lookup_eq_head_under, hhead] at htext
  obtain rfl : found = text := Json.string.inj (Option.some.inj htext)
  rw [hfind, hsame name hneHeader hneQuery, hturns, hpairs, List.length_singleton]
  cases hsent : Members.under name body with
  | nil =>
      rw [hsent] at hhead
      cases hhead
  | cons first rest =>
      cases rest with
      | nil =>
          have hplain := @cStr_loggedText_eq_iff name found
          simp [hplain]
      | cons second rest => simp

end

end UnifiedSchedulerManager

/-- The values of the client are kept exactly when they fit. -/
theorem clientValuesKept_iff {υ : Type u} {library : Library}
    {loadUs : String → Option υ} {config : UnifiedSchedulerConfig}
    {manager : UnifiedSchedulerManager υ} {incoming : IncomingRequest}
    {body : JsonMembers} {request : Json}
    (hinit : UnifiedSchedulerManager.init loadUs config = some manager)
    (hbody : library.parseJson (cStr incoming.body) = some (.object body))
    (hparse : manager.parseRequest library incoming = .ok request) :
    ClientValuesKept config body request ↔
      ClientValuesFit config manager incoming body := by
  rcases UnifiedSchedulerManager.init_spec hinit with
    ⟨hconfig, hrequired, hdefault, hpath, hexpr⟩ |
    ⟨hconfig, hrequired, hdefault, hsource⟩
  · have hplain : config.plainParams = UnifiedSchedulerManager.listedParams := by
      rw [UnifiedSchedulerConfig.plainParams, hconfig]
      rfl
    have hiff : ∀ name ∈ UnifiedSchedulerManager.listedParams, ∀ text,
        body.lookup name = some (.string text) →
          (request.findMember? name = some (.string text) ↔
            (Members.under name body).length = 1 ∧ PlainText name text ∨
              (Members.under name body)[1]? = some (.string text)) :=
      fun name hname text htext => UnifiedSchedulerManager.listed_iff hbody hparse
        hrequired hdefault hpath hexpr hname htext
    constructor
    · intro hkept
      refine ⟨fun _ name hname text htext => ?_, ?_⟩
      · exact (hiff name hname text htext).mp
          (hkept.strings name (hplain ▸ hname) text htext)
      · simp [hconfig]
    · intro hfit
      refine ⟨fun name hname text htext => ?_, ?_⟩
      · rw [hplain] at hname
        exact (hiff name hname text htext).mpr (hfit.listed hconfig name hname text htext)
      · simp [hconfig]
  · have hmem : ∀ param ∈ config.requiredParams,
        param.paramName ∈ manager.requiredParams := by
      intro param hparam
      rw [hrequired]
      exact List.mem_map_of_mem hparam
    have hiff : ∀ param ∈ config.requiredParams, param.defaultValue.isSome →
        ∀ value, body.lookup param.paramName = some value →
          (request.findMember? param.paramName = some value ↔
            manager.DefaultFits incoming body param.paramName value) :=
      fun param hparam hsome value hvalue =>
        UnifiedSchedulerManager.defaultFits_iff hbody hparse (hmem param hparam)
          (hdefault param hparam hsome) hvalue
    constructor
    · intro hkept
      refine ⟨fun hnil => absurd hnil hconfig, fun param hparam hsome value hvalue => ?_⟩
      exact (hiff param hparam hsome value hvalue).mp
        (hkept.defaults param hparam hsome value hvalue)
    · intro hfit
      have hdefaults : ∀ param ∈ config.requiredParams, param.defaultValue.isSome →
          ∀ value, body.lookup param.paramName = some value →
            request.findMember? param.paramName = some value :=
        fun param hparam hsome value hvalue => (hiff param hparam hsome value hvalue).mpr
          (hfit.defaults param hparam hsome value hvalue)
      refine ⟨fun name hname text htext => ?_, hdefaults⟩
      rw [UnifiedSchedulerConfig.plainParams, if_neg (by simpa using hconfig)] at hname
      obtain ⟨param, hparam, rfl⟩ := List.mem_map.mp hname
      obtain ⟨hparam, hplain⟩ := List.mem_filter.mp hparam
      rw [Bool.and_eq_true, Option.isNone_iff_eq_none,
        Option.isNone_iff_eq_none] at hplain
      exact hdefaults param hparam (hsource param hparam hplain.1 hplain.2) _ htext

theorem default_replaces_query :
    ¬ ∀ (library : Library) (loadUs : String → Option Unit)
        (config : UnifiedSchedulerConfig) (manager : UnifiedSchedulerManager Unit)
        (incoming : IncomingRequest) (body : JsonMembers) (request : Json),
      UnifiedSchedulerManager.init loadUs config = some manager →
      library.parseJson (cStr incoming.body) = some (.object body) →
      manager.parseRequest library incoming = .ok request →
        ClientValuesKept config body request := by
  intro hall
  have hkept := hall (UnifiedSchedulerManager.sending [("user_id", .string "7")])
    (fun _ => none) UnifiedSchedulerManager.userConfig _ ⟨"", [], "", []⟩ _
    (.object [("__HEADER__", .object [("__IP__", .string "")]),
      ("user_id", .string "USER_1")]) rfl rfl (by decide +kernel)
  have hmember := hkept.strings "user_id" (by decide) "7" rfl
  revert hmember
  decide

theorem listedRequest_kept :
    ClientValuesKept {} UnifiedSchedulerManager.listedMembers
      UnifiedSchedulerManager.listedRequest := by
  have hiff := @clientValuesKept_iff Unit
    (UnifiedSchedulerManager.sending UnifiedSchedulerManager.listedMembers)
    (fun _ => none) {} _ ⟨"", [], "", []⟩ UnifiedSchedulerManager.listedMembers
    UnifiedSchedulerManager.listedRequest rfl rfl (by decide +kernel)
  refine hiff.mpr ⟨fun _ name hname text htext => .inl ?_, by simp⟩
  simp only [UnifiedSchedulerManager.listedParams, List.mem_cons, List.not_mem_nil,
    or_false] at hname
  obtain rfl | rfl | rfl | rfl := hname <;> cases htext <;>
    exact ⟨rfl, by decide, by decide⟩

end Uskit
