import Mathlib.Data.List.Basic
import Mathlib.Data.List.Nodup

namespace Uskit.Data

/-! Member lists: association lists in which a key may be repeated, searched
from the front, extended at the back. -/

abbrev Members (κ : Type u) (α : Type v) := List (κ × α)

namespace Members

variable {κ : Type u} {α : Type v}

def names (members : Members κ α) : List κ :=
  members.map Prod.fst

@[simp] theorem names_nil : names ([] : Members κ α) = [] := rfl

@[simp] theorem names_cons (member : κ × α) (members : Members κ α) :
    names (member :: members) = member.1 :: names members := rfl

@[simp] theorem names_append (left right : Members κ α) :
    names (left ++ right) = names left ++ names right := by
  simp [names]

theorem mem_names_iff {key : κ} {members : Members κ α} :
    key ∈ names members ↔ ∃ value, (key, value) ∈ members := by
  simp [names]

variable [DecidableEq κ]

/-- The members called `key`, in order: what a front-to-back search, an erase
and an append can tell about `key`. -/
def named (key : κ) (members : Members κ α) : Members κ α :=
  members.filter (fun member => member.1 == key)

def eraseFirst (key : κ) : Members κ α → Members κ α
  | [] => []
  | (name, value) :: rest =>
      if name = key then rest else (name, value) :: eraseFirst key rest

def replaceFirst (key : κ) (replacement : α) : Members κ α → Members κ α
  | [] => []
  | (name, value) :: rest =>
      if name = key then (name, replacement) :: rest
      else (name, value) :: replaceFirst key replacement rest

/-- `emplace` of a table: a key that is there keeps its value. -/
def emplace (members : Members κ α) (key : κ) (value : α) : Members κ α :=
  if (members.lookup key).isSome then members else members ++ [(key, value)]

@[simp] theorem named_nil (key : κ) : named key ([] : Members κ α) = [] := rfl

@[simp] theorem named_append (key : κ) (left right : Members κ α) :
    named key (left ++ right) = named key left ++ named key right := by
  simp [named]

@[simp] theorem named_cons_self (key : κ) (value : α) (rest : Members κ α) :
    named key ((key, value) :: rest) = (key, value) :: named key rest := by
  simp [named]

theorem named_cons_of_ne {key name : κ} (hne : name ≠ key) (value : α)
    (rest : Members κ α) :
    named key ((name, value) :: rest) = named key rest := by
  simp [named, hne]

theorem lookup_cons_of_ne {key name : κ} (hne : key ≠ name) (value : α)
    (rest : Members κ α) :
    ((name, value) :: rest).lookup key = rest.lookup key := by
  rw [List.lookup_cons, beq_false_of_ne hne]

theorem lookup_eq_none {key : κ} {members : Members κ α} :
    members.lookup key = none ↔ key ∉ names members := by
  rw [List.lookup_eq_none_iff, mem_names_iff]
  constructor
  · rintro hall ⟨value, hvalue⟩
    simpa using hall _ hvalue
  · rintro hnone ⟨name, value⟩ hmember
    have hname : key ≠ name := by
      rintro rfl
      exact hnone ⟨value, hmember⟩
    simpa using hname

theorem lookup_isSome {key : κ} {members : Members κ α} :
    (members.lookup key).isSome ↔ key ∈ names members := by
  rw [← Option.ne_none_iff_isSome, ne_eq, lookup_eq_none, not_not]

theorem mem_names_emplace_of_mem {key other : κ} {value : α} {members : Members κ α}
    (hmem : other ∈ names members) : other ∈ names (members.emplace key value) := by
  unfold emplace
  split
  · exact hmem
  · rw [names_append]
    exact List.mem_append_left _ hmem

theorem mem_names_emplace_self (key : κ) (value : α) (members : Members κ α) :
    key ∈ names (members.emplace key value) := by
  unfold emplace
  split
  · rename_i hsome
    exact lookup_isSome.mp hsome
  · rw [names_append]
    exact List.mem_append_right _ List.mem_cons_self

theorem mem_of_lookup {key : κ} {value : α} {members : Members κ α}
    (hfound : members.lookup key = some value) : (key, value) ∈ members := by
  induction members with
  | nil => simp at hfound
  | cons member rest ih =>
      obtain ⟨name, old⟩ := member
      by_cases hname : key = name
      · subst hname
        simp_all
      · rw [List.lookup_cons, beq_false_of_ne hname] at hfound
        exact List.mem_cons_of_mem _ (ih hfound)

theorem lookup_of_mem {key : κ} {value : α} {members : Members κ α}
    (hnodup : members.names.Nodup) (hmem : (key, value) ∈ members) :
    members.lookup key = some value := by
  induction members with
  | nil => cases hmem
  | cons member rest ih =>
      rw [names_cons, List.nodup_cons] at hnodup
      cases hmem with
      | head => simp
      | tail _ hrest =>
          have hne : key ≠ member.1 := by
            intro heq
            exact hnodup.1 (heq ▸ mem_names_iff.mpr ⟨value, hrest⟩)
          rw [show member = (member.1, member.2) from rfl,
            lookup_cons_of_ne hne]
          exact ih hnodup.2 hrest

theorem lookup_eq_head_named (key : κ) (members : Members κ α) :
    members.lookup key = (named key members).head?.map Prod.snd := by
  induction members with
  | nil => rfl
  | cons member rest ih =>
      obtain ⟨name, value⟩ := member
      by_cases hname : key = name
      · subst hname
        simp
      · rw [lookup_cons_of_ne hname, named_cons_of_ne (Ne.symm hname), ih]

theorem lookup_append_of_not_mem {key : κ} {left : Members κ α}
    (hmem : key ∉ names left) (right : Members κ α) :
    (left ++ right).lookup key = right.lookup key := by
  rw [List.lookup_append, lookup_eq_none.mpr hmem]
  rfl

@[simp] theorem named_eraseFirst_self (key : κ) (members : Members κ α) :
    named key (eraseFirst key members) = (named key members).tail := by
  induction members with
  | nil => rfl
  | cons member rest ih =>
      obtain ⟨name, value⟩ := member
      by_cases hname : name = key
      · subst hname
        simp [eraseFirst]
      · simp only [eraseFirst, if_neg hname]
        rw [named_cons_of_ne hname, named_cons_of_ne hname, ih]

theorem named_eraseFirst_of_ne {key other : κ} (hne : other ≠ key)
    (members : Members κ α) :
    named key (eraseFirst other members) = named key members := by
  induction members with
  | nil => rfl
  | cons member rest ih =>
      obtain ⟨name, value⟩ := member
      by_cases hname : name = other
      · subst hname
        simp only [eraseFirst, if_pos]
        rw [named_cons_of_ne hne]
      · simp only [eraseFirst, if_neg hname]
        by_cases hkey : name = key
        · subst hkey
          simp [ih]
        · rw [named_cons_of_ne hkey, named_cons_of_ne hkey, ih]

theorem named_replaceFirst_of_ne {key other : κ} (hne : other ≠ key)
    (replacement : α) (members : Members κ α) :
    named key (replaceFirst other replacement members) = named key members := by
  induction members with
  | nil => rfl
  | cons member rest ih =>
      obtain ⟨name, value⟩ := member
      by_cases hname : name = other
      · subst hname
        simp only [replaceFirst, if_pos]
        rw [named_cons_of_ne hne, named_cons_of_ne hne]
      · simp only [replaceFirst, if_neg hname]
        by_cases hkey : name = key
        · subst hkey
          simp [ih]
        · rw [named_cons_of_ne hkey, named_cons_of_ne hkey, ih]

theorem named_replaceFirst_self (key : κ) (replacement : α)
    (members : Members κ α) :
    named key (replaceFirst key replacement members) =
      replaceFirst key replacement (named key members) := by
  induction members with
  | nil => rfl
  | cons member rest ih =>
      obtain ⟨name, value⟩ := member
      by_cases hname : name = key
      · subst hname
        simp [replaceFirst]
      · simp only [replaceFirst, if_neg hname]
        rw [named_cons_of_ne hname, named_cons_of_ne hname, ih]

@[simp] theorem names_replaceFirst (key : κ) (replacement : α)
    (members : Members κ α) :
    names (replaceFirst key replacement members) = names members := by
  induction members with
  | nil => rfl
  | cons member rest ih =>
      obtain ⟨name, value⟩ := member
      by_cases hname : name = key
      · simp [replaceFirst, hname]
      · simp [replaceFirst, hname, ih]

theorem mem_replaceFirst {key : κ} {replacement : α} {members : Members κ α}
    {member : κ × α} (hmem : member ∈ replaceFirst key replacement members) :
    member ∈ members ∨ member = (key, replacement) := by
  induction members with
  | nil => cases hmem
  | cons first rest ih =>
      obtain ⟨name, value⟩ := first
      rw [replaceFirst] at hmem
      split at hmem
      · rename_i hname
        cases hmem with
        | head => exact .inr (by rw [hname])
        | tail _ hlater => exact .inl (.tail _ hlater)
      · cases hmem with
        | head => exact .inl List.mem_cons_self
        | tail _ hlater =>
            cases ih hlater with
            | inl hbefore => exact .inl (.tail _ hbefore)
            | inr hnew => exact .inr hnew

theorem lookup_replaceFirst_self {key : κ} (replacement : α)
    {members : Members κ α} (hmem : key ∈ names members) :
    (replaceFirst key replacement members).lookup key = some replacement := by
  induction members with
  | nil => simp at hmem
  | cons member rest ih =>
      obtain ⟨name, value⟩ := member
      by_cases hname : name = key
      · subst hname
        simp [replaceFirst]
      · have hrest : key ∈ names rest := by
          simpa [Ne.symm hname] using hmem
        simp only [replaceFirst, if_neg hname]
        rw [lookup_cons_of_ne (Ne.symm hname), ih hrest]

theorem lookup_replaceFirst_of_ne {key other : κ} (hne : other ≠ key)
    (replacement : α) (members : Members κ α) :
    (replaceFirst other replacement members).lookup key = members.lookup key := by
  rw [lookup_eq_head_named, lookup_eq_head_named, named_replaceFirst_of_ne hne]

theorem lookup_eraseFirst_of_ne {key other : κ} (hne : other ≠ key)
    (members : Members κ α) :
    (eraseFirst other members).lookup key = members.lookup key := by
  rw [lookup_eq_head_named, lookup_eq_head_named, named_eraseFirst_of_ne hne]

theorem eraseFirst_sublist (key : κ) (members : Members κ α) :
    (eraseFirst key members).Sublist members := by
  induction members with
  | nil => simp [eraseFirst]
  | cons member rest ih =>
      obtain ⟨name, value⟩ := member
      by_cases hname : name = key
      · simp [eraseFirst, hname]
      · simp only [eraseFirst, if_neg hname]
        exact ih.cons_cons (name, value)

theorem not_mem_names_eraseFirst {key : κ} {members : Members κ α}
    (hnodup : (names members).Nodup) : key ∉ names (eraseFirst key members) := by
  induction members with
  | nil => simp [eraseFirst]
  | cons member rest ih =>
      obtain ⟨name, value⟩ := member
      rw [names_cons, List.nodup_cons] at hnodup
      by_cases hname : name = key
      · subst hname
        simpa [eraseFirst] using hnodup.1
      · simp [eraseFirst, hname, Ne.symm hname, ih hnodup.2]

theorem nodup_names_eraseFirst {members : Members κ α} (key : κ)
    (hnodup : (names members).Nodup) : (names (eraseFirst key members)).Nodup :=
  hnodup.sublist ((eraseFirst_sublist key members).map Prod.fst)

omit [DecidableEq κ] in
theorem nodup_names_append_singleton {members : Members κ α} {key : κ}
    (hnodup : (names members).Nodup) (hfresh : key ∉ names members)
    (value : α) : (names (members ++ [(key, value)])).Nodup := by
  rw [names_append, List.nodup_append]
  refine ⟨hnodup, by simp, ?_⟩
  intro name hname other hother heq
  have hkey : other = key := by simpa using hother
  exact hfresh (hkey ▸ heq ▸ hname)

theorem lookup_split {key : κ} {value : α} {members : Members κ α}
    (hfound : members.lookup key = some value) :
    ∃ before after, members = before ++ (key, value) :: after ∧
      key ∉ names before := by
  induction members with
  | nil => cases hfound
  | cons member rest ih =>
      obtain ⟨name, first⟩ := member
      by_cases hname : key = name
      · subst hname
        rw [List.lookup_cons_self] at hfound
        cases hfound
        exact ⟨[], rest, rfl, List.not_mem_nil⟩
      · rw [lookup_cons_of_ne hname] at hfound
        obtain ⟨before, after, rfl, hbefore⟩ := ih hfound
        refine ⟨(name, first) :: before, after, rfl, ?_⟩
        simp [hname, hbefore]

theorem replaceFirst_split {key : κ} {before : Members κ α}
    (hbefore : key ∉ names before) (value replacement : α)
    (after : Members κ α) :
    replaceFirst key replacement (before ++ (key, value) :: after) =
      before ++ (key, replacement) :: after := by
  induction before with
  | nil => simp [replaceFirst]
  | cons member rest ih =>
      obtain ⟨name, first⟩ := member
      rw [names_cons, List.mem_cons, not_or] at hbefore
      rw [List.cons_append, replaceFirst, if_neg (Ne.symm hbefore.1),
        ih hbefore.2]
      rfl

theorem eraseFirst_append {key : κ} {before : Members κ α}
    (hbefore : key ∉ names before) (after : Members κ α) :
    eraseFirst key (before ++ after) = before ++ eraseFirst key after := by
  induction before with
  | nil => rfl
  | cons member rest ih =>
      obtain ⟨name, first⟩ := member
      rw [names_cons, List.mem_cons, not_or] at hbefore
      rw [List.cons_append, eraseFirst, if_neg (Ne.symm hbefore.1),
        ih hbefore.2]
      rfl

theorem eraseFirst_split {key : κ} {before : Members κ α}
    (hbefore : key ∉ names before) (value : α) (after : Members κ α) :
    eraseFirst key (before ++ (key, value) :: after) = before ++ after := by
  rw [eraseFirst_append hbefore, eraseFirst, if_pos rfl]

theorem lookup_append_singleton_of_ne {key name : κ} (hne : key ≠ name)
    (members : Members κ α) (value : α) :
    (members ++ [(name, value)]).lookup key = members.lookup key := by
  rw [List.lookup_append, lookup_cons_of_ne hne]
  simp

/-- The first member called `key` is updated; where there is none, one is
appended. -/
def upsert (key : κ) (update : Option α → α) : Members κ α → Members κ α
  | [] => [(key, update none)]
  | (name, value) :: rest =>
      if name = key then (name, update (some value)) :: rest
      else (name, value) :: upsert key update rest

theorem upsert_eq (key : κ) (update : Option α → α) (members : Members κ α) :
    upsert key update members =
      match members.lookup key with
      | some old => replaceFirst key (update (some old)) members
      | none => members ++ [(key, update none)] := by
  induction members with
  | nil => rfl
  | cons member rest ih =>
      obtain ⟨name, value⟩ := member
      by_cases hname : name = key
      · subst hname
        simp [upsert, replaceFirst]
      · rw [upsert, if_neg hname, lookup_cons_of_ne (Ne.symm hname), ih]
        cases rest.lookup key with
        | none => rfl
        | some old => simp [replaceFirst, hname]

theorem lookup_upsert_self (key : κ) (update : Option α → α) (members : Members κ α) :
    (upsert key update members).lookup key = some (update (members.lookup key)) := by
  rw [upsert_eq]
  cases hold : members.lookup key with
  | some old =>
      exact lookup_replaceFirst_self _ (lookup_isSome.mp (by rw [hold]; rfl))
  | none =>
      simp only
      rw [lookup_append_of_not_mem (lookup_eq_none.mp hold), List.lookup_cons_self]

theorem lookup_upsert_of_ne {key other : κ} (hne : key ≠ other)
    (update : Option α → α) (members : Members κ α) :
    (upsert other update members).lookup key = members.lookup key := by
  rw [upsert_eq]
  cases members.lookup other with
  | some old => exact lookup_replaceFirst_of_ne hne.symm _ members
  | none => exact lookup_append_singleton_of_ne hne members _

theorem upsert_upsert_self (key : κ) (first second : Option α → α)
    (members : Members κ α) :
    upsert key second (upsert key first members) =
      upsert key (fun old => second (some (first old))) members := by
  induction members with
  | nil => simp [upsert]
  | cons member rest ih =>
      obtain ⟨name, value⟩ := member
      by_cases hname : name = key
      · simp [upsert, hname]
      · simp only [upsert, if_neg hname, ih]

theorem lookup_emplace (members : Members κ α) (key : κ) (value : α) (other : κ) :
    (emplace members key value).lookup other =
      (members.lookup other).or (if key = other then some value else none) := by
  unfold emplace
  cases hfound : members.lookup key with
  | some old =>
      rw [Option.isSome_some, if_pos rfl]
      by_cases heq : key = other
      · rw [← heq, hfound, Option.some_or]
      · rw [if_neg heq, Option.or_none]
  | none =>
      rw [Option.isSome_none, if_neg Bool.false_ne_true, List.lookup_append]
      by_cases heq : key = other
      · rw [← heq, if_pos rfl, List.lookup_cons_self]
      · rw [if_neg heq, lookup_cons_of_ne (Ne.symm heq)]
        rfl

/-- Every entry is emplaced, in order. -/
def emplaceAll (members entries : Members κ α) : Members κ α :=
  entries.foldl (fun members entry => members.emplace entry.1 entry.2) members

theorem lookup_emplaceAll (members entries : Members κ α) (key : κ) :
    (emplaceAll members entries).lookup key =
      (members.lookup key).or (entries.lookup key) := by
  unfold emplaceAll
  induction entries generalizing members with
  | nil => exact Option.or_none.symm
  | cons entry rest ih =>
      obtain ⟨name, value⟩ := entry
      rw [List.foldl_cons, ih, lookup_emplace, Option.or_assoc]
      by_cases hname : name = key
      · subst hname
        rw [if_pos rfl, List.lookup_cons_self, Option.some_or]
      · rw [if_neg hname, lookup_cons_of_ne (Ne.symm hname), Option.none_or]

theorem nodup_names_emplace {members : Members κ α} (hnodup : members.names.Nodup)
    (key : κ) (value : α) : (members.emplace key value).names.Nodup := by
  unfold emplace
  split
  · exact hnodup
  · rename_i hnone
    apply nodup_names_append_singleton hnodup
    intro hmem
    exact hnone (lookup_isSome.mpr hmem)

theorem nodup_names_emplaceAll {members : Members κ α} (hnodup : members.names.Nodup)
    (entries : Members κ α) : (members.emplaceAll entries).names.Nodup := by
  unfold emplaceAll
  induction entries generalizing members with
  | nil => exact hnodup
  | cons entry rest ih => exact ih (nodup_names_emplace hnodup entry.1 entry.2)

omit [DecidableEq κ] in
@[simp] theorem names_map {β : Type w} (image : α → β) (members : Members κ α) :
    names (members.map fun entry => (entry.1, image entry.2)) = names members := by
  simp [names]

theorem lookup_map {β : Type w} (image : α → β) (members : Members κ α) (key : κ) :
    List.lookup key (members.map fun entry => (entry.1, image entry.2)) =
      (members.lookup key).map image := by
  induction members with
  | nil => rfl
  | cons member rest ih =>
      obtain ⟨name, value⟩ := member
      by_cases hname : key = name
      · subst hname
        simp
      · rw [List.map_cons, lookup_cons_of_ne hname, lookup_cons_of_ne hname, ih]

theorem lookup_filter (keeps : κ → Bool) (members : Members κ α) (key : κ) :
    List.lookup key (members.filter fun member => keeps member.1) =
      if keeps key then members.lookup key else none := by
  induction members with
  | nil => simp
  | cons member rest ih =>
      obtain ⟨name, value⟩ := member
      rw [List.filter_cons]
      by_cases hname : key = name
      · subst hname
        cases hkeeps : keeps key <;> simp [ih, hkeeps]
      · rw [lookup_cons_of_ne hname, ← ih]
        cases hkeeps : keeps name <;> simp [lookup_cons_of_ne hname]

theorem lookup_perm {left right : Members κ α} (hperm : left.Perm right)
    (hnodup : right.names.Nodup) (key : κ) : left.lookup key = right.lookup key := by
  have hleft : left.names.Nodup := (hperm.map Prod.fst).nodup_iff.mpr hnodup
  cases hfound : right.lookup key with
  | some value => exact lookup_of_mem hleft (hperm.mem_iff.mpr (mem_of_lookup hfound))
  | none =>
      rw [lookup_eq_none] at hfound ⊢
      intro hmem
      exact hfound ((hperm.map Prod.fst).mem_iff.mp hmem)

end Members

end Uskit.Data
