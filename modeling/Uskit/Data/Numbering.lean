import Mathlib.Data.List.Induction
import Mathlib.Data.List.Perm.Subperm
import Uskit.Data.Members

namespace Uskit.Data

/-! Names numbered by a counter that goes up with every name, also with one that
has its number already. -/

namespace Members

variable {κ : Type u}

/-- After the first name that comes again, no new name comes. -/
def RepeatsLast (names : List κ) : Prop :=
  ∃ first rest, names = first ++ rest ∧ first.Nodup ∧ ∀ name ∈ rest, name ∈ first

theorem RepeatsLast.of_nodup {list : List κ} (hnodup : list.Nodup) :
    RepeatsLast list :=
  ⟨list, [], (List.append_nil list).symm, hnodup, by simp⟩

theorem repeatsLast_concat_of_mem {list : List κ} {last : κ}
    (hlast : last ∈ list) : RepeatsLast (list ++ [last]) ↔ RepeatsLast list := by
  constructor
  · intro hrepeats
    obtain ⟨first, rest, hsplit, hnodup, hrest⟩ := hrepeats
    cases rest using List.reverseRecOn with
    | nil =>
        rw [List.append_nil] at hsplit
        rw [← hsplit, List.nodup_append] at hnodup
        exact absurd rfl (hnodup.2.2 last hlast last List.mem_cons_self)
    | append_singleton rest other =>
        rw [← List.append_assoc] at hsplit
        exact ⟨first, rest, (List.append_inj' hsplit rfl).1, hnodup,
          fun name hname => hrest name (List.mem_append_left _ hname)⟩
  · intro hrepeats
    obtain ⟨first, rest, rfl, hnodup, hrest⟩ := hrepeats
    refine ⟨first, rest ++ [last], List.append_assoc _ _ _, hnodup, ?_⟩
    intro name hname
    cases List.mem_append.mp hname with
    | inl hbefore => exact hrest name hbefore
    | inr hnew =>
        rw [List.mem_singleton.mp hnew]
        cases List.mem_append.mp hlast with
        | inl hfirst => exact hfirst
        | inr hlater => exact hrest last hlater

theorem repeatsLast_concat_of_not_mem {list : List κ} {last : κ}
    (hlast : last ∉ list) : RepeatsLast (list ++ [last]) ↔ list.Nodup := by
  constructor
  · intro hrepeats
    obtain ⟨first, rest, hsplit, hnodup, hrest⟩ := hrepeats
    cases rest using List.reverseRecOn with
    | nil =>
        rw [List.append_nil] at hsplit
        rw [← hsplit, List.nodup_append] at hnodup
        exact hnodup.1
    | append_singleton rest other =>
        rw [← List.append_assoc] at hsplit
        obtain ⟨hlist, hother⟩ := List.append_inj' hsplit rfl
        cases hother
        have hfirst := hrest last (List.mem_append_right rest List.mem_cons_self)
        exact absurd (hlist ▸ List.mem_append_left rest hfirst) hlast
  · intro hnodup
    apply RepeatsLast.of_nodup
    rw [List.nodup_append]
    refine ⟨hnodup, by simp, ?_⟩
    intro name hname other hother heq
    rw [List.mem_singleton.mp hother] at heq
    exact hlast (heq ▸ hname)

variable [DecidableEq κ]

def numberFrom : Members κ Nat → (next : Nat) → List κ → Members κ Nat
  | numbers, _, [] => numbers
  | numbers, next, name :: rest =>
      numberFrom (numbers.emplace name next) (next + 1) rest

def number (names : List κ) : Members κ Nat :=
  numberFrom [] 0 names

theorem numberFrom_append (numbers : Members κ Nat) (next : Nat)
    (left right : List κ) :
    numberFrom numbers next (left ++ right) =
      numberFrom (numberFrom numbers next left) (next + left.length) right := by
  induction left generalizing numbers next with
  | nil => rfl
  | cons name rest ih =>
      rw [List.cons_append, numberFrom, numberFrom, ih, List.length_cons,
        Nat.add_assoc, Nat.add_comm 1]

theorem number_concat (names : List κ) (name : κ) :
    number (names ++ [name]) = (number names).emplace name names.length := by
  rw [number, numberFrom_append, Nat.zero_add]
  rfl

theorem emplace_of_mem {members : Members κ α} {key : κ}
    (hmem : key ∈ names members) (value : α) :
    members.emplace key value = members := by
  rw [emplace, if_pos (lookup_isSome.mpr hmem)]

theorem emplace_of_not_mem {members : Members κ α} {key : κ}
    (hmem : key ∉ names members) (value : α) :
    members.emplace key value = members ++ [(key, value)] := by
  have hnone := lookup_eq_none.mpr hmem
  rw [emplace, if_neg (by rw [hnone]; exact Bool.false_ne_true)]

/-- Tables with the same names have them also after an `emplace` of one. -/
theorem names_emplace_congr {left : Members κ α} {right : Members κ β}
    (hnames : names left = names right) (key : κ) (value : α) (other : β) :
    names (left.emplace key value) = names (right.emplace key other) := by
  by_cases hmem : key ∈ names left
  · rw [emplace_of_mem hmem, emplace_of_mem (hnames ▸ hmem), hnames]
  · rw [emplace_of_not_mem hmem, emplace_of_not_mem (hnames ▸ hmem), names_append,
      names_append, hnames]
    rfl

theorem number_concat_of_not_mem {list : List κ} {last : κ}
    (hlast : last ∉ names (number list)) :
    number (list ++ [last]) = number list ++ [(last, list.length)] := by
  rw [number_concat, emplace_of_not_mem hlast]

theorem mem_names_number {list : List κ} (name : κ) :
    name ∈ names (number list) ↔ name ∈ list := by
  induction list using List.reverseRecOn generalizing name with
  | nil => simp [number, numberFrom]
  | append_singleton list last ih =>
      rw [number_concat, List.mem_append, List.mem_singleton]
      by_cases hlast : last ∈ names (number list)
      · rw [emplace_of_mem hlast, ih]
        refine ⟨.inl, ?_⟩
        intro hmem
        rcases hmem with hbefore | rfl
        · exact hbefore
        · exact (ih name).mp hlast
      · rw [emplace_of_not_mem hlast, names_append, List.mem_append, ih]
        simp

theorem names_number_sublist (list : List κ) :
    (names (number list)).Sublist list := by
  induction list using List.reverseRecOn with
  | nil => exact List.Sublist.refl []
  | append_singleton list last ih =>
      rw [number_concat]
      by_cases hlast : last ∈ names (number list)
      · rw [emplace_of_mem hlast]
        exact ih.trans (List.sublist_append_left list [last])
      · rw [emplace_of_not_mem hlast, names_append]
        exact ih.append (List.Sublist.refl [last])

theorem names_number (list : List κ) : names (number list) = list.eraseDups := by
  induction list using List.reverseRecOn with
  | nil => rfl
  | append_singleton list last ih =>
      rw [number_concat, List.eraseDups_append, ← ih]
      by_cases hlast : last ∈ names (number list)
      · have hmem := (mem_names_number last).mp hlast
        rw [emplace_of_mem hlast]
        simp [List.removeAll, hmem]
      · have hmem : last ∉ list := fun hmem =>
          hlast ((mem_names_number last).mpr hmem)
        rw [emplace_of_not_mem hlast, names_append]
        simp [List.removeAll, hmem, List.eraseDups_cons]

theorem nodup_names_number (list : List κ) : (names (number list)).Nodup := by
  induction list using List.reverseRecOn with
  | nil => exact List.nodup_nil
  | append_singleton list last ih =>
      rw [number_concat]
      by_cases hlast : last ∈ names (number list)
      · rw [emplace_of_mem hlast]
        exact ih
      · rw [emplace_of_not_mem hlast]
        exact nodup_names_append_singleton ih hlast _

theorem length_number_le (list : List κ) : (number list).length ≤ list.length := by
  have hle := (names_number_sublist list).length_le
  rwa [names, List.length_map] at hle

theorem length_number_eq_iff {list : List κ} :
    (number list).length = list.length ↔ list.Nodup := by
  have hnames : (names (number list)).length = (number list).length :=
    List.length_map _
  constructor
  · intro hlength
    have hsame := (names_number_sublist list).eq_of_length
      (hnames.trans hlength)
    exact hsame ▸ nodup_names_number list
  · intro hnodup
    apply Nat.le_antisymm (length_number_le list)
    rw [← hnames]
    exact (hnodup.subperm fun name => (mem_names_number name).mpr).length_le

/-- The number of a name is its first place. -/
theorem lookup_number (list : List κ) (name : κ) :
    (number list).lookup name = list.findIdx? (· == name) := by
  induction list using List.reverseRecOn with
  | nil => rfl
  | append_singleton list last ih =>
      rw [number_concat, List.findIdx?_append, ← ih]
      by_cases hlast : last ∈ names (number list)
      · rw [emplace_of_mem hlast]
        by_cases hname : last = name
        · subst hname
          have hsome := lookup_isSome.mpr hlast
          rw [Option.or_of_isSome hsome]
        · simp [List.findIdx?_cons, hname]
      · rw [emplace_of_not_mem hlast, List.lookup_append]
        congr 1
        by_cases hname : last = name
        · simp [List.findIdx?_cons, hname]
        · rw [lookup_cons_of_ne (Ne.symm hname)]
          simp [List.findIdx?_cons, hname]

theorem lookup_number_lt {list : List κ} {name : κ} {index : Nat}
    (hindex : (number list).lookup name = some index) : index < list.length := by
  rw [lookup_number] at hindex
  exact (List.findIdx?_eq_some_iff_findIdx_eq.mp hindex).1

theorem lookup_number_inj {list : List κ} {first second : κ} {index : Nat}
    (hfirst : (number list).lookup first = some index)
    (hsecond : (number list).lookup second = some index) : first = second := by
  rw [lookup_number, List.findIdx?_eq_some_iff_getElem] at hfirst hsecond
  obtain ⟨_, hleft, -⟩ := hfirst
  obtain ⟨_, hright, -⟩ := hsecond
  exact (beq_iff_eq.mp hleft).symm.trans (beq_iff_eq.mp hright)

/-- The numbers stay below their count exactly when no new name comes after a
repeated one. -/
theorem number_lt_length_iff (list : List κ) :
    (∀ name index, (number list).lookup name = some index →
      index < (number list).length) ↔ RepeatsLast list := by
  induction list using List.reverseRecOn with
  | nil =>
      refine ⟨fun _ => .of_nodup List.nodup_nil, fun _ name index hindex => ?_⟩
      simp [number, numberFrom] at hindex
  | append_singleton list last ih =>
      rw [number_concat]
      by_cases hlast : last ∈ names (number list)
      · rw [emplace_of_mem hlast, ih, repeatsLast_concat_of_mem]
        exact (mem_names_number last).mp hlast
      · have hnew : last ∉ list := fun hmem =>
          hlast ((mem_names_number last).mpr hmem)
        rw [emplace_of_not_mem hlast, repeatsLast_concat_of_not_mem hnew,
          ← length_number_eq_iff]
        have hle := length_number_le list
        constructor
        · intro hbelow
          have hlt := hbelow last list.length (by
            rw [lookup_append_of_not_mem hlast, List.lookup_cons_self])
          rw [List.length_append, List.length_singleton] at hlt
          omega
        · intro hlength name index hindex
          rw [List.length_append, List.length_singleton, hlength]
          rw [← number_concat_of_not_mem hlast] at hindex
          have hlt := lookup_number_lt hindex
          rwa [List.length_append, List.length_singleton] at hlt

end Members

end Uskit.Data
