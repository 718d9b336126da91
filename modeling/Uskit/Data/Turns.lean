import Uskit.Data.Members

namespace Uskit.Data

/-! Members that are set by taking the first one of a name away and putting the
new one last. -/

/-- The queue after a turn for each of the values: its head goes, the value comes
last. -/
def turned : List α → List α → List α
  | queue, [] => queue
  | queue, value :: rest => turned (queue.tail ++ [value]) rest

theorem turned_eq_drop {queue : List α} (hqueue : queue ≠ []) (values : List α) :
    turned queue values = (queue ++ values).drop values.length := by
  induction values generalizing queue with
  | nil => simp [turned]
  | cons value rest ih =>
      cases queue with
      | nil => exact absurd rfl hqueue
      | cons head queue =>
          rw [turned, List.tail_cons, ih (by simp)]
          simp

/-- With more in the queue than turns, what stands first was there before. -/
theorem head?_turned_of_lt {queue values : List α}
    (hlt : values.length < queue.length) :
    (turned queue values).head? = queue[values.length]? := by
  have hqueue : queue ≠ [] := by
    rintro rfl
    exact Nat.not_lt_zero _ hlt
  rw [turned_eq_drop hqueue, List.head?_drop, List.getElem?_append_left hlt]

/-- Otherwise it is one of the values. -/
theorem head?_turned_of_le {queue values : List α}
    (hle : queue.length ≤ values.length) (hvalues : values ≠ []) :
    (turned queue values).head? = values[values.length - max 1 queue.length]? := by
  cases queue with
  | cons head queue =>
      rw [turned_eq_drop (by simp), List.head?_drop, List.getElem?_append_right hle,
        Nat.max_eq_right (Nat.succ_le_of_lt (by simp))]
  | nil =>
      cases values with
      | nil => exact absurd rfl hvalues
      | cons value rest =>
          rw [turned, List.tail_nil, List.nil_append, turned_eq_drop (by simp)]
          simp

namespace Members

variable {κ : Type u} [DecidableEq κ]

/-- The values under a name, in order. -/
def under (key : κ) (members : Members κ α) : List α :=
  (named key members).map Prod.snd

theorem lookup_eq_head_under (key : κ) (members : Members κ α) :
    members.lookup key = (under key members).head? := by
  rw [lookup_eq_head_named, under, List.head?_map]

theorem under_eq_nil {key : κ} {members : Members κ α}
    (hnone : members.lookup key = none) : under key members = [] := by
  rw [← List.head?_eq_none_iff, ← lookup_eq_head_under, hnone]

theorem under_cons_self (key : κ) (value : α) (rest : Members κ α) :
    under key ((key, value) :: rest) = value :: under key rest := by
  simp [under]

theorem under_cons_of_ne {key name : κ} (hne : name ≠ key) (value : α)
    (rest : Members κ α) : under key ((name, value) :: rest) = under key rest := by
  rw [under, under, named_cons_of_ne hne]

theorem mem_of_mem_under {key : κ} {value : α} {members : Members κ α}
    (hvalue : value ∈ under key members) : (key, value) ∈ members := by
  obtain ⟨⟨name, found⟩, hnamed, rfl⟩ := List.mem_map.mp hvalue
  rw [named, List.mem_filter, beq_iff_eq] at hnamed
  obtain ⟨hmem, rfl⟩ := hnamed
  exact hmem

theorem length_under (key : κ) (members : Members κ α) :
    (under key members).length = ((names members).filter (· = key)).length := by
  rw [under, List.length_map, named, names, List.filter_map, List.length_map]
  rfl

def setLast (key : κ) (value : α) (members : Members κ α) : Members κ α :=
  eraseFirst key members ++ [(key, value)]

def setAllLast : Members κ α → Members κ α → Members κ α
  | [], members => members
  | (key, value) :: rest, members => setAllLast rest (setLast key value members)

theorem under_setLast_self (key : κ) (value : α) (members : Members κ α) :
    under key (setLast key value members) = (under key members).tail ++ [value] := by
  simp [under, setLast]

theorem under_setLast_of_ne {key other : κ} (hne : other ≠ key) (value : α)
    (members : Members κ α) :
    under key (setLast other value members) = under key members := by
  rw [under, setLast, named_append, named_eraseFirst_of_ne hne,
    named_cons_of_ne hne, named_nil, List.append_nil, under]

theorem under_setAllLast (key : κ) (pairs members : Members κ α) :
    under key (setAllLast pairs members) =
      turned (under key members) (under key pairs) := by
  induction pairs generalizing members with
  | nil => rfl
  | cons pair rest ih =>
      obtain ⟨name, value⟩ := pair
      rw [setAllLast, ih]
      by_cases hname : name = key
      · subst hname
        rw [under_setLast_self, under_cons_self]
        rfl
      · rw [under_setLast_of_ne hname, under_cons_of_ne hname]

/-- What a name has after all members were set. -/
theorem lookup_setAllLast (key : κ) (pairs members : Members κ α) :
    (setAllLast pairs members).lookup key =
      if (under key pairs).length < (under key members).length then
        (under key members)[(under key pairs).length]?
      else
        (under key pairs)[(under key pairs).length -
          max 1 (under key members).length]? := by
  rw [lookup_eq_head_under, under_setAllLast]
  split
  · rename_i hlt
    exact head?_turned_of_lt hlt
  · rename_i hle
    have hle := Nat.not_lt.mp hle
    by_cases hvalues : under key pairs = []
    · rw [hvalues] at hle
      rw [hvalues, List.length_eq_zero_iff.mp (Nat.le_zero.mp hle)]
      rfl
    · exact head?_turned_of_le hle hvalues

end Members

end Uskit.Data
