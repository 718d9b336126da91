import Mathlib.Data.String.Basic
import Uskit.Json.MergeContract
import Uskit.Json.RoundTrip

namespace Uskit

open Uskit.Data

/-! `GenericValue::operator==` against a canonical form, in which the members of every
object are sorted by name. -/

namespace Json

def namesLe (first second : String × Json) : Bool :=
  decide (first.1 ≤ second.1)

def sortMembers (members : JsonMembers) : JsonMembers :=
  members.mergeSort namesLe

/-- Integers are the same if their 64 stored bits are. -/
def canonicalNumber : Number → Number
  | .int value => .int (value % 2 ^ 64)
  | .double value => .double value

mutual
def canonical : Json → Json
  | .null => .null
  | .bool value => .bool value
  | .number value => .number (canonicalNumber value)
  | .string text => .string text
  | .array elements => .array (canonicalElements elements)
  | .object members => .object (sortMembers (canonicalMembers members))

def canonicalElements : List Json → List Json
  | [] => []
  | value :: rest => canonical value :: canonicalElements rest

def canonicalMembers : List (String × Json) → List (String × Json)
  | [] => []
  | (name, value) :: rest => (name, canonical value) :: canonicalMembers rest
end

/-- No number is a double. -/
def DoubleFree (value : Json) : Prop :=
  ∀ number ∈ numbers value, ∃ integer, number = .int integer

section Members

theorem canonicalMembers_eq (members : JsonMembers) :
    canonicalMembers members = members.map fun member => (member.1, member.2.canonical) := by
  induction members with
  | nil => rfl
  | cons member rest ih => rw [canonicalMembers, ih, List.map_cons]

theorem sorted_sortMembers (members : JsonMembers) :
    (sortMembers members).Pairwise fun first second => namesLe first second = true := by
  apply List.pairwise_mergeSort
  · intro first second third hfirst hsecond
    rw [namesLe, decide_eq_true_eq] at hfirst hsecond ⊢
    exact hfirst.trans hsecond
  · intro first second
    rw [Bool.or_eq_true, namesLe, namesLe, decide_eq_true_eq, decide_eq_true_eq]
    exact le_total first.1 second.1

/-- Members of different names are sorted in one way. -/
theorem sortMembers_eq_iff {first second : JsonMembers}
    (hnames : (Members.names first).Nodup) :
    sortMembers first = sortMembers second ↔ first.Perm second := by
  constructor
  · intro hsorted
    have hfirst := List.mergeSort_perm first namesLe
    have hsecond := List.mergeSort_perm second namesLe
    rw [← sortMembers, hsorted] at hfirst
    exact hfirst.symm.trans hsecond
  · intro hperm
    have hfirst := List.mergeSort_perm first namesLe
    have hsecond := List.mergeSort_perm second namesLe
    refine List.Perm.eq_of_pairwise ?_ (sorted_sortMembers first) (sorted_sortMembers second)
      (hfirst.trans (hperm.trans hsecond.symm))
    intro member other hmember hother hle hge
    rw [namesLe, decide_eq_true_eq] at hle hge
    have hsame := le_antisymm hle hge
    have hmem := hfirst.mem_iff.mp hmember
    have hmem' := hperm.mem_iff.mpr (hsecond.mem_iff.mp hother)
    exact Prod.ext hsame
      (Option.some.inj ((Members.lookup_of_mem hnames hmem).symm.trans
        (by rw [hsame]; exact Members.lookup_of_mem hnames hmem')))

end Members

section Equality

theorem valueEq_number {first second : Number} (hfirst : ∃ integer, first = .int integer)
    (hsecond : ∃ integer, second = .int integer) :
    first.valueEq second = true ↔ canonicalNumber first = canonicalNumber second := by
  obtain ⟨first, rfl⟩ := hfirst
  obtain ⟨second, rfl⟩ := hsecond
  simp only [Number.valueEq, canonicalNumber, beq_iff_eq, Number.int.injEq]
  omega

/-- Members of different names are the same up to their order if as many lookups agree. -/
theorem perm_iff_lookup {first second : JsonMembers} (hfirst : (Members.names first).Nodup)
    (hsecond : (Members.names second).Nodup) :
    first.Perm second ↔ first.length = second.length ∧
      ∀ member ∈ first, second.lookup member.1 = some member.2 := by
  constructor
  · intro hperm
    exact ⟨hperm.length_eq, fun member hmember =>
      Members.lookup_of_mem hsecond (hperm.mem_iff.mp hmember)⟩
  · rintro ⟨hlength, hlookup⟩
    have hsubset : first ⊆ second := fun member hmember =>
      Members.mem_of_lookup (hlookup member hmember)
    exact (List.subperm_of_subset (hfirst.of_map _) hsubset).perm_of_length_le hlength.ge

theorem membersEq_iff_forall {members other : JsonMembers} :
    membersEq members other = true ↔ ∀ member ∈ members,
      ∃ found, other.lookup member.1 = some found ∧ member.2.valueEq found = true := by
  induction members with
  | nil => exact iff_of_true rfl nofun
  | cons member rest ih =>
      obtain ⟨name, value⟩ := member
      rw [membersEq, Bool.and_eq_true, ih, List.forall_mem_cons]
      cases other.lookup name <;> simp

/-- The canonical members are the same if the lookups agree up to canonical forms. -/
theorem canonicalMembers_iff {members other : JsonMembers}
    (hmembers : (Members.names members).Nodup) (hother : (Members.names other).Nodup) :
    sortMembers (canonicalMembers members) = sortMembers (canonicalMembers other) ↔
      members.length = other.length ∧ ∀ member ∈ members,
        ∃ found, other.lookup member.1 = some found ∧ member.2.canonical = found.canonical := by
  rw [canonicalMembers_eq, canonicalMembers_eq, sortMembers_eq_iff (by simpa using hmembers),
    perm_iff_lookup (by simpa using hmembers) (by simpa using hother), List.length_map,
    List.length_map, List.forall_mem_map]
  refine and_congr_right fun _ => forall₂_congr fun member _ => ?_
  rw [Members.lookup_map, Option.map_eq_some_iff]
  exact exists_congr fun found => and_congr_right fun _ => eq_comm

theorem doubleFree_of_mem {elements : List Json}
    (helements : ∀ number ∈ numbersElements elements, ∃ integer, number = .int integer) :
    ∀ element ∈ elements, element.DoubleFree := by
  induction elements with
  | nil => exact nofun
  | cons element rest ih =>
      rw [numbersElements, List.forall_mem_append] at helements
      exact List.forall_mem_cons.mpr ⟨helements.1, ih helements.2⟩

theorem doubleFree_of_member {members : JsonMembers}
    (hmembers : ∀ number ∈ numbersMembers members, ∃ integer, number = .int integer) :
    ∀ member ∈ members, member.2.DoubleFree := by
  induction members with
  | nil => exact nofun
  | cons member rest ih =>
      rw [numbersMembers, List.forall_mem_append] at hmembers
      exact List.forall_mem_cons.mpr ⟨hmembers.1, ih hmembers.2⟩

/-- What the comparison is a comparison of. -/
structure Comparable (value : Json) : Prop where
  names : value.UniqueNames
  numbers : value.DoubleFree

theorem Comparable.elements {elements : List Json} (harray : (Json.array elements).Comparable) :
    ∀ element ∈ elements, element.Comparable := by
  intro element hmem
  refine ⟨?_, doubleFree_of_mem harray.numbers element hmem⟩
  cases harray.names with
  | scalar _ hnot => exact absurd rfl (hnot elements)
  | array helements => exact helements element hmem

theorem Comparable.members {members : JsonMembers} (hobject : (Json.object members).Comparable) :
    (Members.names members).Nodup ∧ ∀ member ∈ members, member.2.Comparable := by
  obtain ⟨hnames, hvalues⟩ := (uniqueNames_object members).mp hobject.names
  exact ⟨hnames, fun member hmem =>
    ⟨hvalues member hmem, doubleFree_of_member hobject.numbers member hmem⟩⟩

mutual
theorem valueEq_iff : ∀ (first second : Json), first.Comparable → second.Comparable →
    (first.valueEq second = true ↔ first.canonical = second.canonical)
  | .number first, .number second, hfirst, hsecond => by
      rw [valueEq, canonical, canonical, Json.number.injEq]
      exact valueEq_number (hfirst.numbers first (List.mem_singleton_self first))
        (hsecond.numbers second (List.mem_singleton_self second))
  | .array first, .array second, hfirst, hsecond => by
      rw [valueEq, canonical, canonical, Json.array.injEq]
      exact elementsEq_iff first second hfirst.elements hsecond.elements
  | .object first, .object second, hfirst, hsecond => by
      have hmembers := hsecond.members
      rw [valueEq, canonical, canonical, Json.object.injEq, Bool.and_eq_true, beq_iff_eq,
        membersEq_iff_forall, canonicalMembers_iff hfirst.members.1 hmembers.1]
      refine and_congr_right fun _ => forall₂_congr fun member hmember => ?_
      refine exists_congr fun found => and_congr_right fun hfound => ?_
      exact membersEq_iff first hfirst.members.2 member hmember found
        (hmembers.2 _ (Members.mem_of_lookup hfound))
  | .null, .null, _, _ => by simp [valueEq]
  | .bool _, .bool _, _, _ => by simp [valueEq, canonical]
  | .string _, .string _, _, _ => by simp [valueEq, canonical]
  | .null, .bool _, _, _ | .null, .number _, _, _ | .null, .string _, _, _
  | .null, .array _, _, _ | .null, .object _, _, _ | .bool _, .null, _, _
  | .bool _, .number _, _, _ | .bool _, .string _, _, _ | .bool _, .array _, _, _
  | .bool _, .object _, _, _ | .number _, .null, _, _ | .number _, .bool _, _, _
  | .number _, .string _, _, _ | .number _, .array _, _, _ | .number _, .object _, _, _
  | .string _, .null, _, _ | .string _, .bool _, _, _ | .string _, .number _, _, _
  | .string _, .array _, _, _ | .string _, .object _, _, _ | .array _, .null, _, _
  | .array _, .bool _, _, _ | .array _, .number _, _, _ | .array _, .string _, _, _
  | .array _, .object _, _, _ | .object _, .null, _, _ | .object _, .bool _, _, _
  | .object _, .number _, _, _ | .object _, .string _, _, _ | .object _, .array _, _, _ => by
      simp [valueEq, canonical]

theorem elementsEq_iff : ∀ (first second : List Json),
    (∀ element ∈ first, element.Comparable) → (∀ element ∈ second, element.Comparable) →
      (elementsEq first second = true ↔ canonicalElements first = canonicalElements second)
  | [], [], _, _ => by simp [elementsEq]
  | [], _ :: _, _, _ => by simp [elementsEq, canonicalElements]
  | _ :: _, [], _, _ => by simp [elementsEq, canonicalElements]
  | value :: rest, other :: others, hfirst, hsecond => by
      rw [List.forall_mem_cons] at hfirst hsecond
      rw [elementsEq, canonicalElements, canonicalElements, Bool.and_eq_true, List.cons.injEq]
      exact and_congr (valueEq_iff value other hfirst.1 hsecond.1)
        (elementsEq_iff rest others hfirst.2 hsecond.2)

theorem membersEq_iff : ∀ (members : JsonMembers), (∀ member ∈ members, member.2.Comparable) →
    ∀ member ∈ members, ∀ (found : Json), found.Comparable →
      (member.2.valueEq found = true ↔ member.2.canonical = found.canonical)
  | [], _ => nofun
  | (name, value) :: rest, hmembers => by
      rw [List.forall_mem_cons] at hmembers
      rw [List.forall_mem_cons]
      exact ⟨fun found hfound => valueEq_iff value found hmembers.1 hfound,
        membersEq_iff rest hmembers.2⟩
end

/-- Documents without doubles are equal exactly if they differ in nothing but the order of
members, at any depth, and in the sign that is read into the bits of integers. -/
theorem valueEq_iff_canonical {first second : Json} (hfirst : first.Comparable)
    (hsecond : second.Comparable) :
    first.valueEq second = true ↔ first.canonical = second.canonical :=
  valueEq_iff first second hfirst hsecond

theorem valueEq_iff_canonical_listed :
    (Json.array [.object [("id", .number (.int 7)), ("ok", .bool true)]]).valueEq
        (.array [.object [("ok", .bool true), ("id", .number (.int 7))]]) = true ↔
      (Json.array [.object [("id", .number (.int 7)), ("ok", .bool true)]]).canonical =
        (Json.array [.object [("ok", .bool true), ("id", .number (.int 7))]]).canonical := by
  have hscalars : ∀ value ∈ [Json.number (.int 7), .bool true], value.UniqueNames := by
    rintro _ (_ | ⟨_, _ | ⟨_, ⟨⟩⟩⟩) <;> exact .scalar nofun nofun
  refine valueEq_iff_canonical ⟨.array fun element hmem => ?_, ?_⟩
    ⟨.array fun element hmem => ?_, ?_⟩
  · rw [List.mem_singleton] at hmem
    exact hmem ▸ .object (by decide) (by simpa using hscalars)
  · exact List.forall_mem_singleton.mpr ⟨7, rfl⟩
  · rw [List.mem_singleton] at hmem
    exact hmem ▸ .object (by decide) (by simpa [and_comm] using hscalars)
  · exact List.forall_mem_singleton.mpr ⟨7, rfl⟩

/-- With a double between them, two integers are equal to it and not to each other. -/
example : (Number.int (2 ^ 53)).valueEq (.double (.ofInt (2 ^ 53))) = true ∧
    (Number.double (.ofInt (2 ^ 53))).valueEq (.int (2 ^ 53 + 1)) = true ∧
    (Number.int (2 ^ 53)).valueEq (.int (2 ^ 53 + 1)) = false := by decide +kernel

end Equality

end Json

end Uskit
