import Mathlib.Data.List.DropRight

namespace Uskit.Data

/-! Texts that are trimmed at both ends, and the ends of texts that a separator joins. -/

variable {α : Type u}

/-- The elements of the set are removed from both ends. -/
def trimEnds [DecidableEq α] (set text : List α) : List α :=
  (text.dropWhile (set.contains ·)).rdropWhile (set.contains ·)

/-- Neither end of the text is in the set. -/
structure Trimmed (set text : List α) : Prop where
  head : ∀ first ∈ text.head?, first ∉ set
  last : ∀ last ∈ text.getLast?, last ∉ set

/-- Neither end of what is joined is in the separator: the texts at the ends are
trimmed there, and are not empty where a separator stands next to them. -/
structure ClearEnds (separator : List α) (texts : List (List α)) : Prop where
  head : ∀ text ∈ texts.head?, ∀ first ∈ text.head?, first ∉ separator
  last : ∀ text ∈ texts.getLast?, ∀ last ∈ text.getLast?, last ∉ separator
  filled : 2 ≤ texts.length → separator ≠ [] →
    texts.head? ≠ some [] ∧ texts.getLast? ≠ some []

section Trim

variable [DecidableEq α] {set text : List α}

theorem trimEnds_sublist : (trimEnds set text).Sublist text :=
  (List.rdropWhile_prefix _ _).sublist.trans (List.dropWhile_sublist _)

theorem trimEnds_eq_self_iff : trimEnds set text = text ↔ Trimmed set text := by
  constructor
  · intro htrim
    have hfront : text.dropWhile (set.contains ·) = text := by
      apply (List.dropWhile_suffix _).eq_of_length
      apply Nat.le_antisymm (List.dropWhile_suffix _).length_le
      have hback := (List.rdropWhile_prefix (set.contains ·)
        (text.dropWhile (set.contains ·))).length_le
      rwa [← trimEnds, htrim] at hback
    rw [trimEnds, hfront] at htrim
    constructor
    · intro first hfirst
      cases text with
      | nil => cases hfirst
      | cons head tail =>
          obtain rfl := Option.some.inj hfirst
          simpa using List.dropWhile_eq_self_iff.mp hfront (Nat.zero_lt_succ _)
    · intro last hlast
      have hne : text ≠ [] := by
        rintro rfl
        cases hlast
      rw [List.getLast?_eq_some_getLast hne] at hlast
      obtain rfl := Option.some.inj hlast
      simpa using List.rdropWhile_eq_self_iff.mp htrim hne
  · intro htrimmed
    have hfront : text.dropWhile (set.contains ·) = text := by
      rw [List.dropWhile_eq_self_iff]
      intro hpos
      simpa using htrimmed.head _ (List.head?_eq_getElem? ▸ List.getElem?_eq_getElem hpos)
    rw [trimEnds, hfront, List.rdropWhile_eq_self_iff]
    intro hne
    simpa using htrimmed.last _ (List.getLast?_eq_some_getLast hne)

theorem trimEnds_cons {x : α} (hx : x ∈ set) :
    trimEnds set (x :: text) = trimEnds set text := by
  rw [trimEnds, List.dropWhile_cons_of_pos (List.contains_iff_mem.mpr hx), trimEnds]

/-- A tail of the set's elements is trimmed first. -/
theorem trimEnds_append {tail : List α} (htail : ∀ x ∈ tail, x ∈ set) :
    trimEnds set (text ++ tail) = trimEnds set text := by
  have hdrops : ∀ x ∈ tail, set.contains x = true := fun x hx => by
    simpa using htail x hx
  rw [trimEnds, trimEnds, List.dropWhile_append]
  split
  · rename_i hempty
    rw [List.isEmpty_iff.mp hempty, List.dropWhile_eq_nil_iff.mpr hdrops]
  · rw [List.rdropWhile, List.rdropWhile, List.reverse_append,
      List.dropWhile_append_of_pos fun x hx => hdrops x (List.mem_reverse.mp hx)]

theorem dropWhile_eq_nil_iff_subset :
    text.dropWhile (set.contains ·) = [] ↔ ∀ x ∈ text, x ∈ set := by
  rw [List.dropWhile_eq_nil_iff]
  simp only [List.contains_iff_mem]

theorem trimEnds_eq_nil_iff : trimEnds set text = [] ↔ ∀ x ∈ text, x ∈ set := by
  rw [← dropWhile_eq_nil_iff_subset, trimEnds, List.rdropWhile_eq_nil_iff]
  constructor
  · intro hdrops
    by_contra hne
    have hhead := List.head_dropWhile_not (set.contains ·) hne
    rw [hdrops _ (List.head_mem hne)] at hhead
    cases hhead
  · intro hempty x hx
    rw [hempty] at hx
    cases hx

/-- A text that ends outside the set is trimmed at its head only. -/
theorem trimEnds_append_of_last {more : List α} (hfront : ¬ ∀ x ∈ text, x ∈ set)
    (hmore : more ≠ []) (hlast : ∀ last ∈ more.getLast?, last ∉ set) :
    trimEnds set (text ++ more) = text.dropWhile (set.contains ·) ++ more := by
  rw [← dropWhile_eq_nil_iff_subset] at hfront
  rw [trimEnds, List.dropWhile_append, if_neg (by rwa [List.isEmpty_iff]),
    List.rdropWhile_eq_self_iff]
  intro hne
  rw [List.getLast_append_of_ne_nil _ hmore, List.contains_iff_mem]
  exact hlast _ (List.getLast?_eq_some_getLast hmore)

end Trim

section Join

variable {separator text : List α}

theorem flatMap_append_separator {texts : List (List α)} (htexts : texts ≠ []) :
    texts.flatMap (· ++ separator) = separator.intercalate texts ++ separator := by
  induction texts with
  | nil => exact absurd rfl htexts
  | cons text texts ih =>
      by_cases hlast : texts = []
      · subst hlast
        rw [List.flatMap_singleton, List.intercalate_singleton]
      · rw [List.flatMap_cons, ih hlast, List.intercalate_cons_of_ne_nil hlast]
        simp only [List.append_assoc]

theorem intercalate_append {texts others : List (List α)} (htexts : texts ≠ [])
    (hothers : others ≠ []) :
    separator.intercalate (texts ++ others) =
      separator.intercalate texts ++ separator ++ separator.intercalate others := by
  induction texts with
  | nil => exact absurd rfl htexts
  | cons first texts ih =>
      by_cases hlast : texts = []
      · subst hlast
        rw [List.singleton_append, List.intercalate_cons_of_ne_nil hothers,
          List.intercalate_singleton]
      · rw [List.cons_append,
          List.intercalate_cons_of_ne_nil (List.append_ne_nil_of_left_ne_nil hlast _),
          ih hlast, List.intercalate_cons_of_ne_nil hlast]
        simp only [List.append_assoc]

theorem mem_intercalate {texts : List (List α)} {x : α} :
    x ∈ separator.intercalate texts ↔
      (∃ text ∈ texts, x ∈ text) ∨ 2 ≤ texts.length ∧ x ∈ separator := by
  induction texts with
  | nil => simp
  | cons text texts ih =>
      cases texts with
      | nil => simp
      | cons next texts =>
          rw [List.intercalate_cons_cons, List.mem_append, List.mem_append, ih]
          simp only [List.exists_mem_cons_iff, List.length_cons]
          constructor
          · rintro ((htext | hseparator) | (htexts | ⟨-, hseparator⟩))
            · exact .inl (.inl htext)
            · exact .inr ⟨by omega, hseparator⟩
            · exact .inl (.inr htexts)
            · exact .inr ⟨by omega, hseparator⟩
          · rintro ((htext | htexts) | ⟨-, hseparator⟩)
            · exact .inl (.inl htext)
            · exact .inr (.inl htexts)
            · exact .inl (.inr hseparator)

/-- No separator stands in what is joined of one text at most. -/
theorem intercalate_of_length_lt {texts : List (List α)} (hlength : texts.length < 2)
    (other : List α) : separator.intercalate texts = other.intercalate texts := by
  match texts, hlength with
  | [], _ => rfl
  | [text], _ => rw [List.intercalate_singleton, List.intercalate_singleton]

/-- The head of a text before a separator. -/
theorem head_append_separator (separator text rest : List α) :
    (∀ first ∈ (text ++ separator ++ rest).head?, first ∉ separator) ↔
      (∀ first ∈ text.head?, first ∉ separator) ∧ (separator ≠ [] → text ≠ []) := by
  cases text with
  | nil =>
      cases separator with
      | nil => simp
      | cons first separator => simp
  | cons first text => simp

theorem last_separator_append (separator text rest : List α) :
    (∀ last ∈ (rest ++ separator ++ text).getLast?, last ∉ separator) ↔
      (∀ last ∈ text.getLast?, last ∉ separator) ∧ (separator ≠ [] → text ≠ []) := by
  have hhead := head_append_separator separator.reverse text.reverse rest.reverse
  simpa only [← List.reverse_append, List.head?_reverse, List.mem_reverse, ne_eq,
    List.reverse_eq_nil_iff, ← List.append_assoc] using hhead

theorem clearEnds_singleton : ClearEnds separator [text] ↔ Trimmed separator text := by
  constructor
  · intro hclear
    exact ⟨hclear.head text rfl, hclear.last text rfl⟩
  · intro htrimmed
    refine ⟨?_, ?_, ?_⟩
    · intro first hfirst
      obtain rfl := Option.some.inj hfirst
      exact htrimmed.head
    · intro last hlast
      obtain rfl := Option.some.inj hlast
      exact htrimmed.last
    · intro hmany
      exact absurd hmany (by simp)

theorem clearEnds_iff (first last : List α) (middle : List (List α)) :
    ClearEnds separator (first :: (middle ++ [last])) ↔
      ((∀ x ∈ first.head?, x ∉ separator) ∧ (separator ≠ [] → first ≠ [])) ∧
        (∀ x ∈ last.getLast?, x ∉ separator) ∧ (separator ≠ [] → last ≠ []) := by
  have hlast : (first :: (middle ++ [last])).getLast? = some last := by
    rw [← List.cons_append, List.getLast?_concat]
  constructor
  · intro hclear
    have hmany : 2 ≤ (first :: (middle ++ [last])).length := by simp
    refine ⟨⟨hclear.head first rfl, ?_⟩, hclear.last last hlast, ?_⟩
    · intro hseparator hempty
      exact (hclear.filled hmany hseparator).1 (congrArg some hempty)
    · intro hseparator hempty
      exact (hclear.filled hmany hseparator).2 (hlast.trans (congrArg some hempty))
  · rintro ⟨⟨hfirst, hfilled⟩, hclear, hfull⟩
    refine ⟨?_, ?_, ?_⟩
    · intro text htext
      obtain rfl := Option.some.inj htext
      exact hfirst
    · intro text htext
      obtain rfl := Option.some.inj (hlast.symm.trans htext)
      exact hclear
    · intro _ hseparator
      constructor
      · intro hempty
        exact hfilled hseparator (Option.some.inj hempty)
      · intro hempty
        exact hfull hseparator (Option.some.inj (hlast.symm.trans hempty))

theorem trimmed_intercalate_iff {texts : List (List α)} :
    Trimmed separator (separator.intercalate texts) ↔ ClearEnds separator texts := by
  cases texts with
  | nil =>
      constructor
      · intro _
        exact ⟨by simp, by simp, by simp⟩
      · intro _
        exact ⟨by simp, by simp⟩
  | cons first texts =>
      cases texts using List.reverseRecOn with
      | nil => rw [List.intercalate_singleton, clearEnds_singleton]
      | append_singleton middle last =>
          have hfront : separator.intercalate (first :: (middle ++ [last])) =
              first ++ separator ++ separator.intercalate (middle ++ [last]) :=
            List.intercalate_cons_of_ne_nil (by simp)
          have hback : separator.intercalate (first :: (middle ++ [last])) =
              separator.intercalate (first :: middle) ++ separator ++ last := by
            rw [← List.cons_append, intercalate_append (List.cons_ne_nil first middle)
              (List.cons_ne_nil last []), List.intercalate_singleton]
          rw [clearEnds_iff, ← head_append_separator separator first
            (separator.intercalate (middle ++ [last])), ← hfront,
            ← last_separator_append separator last
            (separator.intercalate (first :: middle)), ← hback]
          constructor
          · intro htrimmed
            exact ⟨htrimmed.head, htrimmed.last⟩
          · rintro ⟨hhead, hlast⟩
            exact ⟨hhead, hlast⟩

theorem intercalate_ne_nil {texts : List (List α)} (htexts : texts ≠ [])
    (hfilled : [] ∉ texts) : separator.intercalate texts ≠ [] := by
  obtain ⟨first, rest, rfl⟩ := List.exists_cons_of_ne_nil htexts
  have hfirst : first ≠ [] := fun hempty => hfilled (hempty ▸ List.mem_cons_self)
  obtain ⟨x, hx⟩ := List.exists_mem_of_ne_nil first hfirst
  exact List.ne_nil_of_mem (mem_intercalate.mpr (.inl ⟨first, List.mem_cons_self, hx⟩))

/-- Texts that are not empty and have nothing of the separator in them. -/
theorem trimmed_intercalate {texts : List (List α)} (hfilled : [] ∉ texts)
    (hfree : ∀ text ∈ texts, ∀ x ∈ text, x ∉ separator) :
    Trimmed separator (separator.intercalate texts) := by
  rw [trimmed_intercalate_iff]
  refine ⟨?_, ?_, ?_⟩
  · intro text htext x hx
    exact hfree text (List.mem_of_mem_head? htext) x (List.mem_of_mem_head? hx)
  · intro text htext x hx
    exact hfree text (List.mem_of_getLast? htext) x (List.mem_of_getLast? hx)
  · intro _ _
    constructor
    · intro hhead
      exact hfilled (List.mem_of_mem_head? hhead)
    · intro hlast
      exact hfilled (List.mem_of_getLast? hlast)

end Join

end Uskit.Data
