import Mathlib.Data.List.TakeWhile
import Uskit.DynamicConfig.KEInit
import Uskit.Json.SetPath

namespace Uskit

open Uskit.Data

/-! The path that a key stands for, and its depth. -/

/-- The tokens of the normalised path, without the escapes of pointers. -/
def keyNames (key : String) : List (List Char) :=
  ((normalizePath key).toList.splitOn '/').tail

def keyTokens (key : String) : List Token :=
  (keyNames key).map Token.ofName

section Split

theorem splitOn_slash (rest : List Char) :
    ('/' :: rest).splitOn '/' = [] :: rest.splitOn '/' :=
  List.splitOn_append_cons_self [] rest

theorem splitOn_cons {c : Char} (hslash : c ≠ '/') (rest : List Char) :
    (c :: rest).splitOn '/' = (rest.splitOn '/').modifyHead (c :: ·) := by
  rw [List.splitOn_cons_eq_if_modifyHead, if_neg (by simpa using hslash)]

/-- What is between the separators is what was split. -/
theorem mem_splitOn {c : Char} (hslash : c ≠ '/') (text : List Char) :
    (∃ name ∈ text.splitOn '/', c ∈ name) ↔ c ∈ text := by
  induction text with
  | nil => simp [List.splitOn_nil]
  | cons d rest ih =>
      by_cases hd : d = '/'
      · subst hd
        rw [splitOn_slash, List.exists_mem_cons_iff, ih, List.mem_cons]
        simp [hslash]
      · rw [splitOn_cons hd, List.mem_cons, ← ih]
        obtain ⟨name, names, hnames⟩ :=
          List.exists_cons_of_ne_nil (List.splitOn_ne_nil '/' rest)
        rw [hnames, List.modifyHead_cons, List.exists_mem_cons_iff,
          List.exists_mem_cons_iff, List.mem_cons]
        tauto

theorem slash_not_mem_splitOn {text name : List Char} (hname : name ∈ text.splitOn '/') :
    '/' ∉ name := by
  induction text generalizing name with
  | nil =>
      rw [List.splitOn_nil, List.mem_singleton] at hname
      rw [hname]
      exact List.not_mem_nil
  | cons c rest ih =>
      by_cases hc : c = '/'
      · rw [hc, splitOn_slash, List.mem_cons] at hname
        cases hname with
        | inl hempty =>
            rw [hempty]
            exact List.not_mem_nil
        | inr hrest => exact ih hrest
      · obtain ⟨first, others, hnames⟩ :=
          List.exists_cons_of_ne_nil (List.splitOn_ne_nil '/' rest)
        rw [splitOn_cons hc, hnames, List.modifyHead_cons, List.mem_cons] at hname
        rw [hnames] at ih
        cases hname with
        | inl hfirst =>
            rw [hfirst, List.mem_cons, not_or]
            exact ⟨Ne.symm hc, ih List.mem_cons_self⟩
        | inr hother => exact ih (.tail _ hother)

theorem length_splitOn (text : List Char) :
    (text.splitOn '/').length = text.count '/' + 1 := by
  induction text with
  | nil => rfl
  | cons c rest ih =>
      by_cases hc : c = '/'
      · rw [hc, splitOn_slash, List.length_cons, ih, List.count_cons_self]
      · rw [splitOn_cons hc, List.length_modifyHead, ih,
          List.count_cons_of_ne hc]

theorem head?_ne_slash {text : List Char} (hnames : [] ∉ text.splitOn '/') :
    text.head? ≠ some '/' := by
  intro hhead
  obtain ⟨rest, rfl⟩ := List.head?_eq_some_iff.mp hhead
  rw [splitOn_slash] at hnames
  exact hnames List.mem_cons_self

theorem getLast?_ne_slash {text : List Char} (hnames : [] ∉ text.splitOn '/') :
    text.getLast? ≠ some '/' := by
  intro hlast
  obtain ⟨before, rfl⟩ := List.getLast?_eq_some_iff.mp hlast
  rw [List.splitOn_append_cons_self] at hnames
  exact hnames (List.mem_append_right _ List.mem_cons_self)

/-- The tokens that the pointer reads, when nothing is escaped. -/
theorem scan_eq_splitOn {text : List Char} (htilde : '~' ∉ text)
    (name : List Char) :
    Pointer.scan name text =
      some (((text.splitOn '/').modifyHead (name ++ ·)).map Token.ofName) := by
  induction text generalizing name with
  | nil =>
      rw [Pointer.scan, List.splitOn_nil, List.modifyHead_cons, List.append_nil]
      rfl
  | cons c rest ih =>
      rw [List.mem_cons, not_or] at htilde
      by_cases hc : c = '/'
      · subst hc
        obtain ⟨first, others, hnames⟩ :=
          List.exists_cons_of_ne_nil (List.splitOn_ne_nil '/' rest)
        rw [Pointer.scan, ih htilde.2, splitOn_slash, hnames]
        simp
      · obtain ⟨first, others, hnames⟩ :=
          List.exists_cons_of_ne_nil (List.splitOn_ne_nil '/' rest)
        rw [Pointer.scan_cons hc (Ne.symm htilde.1), ih htilde.2, splitOn_cons hc,
          hnames]
        simp

end Split

theorem keyNames_of_root {key : String} (hroot : normalizePath key = "") :
    keyNames key = [] := by
  rw [keyNames, hroot]
  rfl

theorem keyNames_of_path {key : String} {rest : List Char}
    (hpath : (normalizePath key).toList = '/' :: rest) :
    keyNames key = rest.splitOn '/' := by
  rw [keyNames, hpath, splitOn_slash, List.tail_cons]

theorem normalizePath_of_keyNames {a b : String} (hnames : keyNames a = keyNames b) :
    normalizePath a = normalizePath b := by
  rcases normalizePath_cases a with ⟨-, ha⟩ | ⟨first, -, -, ha⟩
  · rcases normalizePath_cases b with ⟨-, hb⟩ | ⟨second, -, -, hb⟩
    · rw [ha, hb]
    · rw [keyNames_of_root ha, keyNames_of_path hb] at hnames
      exact absurd hnames.symm (List.splitOn_ne_nil '/' second)
  · rcases normalizePath_cases b with ⟨-, hb⟩ | ⟨second, -, -, hb⟩
    · rw [keyNames_of_path ha, keyNames_of_root hb] at hnames
      exact absurd hnames (List.splitOn_ne_nil '/' first)
    · rw [keyNames_of_path ha, keyNames_of_path hb] at hnames
      apply String.toList_inj.mp
      have hjoin : ['/'].intercalate (List.splitOn '/' first) = first :=
        List.intercalate_splitOn '/'
      rw [ha, hb, ← hjoin, hnames, List.intercalate_splitOn]

/-- Which characters a key has is told by its tokens. -/
theorem mem_keyNames {c : Char} (hslash : c ≠ '/') (key : String) :
    (∃ name ∈ keyNames key, c ∈ name) ↔ c ∈ key.toList := by
  rcases normalizePath_cases key with ⟨hkey, hroot⟩ | ⟨rest, -, hkey, hpath⟩
  · rw [keyNames_of_root hroot]
    rcases hkey with rfl | rfl
    · simp
    · simp [hslash]
  · rw [keyNames_of_path hpath, mem_splitOn hslash]
    rcases hkey with hkey | hkey
    · rw [hkey]
    · rw [hkey, List.mem_cons]
      simp [hslash]

section Trim

variable {trimString : String → String → String}

theorem trimString_of_path (htrims : Function.TrimsEnds trimString) {key : String}
    {rest : List Char} (hnames : [] ∉ rest.splitOn '/')
    (hkey : key.toList = rest ∨ key.toList = '/' :: rest) :
    (trimString key kveDelimeter).toList = rest := by
  have htrimmed : Trimmed ['/'] rest := by
    constructor
    · intro first hfirst hslash
      obtain rfl := List.mem_singleton.mp hslash
      exact head?_ne_slash hnames hfirst
    · intro last hlast hslash
      obtain rfl := List.mem_singleton.mp hslash
      exact getLast?_ne_slash hnames hlast
  have htrim : trimEnds kveDelimeter.toList rest = rest :=
    trimEnds_eq_self_iff.mpr htrimmed
  rw [htrims]
  rcases hkey with hkey | hkey
  · rw [hkey, htrim]
  · rw [hkey, trimEnds_cons (by decide), htrim]

theorem keyDepth_of_root (htrims : Function.TrimsEnds trimString) {key : String}
    (hkey : key = "" ∨ key = "/") : keyDepth trimString key = 0 := by
  have hempty : trimString key kveDelimeter = "" := by
    apply String.toList_inj.mp
    rw [htrims]
    rcases hkey with rfl | rfl
    · decide
    · decide
  exact if_pos hempty

/-- The comparator counts the tokens, where none of them is empty. -/
theorem keyDepth_eq (htrims : Function.TrimsEnds trimString) {key : String}
    (hnames : [] ∉ keyNames key) : keyDepth trimString key = (keyNames key).length := by
  rcases normalizePath_cases key with ⟨hkey, hroot⟩ | ⟨rest, hrest, hkey, hpath⟩
  · rw [keyNames_of_root hroot]
    exact keyDepth_of_root htrims hkey
  · rw [keyNames_of_path hpath] at hnames ⊢
    have htrim := trimString_of_path htrims hnames hkey
    have hne : trimString key kveDelimeter ≠ "" := by
      intro heq
      rw [heq] at htrim
      exact hrest htrim.symm
    simp only [keyDepth, if_neg hne]
    rw [htrim, length_splitOn]

end Trim

/-- The pointer of a key without escapes and NULs. -/
theorem pathTokens_eq {key : String} (htilde : ∀ name ∈ keyNames key, '~' ∉ name)
    (hfree : '\x00' ∉ key.toList) : pathTokens key = some (keyTokens key) := by
  rcases normalizePath_cases key with ⟨-, hroot⟩ | ⟨rest, -, hkey, hpath⟩
  · rw [pathTokens, hroot, keyTokens, keyNames_of_root hroot]
    rfl
  · have hrestFree : '\x00' ∉ rest := by
      rcases hkey with hkey | hkey
      · rwa [hkey] at hfree
      · rw [hkey] at hfree
        exact fun hmem => hfree (.tail _ hmem)
    have hpathFree : '\x00' ∉ (normalizePath key).toList := by
      rw [hpath, List.mem_cons, not_or]
      exact ⟨by decide, hrestFree⟩
    have hplain : '~' ∉ rest := by
      rw [← mem_splitOn (by decide), ← keyNames_of_path hpath]
      intro hname
      obtain ⟨name, hmem, hc⟩ := hname
      exact htilde name hmem hc
    rw [pathTokens, cStr_eq_self hpathFree, Pointer.parse, hpath]
    simp only
    rw [scan_eq_splitOn hplain, keyTokens, keyNames_of_path hpath]
    obtain ⟨first, others, hnames⟩ :=
      List.exists_cons_of_ne_nil (List.splitOn_ne_nil '/' rest)
    rw [hnames]
    simp

end Uskit
