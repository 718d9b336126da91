import Uskit.Json.SetPath

namespace Uskit

open Uskit.Data

/-! Which paths are read as which names.  A path spells its names one by one behind
slashes, with `~0` for a tilde and `~1` for a slash in a name. -/

namespace Pointer

def escapeChar (c : Char) : List Char :=
  if c = '~' then ['~', '0'] else if c = '/' then ['~', '1'] else [c]

def escape (name : List Char) : List Char :=
  name.flatMap escapeChar

def pathText (names : List (List Char)) : List Char :=
  names.flatMap fun name => '/' :: escape name

theorem escape_cons (c : Char) (name : List Char) :
    escape (c :: name) = escapeChar c ++ escape name := rfl

theorem pathText_cons (name : List Char) (names : List (List Char)) :
    pathText (name :: names) = '/' :: (escape name ++ pathText names) := rfl

theorem scan_escape (front name rest : List Char) :
    scan front (escape name ++ rest) = scan (front ++ name) rest := by
  induction name generalizing front with
  | nil => rw [List.append_nil]; rfl
  | cons c name ih =>
      rw [escape_cons, List.append_assoc, List.append_cons, ← ih]
      unfold escapeChar
      split
      case isTrue htilde =>
        subst htilde
        rfl
      case isFalse htilde =>
        split
        case isTrue hslash =>
          subst hslash
          rfl
        case isFalse hslash => exact scan_cons hslash htilde ..

theorem scan_spelled (front name : List Char) (others : List (List Char)) :
    scan front (escape name ++ pathText others) =
      some ((Token.ofName (front ++ name)) :: others.map Token.ofName) := by
  rw [scan_escape]
  induction others generalizing front name with
  | nil => rfl
  | cons other others ih =>
      have hrest := ih [] other
      rw [← scan_escape] at hrest
      rw [pathText_cons, scan, hrest]
      rfl

/-- Whatever is read is the spelling of names. -/
theorem spelled_of_scan {front text : List Char} {tokens : List Token}
    (hscan : scan front text = some tokens) :
    ∃ name others, text = escape name ++ pathText others ∧
      tokens = Token.ofName (front ++ name) :: others.map Token.ofName := by
  induction front, text using scan.induct generalizing tokens with
  | case1 front =>
      cases hscan
      exact ⟨[], [], rfl, by rw [List.append_nil]; rfl⟩
  | case2 front rest ih =>
      obtain ⟨later, hlater, rfl⟩ := Option.map_eq_some_iff.mp hscan
      obtain ⟨name, others, rfl, rfl⟩ := ih hlater
      exact ⟨[], name :: others, rfl, by rw [List.append_nil]; rfl⟩
  | case3 front rest ih =>
      obtain ⟨name, others, rfl, rfl⟩ := ih hscan
      exact ⟨'~' :: name, others, rfl, by rw [List.append_assoc]; rfl⟩
  | case4 front rest ih =>
      obtain ⟨name, others, rfl, rfl⟩ := ih hscan
      exact ⟨'/' :: name, others, rfl, by rw [List.append_assoc]; rfl⟩
  | case5 front rest hzero hone => cases (scan_tilde hzero hone).symm.trans hscan
  | case6 front c rest hslash hzero hone htilde ih =>
      rw [scan_cons hslash htilde] at hscan
      obtain ⟨name, others, rfl, rfl⟩ := ih hscan
      refine ⟨c :: name, others, ?_, by rw [List.append_assoc]; rfl⟩
      rw [escape_cons, escapeChar, if_neg htilde, if_neg hslash]
      rfl

/-- `Parse` takes the spellings of lists of names and no other texts. -/
theorem parse_eq_some_iff {source : String} {tokens : List Token} :
    parse source = some tokens ↔
      ∃ names, source.toList = pathText names ∧ tokens = names.map Token.ofName := by
  constructor
  · intro hparse
    unfold parse at hparse
    split at hparse
    case h_1 hsource =>
      cases hparse
      exact ⟨[], hsource, rfl⟩
    case h_2 rest hsource =>
      obtain ⟨name, others, rfl, rfl⟩ := spelled_of_scan hparse
      exact ⟨name :: others, hsource, rfl⟩
    case h_3 => cases hparse
  · rintro ⟨names, hsource, rfl⟩
    unfold parse
    rw [hsource]
    cases names with
    | nil => rfl
    | cons name others => exact scan_spelled [] name others

end Pointer

open Pointer

def namedPath (names : List String) : String :=
  String.ofList (pathText (names.map String.toList))

def namedTokens (names : List String) : List Token :=
  names.map fun name => Token.ofName name.toList

theorem namedTokens_injective {names others : List String}
    (htokens : namedTokens names = namedTokens others) : names = others := by
  have hnames := congrArg (List.map Token.name) htokens
  simpa [namedTokens, Function.comp_def] using hnames

theorem normalizePath_ne_slash (path : String) : normalizePath path ≠ "/" := by
  rcases normalizePath_cases path with ⟨-, hroot⟩ | ⟨rest, hrest, -, hpath⟩
  · rw [hroot]
    decide
  · intro heq
    rw [heq] at hpath
    exact hrest (List.cons.inj hpath).2.symm

theorem free_normalizePath {path : String} (hfree : '\x00' ∉ path.toList) :
    '\x00' ∉ (normalizePath path).toList := by
  rcases normalizePath_cases path with ⟨-, hroot⟩ | ⟨rest, -, hkey, hpath⟩
  · rw [hroot]
    exact List.not_mem_nil
  · rw [hpath]
    rcases hkey with hkey | hkey
    · rw [hkey] at hfree
      simpa using hfree
    · rwa [hkey] at hfree

theorem pathTokens_eq_some_iff {path : String} (hfree : '\x00' ∉ path.toList)
    {tokens : List Token} :
    pathTokens path = some tokens ↔
      ∃ names, normalizePath path = namedPath names ∧ tokens = namedTokens names := by
  rw [pathTokens, cStr_eq_self (free_normalizePath hfree), parse_eq_some_iff]
  constructor
  · rintro ⟨names, hpath, rfl⟩
    refine ⟨names.map String.ofList, ?_, by simp [namedTokens, Function.comp_def]⟩
    rw [namedPath, ← String.toList_inj, hpath]
    simp [Function.comp_def]
  · rintro ⟨names, hpath, rfl⟩
    refine ⟨names.map String.toList, ?_, by simp [namedTokens, Function.comp_def]⟩
    rw [hpath, namedPath, String.toList_ofList]

theorem mem_escape_iff {c : Char} (hslash : c ≠ '/') (hdigits : c ≠ '0' ∧ c ≠ '1')
    (htilde : c ≠ '~') {name : List Char} : c ∈ escape name ↔ c ∈ name := by
  induction name with
  | nil => rfl
  | cons d name ih =>
      have hhead : c ∈ escapeChar d ↔ c = d := by
        unfold escapeChar
        split
        case isTrue hd => simp [hd, htilde, hdigits.1]
        case isFalse =>
          split
          case isTrue hd => simp [hd, hslash, htilde, hdigits.2]
          case isFalse => exact List.mem_singleton
      rw [escape_cons, List.mem_append, ih, hhead, List.mem_cons]

theorem free_namedPath {names : List String} (hfree : ∀ name ∈ names, '\x00' ∉ name.toList) :
    '\x00' ∉ (namedPath names).toList := by
  rw [namedPath, String.toList_ofList, pathText, List.mem_flatMap]
  rintro ⟨name, hname, hmem⟩
  obtain ⟨text, htext, rfl⟩ := List.mem_map.mp hname
  rw [List.mem_cons, or_iff_right (by decide),
    mem_escape_iff (by decide) (by decide) (by decide)] at hmem
  exact hfree text htext hmem

theorem namedPath_eq_slash {names : List String} (hslash : namedPath names = "/") :
    names = [""] := by
  rw [← String.toList_inj, namedPath, String.toList_ofList] at hslash
  cases names with
  | nil => cases hslash
  | cons name others =>
      rw [List.map_cons, pathText_cons] at hslash
      obtain ⟨hname, hothers⟩ := List.append_eq_nil_iff.mp (List.cons.inj hslash).2
      have hempty : name.toList = [] := by
        cases hchars : name.toList with
        | nil => rfl
        | cons c rest =>
            rw [hchars, escape_cons, escapeChar] at hname
            split at hname
            · cases hname
            · split at hname <;> cases hname
      cases others with
      | nil => rw [String.toList_eq_nil_iff.mp hempty]
      | cons other others => cases hothers

theorem normalizePath_namedPath {names : List String} (hnames : names ≠ [""]) :
    normalizePath (namedPath names) = namedPath names := by
  cases names with
  | nil => rfl
  | cons name others =>
      have hhead : (namedPath (name :: others)).toList.head? = some '/' := by
        rw [namedPath, String.toList_ofList]
        rfl
      unfold normalizePath
      simp only [if_pos hhead, if_neg (mt namedPath_eq_slash hnames)]

theorem pathTokens_namedPath {names : List String} (hnames : names ≠ [""])
    (hfree : ∀ name ∈ names, '\x00' ∉ name.toList) :
    pathTokens (namedPath names) = some (namedTokens names) :=
  (pathTokens_eq_some_iff (free_namedPath hfree)).mpr
    ⟨names, normalizePath_namedPath hnames, rfl⟩

/-- A path is read as names exactly if it spells them, and every list of names without a NUL
has such a path, but for one empty name, whose path is taken for the root. -/
theorem paths_addressable (names : List String) :
    (∀ text, pathTokens (cStr text) = some (namedTokens names) ↔
        normalizePath (cStr text) = namedPath names) ∧
      ((∃ text, pathTokens (cStr text) = some (namedTokens names)) ↔
        names ≠ [""] ∧ ∀ name ∈ names, '\x00' ∉ name.toList) := by
  have hreads : ∀ text, pathTokens (cStr text) = some (namedTokens names) ↔
      normalizePath (cStr text) = namedPath names := by
    intro text
    rw [pathTokens_eq_some_iff (cStr_free text)]
    constructor
    · rintro ⟨others, hpath, htokens⟩
      cases namedTokens_injective htokens
      exact hpath
    · intro hpath
      exact ⟨names, hpath, rfl⟩
  refine ⟨hreads, ?_⟩
  constructor
  · rintro ⟨text, htext⟩
    have hpath := (hreads text).mp htext
    refine ⟨?_, fun name hname hnul => ?_⟩
    · rintro rfl
      exact normalizePath_ne_slash _ hpath
    · have hmem : '\x00' ∈ (namedPath names).toList := by
        rw [namedPath, String.toList_ofList, pathText, List.mem_flatMap]
        refine ⟨name.toList, List.mem_map_of_mem hname, List.mem_cons_of_mem _ ?_⟩
        exact (mem_escape_iff (by decide) (by decide) (by decide)).mpr hnul
      rw [← hpath] at hmem
      exact free_normalizePath (cStr_free text) hmem
  · rintro ⟨hnames, hfree⟩
    refine ⟨namedPath names, ?_⟩
    rw [cStr_eq_self (free_namedPath hfree)]
    exact pathTokens_namedPath hnames hfree

end Uskit
