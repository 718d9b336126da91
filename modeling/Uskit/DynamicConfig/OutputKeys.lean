import Mathlib.Data.Finset.Max
import Uskit.DynamicConfig.KeyPath
import Uskit.Json.PlainPath
import Uskit.Json.PointerSet

namespace Uskit

open Uskit.Data Json

/-! The document of output keys whose paths only name members: no key overwrites
another that it does not extend, and the order of the list does not matter. -/

/-- Neither empty nor escaped, not the end of an array and no index of one. -/
structure PlainToken (name : List Char) : Prop where
  nonempty : name ≠ []
  unescaped : '~' ∉ name
  noPush : name ≠ ['-']
  noIndex : Token.indexOf name = none

instance (name : List Char) : Decidable (PlainToken name) :=
  decidable_of_iff
    (name ≠ [] ∧ '~' ∉ name ∧ name ≠ ['-'] ∧ Token.indexOf name = none)
    ⟨fun h => ⟨h.1, h.2.1, h.2.2.1, h.2.2.2⟩,
      fun h => ⟨h.nonempty, h.unescaped, h.noPush, h.noIndex⟩⟩

def PlainKey (key : String) : Prop :=
  ∀ name ∈ keyNames key, PlainToken name

instance (key : String) : Decidable (PlainKey key) :=
  inferInstanceAs (Decidable (∀ name ∈ keyNames key, PlainToken name))

def ProperPrefix (path other : List (List Char)) : Prop :=
  path.IsPrefix other ∧ path ≠ other

instance (path other : List (List Char)) : Decidable (ProperPrefix path other) :=
  inferInstanceAs (Decidable (path.IsPrefix other ∧ path ≠ other))

theorem PlainToken.plain {name : List Char} (hplain : PlainToken name) :
    (Token.ofName name).Plain where
  noIndex := hplain.noIndex
  noPush := by
    intro heq
    apply hplain.noPush
    rw [Token.ofName_name] at heq
    rw [← String.toList_ofList (l := name), heq]
    rfl

theorem PlainKey.tokens {key : String} (hplain : PlainKey key) :
    ∀ token ∈ keyTokens key, token.Plain := by
  intro token htoken
  obtain ⟨name, hname, rfl⟩ := List.mem_map.mp htoken
  exact (hplain name hname).plain

theorem PlainKey.depth {trimString : String → String → String}
    (htrims : Function.TrimsEnds trimString) {key : String} (hplain : PlainKey key) :
    keyDepth trimString key = (keyNames key).length := by
  apply keyDepth_eq htrims
  intro hempty
  exact (hplain [] hempty).nonempty rfl

theorem PlainKey.pathTokens {key : String} (hplain : PlainKey key)
    (hfree : '\x00' ∉ key.toList) : pathTokens key = some (keyTokens key) :=
  pathTokens_eq (fun name hname => (hplain name hname).unescaped) hfree

theorem ofName_injective : Function.Injective Token.ofName := by
  intro first second heq
  have hname : String.ofList first = String.ofList second := congrArg Token.name heq
  rw [← String.toList_ofList (l := first), hname, String.toList_ofList]

namespace KEMap

variable {trimString : String → String → String}

/-- Every key that no other extends has its value in the document, and another
order of the list only moves members. -/
def OutputsHold (trimString : String → String → String) (library : Library)
    (keys : List String) : Prop :=
  ∀ (pairs : List (String × Expr)) (context : Context) (value : String → Json),
    pairs.map Prod.fst = keys →
    (∀ pair ∈ pairs, pair.2.run library context = .ok (value pair.1)) →
      ∃ doc, run library context (ofPairs trimString pairs) = .ok doc ∧
        (∀ key ∈ keys,
          (∀ other ∈ keys, ¬ ProperPrefix (keyNames key) (keyNames other)) →
            Pointer.get (keyTokens key) doc = some (value key)) ∧
        ∀ permuted : List (String × Expr), pairs.Perm permuted →
          ∃ other, run library context (ofPairs trimString permuted) = .ok other ∧
            doc.Reordered other

/-- The writes of `run`, for keys with their values. -/
def writeKey (value : String → Json) (doc : Json) (key : String) : Json :=
  (jsonSetValueByPath key doc (value key)).1

theorem runEntries_eq {library : Library} {context : Context} {expr : String → Expr}
    {value : String → Json} {order : List String}
    (hvalues : ∀ key ∈ order, (expr key).run library context = .ok (value key))
    (doc : Json) :
    runEntries library context (order.map fun key => (key, expr key)) doc =
      .ok (order.foldl (writeKey value) doc) := by
  induction order generalizing doc with
  | nil => rfl
  | cons key rest ih =>
      rw [List.map_cons, runEntries, hvalues key List.mem_cons_self, Result.ok_bind,
        List.foldl_cons]
      exact ih (fun other hother => hvalues other (.tail _ hother)) _

theorem run_ofPairs {library : Library} {context : Context}
    {pairs : List (String × Expr)} (value : String → Json)
    (hnodup : (pairs.map Prod.fst).Nodup)
    (hvalues : ∀ pair ∈ pairs, pair.2.run library context = .ok (value pair.1)) :
    run library context (ofPairs trimString pairs) =
      .ok (if pairs = [] then .null
        else (keyOrder trimString (pairs.map Prod.fst)).foldl (writeKey value) (.object [])) := by
  obtain ⟨expr, hpairs⟩ := exists_expr_of_nodup hnodup
  have hexpr : ∀ key ∈ keyOrder trimString (pairs.map Prod.fst),
      (expr key).run library context = .ok (value key) := by
    intro key hkey
    have hmem : (key, expr key) ∈ pairs := by
      rw [hpairs]
      exact List.mem_map_of_mem ((keyOrder_perm trimString _).mem_iff.mp hkey)
    exact hvalues _ hmem
  have hofPairs : ofPairs trimString pairs =
      (keyOrder trimString (pairs.map Prod.fst)).map fun key => (key, expr key) := by
    rw [← ofPairs_map, ← hpairs]
  rw [run, hofPairs, runEntries_eq hexpr]
  cases pairs with
  | nil => rfl
  | cons pair rest =>
      have hlength :=
        (keyOrder_perm trimString ((pair :: rest).map Prod.fst)).length_eq
      cases horder : keyOrder trimString ((pair :: rest).map Prod.fst) with
      | nil =>
          rw [horder] at hlength
          cases hlength
      | cons key others => rw [if_neg (by simp), if_neg (by simp)]

section Plain

variable {keys : List String} {value : String → Json}

theorem apart_of_plain {key other : String}
    (hbelow : ¬ ProperPrefix (keyNames key) (keyNames other))
    (hne : keyNames key ≠ keyNames other)
    (hlength : (keyNames key).length ≤ (keyNames other).length) :
    Pointer.Apart (keyTokens key) (keyTokens other) := by
  constructor
  · intro htokens
    exact hbelow ⟨(List.prefix_map_iff_of_injective ofName_injective).mp htokens, hne⟩
  · intro htokens
    have hnames := (List.prefix_map_iff_of_injective ofName_injective).mp htokens
    have heq := hnames.eq_of_length (Nat.le_antisymm hnames.length_le hlength)
    exact hne heq.symm

theorem writeKey_eq {key : String} (hplain : PlainKey key)
    (hfree : '\x00' ∉ key.toList) (doc : Json) :
    writeKey value doc key = Pointer.set (value key) (keyTokens key) doc := by
  unfold writeKey jsonSetValueByPath
  rw [hplain.pathTokens hfree]

/-- Later writes go to other places. -/
theorem get_foldl_writeKey {key : String} (hplain : PlainKey key) {after : List String}
    (hafter : ∀ other ∈ after, PlainKey other ∧ '\x00' ∉ other.toList ∧
      Pointer.Apart (keyTokens key) (keyTokens other)) (doc : Json) :
    Pointer.get (keyTokens key) (after.foldl (writeKey value) doc) =
      Pointer.get (keyTokens key) doc := by
  induction after generalizing doc with
  | nil => rfl
  | cons other rest ih =>
      obtain ⟨hother, hfree, hapart⟩ := hafter other List.mem_cons_self
      rw [List.foldl_cons, ih fun third hthird => hafter third (.tail _ hthird),
        writeKey_eq hother hfree]
      exact Pointer.get_set_of_apart _ hapart hplain.tokens hother.tokens doc

variable (htrims : Function.TrimsEnds trimString) (hnodup : (keys.map keyNames).Nodup)
  (hplain : ∀ key ∈ keys, PlainKey key) (hfree : ∀ key ∈ keys, '\x00' ∉ key.toList)

include htrims hnodup hplain hfree

theorem get_document {key : String} (hkey : key ∈ keys)
    (hlast : ∀ other ∈ keys, ¬ ProperPrefix (keyNames key) (keyNames other))
    (doc : Json) :
    Pointer.get (keyTokens key) ((keyOrder trimString keys).foldl (writeKey value) doc) =
      some (value key) := by
  have hperm := keyOrder_perm trimString keys
  obtain ⟨before, after, horder⟩ :=
    List.append_of_mem (hperm.mem_iff.mpr hkey)
  have hsorted := keyOrder_sorted trimString keys
  have hnames : ((keyOrder trimString keys).map keyNames).Nodup :=
    (hperm.map keyNames).nodup_iff.mpr hnodup
  rw [horder] at hsorted hnames ⊢
  obtain ⟨-, hdeeper, -⟩ := List.pairwise_append.mp hsorted
  rw [List.map_append, List.map_cons] at hnames
  obtain ⟨-, hnames, -⟩ := List.nodup_append'.mp hnames
  rw [List.foldl_append, List.foldl_cons, get_foldl_writeKey (hplain key hkey),
    writeKey_eq (hplain key hkey) (hfree key hkey)]
  · exact Pointer.get_set _
      (fun token htoken => ((hplain key hkey).tokens token htoken).noPush) _
  · intro other hother
    have hmem : other ∈ keys := by
      apply hperm.mem_iff.mp
      rw [horder]
      exact List.mem_append_right _ (.tail _ hother)
    have hdepth : keyDepth trimString key ≤ keyDepth trimString other :=
      (List.pairwise_cons.mp hdeeper).1 other hother
    rw [(hplain key hkey).depth htrims, (hplain other hmem).depth htrims] at hdepth
    have hne : keyNames key ≠ keyNames other := by
      intro heq
      apply (List.nodup_cons.mp hnames).1
      rw [heq]
      exact List.mem_map_of_mem hother
    exact ⟨hplain other hmem, hfree other hmem,
      apart_of_plain (hlast other hmem) hne hdepth⟩

theorem reordered_document {permuted : List String} (hperm : keys.Perm permuted)
    (doc : Json) :
    ((keyOrder trimString keys).foldl (writeKey value) doc).Reordered
      ((keyOrder trimString permuted).foldl (writeKey value) doc) := by
  have horder : (keyOrder trimString permuted).Perm (keyOrder trimString keys) :=
    ((keyOrder_perm trimString permuted).trans hperm.symm).trans
      (keyOrder_perm trimString keys).symm
  have hmem : ∀ key ∈ keyOrder trimString permuted, key ∈ keys := by
    intro key hkey
    exact hperm.mem_iff.mpr ((keyOrder_perm trimString permuted).mem_iff.mp hkey)
  have hnames : ((keyOrder trimString permuted).map keyNames).Nodup := by
    apply (List.Perm.nodup_iff _).mp hnodup
    exact (hperm.trans (keyOrder_perm trimString permuted).symm).map keyNames
  refine foldl_alike_of_rankSorted (fun _ _ _ => .trans) .refl horder ?_ ?_
    (keyOrder_sorted trimString permuted) (keyOrder_sorted trimString keys) doc
  · intro key hkey first second hsame
    rw [writeKey_eq (hplain key (hmem key hkey)) (hfree key (hmem key hkey)),
      writeKey_eq (hplain key (hmem key hkey)) (hfree key (hmem key hkey))]
    exact Pointer.set_congr _ (hplain key (hmem key hkey)).tokens hsame
  · rw [List.Nodup, List.pairwise_map] at hnames
    apply hnames.imp_of_mem
    intro key other hkey hother hne hdepth doc
    have hkeyPlain := hplain key (hmem key hkey)
    have hotherPlain := hplain other (hmem other hother)
    have hkeyFree := hfree key (hmem key hkey)
    have hotherFree := hfree other (hmem other hother)
    have hlength : (keyNames key).length = (keyNames other).length := by
      rw [← hkeyPlain.depth htrims, ← hotherPlain.depth htrims]
      exact hdepth
    have hapart : Pointer.Apart (keyTokens key) (keyTokens other) := by
      refine apart_of_plain ?_ hne hlength.le
      intro hbelow
      exact hne (hbelow.1.eq_of_length hlength)
    rw [writeKey_eq hkeyPlain hkeyFree, writeKey_eq hotherPlain hotherFree,
      writeKey_eq hotherPlain hotherFree, writeKey_eq hkeyPlain hkeyFree]
    exact Pointer.set_comm _ _ hapart hkeyPlain.tokens hotherPlain.tokens doc

theorem outputsHold_of_free (library : Library) : OutputsHold trimString library keys := by
  intro pairs context value hkeys hvalues
  have hkeysNodup : keys.Nodup := hnodup.of_map
  refine ⟨_, run_ofPairs value (hkeys ▸ hkeysNodup) hvalues, ?_, ?_⟩
  · intro key hkey hlast
    have hne : pairs ≠ [] := by
      intro heq
      rw [heq] at hkeys
      rw [← hkeys] at hkey
      cases hkey
    rw [if_neg hne, hkeys]
    exact get_document htrims hnodup hplain hfree hkey hlast _
  · intro permuted hperm
    have hpermKeys : keys.Perm (permuted.map Prod.fst) := by
      rw [← hkeys]
      exact hperm.map Prod.fst
    refine ⟨_, run_ofPairs value (hpermKeys.nodup_iff.mp hkeysNodup)
      (fun pair hpair => hvalues pair (hperm.mem_iff.mpr hpair)), ?_⟩
    by_cases hempty : pairs = []
    · have hnone : permuted = [] := by
        rw [hempty] at hperm
        exact List.nil_perm.mp hperm
      rw [if_pos hempty, if_pos hnone]
      exact .refl _
    · have hsome : permuted ≠ [] := by
        intro heq
        rw [heq] at hperm
        exact hempty (List.perm_nil.mp hperm)
      rw [if_neg hempty, if_neg hsome, hkeys]
      exact reordered_document htrims hnodup hplain hfree hpermKeys _

end Plain

section Cut

/-- Documents in whose names there is no NUL. -/
def nulFree : Material :=
  ⟨fun _ => True, fun name => '\x00' ∉ name.toList⟩

theorem writeKey_built (keys : List String) {doc : Json} (hdoc : doc.Built nulFree) :
    (keys.foldl (writeKey fun _ => .object []) doc).Built nulFree := by
  induction keys generalizing doc with
  | nil => exact hdoc
  | cons key rest ih =>
      apply ih
      exact jsonSetValueByPath_built
        (fun _ htokens _ htoken => free_of_pathTokens htokens htoken)
        hdoc built_empty

/-- What a plain path finds, it finds under names of the document. -/
theorem built_get {material : Material} {tokens : List Token}
    (hplain : ∀ token ∈ tokens, token.Plain) {doc : Json} (hdoc : doc.Built material)
    {value : Json} (hget : Pointer.get tokens doc = some value) :
    ∀ token ∈ tokens, material.name token.name := by
  induction tokens generalizing doc with
  | nil => simp
  | cons token rest ih =>
      rw [Pointer.get_plain (hplain token List.mem_cons_self)] at hget
      obtain ⟨old, hold, hrest⟩ := Option.bind_eq_some_iff.mp hget
      cases hdoc with
      | object _ hallowed hvalues =>
          have hmem := Members.mem_of_lookup hold
          intro other hother
          rcases List.mem_cons.mp hother with rfl | hother
          · exact hallowed _ hmem
          · exact ih (fun token hmem => hplain token (.tail _ hmem))
              (hvalues _ hmem) hrest other hother
      | null => cases hold
      | number _ => cases hold
      | array _ => cases hold

/-- Among the keys with a NUL there is one that no key extends. -/
theorem exists_last_cut {keys : List String} {key : String} (hkey : key ∈ keys)
    (hcut : '\x00' ∈ key.toList) :
    ∃ last ∈ keys, '\x00' ∈ last.toList ∧
      ∀ other ∈ keys, ¬ ProperPrefix (keyNames last) (keyNames other) := by
  obtain ⟨last, hlast, hmax⟩ := Finset.exists_max_image
    (keys.toFinset.filter fun key => '\x00' ∈ key.toList)
    (fun key => (keyNames key).length) ⟨key, by simp [hkey, hcut]⟩
  rw [Finset.mem_filter, List.mem_toFinset] at hlast
  refine ⟨last, hlast.1, hlast.2, ?_⟩
  intro other hother hbelow
  have hcutOther : '\x00' ∈ other.toList := by
    obtain ⟨name, hname, hmem⟩ := (mem_keyNames (by decide) last).mpr hlast.2
    exact (mem_keyNames (by decide) other).mp
      ⟨name, hbelow.1.subset hname, hmem⟩
  have hle := hmax other (by simp [hother, hcutOther])
  exact hbelow.2 (hbelow.1.eq_of_length_le hle)

theorem free_of_outputsHold {library : Library} {keys : List String}
    (hnodup : keys.Nodup) (hplain : ∀ key ∈ keys, PlainKey key)
    (houtputs : OutputsHold trimString library keys) : ∀ key ∈ keys, '\x00' ∉ key.toList := by
  intro key hkey hcut
  obtain ⟨last, hlast, hlastCut, hextends⟩ := exists_last_cut hkey hcut
  have hfst : (keys.map fun key => (key, Expr.dict [])).map Prod.fst = keys := by
    rw [List.map_map]
    exact List.map_id keys
  have hvalues : ∀ pair ∈ keys.map fun key => (key, Expr.dict []),
      pair.2.run library ⟨[], []⟩ = .ok (.object []) := by
    intro pair hpair
    obtain ⟨key, -, rfl⟩ := List.mem_map.mp hpair
    rfl
  obtain ⟨doc, hrun, hhold, -⟩ :=
    houtputs _ ⟨[], []⟩ (fun _ => .object []) hfst hvalues
  rw [run_ofPairs (fun _ => .object []) (hfst.symm ▸ hnodup) hvalues] at hrun
  have hdoc : doc.Built nulFree := by
    cases hrun
    split
    · exact .null
    · exact writeKey_built _ built_empty
  have hnames := built_get (hplain last hlast).tokens hdoc (hhold last hlast hextends)
  obtain ⟨name, hname, hmem⟩ := (mem_keyNames (by decide) last).mpr hlastCut
  apply hnames _ (List.mem_map_of_mem hname)
  rw [Token.ofName_name, String.toList_ofList]
  exact hmem

end Cut

/-- The pointer of a key ends at its first NUL, its depth does not. -/
theorem outputsHold_iff (htrims : Function.TrimsEnds trimString) (library : Library)
    (keys : List String)
    (hpaths : (keys.map normalizePath).Nodup)
    (hplain : ∀ key ∈ keys, PlainKey key) :
    OutputsHold trimString library keys ↔ ∀ key ∈ keys, '\x00' ∉ key.toList := by
  constructor
  · exact free_of_outputsHold hpaths.of_map hplain
  · intro hfree
    refine outputsHold_of_free htrims ?_ hplain hfree library
    rw [List.Nodup, List.pairwise_map] at hpaths ⊢
    exact hpaths.imp fun hne hnames => hne (normalizePath_of_keyNames hnames)

theorem outputsHold_nested :
    OutputsHold Function.trimBoth .bare ["a/b", "/a", ""] ↔
      ∀ key ∈ ["a/b", "/a", ""], '\x00' ∉ key.toList :=
  outputsHold_iff Function.trimBoth_trimsEnds .bare ["a/b", "/a", ""] (by decide)
    (by decide)

/-- The value of `a/d` is overwritten by that of a key that is cut to `a`. -/
theorem outputs_lost :
    ¬ ∀ trimString, Function.TrimsEnds trimString →
      ∀ (library : Library) (keys : List String), (keys.map normalizePath).Nodup →
        (∀ key ∈ keys, PlainKey key) → OutputsHold trimString library keys := by
  intro hall
  let pairs : List (String × Expr) :=
    [("a\x00/b/c", .integer 1), ("a/d", .integer 2)]
  obtain ⟨doc, hrun, hhold, -⟩ :=
    hall Function.trimBoth Function.trimBoth_trimsEnds .bare ["a\x00/b/c", "a/d"]
      (by decide) (by decide) pairs ⟨[], []⟩
      (fun key => .number (.int (if key = "a/d" then 2 else 1))) rfl (by decide)
  have hdoc : run .bare ⟨[], []⟩ (ofPairs Function.trimBoth pairs) =
      .ok (.object [("a", .number (.int 1))]) := by decide
  rw [hdoc] at hrun
  cases hrun
  have hfound := hhold "a/d" (by decide) (by decide)
  revert hfound
  decide

end KEMap

end Uskit
