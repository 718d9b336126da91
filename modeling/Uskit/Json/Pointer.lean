import Uskit.Json.Value

namespace Uskit

open Uskit.Data

/-! JSON pointers of the vendored library, as a build without assertions runs
them: an invalid pointer has no tokens, so that setting a value through it
replaces the root. -/

structure Token where
  name : String
  /-- The array index, unless it is `kPointerInvalidIndex`. -/
  index : Option Nat
deriving DecidableEq, Repr

namespace Token

def isDigit (c : Char) : Bool :=
  '0' ≤ c && c ≤ '9'

/-- One digit of the conversion to `SizeType`, with its overflow check. -/
def pushDigit (n : Nat) (c : Char) : Option Nat :=
  let m := (n * 10 + (c.toNat - '0'.toNat)) % 2 ^ 32
  if m < n then none else some m

def looksLikeIndex (name : List Char) : Bool :=
  !name.isEmpty && name.all isDigit &&
    !(1 < name.length && name.head? == some '0')

def indexOf (name : List Char) : Option Nat :=
  if looksLikeIndex name then
    (name.foldlM pushDigit 0).filter (· != 2 ^ 32 - 1)
  else none

def ofName (name : List Char) : Token :=
  ⟨String.ofList name, indexOf name⟩

@[simp] theorem ofName_name (name : List Char) :
    (ofName name).name = String.ofList name := rfl

@[simp] theorem ofName_index (name : List Char) :
    (ofName name).index = indexOf name := rfl

end Token

namespace Pointer

/-- Reads the rest of a token into `name` and the tokens after it. -/
def scan (name : List Char) : List Char → Option (List Token)
  | [] => some [Token.ofName name]
  | '/' :: rest => (scan [] rest).map (Token.ofName name :: ·)
  | '~' :: '0' :: rest => scan (name ++ ['~']) rest
  | '~' :: '1' :: rest => scan (name ++ ['/']) rest
  | '~' :: _ => none
  | c :: rest => scan (name ++ [c]) rest

/-! What the tokens of a text are made of. -/

/-- A `~` that is followed neither by `0` nor by `1` is an error. -/
theorem scan_tilde {name rest : List Char}
    (hzero : ∀ more, rest = '0' :: more → False)
    (hone : ∀ more, rest = '1' :: more → False) :
    scan name ('~' :: rest) = none := by
  rw [scan]
  · exact hzero
  · exact hone

theorem scan_cons {c : Char} (hslash : c ≠ '/') (htilde : c ≠ '~')
    (name rest : List Char) : scan name (c :: rest) = scan (name ++ [c]) rest := by
  rw [scan]
  · exact hslash
  · intro _ hc
    exact absurd hc htilde
  · intro _ hc
    exact absurd hc htilde
  · exact htilde

theorem scan_append {plain : List Char} (hslash : '/' ∉ plain)
    (htilde : '~' ∉ plain) (name rest : List Char) :
    scan name (plain ++ rest) = scan (name ++ plain) rest := by
  induction plain generalizing name with
  | nil => rw [List.nil_append, List.append_nil]
  | cons c plain ih =>
      rw [List.mem_cons, not_or] at hslash htilde
      rw [List.cons_append, scan_cons (Ne.symm hslash.1) (Ne.symm htilde.1),
        ih hslash.2 htilde.2, List.append_assoc]
      rfl

theorem scan_plain {plain : List Char} (hslash : '/' ∉ plain)
    (htilde : '~' ∉ plain) : scan [] plain = some [Token.ofName plain] := by
  have hscan := scan_append hslash htilde [] []
  rw [List.append_nil, List.nil_append] at hscan
  rw [hscan, scan]

theorem scan_first_mem {name rest : List Char} {token : Token}
    {tokens : List Token} (hscan : scan name rest = some (token :: tokens)) :
    ∀ c ∈ token.name.toList,
      c ∈ name ∨ c ∈ rest ∧ c ≠ '/' ∨ '~' ∈ rest ∧ (c = '~' ∨ c = '/') := by
  induction name, rest using scan.induct generalizing tokens with
  | case1 name =>
      cases hscan
      intro c hc
      exact .inl (by simpa using hc)
  | case2 name rest ih =>
      obtain ⟨later, -, heq⟩ := Option.map_eq_some_iff.mp hscan
      cases heq
      intro c hc
      exact .inl (by simpa using hc)
  | case3 name rest ih =>
      intro c hc
      have htilde : '~' ∈ '~' :: '0' :: rest := List.mem_cons_self
      rcases ih hscan c hc with hname | ⟨hrest, hne⟩ | ⟨-, hesc⟩
      · cases List.mem_append.mp hname with
        | inl hold => exact .inl hold
        | inr hnew => exact .inr (.inr ⟨htilde, .inl (by simpa using hnew)⟩)
      · exact .inr (.inl ⟨.tail _ (.tail _ hrest), hne⟩)
      · exact .inr (.inr ⟨htilde, hesc⟩)
  | case4 name rest ih =>
      intro c hc
      have htilde : '~' ∈ '~' :: '1' :: rest := List.mem_cons_self
      rcases ih hscan c hc with hname | ⟨hrest, hne⟩ | ⟨-, hesc⟩
      · cases List.mem_append.mp hname with
        | inl hold => exact .inl hold
        | inr hnew => exact .inr (.inr ⟨htilde, .inr (by simpa using hnew)⟩)
      · exact .inr (.inl ⟨.tail _ (.tail _ hrest), hne⟩)
      · exact .inr (.inr ⟨htilde, hesc⟩)
  | case5 name rest hzero hone =>
      cases (scan_tilde hzero hone).symm.trans hscan
  | case6 name c rest hslash hzero hone htilde ih =>
      rw [scan_cons hslash htilde] at hscan
      intro d hd
      rcases ih hscan d hd with hname | ⟨hrest, hne⟩ | ⟨hrest, hesc⟩
      · cases List.mem_append.mp hname with
        | inl hold => exact .inl hold
        | inr hnew =>
            obtain rfl : d = c := by simpa using hnew
            exact .inr (.inl ⟨List.mem_cons_self, hslash⟩)
      · exact .inr (.inl ⟨.tail _ hrest, hne⟩)
      · exact .inr (.inr ⟨.tail _ hrest, hesc⟩)

theorem scan_first_length {name rest : List Char} {token : Token}
    {tokens : List Token} (hscan : scan name rest = some (token :: tokens)) :
    token.name.toList.length ≤ name.length + rest.length := by
  induction name, rest using scan.induct generalizing tokens with
  | case1 name =>
      cases hscan
      simp
  | case2 name rest ih =>
      obtain ⟨later, -, heq⟩ := Option.map_eq_some_iff.mp hscan
      cases heq
      simp
  | case3 name rest ih =>
      have hle := ih hscan
      simp only [List.length_append, List.length_cons, List.length_nil] at hle ⊢
      omega
  | case4 name rest ih =>
      have hle := ih hscan
      simp only [List.length_append, List.length_cons, List.length_nil] at hle ⊢
      omega
  | case5 name rest hzero hone =>
      cases (scan_tilde hzero hone).symm.trans hscan
  | case6 name c rest hslash hzero hone htilde ih =>
      rw [scan_cons hslash htilde] at hscan
      have hle := ih hscan
      simp only [List.length_append, List.length_cons, List.length_nil] at hle ⊢
      omega

/-- A token that contains `~` is shorter than the text it was read from. -/
theorem scan_first_length_lt {name rest : List Char} {token : Token}
    {tokens : List Token} (hscan : scan name rest = some (token :: tokens))
    (hname : '~' ∉ name) (htoken : '~' ∈ token.name.toList) :
    token.name.toList.length < name.length + rest.length := by
  induction name, rest using scan.induct generalizing tokens with
  | case1 name =>
      cases hscan
      simp [hname] at htoken
  | case2 name rest ih =>
      obtain ⟨later, -, heq⟩ := Option.map_eq_some_iff.mp hscan
      cases heq
      simp [hname] at htoken
  | case3 name rest ih =>
      have hle : token.name.toList.length ≤
          (name ++ ['~']).length + rest.length := scan_first_length hscan
      simp only [List.length_append, List.length_cons, List.length_nil] at hle ⊢
      omega
  | case4 name rest ih =>
      have hle : token.name.toList.length ≤
          (name ++ ['/']).length + rest.length := scan_first_length hscan
      simp only [List.length_append, List.length_cons, List.length_nil] at hle ⊢
      omega
  | case5 name rest hzero hone =>
      cases (scan_tilde hzero hone).symm.trans hscan
  | case6 name c rest hslash hzero hone htilde ih =>
      rw [scan_cons hslash htilde] at hscan
      have hfree : '~' ∉ name ++ [c] := by
        simp [hname, Ne.symm htilde]
      have hlt := ih hscan hfree
      simp only [List.length_append, List.length_cons, List.length_nil] at hlt ⊢
      omega

/-- `GenericPointer::Parse` on texts that are not URI fragments. -/
def parse (source : String) : Option (List Token) :=
  match source.toList with
  | [] => some []
  | '/' :: rest => scan [] rest
  | _ :: _ => none

def get : List Token → Json → Option Json
  | [], value => some value
  | token :: tokens, .object members =>
      (members.lookup token.name).bind (get tokens)
  | token :: tokens, .array elements =>
      (token.index.bind (elements[·]?)).bind (get tokens)
  | _ :: _, _ => none

/-- `Create` followed by the assignment of `value`. -/
def set (value : Json) : List Token → Json → Json
  | [], _ => value
  | token :: tokens, .object members =>
      match members.lookup token.name with
      | some old =>
          .object
            (Members.replaceFirst token.name (set value tokens old) members)
      | none =>
          .object (members ++ [(token.name, set value tokens .null)])
  | token :: tokens, .array elements =>
      if token.name = "-" then
        .array (elements ++ [set value tokens .null])
      else
        match token.index with
        | none => .object [(token.name, set value tokens .null)]
        | some index =>
            match elements[index]? with
            | some old => .array (elements.set index (set value tokens old))
            | none =>
                .array (elements ++
                  List.replicate (index - elements.length) .null ++
                  [set value tokens .null])
  | token :: tokens, _ =>
      match token.index with
      | none => .object [(token.name, set value tokens .null)]
      | some index =>
          .array (List.replicate index .null ++ [set value tokens .null])

end Pointer

/-- The path normalization of `json_set_value_by_path`. -/
def normalizePath (path : String) : String :=
  let normPath := if path.toList.head? = some '/' then path else "/" ++ path
  if normPath = "/" then "" else normPath

def pathTokens (path : String) : Option (List Token) :=
  Pointer.parse (cStr (normalizePath path))

/-- The document after the call, and whether the call returned 0. -/
def jsonSetValueByPath (path : String) (doc value : Json) : Json × Bool :=
  match pathTokens path with
  | some tokens => (Pointer.set value tokens doc, true)
  | none => (value, false)

end Uskit
