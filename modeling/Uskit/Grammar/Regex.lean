import Mathlib.Computability.Language

namespace Uskit.Grammar

/-! Regular expressions over classes of characters, and the longest prefix of a
text that one of them matches. -/

inductive Regex (α : Type u) where
  | nothing
  | empty
  | one (inClass : α → Bool)
  | seq (first second : Regex α)
  | alt (left right : Regex α)
  | star (body : Regex α)

namespace Regex

variable {α : Type u}

def language : Regex α → Language α
  | .nothing => 0
  | .empty => 1
  | .one inClass => {text | ∃ char, inClass char = true ∧ text = [char]}
  | .seq first second => first.language * second.language
  | .alt left right => left.language + right.language
  | .star body => KStar.kstar body.language

def nullable : Regex α → Bool
  | .nothing => false
  | .empty => true
  | .one _ => false
  | .seq first second => first.nullable && second.nullable
  | .alt left right => left.nullable || right.nullable
  | .star _ => true

def deriv (char : α) : Regex α → Regex α
  | .nothing => .nothing
  | .empty => .nothing
  | .one inClass => if inClass char then .empty else .nothing
  | .seq first second =>
      if first.nullable then
        .alt (.seq (deriv char first) second) (deriv char second)
      else .seq (deriv char first) second
  | .alt left right => .alt (deriv char left) (deriv char right)
  | .star body => .seq (deriv char body) (.star body)

def accepts (regex : Regex α) : List α → Bool
  | [] => regex.nullable
  | char :: text => (regex.deriv char).accepts text

/-- The length of the longest prefix that is matched. -/
def longest (regex : Regex α) : List α → Option Nat
  | [] => if regex.nullable then some 0 else none
  | char :: text =>
      match (regex.deriv char).longest text with
      | some length => some (length + 1)
      | none => if regex.nullable then some 0 else none

def literal [DecidableEq α] : List α → Regex α
  | [] => .empty
  | char :: text => .seq (.one (· == char)) (literal text)

def plus (regex : Regex α) : Regex α :=
  .seq regex (.star regex)

/-- No class of the expression contains the character. -/
def avoids (char : α) : Regex α → Bool
  | .nothing => true
  | .empty => true
  | .one inClass => !inClass char
  | .seq first second => first.avoids char && second.avoids char
  | .alt left right => left.avoids char && right.avoids char
  | .star body => body.avoids char

/-- A match may begin with the character. -/
def heads (char : α) : Regex α → Bool
  | .nothing => false
  | .empty => false
  | .one inClass => inClass char
  | .seq first second =>
      first.heads char || (first.nullable && second.heads char)
  | .alt left right => left.heads char || right.heads char
  | .star body => body.heads char

def isOne : Regex α → Bool
  | .one _ => true
  | _ => false

theorem nil_mem_language {regex : Regex α} :
    [] ∈ regex.language ↔ regex.nullable = true := by
  induction regex with
  | nothing => simp [language, nullable, Language.notMem_zero]
  | empty => simp [language, nullable]
  | one inClass =>
      constructor
      · intro hword
        obtain ⟨char, -, hnil⟩ := hword
        cases hnil
      · intro hnullable
        cases hnullable
  | seq first second ihfirst ihsecond =>
      rw [language, nullable, Bool.and_eq_true, ← ihfirst, ← ihsecond,
        Language.mem_mul]
      constructor
      · intro hword
        obtain ⟨left, hleft, right, hright, happend⟩ := hword
        obtain ⟨rfl, rfl⟩ := List.append_eq_nil_iff.mp happend
        exact ⟨hleft, hright⟩
      · intro hword
        obtain ⟨hleft, hright⟩ := hword
        exact ⟨[], hleft, [], hright, rfl⟩
  | alt left right ihleft ihright =>
      rw [language, nullable, Bool.or_eq_true, ← ihleft, ← ihright,
        Language.mem_add]
  | star body ih => simp [language, nullable, Language.nil_mem_kstar]

theorem mem_deriv_one {inClass : α → Bool} {char : α} {text : List α} :
    text ∈ ((Regex.one inClass).deriv char).language ↔
      char :: text ∈ (Regex.one inClass).language := by
  have hone : char :: text ∈ (Regex.one inClass).language ↔
      inClass char = true ∧ text = [] := by
    constructor
    · intro hword
      obtain ⟨other, hclass, heq⟩ := hword
      cases heq
      exact ⟨hclass, rfl⟩
    · intro hword
      obtain ⟨hclass, rfl⟩ := hword
      exact ⟨char, hclass, rfl⟩
  rw [hone, deriv]
  split
  · rename_i hclass
    simp [language, Language.mem_one, hclass]
  · rename_i hclass
    simp [language, Language.notMem_zero, hclass]

theorem cons_mem_mul {first second : Language α} {char : α} {text : List α} :
    char :: text ∈ first * second ↔
      (∃ left right, char :: left ∈ first ∧ right ∈ second ∧
        left ++ right = text) ∨ ([] ∈ first ∧ char :: text ∈ second) := by
  rw [Language.mem_mul]
  constructor
  · intro hword
    obtain ⟨left, hleft, right, hright, happend⟩ := hword
    cases left with
    | nil =>
        rw [List.nil_append] at happend
        exact .inr ⟨hleft, happend ▸ hright⟩
    | cons other left =>
        rw [List.cons_append, List.cons.injEq] at happend
        obtain ⟨rfl, happend⟩ := happend
        exact .inl ⟨left, right, hleft, hright, happend⟩
  · intro hword
    rcases hword with ⟨left, right, hleft, hright, happend⟩ | ⟨hleft, hright⟩
    · exact ⟨char :: left, hleft, right, hright, by rw [← happend]; rfl⟩
    · exact ⟨[], hleft, char :: text, hright, rfl⟩

theorem cons_mem_kstar {body : Language α} {char : α} {text : List α} :
    char :: text ∈ KStar.kstar body ↔
      ∃ left right, char :: left ∈ body ∧ right ∈ KStar.kstar body ∧
        left ++ right = text := by
  constructor
  · intro hstar
    obtain ⟨parts, hflatten, hparts⟩ := Language.mem_kstar_iff_exists_nonempty.mp hstar
    cases parts with
    | nil => cases hflatten
    | cons part rest =>
        obtain ⟨hpart, hnonempty⟩ := hparts part List.mem_cons_self
        cases part with
        | nil => exact absurd rfl hnonempty
        | cons other left =>
            rw [List.flatten_cons, List.cons_append, List.cons.injEq] at hflatten
            obtain ⟨rfl, hflatten⟩ := hflatten
            refine ⟨left, rest.flatten, hpart, ?_, hflatten.symm⟩
            exact Language.join_mem_kstar fun part hmem =>
              (hparts part (.tail _ hmem)).1
  · intro hword
    obtain ⟨left, right, hleft, hright, happend⟩ := hword
    obtain ⟨parts, rfl, hparts⟩ := Language.mem_kstar.mp hright
    apply Language.mem_kstar.mpr
    refine ⟨(char :: left) :: parts, by rw [← happend]; rfl, ?_⟩
    intro part hpart
    cases hpart with
    | head => exact hleft
    | tail _ hmem => exact hparts part hmem

theorem mem_deriv {regex : Regex α} {char : α} {text : List α} :
    text ∈ (regex.deriv char).language ↔ char :: text ∈ regex.language := by
  induction regex generalizing text with
  | nothing => simp [deriv, language, Language.notMem_zero]
  | empty => simp [deriv, language, Language.notMem_zero, Language.mem_one]
  | one inClass => exact mem_deriv_one
  | seq first second ihfirst ihsecond =>
      have hseq : text ∈ ((first.deriv char).seq second).language ↔
          ∃ left right, char :: left ∈ first.language ∧
            right ∈ second.language ∧ left ++ right = text := by
        rw [language, Language.mem_mul]
        constructor
        · intro hword
          obtain ⟨left, hleft, right, hright, happend⟩ := hword
          exact ⟨left, right, ihfirst.mp hleft, hright, happend⟩
        · intro hword
          obtain ⟨left, right, hleft, hright, happend⟩ := hword
          exact ⟨left, ihfirst.mpr hleft, right, hright, happend⟩
      rw [show (first.seq second).language =
        first.language * second.language from rfl, cons_mem_mul,
        nil_mem_language, deriv]
      split
      · rename_i hnullable
        rw [show ∀ other : Regex α, (((first.deriv char).seq second).alt
            other).language =
          ((first.deriv char).seq second).language + other.language
          from fun other => rfl, Language.mem_add, hseq, ihsecond]
        simp [hnullable]
      · rename_i hnullable
        rw [hseq]
        simp [hnullable]
  | alt left right ihleft ihright =>
      rw [deriv, language, language, Language.mem_add, Language.mem_add, ihleft,
        ihright]
  | star body ih =>
      rw [deriv, language, language, Language.mem_mul, cons_mem_kstar]
      constructor
      · intro hword
        obtain ⟨left, hleft, right, hright, happend⟩ := hword
        exact ⟨left, right, ih.mp hleft, hright, happend⟩
      · intro hword
        obtain ⟨left, right, hleft, hright, happend⟩ := hword
        exact ⟨left, ih.mpr hleft, right, hright, happend⟩

theorem accepts_iff {regex : Regex α} {text : List α} :
    regex.accepts text = true ↔ text ∈ regex.language := by
  induction text generalizing regex with
  | nil => rw [accepts, nil_mem_language]
  | cons char text ih => rw [accepts, ih, mem_deriv]

/-- A length is the longest: its prefix is matched, and no longer one is. -/
structure Longest (regex : Regex α) (text : List α) (length : Nat) : Prop where
  bound : length ≤ text.length
  matched : text.take length ∈ regex.language
  longer : ∀ other, length < other → other ≤ text.length →
    text.take other ∉ regex.language

theorem longest_eq_none {regex : Regex α} {text : List α}
    (hnone : regex.longest text = none) (length : Nat) :
    text.take length ∉ regex.language := by
  induction text generalizing regex length with
  | nil =>
      rw [longest] at hnone
      split at hnone
      · cases hnone
      · rename_i hnullable
        rw [List.take_nil, nil_mem_language]
        exact hnullable
  | cons char text ih =>
      rw [longest] at hnone
      split at hnone
      · cases hnone
      · rename_i hrest
        split at hnone
        · cases hnone
        · rename_i hnullable
          cases length with
          | zero =>
              rw [List.take_zero, nil_mem_language]
              exact hnullable
          | succ length =>
              rw [List.take_succ_cons, ← mem_deriv]
              exact ih hrest length

theorem longest_eq_some {regex : Regex α} {text : List α} {length : Nat}
    (hlongest : regex.longest text = some length) :
    regex.Longest text length := by
  induction text generalizing regex length with
  | nil =>
      rw [longest] at hlongest
      split at hlongest
      · rename_i hnullable
        cases hlongest
        refine ⟨le_refl _, nil_mem_language.mpr hnullable, ?_⟩
        intro other hother hbound
        exact absurd hbound (Nat.not_le_of_lt hother)
      · cases hlongest
  | cons char text ih =>
      rw [longest] at hlongest
      split at hlongest
      · rename_i rest hrest
        cases hlongest
        obtain ⟨hbound, hmatched, hlonger⟩ := ih hrest
        constructor
        · exact Nat.succ_le_succ hbound
        · rw [List.take_succ_cons, ← mem_deriv]
          exact hmatched
        · intro other hother hotherBound
          cases other with
          | zero => cases hother
          | succ other =>
              rw [List.take_succ_cons, ← mem_deriv]
              exact hlonger other (Nat.lt_of_succ_lt_succ hother)
                (Nat.le_of_succ_le_succ hotherBound)
      · rename_i hrest
        split at hlongest
        · rename_i hnullable
          cases hlongest
          refine ⟨Nat.zero_le _, nil_mem_language.mpr hnullable, ?_⟩
          intro other hother _
          cases other with
          | zero => cases hother
          | succ other =>
              rw [List.take_succ_cons, ← mem_deriv]
              exact longest_eq_none hrest other
        · cases hlongest

theorem Longest.unique {regex : Regex α} {text : List α} {first second : Nat}
    (hfirst : regex.Longest text first) (hsecond : regex.Longest text second) :
    first = second := by
  rcases Nat.lt_trichotomy first second with hless | heq | hgreater
  · exact absurd hsecond.matched (hfirst.longer second hless hsecond.bound)
  · exact heq
  · exact absurd hfirst.matched (hsecond.longer first hgreater hfirst.bound)

theorem longest_eq_some_iff {regex : Regex α} {text : List α} {length : Nat} :
    regex.longest text = some length ↔ regex.Longest text length := by
  constructor
  · exact longest_eq_some
  · intro hlongest
    cases hsome : regex.longest text with
    | none => exact absurd hlongest.matched (longest_eq_none hsome length)
    | some other => rw [(longest_eq_some hsome).unique hlongest]

theorem not_mem_of_avoids {regex : Regex α} {char : α}
    (havoids : regex.avoids char = true) {text : List α}
    (htext : text ∈ regex.language) : char ∉ text := by
  induction regex generalizing text with
  | nothing => exact absurd htext (Language.notMem_zero text)
  | empty =>
      rw [(Language.mem_one text).mp htext]
      exact List.not_mem_nil
  | one inClass =>
      obtain ⟨other, hclass, rfl⟩ := htext
      rw [List.mem_singleton]
      rintro rfl
      simp [avoids, hclass] at havoids
  | seq first second ihfirst ihsecond =>
      rw [avoids, Bool.and_eq_true] at havoids
      obtain ⟨left, hleft, right, hright, rfl⟩ := Language.mem_mul.mp htext
      rw [List.mem_append, not_or]
      exact ⟨ihfirst havoids.1 hleft, ihsecond havoids.2 hright⟩
  | alt left right ihleft ihright =>
      rw [avoids, Bool.and_eq_true] at havoids
      cases (Language.mem_add _ _ text).mp htext with
      | inl hleft => exact ihleft havoids.1 hleft
      | inr hright => exact ihright havoids.2 hright
  | star body ih =>
      obtain ⟨parts, rfl, hparts⟩ := Language.mem_kstar.mp htext
      rw [List.mem_flatten]
      intro hmem
      obtain ⟨part, hpart, hmem⟩ := hmem
      exact ih havoids (hparts part hpart) hmem

theorem heads_of_cons_mem {regex : Regex α} {char : α} {text : List α}
    (htext : char :: text ∈ regex.language) : regex.heads char = true := by
  induction regex generalizing text with
  | nothing => exact absurd htext (Language.notMem_zero _)
  | empty => cases (Language.mem_one _).mp htext
  | one inClass =>
      obtain ⟨other, hclass, heq⟩ := htext
      cases heq
      exact hclass
  | seq first second ihfirst ihsecond =>
      rw [heads, Bool.or_eq_true, Bool.and_eq_true]
      rcases cons_mem_mul.mp htext with
        ⟨left, right, hleft, -, -⟩ | ⟨hnil, hsecond⟩
      · exact .inl (ihfirst hleft)
      · exact .inr ⟨nil_mem_language.mp hnil, ihsecond hsecond⟩
  | alt left right ihleft ihright =>
      rw [heads, Bool.or_eq_true]
      exact ((Language.mem_add _ _ _).mp htext).imp ihleft ihright
  | star body ih =>
      obtain ⟨left, right, hleft, -, -⟩ := cons_mem_kstar.mp htext
      exact ih hleft

theorem length_of_isOne {regex : Regex α} (hone : regex.isOne = true)
    {text : List α} (htext : text ∈ regex.language) : text.length = 1 := by
  cases regex with
  | one inClass =>
      obtain ⟨char, -, rfl⟩ := htext
      rfl
  | nothing | empty | seq | alt | star => cases hone

theorem mem_literal [DecidableEq α] {word text : List α} :
    text ∈ (literal word).language ↔ text = word := by
  induction word generalizing text with
  | nil => exact Language.mem_one text
  | cons char word ih =>
      rw [literal, language, Language.mem_mul]
      constructor
      · intro hword
        obtain ⟨left, ⟨other, hchar, rfl⟩, right, hright, rfl⟩ := hword
        rw [beq_iff_eq] at hchar
        rw [hchar, ih.mp hright]
        rfl
      · rintro rfl
        exact ⟨[char], ⟨char, beq_self_eq_true char, rfl⟩, word, ih.mpr rfl, rfl⟩

end Regex

end Uskit.Grammar
