import Mathlib.Computability.ContextFreeGrammar
import Mathlib.Order.CompletePartialOrder

namespace Uskit.Grammar

/-! Languages for the symbols of a context-free grammar, and derivations read
from the bottom.  The words are of tokens, each of the kind of a terminal. -/

variable {σ τ ν : Type} {kind : σ → τ}

/-- The words of a symbol, given those of the nonterminals. -/
def symbolWords (kind : σ → τ) (words : ν → Language σ) :
    Symbol τ ν → Language σ
  | .terminal terminal => {word | ∃ token, kind token = terminal ∧ word = [token]}
  | .nonterminal nonterminal => words nonterminal

def formWords (kind : σ → τ) (words : ν → Language σ)
    (form : List (Symbol τ ν)) : Language σ :=
  (form.map (symbolWords kind words)).prod

@[simp] theorem formWords_nil (words : ν → Language σ) :
    formWords kind words [] = 1 := rfl

@[simp] theorem formWords_cons (words : ν → Language σ) (symbol : Symbol τ ν)
    (form : List (Symbol τ ν)) :
    formWords kind words (symbol :: form) =
      symbolWords kind words symbol * formWords kind words form := by
  rw [formWords, List.map_cons, List.prod_cons, formWords]

theorem formWords_append (words : ν → Language σ) (first second : List (Symbol τ ν)) :
    formWords kind words (first ++ second) =
      formWords kind words first * formWords kind words second := by
  rw [formWords, List.map_append, List.prod_append, formWords, formWords]

theorem mem_formWords_terminals (words : ν → Language σ) (word : List σ) :
    word ∈ formWords kind words ((word.map kind).map .terminal) := by
  induction word with
  | nil => exact Language.nil_mem_one
  | cons token word ih =>
      rw [List.map_cons, List.map_cons, formWords_cons]
      have htoken : [token] ∈ symbolWords kind words (.terminal (kind token)) :=
        ⟨token, rfl, rfl⟩
      exact Language.append_mem_mul htoken ih

section Closed

variable {grammar : ContextFreeGrammar τ}

/-- The words of every right side are words of its left side. -/
def Closed (grammar : ContextFreeGrammar τ) (kind : σ → τ)
    (words : grammar.NT → Language σ) : Prop :=
  ∀ rule ∈ grammar.rules, formWords kind words rule.output ≤ words rule.input

theorem formWords_of_produces {words : grammar.NT → Language σ}
    (hclosed : Closed grammar kind words) {first second : List (Symbol τ grammar.NT)}
    (hproduces : grammar.Produces first second) :
    formWords kind words second ≤ formWords kind words first := by
  obtain ⟨rule, hrule, hrewrites⟩ := hproduces
  obtain ⟨before, after, rfl, rfl⟩ := hrewrites.exists_parts
  rw [formWords_append, formWords_append, formWords_append, formWords_append,
    formWords_cons, formWords_nil, mul_one]
  exact mul_le_mul' (mul_le_mul' le_rfl (hclosed rule hrule)) le_rfl

theorem formWords_of_derives {words : grammar.NT → Language σ}
    (hclosed : Closed grammar kind words) {first second : List (Symbol τ grammar.NT)}
    (hderives : grammar.Derives first second) :
    formWords kind words second ≤ formWords kind words first := by
  induction hderives with
  | refl => exact le_rfl
  | tail _ hlast ih => exact (formWords_of_produces hclosed hlast).trans ih

/-- Languages that are closed under the rules have all derivable words. -/
theorem mem_of_closed {words : grammar.NT → Language σ}
    (hclosed : Closed grammar kind words) {word : List σ}
    (hword : word.map kind ∈ grammar.language) : word ∈ words grammar.initial := by
  have hmem := formWords_of_derives hclosed hword
    (mem_formWords_terminals words word)
  rw [formWords_cons, formWords_nil, mul_one] at hmem
  exact hmem

end Closed

theorem derives_of_rule {grammar : ContextFreeGrammar τ}
    {rule : ContextFreeRule τ grammar.NT} (hrule : rule ∈ grammar.rules)
    {start : List (Symbol τ grammar.NT)} {before after : List (Symbol τ grammar.NT)}
    (hderives : grammar.Derives start
      (before ++ .nonterminal rule.input :: after)) :
    grammar.Derives start (before ++ rule.output ++ after) := by
  apply hderives.trans_produces
  refine ⟨rule, hrule, ?_⟩
  have hrewrites := rule.rewrites_of_exists_parts before after
  rwa [List.append_assoc, List.singleton_append] at hrewrites

end Uskit.Grammar
