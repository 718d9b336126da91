import Uskit.Expression.ParserRuns
import Uskit.Expression.ParserSound

namespace Uskit.Expression

open Uskit.Data Uskit.Grammar

namespace Parser

/-! Every word of the grammar is accepted.  A word is read as operands with the
operators between them, without regard to precedence; the parser can always
bring the operands together. -/

inductive Category where
  | expr
  | operand
  | chain
  | items
  | entries

/-- Words of tokens, with their numerals in range. -/
inductive Reads (runtime : Runtime) : Category → List Token → Prop
  | operand {word : List Token} (hword : Reads runtime .operand word) :
      Reads runtime .expr word
  | binary {word rest : List Token} (op : BinaryOp)
      (hword : Reads runtime .operand word) (hrest : Reads runtime .expr rest) :
      Reads runtime .expr (word ++ .mark op.mark :: rest)
  | ternary {word middle rest : List Token}
      (hword : Reads runtime .operand word)
      (hmiddle : Reads runtime .expr middle) (hrest : Reads runtime .expr rest) :
      Reads runtime .expr
        (word ++ .mark .question :: (middle ++ .mark .colon :: rest))
  | not {word : List Token} (hword : Reads runtime .operand word) :
      Reads runtime .operand (.mark .not :: word)
  | group {word : List Token} (hword : Reads runtime .expr word) :
      Reads runtime .operand (.mark .leftPar :: (word ++ [.mark .rightPar]))
  | variable (text : String) :
      Reads runtime .operand [.mark .dollar, .identifier text]
  | null : Reads runtime .operand [.mark .null]
  | true : Reads runtime .operand [.mark .true]
  | false : Reads runtime .operand [.mark .false]
  | string (text : String) : Reads runtime .operand [.string text]
  | integer {text : String} {value : Int} (hvalue : stoi text = some value) :
      Reads runtime .operand [.integer text]
  | negativeInteger {text : String} {value : Int}
      (hvalue : stoi text = some value) :
      Reads runtime .operand [.mark .minus, .integer text]
  | double {text : String} {value : Double}
      (hvalue : runtime.stod text = some value) :
      Reads runtime .operand [.double text]
  | negativeDouble {text : String} {value : Double}
      (hvalue : runtime.stod text = some value) :
      Reads runtime .operand [.mark .minus, .double text]
  | array {word : List Token} (hword : Reads runtime .items word) :
      Reads runtime .operand (.mark .leftSquare :: (word ++ [.mark .rightSquare]))
  | dict {word : List Token} (hword : Reads runtime .entries word) :
      Reads runtime .operand (.mark .leftBrace :: (word ++ [.mark .rightBrace]))
  | call {word : List Token} (hword : Reads runtime .chain word) :
      Reads runtime .operand word
  | firstCall {word : List Token} (funcName : String)
      (hword : Reads runtime .items word) :
      Reads runtime .chain
        (.identifier funcName :: .mark .leftPar :: (word ++ [.mark .rightPar]))
  | nextCall {word args : List Token} (hword : Reads runtime .chain word)
      (funcName : String) (hargs : Reads runtime .items args) :
      Reads runtime .chain
        (word ++ .mark .dot :: .identifier funcName :: .mark .leftPar ::
          (args ++ [.mark .rightPar]))
  | noItems : Reads runtime .items []
  | firstItem {word : List Token} (hword : Reads runtime .expr word) :
      Reads runtime .items word
  | nextItem {word rest : List Token} (hword : Reads runtime .items word)
      (hrest : Reads runtime .expr rest) :
      Reads runtime .items (word ++ .mark .comma :: rest)
  | noEntries : Reads runtime .entries []
  | firstEntry {rest : List Token} (key : String)
      (hrest : Reads runtime .expr rest) :
      Reads runtime .entries (.string key :: .mark .colon :: rest)
  | nextEntry {word rest : List Token} (hword : Reads runtime .entries word)
      (key : String) (hrest : Reads runtime .expr rest) :
      Reads runtime .entries
        (word ++ .mark .comma :: .string key :: .mark .colon :: rest)

/-- The parser reads a word, with the same value wherever it stands. -/
def Completes (runtime : Runtime) : Category → List Token → Prop
  | .expr, word =>
      ∀ frames, ∃ expr, ∀ base rest, Base base → Ends rest →
        Runs runtime (framesStack frames base) (word ++ rest)
          (.expr expr :: base) rest
  | .operand, word => ∃ expr, RunsOperand runtime word expr
  | .chain, word =>
      ∃ funcName args next, RunsChain runtime word funcName args next
  | .items, word => ∃ items, RunsItems runtime word items
  | .entries, word => ∃ entries, RunsEntries runtime word entries

variable {runtime : Runtime}

theorem runsExpr_of_completes {word : List Token}
    (hword : Completes runtime .expr word) :
    ∃ expr, RunsExpr runtime word expr :=
  hword []

theorem completes_operand {word : List Token}
    (hword : Completes runtime .operand word) : Completes runtime .expr word := by
  obtain ⟨expr, hruns⟩ := hword
  intro frames
  refine ⟨closeAll frames expr, fun base rest hbase hends => ?_⟩
  obtain ⟨hcloses, hdot, -, -⟩ := hends.facts
  exact .trans (hruns _ rest (beforeExpr_framesStack frames hbase) hdot)
    (runs_closeAll frames expr base hcloses)

theorem completes_binary {word rest : List Token} (op : BinaryOp)
    (hword : Completes runtime .operand word)
    (hrest : Completes runtime .expr rest) :
    Completes runtime .expr (word ++ .mark op.mark :: rest) := by
  obtain ⟨lhs, hlhs⟩ := hword
  intro frames
  have hcontinues : continues (some (.mark op.mark)) = true := by
    cases op <;> rfl
  obtain ⟨outer, whole, entry, hentry, hcloses⟩ :=
    runs_closeTighter runtime op.mark hcontinues frames lhs
  have hbinary : entry = .binary op := by
    cases op <;> exact (Option.some.inj hentry).symm
  subst hbinary
  obtain ⟨expr, hruns⟩ := hrest (.binary op whole :: outer)
  refine ⟨expr, fun base after hbase hends => ?_⟩
  rw [List.append_assoc, List.cons_append]
  have hdot : (Token.mark op.mark :: (rest ++ after)).head? ≠
      some (.mark .dot) := by
    cases op <;> simp [BinaryOp.mark]
  refine .trans (hlhs _ _ (beforeExpr_framesStack frames hbase) hdot) ?_
  refine .trans (hcloses base (rest ++ after) hbase) ?_
  have hnext := hruns base after hbase hends
  rw [framesStack_cons] at hnext
  exact hnext

theorem completes_ternary {word middle rest : List Token}
    (hword : Completes runtime .operand word)
    (hmiddle : Completes runtime .expr middle)
    (hrest : Completes runtime .expr rest) :
    Completes runtime .expr
      (word ++ .mark .question :: (middle ++ .mark .colon :: rest)) := by
  obtain ⟨first, hfirst⟩ := hword
  intro frames
  obtain ⟨outer, cond, entry, hentry, hcloses⟩ :=
    runs_closeTighter runtime .question rfl frames first
  obtain rfl : .question = entry := Option.some.inj hentry
  obtain ⟨lhs, hlhs⟩ := runsExpr_of_completes hmiddle
  obtain ⟨expr, hruns⟩ := hrest (.ternary cond lhs :: outer)
  refine ⟨expr, fun base after hbase hends => ?_⟩
  rw [List.append_assoc, List.cons_append, List.append_assoc, List.cons_append]
  refine .trans (hfirst _ _ (beforeExpr_framesStack frames hbase) (by simp)) ?_
  refine .trans (hcloses base _ hbase) ?_
  refine .trans (hlhs (.question :: .expr cond :: framesStack outer base)
    (.mark .colon :: (rest ++ after)) (.question _) (.of_head _ (by simp))) ?_
  refine .trans (runs_shift rfl rfl) ?_
  have hnext := hruns base after hbase hends
  rw [framesStack_cons] at hnext
  exact hnext

theorem Reads.completes {category : Category} {word : List Token}
    (hreads : Reads runtime category word) : Completes runtime category word := by
  induction hreads with
  | operand _ ih => exact completes_operand ih
  | binary op _ _ ihword ihrest => exact completes_binary op ihword ihrest
  | ternary _ _ _ ihword ihmiddle ihrest =>
      exact completes_ternary ihword ihmiddle ihrest
  | not _ ih =>
      obtain ⟨expr, hruns⟩ := ih
      exact ⟨_, hruns.not⟩
  | group _ ih =>
      obtain ⟨expr, hruns⟩ := runsExpr_of_completes ih
      exact ⟨_, .group hruns⟩
  | «variable» text => exact ⟨_, .variable text⟩
  | null => exact ⟨.null, .literal rfl fun _ _ => rfl⟩
  | true => exact ⟨_, .boolean rfl fun _ => rfl⟩
  | false => exact ⟨_, .boolean rfl fun _ => rfl⟩
  | string text => exact ⟨.string (unquote text), .literal rfl fun _ _ => rfl⟩
  | integer hvalue => exact ⟨_, .integer hvalue⟩
  | negativeInteger hvalue => exact ⟨_, .negativeInteger hvalue⟩
  | double hvalue => exact ⟨_, .double hvalue⟩
  | negativeDouble hvalue => exact ⟨_, .negativeDouble hvalue⟩
  | array _ ih =>
      obtain ⟨items, hruns⟩ := ih
      exact ⟨_, .array hruns⟩
  | dict _ ih =>
      obtain ⟨entries, hruns⟩ := ih
      exact ⟨_, .dict hruns⟩
  | call _ ih =>
      obtain ⟨funcName, args, next, hruns⟩ := ih
      exact ⟨_, .call hruns⟩
  | firstCall funcName _ ih =>
      obtain ⟨args, hruns⟩ := ih
      exact ⟨_, _, _, .first funcName hruns⟩
  | nextCall _ funcName _ ihword ihargs =>
      obtain ⟨first, firstArgs, next, hfirst⟩ := ihword
      obtain ⟨args, hruns⟩ := ihargs
      exact ⟨_, _, _, hfirst.next funcName hruns⟩
  | noItems => exact ⟨_, .nil⟩
  | firstItem _ ih =>
      obtain ⟨expr, hruns⟩ := runsExpr_of_completes ih
      exact ⟨_, .first hruns⟩
  | nextItem _ _ ihword ihrest =>
      obtain ⟨items, hitems⟩ := ihword
      obtain ⟨expr, hruns⟩ := runsExpr_of_completes ihrest
      exact ⟨_, hitems.next hruns⟩
  | noEntries => exact ⟨_, .nil⟩
  | firstEntry key _ ih =>
      obtain ⟨expr, hruns⟩ := runsExpr_of_completes ih
      exact ⟨_, .first key hruns⟩
  | nextEntry _ key _ ihword ihrest =>
      obtain ⟨entries, hentries⟩ := ihword
      obtain ⟨expr, hruns⟩ := runsExpr_of_completes ihrest
      exact ⟨_, hentries.next key hruns⟩

/-! The words of the grammar are closed under its rules. -/

def InRange (runtime : Runtime) : Token → Prop
  | .integer text => (stoi text).isSome
  | .double text => (runtime.stod text).isSome
  | _ => True

theorem Reads.append_binary {word rest : List Token} (op : BinaryOp)
    (hword : Reads runtime .expr word) (hrest : Reads runtime .expr rest) :
    Reads runtime .expr (word ++ .mark op.mark :: rest) := by
  generalize hcategory : Category.expr = category at hword
  induction hword with
  | operand hword => exact .binary op hword hrest
  | binary other hword _ _ ih =>
      rw [List.append_assoc, List.cons_append]
      exact .binary other hword (ih rfl)
  | ternary hword hmiddle _ _ _ ih =>
      rw [List.append_assoc, List.cons_append, List.append_assoc,
        List.cons_append]
      exact .ternary hword hmiddle (ih rfl)
  | _ => cases hcategory

theorem Reads.append_ternary {word middle rest : List Token}
    (hword : Reads runtime .expr word) (hmiddle : Reads runtime .expr middle)
    (hrest : Reads runtime .expr rest) :
    Reads runtime .expr
      (word ++ .mark .question :: (middle ++ .mark .colon :: rest)) := by
  generalize hcategory : Category.expr = category at hword
  induction hword with
  | operand hword => exact .ternary hword hmiddle hrest
  | binary other hword _ _ ih =>
      rw [List.append_assoc, List.cons_append]
      exact .binary other hword (ih rfl)
  | ternary hword hinner _ _ _ ih =>
      rw [List.append_assoc, List.cons_append, List.append_assoc,
        List.cons_append]
      exact .ternary hword hinner (ih rfl)
  | _ => cases hcategory

theorem Reads.not_expr {word : List Token} (hword : Reads runtime .expr word) :
    Reads runtime .expr (.mark .not :: word) := by
  generalize hcategory : Category.expr = category at hword
  induction hword with
  | operand hword => exact .operand (.not hword)
  | binary op hword hrest => exact .binary op (.not hword) (hcategory ▸ hrest)
  | ternary hword hmiddle hrest =>
      exact .ternary (.not hword) (hcategory ▸ hmiddle) (hcategory ▸ hrest)
  | _ => cases hcategory

/-- The words of a nonterminal, if their numerals are in range. -/
def readWords (runtime : Runtime) (nonterminal : Nonterminal) : Language Token :=
  {word | (∀ token ∈ word, InRange runtime token) →
    match nonterminal with
    | .program | .expr => Reads runtime .expr word
    | .boolean | .array | .dict => Reads runtime .operand word
    | .fluentInterface => Reads runtime .chain word
    | .funcCall =>
        ∃ funcName args, Reads runtime .items args ∧
          word = .identifier funcName :: .mark .leftPar ::
            (args ++ [.mark .rightPar])
    | .exprList => Reads runtime .items word
    | .keyValueMap => Reads runtime .entries word
    | .keyValue =>
        ∃ key rest, Reads runtime .expr rest ∧
          word = .string key :: .mark .colon :: rest}

section Closed

variable {words : Nonterminal → Language Token} {form : List Grammar.Sym}
  {word : List Token}

abbrev tokenWords (words : Nonterminal → Language Token)
    (form : List Grammar.Sym) : Language Token :=
  formWords Token.terminal words form

theorem mem_sym {nonterminal : Nonterminal} :
    word ∈ tokenWords words (Grammar.sym nonterminal :: form) ↔
      ∃ first ∈ words nonterminal, ∃ rest ∈ tokenWords words form,
        word = first ++ rest := by
  rw [tokenWords, formWords_cons, Language.mem_mul]
  constructor
  · intro hreads
    obtain ⟨first, hfirst, rest, hrest, rfl⟩ := hreads
    exact ⟨first, hfirst, rest, hrest, rfl⟩
  · intro hreads
    obtain ⟨first, hfirst, rest, hrest, rfl⟩ := hreads
    exact ⟨first, hfirst, rest, hrest, rfl⟩

theorem mem_terminal {terminal : Terminal} :
    word ∈ tokenWords words (.terminal terminal :: form) ↔
      ∃ token, token.terminal = terminal ∧
        ∃ rest ∈ tokenWords words form, word = token :: rest := by
  rw [tokenWords, formWords_cons, Language.mem_mul]
  constructor
  · intro hreads
    obtain ⟨_, ⟨token, htoken, rfl⟩, rest, hrest, rfl⟩ := hreads
    exact ⟨token, htoken, rest, hrest, rfl⟩
  · intro hreads
    obtain ⟨token, htoken, rest, hrest, rfl⟩ := hreads
    exact ⟨[token], ⟨token, htoken, rfl⟩, rest, hrest, rfl⟩

theorem mem_mark {kind : Mark} :
    word ∈ tokenWords words (Grammar.mark kind :: form) ↔
      ∃ rest ∈ tokenWords words form, word = .mark kind :: rest := by
  rw [Grammar.mark, mem_terminal]
  constructor
  · intro hreads
    obtain ⟨token, htoken, rest, hrest, rfl⟩ := hreads
    cases token with
    | mark other =>
        obtain rfl := Terminal.mark.inj htoken
        exact ⟨rest, hrest, rfl⟩
    | identifier | string | integer | double => cases htoken
  · intro hreads
    obtain ⟨rest, hrest, rfl⟩ := hreads
    exact ⟨.mark kind, rfl, rest, hrest, rfl⟩

theorem of_mem_nil (hword : word ∈ tokenWords words []) : word = [] :=
  (Language.mem_one word).mp hword

theorem of_mem_text {terminal : Terminal} {make : String → Token}
    (hmake : ∀ token : Token, token.terminal = terminal → ∃ text, token = make text)
    (hword : word ∈ tokenWords words (.terminal terminal :: form)) :
    ∃ text, ∃ rest ∈ tokenWords words form, word = make text :: rest := by
  obtain ⟨token, htoken, rest, hrest, rfl⟩ := mem_terminal.mp hword
  obtain ⟨text, rfl⟩ := hmake token htoken
  exact ⟨text, rest, hrest, rfl⟩

theorem of_mem_single {nonterminal : Nonterminal}
    (hword : word ∈ tokenWords words [Grammar.sym nonterminal]) :
    word ∈ words nonterminal := by
  obtain ⟨first, hfirst, rest, hrest, rfl⟩ := mem_sym.mp hword
  obtain rfl := of_mem_nil hrest
  rw [List.append_nil]
  exact hfirst

theorem of_mem_singleText {terminal : Terminal} {make : String → Token}
    (hmake : ∀ token : Token, token.terminal = terminal → ∃ text, token = make text)
    (hword : word ∈ tokenWords words [.terminal terminal]) :
    ∃ text, word = [make text] := by
  obtain ⟨text, rest, hrest, rfl⟩ := of_mem_text hmake hword
  obtain rfl := of_mem_nil hrest
  exact ⟨text, rfl⟩

theorem of_mem_separated {separator : Mark} {left right : Nonterminal}
    (hword : word ∈ tokenWords words
      [Grammar.sym left, Grammar.mark separator, Grammar.sym right]) :
    ∃ first ∈ words left, ∃ second ∈ words right,
      word = first ++ .mark separator :: second := by
  obtain ⟨first, hfirst, after, hafter, rfl⟩ := mem_sym.mp hword
  obtain ⟨second, hsecond, rfl⟩ := mem_mark.mp hafter
  exact ⟨first, hfirst, second, of_mem_single hsecond, rfl⟩

theorem of_mem_enclosed {opening closing : Mark} {nonterminal : Nonterminal}
    (hword : word ∈ tokenWords words
      [Grammar.mark opening, Grammar.sym nonterminal, Grammar.mark closing]) :
    ∃ inner ∈ words nonterminal,
      word = .mark opening :: (inner ++ [.mark closing]) := by
  obtain ⟨after, hafter, rfl⟩ := mem_mark.mp hword
  obtain ⟨inner, hinner, last, hlast, rfl⟩ := mem_sym.mp hafter
  obtain ⟨rest, hrest, rfl⟩ := mem_mark.mp hlast
  obtain rfl := of_mem_nil hrest
  exact ⟨inner, hinner, rfl⟩

theorem identifier_of_terminal (token : Token)
    (hterminal : token.terminal = .identifier) :
    ∃ text, token = .identifier text := by
  cases token with
  | identifier text => exact ⟨text, rfl⟩
  | mark | string | integer | double => cases hterminal

theorem string_of_terminal (token : Token) (hterminal : token.terminal = .string) :
    ∃ text, token = .string text := by
  cases token with
  | string text => exact ⟨text, rfl⟩
  | mark | identifier | integer | double => cases hterminal

theorem integer_of_terminal (token : Token)
    (hterminal : token.terminal = .integer) : ∃ text, token = .integer text := by
  cases token with
  | integer text => exact ⟨text, rfl⟩
  | mark | identifier | string | double => cases hterminal

theorem double_of_terminal (token : Token) (hterminal : token.terminal = .double) :
    ∃ text, token = .double text := by
  cases token with
  | double text => exact ⟨text, rfl⟩
  | mark | identifier | string | integer => cases hterminal

/-- Every word of the right side of a rule is one of its left side. -/
def ClosedRule (runtime : Runtime) (production : Grammar.Production) : Prop :=
  ∀ word ∈ tokenWords (readWords runtime) production.output,
    word ∈ readWords runtime production.input

theorem closed_unit {left right : Nonterminal}
    (hreads : readWords runtime right ≤ readWords runtime left) :
    ClosedRule runtime ⟨left, [Grammar.sym right]⟩ :=
  fun _ hword => hreads (of_mem_single hword)

theorem closed_mark {kind : Mark} {left : Nonterminal}
    (hmark : [.mark kind] ∈ readWords runtime left) :
    ClosedRule runtime ⟨left, [Grammar.mark kind]⟩ := by
  intro word hword
  obtain ⟨rest, hrest, rfl⟩ := mem_mark.mp hword
  obtain rfl := of_mem_nil hrest
  exact hmark

theorem closed_binary (op : BinaryOp) :
    ClosedRule runtime (Grammar.binary op.mark) := by
  intro word hword hrange
  obtain ⟨lhs, hlhs, rhs, hrhs, rfl⟩ := of_mem_separated hword
  rw [List.forall_mem_append, List.forall_mem_cons] at hrange
  exact .append_binary op (hlhs hrange.1) (hrhs hrange.2.2)

theorem closed_ternary :
    ClosedRule runtime ⟨.expr, [Grammar.sym .expr, Grammar.mark .question,
      Grammar.sym .expr, Grammar.mark .colon, Grammar.sym .expr]⟩ := by
  intro word hword hrange
  obtain ⟨cond, hcond, after, hafter, rfl⟩ := mem_sym.mp hword
  obtain ⟨branches, hbranches, rfl⟩ := mem_mark.mp hafter
  obtain ⟨lhs, hlhs, rhs, hrhs, rfl⟩ := of_mem_separated hbranches
  rw [List.forall_mem_append, List.forall_mem_cons, List.forall_mem_append,
    List.forall_mem_cons] at hrange
  exact .append_ternary (hcond hrange.1) (hlhs hrange.2.2.1)
    (hrhs hrange.2.2.2.2)

theorem inRange_enclosed {inner : List Token} {opening closing : Mark}
    (hrange : ∀ token ∈ Token.mark opening :: (inner ++ [.mark closing]),
      InRange runtime token) : ∀ token ∈ inner, InRange runtime token := by
  rw [List.forall_mem_cons, List.forall_mem_append] at hrange
  exact hrange.2.1

theorem closed_group :
    ClosedRule runtime ⟨.expr, [Grammar.mark .leftPar, Grammar.sym .expr,
      Grammar.mark .rightPar]⟩ := by
  intro word hword hrange
  obtain ⟨inner, hinner, rfl⟩ := of_mem_enclosed hword
  exact .operand (.group (hinner (inRange_enclosed hrange)))

theorem closed_array :
    ClosedRule runtime ⟨.array, [Grammar.mark .leftSquare, Grammar.sym .exprList,
      Grammar.mark .rightSquare]⟩ := by
  intro word hword hrange
  obtain ⟨inner, hinner, rfl⟩ := of_mem_enclosed hword
  exact .array (hinner (inRange_enclosed hrange))

theorem closed_dict :
    ClosedRule runtime ⟨.dict, [Grammar.mark .leftBrace, Grammar.sym .keyValueMap,
      Grammar.mark .rightBrace]⟩ := by
  intro word hword hrange
  obtain ⟨inner, hinner, rfl⟩ := of_mem_enclosed hword
  exact .dict (hinner (inRange_enclosed hrange))

theorem closed_not :
    ClosedRule runtime ⟨.expr, [Grammar.mark .not, Grammar.sym .expr]⟩ := by
  intro word hword hrange
  obtain ⟨inner, hinner, rfl⟩ := mem_mark.mp hword
  rw [List.forall_mem_cons] at hrange
  exact .not_expr (of_mem_single hinner hrange.2)

theorem closed_variable :
    ClosedRule runtime ⟨.expr, [Grammar.mark .dollar, Grammar.identifier]⟩ := by
  intro word hword _
  obtain ⟨name, hname, rfl⟩ := mem_mark.mp hword
  obtain ⟨text, rfl⟩ := of_mem_singleText identifier_of_terminal hname
  exact .operand (.variable text)

theorem closed_string : ClosedRule runtime ⟨.expr, [Grammar.string]⟩ := by
  intro word hword _
  obtain ⟨text, rfl⟩ := of_mem_singleText string_of_terminal hword
  exact .operand (.string text)

theorem closed_integer : ClosedRule runtime ⟨.expr, [Grammar.integer]⟩ := by
  intro word hword hrange
  obtain ⟨text, rfl⟩ := of_mem_singleText integer_of_terminal hword
  obtain ⟨value, hvalue⟩ := Option.isSome_iff_exists.mp (hrange _ (.head _))
  exact .operand (.integer hvalue)

theorem closed_negativeInteger :
    ClosedRule runtime ⟨.expr, [Grammar.mark .minus, Grammar.integer]⟩ := by
  intro word hword hrange
  obtain ⟨numeral, hnumeral, rfl⟩ := mem_mark.mp hword
  obtain ⟨text, rfl⟩ := of_mem_singleText integer_of_terminal hnumeral
  obtain ⟨value, hvalue⟩ :=
    Option.isSome_iff_exists.mp (hrange _ (.tail _ (.head _)))
  exact .operand (.negativeInteger hvalue)

theorem closed_double : ClosedRule runtime ⟨.expr, [Grammar.double]⟩ := by
  intro word hword hrange
  obtain ⟨text, rfl⟩ := of_mem_singleText double_of_terminal hword
  obtain ⟨value, hvalue⟩ := Option.isSome_iff_exists.mp (hrange _ (.head _))
  exact .operand (.double hvalue)

theorem closed_negativeDouble :
    ClosedRule runtime ⟨.expr, [Grammar.mark .minus, Grammar.double]⟩ := by
  intro word hword hrange
  obtain ⟨numeral, hnumeral, rfl⟩ := mem_mark.mp hword
  obtain ⟨text, rfl⟩ := of_mem_singleText double_of_terminal hnumeral
  obtain ⟨value, hvalue⟩ :=
    Option.isSome_iff_exists.mp (hrange _ (.tail _ (.head _)))
  exact .operand (.negativeDouble hvalue)

theorem closed_firstCall :
    ClosedRule runtime ⟨.fluentInterface, [Grammar.sym .funcCall]⟩ := by
  apply closed_unit
  intro word hword hrange
  obtain ⟨funcName, args, hargs, rfl⟩ := hword hrange
  exact .firstCall funcName hargs

theorem closed_nextCall :
    ClosedRule runtime ⟨.fluentInterface, [Grammar.sym .fluentInterface,
      Grammar.mark .dot, Grammar.sym .funcCall]⟩ := by
  intro word hword hrange
  obtain ⟨first, hfirst, call, hcall, rfl⟩ := of_mem_separated hword
  rw [List.forall_mem_append, List.forall_mem_cons] at hrange
  obtain ⟨funcName, args, hargs, rfl⟩ := hcall hrange.2.2
  exact .nextCall (hfirst hrange.1) funcName hargs

theorem closed_funcCall :
    ClosedRule runtime ⟨.funcCall, [Grammar.identifier, Grammar.mark .leftPar,
      Grammar.sym .exprList, Grammar.mark .rightPar]⟩ := by
  intro word hword hrange
  obtain ⟨funcName, after, hafter, rfl⟩ := of_mem_text identifier_of_terminal hword
  obtain ⟨args, hargs, rfl⟩ := of_mem_enclosed hafter
  rw [List.forall_mem_cons] at hrange
  exact ⟨funcName, args, hargs (inRange_enclosed hrange.2), rfl⟩

theorem closed_noItems : ClosedRule runtime ⟨.exprList, []⟩ := by
  intro word hword _
  obtain rfl := of_mem_nil hword
  exact .noItems

theorem closed_nextItem :
    ClosedRule runtime ⟨.exprList, [Grammar.sym .exprList, Grammar.mark .comma,
      Grammar.sym .expr]⟩ := by
  intro word hword hrange
  obtain ⟨items, hitems, item, hitem, rfl⟩ := of_mem_separated hword
  rw [List.forall_mem_append, List.forall_mem_cons] at hrange
  exact .nextItem (hitems hrange.1) (hitem hrange.2.2)

theorem closed_noEntries : ClosedRule runtime ⟨.keyValueMap, []⟩ := by
  intro word hword _
  obtain rfl := of_mem_nil hword
  exact .noEntries

theorem closed_firstEntry :
    ClosedRule runtime ⟨.keyValueMap, [Grammar.sym .keyValue]⟩ := by
  apply closed_unit
  intro word hword hrange
  obtain ⟨key, rest, hrest, rfl⟩ := hword hrange
  exact .firstEntry key hrest

theorem closed_nextEntry :
    ClosedRule runtime ⟨.keyValueMap, [Grammar.sym .keyValueMap,
      Grammar.mark .comma, Grammar.sym .keyValue]⟩ := by
  intro word hword hrange
  obtain ⟨entries, hentries, entry, hentry, rfl⟩ := of_mem_separated hword
  rw [List.forall_mem_append, List.forall_mem_cons] at hrange
  obtain ⟨key, value, hvalue, rfl⟩ := hentry hrange.2.2
  exact .nextEntry (hentries hrange.1) key hvalue

theorem closed_keyValue :
    ClosedRule runtime ⟨.keyValue, [Grammar.string, Grammar.mark .colon,
      Grammar.sym .expr]⟩ := by
  intro word hword hrange
  obtain ⟨key, after, hafter, rfl⟩ := of_mem_text string_of_terminal hword
  obtain ⟨value, hvalue, rfl⟩ := mem_mark.mp hafter
  rw [List.forall_mem_cons, List.forall_mem_cons] at hrange
  exact ⟨key, value, of_mem_single hvalue hrange.2.2, rfl⟩

theorem closed_productions (runtime : Runtime) :
    ∀ production ∈ Grammar.productions, ClosedRule runtime production := by
  simp only [Grammar.productions, List.forall_mem_cons]
  exact ⟨closed_unit fun _ hword => hword, closed_binary .add, closed_binary .sub,
    closed_binary .mul, closed_binary .div, closed_binary .bitAnd,
    closed_binary .bitOr, closed_binary .logicalAnd, closed_binary .logicalOr,
    closed_binary .equal, closed_binary .notEqual, closed_binary .greater,
    closed_binary .less, closed_binary .greaterEq, closed_binary .lessEq,
    closed_ternary, closed_group, closed_not, closed_variable,
    closed_mark fun _ => .operand .null, closed_integer, closed_negativeInteger,
    closed_double, closed_negativeDouble, closed_string,
    closed_unit fun _ hword hrange => .operand (hword hrange),
    closed_unit fun _ hword hrange => .operand (hword hrange),
    closed_unit fun _ hword hrange => .operand (hword hrange),
    closed_unit fun _ hword hrange => .operand (.call (hword hrange)),
    closed_mark fun _ => .true, closed_mark fun _ => .false, closed_array,
    closed_firstCall, closed_nextCall, closed_funcCall, closed_noItems,
    closed_unit fun _ hword hrange => .firstItem (hword hrange), closed_nextItem,
    closed_dict, closed_noEntries, closed_firstEntry, closed_nextEntry,
    closed_keyValue, by simp⟩

end Closed

/-- What is derivable is read as an expression, with numerals in range. -/
theorem runsExpr_of_mem_language {tokens : List Token}
    (hrange : ∀ token ∈ tokens, InRange runtime token)
    (hword : tokens.map Token.terminal ∈ grammar.language) :
    ∃ expr, RunsExpr runtime tokens expr := by
  have hclosed : Closed grammar Token.terminal (readWords runtime) :=
    fun rule hrule =>
      closed_productions runtime rule (List.mem_toFinset.mp hrule)
  have hreads : Reads runtime .expr tokens := mem_of_closed hclosed hword hrange
  exact runsExpr_of_completes hreads.completes

def State.InRange (runtime : Runtime) (state : State) : Prop :=
  (∀ token ∈ state.input, Parser.InRange runtime token) ∧
    ∀ token, .literal token ∈ state.stack → Parser.InRange runtime token

theorem Reduction.inRange {stack after : Stack}
    (hreduction : Reduction runtime stack after)
    (hafter : ∀ token, .literal token ∈ after → Parser.InRange runtime token) :
    ∀ token, .literal token ∈ stack → Parser.InRange runtime token := by
  intro token hmem
  cases hreduction with
  | program expr => simp at hmem
  | integer text value below hvalue | negativeInteger text value below hvalue
  | double text value below hvalue | negativeDouble text value below hvalue =>
      simp only [List.mem_cons, Entry.literal.injEq, reduceCtorEq, false_or]
        at hmem hafter
      rcases hmem with rfl | hbelow
      · simp [InRange, hvalue]
      · exact hafter token hbelow
  | nullLiteral | trueLiteral | falseLiteral | string =>
      simp only [List.mem_cons, Entry.literal.injEq, reduceCtorEq, false_or]
        at hmem hafter
      rcases hmem with rfl | hbelow
      · trivial
      · exact hafter token hbelow
  | _ =>
      simp only [List.mem_cons, reduceCtorEq, false_or] at hmem hafter
      exact hafter token hmem

theorem inRange_of_goesOn {state next : State}
    (hgoes : (turn runtime).GoesOn state next)
    (hnext : State.InRange runtime next) : State.InRange runtime state := by
  obtain ⟨hinput, hstack⟩ := hnext
  rcases goesOn_cases hgoes with
    ⟨hreduction, hsame⟩ | ⟨token, entry, hshift, htoken, hpushed⟩
  · rw [hsame] at hinput
    exact ⟨hinput, hreduction.inRange hstack⟩
  · rw [hpushed] at hstack
    refine ⟨?_, fun other hmem => hstack other (.tail _ hmem)⟩
    rw [htoken, List.forall_mem_cons]
    refine ⟨?_, hinput⟩
    have hnumeral := (shift_shifts hshift).numeral
    cases token with
    | integer text | double text =>
        obtain rfl := hnumeral (by simp [Token.terminal])
        exact hstack _ (.head _)
    | mark | identifier | string => trivial

theorem inRange_of_returns {state : State} {expr : Expr}
    (hreturns : (turn runtime).Returns state (.accepted expr)) :
    State.InRange runtime state := by
  obtain ⟨last, hreaches, hlast⟩ := hreturns
  induction hreaches using Relation.ReflTransGen.head_induction_on with
  | refl =>
      rw [turn_accepted hlast]
      exact ⟨by simp, by simp⟩
  | head hstep _ ih => exact inRange_of_goesOn hstep ih

/-- What is accepted is read in the same way wherever it stands. -/
theorem runsExpr_of_accepted {tokens : List Token} {expr : Expr}
    (haccepted : parse runtime tokens = .accepted expr) :
    RunsExpr runtime tokens expr := by
  have hrange := (inRange_of_returns (parse_eq_iff.mp haccepted)).1
  obtain ⟨read, hruns⟩ :=
    runsExpr_of_mem_language hrange (mem_language_of_accepted haccepted)
  have hread := accepted_of_runs hruns
  rw [haccepted] at hread
  rwa [ParseResult.accepted.inj hread]

theorem accepted_iff {tokens : List Token}
    (hrange : ∀ token ∈ tokens, InRange runtime token) :
    (∃ expr, parse runtime tokens = .accepted expr) ↔
      tokens.map Token.terminal ∈ grammar.language := by
  constructor
  · intro haccepts
    obtain ⟨expr, haccepted⟩ := haccepts
    exact mem_language_of_accepted haccepted
  · intro hword
    obtain ⟨expr, hruns⟩ := runsExpr_of_mem_language hrange hword
    exact ⟨expr, accepted_of_runs hruns⟩

end Parser

end Uskit.Expression
