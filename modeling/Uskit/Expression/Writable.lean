import Uskit.Expression.Literals
import Uskit.Expression.Print

namespace Uskit

open Uskit.Data Uskit.Grammar

/-! The expressions that some text is parsed to. -/

namespace Grammar.Rule

variable {α : Type u} {τ : Type v}

/-- Of the rules with the longest match the first acts. -/
theorem find?_of_best {rules : List (Rule α τ)} {text : List α} {length : Nat}
    {rule : Rule α τ} (hbest : best rules text = some (length, rule)) :
    rules.find? (fun other => other.pattern.accepts (text.take length)) = some rule := by
  induction rules with
  | nil => cases hbest
  | cons first rest ih =>
      have hrejects : ∀ {longer}, (∀ found, first.pattern.longest text = some found →
          found < longer) → longer ≤ text.length →
            first.pattern.accepts (text.take longer) = false := by
        intro longer hfound hbound
        rw [← Bool.not_eq_true, Regex.accepts_iff]
        intro hmatch
        cases hlongest : first.pattern.longest text with
        | none => exact Regex.longest_eq_none hlongest longer hmatch
        | some found =>
            exact (Regex.longest_eq_some hlongest).longer longer (hfound found hlongest) hbound
              hmatch
      rw [best] at hbest
      split at hbest
      · rename_i hlongest
        have hbound := (best_longest hbest).2.bound
        rw [List.find?_cons_of_neg, ih hbest]
        rw [hrejects (by simp [hlongest]) hbound]
        exact Bool.false_ne_true
      · rename_i hlongest _
        cases hbest
        exact List.find?_cons_of_pos
          (Regex.accepts_iff.mpr (Regex.longest_eq_some hlongest).matched)
      · rename_i hlongest hrest
        split at hbest
        · rename_i hless
          cases hbest
          have hbound := (best_longest hrest).2.bound
          rw [List.find?_cons_of_neg, ih hrest]
          rw [hrejects (by simpa [hlongest] using hless) hbound]
          exact Bool.false_ne_true
        · cases hbest
          exact List.find?_cons_of_pos
            (Regex.accepts_iff.mpr (Regex.longest_eq_some hlongest).matched)

end Grammar.Rule

namespace Expression.Lexer

/-- What is scanned was made of a part of the text, by the first rule that matches it. -/
theorem firstScanned_of_mem {text : List Char} {scanned : Scanned} (hmem : scanned ∈ scan text) :
    ∃ word, firstScanned word = some scanned ∧ word ⊆ text := by
  have hscans := Driver.scans text
  rw [Lexer.scan] at hmem hscans
  generalize Rule.scan rules text = list at hmem hscans
  induction hscans with
  | done => cases hmem
  | @next word rest rule scanned' hword hbest _ ih =>
      cases hmem with
      | head =>
          refine ⟨word, ?_, List.subset_append_left ..⟩
          have hfind := Rule.find?_of_best hbest
          rw [List.take_left] at hfind
          rw [firstScanned, hfind]
          rfl
      | tail _ hmem =>
          obtain ⟨other, hother, hsubset⟩ := ih hmem
          exact ⟨other, hother, List.Subset.trans hsubset (List.subset_append_right ..)⟩

/-- The rules whose tokens keep the text. -/
theorem pattern_of_action (word : List Char) (text : String) : ∀ rule ∈ rules,
    (rule.action word = .token (.identifier text) → rule.pattern = identifier ∧ yytext word = text) ∧
    (rule.action word = .token (.string text) → rule.pattern = string ∧ yytext word = text) ∧
    (rule.action word = .token (.integer text) → rule.pattern = integer ∧ yytext word = text) ∧
    (rule.action word = .token (.double text) → rule.pattern = double ∧ yytext word = text) := by
  simp [rules, markRule, textRule, spaceRule]

theorem exists_rule_of_firstScanned {word : List Char} {scanned : Scanned}
    (hfirst : firstScanned word = some scanned) :
    ∃ rule ∈ rules, word ∈ rule.pattern.language ∧ rule.action word = scanned := by
  obtain ⟨rule, hfind, haction⟩ := Option.map_eq_some_iff.mp hfirst
  have haccepts := List.find?_some hfind
  exact ⟨rule, List.mem_of_find?_eq_some hfind, Regex.accepts_iff.mp haccepts, haction⟩

theorem not_keyword_of_firstScanned {word : List Char} {text : String}
    (hfirst : firstScanned word = some (.token (.identifier text))) :
    String.ofList word ∉ ["null", "true", "false"] := by
  have hkeyword : ∀ kind : Mark, (Token.mark kind).word ≠ word := by
    rintro kind rfl
    rw [firstScanned_mark] at hfirst
    cases kind <;> cases hfirst
  intro hmem
  simp only [List.mem_cons, List.not_mem_nil, or_false] at hmem
  rcases hmem with hword | hword | hword
  · exact hkeyword .null (by rw [← String.toList_ofList (l := word), hword]; rfl)
  · exact hkeyword .true (by rw [← String.toList_ofList (l := word), hword]; rfl)
  · exact hkeyword .false (by rw [← String.toList_ofList (l := word), hword]; rfl)

/-- A word without NUL is the text of its token, and the token is read back from it. -/
theorem valid_of_firstScanned {word : List Char} {token : Token}
    (hfirst : firstScanned word = some (.token token)) (hfree : '\x00' ∉ word) :
    token.Valid ∧ Intact token := by
  obtain ⟨rule, hrule, hmatch, haction⟩ := exists_rule_of_firstScanned hfirst
  have hyytext : yytext word = String.ofList word := by
    rw [yytext]
    exact cStr_eq_self (by simpa using hfree)
  have hword : (yytext word).toList = word := by
    rw [hyytext, String.toList_ofList]
  cases token with
  | mark kind =>
      refine ⟨trivial, ?_⟩
      rintro rfl
      exact token_ne_or word rule hrule haction
  | identifier text =>
      obtain ⟨hpattern, rfl⟩ := (pattern_of_action word text rule hrule).1 haction
      refine ⟨⟨?_, ?_⟩, trivial⟩
      · rw [hword, ← hpattern]
        exact hmatch
      · rw [hyytext]
        exact not_keyword_of_firstScanned hfirst
  | string text =>
      obtain ⟨hpattern, rfl⟩ := (pattern_of_action word text rule hrule).2.1 haction
      rw [Token.Valid, Intact, hword, ← hpattern]
      exact ⟨hmatch, hfree⟩
  | integer text =>
      obtain ⟨hpattern, rfl⟩ := (pattern_of_action word text rule hrule).2.2.1 haction
      rw [Token.Valid, hword, ← hpattern]
      exact ⟨hmatch, trivial⟩
  | double text =>
      obtain ⟨hpattern, rfl⟩ := (pattern_of_action word text rule hrule).2.2.2 haction
      rw [Token.Valid, hword, ← hpattern]
      exact ⟨hmatch, trivial⟩

theorem valid_of_mem_tokens {text : List Char} (hfree : '\x00' ∉ text) {token : Token}
    (hmem : token ∈ tokens text) : token.Valid ∧ Intact token := by
  obtain ⟨scanned, hscanned, htoken⟩ := List.mem_filterMap.mp hmem
  obtain ⟨word, hfirst, hsubset⟩ := firstScanned_of_mem hscanned
  cases scanned with
  | token made =>
      cases htoken
      exact valid_of_firstScanned hfirst fun hnul => hfree (hsubset hnul)
  | space | error _ => cases htoken

theorem free_word {token : Token} (hvalid : token.Valid) (hintact : Intact token) :
    '\x00' ∉ token.word := by
  cases token with
  | mark kind => cases kind <;> decide
  | identifier text => exact fun hmem => Regex.not_mem_of_avoids (by decide) hvalid.1 hmem
  | string text => exact hintact
  | integer text => exact fun hmem => Regex.not_mem_of_avoids (by decide) hvalid hmem
  | double text => exact fun hmem => Regex.not_mem_of_avoids (by decide) hvalid hmem

theorem free_following {list : List Token} (hfree : ∀ token ∈ list, '\x00' ∉ token.word) :
    '\x00' ∉ following list := by
  induction list with
  | nil => exact List.not_mem_nil
  | cons token rest ih =>
      rw [List.forall_mem_cons] at hfree
      rw [following, List.mem_cons, List.mem_append, not_or, not_or]
      exact ⟨by decide, hfree.1, ih hfree.2⟩

theorem free_spaced {list : List Token} (hfree : ∀ token ∈ list, '\x00' ∉ token.word) :
    '\x00' ∉ spaced list := by
  cases list with
  | nil => exact List.not_mem_nil
  | cons token rest =>
      rw [List.forall_mem_cons] at hfree
      rw [spaced, List.mem_append, not_or]
      exact ⟨hfree.1, free_following hfree.2⟩

end Expression.Lexer

namespace Expr

open Expression

def IsName (name : String) : Prop :=
  (Token.identifier name).Valid

/-- The text can stand between quotes. -/
def Quotable (str : String) : Prop :=
  (Token.string (quoted str)).Valid ∧ '\x00' ∉ str.toList

/-- A numeral without a sign is read as the double. -/
def HasNumeral (runtime : Runtime) (value : Double) : Prop :=
  ∃ text, (Token.double text).Valid ∧ runtime.stod text = some value

mutual
/-- Names are identifiers, texts can be quoted, numbers have a numeral, no operator is `||`,
a table lists distinct keys as the runtime does, and at most one call is chained to a call. -/
def Writable (runtime : Runtime) : Expr → Prop
  | .null | .boolean _ => True
  | .integer value => value.natAbs < 2 ^ 31
  | .double value => HasNumeral runtime (magnitude value)
  | .string str => Quotable str
  | .array items => WritableItems runtime items
  | .dict entries => (∃ inserted, runtime.order inserted = entries) ∧
      (entries.map Prod.fst).Nodup ∧ WritableEntries runtime entries
  | .binary op lhs rhs => op ≠ .logicalOr ∧ Writable runtime lhs ∧ Writable runtime rhs
  | .ternary cond lhs rhs => Writable runtime cond ∧ Writable runtime lhs ∧ Writable runtime rhs
  | .not expr => Writable runtime expr
  | .call funcName args next => IsName funcName ∧ WritableItems runtime args ∧
      next.length ≤ 1 ∧ WritableLinks runtime next
  | .variable name => IsName name

def WritableItems (runtime : Runtime) : List Expr → Prop
  | [] => True
  | item :: rest => Writable runtime item ∧ WritableItems runtime rest

def WritableEntries (runtime : Runtime) : List (String × Expr) → Prop
  | [] => True
  | (key, expr) :: rest =>
      Quotable key ∧ Writable runtime expr ∧ WritableEntries runtime rest

def WritableLinks (runtime : Runtime) : List (String × List Expr) → Prop
  | [] => True
  | (funcName, args) :: rest =>
      IsName funcName ∧ WritableItems runtime args ∧ WritableLinks runtime rest
end

variable {runtime : Runtime}

theorem writableItems_iff {items : List Expr} :
    WritableItems runtime items ↔ ∀ item ∈ items, Writable runtime item := by
  induction items with
  | nil => simp [WritableItems]
  | cons item rest ih => rw [WritableItems, ih, List.forall_mem_cons]

theorem writableEntries_iff {entries : List (String × Expr)} :
    WritableEntries runtime entries ↔
      ∀ entry ∈ entries, Quotable entry.1 ∧ Writable runtime entry.2 := by
  induction entries with
  | nil => simp [WritableEntries]
  | cons entry rest ih => rw [WritableEntries, ih, List.forall_mem_cons, and_assoc]

end Expr

namespace Expression

open Uskit.Expr

/-! What is accepted is writable. -/

namespace Parser

variable {runtime : Runtime}

def Entry.Writable (runtime : Runtime) : Entry → Prop
  | .literal token => token.Valid ∧ Lexer.Intact token
  | .key text => (Token.string text).Valid ∧ Lexer.Intact (.string text)
  | .name text | .variable text => IsName text
  | .binary op => op ≠ .logicalOr
  | .program expr | .expr expr => expr.Writable runtime
  | .array items | .exprList items => WritableItems runtime items
  | .funcCall funcName args => IsName funcName ∧ WritableItems runtime args
  | .fluentInterface funcName args next => IsName funcName ∧ WritableItems runtime args ∧
      next.length ≤ 1 ∧ WritableLinks runtime next
  | .dict entries | .keyValueMap entries =>
      (entries.map Prod.fst).Nodup ∧ WritableEntries runtime entries
  | .keyValue key expr => Quotable key ∧ expr.Writable runtime
  | _ => True

theorem quoted_unquote {text : String} (hvalid : (Token.string text).Valid) :
    quoted (unquote text) = text := by
  obtain ⟨parts, -, htext⟩ := Lexer.mem_string hvalid
  rw [quoted, unquote, htext, ← String.toList_inj, htext]
  simp [Lexer.quote]

theorem quotable_unquote {text : String} (hvalid : (Token.string text).Valid)
    (hintact : Lexer.Intact (.string text)) : Quotable (unquote text) := by
  refine ⟨by rwa [quoted_unquote hvalid], fun hmem => hintact ?_⟩
  rw [unquote, String.toList_ofList] at hmem
  exact List.mem_of_mem_drop (List.mem_of_mem_take hmem)

theorem stoi_bounds {text : String} {value : Int} (hvalue : stoi text = some value) :
    0 ≤ value ∧ value < 2 ^ 31 := by
  unfold stoi at hvalue
  simp only at hvalue
  split at hvalue
  · cases hvalue
    omega
  · cases hvalue

theorem magnitude_neg {value : Double} (hpositive : value.negative = false) :
    magnitude value.neg = value := by
  have hnegative : value.neg.negative = true := by
    rw [Double.negative] at hpositive
    rw [Double.negative, Double.neg, BitVec.getLsbD_xor, hpositive]
    decide
  rw [magnitude, if_pos hnegative, neg_neg]

theorem magnitude_of_positive {value : Double} (hpositive : value.negative = false) :
    magnitude value = value := by
  rw [magnitude, hpositive, if_neg Bool.false_ne_true]

theorem writableEntries_emplace {entries : List (String × Expr)} {key : String} {expr : Expr}
    (hnodup : (entries.map Prod.fst).Nodup) (hentries : WritableEntries runtime entries)
    (hkey : Quotable key) (hexpr : expr.Writable runtime) :
    ((Members.emplace entries key expr).map Prod.fst).Nodup ∧
      WritableEntries runtime (Members.emplace entries key expr) := by
  unfold Members.emplace
  split
  · exact ⟨hnodup, hentries⟩
  · rename_i hfresh
    rw [Bool.not_eq_true, Option.isSome_eq_false_iff, Option.isNone_iff_eq_none,
      Members.lookup_eq_none] at hfresh
    refine ⟨Members.nodup_names_append_singleton hnodup hfresh expr, ?_⟩
    rw [writableEntries_iff] at hentries ⊢
    rw [List.forall_mem_append, List.forall_mem_singleton]
    exact ⟨hentries, hkey, hexpr⟩

variable (hsign : ∀ text value, (Token.double text).Valid → runtime.stod text = some value →
  value.negative = false)

include hsign

/-- By cases on the rule: each makes a writable entry of those that it takes. -/
theorem Reduction.writable {stack after : Stack} (hreduction : Reduction runtime stack after)
    (hstack : ∀ entry ∈ stack, Entry.Writable runtime entry) :
    ∀ entry ∈ after, Entry.Writable runtime entry := by
  cases hreduction <;> simp only [List.forall_mem_cons] at hstack ⊢
  case program | arrayExpr | call => exact hstack
  case binary => exact ⟨⟨hstack.2.1, hstack.2.2.1, hstack.1⟩, hstack.2.2.2⟩
  case ternary =>
    exact ⟨⟨hstack.2.2.2.2.1, hstack.2.2.1, hstack.1⟩, hstack.2.2.2.2.2⟩
  case group | array | dict => exact ⟨hstack.2.1, hstack.2.2.2⟩
  case not | «variable» => exact ⟨hstack.1, hstack.2.2⟩
  case nullLiteral | boolean | trueLiteral | falseLiteral => exact ⟨trivial, hstack.2⟩
  case noArguments | noItems => exact ⟨trivial, hstack⟩
  case firstArgument | firstItem => exact ⟨⟨hstack.1, trivial⟩, hstack.2⟩
  case noEntries => exact ⟨⟨List.nodup_nil, trivial⟩, hstack⟩
  case firstEntry =>
    exact ⟨⟨List.nodup_singleton _, hstack.1.1, hstack.1.2, trivial⟩, hstack.2⟩
  case nextEntry =>
    exact ⟨writableEntries_emplace hstack.2.2.1.1 hstack.2.2.1.2 hstack.1.1 hstack.1.2,
      hstack.2.2.2⟩
  case nextItem =>
    obtain ⟨hexpr, -, hitems, hbelow⟩ := hstack
    refine ⟨writableItems_iff.mpr ?_, hbelow⟩
    rw [List.forall_mem_append, List.forall_mem_singleton]
    exact ⟨writableItems_iff.mp hitems, hexpr⟩
  case dictExpr entries below =>
    obtain ⟨⟨hnodup, hentries⟩, hbelow⟩ := hstack
    have hperm := runtime.order_perm entries
    rw [writableEntries_iff] at hentries
    refine ⟨⟨⟨entries, rfl⟩, (hperm.map Prod.fst).nodup_iff.mpr hnodup, ?_⟩, hbelow⟩
    exact writableEntries_iff.mpr fun entry hmem => hentries entry (hperm.mem_iff.mp hmem)
  case fluentInterface =>
    exact ⟨⟨hstack.1.1, hstack.1.2, Nat.zero_le 1, trivial⟩, hstack.2⟩
  case setNext =>
    exact ⟨⟨hstack.2.2.1.1, hstack.2.2.1.2.1, Nat.le_refl 1, hstack.1.1, hstack.1.2, trivial⟩,
      hstack.2.2.2⟩
  case funcCall => exact ⟨⟨hstack.2.2.2.1, hstack.2.1⟩, hstack.2.2.2.2⟩
  case integer hvalue =>
    have hbounds := stoi_bounds hvalue
    refine ⟨?_, hstack.2⟩
    rw [Entry.Writable, Expr.Writable]
    omega
  case negativeInteger hvalue =>
    have hbounds := stoi_bounds hvalue
    refine ⟨?_, hstack.2.2⟩
    rw [Entry.Writable, Expr.Writable]
    omega
  case double text value below hvalue =>
    refine ⟨⟨text, hstack.1.1, ?_⟩, hstack.2⟩
    rw [magnitude_of_positive (hsign text value hstack.1.1 hvalue), hvalue]
  case negativeDouble text value below hvalue =>
    refine ⟨⟨text, hstack.1.1, ?_⟩, hstack.2.2⟩
    rw [magnitude_neg (hsign text value hstack.1.1 hvalue), hvalue]
  case string => exact ⟨quotable_unquote hstack.1.1 hstack.1.2, hstack.2⟩
  case keyValue =>
    exact ⟨⟨quotable_unquote hstack.2.2.1.1 hstack.2.2.1.2, hstack.1⟩, hstack.2.2.2⟩

omit hsign in
/-- The states that keep the text of a token keep that of the one that is shifted. -/
theorem shift_text {stack : Stack} {token : Token} {entry : Entry}
    (hshift : shift stack token = some entry) :
    match entry with
    | .literal other => other = token
    | .name text | .variable text => token = .identifier text
    | .key text => token = .string text
    | _ => True := by
  unfold shift at hshift
  split at hshift
  · unfold shiftOperand at hshift
    split at hshift <;> cases hshift <;> first | rfl | trivial
  · split at hshift
    case h_8 =>
      unfold shiftAfterExpr at hshift
      repeat' split at hshift
      all_goals cases hshift <;> trivial
    case h_10 =>
      unfold shiftInList at hshift
      split at hshift <;> cases hshift <;> trivial
    all_goals
      repeat' split at hshift
      all_goals cases hshift <;> first | rfl | trivial

omit hsign in
theorem shift_writable {stack : Stack} {token : Token} {entry : Entry}
    (hshift : shift stack token = some entry) (htoken : token.Valid ∧ Lexer.Intact token) :
    Entry.Writable runtime entry := by
  have htext := shift_text hshift
  have hsymbol := (shift_shifts hshift).symbol
  cases entry with
  | literal other =>
      obtain rfl : other = token := htext
      exact htoken
  | key text =>
      obtain rfl : token = .string text := htext
      exact htoken
  | name text | «variable» text =>
      obtain rfl : token = .identifier text := htext
      exact htoken.1
  | binary op =>
      have havoids : Entry.avoids .logicalOr (.binary op) = true := by
        apply shift_avoids hshift
        rintro rfl
        exact htoken.2 rfl
      rwa [Entry.avoids, bne_iff_ne] at havoids
  | program | expr | boolean | array | fluentInterface | funcCall | exprList
  | dict | keyValueMap | keyValue => cases hsymbol
  | _ => trivial

def State.Writable (runtime : Runtime) (state : State) : Prop :=
  (∀ entry ∈ state.stack, Entry.Writable runtime entry) ∧
    ∀ token ∈ state.input, token.Valid ∧ Lexer.Intact token

theorem writable_of_goesOn {state next : State} (hgoes : (turn runtime).GoesOn state next)
    (hwritable : State.Writable runtime state) : State.Writable runtime next := by
  obtain ⟨hstack, hinput⟩ := hwritable
  rcases goesOn_cases hgoes with
    ⟨hreduction, hsame⟩ | ⟨token, entry, hshift, htokens, hpushed⟩
  · exact ⟨hreduction.writable hsign hstack, hsame ▸ hinput⟩
  · rw [htokens, List.forall_mem_cons] at hinput
    refine ⟨?_, hinput.2⟩
    rw [hpushed, List.forall_mem_cons]
    exact ⟨shift_writable hshift hinput.1, hstack⟩

theorem writable_of_accepted {tokens : List Token} {expr : Expr}
    (haccepted : parse runtime tokens = .accepted expr)
    (htokens : ∀ token ∈ tokens, token.Valid ∧ Lexer.Intact token) : expr.Writable runtime := by
  obtain ⟨last, hreaches, hlast⟩ := parse_eq_iff.mp haccepted
  have hall : State.Writable runtime last := by
    clear hlast
    induction hreaches with
    | refl => exact ⟨List.forall_mem_nil _, htokens⟩
    | tail _ hstep ih => exact writable_of_goesOn hsign hstep ih
  rw [turn_accepted hlast] at hall
  exact hall.1 _ (.head _)

end Parser

/-! What is writable is accepted, with parentheses around every operator. -/

section Written

open Uskit.Expression.Parser

variable {runtime : Runtime}

/-- Tokens that a text can be made of. -/
def Legible (word : List Token) : Prop :=
  ∀ token ∈ word, token.Valid ∧ Lexer.Intact token

theorem Legible.append {first second : List Token} (hfirst : Legible first)
    (hsecond : Legible second) : Legible (first ++ second) :=
  List.forall_mem_append.mpr ⟨hfirst, hsecond⟩

theorem Legible.mark {kind : Mark} (hkind : kind ≠ .or) {word : List Token}
    (hword : Legible word) : Legible (.mark kind :: word) :=
  List.forall_mem_cons.mpr ⟨⟨trivial, hkind⟩, hword⟩

theorem legible_nil : Legible [] :=
  List.forall_mem_nil _

theorem Legible.identifier {name : String} (hname : IsName name) {word : List Token}
    (hword : Legible word) : Legible (.identifier name :: word) :=
  List.forall_mem_cons.mpr ⟨⟨hname, trivial⟩, hword⟩

theorem Legible.string {str : String} (hstr : Quotable str) {word : List Token}
    (hword : Legible word) : Legible (.string (quoted str) :: word) := by
  refine List.forall_mem_cons.mpr ⟨⟨hstr.1, ?_⟩, hword⟩
  simpa [Lexer.Intact, quoted] using hstr.2

theorem legible_integer (value : Nat) : Legible [.integer (toString value)] := by
  refine List.forall_mem_singleton.mpr ⟨Driver.mem_integer ?_ ?_, trivial⟩
  · rw [Nat.toString_eq_repr, Nat.toList_repr]
    exact Nat.toDigits_ne_nil
  · intro char hchar
    rw [Nat.toString_eq_repr, Nat.toList_repr] at hchar
    have hdigit := Nat.isDigit_of_mem_toDigits (by decide) (by decide) hchar
    rw [Char.isDigit_iff_toNat] at hdigit
    simp only [Lexer.isDigit, Bool.and_eq_true, decide_eq_true_eq, Char.le_def,
      UInt32.le_iff_toNat_le]
    exact hdigit

theorem Legible.enclosed {opening closing : Mark} (hopening : opening ≠ .or)
    (hclosing : closing ≠ .or) {word : List Token} (hword : Legible word) :
    Legible (.mark opening :: (word ++ [.mark closing])) :=
  .mark hopening (hword.append (.mark hclosing legible_nil))

/-- Legible tokens that are read as the expression, wherever it stands. -/
def Written (runtime : Runtime) (expr : Expr) : Prop :=
  ∃ word, Legible word ∧ RunsOperand runtime word expr

theorem exists_words {α : Type} {Reads : List Token → α → Prop} {list : List α}
    (hlist : ∀ value ∈ list, ∃ word, Legible word ∧ Reads word value) :
    ∃ words, (∀ word ∈ words, Legible word) ∧ List.Forall₂ Reads words list := by
  induction list with
  | nil => exact ⟨[], List.forall_mem_nil _, .nil⟩
  | cons value rest ih =>
      rw [List.forall_mem_cons] at hlist
      obtain ⟨word, hword, hreads⟩ := hlist.1
      obtain ⟨words, hwords, hrest⟩ := ih hlist.2
      exact ⟨word :: words, List.forall_mem_cons.mpr ⟨hword, hwords⟩, .cons hreads hrest⟩

theorem legible_commas {words : List (List Token)} (hwords : ∀ word ∈ words, Legible word) :
    Legible (commas words) := by
  cases words with
  | nil => exact legible_nil
  | cons word rest =>
      rw [List.forall_mem_cons] at hwords
      refine hwords.1.append fun token hmem => ?_
      obtain ⟨other, hother, htoken⟩ := List.mem_flatMap.mp hmem
      exact (hwords.2 other hother).mark (by decide) token htoken

theorem exists_items {items : List Expr} (hitems : ∀ item ∈ items, Written runtime item) :
    ∃ word, Legible word ∧ RunsItems runtime word items := by
  have hexprs : ∀ item ∈ items, ∃ word, Legible word ∧ RunsExpr runtime word item := by
    intro item hitem
    obtain ⟨word, hword, hruns⟩ := hitems item hitem
    exact ⟨word, hword, (hruns.runsAt 0).runsExpr⟩
  obtain ⟨words, hwords, hruns⟩ := exists_words hexprs
  exact ⟨commas words, legible_commas hwords, runsItems_commas hruns⟩

theorem exists_entries {entries : List (String × Expr)} (hnodup : (entries.map Prod.fst).Nodup)
    (hentries : ∀ entry ∈ entries, Quotable entry.1 ∧ Written runtime entry.2) :
    ∃ word, Legible word ∧ RunsEntries runtime word entries := by
  have hwords : ∀ entry ∈ entries, ∃ word, Legible word ∧ RunsEntry runtime word entry := by
    intro entry hentry
    obtain ⟨hkey, word, hword, hruns⟩ := hentries entry hentry
    exact ⟨_, .string hkey (hword.mark (by decide)), word, rfl, (hruns.runsAt 0).runsExpr⟩
  obtain ⟨words, hlegible, hruns⟩ := exists_words hwords
  exact ⟨commas words, legible_commas hlegible, runsEntries_commas hruns hnodup⟩

theorem written_integer {value : Int} (hvalue : value.natAbs < 2 ^ 31) :
    Written runtime (.integer value) := by
  refine ⟨_, ?_, runsOperand_printInteger hvalue⟩
  unfold printInteger
  split
  · exact (legible_integer _).mark (by decide)
  · exact legible_integer _

theorem written_double {value : Double} (hnumeral : HasNumeral runtime (magnitude value)) :
    Written runtime (.double value) := by
  obtain ⟨text, hvalid, hstod⟩ := hnumeral
  have hlegible : Legible [.double text] := List.forall_mem_singleton.mpr ⟨hvalid, trivial⟩
  have hruns : RunsOperand runtime (printDouble (fun _ => text) value) (.double value) :=
    runsOperand_printDouble hstod
  refine ⟨_, ?_, hruns⟩
  unfold printDouble
  split
  · exact hlegible.mark (by decide)
  · exact hlegible

theorem written_string {str : String} (hstr : Quotable str) : Written runtime (.string str) :=
  ⟨_, .string hstr legible_nil, runsOperand_string str⟩

theorem Written.group {word : List Token} {expr : Expr} (hword : Legible word)
    {least : Nat} (hruns : RunsAt runtime least word expr) : Written runtime expr :=
  ⟨_, hword.enclosed (by decide) (by decide), .group hruns.runsExpr⟩

theorem written_binary {op : BinaryOp} (hop : op ≠ .logicalOr) {lhs rhs : Expr}
    (hlhs : Written runtime lhs) (hrhs : Written runtime rhs) :
    Written runtime (.binary op lhs rhs) := by
  obtain ⟨left, hleft, hleftRuns⟩ := hlhs
  obtain ⟨right, hright, hrightRuns⟩ := hrhs
  have hmark : op.mark ≠ .or := by
    cases op <;> first | exact absurd rfl hop | nofun
  exact .group (hleft.append (hright.mark hmark))
    (runsAt_binary (hleftRuns.runsAt _) (hrightRuns.runsAt _) (Nat.le_refl _))

theorem written_ternary {cond lhs rhs : Expr} (hcond : Written runtime cond)
    (hlhs : Written runtime lhs) (hrhs : Written runtime rhs) :
    Written runtime (.ternary cond lhs rhs) := by
  obtain ⟨first, hfirst, hfirstRuns⟩ := hcond
  obtain ⟨middle, hmiddle, hmiddleRuns⟩ := hlhs
  obtain ⟨last, hlast, hlastRuns⟩ := hrhs
  exact .group
    (hfirst.append ((hmiddle.append (hlast.mark (by decide))).mark (by decide)))
    (runsAt_ternary (hfirstRuns.runsAt _) (hmiddleRuns.runsAt _) (hlastRuns.runsAt _)
      (Nat.le_refl _))

/-- A call, with the call that is chained to it. -/
theorem written_call {funcName : String} (hname : IsName funcName) {args : List Expr}
    (hargs : ∀ arg ∈ args, Written runtime arg) {next : List (String × List Expr)}
    (hnext : next.length ≤ 1)
    (hlinks : ∀ link ∈ next, IsName link.1 ∧ ∀ arg ∈ link.2, Written runtime arg) :
    Written runtime (.call funcName args next) := by
  obtain ⟨word, hword, hruns⟩ := exists_items hargs
  have hfirst : Legible (.identifier funcName :: .mark .leftPar :: (word ++ [.mark .rightPar])) :=
    .identifier hname (hword.enclosed (by decide) (by decide))
  cases next with
  | nil => exact ⟨_, hfirst, .call (.first funcName hruns)⟩
  | cons link rest =>
      obtain rfl : rest = [] := by
        cases rest with
        | nil => rfl
        | cons => simp at hnext
      obtain ⟨hlink, hlinkArgs⟩ := hlinks link (.head _)
      obtain ⟨more, hmore, hmoreRuns⟩ := exists_items hlinkArgs
      have hlegible :
          Legible (.identifier link.1 :: .mark .leftPar :: (more ++ [.mark .rightPar])) :=
        .identifier hlink (hmore.enclosed (by decide) (by decide))
      exact ⟨_, hfirst.append (.mark (by decide) hlegible),
        .call (.next (.first funcName hruns) link.1 hmoreRuns)⟩

mutual
theorem written_of_writable : ∀ expr : Expr, expr.Writable runtime → Written runtime expr
  | .null, _ => ⟨[.mark .null], .mark (by decide) legible_nil, .literal rfl fun _ _ => rfl⟩
  | .integer _, hvalue => written_integer hvalue
  | .double _, hvalue => written_double hvalue
  | .string _, hstr => written_string hstr
  | .boolean value, _ =>
      ⟨_, .mark (by cases value <;> decide) legible_nil, runsOperand_boolean value⟩
  | .array items, hitems => by
      obtain ⟨word, hword, hruns⟩ := exists_items (written_items items hitems)
      exact ⟨_, hword.enclosed (by decide) (by decide), .array hruns⟩
  | .dict entries, hentries => by
      obtain ⟨⟨inserted, hinserted⟩, hnodup, hwritable⟩ := hentries
      have hperm := runtime.order_perm inserted
      rw [hinserted] at hperm
      have hall := written_entries entries hwritable
      obtain ⟨word, hword, hruns⟩ := exists_entries ((hperm.map Prod.fst).nodup_iff.mp hnodup)
        fun entry hmem => hall entry (hperm.mem_iff.mpr hmem)
      have hoperand := RunsOperand.dict hruns
      rw [hinserted] at hoperand
      exact ⟨_, hword.enclosed (by decide) (by decide), hoperand⟩
  | .binary _ lhs rhs, hexpr =>
      written_binary hexpr.1 (written_of_writable lhs hexpr.2.1) (written_of_writable rhs hexpr.2.2)
  | .ternary cond lhs rhs, hexpr =>
      written_ternary (written_of_writable cond hexpr.1) (written_of_writable lhs hexpr.2.1)
        (written_of_writable rhs hexpr.2.2)
  | .not expr, hexpr => by
      obtain ⟨word, hword, hruns⟩ := written_of_writable expr hexpr
      exact ⟨_, hword.mark (by decide), .not hruns⟩
  | .call _ args next, hcall =>
      written_call hcall.1 (written_items args hcall.2.1) hcall.2.2.1
        (written_links next hcall.2.2.2)
  | .variable name, hname =>
      ⟨_, .mark (by decide) (.identifier hname legible_nil), .variable name⟩

theorem written_items : ∀ items : List Expr, WritableItems runtime items →
    ∀ item ∈ items, Written runtime item
  | [], _ => List.forall_mem_nil _
  | item :: rest, hitems => List.forall_mem_cons.mpr
      ⟨written_of_writable item hitems.1, written_items rest hitems.2⟩

theorem written_entries : ∀ entries : List (String × Expr), WritableEntries runtime entries →
    ∀ entry ∈ entries, Quotable entry.1 ∧ Written runtime entry.2
  | [], _ => List.forall_mem_nil _
  | (_, expr) :: rest, hentries => List.forall_mem_cons.mpr
      ⟨⟨hentries.1, written_of_writable expr hentries.2.1⟩, written_entries rest hentries.2.2⟩

theorem written_links : ∀ next : List (String × List Expr), WritableLinks runtime next →
    ∀ link ∈ next, IsName link.1 ∧ ∀ arg ∈ link.2, Written runtime arg
  | [], _ => List.forall_mem_nil _
  | (_, args) :: rest, hlinks => List.forall_mem_cons.mpr
      ⟨⟨hlinks.1, written_items args hlinks.2.1⟩, written_links rest hlinks.2.2⟩
end

end Written

/-- Some text is parsed to an expression exactly if the expression is writable. -/
theorem Driver.exists_text_iff_writable (runtime : Runtime)
    (hsign : ∀ text value, (Token.double text).Valid → runtime.stod text = some value →
      value.negative = false)
    (expr : Expr) :
    (∃ text, '\x00' ∉ text ∧ Driver.parse runtime text = .accepted expr) ↔
      expr.Writable runtime := by
  constructor
  · rintro ⟨text, hfree, haccepted⟩
    exact Parser.writable_of_accepted hsign haccepted fun token hmem =>
      Lexer.valid_of_mem_tokens hfree hmem
  · intro hwritable
    obtain ⟨word, hword, hruns⟩ := written_of_writable expr hwritable
    have htokens : Lexer.tokens (spaced word) = word :=
      (Lexer.tokens_spaced_eq_iff fun token hmem => (hword token hmem).1).mpr
        fun token hmem => (hword token hmem).2
    refine ⟨spaced word, Lexer.free_spaced fun token hmem =>
      Lexer.free_word (hword token hmem).1 (hword token hmem).2, ?_⟩
    rw [Driver.parse, htokens]
    exact Parser.accepted_of_runs (hruns.runsAt 0).runsExpr

/-- A `std::stod` that knows one numeral, with and without a sign. -/
def stodHalf (text : String) : Option Double :=
  if text = "1.5" then some ⟨0x3FF8000000000000⟩
  else if text = "-1.5" then some ⟨0xBFF8000000000000⟩
  else none

/-- The numerals of the lexer have no sign. -/
theorem stodHalf_positive (text : String) (value : Double) (hvalid : (Token.double text).Valid)
    (hvalue : stodHalf text = some value) : value.negative = false := by
  by_cases hplain : text = "1.5"
  · rw [stodHalf, if_pos hplain] at hvalue
    cases hvalue
    decide
  · by_cases hsigned : text = "-1.5"
    · subst hsigned
      exact absurd (Regex.accepts_iff.mpr hvalid) (by decide)
    · rw [stodHalf, if_neg hplain, if_neg hsigned] at hvalue
      cases hvalue

def halvesRuntime : Runtime :=
  { Runtime.plain with stod := stodHalf }

/-- A double is written with its sign, while no text is the least `int`. -/
theorem Driver.exists_text_iff_writable_least :
    (∃ text, '\x00' ∉ text ∧
      Driver.parse halvesRuntime text = .accepted (.double ⟨0xBFF8000000000000⟩)) ∧
    ¬ ∃ text, '\x00' ∉ text ∧
      Driver.parse halvesRuntime text = .accepted (.integer (-2 ^ 31)) := by
  have hiff := exists_text_iff_writable halvesRuntime stodHalf_positive
  constructor
  · rw [hiff, Expr.Writable]
    exact ⟨"1.5", Regex.accepts_iff.mp (by decide), by decide⟩
  · rw [hiff, Expr.Writable]
    decide

end Expression

end Uskit
