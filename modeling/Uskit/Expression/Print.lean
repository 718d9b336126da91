import Uskit.Expression.ParserRuns
import Uskit.Expression.ParserSound

namespace Uskit.Expression

/-! Expressions as tokens, with the parentheses that the declared precedences and
associativities require. -/

namespace Mark

/-- An operator that binds less than this needs parentheses to the left of the
given one. -/
def leftLeast (kind : Mark) : Nat :=
  if kind.associativity = some .left then kind.precedence
  else kind.precedence + 1

/-- An operator that binds less than this needs parentheses to the right of the
given one. -/
def rightLeast (kind : Mark) : Nat :=
  if kind.associativity = some .right then kind.precedence
  else kind.precedence + 1

theorem precedence_le_leftLeast (kind : Mark) :
    kind.precedence ≤ kind.leftLeast := by
  unfold leftLeast
  split <;> omega

theorem precedence_le_rightLeast (kind : Mark) :
    kind.precedence ≤ kind.rightLeast := by
  unfold rightLeast
  split <;> omega

theorem associativity_eq (kind : Mark) :
    kind.associativity = (precedences[kind.precedence]?).map Prod.fst := by
  cases kind <;> rfl

end Mark

def commas : List (List Token) → List Token
  | [] => []
  | word :: rest => word ++ rest.flatMap fun word => .mark .comma :: word

def parenthesized (needed : Bool) (word : List Token) : List Token :=
  if needed then .mark .leftPar :: (word ++ [.mark .rightPar]) else word

def quoted (str : String) : String :=
  "\x27" ++ str ++ "\x27"

def printInteger (value : Int) : List Token :=
  let numeral : Token := .integer (toString value.natAbs)
  if value < 0 then [.mark .minus, numeral] else [numeral]

def magnitude (value : Double) : Double :=
  if value.negative then value.neg else value

def printDouble (numeral : Double → String) (value : Double) : List Token :=
  if value.negative then [.mark .minus, .double (numeral (magnitude value))]
  else [.double (numeral (magnitude value))]

end Uskit.Expression

namespace Uskit.Expr

open Uskit.Expression

mutual
/-- The tokens of an expression where operators that bind less than `least` need
parentheses.  `numeral` writes a double without a sign. -/
def print (numeral : Double → String) (least : Nat) : Expr → List Expression.Token
  | .null => [.mark .null]
  | .integer value => printInteger value
  | .double value => printDouble numeral value
  | .string str => [.string (quoted str)]
  | .boolean value => [.mark (if value then .true else .false)]
  | .array items =>
      .mark .leftSquare ::
        (commas (printItems numeral items) ++ [.mark .rightSquare])
  | .dict entries =>
      .mark .leftBrace ::
        (commas (printEntries numeral entries) ++ [.mark .rightBrace])
  | .binary op lhs rhs =>
      parenthesized (op.mark.precedence < least)
        (print numeral op.mark.leftLeast lhs ++
          .mark op.mark :: print numeral op.mark.rightLeast rhs)
  | .ternary cond lhs rhs =>
      parenthesized (Mark.question.precedence < least)
        (print numeral Mark.question.leftLeast cond ++
          .mark .question :: (print numeral 0 lhs ++
            .mark .colon :: print numeral Mark.question.rightLeast rhs))
  | .not expr =>
      parenthesized (Mark.not.precedence < least)
        (.mark .not :: print numeral Mark.not.rightLeast expr)
  -- without the links that `.` chains to a call
  | .call funcName args _ =>
      .identifier funcName :: .mark .leftPar ::
        (commas (printItems numeral args) ++ [.mark .rightPar])
  | .variable name => [.mark .dollar, .identifier name]

def printItems (numeral : Double → String) : List Expr → List (List Expression.Token)
  | [] => []
  | item :: rest => print numeral 0 item :: printItems numeral rest

def printEntries (numeral : Double → String) :
    List (String × Expr) → List (List Expression.Token)
  | [] => []
  | (key, expr) :: rest =>
      (.string (quoted key) :: .mark .colon :: print numeral 0 expr) ::
        printEntries numeral rest
end

mutual
/-- Literals are in range, the keys of a table are distinct, and no call is
chained to another. -/
def Printable (stod : String → Option Double) (numeral : Double → String) :
    Expr → Prop
  | .integer value => value.natAbs < 2 ^ 31
  | .double value => stod (numeral (magnitude value)) = some (magnitude value)
  | .array items => PrintableItems stod numeral items
  | .dict entries =>
      (entries.map Prod.fst).Nodup ∧ PrintableEntries stod numeral entries
  | .binary _ lhs rhs => Printable stod numeral lhs ∧ Printable stod numeral rhs
  | .ternary cond lhs rhs =>
      Printable stod numeral cond ∧ Printable stod numeral lhs ∧
        Printable stod numeral rhs
  | .not expr => Printable stod numeral expr
  | .call _ args next => PrintableItems stod numeral args ∧ next = []
  | .null | .string _ | .boolean _ | .variable _ => True

def PrintableItems (stod : String → Option Double) (numeral : Double → String) :
    List Expr → Prop
  | [] => True
  | item :: rest =>
      Printable stod numeral item ∧ PrintableItems stod numeral rest

def PrintableEntries (stod : String → Option Double)
    (numeral : Double → String) : List (String × Expr) → Prop
  | [] => True
  | (_, expr) :: rest =>
      Printable stod numeral expr ∧ PrintableEntries stod numeral rest
end

mutual
/-- The expression with every table in the order in which it lists its entries
once they are inserted. -/
def ordered (order : List (String × Expr) → List (String × Expr)) : Expr → Expr
  | .array items => .array (orderedItems order items)
  | .dict entries => .dict (order (orderedEntries order entries))
  | .binary op lhs rhs => .binary op (ordered order lhs) (ordered order rhs)
  | .ternary cond lhs rhs =>
      .ternary (ordered order cond) (ordered order lhs) (ordered order rhs)
  | .not expr => .not (ordered order expr)
  | .call funcName args next =>
      .call funcName (orderedItems order args) (orderedNext order next)
  | .null => .null
  | .integer value => .integer value
  | .double value => .double value
  | .string str => .string str
  | .boolean value => .boolean value
  | .variable name => .variable name

def orderedItems (order : List (String × Expr) → List (String × Expr)) :
    List Expr → List Expr
  | [] => []
  | item :: rest => ordered order item :: orderedItems order rest

def orderedEntries (order : List (String × Expr) → List (String × Expr)) :
    List (String × Expr) → List (String × Expr)
  | [] => []
  | (key, expr) :: rest =>
      (key, ordered order expr) :: orderedEntries order rest

def orderedNext (order : List (String × Expr) → List (String × Expr)) :
    List (String × List Expr) → List (String × List Expr)
  | [] => []
  | (funcName, args) :: rest =>
      (funcName, orderedItems order args) :: orderedNext order rest
end

end Uskit.Expr

namespace Uskit.Expression

open Uskit.Data

namespace Parser

/-! The tokens of an expression are read as the expression. -/

variable {runtime : Runtime}

theorem reducesOver_of_leftLeast_le {rule kind : Mark}
    (hleast : kind.leftLeast ≤ rule.precedence) :
    rule.reducesOver kind = true := by
  unfold Mark.reducesOver
  rw [Bool.or_eq_true, decide_eq_true_eq]
  rcases Nat.eq_or_lt_of_le
    (Nat.le_trans kind.precedence_le_leftLeast hleast) with heq | hlt
  · right
    have hleft : kind.associativity = some .left := by
      by_contra hother
      rw [Mark.leftLeast, if_neg hother] at hleast
      omega
    have hrule : rule.associativity = some .left := by
      rw [Mark.associativity_eq, ← heq, ← Mark.associativity_eq, hleft]
    simp [heq, hrule]
  · exact .inl hlt

theorem reducesOver_of_rightLeast_le {rule kind : Mark}
    (hleast : rule.rightLeast ≤ kind.precedence) :
    rule.reducesOver kind = false := by
  unfold Mark.reducesOver
  have hle := Nat.le_trans rule.precedence_le_rightLeast hleast
  rw [Bool.or_eq_false_iff, decide_eq_false_iff_not, Nat.not_lt]
  refine ⟨hle, ?_⟩
  by_cases hright : rule.associativity = some .right
  · simp [hright]
  · rw [Mark.rightLeast, if_neg hright] at hleast
    have hne : kind.precedence ≠ rule.precedence := by omega
    simp [hne]

/-- Operators that bind at least so tight are shifted after an expression. -/
def Fits (least : Nat) (stack : Stack) : Prop :=
  beforeExpr stack = true ∧
    ∀ kind expr, continues (some (.mark kind)) = true → least ≤ kind.precedence →
      reduceExpr (some (.mark kind)) expr stack = .none

/-- Rules that bind at least so tight are reduced before these tokens. -/
def Stops (least : Nat) (rest : List Token) : Prop :=
  rest.head? ≠ some (.mark .dot) ∧
    ∀ rule, least ≤ Mark.precedence rule → shiftsOver rule rest.head? = false

theorem Fits.mono {least more : Nat} {stack : Stack} (hfits : Fits least stack)
    (hle : least ≤ more) : Fits more stack :=
  ⟨hfits.1, fun kind expr hcontinues hmore =>
    hfits.2 kind expr hcontinues (Nat.le_trans hle hmore)⟩

theorem Stops.mono {least more : Nat} {rest : List Token}
    (hstops : Stops least rest) (hle : least ≤ more) : Stops more rest :=
  ⟨hstops.1, fun rule hmore => hstops.2 rule (Nat.le_trans hle hmore)⟩

theorem Base.fits {stack : Stack} (hbase : Base stack) (least : Nat) :
    Fits least stack :=
  ⟨hbase.before, fun _ expr hcontinues _ => hbase.reduceExpr hcontinues expr⟩

theorem shiftsOver_of_not_continues {rule : Mark} {lookahead : Option Token}
    (hcontinues : continues lookahead = false) :
    shiftsOver rule lookahead = false := by
  unfold shiftsOver
  split
  · rw [hcontinues, Bool.false_and]
  · rfl

theorem Ends.stops {rest : List Token} (hends : Ends rest) (least : Nat) :
    Stops least rest :=
  ⟨hends.facts.2.1, fun _ _ => shiftsOver_of_not_continues hends.facts.1⟩

theorem shiftsOver_of_rightLeast_le {rule kind : Mark}
    (hcontinues : continues (some (.mark kind)) = true)
    (hleast : rule.rightLeast ≤ kind.precedence) :
    shiftsOver rule (some (.mark kind)) = true := by
  simp [shiftsOver, hcontinues, reducesOver_of_rightLeast_le hleast]

theorem fits_binary (op : BinaryOp) (lhs : Expr) {stack : Stack} :
    Fits op.mark.rightLeast (.binary op :: .expr lhs :: stack) := by
  refine ⟨rfl, fun kind expr hcontinues hleast => ?_⟩
  rw [reduceExpr, if_pos (shiftsOver_of_rightLeast_le hcontinues hleast)]

theorem fits_ternary (cond lhs : Expr) {stack : Stack} :
    Fits Mark.question.rightLeast
      (.colon :: .expr lhs :: .question :: .expr cond :: stack) := by
  refine ⟨rfl, fun kind expr hcontinues hleast => ?_⟩
  rw [reduceExpr, if_pos (shiftsOver_of_rightLeast_le hcontinues hleast)]

theorem fits_not (stack : Stack) : Fits Mark.not.rightLeast (.not :: stack) := by
  refine ⟨rfl, fun kind expr hcontinues hleast => ?_⟩
  rw [reduceExpr, if_pos (shiftsOver_of_rightLeast_le hcontinues hleast)]

theorem stops_operator {kind : Mark}
    (hcontinues : continues (some (.mark kind)) = true) (rest : List Token) :
    Stops kind.leftLeast (.mark kind :: rest) := by
  constructor
  · rintro ⟨⟩
    cases hcontinues
  · intro rule hleast
    simp [shiftsOver, reducesOver_of_leftLeast_le hleast]

/-- A word is read as an expression where operators that bind less than `least`
end it. -/
def RunsAt (runtime : Runtime) (least : Nat) (word : List Token) (expr : Expr) :
    Prop :=
  ∀ stack rest, Fits least stack → Stops least rest →
    Runs runtime stack (word ++ rest) (.expr expr :: stack) rest

theorem RunsOperand.runsAt {word : List Token} {expr : Expr}
    (hword : RunsOperand runtime word expr) (least : Nat) :
    RunsAt runtime least word expr :=
  fun stack rest hfits hstops => hword stack rest hfits.1 hstops.1

theorem RunsAt.runsExpr {word : List Token} {expr : Expr} {least : Nat}
    (hword : RunsAt runtime least word expr) : RunsExpr runtime word expr :=
  fun base rest hbase hends =>
    hword base rest (hbase.fits least) (hends.stops least)

theorem runsAt_parenthesized {word : List Token} {expr : Expr} {least : Nat}
    {rule : Mark}
    (hword : ∀ inner ≤ rule.precedence, RunsAt runtime inner word expr) :
    RunsAt runtime least (parenthesized (rule.precedence < least) word) expr := by
  unfold parenthesized
  split
  · exact (RunsOperand.group (hword 0 (Nat.zero_le _)).runsExpr).runsAt least
  · rename_i hneeded
    rw [decide_eq_true_eq, Nat.not_lt] at hneeded
    exact hword least hneeded

theorem runsAt_binary {left right : List Token} {op : BinaryOp} {lhs rhs : Expr}
    (hleft : RunsAt runtime op.mark.leftLeast left lhs)
    (hright : RunsAt runtime op.mark.rightLeast right rhs) {least : Nat}
    (hleast : least ≤ op.mark.precedence) :
    RunsAt runtime least (left ++ .mark op.mark :: right)
      (.binary op lhs rhs) := by
  intro stack rest hfits hstops
  have hcontinues : continues (some (.mark op.mark)) = true := by
    simp [continues]
  rw [List.append_assoc, List.cons_append]
  refine .trans (hleft stack _
    (hfits.mono (Nat.le_trans hleast op.mark.precedence_le_leftLeast))
    (stops_operator hcontinues _)) ?_
  have hshift : shift (.expr lhs :: stack) (.mark op.mark) =
      some (.binary op) := by
    cases op <;> rfl
  refine .trans (runs_shift (hfits.2 _ lhs hcontinues hleast) hshift) ?_
  refine .trans (hright _ rest (fits_binary op lhs)
    (hstops.mono (Nat.le_trans hleast op.mark.precedence_le_rightLeast))) ?_
  apply runs_reduceExpr
  simp [reduceExpr, hstops.2 op.mark hleast]

theorem runsAt_ternary {first middle last : List Token} {cond lhs rhs : Expr}
    (hfirst : RunsAt runtime Mark.question.leftLeast first cond)
    (hmiddle : RunsAt runtime 0 middle lhs)
    (hlast : RunsAt runtime Mark.question.rightLeast last rhs) {least : Nat}
    (hleast : least ≤ Mark.question.precedence) :
    RunsAt runtime least
      (first ++ .mark .question :: (middle ++ .mark .colon :: last))
      (.ternary cond lhs rhs) := by
  intro stack rest hfits hstops
  rw [List.append_assoc, List.cons_append, List.append_assoc, List.cons_append]
  refine .trans (hfirst stack _
    (hfits.mono (Nat.le_trans hleast (Mark.precedence_le_leftLeast _)))
    (stops_operator rfl _)) ?_
  refine .trans (runs_shift (hfits.2 _ cond rfl hleast) rfl) ?_
  refine .trans (hmiddle.runsExpr _ _ (.question _) (.of_head _ (by simp))) ?_
  refine .trans (runs_shift rfl rfl) ?_
  refine .trans (hlast _ rest (fits_ternary cond lhs)
    (hstops.mono (Nat.le_trans hleast (Mark.precedence_le_rightLeast _)))) ?_
  apply runs_reduceExpr
  simp [reduceExpr, hstops.2 .question hleast]

theorem runsAt_not {word : List Token} {expr : Expr}
    (hword : RunsAt runtime Mark.not.rightLeast word expr) {least : Nat}
    (hleast : least ≤ Mark.not.precedence) :
    RunsAt runtime least (.mark .not :: word) (.not expr) := by
  intro stack rest hfits hstops
  refine .trans (runs_operand hfits.1 rfl) ?_
  refine .trans (hword (.not :: stack) rest (fits_not stack)
    (hstops.mono (Nat.le_trans hleast (Mark.precedence_le_rightLeast _)))) ?_
  apply runs_reduceExpr
  simp [reduceExpr, hstops.2 .not hleast]

/-! Literals. -/

theorem stoi_toString {value : Nat} (hvalue : value < 2 ^ 31) :
    stoi (toString value) = some (value : Int) := by
  have hdigits : digitsValue (toString value).toList = value := by
    rw [Nat.toString_eq_repr, Nat.toList_repr, digitsValue,
      ← Nat.ofDigitChars_eq_foldl,
      Nat.ofDigitChars_toDigits (by decide) (by decide)]
  rw [stoi, hdigits, if_pos hvalue]

theorem neg_neg (value : Double) : value.neg.neg = value := by
  rw [Double.neg, Double.neg, BitVec.xor_assoc, BitVec.xor_self, BitVec.xor_zero]

theorem unquote_quoted (str : String) : unquote (quoted str) = str := by
  simp [unquote, quoted]

theorem runsOperand_printInteger {value : Int} (hvalue : value.natAbs < 2 ^ 31) :
    RunsOperand runtime (printInteger value) (.integer value) := by
  have hstoi := stoi_toString hvalue
  unfold printInteger
  split
  · rename_i hnegative
    have hsign : -(value.natAbs : Int) = value := by omega
    have hruns : RunsOperand runtime _ _ := .negativeInteger hstoi
    rwa [hsign] at hruns
  · rename_i hpositive
    have hsign : (value.natAbs : Int) = value := by omega
    have hruns : RunsOperand runtime _ _ := .integer hstoi
    rwa [hsign] at hruns

theorem runsOperand_printDouble {numeral : Double → String} {value : Double}
    (hvalue : runtime.stod (numeral (magnitude value)) = some (magnitude value)) :
    RunsOperand runtime (printDouble numeral value) (.double value) := by
  unfold printDouble
  split
  · rename_i hnegative
    have hsign : (magnitude value).neg = value := by
      rw [magnitude, if_pos hnegative, neg_neg]
    have hruns := RunsOperand.negativeDouble hvalue
    rwa [hsign] at hruns
  · rename_i hpositive
    have hsign : magnitude value = value := if_neg hpositive
    have hruns := RunsOperand.double hvalue
    rwa [congrArg Expr.double hsign] at hruns

theorem runsOperand_string (str : String) :
    RunsOperand runtime [.string (quoted str)] (.string str) := by
  apply RunsOperand.literal rfl
  intro stack _
  rw [reduceLiteral, unquote_quoted]

theorem runsOperand_boolean (value : Bool) :
    RunsOperand runtime [.mark (if value then .true else .false)]
      (.boolean value) := by
  cases value
  · exact .boolean rfl fun _ => rfl
  · exact .boolean rfl fun _ => rfl

/-! Lists. -/

theorem runsItems_append {word : List Token} {items : List Expr}
    (hword : RunsItems runtime word items) {words : List (List Token)}
    {exprs : List Expr} (hwords : List.Forall₂ (RunsExpr runtime) words exprs) :
    RunsItems runtime
      (word ++ words.flatMap fun word => .mark .comma :: word)
      (items ++ exprs) := by
  induction hwords generalizing word items with
  | nil => simpa using hword
  | cons hnext _ ih => simpa using ih (hword.next hnext)

theorem runsItems_commas {words : List (List Token)} {exprs : List Expr}
    (hwords : List.Forall₂ (RunsExpr runtime) words exprs) :
    RunsItems runtime (commas words) exprs := by
  cases hwords with
  | nil => exact .nil
  | cons hfirst hrest => exact runsItems_append (.first hfirst) hrest

def RunsEntry (runtime : Runtime) (word : List Token) (entry : String × Expr) :
    Prop :=
  ∃ rest, word = .string (quoted entry.1) :: .mark .colon :: rest ∧
    RunsExpr runtime rest entry.2

theorem emplace_of_not_mem {entries : List (String × Expr)} {key : String}
    (hkey : key ∉ entries.map Prod.fst) (expr : Expr) :
    Members.emplace entries key expr = entries ++ [(key, expr)] := by
  rw [Members.emplace, Members.lookup_eq_none.mpr hkey]
  rfl

theorem runsEntries_append {word : List Token} {entries : List (String × Expr)}
    (hword : RunsEntries runtime word entries) {words : List (List Token)}
    {more : List (String × Expr)}
    (hwords : List.Forall₂ (RunsEntry runtime) words more)
    (hnodup : ((entries ++ more).map Prod.fst).Nodup) :
    RunsEntries runtime
      (word ++ words.flatMap fun word => .mark .comma :: word)
      (entries ++ more) := by
  induction hwords generalizing word entries with
  | nil => simpa using hword
  | @cons _ entry _ _ hnext _ ih =>
      obtain ⟨rest, rfl, hrest⟩ := hnext
      have hfresh : entry.1 ∉ entries.map Prod.fst := by
        rw [List.map_append, List.map_cons, List.nodup_append] at hnodup
        intro hmem
        exact hnodup.2.2 _ hmem _ (.head _) rfl
      have hentries := hword.next (quoted entry.1) hrest
      rw [unquote_quoted, emplace_of_not_mem hfresh] at hentries
      simpa using ih hentries (by simpa using hnodup)

theorem runsEntries_commas {words : List (List Token)}
    {entries : List (String × Expr)}
    (hwords : List.Forall₂ (RunsEntry runtime) words entries)
    (hnodup : (entries.map Prod.fst).Nodup) :
    RunsEntries runtime (commas words) entries := by
  cases hwords with
  | nil => exact .nil
  | @cons _ entry _ _ hfirst hrest =>
      obtain ⟨rest, rfl, hexpr⟩ := hfirst
      have hentry := RunsEntries.first (quoted entry.1) hexpr
      rw [unquote_quoted] at hentry
      exact runsEntries_append hentry hrest hnodup

theorem keys_orderedEntries (order : List (String × Expr) → List (String × Expr))
    (entries : List (String × Expr)) :
    (Expr.orderedEntries order entries).map Prod.fst =
      entries.map Prod.fst := by
  induction entries with
  | nil => rfl
  | cons entry rest ih => simp [Expr.orderedEntries, ih]

mutual
theorem runsAt_print {numeral : Double → String} :
    ∀ expr : Expr, expr.Printable runtime.stod numeral → ∀ least : Nat,
      RunsAt runtime least (expr.print numeral least)
        (expr.ordered runtime.order)
  | .null, _, least =>
      (RunsOperand.literal rfl fun _ _ => rfl : RunsOperand runtime _ _).runsAt least
  | .integer value, hprintable, least =>
      (runsOperand_printInteger hprintable).runsAt least
  | .double value, hprintable, least =>
      (runsOperand_printDouble hprintable).runsAt least
  | .string str, _, least => (runsOperand_string str).runsAt least
  | .boolean value, _, least => (runsOperand_boolean value).runsAt least
  | .array items, hprintable, least =>
      (RunsOperand.array (runsItems_commas (runsExpr_items hprintable))).runsAt
        least
  | .dict entries, hprintable, least =>
      (RunsOperand.dict (runsEntries_commas (runsEntry_entries hprintable.2)
        (by rw [keys_orderedEntries]; exact hprintable.1))).runsAt least
  | .binary op lhs rhs, hprintable, least =>
      runsAt_parenthesized fun inner hinner =>
        runsAt_binary (runsAt_print lhs hprintable.1 _)
          (runsAt_print rhs hprintable.2 _) hinner
  | .ternary cond lhs rhs, hprintable, least =>
      runsAt_parenthesized fun inner hinner =>
        runsAt_ternary (runsAt_print cond hprintable.1 _)
          (runsAt_print lhs hprintable.2.1 _)
          (runsAt_print rhs hprintable.2.2 _) hinner
  | .not expr, hprintable, least =>
      runsAt_parenthesized fun inner hinner =>
        runsAt_not (runsAt_print expr hprintable _) hinner
  | .call funcName args next, hprintable, least => by
      obtain ⟨hargs, rfl⟩ := hprintable
      have hitems := runsItems_commas (runsExpr_items hargs)
      exact (RunsOperand.call (.first funcName hitems)).runsAt least
  | .variable name, _, least => (RunsOperand.variable name).runsAt least

theorem runsExpr_items {numeral : Double → String} :
    ∀ {items : List Expr}, Expr.PrintableItems runtime.stod numeral items →
      List.Forall₂ (RunsExpr runtime) (Expr.printItems numeral items)
        (Expr.orderedItems runtime.order items)
  | [], _ => .nil
  | item :: _, hprintable =>
      .cons (runsAt_print item hprintable.1 0).runsExpr (runsExpr_items hprintable.2)

theorem runsEntry_entries {numeral : Double → String} :
    ∀ {entries : List (String × Expr)},
      Expr.PrintableEntries runtime.stod numeral entries →
        List.Forall₂ (RunsEntry runtime) (Expr.printEntries numeral entries)
          (Expr.orderedEntries runtime.order entries)
  | [], _ => .nil
  | (_, expr) :: _, hprintable =>
      .cons ⟨_, rfl, (runsAt_print expr hprintable.1 0).runsExpr⟩
        (runsEntry_entries hprintable.2)
end

theorem parse_print_ordered {numeral : Double → String} {expr : Expr}
    (hprintable : expr.Printable runtime.stod numeral) :
    parse runtime (expr.print numeral 0) =
      .accepted (expr.ordered runtime.order) :=
  accepted_of_runs (runsAt_print expr hprintable 0).runsExpr

mutual
theorem ordered_self : ∀ expr : Expr, expr.ordered (fun entries => entries) = expr
  | .array items => congrArg Expr.array (orderedItems_self items)
  | .dict entries => congrArg Expr.dict (orderedEntries_self entries)
  | .binary op lhs rhs => by
      rw [Expr.ordered, ordered_self lhs, ordered_self rhs]
  | .ternary cond lhs rhs => by
      rw [Expr.ordered, ordered_self cond, ordered_self lhs, ordered_self rhs]
  | .not expr => congrArg Expr.not (ordered_self expr)
  | .call funcName args next => by
      rw [Expr.ordered, orderedItems_self args, orderedNext_self next]
  | .null | .integer _ | .double _ | .string _ | .boolean _ | .variable _ => rfl

theorem orderedItems_self :
    ∀ items, Expr.orderedItems (fun entries => entries) items = items
  | [] => rfl
  | item :: rest =>
      congrArg₂ List.cons (ordered_self item) (orderedItems_self rest)

theorem orderedEntries_self :
    ∀ entries, Expr.orderedEntries (fun entries => entries) entries = entries
  | [] => rfl
  | (key, expr) :: rest =>
      congrArg₂ List.cons (congrArg (Prod.mk key) (ordered_self expr))
        (orderedEntries_self rest)

theorem orderedNext_self :
    ∀ next, Expr.orderedNext (fun entries => entries) next = next
  | [] => rfl
  | (funcName, args) :: rest =>
      congrArg₂ List.cons (congrArg (Prod.mk funcName) (orderedItems_self args))
        (orderedNext_self rest)
end

/-- The tokens of an expression are derivable and read back as the expression,
with its tables in the order that they list their entries in; and no two
expressions have the same tokens. -/
theorem parse_print (runtime : Runtime) (numeral : Double → String) :
    (∀ expr : Expr, expr.Printable runtime.stod numeral →
      (expr.print numeral 0).map Token.terminal ∈ grammar.language ∧
        parse runtime (expr.print numeral 0) =
          .accepted (expr.ordered runtime.order)) ∧
    ∀ first second : Expr, first.Printable runtime.stod numeral →
      second.Printable runtime.stod numeral →
        first.print numeral 0 = second.print numeral 0 → first = second := by
  constructor
  · intro expr hprintable
    have haccepted := parse_print_ordered hprintable
    exact ⟨mem_language_of_accepted haccepted, haccepted⟩
  · intro first second hfirst hsecond hprint
    -- read back with tables that keep the order of insertion
    let inserted : Runtime := { Runtime.plain with stod := runtime.stod }
    have hread : ∀ expr : Expr, expr.Printable runtime.stod numeral →
        parse inserted (expr.print numeral 0) = .accepted expr := by
      intro expr hprintable
      have haccepted : parse inserted _ = _ := parse_print_ordered hprintable
      exact haccepted.trans (congrArg ParseResult.accepted (ordered_self expr))
    have haccepted := hread second hsecond
    rw [← hprint, hread first hfirst] at haccepted
    exact ParseResult.accepted.inj haccepted

/-- `1 - (2 - 3)`. -/
def difference : Expr :=
  .binary .sub (.integer 1) (.binary .sub (.integer 2) (.integer 3))

theorem difference_parses :
    parse .plain
      [.integer "1", .mark .minus, .mark .leftPar, .integer "2", .mark .minus,
        .integer "3", .mark .rightPar] =
      .accepted difference := by
  have hprintable : difference.Printable Runtime.plain.stod fun _ => "" := by
    simp [difference, Expr.Printable]
  exact ((parse_print .plain fun _ => "").1 difference hprintable).2

end Parser

end Uskit.Expression
