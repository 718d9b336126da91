import Uskit.Expression.Reduction

namespace Uskit.Expression

open Uskit.Data

namespace Parser

/-! Runs of the parser over the parts of an expression, in any stack below. -/

variable {runtime : Runtime}

abbrev Runs (runtime : Runtime) (stack : Stack) (input : List Token)
    (after : Stack) (rest : List Token) : Prop :=
  (turn runtime).Reaches ⟨stack, input⟩ ⟨after, rest⟩

theorem runs_reduce {stack after : Stack} {input : List Token}
    (hreduce : reduce runtime input.head? stack = .to after) :
    Runs runtime stack input after input := by
  apply Relation.ReflTransGen.single
  simp only [Loop.GoesOn, turn, hreduce]

theorem runs_shift {stack : Stack} {token : Token} {rest : List Token}
    {entry : Entry} (hnone : reduce runtime (some token) stack = .none)
    (hshift : shift stack token = some entry) :
    Runs runtime stack (token :: rest) (entry :: stack) rest := by
  apply Relation.ReflTransGen.single
  simp only [Loop.GoesOn, turn, List.head?_cons, hnone, hshift]

theorem runs_operand {stack : Stack} {token : Token} {rest : List Token}
    {entry : Entry} (hbefore : beforeExpr stack = true)
    (htoken : shiftOperand token = some entry) :
    Runs runtime stack (token :: rest) (entry :: stack) rest := by
  have hshift : shift stack token = some entry := by
    unfold shift
    rw [if_pos hbefore, htoken]
  refine runs_shift ?_ hshift
  cases stack with
  | nil => rfl
  | cons top below =>
      cases top with
      | arguments | square => simp [reduce, reduceEmptyList, htoken]
      | group | binary | question | colon | keyColon | comma | not => rfl
      | _ => cases hbefore

/-- The states below which an operator is always shifted. -/
inductive Base : Stack → Prop
  | empty : Base []
  | group (below : Stack) : Base (.group :: below)
  | arguments (below : Stack) : Base (.arguments :: below)
  | square (below : Stack) : Base (.square :: below)
  | question (below : Stack) : Base (.question :: below)
  | keyColon (text : String) (below : Stack) :
      Base (.keyColon :: .key text :: below)
  | comma (items : List Expr) (below : Stack) :
      Base (.comma :: .exprList items :: below)

theorem Base.before {stack : Stack} (hbase : Base stack) :
    beforeExpr stack = true := by
  cases hbase <;> rfl

theorem Base.reduceExpr {stack : Stack} (hbase : Base stack)
    {lookahead : Option Token} (hcontinues : continues lookahead = true)
    (expr : Expr) : Parser.reduceExpr lookahead expr stack = .none := by
  cases hbase with
  | group below => rfl
  | question below => rfl
  | empty | arguments | square | keyColon | comma =>
      simp [Parser.reduceExpr, hcontinues]

def operatorEntry (kind : Mark) : Option Entry :=
  if kind = .question then some .question else kind.binaryOp.map .binary

theorem operatorEntry_of_continues {kind : Mark}
    (hcontinues : continues (some (.mark kind)) = true) :
    ∃ entry, operatorEntry kind = some entry ∧
      ∀ expr below, shift (.expr expr :: below) (.mark kind) = some entry := by
  cases kind <;> first | exact ⟨_, rfl, fun _ _ => rfl⟩ | cases hcontinues

/-- A left operand with its operator, or the first two of a ternary. -/
inductive Frame where
  | binary (op : BinaryOp) (lhs : Expr)
  | ternary (cond lhs : Expr)

namespace Frame

def stack : Frame → Stack
  | .binary op lhs => [.binary op, .expr lhs]
  | .ternary cond lhs => [.colon, .expr lhs, .question, .expr cond]

def operator : Frame → Mark
  | .binary op _ => op.mark
  | .ternary _ _ => .question

def close (frame : Frame) (rhs : Expr) : Expr :=
  match frame with
  | .binary op lhs => .binary op lhs rhs
  | .ternary cond lhs => .ternary cond lhs rhs

theorem reduceExpr_of_shiftsOver {frame : Frame} {lookahead : Option Token}
    (hshifts : shiftsOver frame.operator lookahead = true) (rhs : Expr)
    (below : Stack) :
    reduceExpr lookahead rhs (frame.stack ++ below) = .none := by
  cases frame with
  | binary op lhs => exact if_pos hshifts
  | ternary cond lhs => exact if_pos hshifts

theorem reduceExpr_of_not_shiftsOver {frame : Frame} {lookahead : Option Token}
    (hshifts : shiftsOver frame.operator lookahead = false) (rhs : Expr)
    (below : Stack) :
    reduceExpr lookahead rhs (frame.stack ++ below) =
      .to (.expr (frame.close rhs) :: below) := by
  cases frame with
  | binary op lhs => exact if_neg (by rw [Frame.operator] at hshifts; simp [hshifts])
  | ternary cond lhs =>
      exact if_neg (by rw [Frame.operator] at hshifts; simp [hshifts])

end Frame

/-- The operands that wait above a base, the last first. -/
def framesStack (frames : List Frame) (base : Stack) : Stack :=
  frames.flatMap Frame.stack ++ base

@[simp] theorem framesStack_nil (base : Stack) : framesStack [] base = base := rfl

@[simp] theorem framesStack_cons (frame : Frame) (frames : List Frame)
    (base : Stack) :
    framesStack (frame :: frames) base =
      frame.stack ++ framesStack frames base := by
  simp [framesStack]

theorem beforeExpr_framesStack (frames : List Frame) {base : Stack}
    (hbase : Base base) : beforeExpr (framesStack frames base) = true := by
  cases frames with
  | nil => exact hbase.before
  | cons frame frames =>
      rw [framesStack_cons]
      cases frame with
      | binary op lhs => rfl
      | ternary cond lhs => rfl

theorem runs_reduceExpr {expr : Expr} {below after : Stack} {input : List Token}
    (hreduce : reduceExpr input.head? expr below = .to after) :
    Runs runtime (.expr expr :: below) input after input :=
  runs_reduce hreduce

def closeAll (frames : List Frame) (expr : Expr) : Expr :=
  frames.foldl (fun rhs frame => frame.close rhs) expr

/-- Where no operator follows, all that waits is reduced. -/
theorem runs_closeAll (frames : List Frame) (expr : Expr) (base : Stack)
    {input : List Token} (hcloses : continues input.head? = false) :
    Runs runtime (.expr expr :: framesStack frames base) input
      (.expr (closeAll frames expr) :: base) input := by
  induction frames generalizing expr with
  | nil => exact .refl
  | cons frame frames ih =>
      have hshifts : shiftsOver frame.operator input.head? = false := by
        cases hlookahead : input.head? with
        | none => rfl
        | some token =>
            rw [hlookahead] at hcloses
            cases token with
            | mark kind => simp [shiftsOver, hcloses]
            | identifier | string | integer | double => rfl
      rw [framesStack_cons]
      refine .trans (runs_reduceExpr ?_) (ih (frame.close expr))
      exact Frame.reduceExpr_of_not_shiftsOver hshifts expr _

/-- Before an operator, what binds tighter is reduced. -/
theorem runs_closeTighter (runtime : Runtime) (kind : Mark)
    (hcontinues : continues (some (.mark kind)) = true) (frames : List Frame)
    (expr : Expr) :
    ∃ outer whole entry, operatorEntry kind = some entry ∧
      ∀ base rest, Base base →
        Runs runtime (.expr expr :: framesStack frames base) (.mark kind :: rest)
          (entry :: .expr whole :: framesStack outer base) rest := by
  obtain ⟨entry, hentry, hshift⟩ := operatorEntry_of_continues hcontinues
  induction frames generalizing expr with
  | nil =>
      refine ⟨[], expr, entry, hentry, fun base rest hbase => ?_⟩
      exact runs_shift (hbase.reduceExpr hcontinues expr) (hshift expr _)
  | cons frame frames ih =>
      cases hshifts : shiftsOver frame.operator (some (.mark kind)) with
      | true =>
          refine ⟨frame :: frames, expr, entry, hentry, fun base rest _ => ?_⟩
          refine runs_shift ?_ (hshift expr _)
          rw [framesStack_cons]
          exact Frame.reduceExpr_of_shiftsOver hshifts expr _
      | false =>
          obtain ⟨outer, whole, other, hother, hruns⟩ := ih (frame.close expr)
          refine ⟨outer, whole, other, hother, fun base rest hbase => ?_⟩
          rw [framesStack_cons]
          refine .trans (runs_reduceExpr ?_) (hruns base rest hbase)
          exact Frame.reduceExpr_of_not_shiftsOver hshifts expr _

/-- What may stand after an expression that is complete. -/
def Ends (rest : List Token) : Prop :=
  ∀ token ∈ rest.head?, token ∈ [Token.mark .comma, .mark .rightPar,
    .mark .rightSquare, .mark .rightBrace, .mark .colon]

theorem Ends.of_head {kind : Mark} (rest : List Token)
    (hkind : Token.mark kind ∈ [Token.mark .comma, .mark .rightPar,
      .mark .rightSquare, .mark .rightBrace, .mark .colon]) :
    Ends (.mark kind :: rest) := by
  rintro token ⟨⟩
  exact hkind

theorem Ends.facts {rest : List Token} (hends : Ends rest) :
    continues rest.head? = false ∧ rest.head? ≠ some (.mark .dot) ∧
      rest.head?.bind shiftOperand = none ∧
        ∀ text, rest.head? ≠ some (.string text) := by
  cases hlookahead : rest.head? with
  | none => simp [continues]
  | some token =>
      have hmem := hends token hlookahead
      simp only [List.mem_cons, List.not_mem_nil, or_false] at hmem
      rcases hmem with rfl | rfl | rfl | rfl | rfl <;>
        exact ⟨rfl, by simp, rfl, by simp⟩

/-! What a word is read as, wherever it stands. -/

def RunsExpr (runtime : Runtime) (word : List Token) (expr : Expr) : Prop :=
  ∀ base rest, Base base → Ends rest →
    Runs runtime base (word ++ rest) (.expr expr :: base) rest

def RunsOperand (runtime : Runtime) (word : List Token) (expr : Expr) : Prop :=
  ∀ stack rest, beforeExpr stack = true → rest.head? ≠ some (.mark .dot) →
    Runs runtime stack (word ++ rest) (.expr expr :: stack) rest

def RunsChain (runtime : Runtime) (word : List Token) (funcName : String)
    (args : List Expr) (next : List (String × List Expr)) : Prop :=
  ∀ stack rest, beforeExpr stack = true →
    Runs runtime stack (word ++ rest)
      (.fluentInterface funcName args next :: stack) rest

def RunsItems (runtime : Runtime) (word : List Token) (items : List Expr) :
    Prop :=
  ∀ opener below rest, opener = .arguments ∨ opener = .square → Ends rest →
    Runs runtime (opener :: below) (word ++ rest)
      (.exprList items :: opener :: below) rest

def RunsEntries (runtime : Runtime) (word : List Token)
    (entries : List (String × Expr)) : Prop :=
  ∀ below rest, Ends rest →
    Runs runtime (.brace :: below) (word ++ rest)
      (.keyValueMap entries :: .brace :: below) rest

theorem reduceLiteral_integer {text : String} {value : Int}
    (hvalue : stoi text = some value) {stack : Stack}
    (hbefore : beforeExpr stack = true) :
    reduceLiteral runtime (.integer text) stack =
      .to (.expr (.integer value) :: stack) := by
  cases stack with
  | nil => simp [reduceLiteral, Reduced.ofValue, hvalue]
  | cons top below =>
      cases top with
      | minus => cases hbefore
      | _ => simp [reduceLiteral, Reduced.ofValue, hvalue]

theorem reduceLiteral_double {text : String} {value : Double}
    (hvalue : runtime.stod text = some value) {stack : Stack}
    (hbefore : beforeExpr stack = true) :
    reduceLiteral runtime (.double text) stack =
      .to (.expr (.double value) :: stack) := by
  cases stack with
  | nil => simp [reduceLiteral, Reduced.ofValue, hvalue]
  | cons top below =>
      cases top with
      | minus => cases hbefore
      | _ => simp [reduceLiteral, Reduced.ofValue, hvalue]

namespace RunsOperand

theorem literal {token : Token} {expr : Expr}
    (hshift : shiftOperand token = some (.literal token))
    (hreduce : ∀ stack, beforeExpr stack = true →
      reduceLiteral runtime token stack = .to (.expr expr :: stack)) :
    RunsOperand runtime [token] expr := by
  intro stack rest hbefore _
  exact .trans (runs_operand hbefore hshift) (runs_reduce (hreduce stack hbefore))

theorem boolean {token : Token} {value : Bool}
    (hshift : shiftOperand token = some (.literal token))
    (hreduce : ∀ stack,
      reduceLiteral runtime token stack = .to (.boolean value :: stack)) :
    RunsOperand runtime [token] (.boolean value) := by
  intro stack rest hbefore _
  exact .trans (runs_operand hbefore hshift)
    (.trans (runs_reduce (hreduce stack)) (runs_reduce rfl))

theorem integer {text : String} {value : Int} (hvalue : stoi text = some value) :
    RunsOperand runtime [.integer text] (.integer value) :=
  literal rfl fun _ => reduceLiteral_integer hvalue

theorem double {text : String} {value : Double}
    (hvalue : runtime.stod text = some value) :
    RunsOperand runtime [.double text] (.double value) :=
  literal rfl fun _ => reduceLiteral_double hvalue

theorem negative {token : Token} {expr : Expr}
    (hshift : ∀ stack, shift (.minus :: stack) token = some (.literal token))
    (hreduce : ∀ stack,
      reduceLiteral runtime token (.minus :: stack) = .to (.expr expr :: stack)) :
    RunsOperand runtime [.mark .minus, token] expr := by
  intro stack rest hbefore _
  refine .trans (runs_operand hbefore rfl) ?_
  refine .trans (runs_shift rfl (hshift stack)) ?_
  exact runs_reduce (hreduce stack)

theorem negativeInteger {text : String} {value : Int}
    (hvalue : stoi text = some value) :
    RunsOperand runtime [.mark .minus, .integer text] (.integer (-value)) := by
  apply negative fun _ => rfl
  intro stack
  rw [reduceLiteral, hvalue]
  rfl

theorem negativeDouble {text : String} {value : Double}
    (hvalue : runtime.stod text = some value) :
    RunsOperand runtime [.mark .minus, .double text] (.double value.neg) := by
  apply negative fun _ => rfl
  intro stack
  rw [reduceLiteral, hvalue]
  rfl

theorem «variable» (text : String) :
    RunsOperand runtime [.mark .dollar, .identifier text] (.variable text) := by
  intro stack rest hbefore _
  refine .trans (runs_operand hbefore rfl) ?_
  exact .trans (runs_shift rfl rfl) (runs_reduce rfl)

theorem not {word : List Token} {expr : Expr}
    (hword : RunsOperand runtime word expr) :
    RunsOperand runtime (.mark .not :: word) (.not expr) := by
  intro stack rest hbefore hdot
  refine .trans (runs_operand hbefore rfl) ?_
  refine .trans (hword (.not :: stack) rest rfl hdot) (runs_reduceExpr ?_)
  have hshifts : shiftsOver .not rest.head? = false := by
    cases rest.head? with
    | none => rfl
    | some token =>
        cases token with
        | mark kind => cases kind <;> rfl
        | identifier | string | integer | double => rfl
  simp [reduceExpr, hshifts]

theorem group {word : List Token} {expr : Expr}
    (hword : RunsExpr runtime word expr) :
    RunsOperand runtime (.mark .leftPar :: (word ++ [.mark .rightPar])) expr := by
  intro stack rest hbefore _
  rw [List.cons_append, List.append_assoc]
  refine .trans (runs_operand hbefore rfl) ?_
  refine .trans (hword (.group :: stack) (.mark .rightPar :: rest) (.group stack)
    (.of_head rest (by simp))) ?_
  exact .trans (runs_shift rfl rfl) (runs_reduce rfl)

theorem array {word : List Token} {items : List Expr}
    (hword : RunsItems runtime word items) :
    RunsOperand runtime (.mark .leftSquare :: (word ++ [.mark .rightSquare]))
      (.array items) := by
  intro stack rest hbefore _
  rw [List.cons_append, List.append_assoc]
  refine .trans (runs_operand hbefore rfl) ?_
  refine .trans (hword .square stack (.mark .rightSquare :: rest) (.inr rfl)
    (.of_head rest (by simp))) ?_
  refine .trans (runs_shift rfl rfl) ?_
  exact .trans (runs_reduce rfl) (runs_reduce rfl)

theorem dict {word : List Token} {entries : List (String × Expr)}
    (hword : RunsEntries runtime word entries) :
    RunsOperand runtime (.mark .leftBrace :: (word ++ [.mark .rightBrace]))
      (.dict (runtime.order entries)) := by
  intro stack rest hbefore _
  rw [List.cons_append, List.append_assoc]
  refine .trans (runs_operand hbefore rfl) ?_
  refine .trans (hword stack (.mark .rightBrace :: rest)
    (.of_head rest (by simp))) ?_
  refine .trans (runs_shift rfl rfl) ?_
  exact .trans (runs_reduce rfl) (runs_reduce rfl)

theorem call {word : List Token} {funcName : String} {args : List Expr}
    {next : List (String × List Expr)}
    (hword : RunsChain runtime word funcName args next) :
    RunsOperand runtime word (.call funcName args next) := by
  intro stack rest hbefore hdot
  exact .trans (hword stack rest hbefore) (runs_reduce (if_neg hdot))

end RunsOperand

theorem runs_arguments {word : List Token} {args : List Expr}
    (hargs : RunsItems runtime word args) (funcName : String) (below : Stack)
    (rest : List Token) :
    Runs runtime (.name funcName :: below)
      (.mark .leftPar :: (word ++ .mark .rightPar :: rest))
      (.funcCall funcName args :: below) rest := by
  refine .trans (runs_shift rfl rfl) ?_
  refine .trans (hargs .arguments (.name funcName :: below)
    (.mark .rightPar :: rest) (.inl rfl) (.of_head rest (by simp))) ?_
  exact .trans (runs_shift rfl rfl) (runs_reduce rfl)

namespace RunsChain

theorem first {word : List Token} {args : List Expr} (funcName : String)
    (hword : RunsItems runtime word args) :
    RunsChain runtime
      (.identifier funcName :: .mark .leftPar :: (word ++ [.mark .rightPar]))
      funcName args [] := by
  intro stack rest hbefore
  rw [List.cons_append, List.cons_append, List.append_assoc]
  refine .trans (runs_operand hbefore rfl) ?_
  refine .trans (runs_arguments hword funcName stack rest) (runs_reduce ?_)
  cases stack with
  | nil => rfl
  | cons top below =>
      cases top with
      | dot => cases hbefore
      | _ => rfl

/-- Whatever was chained to the first call is replaced. -/
theorem next {word args : List Token} {first : String} {firstArgs : List Expr}
    {links : List (String × List Expr)}
    (hword : RunsChain runtime word first firstArgs links) (funcName : String)
    {items : List Expr} (hargs : RunsItems runtime args items) :
    RunsChain runtime
      (word ++ .mark .dot :: .identifier funcName :: .mark .leftPar ::
        (args ++ [.mark .rightPar]))
      first firstArgs [(funcName, items)] := by
  intro stack rest hbefore
  rw [List.append_assoc]
  refine .trans (hword stack _ hbefore) ?_
  simp only [List.cons_append, List.append_assoc, List.nil_append]
  refine .trans (runs_shift rfl rfl) ?_
  refine .trans (runs_shift rfl rfl) ?_
  exact .trans (runs_arguments hargs funcName _ rest) (runs_reduce rfl)

end RunsChain

namespace RunsItems

theorem nil : RunsItems runtime [] [] := by
  intro opener below rest hopener hends
  apply runs_reduce
  have hnone := hends.facts.2.2.1
  rw [List.nil_append]
  rcases hopener with rfl | rfl
  · simp [reduce, reduceEmptyList, hnone]
  · simp [reduce, reduceEmptyList, hnone]

theorem first {word : List Token} {expr : Expr}
    (hword : RunsExpr runtime word expr) : RunsItems runtime word [expr] := by
  intro opener below rest hopener hends
  have hcloses := hends.facts.1
  have hbase : Base (opener :: below) := by
    rcases hopener with rfl | rfl
    · exact .arguments below
    · exact .square below
  refine .trans (hword _ rest hbase hends) (runs_reduceExpr ?_)
  rcases hopener with rfl | rfl
  · simp [reduceExpr, hcloses]
  · simp [reduceExpr, hcloses]

theorem next {word rest : List Token} {items : List Expr} {expr : Expr}
    (hword : RunsItems runtime word items) (hrest : RunsExpr runtime rest expr) :
    RunsItems runtime (word ++ .mark .comma :: rest) (items ++ [expr]) := by
  intro opener below after hopener hends
  have hcloses := hends.facts.1
  rw [List.append_assoc, List.cons_append]
  refine .trans (hword opener below _ hopener (.of_head _ (by simp))) ?_
  refine .trans (runs_shift rfl rfl) ?_
  refine .trans (hrest _ after (.comma items _) hends) (runs_reduceExpr ?_)
  simp [reduceExpr, hcloses]

end RunsItems

theorem runs_entry {word : List Token} {expr : Expr}
    (hword : RunsExpr runtime word expr) (key : String) {opener : Entry}
    (below : Stack) (hopener : opener = .brace ∨ opener = .keyComma)
    {rest : List Token} (hends : Ends rest) :
    Runs runtime (opener :: below)
      (.string key :: .mark .colon :: (word ++ rest))
      (.keyValue (unquote key) expr :: opener :: below) rest := by
  have hcloses := hends.facts.1
  have hkey : Runs runtime (opener :: below)
      (.string key :: .mark .colon :: (word ++ rest))
      (.key key :: opener :: below) (.mark .colon :: (word ++ rest)) := by
    rcases hopener with rfl | rfl
    · exact runs_shift rfl rfl
    · exact runs_shift rfl rfl
  refine .trans hkey ?_
  refine .trans (runs_shift rfl rfl) ?_
  refine .trans (hword _ rest (.keyColon key _) hends) (runs_reduceExpr ?_)
  simp [reduceExpr, hcloses]

namespace RunsEntries

theorem nil : RunsEntries runtime [] [] := by
  intro below rest hends
  apply runs_reduce
  have hstring := hends.facts.2.2.2
  rw [List.nil_append]
  simp only [reduce, reduceEmptyMap]

theorem first {rest : List Token} {expr : Expr} (key : String)
    (hrest : RunsExpr runtime rest expr) :
    RunsEntries runtime (.string key :: .mark .colon :: rest)
      [(unquote key, expr)] := by
  intro below after hends
  rw [List.cons_append, List.cons_append]
  exact .trans (runs_entry hrest key below (.inl rfl) hends) (runs_reduce rfl)

theorem next {word rest : List Token} {entries : List (String × Expr)}
    {expr : Expr} (hword : RunsEntries runtime word entries) (key : String)
    (hrest : RunsExpr runtime rest expr) :
    RunsEntries runtime
      (word ++ .mark .comma :: .string key :: .mark .colon :: rest)
      (Members.emplace entries (unquote key) expr) := by
  intro below after hends
  rw [List.append_assoc]
  simp only [List.cons_append]
  refine .trans (hword below _ (.of_head _ (by simp))) ?_
  refine .trans (runs_shift rfl rfl) ?_
  exact .trans (runs_entry hrest key _ (.inr rfl) hends) (runs_reduce rfl)

end RunsEntries

theorem accepted_of_runs {tokens : List Token} {expr : Expr}
    (hruns : RunsExpr runtime tokens expr) :
    parse runtime tokens = .accepted expr := by
  have hends : Ends [] := by
    rintro token ⟨⟩
  have halone := hruns [] [] .empty hends
  rw [List.append_nil] at halone
  apply parse_eq_iff.mpr
  exact ⟨⟨[.program expr], []⟩, .trans halone (runs_reduce rfl), rfl⟩

end Parser

end Uskit.Expression
