import StackScript.Grammar.Statement
import StackScript.Proofs.Grammar.Agreement

/-!
# Two runs of the grammar

The rules of the grammar agree on lists of tokens that belong together, if trees that are built
of parts that belong together do so as well (`agrees_statement`).  The rules use the parsers
for what is nested inside only after they have read a token.  This is why the depth of nesting
that the grammar is given is never exhausted (`agreesInner_of_le`).
-/

namespace StackScript.Grammar

open StackScript.Grammar.Parser
open StackScript.Surface (Expr Stmt Level Program)

def isOperatorOf : Level → Token → Bool
  | .access => fun token => token.kind = .period
  | .multiplication => fun token => token.kind = .multiplication
  | .addition => fun token => token.kind = .addition
  | .comparison => fun token => token.kind = .comparison
  | .conjunction => fun token => token.isSymbol "and"
  | .disjunction => fun token => token.isSymbol "or"

/-- Two fields with the same name, whose values belong together. -/
def FieldsAlike (onExpr : Expr → Expr → Prop) (field field' : String × Expr) : Prop :=
  field.1 = field'.1 ∧ onExpr field.2 field'.2

/-- Trees belong together if they are built in the same way of parts that do, from tokens that
are alike. -/
structure BuildsAlike (alike : Token → Token → Prop) (onExpr : Expr → Expr → Prop)
    (onStmt : Stmt → Stmt → Prop) : Prop where
  integer : ∀ value, onExpr (.integer value) (.integer value)
  text : ∀ content, onExpr (.text content) (.text content)
  symbol : ∀ {token token'}, alike token token' → token.kind = .symbol →
    onExpr (.symbol token.position token.text) (.symbol token'.position token'.text)
  negation : ∀ {token token' operand operand'}, alike token token' → onExpr operand operand' →
    onExpr (.negation token.position operand) (.negation token'.position operand')
  binary : ∀ {token token' level left left' right right'}, alike token token' →
    isOperatorOf level token = true → onExpr left left' → onExpr right right' →
      onExpr (.binary token.position level token.text left right)
        (.binary token'.position level token'.text left' right')
  list : ∀ {items items'}, List.Forall₂ onExpr items items' →
    onExpr (.list items) (.list items')
  record : ∀ {fields fields'}, List.Forall₂ (FieldsAlike onExpr) fields fields' →
    onExpr (.record fields) (.record fields')
  item : ∀ {token token' subject subject' index index'}, alike token token' →
    onExpr subject subject' → onExpr index index' →
      onExpr (.item token.position subject index) (.item token'.position subject' index')
  call : ∀ {token token' function function' arguments arguments'}, alike token token' →
    onExpr function function' → List.Forall₂ onExpr arguments arguments' →
      onExpr (.call token.position function arguments)
        (.call token'.position function' arguments')
  lambda : ∀ {parameters body body'}, List.Forall₂ onStmt body body' →
    onExpr (.lambda parameters body) (.lambda parameters body')
  conditional : ∀ {condition condition' onTrue onTrue' onFalse onFalse'},
    onExpr condition condition' → List.Forall₂ onStmt onTrue onTrue' →
      List.Forall₂ onStmt onFalse onFalse' →
        onExpr (.conditional condition onTrue onFalse) (.conditional condition' onTrue' onFalse')
  assign : ∀ {token token' value value'}, alike token token' → token.kind = .symbol →
    token.text ∉ builtinNames → onExpr value value' →
      onStmt (.assign token.text value) (.assign token'.text value')
  evaluate : ∀ {expression expression'}, onExpr expression expression' →
    onStmt (.evaluate expression) (.evaluate expression')
  define : ∀ {token token' parameters body body'}, alike token token' → token.kind = .symbol →
    List.Forall₂ onStmt body body' →
      onStmt (.define token.text parameters body) (.define token'.text parameters body')

/-- The parsers for what is nested inside a construct agree, at every level. -/
structure AgreesInner (matching : Matching) (onExpr : Expr → Expr → Prop)
    (onStmt : Stmt → Stmt → Prop) (bound : Nat) (inner inner' : Inner) : Prop where
  expression : ∀ level, Agrees matching bound 1 level inner.expression inner'.expression onExpr
  statement : ∀ level, Agrees matching bound 1 level inner.statement inner'.statement onStmt

def negated (operand : Parser Expr) : Parser Expr := attempt do
  let position ← nextPosition
  skip fun token => token.text = "-"
  let value ← operand
  return .negation position value

def conditionalOn (condition : Parser Expr) (inner : Inner) : Parser Expr := attempt do
  skip fun token => token.text = "if"
  let condition ← condition.orRaise .malformedConstruct
  demand (fun token => token.text = "do") fun _ => .malformedConstruct
  let onTrue ← body inner
  let onFalse ← otherwise inner
  demand (fun token => token.text = "end") fun _ => .malformedConstruct
  return .conditional condition onTrue onFalse

/-- What follows newlines.  Where the tokens end there is nothing. -/
def afterNewlines {α : Type} (parser : Parser α) : Parser α := fun tokens =>
  match dropNewlines tokens with
  | [] => .ok (.reject [])
  | token :: rest => parser (token :: rest)

section Rules

variable {matching : Matching} {onExpr : Expr → Expr → Prop} {onStmt : Stmt → Stmt → Prop}
variable (lawful : matching.Lawful) (builds : BuildsAlike matching.alike onExpr onStmt)
variable {bound : Nat} {level : Int}

include lawful

/-- A name and a name from tokens that are alike. -/
def NamesAlike (alike : Token → Token → Prop) (name name' : String) : Prop :=
  ∃ token token', alike token token' ∧ token.kind = .symbol ∧ name = token.text ∧
    name' = token'.text

theorem agrees_name : Agrees matching bound 1 level name name (NamesAlike matching.alike) := by
  apply (Agrees.satisfy lawful (leads_kind lawful .symbol (by decide))).bind
  intro token token' both
  exact Agrees.pure ⟨token, token', both.1, of_decide_eq_true both.2, rfl, rfl⟩

theorem agrees_parameters :
    Agrees matching bound 0 level (commaSeparated name) (commaSeparated name) Eq := by
  have agrees : Agrees matching bound 0 level (commaSeparated name) (commaSeparated name)
      (List.Forall₂ (NamesAlike matching.alike)) :=
    (agrees_name lawful).commaSeparated lawful
  intro tokens tokens' together short short'
  apply (agrees tokens tokens' together short short').imp _ id
  rintro names rest names' rest' ⟨namesAlike, remains⟩
  refine ⟨?_, remains⟩
  induction namesAlike with
  | nil => rfl
  | cons both _ ih =>
      rcases both with ⟨token, token', alikeTokens, _, rfl, rfl⟩
      rw [lawful.text_eq alikeTokens, ih]

include builds

theorem agrees_symbol : Agrees matching bound 1 level symbol symbol onExpr := by
  apply (Agrees.satisfy lawful (leads_kind lawful .symbol (by decide))).bind
  intro token token' both
  exact Agrees.pure (builds.symbol both.1 (of_decide_eq_true both.2))

theorem agrees_integer : Agrees matching bound 1 level integer integer onExpr := by
  apply (Agrees.satisfy lawful (leads_kind lawful .integer (by decide))).bind
  intro token token' both
  have same := lawful.text_eq both.1
  rw [← same]
  split
  · exact Agrees.pure (builds.integer _)
  · have raised := lawful.raised_fault .invalidNumeral both.1
    rw [Fault.error, Fault.error, ← same] at raised
    exact Agrees.raise raised
  · rename_i digits _
    exact Agrees.raise (lawful.raised_fault (.numeralTooLong digits) both.1)

theorem agrees_text : Agrees matching bound 1 level text text onExpr := by
  have leads : Leads matching level level fun token =>
      decide (token.kind = .doubleQuoted) || decide (token.kind = .singleQuoted) := by
    constructor
    · intro token token' alikeTokens
      simp only [lawful.kind_eq alikeTokens]
    · intro token token' rest rest' passes together
      apply lawful.inline together (.inl _)
      simp only [Bool.or_eq_true, decide_eq_true_eq] at passes
      rcases passes with isText | isText <;> simp [isText]
  apply (Agrees.satisfy lawful leads).bind
  intro token token' both
  rw [← lawful.text_eq both.1]
  exact Agrees.pure (builds.text _)

omit builds in
/-- What stands in parentheses is one level deeper. -/
theorem agrees_parenthesized {α β : Type} {values : α → β → Prop} {least : Nat}
    {parser : Parser α} {parser' : Parser β}
    (agrees : Agrees matching bound least (level + 1) parser parser' values) :
    Agrees matching (bound + 1) 1 level (parenthesized parser) (parenthesized parser') values := by
  have closes : Leads matching (level + 1) (level + 1 - 1)
      fun token => token.kind = .closeParen := leads_closing lawful
  rw [Int.add_sub_cancel] at closes
  exact AcceptsAlike.wrapped lawful (leads_opening lawful) agrees closes

omit builds in
theorem agrees_bracketed {α β : Type} {values : α → β → Prop} {least : Nat}
    {parser : Parser α} {parser' : Parser β}
    (agrees : Agrees matching bound least level parser parser' values) :
    Agrees matching (bound + 1) 1 level (bracketed parser) (bracketed parser') values :=
  AcceptsAlike.wrapped lawful (leads_kind lawful .openBracket (by decide)) agrees
    (leads_kind lawful .closeBracket (by decide))

variable {inner inner' : Inner} (agrees : AgreesInner matching onExpr onStmt bound inner inner')

include agrees

omit builds in
theorem agrees_body :
    Agrees matching bound 0 level (body inner) (body inner') (List.Forall₂ onStmt) := by
  apply ((agrees.statement level).many lawful).bind
  intro statements statements' statementsAlike
  apply (Agrees.newlines lawful).bind
  intro _ _ _
  exact Agrees.pure statementsAlike

omit builds in
theorem agrees_group : Agrees matching (bound + 1) 1 level (group inner) (group inner') onExpr :=
  agrees_parenthesized lawful (agrees.expression _)

omit builds in
theorem agrees_expressions :
    Agrees matching bound 0 level (expressions inner) (expressions inner')
      (List.Forall₂ onExpr) :=
  (agrees.expression level).commaSeparated lawful

omit builds in
theorem agrees_field :
    Agrees matching (bound + 1) 1 level (field inner) (field inner') (FieldsAlike onExpr) := by
  apply AcceptsAlike.attempt
  apply (agrees_name lawful).acceptsAlike.bind
  rintro _ _ ⟨token, token', alikeTokens, _, rfl, rfl⟩
  apply (AcceptsAlike.skip lawful (leads_kind lawful .colon (by decide))).followed
  rintro _ _ ⟨colon, colon', alikeColons⟩
  have missing := lawful.raised_fault .missingFieldValue alikeColons
  apply ((agrees.expression level).orRaise missing).acceptsAlike.followed
  intro value value' valueAlike
  exact (Agrees.pure ⟨lawful.text_eq alikeTokens, valueAlike⟩).acceptsAlike

theorem agrees_record :
    Agrees matching (bound + 1) 1 level (record inner) (record inner') onExpr := by
  have agreesField {level : Int} :
      Agrees matching bound 1 level (field inner) (field inner') (FieldsAlike onExpr) :=
    (agrees_field lawful agrees).mono (Nat.le_succ _)
  apply (agrees_parenthesized lawful (agreesField.commaSeparated lawful)).bind
  intro fields fields' fieldsAlike
  exact Agrees.pure (builds.record fieldsAlike)

theorem agrees_lambda :
    Agrees matching (bound + 1) 1 level (lambda inner) (lambda inner') onExpr := by
  have closes : Leads matching (level + 1) (level + 1 - 1)
      fun token => token.kind = .closeParen := leads_closing lawful
  rw [Int.add_sub_cancel] at closes
  apply AcceptsAlike.attempt
  apply (AcceptsAlike.skip lawful (leads_keyword lawful "lambda")).bind
  rintro _ _ ⟨token, token', alikeTokens⟩
  have malformed := lawful.raised_malformed alikeTokens
  apply (AcceptsAlike.demand lawful (leads_opening lawful)
    (lawful.raised_fault .expectedOpening)).followed
  intro _ _ _
  apply (agrees_parameters lawful).acceptsAlike.followed
  rintro parameters _ rfl
  apply (AcceptsAlike.demand lawful closes fun _ => malformed).followed
  intro _ _ _
  apply (AcceptsAlike.skip lawful (leads_text lawful "do" (by decide))).followed
  intro _ _ _
  apply (agrees_body lawful agrees).acceptsAlike.followed
  intro statements statements' statementsAlike
  apply (AcceptsAlike.skip lawful (leads_keyword lawful "end")).followed
  intro _ _ _
  exact (Agrees.pure (builds.lambda statementsAlike)).acceptsAlike

theorem agrees_list : Agrees matching (bound + 1) 1 level (list inner) (list inner') onExpr := by
  apply (agrees_bracketed lawful (agrees_expressions lawful agrees)).bind
  intro items items' itemsAlike
  exact Agrees.pure (builds.list itemsAlike)

theorem agrees_head : Agrees matching (bound + 1) 1 level (head inner) (head inner') onExpr :=
  Agrees.firstOf
    (.cons (agrees_symbol lawful builds) (.cons (agrees_group lawful agrees) .nil))

theorem agrees_item : Agrees matching (bound + 1) 1 level (item inner) (item inner') onExpr :=
  (agrees_head lawful builds agrees).applied lawful
    (agrees_bracketed lawful (agrees.expression level))
    fun _ _ _ _ _ _ alikeTokens subjectAlike indexAlike =>
      builds.item alikeTokens subjectAlike indexAlike

theorem agrees_call : Agrees matching (bound + 1) 1 level (call inner) (call inner') onExpr :=
  (agrees_head lawful builds agrees).applied lawful
    (agrees_parenthesized lawful (agrees_expressions lawful agrees))
    fun _ _ _ _ _ _ alikeTokens functionAlike argumentsAlike =>
      builds.call alikeTokens functionAlike argumentsAlike

theorem agrees_term : Agrees matching (bound + 1) 1 level (term inner) (term inner') onExpr :=
  Agrees.firstOf
    (.cons (agrees_item lawful builds agrees) (.cons (agrees_call lawful builds agrees)
      (.cons (agrees_group lawful agrees) (.cons (agrees_integer lawful builds)
        (.cons (agrees_text lawful builds) (.cons (agrees_list lawful builds agrees)
          (.cons (agrees_lambda lawful builds agrees) (.cons (agrees_symbol lawful builds)
            (.cons (agrees_record lawful builds agrees) .nil)))))))))

omit agrees in
theorem agrees_infixLevel (strength : Level) {operand operand' : Parser Expr}
    (agrees : Agrees matching bound 1 level operand operand' onExpr) :
    Agrees matching bound 1 level (infixLevel strength (isOperatorOf strength) operand)
      (infixLevel strength (isOperatorOf strength) operand') onExpr := by
  have leads : Leads matching level level (isOperatorOf strength) := by
    cases strength with
    | access => exact leads_kind lawful .period (by decide)
    | multiplication => exact leads_kind lawful .multiplication (by decide)
    | addition => exact leads_kind lawful .addition (by decide)
    | comparison => exact leads_kind lawful .comparison (by decide)
    | conjunction => exact leads_symbol lawful "and"
    | disjunction => exact leads_symbol lawful "or"
  exact agrees.chainLeft lawful leads
    fun _ _ _ _ _ _ alikeTokens isOne leftAlike rightAlike =>
      builds.binary alikeTokens isOne leftAlike rightAlike

theorem agrees_access :
    Agrees matching (bound + 1) 1 level (access inner) (access inner') onExpr :=
  agrees_infixLevel lawful builds .access (agrees_term lawful builds agrees)

omit agrees in
theorem agrees_negated {operand operand' : Parser Expr}
    (agrees : Agrees matching bound 1 level operand operand' onExpr) :
    Agrees matching (bound + 1) 1 level (negated operand) (negated operand') onExpr := by
  apply AcceptsAlike.attempt
  intro tokens tokens' together short short'
  -- The position is that of the token that is skipped next.
  rcases lawful.cases together with
    ⟨rfl, rfl⟩ | ⟨token, rest, token', rest', rfl, rfl, alikeTokens⟩
  · exact .error lawful.raised_end
  have afterMinus : AcceptsAlike matching (bound + 1) 1 level level
      (do skip fun token => token.text = "-"
          let value ← operand
          return .negation token.position value)
      (do skip fun token => token.text = "-"
          let value ← operand'
          return .negation token'.position value) onExpr := by
    apply (AcceptsAlike.skip lawful (leads_text lawful "-" (by decide))).bind
    intro _ _ _
    apply agrees.acceptsAlike.followed
    intro value value' valueAlike
    exact (Agrees.pure (builds.negation alikeTokens valueAlike)).acceptsAlike
  exact afterMinus _ _ together short short'

theorem agrees_negation :
    Agrees matching (bound + 1) 1 level (negation inner) (negation inner') onExpr :=
  agrees_negated lawful builds ((agrees_access lawful builds agrees).mono (Nat.le_succ _))

theorem agrees_disjunction :
    Agrees matching (bound + 1) 1 level (disjunction inner) (disjunction inner') onExpr := by
  have agreesSigned : Agrees matching (bound + 1) 1 level (signed inner) (signed inner') onExpr :=
    Agrees.firstOf (.cons (agrees_access lawful builds agrees)
      (.cons (agrees_negation lawful builds agrees) .nil))
  have agreesAddition : Agrees matching (bound + 1) 1 level (addition inner) (addition inner')
      onExpr :=
    agrees_infixLevel lawful builds .addition
      (agrees_infixLevel lawful builds .multiplication agreesSigned)
  exact agrees_infixLevel lawful builds .disjunction
    (agrees_infixLevel lawful builds .conjunction
      (agrees_infixLevel lawful builds .comparison agreesAddition))

omit builds in
theorem agrees_otherwise :
    Agrees matching bound 0 level (otherwise inner) (otherwise inner') (List.Forall₂ onStmt) := by
  have agreesElse : Agrees matching bound 0 level
      (do skip fun token => token.text = "else"
          body inner)
      (do skip fun token => token.text = "else"
          body inner') (List.Forall₂ onStmt) := by
    apply ((Agrees.skip lawful (leads_text lawful "else" (by decide))).weaken
      (Nat.zero_le _)).bind
    intro _ _ _
    exact agrees_body lawful agrees
  exact Agrees.firstOf (.cons agreesElse (.cons (Agrees.pure .nil) .nil))

theorem agrees_conditionalOn {condition condition' : Parser Expr}
    (agreesCondition : Agrees matching bound 1 level condition condition' onExpr) :
    Agrees matching (bound + 1) 1 level (conditionalOn condition inner)
      (conditionalOn condition' inner') onExpr := by
  apply AcceptsAlike.attempt
  apply (AcceptsAlike.skip lawful (leads_text lawful "if" (by decide))).bind
  rintro _ _ ⟨token, token', alikeTokens⟩
  have malformed := lawful.raised_malformed alikeTokens
  apply (agreesCondition.orRaise malformed).acceptsAlike.followed
  intro value value' valueAlike
  apply (AcceptsAlike.demand lawful (leads_text lawful "do" (by decide))
    fun _ => malformed).followed
  intro _ _ _
  apply (agrees_body lawful agrees).acceptsAlike.followed
  intro onTrue onTrue' trueAlike
  apply (agrees_otherwise lawful agrees).acceptsAlike.followed
  intro onFalse onFalse' falseAlike
  apply (AcceptsAlike.demand lawful (leads_text lawful "end" (by decide))
    fun _ => malformed).followed
  intro _ _ _
  exact (Agrees.pure (builds.conditional valueAlike trueAlike falseAlike)).acceptsAlike

theorem agrees_conditional :
    Agrees matching (bound + 1) 1 level (conditional inner) (conditional inner') onExpr :=
  agrees_conditionalOn lawful builds agrees
    ((agrees_disjunction lawful builds agrees).mono (Nat.le_succ _))

theorem agrees_expression :
    Agrees matching (bound + 1) 1 level (expression inner) (expression inner') onExpr :=
  Agrees.firstOf (.cons (agrees_disjunction lawful builds agrees)
    (.cons (agrees_conditional lawful builds agrees) .nil))

theorem agrees_assignment :
    Agrees matching (bound + 1) 1 level (assignment inner) (assignment inner') onStmt := by
  have agreesTarget : Agrees matching (bound + 1) 1 level target target
      fun token token' => matching.alike token token' ∧ token.kind = .symbol ∧
        token.text ∉ builtinNames ∧ matching.raised .malformedConstruct .malformedConstruct := by
    apply (Agrees.satisfy lawful (leads_kind lawful .symbol (by decide))).bind
    intro token token' both
    apply ((Agrees.skip lawful (leads_kind lawful .assignment (by decide))).weaken
      (Nat.zero_le _)).bind
    rintro _ _ ⟨operator, operator', alikeOperators⟩
    have malformed := lawful.raised_malformed alikeOperators
    rw [← lawful.text_eq both.1]
    split
    · exact Agrees.raise (lawful.raised_fault .builtinTarget both.1)
    · rename_i notBuiltin
      rw [List.contains_iff_mem] at notBuiltin
      exact Agrees.pure ⟨both.1, of_decide_eq_true both.2, notBuiltin, malformed⟩
  apply AcceptsAlike.attempt
  apply agreesTarget.acceptsAlike.bind
  rintro token token' ⟨alikeTokens, isSymbol, notBuiltin, malformed⟩
  apply ((agrees.expression level).orRaise malformed).acceptsAlike.followed
  intro value value' valueAlike
  exact (Agrees.pure (builds.assign alikeTokens isSymbol notBuiltin valueAlike)).acceptsAlike

theorem agrees_definition :
    Agrees matching (bound + 1) 1 level (definition inner) (definition inner') onStmt := by
  have closes : Leads matching (level + 1) (level + 1 - 1)
      fun token => token.kind = .closeParen := leads_closing lawful
  rw [Int.add_sub_cancel] at closes
  apply AcceptsAlike.attempt
  apply (AcceptsAlike.skip lawful (leads_keyword lawful "def")).bind
  rintro _ _ ⟨keyword, keyword', alikeKeywords⟩
  have malformed := lawful.raised_malformed alikeKeywords
  apply ((agrees_name lawful).orRaise malformed).acceptsAlike.followed
  rintro _ _ ⟨token, token', alikeTokens, isSymbol, rfl, rfl⟩
  apply (AcceptsAlike.demand lawful (leads_opening lawful) fun _ => malformed).followed
  intro _ _ _
  apply (agrees_parameters lawful).acceptsAlike.followed
  rintro parameters _ rfl
  apply (AcceptsAlike.demand lawful closes fun _ => malformed).followed
  intro _ _ _
  apply (AcceptsAlike.skip lawful (leads_text lawful "do" (by decide))).followed
  intro _ _ _
  apply (agrees_body lawful agrees).acceptsAlike.followed
  intro statements statements' statementsAlike
  apply (AcceptsAlike.skip lawful (leads_keyword lawful "end")).followed
  intro _ _ _
  exact (Agrees.pure (builds.define alikeTokens isSymbol statementsAlike)).acceptsAlike

omit builds agrees in
theorem agrees_afterNewlines {α β : Type} {values : α → β → Prop} {parser : Parser α}
    {parser' : Parser β} (agrees : Agrees matching bound 1 level parser parser' values) :
    Agrees matching bound 1 level (afterNewlines parser) (afterNewlines parser') values := by
  intro tokens tokens' together short short'
  have later : Remains matching level 0 tokens tokens' (dropNewlines tokens)
      (dropNewlines tokens') :=
    ⟨lawful.newlines together, length_dropNewlines_le _, length_dropNewlines_le _⟩
  have left := later.left
  have right := later.right
  unfold afterNewlines
  generalize dropNewlines tokens = found, dropNewlines tokens' = found' at later left right ⊢
  rcases lawful.cases later.paired with ⟨rfl, rfl⟩ | ⟨token, rest, token', rest', rfl, rfl, _⟩
  · exact .reject later
  · exact (agrees _ _ later.paired (by omega) (by omega)).imp
      (fun both => ⟨both.1, (later.trans both.2).weaken (by omega)⟩) later.trans

theorem agrees_evaluation :
    Agrees matching (bound + 1) 1 level (evaluation inner) (evaluation inner') onStmt := by
  apply (agrees_expression lawful builds agrees).bind
  intro expression expression' expressionAlike
  exact Agrees.pure (builds.evaluate expressionAlike)

theorem agrees_statement :
    Agrees matching (bound + 1) 1 level (statement inner) (statement inner') onStmt := by
  apply agrees_afterNewlines lawful
  exact Agrees.firstOf (.cons (agrees_assignment lawful builds agrees)
    (.cons (agrees_evaluation lawful builds agrees)
      (.cons (agrees_definition lawful builds agrees) .nil)))

omit builds agrees in
theorem agrees_program (agreesStatement : Agrees matching bound 1 level (statement inner)
    (statement inner') onStmt) :
    Agrees matching bound 0 level (program inner) (program inner')
      fun program program' => List.Forall₂ onStmt program.statements program'.statements := by
  apply (agreesStatement.many lawful).bind
  intro statements statements' statementsAlike
  exact Agrees.pure statementsAlike

end Rules

/-! ## The depth of nesting -/

section Depth

variable {matching : Matching} {onExpr : Expr → Expr → Prop} {onStmt : Stmt → Stmt → Prop}

/-- Where no list is short enough there is nothing to agree on. -/
theorem agreesInner_zero (inner inner' : Inner) :
    AgreesInner matching onExpr onStmt 0 inner inner' where
  expression _ _ _ _ short := absurd short (Nat.not_lt_zero _)
  statement _ _ _ _ short := absurd short (Nat.not_lt_zero _)

variable (lawful : matching.Lawful) (builds : BuildsAlike matching.alike onExpr onStmt)
include lawful builds

/-- The grammar agrees with itself at the same depth. -/
theorem agreesInner_nested (fails : matching.raised .tooDeep .tooDeep) (depth bound : Nat) :
    AgreesInner matching onExpr onStmt bound (nested depth) (nested depth) := by
  induction depth generalizing bound with
  | zero => exact ⟨fun _ => Agrees.raise fails, fun _ => Agrees.raise fails⟩
  | succ depth ih =>
      cases bound with
      | zero => exact agreesInner_zero _ _
      | succ bound =>
          exact ⟨fun _ => agrees_expression lawful builds (ih bound),
            fun _ => agrees_statement lawful builds (ih bound)⟩

/-- The depth does not matter on lists that are shorter than it. -/
theorem agreesInner_of_le {bound depth depth' : Nat} (enough : bound ≤ depth)
    (enough' : bound ≤ depth') :
    AgreesInner matching onExpr onStmt bound (nested depth) (nested depth') := by
  induction bound generalizing depth depth' with
  | zero => exact agreesInner_zero _ _
  | succ bound ih =>
      obtain ⟨depth, rfl⟩ := Nat.exists_eq_succ_of_ne_zero (n := depth) (by omega)
      obtain ⟨depth', rfl⟩ := Nat.exists_eq_succ_of_ne_zero (n := depth') (by omega)
      have agrees := ih (Nat.le_of_succ_le_succ enough) (Nat.le_of_succ_le_succ enough')
      exact ⟨fun _ => agrees_expression lawful builds agrees,
        fun _ => agrees_statement lawful builds agrees⟩

end Depth

end StackScript.Grammar
