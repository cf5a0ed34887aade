import StackScript.Proofs.Structured.Outline

/-!
# What outlines contain

The outline of a script has the functions of the script, in the order of evaluation
(`functions_outline`), and all its instructions go on to the next one
(`isStraight_outline`).
-/

namespace StackScript.Surface

open StackScript.Code (Outline Opcode withInner symbolArgument textArgument)

/-- The outline of an expression has its functions. -/
def KeepsFunctionsExpr (outerFirst : Bool) (expression : Expr) : Prop :=
  ∀ {counter after : Int} {outline : Outline},
    outlineExpr counter expression = some (outline, after) →
      outline.functions outerFirst = expression.functions outerFirst

def KeepsFunctionsStmt (outerFirst : Bool) (statement : Stmt) : Prop :=
  ∀ {counter after : Int} {outline : Outline},
    outlineStmt counter statement = some (outline, after) →
      outline.functions outerFirst = statement.functions outerFirst

section Functions

variable {outerFirst : Bool} {counter after : Int} {outline : Outline}

theorem functions_outlineExprs {expressions : List Expr}
    (keeps : ∀ expression ∈ expressions, KeepsFunctionsExpr outerFirst expression)
    (found : outlineExprs counter expressions = some (outline, after)) :
    outline.functions outerFirst = exprsFunctions outerFirst expressions := by
  induction expressions generalizing counter outline with
  | nil =>
      cases found
      rfl
  | cons expression rest ih =>
      have keepsBoth := List.forall_mem_cons.mp keeps
      rcases outlineExprs_cons found with ⟨first, between, second, firstFound, restFound, rfl⟩
      rw [Code.Structured.functions_append, keepsBoth.1 firstFound, ih keepsBoth.2 restFound,
        exprsFunctions]

theorem functions_outlineFields {fields : List (String × Expr)}
    (keeps : ∀ field ∈ fields, KeepsFunctionsExpr outerFirst field.2)
    (found : outlineFields counter fields = some (outline, after)) :
    outline.functions outerFirst = fieldsFunctions outerFirst fields := by
  induction fields generalizing counter outline with
  | nil =>
      cases found
      rfl
  | cons field rest ih =>
      have keepsBoth := List.forall_mem_cons.mp keeps
      rcases outlineFields_cons found with ⟨first, between, second, firstFound, restFound, rfl⟩
      rw [Code.Structured.functions_append, Code.Structured.functions_append,
        keepsBoth.1 firstFound, ih keepsBoth.2 restFound, fieldsFunctions]
      rfl

theorem functions_outlineStmts {statements : List Stmt}
    (keeps : ∀ statement ∈ statements, KeepsFunctionsStmt outerFirst statement)
    (found : outlineStmts counter statements = some (outline, after)) :
    outline.functions outerFirst = stmtsFunctions outerFirst statements := by
  induction statements generalizing counter outline with
  | nil =>
      cases found
      rfl
  | cons statement rest ih =>
      have keepsBoth := List.forall_mem_cons.mp keeps
      rcases outlineStmts_cons found with ⟨first, between, second, firstFound, restFound, rfl⟩
      rw [Code.Structured.functions_append, keepsBoth.1 firstFound, ih keepsBoth.2 restFound,
        stmtsFunctions]

theorem functions_outlineBody {statements : List Stmt}
    (keeps : OnBody (KeepsFunctionsExpr outerFirst) (KeepsFunctionsStmt outerFirst) statements)
    (found : outlineBody counter statements = some (outline, after)) :
    outline.functions outerFirst = stmtsFunctions outerFirst statements := by
  induction statements generalizing counter outline with
  | nil => cases found
  | cons statement rest ih =>
      rcases outlineBody_cons found with ⟨rfl, expression, rfl, valueFound⟩ |
        ⟨_, first, between, second, firstFound, restFound, rfl⟩
      · rw [keeps.values expression List.mem_cons_self valueFound, stmtsFunctions,
          stmtsFunctions, List.append_nil, Stmt.functions]
      · rw [Code.Structured.functions_append, keeps.head firstFound, ih keeps.tail restFound,
          stmtsFunctions]

/-- An expression that carries a name holds no function. -/
theorem functions_of_name? {expression : Expr} {name : String}
    (named : expression.name? = some name) : expression.functions outerFirst = [] := by
  cases expression with
  | symbol position given => rfl
  | misplaced form name? => rfl
  | _ => cases named

theorem keepsFunctions_binary (position : Position) (level : Level) (operator : String)
    (left right : Expr) (keepsLeft : KeepsFunctionsExpr outerFirst left)
    (keepsRight : KeepsFunctionsExpr outerFirst right) :
    KeepsFunctionsExpr outerFirst (.binary position level operator left right) := by
  intro counter after outline found
  rcases outlineExpr_binary found with ⟨first, between, leftFound,
    ⟨_, second, rightFound, rfl⟩ | ⟨_, second, rightFound, rfl⟩ | ⟨_, field, named, _, rfl⟩ |
    ⟨_, _, _, opcode, second, _, rightFound, rfl⟩⟩
  · simp [Code.Structured.functions, pushSymbol, Code.Structured.single, Expr.functions,
      keepsLeft leftFound, keepsRight rightFound]
  · simp [Code.Structured.functions, pushSymbol, Code.Structured.single, Expr.functions,
      keepsLeft leftFound, keepsRight rightFound]
  · simp [Code.Structured.functions, pushSymbol, Code.Structured.single, Expr.functions,
      keepsLeft leftFound, functions_of_name? named]
  · simp [Code.Structured.functions, Code.Structured.single, Expr.functions,
      keepsLeft leftFound, keepsRight rightFound]

theorem functions_pushFunction (name? : Option String) (parameters : List String)
    (body : Outline) :
    (pushFunction name? parameters body counter).functions outerFirst =
      withInner outerFirst (name?, parameters) (body.functions outerFirst) := by
  simp [pushFunction, Code.Structured.functions, Code.Structured.single]

theorem treeStep_keepsFunctions :
    TreeStep (KeepsFunctionsExpr outerFirst) (KeepsFunctionsStmt outerFirst) where
  integer := by
    rintro value _ _ _ ⟨⟩
    rfl
  text := by
    rintro content _ _ _ ⟨⟩
    rfl
  symbol := by
    rintro position name _ _ _ ⟨⟩
    rfl
  negation := by
    intro position operand keeps counter after outline found
    rcases outlineExpr_negation found with ⟨inner, innerFound, rfl⟩
    simp [Code.Structured.functions, Code.Structured.single, Expr.functions, keeps innerFound]
  binary := keepsFunctions_binary
  list := by
    intro items keeps counter after outline found
    rcases outlineExpr_list found with ⟨inner, innerFound, rfl⟩
    simp [Code.Structured.functions, Code.Structured.single, Expr.functions,
      functions_outlineExprs keeps innerFound]
  record := by
    intro fields keeps counter after outline found
    rcases outlineExpr_record found with ⟨inner, innerFound, rfl⟩
    simp [Code.Structured.functions, Code.Structured.single, Expr.functions,
      functions_outlineFields keeps innerFound]
  item := by
    rintro position subject index _ _ _ _ _ ⟨⟩
  call := by
    intro position function arguments keepsFunction keepsArguments counter after outline found
    rcases outlineExpr_call found with
      ⟨first, between, second, argumentsFound, functionFound, rfl⟩
    simp [Code.Structured.functions, Code.Structured.single, Expr.functions,
      functions_outlineExprs keepsArguments argumentsFound, keepsFunction functionFound]
  lambda := by
    intro parameters body keeps counter after outline found
    rcases outlineExpr_lambda found with ⟨inner, last, innerFound, rfl, _⟩
    rw [functions_pushFunction, functions_outlineBody keeps innerFound, Expr.functions]
  conditional := by
    intro condition onTrue onFalse keepsCondition keepsTrue keepsFalse counter after outline found
    rcases outlineExpr_conditional found with
      ⟨first, _, second, _, third, firstFound, secondFound, thirdFound, rfl⟩
    simp [Code.Structured.functions, Expr.functions, keepsCondition firstFound,
      functions_outlineBody keepsTrue secondFound, functions_outlineBody keepsFalse thirdFound]
  misplacedExpr := by
    rintro form name? _ _ _ ⟨⟩
  assign := by
    intro target value keeps counter after outline found
    rcases outlineStmt_assign found with ⟨inner, innerFound, rfl⟩
    simp [Code.Structured.functions, Code.Structured.single, Stmt.functions, keeps innerFound]
  evaluate := by
    intro expression keeps counter after outline found
    rcases outlineStmt_evaluate found with ⟨inner, innerFound, rfl⟩
    simp [Code.Structured.functions, Code.Structured.single, Stmt.functions, keeps innerFound]
  define := by
    intro name parameters body keeps counter after outline found
    rcases outlineStmt_define found with ⟨inner, last, innerFound, rfl, _⟩
    rw [Code.Structured.functions_append, functions_pushFunction,
      functions_outlineBody keeps innerFound, Stmt.functions]
    simp [Code.Structured.functions, Code.Structured.single]
  misplacedStmt := by
    rintro form _ _ _ ⟨⟩

/-- The outline of a script has the functions of the script. -/
theorem functions_outline {program : Program} (found : program.outline = some outline) :
    outline.functions outerFirst = program.functions outerFirst := by
  rcases Option.map_eq_some_iff.mp found with ⟨⟨_, after⟩, stmtsFound, rfl⟩
  exact functions_outlineStmts (treeStep_keepsFunctions.body program.statements).statements
    stmtsFound

end Functions

/-! ## The instructions of an outline -/

/-- The outline of an expression has only straight instructions. -/
def StraightExpr (expression : Expr) : Prop :=
  ∀ {counter after : Int} {outline : Outline},
    outlineExpr counter expression = some (outline, after) → outline.IsStraight

def StraightStmt (statement : Stmt) : Prop :=
  ∀ {counter after : Int} {outline : Outline},
    outlineStmt counter statement = some (outline, after) → outline.IsStraight

section Straight

open Code.Structured (isStraight_append isStraight_single isStraight_function
  isStraight_branch isStraight_done)

variable {counter after : Int} {outline : Outline}

theorem isStraight_opcodeOfOperator? {operator : String} {opcode : Opcode}
    (performed : opcodeOfOperator? operator = some opcode) : opcode.isStraight = true := by
  have allStraight : operatorOpcodes.all Opcode.isStraight = true := by decide
  exact holds_of_operator allStraight performed

theorem straight_outlineExprs {expressions : List Expr}
    (straight : ∀ expression ∈ expressions, StraightExpr expression)
    (found : outlineExprs counter expressions = some (outline, after)) :
    outline.IsStraight := by
  induction expressions generalizing counter outline with
  | nil =>
      cases found
      exact isStraight_done
  | cons expression rest ih =>
      have straightBoth := List.forall_mem_cons.mp straight
      rcases outlineExprs_cons found with ⟨first, between, second, firstFound, restFound, rfl⟩
      exact isStraight_append.mpr ⟨straightBoth.1 firstFound, ih straightBoth.2 restFound⟩

theorem straight_outlineFields {fields : List (String × Expr)}
    (straight : ∀ field ∈ fields, StraightExpr field.2)
    (found : outlineFields counter fields = some (outline, after)) :
    outline.IsStraight := by
  induction fields generalizing counter outline with
  | nil =>
      cases found
      exact isStraight_done
  | cons field rest ih =>
      have straightBoth := List.forall_mem_cons.mp straight
      rcases outlineFields_cons found with ⟨first, between, second, firstFound, restFound, rfl⟩
      exact isStraight_append.mpr ⟨straightBoth.1 firstFound,
        isStraight_append.mpr ⟨isStraight_single rfl, ih straightBoth.2 restFound⟩⟩

theorem straight_outlineStmts {statements : List Stmt}
    (straight : ∀ statement ∈ statements, StraightStmt statement)
    (found : outlineStmts counter statements = some (outline, after)) :
    outline.IsStraight := by
  induction statements generalizing counter outline with
  | nil =>
      cases found
      exact isStraight_done
  | cons statement rest ih =>
      have straightBoth := List.forall_mem_cons.mp straight
      rcases outlineStmts_cons found with ⟨first, between, second, firstFound, restFound, rfl⟩
      exact isStraight_append.mpr ⟨straightBoth.1 firstFound, ih straightBoth.2 restFound⟩

theorem straight_outlineBody {statements : List Stmt}
    (straight : OnBody StraightExpr StraightStmt statements)
    (found : outlineBody counter statements = some (outline, after)) :
    outline.IsStraight := by
  induction statements generalizing counter outline with
  | nil => cases found
  | cons statement rest ih =>
      rcases outlineBody_cons found with ⟨rfl, expression, rfl, valueFound⟩ |
        ⟨_, first, between, second, firstFound, restFound, rfl⟩
      · exact straight.values expression List.mem_cons_self valueFound
      · exact isStraight_append.mpr ⟨straight.head firstFound, ih straight.tail restFound⟩

theorem straightExpr_binary (position : Position) (level : Level) (operator : String)
    (left right : Expr) (straightLeft : StraightExpr left) (straightRight : StraightExpr right) :
    StraightExpr (.binary position level operator left right) := by
  intro counter after outline found
  rcases outlineExpr_binary found with ⟨first, between, leftFound,
    ⟨_, second, rightFound, rfl⟩ | ⟨_, second, rightFound, rfl⟩ | ⟨_, field, _, _, rfl⟩ |
    ⟨_, _, _, opcode, second, performed, rightFound, rfl⟩⟩
  · exact isStraight_append.mpr ⟨straightLeft leftFound,
      isStraight_branch (straightRight rightFound) (isStraight_single rfl)⟩
  · exact isStraight_append.mpr ⟨straightLeft leftFound,
      isStraight_branch (isStraight_single rfl) (straightRight rightFound)⟩
  · have loaded : (first ++ .single .pushText (textArgument field) : Outline).IsStraight :=
      isStraight_append.mpr ⟨straightLeft leftFound, isStraight_single rfl⟩
    exact isStraight_append.mpr
      ⟨isStraight_append.mpr ⟨loaded, isStraight_single rfl⟩, isStraight_single rfl⟩
  · exact isStraight_append.mpr
      ⟨isStraight_append.mpr ⟨straightLeft leftFound, straightRight rightFound⟩,
        isStraight_single (isStraight_opcodeOfOperator? performed)⟩

theorem isStraight_pushFunction {name? : Option String} {parameters : List String}
    {body : Outline} (straight : body.IsStraight) :
    (pushFunction name? parameters body counter).IsStraight :=
  isStraight_function straight
    (isStraight_append.mpr ⟨isStraight_single rfl, isStraight_single rfl⟩)

theorem treeStep_straight : TreeStep StraightExpr StraightStmt where
  integer := by
    rintro value _ _ _ ⟨⟩
    exact isStraight_single rfl
  text := by
    rintro content _ _ _ ⟨⟩
    exact isStraight_single rfl
  symbol := by
    rintro position name _ _ _ ⟨⟩
    exact isStraight_single rfl
  negation := by
    intro position operand straight counter after outline found
    rcases outlineExpr_negation found with ⟨inner, innerFound, rfl⟩
    exact isStraight_append.mpr ⟨straight innerFound, isStraight_single rfl⟩
  binary := straightExpr_binary
  list := by
    intro items straight counter after outline found
    rcases outlineExpr_list found with ⟨inner, innerFound, rfl⟩
    exact isStraight_append.mpr
      ⟨straight_outlineExprs straight innerFound, isStraight_single rfl⟩
  record := by
    intro fields straight counter after outline found
    rcases outlineExpr_record found with ⟨inner, innerFound, rfl⟩
    exact isStraight_append.mpr
      ⟨straight_outlineFields straight innerFound, isStraight_single rfl⟩
  item := by
    rintro position subject index _ _ _ _ _ ⟨⟩
  call := by
    intro position function arguments straightFunction straightArguments counter after outline
      found
    rcases outlineExpr_call found with
      ⟨first, between, second, argumentsFound, functionFound, rfl⟩
    have parts := isStraight_append.mpr
      ⟨straight_outlineExprs straightArguments argumentsFound, straightFunction functionFound⟩
    exact isStraight_append.mpr ⟨parts, isStraight_single rfl⟩
  lambda := by
    intro parameters body straight counter after outline found
    rcases outlineExpr_lambda found with ⟨inner, last, innerFound, rfl, _⟩
    exact isStraight_pushFunction (straight_outlineBody straight innerFound)
  conditional := by
    intro condition onTrue onFalse straightCondition straightTrue straightFalse counter after
      outline found
    rcases outlineExpr_conditional found with
      ⟨first, _, second, _, third, firstFound, secondFound, thirdFound, rfl⟩
    exact isStraight_append.mpr ⟨straightCondition firstFound,
      isStraight_branch (straight_outlineBody straightTrue secondFound)
        (straight_outlineBody straightFalse thirdFound)⟩
  misplacedExpr := by
    rintro form name? _ _ _ ⟨⟩
  assign := by
    intro target value straight counter after outline found
    rcases outlineStmt_assign found with ⟨inner, innerFound, rfl⟩
    exact isStraight_append.mpr ⟨straight innerFound, isStraight_single rfl⟩
  evaluate := by
    intro expression straight counter after outline found
    rcases outlineStmt_evaluate found with ⟨inner, innerFound, rfl⟩
    exact isStraight_append.mpr ⟨straight innerFound, isStraight_single rfl⟩
  define := by
    intro name parameters body straight counter after outline found
    rcases outlineStmt_define found with ⟨inner, last, innerFound, rfl, _⟩
    exact isStraight_append.mpr
      ⟨isStraight_pushFunction (straight_outlineBody straight innerFound), isStraight_single rfl⟩
  misplacedStmt := by
    rintro form _ _ _ ⟨⟩

/-- The outline of a script has only straight instructions. -/
theorem isStraight_outline {program : Program} (found : program.outline = some outline) :
    outline.IsStraight := by
  rcases Option.map_eq_some_iff.mp found with ⟨⟨_, after⟩, stmtsFound, rfl⟩
  exact straight_outlineStmts (treeStep_straight.body program.statements).statements stmtsFound

end Straight

end StackScript.Surface
