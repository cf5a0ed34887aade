import StackScript.Proofs.OnePass.Translation
import StackScript.Proofs.Structured.Contents
import StackScript.Proofs.Structured.OfScript
import Mathlib.Data.Nat.Cast.Basic

/-!
# The passes agree with the translation in one pass

The code that the passes make of a tree is the layout of an outline.  Without the names of
labels this layout depends on nothing but the outline (`unnamed_fragment`), and the outline
is laid out as the translation in one pass (`treeStep_translates`).  So the passes make the
same code (`codeOf_unnamed`).
-/

namespace StackScript.Code

def Fragment.unnamed (fragment : Fragment) : Fragment :=
  { blocks := fragment.blocks.map Entry.unnamed, code := fragment.code.map Entry.unnamed }

theorem Fragment.unnamed_append (first second : Fragment) :
    (first.append second).unnamed = first.unnamed.append second.unnamed := by
  simp [unnamed, append]

namespace Structured

/-- Labelled code with a given outline, in which all labels and numbers are the same. -/
def unlabelled (outline : Outline) : Labelled :=
  outline.mapMarks (fun name? => ⟨name?, ""⟩) fun _ => 0

@[simp] theorem unlabelled_instruction (content : Instruction) (rest : Labelled) :
    (instruction content rest : Labelled).outline.unlabelled =
      instruction content rest.outline.unlabelled := rfl

@[simp] theorem unlabelled_function (site : Site) (parameters : List String)
    (body rest : Labelled) :
    (function site parameters body rest : Labelled).outline.unlabelled =
      function ⟨site.name?, ""⟩ parameters body.outline.unlabelled rest.outline.unlabelled := rfl

@[simp] theorem unlabelled_branch (number : Int) (onTrue onFalse rest : Labelled) :
    (branch number onTrue onFalse rest : Labelled).outline.unlabelled =
      branch 0 onTrue.outline.unlabelled onFalse.outline.unlabelled rest.outline.unlabelled := rfl

/-- The layout of an outline, without the names of labels. -/
def unnamedLayout (outline : Outline) : Fragment :=
  outline.unlabelled.fragment.unnamed

/-- Without the names of labels the code depends only on the outline. -/
theorem map_unnamed_code (labelled : Labelled) :
    labelled.outline.unlabelled.code.map Entry.unnamed = labelled.code.map Entry.unnamed := by
  induction labelled with
  | done => rfl
  | instruction content rest ih => simp [code, ih]
  | function site parameters body rest _ ih =>
      simp [code, ih, Entry.unnamed, Entry.of, Opcode.takesLabel]
  | branch number onTrue onFalse rest trueIH falseIH restIH =>
      simp [code, branching, trueIH, falseIH, restIH, Entry.unnamed, Entry.of, Opcode.takesLabel]

/-- Without the names of labels the blocks depend only on the outline. -/
theorem map_unnamed_blocks (labelled : Labelled) :
    (labelled.outline.unlabelled.blocks.flatMap Block.entries).map Entry.unnamed =
      (labelled.blocks.flatMap Block.entries).map Entry.unnamed := by
  induction labelled with
  | done => rfl
  | instruction content rest ih => exact ih
  | function site parameters body rest bodyIH restIH =>
      simp only [unlabelled_function, blocks, List.flatMap_append, List.flatMap_cons,
        List.map_append, bodyIH, restIH, Block.entries, functionBlock, map_unnamed_code,
        List.map_cons, Entry.unnamed]
  | branch number onTrue onFalse rest trueIH falseIH restIH =>
      simp only [unlabelled_branch, blocks, List.flatMap_append, List.map_append, trueIH, falseIH,
        restIH]

theorem unnamed_fragment (labelled : Labelled) :
    labelled.fragment.unnamed = labelled.outline.unnamedLayout := by
  simp only [unnamedLayout, fragment, Fragment.unnamed, map_unnamed_code, map_unnamed_blocks]

theorem unnamedLayout_append (first second : Outline) :
    (first ++ second).unnamedLayout = first.unnamedLayout.append second.unnamedLayout := by
  rw [unnamedLayout, unlabelled, mapMarks_append, fragment_append, Fragment.unnamed_append]
  rfl

theorem unnamedLayout_single {opcode : Opcode} (argument : Argument)
    (noLabel : opcode.takesLabel = false) :
    unnamedLayout (single opcode argument) = .plain [Entry.of opcode argument] := by
  simp [unnamedLayout, unlabelled, mapMarks, single, fragment, blocks, code, Fragment.unnamed,
    Fragment.plain, Entry.unnamed, Entry.of, noLabel]

theorem unnamedLayout_append_single (code : Outline) {opcode : Opcode} (argument : Argument)
    (noLabel : opcode.takesLabel = false) :
    unnamedLayout (code ++ single opcode argument) =
      code.unnamedLayout.andThen opcode argument := by
  rw [unnamedLayout_append, unnamedLayout_single argument noLabel]
  simp [Fragment.append, Fragment.plain, Fragment.andThen]

theorem unnamedLayout_branch (condition onTrue onFalse : Outline) :
    unnamedLayout (condition ++ branch () onTrue onFalse done) =
      Surface.chosen condition.unnamedLayout onTrue.unnamedLayout onFalse.unnamedLayout := by
  simp [unnamedLayout, unlabelled, mapMarks, fragment, blocks, code, Fragment.unnamed,
    Surface.chosen, branching, Entry.unnamed, Entry.of, Opcode.takesLabel]

theorem unnamedLayout_pushFunction (name? : Option String) (parameters : List String)
    (body : Outline) (taken : Nat) :
    unnamedLayout (Surface.pushFunction name? parameters body taken) =
      Surface.closed taken parameters body.unnamedLayout := by
  simp [unnamedLayout, unlabelled, Surface.pushFunction, mapMarks, single, fragment, blocks,
    code, Block.entries, functionBlock, Fragment.unnamed, Surface.closed]
  exact ⟨⟨rfl, rfl⟩, rfl, rfl, rfl⟩

end Structured

end StackScript.Code

namespace StackScript.Surface

open StackScript.Code (Entry Opcode Outline Fragment symbolArgument textArgument)
open Code.Structured (unnamedLayout_append unnamedLayout_single unnamedLayout_append_single
  unnamedLayout_branch unnamedLayout_pushFunction)

/-! ## The outline of a tree is laid out as its translation -/

/-- The passes and the translation know the same operators. -/
theorem opcodeOfOperator?_eq (operator : String) :
    opcodeOfOperator? operator = operatorOpcode? operator := by
  unfold opcodeOfOperator? Core.Builtin.ofOperator?
  split
  case h_13 => simp [operatorOpcode?]
  all_goals rfl

theorem takesLabel_operatorOpcode? {operator : String} {opcode : Opcode}
    (performed : operatorOpcode? operator = some opcode) : opcode.takesLabel = false := by
  have straight := isStraight_opcodeOfOperator? ((opcodeOfOperator?_eq operator).trans performed)
  cases opcode <;> first | rfl | cases straight

/-- The outline of an expression takes as many temporaries as the expression, and it is laid
out as the translation of the expression. -/
def TranslatesExpr (expression : Expr) : Prop :=
  ∀ {taken : Nat} {after : Int} {outline : Outline},
    outlineExpr taken expression = some (outline, after) →
      after = (taken + expression.temporaries : Nat) ∧
        translateExpr taken expression = some outline.unnamedLayout

def TranslatesStmt (statement : Stmt) : Prop :=
  ∀ {taken : Nat} {after : Int} {outline : Outline},
    outlineStmt taken statement = some (outline, after) →
      after = (taken + statement.temporaries : Nat) ∧
        translateStmt taken statement = some outline.unnamedLayout

section Translates

variable {taken : Nat} {after : Int} {outline : Outline}

theorem translates_outlineExprs {expressions : List Expr}
    (translates : ∀ expression ∈ expressions, TranslatesExpr expression)
    (found : outlineExprs taken expressions = some (outline, after)) :
    after = (taken + exprsTemporaries expressions : Nat) ∧
      translateExprs taken expressions = some outline.unnamedLayout := by
  induction expressions generalizing taken outline with
  | nil =>
      cases found
      exact ⟨rfl, rfl⟩
  | cons expression rest ih =>
      have translatesBoth := List.forall_mem_cons.mp translates
      rcases outlineExprs_cons found with ⟨first, _, second, firstFound, restFound, rfl⟩
      rcases translatesBoth.1 firstFound with ⟨rfl, firstCode⟩
      rcases ih translatesBoth.2 restFound with ⟨rfl, restCode⟩
      refine ⟨by rw [exprsTemporaries, Nat.add_assoc], ?_⟩
      rw [translateExprs, firstCode, unnamedLayout_append]
      simp only [Option.bind_eq_bind, Option.bind_some, restCode]
      rfl

theorem translates_outlineFields {fields : List (String × Expr)}
    (translates : ∀ field ∈ fields, TranslatesExpr field.2)
    (found : outlineFields taken fields = some (outline, after)) :
    after = (taken + fieldsTemporaries fields : Nat) ∧
      translateFields taken fields = some outline.unnamedLayout := by
  induction fields generalizing taken outline with
  | nil =>
      cases found
      exact ⟨rfl, rfl⟩
  | cons field rest ih =>
      have translatesBoth := List.forall_mem_cons.mp translates
      rcases outlineFields_cons found with ⟨first, _, second, firstFound, restFound, rfl⟩
      rcases translatesBoth.1 firstFound with ⟨rfl, firstCode⟩
      rcases ih translatesBoth.2 restFound with ⟨rfl, restCode⟩
      refine ⟨by rw [fieldsTemporaries, Nat.add_assoc], ?_⟩
      rw [translateFields, firstCode, ← Code.Structured.append_assoc, unnamedLayout_append,
        unnamedLayout_append_single _ _ rfl]
      simp only [Option.bind_eq_bind, Option.bind_some, restCode]
      rfl

theorem translates_outlineStmts {statements : List Stmt}
    (translates : ∀ statement ∈ statements, TranslatesStmt statement)
    (found : outlineStmts taken statements = some (outline, after)) :
    after = (taken + stmtsTemporaries statements : Nat) ∧
      translateStmts taken statements = some outline.unnamedLayout := by
  induction statements generalizing taken outline with
  | nil =>
      cases found
      exact ⟨rfl, rfl⟩
  | cons statement rest ih =>
      have translatesBoth := List.forall_mem_cons.mp translates
      rcases outlineStmts_cons found with ⟨first, _, second, firstFound, restFound, rfl⟩
      rcases translatesBoth.1 firstFound with ⟨rfl, firstCode⟩
      rcases ih translatesBoth.2 restFound with ⟨rfl, restCode⟩
      refine ⟨by rw [stmtsTemporaries, Nat.add_assoc], ?_⟩
      rw [translateStmts, firstCode, unnamedLayout_append]
      simp only [Option.bind_eq_bind, Option.bind_some, restCode]
      rfl

theorem translates_outlineBody {statements : List Stmt}
    (translates : OnBody TranslatesExpr TranslatesStmt statements)
    (found : outlineBody taken statements = some (outline, after)) :
    after = (taken + stmtsTemporaries statements : Nat) ∧
      translateBody taken statements = some outline.unnamedLayout := by
  induction statements generalizing taken outline with
  | nil => cases found
  | cons statement rest ih =>
      rcases outlineBody_cons found with ⟨rfl, expression, rfl, valueFound⟩ |
        ⟨more, first, _, second, firstFound, restFound, rfl⟩
      · rw [stmtsTemporaries, stmtsTemporaries, Nat.add_zero, Stmt.temporaries, translateBody]
        exact translates.values expression List.mem_cons_self valueFound
      · rcases translates.head firstFound with ⟨rfl, firstCode⟩
        rcases ih translates.tail restFound with ⟨rfl, restCode⟩
        refine ⟨by rw [stmtsTemporaries, Nat.add_assoc], ?_⟩
        cases rest with
        | nil => exact absurd rfl more
        | cons next others =>
            rw [translateBody, firstCode, unnamedLayout_append]
            simp only [Option.bind_eq_bind, Option.bind_some, restCode]
            rfl

theorem temporaries_of_name? {expression : Expr} {name : String}
    (named : expression.name? = some name) : expression.temporaries = 0 := by
  cases expression with
  | symbol position given => rfl
  | misplaced form name? => rfl
  | _ => cases named

theorem translatesExpr_binary (position : Position) (level : Level) (operator : String)
    (left right : Expr) (translatesLeft : TranslatesExpr left)
    (translatesRight : TranslatesExpr right) :
    TranslatesExpr (.binary position level operator left right) := by
  intro taken after outline found
  rcases outlineExpr_binary found with ⟨first, between, leftFound, operators⟩
  rcases translatesLeft leftFound with ⟨rfl, leftCode⟩
  rw [translateExpr, leftCode]
  simp only [Option.bind_eq_bind, Option.bind_some]
  rcases operators with ⟨rfl, second, rightFound, rfl⟩ | ⟨rfl, second, rightFound, rfl⟩ |
    ⟨rfl, field, named, rfl, rfl⟩ |
    ⟨notAnd, notOr, notPeriod, opcode, second, performed, rightFound, rfl⟩
  · rcases translatesRight rightFound with ⟨rfl, rightCode⟩
    refine ⟨by rw [Expr.temporaries, Nat.add_assoc], ?_⟩
    rw [unnamedLayout_branch, pushSymbol, unnamedLayout_single _ rfl]
    simp only [rightCode, Option.bind_some]
    rfl
  · rcases translatesRight rightFound with ⟨rfl, rightCode⟩
    refine ⟨by rw [Expr.temporaries, Nat.add_assoc], ?_⟩
    rw [unnamedLayout_branch, pushSymbol, unnamedLayout_single _ rfl]
    simp only [rightCode, Option.bind_some]
    rfl
  · refine ⟨by rw [Expr.temporaries, temporaries_of_name? named, Nat.add_zero], ?_⟩
    rw [unnamedLayout_append_single _ _ rfl, pushSymbol, unnamedLayout_append_single _ _ rfl,
      unnamedLayout_append_single _ _ rfl, if_pos rfl, named]
    simp [Fragment.append, Fragment.andThen, Fragment.plain]
  · rcases translatesRight rightFound with ⟨rfl, rightCode⟩
    rw [opcodeOfOperator?_eq] at performed
    refine ⟨by rw [Expr.temporaries, Nat.add_assoc], ?_⟩
    rw [unnamedLayout_append_single _ _ (takesLabel_operatorOpcode? performed),
      unnamedLayout_append, if_neg notPeriod]
    simp only [rightCode, Option.bind_some, if_neg notAnd, if_neg notOr, performed]
    rfl

/-- Every tree is translated from its parts. -/
theorem treeStep_translates : TreeStep TranslatesExpr TranslatesStmt where
  integer := by
    rintro value taken _ _ ⟨⟩
    exact ⟨rfl, rfl⟩
  text := by
    rintro content taken _ _ ⟨⟩
    exact ⟨rfl, rfl⟩
  symbol := by
    rintro position name taken _ _ ⟨⟩
    exact ⟨rfl, rfl⟩
  negation := by
    intro position operand translates taken after outline found
    rcases outlineExpr_negation found with ⟨inner, innerFound, rfl⟩
    rcases translates innerFound with ⟨rfl, innerCode⟩
    refine ⟨rfl, ?_⟩
    rw [translateExpr, innerCode, unnamedLayout_append_single _ _ rfl]
    rfl
  binary := translatesExpr_binary
  list := by
    intro items translates taken after outline found
    rcases outlineExpr_list found with ⟨inner, innerFound, rfl⟩
    have innerFound : outlineExprs (taken + 1 : Nat) items = some (inner, after) := innerFound
    rcases translates_outlineExprs translates innerFound with ⟨rfl, innerCode⟩
    refine ⟨by rw [Expr.temporaries, Nat.add_assoc], ?_⟩
    rw [translateExpr, innerCode, unnamedLayout_append_single _ _ rfl]
    rfl
  record := by
    intro fields translates taken after outline found
    rcases outlineExpr_record found with ⟨inner, innerFound, rfl⟩
    rcases translates_outlineFields translates innerFound with ⟨rfl, innerCode⟩
    refine ⟨by rw [Expr.temporaries], ?_⟩
    rw [translateExpr, innerCode, unnamedLayout_append_single _ _ rfl]
    rfl
  item := by
    rintro position subject index _ _ _ _ _ ⟨⟩
  call := by
    intro position function arguments translatesFunction translatesArguments taken after outline
      found
    rcases outlineExpr_call found with ⟨first, _, second, argumentsFound, functionFound, rfl⟩
    rcases translates_outlineExprs translatesArguments argumentsFound with ⟨rfl, argumentsCode⟩
    rcases translatesFunction functionFound with ⟨rfl, functionCode⟩
    refine ⟨by rw [Expr.temporaries, Nat.add_assoc], ?_⟩
    rw [translateExpr, argumentsCode, unnamedLayout_append_single _ _ rfl, unnamedLayout_append]
    simp only [functionCode, Option.bind_eq_bind, Option.bind_some]
    rfl
  lambda := by
    intro parameters body translates taken after outline found
    rcases outlineExpr_lambda found with ⟨inner, last, innerFound, rfl, rfl⟩
    rcases translates_outlineBody translates innerFound with ⟨rfl, innerCode⟩
    refine ⟨rfl, ?_⟩
    rw [translateExpr, innerCode, unnamedLayout_pushFunction]
    rfl
  conditional := by
    intro condition onTrue onFalse translatesCondition translatesTrue translatesFalse taken after
      outline found
    rcases outlineExpr_conditional found with
      ⟨first, _, second, _, third, firstFound, secondFound, thirdFound, rfl⟩
    rcases translatesCondition firstFound with ⟨rfl, firstCode⟩
    rcases translates_outlineBody translatesTrue secondFound with ⟨rfl, secondCode⟩
    rcases translates_outlineBody translatesFalse thirdFound with ⟨rfl, thirdCode⟩
    refine ⟨by rw [Expr.temporaries, Nat.add_assoc, Nat.add_assoc, Nat.add_assoc], ?_⟩
    rw [translateExpr, firstCode, unnamedLayout_branch]
    simp only [secondCode, thirdCode, Option.bind_eq_bind, Option.bind_some]
    rfl
  misplacedExpr := by
    rintro form name? _ _ _ ⟨⟩
  assign := by
    intro target value translates taken after outline found
    rcases outlineStmt_assign found with ⟨inner, innerFound, rfl⟩
    rcases translates innerFound with ⟨rfl, innerCode⟩
    refine ⟨rfl, ?_⟩
    rw [translateStmt, innerCode, unnamedLayout_append_single _ _ rfl]
    rfl
  evaluate := by
    intro expression translates taken after outline found
    rcases outlineStmt_evaluate found with ⟨inner, innerFound, rfl⟩
    rcases translates innerFound with ⟨rfl, innerCode⟩
    refine ⟨rfl, ?_⟩
    rw [translateStmt, innerCode, unnamedLayout_append_single _ _ rfl]
    rfl
  define := by
    intro name parameters body translates taken after outline found
    rcases outlineStmt_define found with ⟨inner, last, innerFound, rfl, rfl⟩
    rcases translates_outlineBody translates innerFound with ⟨rfl, innerCode⟩
    refine ⟨rfl, ?_⟩
    rw [translateStmt, innerCode, unnamedLayout_append_single _ _ rfl,
      unnamedLayout_pushFunction]
    rfl
  misplacedStmt := by
    rintro form _ _ _ ⟨⟩

/-- The outline of a script is laid out as its translation. -/
theorem translation_eq {program : Program} (found : program.outline = some outline) :
    program.translation =
      some (outline.unnamedLayout.blocks ++ .unnamedLabel :: outline.unnamedLayout.code ++
        [Entry.of .halt .nothing]) := by
  rcases Option.map_eq_some_iff.mp found with ⟨⟨_, after⟩, stmtsFound, rfl⟩
  have translates := (treeStep_translates.body program.statements).statements
  rw [Program.translation, (translates_outlineStmts translates stmtsFound).2]
  rfl

end Translates

end StackScript.Surface

namespace StackScript.Script

open StackScript.Code (Entry assemble)

/-- Without the names of labels, the code that the passes make of a tree is the translation
of the tree in one pass. -/
theorem codeOf_unnamed {program : Surface.Program} {entries : List Entry}
    (generated : codeOf program = .ok entries) :
    program.translation = some (entries.map Entry.unnamed) := by
  rcases codeOf_structured generated with ⟨labelled, _, outlined, rfl, _⟩
  rw [Surface.translation_eq outlined, ← Code.Structured.unnamed_fragment]
  simp [assemble, Code.Fragment.unnamed, Entry.unnamed, Entry.of, Code.Opcode.takesLabel]

/-- The tree of `x = [lambda(y) do y end, 1 + 2]`. -/
def functionInList : Surface.Program :=
  { statements :=
      [.assign "x" (.list
        [.lambda ["y"] [.evaluate (.symbol ⟨18, 1⟩ "y")],
          .binary ⟨27, 1⟩ .addition "+" (.integer 1) (.integer 2)])] }

/-- The list takes the number 0, so the function in it is bound to the temporary `$1`. -/
theorem functionInList_unnamed :
    codeOf functionInList =
        .ok [.label "__lambda__$0", .of .pop (.text "sym(y)"), .of .push (.text "sym(y)"),
          .of .returnValue .nothing, .label "__main__", .of .close (.text "__lambda__$0"),
          .of .pop (.text "sym($1)"), .of .push (.text "sym($1)"),
          .of .pushInteger (.integer 1), .of .pushInteger (.integer 2), .of .add (.integer 2),
          .of .list (.integer 2), .of .pop (.text "sym(x)"), .of .halt .nothing] ∧
      functionInList.translation =
        some [.unnamedLabel, .of .pop (.text "sym(y)"), .of .push (.text "sym(y)"),
          .of .returnValue .nothing, .unnamedLabel, .of .close .nothing,
          .of .pop (.text "sym($1)"), .of .push (.text "sym($1)"),
          .of .pushInteger (.integer 1), .of .pushInteger (.integer 2), .of .add (.integer 2),
          .of .list (.integer 2), .of .pop (.text "sym(x)"), .of .halt .nothing] := by
  have generated : codeOf functionInList =
      .ok [.label "__lambda__$0", .of .pop (.text "sym(y)"), .of .push (.text "sym(y)"),
        .of .returnValue .nothing, .label "__main__", .of .close (.text "__lambda__$0"),
        .of .pop (.text "sym($1)"), .of .push (.text "sym($1)"),
        .of .pushInteger (.integer 1), .of .pushInteger (.integer 2), .of .add (.integer 2),
        .of .list (.integer 2), .of .pop (.text "sym(x)"), .of .halt .nothing] := by
    decide +kernel
  exact ⟨generated, codeOf_unnamed generated⟩

end StackScript.Script
