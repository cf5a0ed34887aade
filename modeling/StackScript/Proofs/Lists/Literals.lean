import StackScript.Proofs.Depth.Basic
import StackScript.Proofs.Lists.Parts

/-!
# The code of lists

The code of a list is the code of its items in order, and then one instruction.  Its argument is
2 for every list, however many items there are (`Script.code_of_lists`).  So if a list takes as
many values as its argument says, the items of a list leave one value each only as long as the
lists inside them have two items.
-/

namespace StackScript.Code

/-- How many values an instruction takes from the stack, and how many it puts there, if a list
takes as many as its argument says. -/
def Instruction.countedEffect? (content : Instruction) : Option (Nat × Nat) :=
  if content.opcode = .list then (Machine.count? content.argument).map fun count => (count, 1)
  else content.effect?

namespace Structured

variable {φ β : Type}

/-- The depth of the stack after structured code that starts at a given depth.  There is none if
an instruction takes more than there is, if the branches of a conditional end at two depths or if
the body of a function leaves anything but one value. -/
def depthAfter? : Structured φ β → (depth : Nat) → Option Nat
  | done, depth => some depth
  | instruction content rest, depth => do
      let (taken, given) ← content.countedEffect?
      if taken ≤ depth then rest.depthAfter? (depth - taken + given) else none
  | function _ _ body rest, depth =>
      if body.depthAfter? 0 = some 1 then rest.depthAfter? (depth + 1) else none
  | branch _ _ _ _, 0 => none
  | branch _ onTrue onFalse rest, depth + 1 => do
      let after ← onTrue.depthAfter? depth
      if onFalse.depthAfter? depth = some after then rest.depthAfter? after else none

@[simp] theorem depthAfter?_done (depth : Nat) :
    (done : Structured φ β).depthAfter? depth = some depth := rfl

@[simp] theorem depthAfter?_instruction (content : Instruction) (rest : Structured φ β)
    (depth : Nat) :
    (instruction content rest).depthAfter? depth = content.countedEffect?.bind fun effect =>
      if effect.1 ≤ depth then rest.depthAfter? (depth - effect.1 + effect.2) else none := rfl

@[simp] theorem depthAfter?_function (mark : φ) (parameters : List String)
    (body rest : Structured φ β) (depth : Nat) :
    (function mark parameters body rest).depthAfter? depth =
      if body.depthAfter? 0 = some 1 then rest.depthAfter? (depth + 1) else none := rfl

@[simp] theorem depthAfter?_branch_zero (mark : β) (onTrue onFalse rest : Structured φ β) :
    (branch mark onTrue onFalse rest).depthAfter? 0 = none := rfl

@[simp] theorem depthAfter?_branch_succ (mark : β) (onTrue onFalse rest : Structured φ β)
    (depth : Nat) :
    (branch mark onTrue onFalse rest).depthAfter? (depth + 1) =
      (onTrue.depthAfter? depth).bind fun after =>
        if onFalse.depthAfter? depth = some after then rest.depthAfter? after else none := rfl

theorem depthAfter?_append (first second : Structured φ β) (depth : Nat) :
    (first ++ second).depthAfter? depth = (first.depthAfter? depth).bind second.depthAfter? := by
  induction first generalizing depth with
  | done => rfl
  | instruction content rest ih =>
      rw [instruction_append, depthAfter?_instruction, depthAfter?_instruction]
      cases content.countedEffect? with
      | none => rfl
      | some effect => by_cases enough : effect.1 ≤ depth <;> simp [enough, ih]
  | function mark parameters body rest _ ih =>
      rw [function_append, depthAfter?_function, depthAfter?_function]
      by_cases leavesOne : body.depthAfter? 0 = some 1 <;> simp [leavesOne, ih]
  | branch mark onTrue onFalse rest _ _ ih =>
      cases depth with
      | zero => rfl
      | succ depth =>
          rw [branch_append, depthAfter?_branch_succ, depthAfter?_branch_succ]
          cases onTrue.depthAfter? depth with
          | none => rfl
          | some after =>
              by_cases same : onFalse.depthAfter? depth = some after <;> simp [same, ih]

theorem depthAfter?_mapMarks {φ' β' : Type} (onFunction : φ → φ') (onBranch : β → β')
    (code : Structured φ β) (depth : Nat) :
    (code.mapMarks onFunction onBranch).depthAfter? depth = code.depthAfter? depth := by
  induction code generalizing depth with
  | done => rfl
  | instruction content rest ih => simp [mapMarks, ih]
  | function mark parameters body rest bodyIH restIH =>
      simp [mapMarks, bodyIH, restIH]
  | branch mark onTrue onFalse rest trueIH falseIH restIH =>
      cases depth <;> simp [mapMarks, trueIH, falseIH, restIH]

/-- Structured code adds a number of values to a stack of any depth. -/
def Adds (code : Structured φ β) (count : Nat) : Prop :=
  ∀ depth, code.depthAfter? depth = some (depth + count)

namespace Adds

variable {first second third : Structured φ β} {count more : Nat}

theorem done : Adds (done : Structured φ β) 0 :=
  fun _ => rfl

theorem append (adds : Adds first count) (addsMore : Adds second more) :
    Adds (first ++ second) (count + more) := by
  intro depth
  rw [depthAfter?_append, adds, Option.bind_some, addsMore, Nat.add_assoc]

/-- An instruction takes the values that are added and gives others. -/
theorem andThen {opcode : Opcode} {argument : Argument} {taken given : Nat}
    (adds : Adds first taken)
    (effect : (Instruction.mk opcode argument).countedEffect? = some (taken, given)) :
    Adds (first ++ single opcode argument) given := by
  intro depth
  rw [depthAfter?_append, adds, Option.bind_some, single, depthAfter?_instruction, effect]
  simp

theorem branch {mark : β} (adds : Adds first 1) (trueAdds : Adds second count)
    (falseAdds : Adds third count) :
    Adds (first ++ branch mark second third .done) count := by
  intro depth
  rw [depthAfter?_append, adds, Option.bind_some, depthAfter?_branch_succ]
  simp [trueAdds depth, falseAdds depth]

/-- The body of a function does not run where the function is made. -/
theorem function {mark : φ} {parameters : List String} (bodyAdds : Adds first 1)
    (adds : Adds second count) : Adds (function mark parameters first second) (1 + count) := by
  intro depth
  rw [depthAfter?_function, bodyAdds 0, if_pos rfl, adds, Nat.add_assoc]

end Adds

theorem eq_single_of_outline {labelled : Labelled} {opcode : Opcode} {argument : Argument}
    (outlined : labelled.outline = single opcode argument) :
    labelled = single opcode argument := by
  cases labelled with
  | instruction content rest =>
      injection outlined with sameContent sameRest
      cases rest with
      | done => rw [sameContent, single]
      | instruction _ _ | function _ _ _ _ | branch _ _ _ _ => cases sameRest
  | done | function _ _ _ _ | branch _ _ _ _ => cases outlined

end Structured

end StackScript.Code

namespace StackScript.Surface

open StackScript.Code (Outline Opcode Argument Instruction symbolArgument textArgument)
open StackScript.Code.Structured (Adds)

/-! ## Items -/

def Expr.items? : Expr → Option (List Expr)
  | .list items => some items
  | _ => none

/-- Whether an expression is a list of two items, or no list at all. -/
def Expr.isPairOrOther (expression : Expr) : Bool :=
  expression.items?.all fun items => items.length = 2

/-- If all lists in an expression are pairs, its outline adds one value to the stack. -/
def AddsExpr (expression : Expr) : Prop :=
  (∀ node ∈ expression.nodes, node.isPairOrOther = true) →
    ∀ {counter after : Int} {outline : Outline},
      outlineExpr counter expression = some (outline, after) → outline.Adds 1

def AddsStmt (statement : Stmt) : Prop :=
  (∀ node ∈ statement.nodes, node.isPairOrOther = true) →
    ∀ {counter after : Int} {outline : Outline},
      outlineStmt counter statement = some (outline, after) → outline.Adds 0

section Forms

variable {counter after : Int} {outline : Outline}

theorem adds_give {opcode : Opcode} {argument : Argument}
    (effect : (Instruction.mk opcode argument).countedEffect? = some (0, 1)) :
    (Code.Structured.single opcode argument : Outline).Adds 1 :=
  Adds.done.andThen effect

theorem adds_pushSymbol (name : String) : (pushSymbol name).Adds 1 :=
  adds_give rfl

theorem adds_pushText (content : String) :
    (Code.Structured.single .pushText (textArgument content) : Outline).Adds 1 :=
  adds_give rfl

theorem adds_pushFunction {name? : Option String} {parameters : List String} {body : Outline}
    (bodyAdds : body.Adds 1) : (pushFunction name? parameters body counter).Adds 1 := by
  have made : (Code.Structured.function name? parameters body .done : Outline).Adds 1 :=
    .function bodyAdds .done
  exact (made.andThen rfl).append (adds_pushSymbol _)

theorem adds_exprs {expressions : List Expr}
    (adds : ∀ expression ∈ expressions, AddsExpr expression)
    (pairs : ∀ node ∈ exprsNodes expressions, node.isPairOrOther = true)
    (found : outlineExprs counter expressions = some (outline, after)) :
    outline.Adds expressions.length := by
  induction expressions generalizing counter outline with
  | nil =>
      cases found
      exact .done
  | cons expression rest ih =>
      obtain ⟨addsFirst, addsRest⟩ := List.forall_mem_cons.mp adds
      obtain ⟨pairsFirst, pairsRest⟩ := List.forall_mem_append.mp pairs
      obtain ⟨_, _, _, firstFound, restFound, rfl⟩ := outlineExprs_cons found
      rw [List.length_cons, Nat.add_comm]
      exact (addsFirst pairsFirst firstFound).append (ih addsRest pairsRest restFound)

/-- Fields add their values and their names. -/
theorem adds_fields {fields : List (String × Expr)} (adds : ∀ field ∈ fields, AddsExpr field.2)
    (pairs : ∀ node ∈ fieldsNodes fields, node.isPairOrOther = true)
    (found : outlineFields counter fields = some (outline, after)) :
    outline.Adds (2 * fields.length) := by
  induction fields generalizing counter outline with
  | nil =>
      cases found
      exact .done
  | cons field rest ih =>
      obtain ⟨addsFirst, addsRest⟩ := List.forall_mem_cons.mp adds
      obtain ⟨pairsFirst, pairsRest⟩ := List.forall_mem_append.mp pairs
      obtain ⟨_, _, _, firstFound, restFound, rfl⟩ := outlineFields_cons found
      have total : 2 * (field :: rest).length = 1 + (1 + 2 * rest.length) := by
        rw [List.length_cons]
        omega
      rw [total]
      exact (addsFirst pairsFirst firstFound).append
        ((adds_give rfl).append (ih addsRest pairsRest restFound))

theorem adds_body {statements : List Stmt} (body : OnBody AddsExpr AddsStmt statements)
    (pairs : ∀ node ∈ stmtsNodes statements, node.isPairOrOther = true)
    (found : outlineBody counter statements = some (outline, after)) : outline.Adds 1 := by
  induction statements generalizing counter outline with
  | nil => cases found
  | cons statement rest ih =>
      obtain ⟨pairsFirst, pairsRest⟩ := List.forall_mem_append.mp pairs
      rcases outlineBody_cons found with ⟨rfl, expression, rfl, valueFound⟩ |
        ⟨_, _, _, _, firstFound, restFound, rfl⟩
      · exact body.values expression List.mem_cons_self pairsFirst valueFound
      · rw [← Nat.zero_add 1]
        exact (body.head pairsFirst firstFound).append (ih body.tail pairsRest restFound)

theorem addsExpr_binary (position : Position) (level : Level) (operator : String)
    (left right : Expr) (addsLeft : AddsExpr left) (addsRight : AddsExpr right) :
    AddsExpr (.binary position level operator left right) := by
  intro pairs counter after outline found
  obtain ⟨pairsLeft, pairsRight⟩ :=
    List.forall_mem_append.mp (List.forall_mem_cons.mp pairs).2
  obtain ⟨_, _, leftFound, ⟨_, _, rightFound, rfl⟩ | ⟨_, _, rightFound, rfl⟩ |
    ⟨_, field, _, _, rfl⟩ | ⟨_, _, _, _, _, performed, rightFound, rfl⟩⟩ :=
    outlineExpr_binary found
  · exact (addsLeft pairsLeft leftFound).branch (addsRight pairsRight rightFound)
      (adds_pushSymbol "false")
  · exact (addsLeft pairsLeft leftFound).branch (adds_pushSymbol "true")
      (addsRight pairsRight rightFound)
  · have text := (addsLeft pairsLeft leftFound).append (adds_pushText field)
    exact (text.append (adds_pushSymbol "__field__")).andThen rfl
  · have operands := (addsLeft pairsLeft leftFound).append (addsRight pairsRight rightFound)
    have effects : operatorOpcodes.all (fun opcode =>
        (Instruction.mk opcode (.integer 2)).countedEffect? = some (2, 1)) = true := by decide
    exact operands.andThen (of_decide_eq_true (holds_of_operator effects performed))

end Forms

/-- The outline of a tree whose lists are pairs adds the values that it should. -/
theorem treeStep_adds : TreeStep AddsExpr AddsStmt where
  integer value _ counter after outline found := by
    cases found
    exact adds_give rfl
  text content _ counter after outline found := by
    cases found
    exact adds_pushText content
  symbol position name _ counter after outline found := by
    cases found
    exact adds_pushSymbol name
  negation position operand adds pairs counter after outline found := by
    obtain ⟨_, operandFound, rfl⟩ := outlineExpr_negation found
    exact (adds (List.forall_mem_cons.mp pairs).2 operandFound).andThen rfl
  binary := addsExpr_binary
  list items adds pairs counter after outline found := by
    obtain ⟨_, itemsFound, rfl⟩ := outlineExpr_list found
    obtain ⟨isPair, pairsInside⟩ := List.forall_mem_cons.mp pairs
    have addsItems := adds_exprs adds pairsInside itemsFound
    rw [of_decide_eq_true isPair] at addsItems
    exact addsItems.andThen rfl
  record fields adds pairs counter after outline found := by
    obtain ⟨_, fieldsFound, rfl⟩ := outlineExpr_record found
    exact (adds_fields adds (List.forall_mem_cons.mp pairs).2 fieldsFound).andThen rfl
  item position subject index _ _ _ counter after outline found := by cases found
  call position function arguments adds addsArguments pairs counter after outline found := by
    obtain ⟨_, _, _, argumentsFound, functionFound, rfl⟩ := outlineExpr_call found
    obtain ⟨pairsFunction, pairsArguments⟩ :=
      List.forall_mem_append.mp (List.forall_mem_cons.mp pairs).2
    exact ((adds_exprs addsArguments pairsArguments argumentsFound).append
      (adds pairsFunction functionFound)).andThen rfl
  lambda parameters body adds pairs counter after outline found := by
    obtain ⟨_, _, bodyFound, rfl, _⟩ := outlineExpr_lambda found
    exact adds_pushFunction (adds_body adds (List.forall_mem_cons.mp pairs).2 bodyFound)
  conditional condition onTrue onFalse adds addsTrue addsFalse pairs counter after outline
      found := by
    obtain ⟨_, _, _, _, _, conditionFound, trueFound, falseFound, rfl⟩ :=
      outlineExpr_conditional found
    obtain ⟨pairsCondition, pairsBranches⟩ :=
      List.forall_mem_append.mp (List.forall_mem_cons.mp pairs).2
    obtain ⟨pairsTrue, pairsFalse⟩ := List.forall_mem_append.mp pairsBranches
    exact (adds pairsCondition conditionFound).branch (adds_body addsTrue pairsTrue trueFound)
      (adds_body addsFalse pairsFalse falseFound)
  misplacedExpr form name? _ counter after outline found := by cases found
  assign target value adds pairs counter after outline found := by
    obtain ⟨_, valueFound, rfl⟩ := outlineStmt_assign found
    exact (adds pairs valueFound).andThen rfl
  evaluate expression adds pairs counter after outline found := by
    obtain ⟨_, valueFound, rfl⟩ := outlineStmt_evaluate found
    exact (adds pairs valueFound).andThen rfl
  define name parameters body adds pairs counter after outline found := by
    obtain ⟨_, _, bodyFound, rfl, _⟩ := outlineStmt_define found
    exact (adds_pushFunction (adds_body adds pairs bodyFound)).andThen rfl
  misplacedStmt form _ counter after outline found := by cases found

/-- An expression has labelled code. -/
def Expr.IsCodedAs (expression : Expr) (piece : Code.Labelled) : Prop :=
  ∃ counter after, outlineExpr counter expression = some (piece.outline, after)

/-- The code of an expression leaves one value, if all lists in it are pairs. -/
theorem Expr.IsCodedAs.adds {expression : Expr} {piece : Code.Labelled}
    (coded : expression.IsCodedAs piece)
    (pairs : ∀ node ∈ expression.nodes, node.isPairOrOther = true) : piece.Adds 1 := by
  obtain ⟨counter, after, found⟩ := coded
  have adds := treeStep_adds.expr expression pairs found
  intro depth
  rw [← adds depth, Code.Structured.outline, Code.Structured.depthAfter?_mapMarks]

/-- The code of expressions is made of the code of each. -/
theorem exists_pieces {labelled : Code.Labelled} {expressions : List Expr} {counter after : Int}
    (found : outlineExprs counter expressions = some (labelled.outline, after)) :
    ∃ pieces : List Code.Labelled, labelled.code = pieces.flatMap Code.Structured.code ∧
      List.Forall₂ Expr.IsCodedAs expressions pieces := by
  induction expressions generalizing labelled counter with
  | nil =>
      cases labelled with
      | done => exact ⟨[], rfl, .nil⟩
      | instruction _ _ | function _ _ _ _ | branch _ _ _ _ => cases found
  | cons expression rest ih =>
      obtain ⟨_, between, _, firstFound, restFound, outlined⟩ := outlineExprs_cons found
      obtain ⟨before, later, rfl, rfl, rfl⟩ :=
        Code.Structured.exists_append_of_outline outlined
      obtain ⟨pieces, layout, areCoded⟩ := ih restFound
      refine ⟨before :: pieces, ?_, .cons ⟨counter, between, firstFound⟩ areCoded⟩
      rw [Code.Structured.code_append, layout, List.flatMap_cons]

theorem Expr.filter_own_list (node : Expr) :
    (node.own.filter fun content => content.opcode = .list) =
      if node.items?.isSome then [⟨.list, .integer 2⟩] else [] := by
  cases node with
  | binary position level operator left right =>
      by_cases isAccess : operator = "."
      · cases named : right.name? <;> simp [own, items?, isAccess, named]
      · cases performed : opcodeOfOperator? operator with
        | none => simp [own, items?, isAccess, performed]
        | some opcode =>
            have notList : opcode ≠ .list := by
              rintro rfl
              exact absurd (mem_operatorOpcodes performed) (by decide)
            simp [own, items?, isAccess, performed, notList]
  | record fields => simp [own, items?, List.filter_map, Function.comp_def]
  | _ => simp [own, items?, Code.listArgument]

theorem flatMap_filter_own_list (nodes : List Expr) :
    (nodes.flatMap fun node => node.own.filter fun content => content.opcode = .list) =
      List.replicate (nodes.countP fun node => node.items?.isSome) ⟨.list, .integer 2⟩ := by
  induction nodes with
  | nil => rfl
  | cons node rest ih =>
      rw [List.flatMap_cons, ih, Expr.filter_own_list, List.countP_cons]
      cases node.items? <;> simp [List.replicate_succ]

end StackScript.Surface

namespace StackScript.Script

open StackScript.Code (Entry Labelled Structured instructionsOf)
open StackScript.Surface (Expr)

/-- The code of a script has one `list` for each list of the script, and its argument is 2.
It stands behind the code of the items in order.  The code of an item leaves one value, if the
lists inside the item are pairs. -/
theorem code_of_lists {script : String} {entries : List Entry}
    (generated : Script.code script = .ok entries) :
    ∃ program, Script.surface script = .ok program ∧
      ((instructionsOf entries).filter fun content => content.opcode = .list) =
        List.replicate (program.nodes.countP fun node => node.items?.isSome) ⟨.list, .integer 2⟩ ∧
      ∀ items, .list items ∈ program.nodes → ∃ pieces : List Labelled,
        pieces.flatMap Structured.code ++ [Entry.of .list (.integer 2)] <:+: entries ∧
        List.Forall₂ (fun item piece => item.IsCodedAs piece ∧
          ((∀ node ∈ item.nodes, node.isPairOrOther = true) → piece.Adds 1)) items pieces := by
  obtain ⟨program, labelled, has, rfl⟩ := exists_hasLabelled generated
  refine ⟨program, has.parsed, ?_, ?_⟩
  · have isOwn : Code.Opcode.isOwn .list = true := rfl
    have perm := has.filter_perm isOwn
    rw [Surface.flatMap_filter_own_list] at perm
    exact List.perm_replicate.mp perm
  · intro items member
    obtain ⟨counter, after, part, found, inCode⟩ := has.exists_part member rfl
    obtain ⟨_, itemsFound, outlined⟩ := Surface.outlineExpr_list found
    obtain ⟨before, last, rfl, rfl, isLast⟩ := Structured.exists_append_of_outline outlined
    obtain ⟨pieces, layout, areCoded⟩ := Surface.exists_pieces itemsFound
    rw [Structured.code_append, layout, Structured.eq_single_of_outline isLast] at inCode
    exact ⟨pieces, inCode, areCoded.imp fun item piece coded => ⟨coded, coded.adds⟩⟩

/-- A script with a list of three items, in which there are pairs. -/
def tripleOfPairs : String :=
  "[[1, 2], if x do [y, 3] else y end, f([x, y])]\n"

theorem tripleOfPairs_code :
    ∃ entries program items pieces, Script.code tripleOfPairs = .ok entries ∧
      Script.surface tripleOfPairs = .ok program ∧ .list items ∈ program.nodes ∧
      items.length = 3 ∧
      pieces.flatMap Structured.code ++ [Entry.of .list (.integer 2)] <:+: entries ∧
      List.Forall₂ (fun item piece => item.IsCodedAs piece ∧ piece.Adds 1) items pieces := by
  have accepted : (Script.code tripleOfPairs).isOk = true := by
    decide +kernel
  have seen : (Script.surface tripleOfPairs).map (fun program =>
      (program.nodes.filterMap Expr.items?).any fun items =>
        items.length = 3 && (Surface.exprsNodes items).all Expr.isPairOrOther) = .ok true := by
    decide +kernel
  cases generated : Script.code tripleOfPairs with
  | error error =>
      rw [generated] at accepted
      cases accepted
  | ok entries =>
      obtain ⟨program, parsed, _, lists⟩ := code_of_lists generated
      rw [parsed] at seen
      obtain ⟨items, member, isTriple⟩ := List.any_eq_true.mp (Except.ok.inj seen)
      obtain ⟨node, isNode, hasItems⟩ := List.mem_filterMap.mp member
      obtain ⟨isThree, allPairs⟩ := Bool.and_eq_true_iff.mp isTriple
      have isList : node = .list items := by
        cases node with
        | list others =>
            cases hasItems
            rfl
        | _ => cases hasItems
      subst isList
      obtain ⟨pieces, inCode, areCoded⟩ := lists items isNode
      have pairs : ∀ item ∈ items, item.Throughout (fun node => node.isPairOrOther = true)
          fun _ => True :=
        Surface.forall_exprs_iff.mp ⟨List.all_eq_true.mp allPairs, fun _ _ => trivial⟩
      refine ⟨entries, program, items, pieces, rfl, parsed, isNode, of_decide_eq_true isThree,
        inCode, ?_⟩
      exact ((List.forall₂_and_left _ _).mpr ⟨pairs, areCoded⟩).imp
        fun item piece ⟨pairsInside, coded, adds⟩ => ⟨coded, adds pairsInside.1⟩

/-- A script with a list of three numbers. -/
def threeNumbers : String :=
  "[1, 2, 3]\n"

/-- Three values are pushed, and the list is said to have two items. -/
theorem threeNumbers_code :
    Script.code threeNumbers = .ok [.label "__main__", .of .pushInteger (.integer 1),
        .of .pushInteger (.integer 2), .of .pushInteger (.integer 3), .of .list (.integer 2),
        .of .drop .nothing, .of .halt .nothing] ∧
      (Script.surface threeNumbers).map (fun program =>
        (program.nodes.filterMap Expr.items?).map List.length) = .ok [3] := by
  decide +kernel

end StackScript.Script
