import StackScript.Proofs.Acceptance.Nodes
import StackScript.Proofs.Census.Layout
import StackScript.Proofs.Flow.Shortened

/-!
# The instructions of a script's nodes

Some instructions bind names, push or drop what is bound to them, or direct the flow of
control.  All others belong to a node of the surface tree: every node has its own, and the code
of a script has those of its nodes and no more (`HasLabelled.own_perm`).  Shortening leaves them
alone.
-/

namespace StackScript.Code

/-- Whether an instruction belongs to a node: it neither moves a value from or to a name nor
directs the flow of control. -/
def Opcode.isOwn : Opcode → Bool
  | push | pop | drop | close | jump | jumpIfFalse | returnValue | halt => false
  | _ => true

/-- The instructions that belong to nodes. -/
def ownOf (contents : List Instruction) : List Instruction :=
  contents.filter fun content => content.opcode.isOwn

@[simp] theorem ownOf_append (first second : List Instruction) :
    ownOf (first ++ second) = ownOf first ++ ownOf second :=
  List.filter_append ..

/-- Instructions of one kind that belong to nodes. -/
theorem filter_ownOf {opcode : Opcode} (isOwn : opcode.isOwn = true) (contents : List Instruction) :
    ((ownOf contents).filter fun content => content.opcode = opcode) =
      contents.filter fun content => content.opcode = opcode := by
  rw [ownOf, List.filter_filter]
  apply List.filter_congr
  intro content _
  by_cases same : content.opcode = opcode <;> simp [same, isOwn]

theorem ownOf_eq_nil_iff {contents : List Instruction} :
    ownOf contents = [] ↔ ∀ content ∈ contents, content.opcode.isOwn = false := by
  simp [ownOf]

end StackScript.Code

namespace StackScript.Surface

open StackScript.Code (Outline Opcode Argument Instruction symbolArgument textArgument
  listArgument ownOf ownOf_append)

/-- The instructions that belong to a node, those of the nodes inside it apart. -/
def Expr.own : Expr → List Instruction
  | .integer value => [⟨.pushInteger, .integer value⟩]
  | .text content => [⟨.pushText, textArgument content⟩]
  | .negation .. => [⟨.negate, .integer 1⟩]
  | .binary _ _ operator _ right =>
      if operator = "." then
        right.name?.toList.flatMap fun field =>
          [⟨.pushText, textArgument field⟩, ⟨.call, .integer 2⟩]
      else (opcodeOfOperator? operator).toList.map fun opcode => ⟨opcode, .integer 2⟩
  | .list _ => [⟨.list, listArgument⟩]
  | .record fields =>
      fields.map (fun field => ⟨.pushSymbol, symbolArgument field.1⟩) ++
        [⟨.record, .integer fields.length⟩]
  | .call _ _ arguments => [⟨.call, .integer arguments.length⟩]
  | .symbol .. | .item .. | .lambda .. | .conditional .. | .misplaced .. => []

/-- An outline has the instructions that belong to nodes. -/
def Employs (outline : Outline) (nodes : List Expr) : Prop :=
  (ownOf outline.instructions).Perm (nodes.flatMap Expr.own)

namespace Employs

variable {first second third : Outline} {firstNodes secondNodes thirdNodes : List Expr}

theorem done : Employs .done [] :=
  .nil

theorem append (employs : Employs first firstNodes) (employsMore : Employs second secondNodes) :
    Employs (first ++ second) (firstNodes ++ secondNodes) := by
  rw [Employs, Code.Structured.instructions_append, ownOf_append, List.flatMap_append]
  exact List.Perm.append employs employsMore

/-- The instructions of a node follow those of its parts. -/
theorem closing {node : Expr} (employs : Employs first firstNodes)
    (own : (ownOf second.instructions) = node.own) :
    Employs (first ++ second) (node :: firstNodes) := by
  rw [Employs, Code.Structured.instructions_append, ownOf_append, own, List.flatMap_cons]
  exact List.perm_append_comm.trans (employs.append_left _)

theorem andThen {opcode : Opcode} {argument : Argument} (employs : Employs first firstNodes)
    (notOwn : opcode.isOwn = false) : Employs (first ++ .single opcode argument) firstNodes := by
  have nothing : Employs (.single opcode argument) [] := by
    simp [Employs, ownOf, notOwn]
  simpa using employs.append nothing

theorem perm (employs : Employs first firstNodes) (same : firstNodes.Perm secondNodes) :
    Employs first secondNodes :=
  List.Perm.trans employs (same.flatMap_right _)

/-- A node without instructions belongs to any outline. -/
theorem under {node : Expr} (employs : Employs first firstNodes) (plain : node.own = []) :
    Employs first (node :: firstNodes) := by
  rwa [Employs, List.flatMap_cons, plain]

theorem branch (employs : Employs first firstNodes) (employsTrue : Employs second secondNodes)
    (employsFalse : Employs third thirdNodes) :
    Employs (first ++ .branch () second third .done)
      (firstNodes ++ (secondNodes ++ thirdNodes)) := by
  have branches := employsTrue.append employsFalse
  refine employs.append ?_
  simpa [Employs, Code.Structured.instructions] using branches

theorem pushSymbol (name : String) : Employs (pushSymbol name) [] :=
  .nil

theorem pushFunction {name? : Option String} {parameters : List String} {counter : Int}
    (employs : Employs first firstNodes) :
    Employs (pushFunction name? parameters first counter) firstNodes := by
  simpa [Employs, Surface.pushFunction, Code.Structured.instructions, Code.ownOf, Opcode.isOwn]
    using employs

end Employs

theorem gathers_employs : Gathers Employs :=
  ⟨Employs.done, Employs.append⟩

section Forms

variable {counter after : Int} {outline : Outline}

/-- The outline of fields has the instructions of the values and pushes the names. -/
theorem employs_fields {fields : List (String × Expr)}
    (employs : ∀ field ∈ fields, RelatesExpr Employs field.2)
    (found : outlineFields counter fields = some (outline, after)) :
    (ownOf outline.instructions).Perm
      (fields.map (fun field => ⟨.pushSymbol, symbolArgument field.1⟩) ++
        (fieldsNodes fields).flatMap Expr.own) := by
  induction fields generalizing counter outline with
  | nil =>
      cases found
      exact .nil
  | cons field rest ih =>
      obtain ⟨employsFirst, employsRest⟩ := List.forall_mem_cons.mp employs
      obtain ⟨first, _, second, firstFound, restFound, rfl⟩ := outlineFields_cons found
      rw [List.perm_iff_count]
      intro content
      have firstCount := (employsFirst firstFound).count_eq content
      have restCount := (ih employsRest restFound).count_eq content
      have named : ∀ contents, ownOf (⟨.pushSymbol, symbolArgument field.1⟩ :: contents) =
          ⟨.pushSymbol, symbolArgument field.1⟩ :: ownOf contents := fun _ => rfl
      simp only [Code.Structured.instructions_append, Code.Structured.instructions_single,
        ownOf_append, named, List.map_cons, fieldsNodes, List.flatMap_append, List.cons_append,
        List.nil_append, List.count_append, List.count_cons] at firstCount restCount ⊢
      omega

theorem employsExpr_binary (position : Position) (level : Level) (operator : String)
    (left right : Expr) (employsLeft : RelatesExpr Employs left)
    (employsRight : RelatesExpr Employs right) :
    RelatesExpr Employs (.binary position level operator left right) := by
  intro counter after outline found
  obtain ⟨first, _, leftFound, ⟨rfl, _, rightFound, rfl⟩ | ⟨rfl, _, rightFound, rfl⟩ |
    ⟨rfl, field, named, _, rfl⟩ | ⟨_, _, notAccess, _, _, performed, rightFound, rfl⟩⟩ :=
    outlineExpr_binary found
  · have parts := (employsLeft leftFound).branch (employsRight rightFound)
      (Employs.pushSymbol "false")
    rw [List.append_nil] at parts
    exact parts.under rfl
  · exact ((employsLeft leftFound).branch (Employs.pushSymbol "true")
      (employsRight rightFound)).under rfl
  · -- The name of a field is no node of its own.
    have plain : right.nodes.flatMap Expr.own = [] := by
      cases right with
      | symbol _ _ | misplaced _ _ => rfl
      | _ => cases named
    have access : Employs (first ++ (.single .pushText (textArgument field) ++
        Surface.pushSymbol "__field__" ++ .single .call (.integer 2)))
          (.binary position level "." left right :: left.nodes) := by
      refine (employsLeft leftFound).closing ?_
      simp [Expr.own, named, Surface.pushSymbol, ownOf, Opcode.isOwn]
    simpa [Employs, plain] using access
  · have allOwn : operatorOpcodes.all Opcode.isOwn = true := by decide
    have isOwn := holds_of_operator allOwn performed
    refine ((employsLeft leftFound).append (employsRight rightFound)).closing ?_
    simp [Expr.own, notAccess, performed, ownOf, isOwn]

end Forms

/-- The outline of a tree has the instructions of its nodes. -/
theorem treeStep_employs : TreeStep (RelatesExpr Employs) (RelatesStmt Employs) where
  integer value counter after outline found := by
    cases found
    exact Employs.done.closing rfl
  text content counter after outline found := by
    cases found
    exact Employs.done.closing rfl
  symbol position name counter after outline found := by
    cases found
    exact (Employs.pushSymbol name).under rfl
  negation position operand employs counter after outline found := by
    obtain ⟨_, operandFound, rfl⟩ := outlineExpr_negation found
    exact (employs operandFound).closing rfl
  binary := employsExpr_binary
  list items employs counter after outline found := by
    obtain ⟨_, itemsFound, rfl⟩ := outlineExpr_list found
    exact (gathers_employs.exprs employs itemsFound).closing rfl
  record fields employs counter after outline found := by
    obtain ⟨_, fieldsFound, rfl⟩ := outlineExpr_record found
    have named := (employs_fields employs fieldsFound).append_right
      [⟨.record, .integer fields.length⟩]
    rw [Employs, Code.Structured.instructions_append, ownOf_append, Expr.nodes,
      List.flatMap_cons, Expr.own, List.append_assoc]
    refine named.trans ?_
    rw [List.append_assoc]
    exact List.perm_append_comm.append_left _
  item position subject index _ _ counter after outline found := by cases found
  call position function arguments employs employsArguments counter after outline found := by
    obtain ⟨_, _, _, argumentsFound, functionFound, rfl⟩ := outlineExpr_call found
    have parts :=
      (gathers_employs.exprs employsArguments argumentsFound).append (employs functionFound)
    exact (parts.perm List.perm_append_comm).closing rfl
  lambda parameters body employs counter after outline found := by
    obtain ⟨_, _, bodyFound, rfl, _⟩ := outlineExpr_lambda found
    exact (gathers_employs.body employs bodyFound).pushFunction.under rfl
  conditional condition onTrue onFalse employs employsTrue employsFalse counter after outline
      found := by
    obtain ⟨_, _, _, _, _, conditionFound, trueFound, falseFound, rfl⟩ :=
      outlineExpr_conditional found
    exact ((employs conditionFound).branch (gathers_employs.body employsTrue trueFound)
      (gathers_employs.body employsFalse falseFound)).under rfl
  misplacedExpr form name? counter after outline found := by cases found
  assign target value employs counter after outline found := by
    obtain ⟨_, valueFound, rfl⟩ := outlineStmt_assign found
    exact (employs valueFound).andThen rfl
  evaluate expression employs counter after outline found := by
    obtain ⟨_, valueFound, rfl⟩ := outlineStmt_evaluate found
    exact (employs valueFound).andThen rfl
  define name parameters body employs counter after outline found := by
    obtain ⟨_, _, bodyFound, rfl, _⟩ := outlineStmt_define found
    exact (gathers_employs.body employs bodyFound).pushFunction.andThen rfl
  misplacedStmt form counter after outline found := by cases found

end StackScript.Surface

namespace StackScript.Code

/-! ## Layout and shortening -/

theorem ownOf_layoutInstructions (labelled : Labelled) :
    ownOf labelled.layoutInstructions = [] := by
  rw [ownOf_eq_nil_iff, Structured.layoutInstructions, List.forall_mem_append]
  constructor
  · intro content member
    obtain ⟨function, _, ofFunction⟩ := List.mem_flatMap.mp member
    simp only [functionInstructions, List.mem_cons, List.mem_map] at ofFunction
    rcases ofFunction with rfl | rfl | ⟨_, _, rfl⟩ <;> rfl
  · intro content member
    obtain ⟨number, _, ofBranch⟩ := List.mem_flatMap.mp member
    simp only [branchInstructions, List.mem_cons, List.not_mem_nil, or_false] at ofBranch
    rcases ofBranch with rfl | rfl | rfl <;> rfl

theorem ownOf_cons (content : Instruction) (rest : List Instruction) :
    ownOf (content :: rest) = ownOf [content] ++ ownOf rest :=
  ownOf_append [content] rest

theorem ownOf_removePushDrop (entries : List Entry) :
    ownOf (instructionsOf (removePushDrop entries)) = ownOf (instructionsOf entries) := by
  induction entries using removal_induction with
  | nil => rfl
  | pair first second rest ih =>
      rw [removePushDrop_pair rfl, ih]
      rfl
  | kept entry rest kept ih =>
      rw [removePushDrop_cons kept]
      cases entry with
      | label name => exact ih
      | instruction content =>
          rw [instructionsOf_instruction, instructionsOf_instruction, ownOf_cons, ih, ← ownOf_cons]

/-- Shortening leaves the instructions of nodes alone. -/
theorem ownOf_optimize (entries : List Entry) :
    ownOf (instructionsOf (optimize entries)) = ownOf (instructionsOf entries) := by
  have sameAtPops : ∀ used content, ownOf [dropInstruction used content] = ownOf [content] :=
    view_dropInstruction (fun content => ownOf [content]) fun _ => rfl
  have sameAtAll : ∀ used contents, ownOf (contents.map (dropInstruction used)) =
      ownOf contents := by
    intro used contents
    induction contents with
    | nil => rfl
    | cons content rest ih => rw [List.map_cons, ownOf_cons, sameAtPops, ih, ← ownOf_cons]
  rw [instructionsOf_optimize, sameAtAll, ownOf_removePushDrop]

theorem filter_optimize {opcode : Opcode} (isOwn : opcode.isOwn = true) (entries : List Entry) :
    ((instructionsOf (optimize entries)).filter fun content => content.opcode = opcode) =
      (instructionsOf entries).filter fun content => content.opcode = opcode := by
  rw [← filter_ownOf isOwn, ownOf_optimize, filter_ownOf isOwn]

end StackScript.Code

namespace StackScript.Script

open StackScript.Code (instructionsOf ownOf)

/-- The code of a script has the instructions of its nodes. -/
theorem HasLabelled.own_perm {script : String} {program : Surface.Program}
    {labelled : Code.Labelled} (has : HasLabelled script program labelled) :
    (ownOf (instructionsOf (Code.assemble labelled.fragment))).Perm
      (program.nodes.flatMap Surface.Expr.own) := by
  have employs := Surface.gathers_employs.program Surface.treeStep_employs has.outlined
  rw [Surface.Employs, Code.Structured.outline, Code.Structured.instructions_mapMarks] at employs
  have layout : (ownOf (instructionsOf (Code.assemble labelled.fragment))).Perm
      (ownOf (labelled.instructions ++ (labelled.layoutInstructions ++ [⟨.halt, .nothing⟩]))) :=
    (Code.instructionsOf_assemble labelled).filter _
  have halts : ownOf [⟨.halt, .nothing⟩] = [] := rfl
  rw [Code.ownOf_append, Code.ownOf_append, Code.ownOf_layoutInstructions, halts,
    List.append_nil, List.append_nil] at layout
  exact layout.trans employs

/-- The instructions of one kind in the code of a script. -/
theorem HasLabelled.filter_perm {script : String} {program : Surface.Program}
    {labelled : Code.Labelled} (has : HasLabelled script program labelled) {opcode : Code.Opcode}
    (isOwn : opcode.isOwn = true) :
    ((instructionsOf (Code.assemble labelled.fragment)).filter
        fun content => content.opcode = opcode).Perm
      (program.nodes.flatMap fun node =>
        node.own.filter fun content => content.opcode = opcode) := by
  rw [← Code.filter_ownOf isOwn, ← List.filter_flatMap]
  exact has.own_perm.filter _

end StackScript.Script
