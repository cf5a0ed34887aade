import StackScript.Proofs.Acceptance.Reduction
import StackScript.Proofs.Flow.Shortened

/-!
# Which code can be written as a document

A document has a rule for the operand of an instruction, or none.  The rules are met by all
instructions of a script but those that make lists and records, which have no rule
(`Writes`).  Shortening neither removes such an instruction nor adds one.
-/

namespace StackScript.Code

/-- An instruction that has an operand, with an argument that can be written. -/
def Instruction.IsFit (content : Instruction) : Prop :=
  match content.opcode with
  | .add | .subtract | .multiply | .integerDivide | .modulo | .eq | .neq | .lt | .lte | .gt
  | .gte => content.argument = .integer 2
  | .negate => content.argument = .integer 1
  | .drop | .returnValue | .halt => content.argument = .nothing
  | .call | .pushInteger => ∃ value, content.argument = .integer value
  | .push | .pop => ∃ name, content.argument = symbolArgument name
  | .pushText | .close | .jump | .jumpIfFalse => True
  | .pushSymbol | .list | .record | .other _ => False

/-- An instruction that has no operand, whatever its argument is. -/
def Opcode.isUnwritable : Opcode → Bool
  | .pushSymbol | .list | .record | .other _ => true
  | _ => false

theorem Instruction.IsFit.isUnwritable_eq_false {content : Instruction} (fit : content.IsFit) :
    content.opcode.isUnwritable = false := by
  unfold IsFit at fit
  split at fit <;> simp_all [Opcode.isUnwritable]

end StackScript.Code

namespace StackScript.Document

open StackScript.Code (Argument Instruction symbolArgument)

/-- A text is that of a symbol exactly if there is a name in it. -/
theorem isSome_symbolName?_iff {content : String} :
    (symbolName? content).isSome ↔ ∃ name, Argument.text content = symbolArgument name := by
  have split : (symbolName? content).isSome ↔
      ['s', 'y', 'm', '('] <+: content.toList ∧ [')'] <:+ content.toList := by
    simp [symbolName?, apply_ite Option.isSome]
  rw [split]
  constructor
  · rintro ⟨⟨rest, starts⟩, ⟨before, ends⟩⟩
    -- The closing parenthesis is no part of the opening, so it is the last of the rest.
    have closed : ∃ name, rest = name ++ [')'] := by
      rcases List.eq_nil_or_concat rest with rfl | ⟨name, last, rfl⟩
      · rw [List.append_nil] at starts
        rw [← starts] at ends
        simpa using congrArg List.getLast? ends
      · rw [← starts, List.concat_eq_append, ← List.append_assoc] at ends
        exact ⟨name, by rw [List.concat_eq_append, (List.append_inj' ends rfl).2]⟩
    obtain ⟨name, rfl⟩ := closed
    refine ⟨String.ofList name, ?_⟩
    rw [symbolArgument, Argument.text.injEq, ← String.toList_inj, ← starts]
    simp
  · rintro ⟨name, same⟩
    rw [symbolArgument, Argument.text.injEq] at same
    rw [same]
    exact ⟨⟨name.toList ++ [')'], by simp⟩, ⟨"sym(".toList ++ name.toList, by simp⟩⟩

theorem succeeds_write_symbol_iff {argument : Argument} :
    Succeeds (OperandRule.symbol.write argument) ↔ ∃ name, argument = symbolArgument name := by
  cases argument with
  | nothing => simp [OperandRule.write, symbolArgument]
  | integer value => simp [OperandRule.write, symbolArgument]
  | text content =>
      rw [← isSome_symbolName?_iff, OperandRule.write]
      cases symbolName? content <;> simp

/-- An instruction has an operand exactly if its argument is fit. -/
theorem succeeds_operand_iff {content : Instruction} :
    Succeeds (operand content) ↔ content.IsFit := by
  obtain ⟨opcode, argument⟩ := content
  have counted : ∀ expected, Succeeds ((OperandRule.count expected).write argument) ↔
      argument = .integer expected := by
    intro expected
    cases argument with
    | integer value => by_cases same : value = expected <;> simp [OperandRule.write, same]
    | nothing | text _ => simp [OperandRule.write]
  have absent : Succeeds (OperandRule.nothing.write argument) ↔ argument = .nothing := by
    cases argument <;> simp [OperandRule.write]
  have sized : Succeeds (OperandRule.size.write argument) ↔
      ∃ value, argument = .integer value := by
    cases argument <;> simp [OperandRule.write]
  have numbered : Succeeds (OperandRule.integer.write argument) ↔
      ∃ value, argument = .integer value := by
    cases argument <;> simp [OperandRule.write]
  have labelled : Succeeds (OperandRule.label.write argument) := ⟨_, rfl⟩
  have copied : Succeeds (OperandRule.verbatim.write argument) := ⟨_, rfl⟩
  cases opcode <;>
    simp [operand, operandRule?, Instruction.IsFit, counted, absent, sized, numbered, labelled,
      copied, succeeds_write_symbol_iff]

theorem succeeds_operands_iff {contents : List Instruction} :
    Succeeds (operands contents) ↔ ∀ content ∈ contents, content.IsFit := by
  induction contents with
  | nil => simp [operands]
  | cons content rest ih =>
      rw [operands, succeeds_map₂_iff, succeeds_operand_iff, ih, List.forall_mem_cons]

end StackScript.Document

namespace StackScript.Surface

open StackScript.Code (Outline Opcode Argument symbolArgument textArgument)

def Expr.isCollection : Expr → Bool
  | .list _ | .record _ => true
  | _ => false

/-- The instructions of an outline are fit or have no operand, and there are some without an
operand exactly if there is a list or a record among the nodes. -/
structure Writes (outline : Outline) (nodes : List Expr) : Prop where
  fit : ∀ content ∈ outline.instructions, content.IsFit ∨ content.opcode.isUnwritable = true
  unwritable : (∃ content ∈ outline.instructions, content.opcode.isUnwritable = true) ↔
    ∃ node ∈ nodes, node.isCollection = true

namespace Writes

variable {first second : Outline} {firstNodes secondNodes : List Expr}

theorem done : Writes .done [] :=
  ⟨by simp [Code.Structured.instructions], by simp [Code.Structured.instructions]⟩

theorem append (firstWrites : Writes first firstNodes) (secondWrites : Writes second secondNodes) :
    Writes (first ++ second) (firstNodes ++ secondNodes) := by
  constructor
  · rw [Code.Structured.instructions_append, List.forall_mem_append]
    exact ⟨firstWrites.fit, secondWrites.fit⟩
  · simp only [Code.Structured.instructions_append, List.mem_append, or_and_right, exists_or,
      firstWrites.unwritable, secondWrites.unwritable]

theorem single {opcode : Opcode} {argument : Argument}
    (fit : (⟨opcode, argument⟩ : Code.Instruction).IsFit) : Writes (.single opcode argument) [] := by
  constructor
  · simp [fit]
  · have writable : opcode.isUnwritable = false := fit.isUnwritable_eq_false
    simp [writable]

/-- A fit instruction belongs to any nodes. -/
theorem andThen {opcode : Opcode} {argument : Argument} (writes : Writes first firstNodes)
    (fit : (⟨opcode, argument⟩ : Code.Instruction).IsFit) :
    Writes (first ++ .single opcode argument) firstNodes := by
  simpa using writes.append (single fit)

/-- A node that makes neither a list nor a record belongs to any outline. -/
theorem under {node : Expr} (writes : Writes first firstNodes)
    (plain : node.isCollection = false) : Writes first (node :: firstNodes) :=
  ⟨writes.fit, by simp [writes.unwritable, plain]⟩

theorem beside (writes : Writes first firstNodes)
    (plain : ∀ node ∈ secondNodes, node.isCollection = false) :
    Writes first (firstNodes ++ secondNodes) := by
  refine ⟨writes.fit, writes.unwritable.trans ?_⟩
  constructor
  · rintro ⟨node, member, collects⟩
    exact ⟨node, List.mem_append_left _ member, collects⟩
  · rintro ⟨node, member, collects⟩
    rcases List.mem_append.mp member with inFirst | inSecond
    · exact ⟨node, inFirst, collects⟩
    · rw [plain node inSecond] at collects
      cases collects

/-- An instruction without an operand makes a list or a record. -/
theorem collection {node : Expr} {opcode : Opcode} {argument : Argument}
    (fit : ∀ content ∈ first.instructions, content.IsFit ∨ content.opcode.isUnwritable = true)
    (unwritable : opcode.isUnwritable = true) (collects : node.isCollection = true) :
    Writes (first ++ .single opcode argument) (node :: firstNodes) := by
  constructor
  · simp only [Code.Structured.instructions_append, Code.Structured.instructions_single,
      List.forall_mem_append, List.forall_mem_singleton]
    exact ⟨fit, .inr unwritable⟩
  · refine iff_of_true ⟨⟨opcode, argument⟩, by simp, unwritable⟩ ⟨node, by simp, collects⟩

theorem perm (writes : Writes first firstNodes) (same : firstNodes.Perm secondNodes) :
    Writes first secondNodes :=
  ⟨writes.fit, writes.unwritable.trans
    (exists_congr fun _ => and_congr_left fun _ => same.mem_iff)⟩

theorem branch {third : Outline} {thirdNodes : List Expr} (conditionWrites : Writes first firstNodes)
    (trueWrites : Writes second secondNodes) (falseWrites : Writes third thirdNodes) :
    Writes (first ++ .branch () second third .done) (firstNodes ++ (secondNodes ++ thirdNodes)) := by
  have branches := trueWrites.append falseWrites
  refine conditionWrites.append ⟨?_, ?_⟩
  · simpa [Code.Structured.instructions] using branches.fit
  · simpa [Code.Structured.instructions] using branches.unwritable

theorem pushSymbol (name : String) : Writes (pushSymbol name) [] :=
  single ⟨name, rfl⟩

theorem pushFunction {name? : Option String} {parameters : List String} {counter : Int}
    (writes : Writes first firstNodes) :
    Writes (pushFunction name? parameters first counter) firstNodes := by
  have bound : Writes (.single .pop (symbolArgument (Linear.temporaryName counter))) [] :=
    single ⟨_, rfl⟩
  have both := writes.append (bound.append (pushSymbol (Linear.temporaryName counter)))
  rw [List.append_nil, List.append_nil] at both
  have sameInstructions : (Surface.pushFunction name? parameters first counter).instructions =
      (first ++ (.single .pop (symbolArgument (Linear.temporaryName counter)) ++
        Surface.pushSymbol (Linear.temporaryName counter))).instructions := by
    simp [Surface.pushFunction, Surface.pushSymbol, Code.Structured.instructions]
  constructor
  · rw [sameInstructions]
    exact both.fit
  · rw [sameInstructions]
    exact both.unwritable

end Writes

theorem gathers_writes : Gathers Writes :=
  ⟨Writes.done, Writes.append⟩

section Forms

variable {counter after : Int} {outline : Outline}

/-- The instructions of fields are fit, except those that push their names. -/
theorem fit_outlineFields {fields : List (String × Expr)}
    (writes : ∀ field ∈ fields, RelatesExpr Writes field.2)
    (found : outlineFields counter fields = some (outline, after)) :
    ∀ content ∈ outline.instructions, content.IsFit ∨ content.opcode.isUnwritable = true := by
  induction fields generalizing counter outline with
  | nil =>
      cases found
      exact Writes.done.fit
  | cons field rest ih =>
      obtain ⟨writesFirst, writesRest⟩ := List.forall_mem_cons.mp writes
      obtain ⟨_, _, _, firstFound, restFound, rfl⟩ := outlineFields_cons found
      simp only [Code.Structured.instructions_append, Code.Structured.instructions_single,
        List.forall_mem_append, List.forall_mem_singleton]
      exact ⟨(writesFirst firstFound).fit, .inr rfl, ih writesRest restFound⟩

/-- Arithmetic and comparisons take two arguments. -/
theorem isFit_of_operator {operator : String} {opcode : Opcode}
    (performed : opcodeOfOperator? operator = some opcode) :
    (⟨opcode, .integer 2⟩ : Code.Instruction).IsFit := by
  have allFit : ∀ opcode ∈ operatorOpcodes, (⟨opcode, .integer 2⟩ : Code.Instruction).IsFit := by
    simp [operatorOpcodes, Code.Instruction.IsFit]
  exact allFit opcode (mem_operatorOpcodes performed)

theorem writesExpr_binary (position : Position) (level : Level) (operator : String)
    (left right : Expr) (writesLeft : RelatesExpr Writes left)
    (writesRight : RelatesExpr Writes right) :
    RelatesExpr Writes (.binary position level operator left right) := by
  intro counter after outline found
  refine Writes.under ?_ rfl
  obtain ⟨_, _, leftFound, ⟨_, _, rightFound, rfl⟩ | ⟨_, _, rightFound, rfl⟩ |
    ⟨_, field, named, _, rfl⟩ | ⟨_, _, _, _, _, performed, rightFound, rfl⟩⟩ :=
    outlineExpr_binary found
  · simpa using (writesLeft leftFound).branch (writesRight rightFound) (Writes.pushSymbol "false")
  · exact (writesLeft leftFound).branch (Writes.pushSymbol "true") (writesRight rightFound)
  · have plain : ∀ node ∈ right.nodes, node.isCollection = false := by
      cases right with
      | symbol _ _ | misplaced _ _ => simp [Expr.nodes, Expr.isCollection]
      | _ => cases named
    have pushed : Writes (.single .pushText (textArgument field)) [] := Writes.single trivial
    have accessed := ((writesLeft leftFound).append pushed).append (Writes.pushSymbol "__field__")
    rw [List.append_nil, List.append_nil] at accessed
    exact Writes.beside (Writes.andThen accessed ⟨2, rfl⟩) plain
  · exact ((writesLeft leftFound).append (writesRight rightFound)).andThen
      (isFit_of_operator performed)

end Forms

/-- Only lists and records have instructions without an operand. -/
theorem treeStep_writes : TreeStep (RelatesExpr Writes) (RelatesStmt Writes) where
  integer value counter after outline found := by
    cases found
    exact Writes.under (Writes.single ⟨_, rfl⟩) rfl
  text content counter after outline found := by
    cases found
    exact Writes.under (Writes.single trivial) rfl
  symbol position name counter after outline found := by
    cases found
    exact (Writes.pushSymbol name).under rfl
  negation position operand writes counter after outline found := by
    obtain ⟨_, operandFound, rfl⟩ := outlineExpr_negation found
    exact Writes.under ((writes operandFound).andThen rfl) rfl
  binary := writesExpr_binary
  list items writes counter after outline found := by
    obtain ⟨_, itemsFound, rfl⟩ := outlineExpr_list found
    exact Writes.collection (gathers_writes.exprs writes itemsFound).fit rfl rfl
  record fields writes counter after outline found := by
    obtain ⟨_, fieldsFound, rfl⟩ := outlineExpr_record found
    exact Writes.collection (fit_outlineFields writes fieldsFound) rfl rfl
  item position subject index _ _ counter after outline found := by cases found
  call position function arguments writesFunction writesArguments counter after outline found := by
    obtain ⟨_, _, _, argumentsFound, functionFound, rfl⟩ := outlineExpr_call found
    have parts := (gathers_writes.exprs writesArguments argumentsFound).append
      (writesFunction functionFound)
    exact Writes.under ((parts.perm List.perm_append_comm).andThen ⟨_, rfl⟩) rfl
  lambda parameters body writes counter after outline found := by
    obtain ⟨_, _, bodyFound, rfl, _⟩ := outlineExpr_lambda found
    exact (gathers_writes.body writes bodyFound).pushFunction.under rfl
  conditional condition onTrue onFalse writesCondition writesTrue writesFalse counter after outline
      found := by
    obtain ⟨_, _, _, _, _, conditionFound, trueFound, falseFound, rfl⟩ :=
      outlineExpr_conditional found
    exact ((writesCondition conditionFound).branch (gathers_writes.body writesTrue trueFound)
      (gathers_writes.body writesFalse falseFound)).under rfl
  misplacedExpr form name? counter after outline found := by cases found
  assign target value writes counter after outline found := by
    obtain ⟨_, valueFound, rfl⟩ := outlineStmt_assign found
    exact (writes valueFound).andThen ⟨_, rfl⟩
  evaluate expression writes counter after outline found := by
    obtain ⟨_, valueFound, rfl⟩ := outlineStmt_evaluate found
    exact (writes valueFound).andThen rfl
  define name parameters body writes counter after outline found := by
    obtain ⟨_, _, bodyFound, rfl, _⟩ := outlineStmt_define found
    exact (gathers_writes.body writes bodyFound).pushFunction.andThen ⟨_, rfl⟩
  misplacedStmt form counter after outline found := by cases found

/-- The outline of a script writes its nodes. -/
theorem writes_outline {program : Program} {outline : Outline}
    (found : program.outline = some outline) : Writes outline program.nodes :=
  gathers_writes.program treeStep_writes found

end StackScript.Surface

namespace StackScript.Code

/-! ## Layout and shortening -/

theorem isFit_of_mem_bindings {parameters : List String} :
    ∀ content ∈ instructionsOf (bindings parameters), content.IsFit := by
  intro content member
  rcases List.mem_filterMap.mp member with ⟨entry, inBindings, isContent⟩
  rcases List.mem_map.mp inBindings with ⟨parameter, _, rfl⟩
  cases isContent
  exact ⟨parameter, rfl⟩

section Layout

variable {holds : Instruction → Prop}

theorem forall_branching_iff (ofFit : ∀ content, content.IsFit → holds content) {number : Int}
    {onTrue onFalse : List Entry} :
    (∀ content ∈ instructionsOf (branching number [] onTrue onFalse), holds content) ↔
      (∀ content ∈ instructionsOf onTrue, holds content) ∧
        ∀ content ∈ instructionsOf onFalse, holds content := by
  have jumps : ∀ label, holds ⟨.jump, .text label⟩ := fun _ => ofFit _ trivial
  have skips : ∀ label, holds ⟨.jumpIfFalse, .text label⟩ := fun _ => ofFit _ trivial
  have layout : instructionsOf (branching number [] onTrue onFalse) =
      ⟨.jumpIfFalse, .text (elseLabel number)⟩ :: ⟨.jump, .text (thenLabel number)⟩ ::
        (instructionsOf onTrue ++ ⟨.jump, .text (endLabel number)⟩ :: instructionsOf onFalse) := by
    simp [branching]
  simp only [layout, List.forall_mem_cons, List.forall_mem_append, jumps, skips, true_and]

/-- Layout adds only instructions that are fit, and leaves none out. -/
theorem Structured.forall_layout_iff (ofFit : ∀ content, content.IsFit → holds content)
    {labelled : Labelled} :
    ((∀ content ∈ instructionsOf labelled.blockEntries, holds content) ∧
        ∀ content ∈ instructionsOf labelled.code, holds content) ↔
      ∀ content ∈ labelled.instructions, holds content := by
  induction labelled with
  | done => simp [blockEntries, blocks, code, instructions]
  | instruction other rest ih =>
      rw [blockEntries_instruction, code, instructions, instructionsOf_instruction,
        List.forall_mem_cons, List.forall_mem_cons, ← ih, and_left_comm]
  | function site parameters body rest bodyIH restIH =>
      have closes : holds ⟨.close, .text site.label⟩ := ofFit _ trivial
      have returns : holds ⟨.returnValue, .nothing⟩ := ofFit _ rfl
      have binds : ∀ content ∈ instructionsOf (bindings parameters), holds content :=
        fun content member => ofFit content (isFit_of_mem_bindings content member)
      simp only [blockEntries_function, code, instructions, Block.entries_eq, instructionsOf_append,
        instructionsOf_label, instructionsOf_of, instructionsOf_nil, List.forall_mem_append,
        List.forall_mem_cons, ← bodyIH, ← restIH, closes, returns, true_and]
      tauto
  | branch number onTrue onFalse rest trueIH falseIH restIH =>
      simp only [blockEntries_branch, code, instructions, instructionsOf_append,
        List.forall_mem_append, forall_branching_iff ofFit, ← trueIH, ← falseIH, ← restIH]
      tauto

theorem forall_assemble_iff (ofFit : ∀ content, content.IsFit → holds content)
    {labelled : Labelled} :
    (∀ content ∈ instructionsOf (assemble labelled.fragment), holds content) ↔
      ∀ content ∈ labelled.instructions, holds content := by
  have halts : holds ⟨.halt, .nothing⟩ := ofFit _ rfl
  rw [assemble_fragment, ← Structured.forall_layout_iff ofFit]
  simp [or_imp, forall_and, halts]

/-- Shortening removes and adds only instructions that push symbols, drop and pop. -/
theorem forall_optimize_iff (pushes : ∀ argument, holds ⟨.push, argument⟩)
    (drops : ∀ argument, holds ⟨.drop, argument⟩) (pops : ∀ argument, holds ⟨.pop, argument⟩)
    {entries : List Entry} :
    (∀ content ∈ instructionsOf (optimize entries), holds content) ↔
      ∀ content ∈ instructionsOf entries, holds content := by
  have sameAtPops : ∀ used content, holds (dropInstruction used content) = holds content :=
    view_dropInstruction holds fun argument =>
      propext (iff_of_true (drops .nothing) (pops argument))
  rw [instructionsOf_optimize, List.forall_mem_map]
  simp only [sameAtPops]
  refine forall_congr' fun ⟨opcode, argument⟩ => ?_
  by_cases isFine : holds ⟨opcode, argument⟩
  · exact iff_of_true (fun _ => isFine) fun _ => isFine
  · have notPush : opcode ≠ .push := fun isPush => isFine (isPush ▸ pushes argument)
    have notDrop : opcode ≠ .drop := fun isDrop => isFine (isDrop ▸ drops argument)
    rw [mem_removePushDrop_iff notPush notDrop]

end Layout

end StackScript.Code

namespace StackScript.Script

open StackScript.Code (Entry Instruction instructionsOf optimize)

section Operands

variable {script : String} {program : Surface.Program} {labelled : Code.Labelled}

/-- The instructions of a script and of its shortened code are fit or have no operand. -/
theorem HasLabelled.isFit_or_isUnwritable (has : HasLabelled script program labelled) :
    ∀ content ∈ instructionsOf (Code.assemble labelled.fragment) ++
        instructionsOf (optimize (Code.assemble labelled.fragment)),
      content.IsFit ∨ content.opcode.isUnwritable = true := by
  have writes := (Surface.writes_outline has.outlined).fit
  rw [Code.Structured.outline, Code.Structured.instructions_mapMarks] at writes
  have inCode := (Code.forall_assemble_iff fun _ fit => .inl fit).mpr writes
  refine List.forall_mem_append.mpr ⟨inCode, fun content member => ?_⟩
  rcases Code.mem_shortenedPart member with isOld | rfl
  · exact inCode content isOld
  · exact .inl rfl

/-- The code of a script has an instruction without an operand exactly if there is a list or a
record in the script. -/
theorem HasLabelled.forall_isWritable_iff (has : HasLabelled script program labelled) :
    (∀ content ∈ instructionsOf (Code.assemble labelled.fragment),
        content.opcode.isUnwritable = false) ↔
      ∀ node ∈ program.nodes, node.isCollection = false := by
  have writes := (Surface.writes_outline has.outlined).unwritable
  rw [Code.Structured.outline, Code.Structured.instructions_mapMarks] at writes
  rw [Code.forall_assemble_iff fun _ fit => fit.isUnwritable_eq_false]
  simpa using not_congr writes

/-- All instructions of the shortened code of a script are fit exactly if there is no list and
no record in it, and then so are all instructions of its code. -/
theorem HasLabelled.forall_isFit_iff (has : HasLabelled script program labelled) :
    ((∀ content ∈ instructionsOf (optimize (Code.assemble labelled.fragment)), content.IsFit) ↔
      ∀ node ∈ program.nodes, node.isCollection = false) ∧
    ((∀ node ∈ program.nodes, node.isCollection = false) →
      ∀ content ∈ instructionsOf (Code.assemble labelled.fragment), content.IsFit) := by
  obtain ⟨inCode, inShort⟩ := List.forall_mem_append.mp has.isFit_or_isUnwritable
  have fitOfWritable : ∀ {content : Instruction}, content.opcode.isUnwritable = false →
      content.IsFit ∨ content.opcode.isUnwritable = true → content.IsFit := by
    intro content writable fitOrNot
    exact fitOrNot.resolve_right (by simp [writable])
  have shortWritable : (∀ content ∈ instructionsOf (optimize (Code.assemble labelled.fragment)),
      content.opcode.isUnwritable = false) ↔ ∀ node ∈ program.nodes, node.isCollection = false :=
    (Code.forall_optimize_iff (fun _ => rfl) (fun _ => rfl) fun _ => rfl).trans
      has.forall_isWritable_iff
  refine ⟨⟨fun allFit => ?_, fun plain content member => ?_⟩, fun plain content member => ?_⟩
  · exact shortWritable.mp fun content member => (allFit content member).isUnwritable_eq_false
  · exact fitOfWritable (shortWritable.mpr plain content member) (inShort content member)
  · exact fitOfWritable (has.forall_isWritable_iff.mpr plain content member)
      (inCode content member)

/-- The operands of a script's shortened code cannot all be written exactly if there is a list
or a record in the script.  In all other scripts every instruction has an operand and an
argument that is fit for it, before and after shortening. -/
theorem operands_fail_iff {entries : List Entry} (generated : Script.code script = .ok entries) :
    ∃ program, Script.surface script = .ok program ∧
      ((∃ error, Document.operands (Document.Table.ofCode (optimize entries)).instructions =
          .error error) ↔ ∃ node ∈ program.nodes, node.isCollection = true) ∧
      ((∀ node ∈ program.nodes, node.isCollection = false) →
        ∀ content ∈ instructionsOf entries ++ instructionsOf (optimize entries),
          content.IsFit ∧ ∃ operand, Document.operand content = .ok operand) := by
  rcases exists_hasLabelled generated with ⟨program, labelled, has, rfl⟩
  obtain ⟨shortFit, codeFit⟩ := has.forall_isFit_iff
  refine ⟨program, has.parsed, ?_, fun plain content member => ?_⟩
  · rw [exists_error_iff, Document.instructions_ofCode, Document.succeeds_operands_iff, shortFit]
    simp
  · have fit : content.IsFit := (List.mem_append.mp member).elim (codeFit plain content)
      (shortFit.mpr plain content)
    exact ⟨fit, Document.succeeds_operand_iff.mpr fit⟩

end Operands

/-- A script whose conditional makes a record in one branch only. -/
def recordInBranch : String :=
  "x = 2\ny = if x < 3 do\n  (\n    size: x,\n  )\nelse\n  -x\nend\nx\n"

theorem recordInBranch_operands_fail :
    ∃ entries, Script.code recordInBranch = .ok entries ∧
      ∃ error, Document.operands (Document.Table.ofCode (optimize entries)).instructions =
        .error error := by
  have accepted : (Script.code recordInBranch).isOk = true := by
    decide +kernel
  have seen : (Script.surface recordInBranch).map
      (fun program => program.nodes.any Surface.Expr.isCollection) = .ok true := by
    decide +kernel
  cases generated : Script.code recordInBranch with
  | error error =>
      rw [generated] at accepted
      cases accepted
  | ok entries =>
      obtain ⟨program, parsed, fails, _⟩ := operands_fail_iff generated
      rw [parsed] at seen
      exact ⟨entries, rfl, fails.mpr (List.any_eq_true.mp (Except.ok.inj seen))⟩

end StackScript.Script
