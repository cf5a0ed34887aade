import StackScript.Proofs.Census.Nodes
import StackScript.Proofs.Layout.Contents
import StackScript.Proofs.Listing.Lines

/-!
# The code of a script is legible

The arguments in the code of a script are made of its names, its texts and numbers.  None of them
has a newline in it, and neither has a label, so the listing of a script's code determines the
code (`Script.shortCode_eq_of_listing_eq`).
-/

namespace StackScript.Code

theorem Instruction.isLegible_symbol {opcode : Opcode} {name : String}
    (takesSymbol : opcode ∈ [.push, .pop, .pushSymbol]) (oneLine : '\n' ∉ name.toList) :
    (⟨opcode, symbolArgument name⟩ : Instruction).IsLegible := by
  have plain : '\n' ∉ ("sym(" ++ name ++ ")").toList := by simp [oneLine]
  simp only [List.mem_cons, List.not_mem_nil, or_false] at takesSymbol
  rcases takesSymbol with rfl | rfl | rfl <;> exact ⟨_, rfl, plain⟩

theorem Instruction.isLegible_text {content : String} (oneLine : '\n' ∉ content.toList) :
    (⟨.pushText, textArgument content⟩ : Instruction).IsLegible :=
  ⟨_, rfl, by simp [oneLine]⟩

theorem newline_notMem_temporaryName (counter : Int) :
    '\n' ∉ (Linear.temporaryName counter).toList := by
  rw [Linear.temporaryName, String.toList_append]
  simpa using newline_notMem_toString_int counter

/-- The instructions of an outline are legible, and the names of parameters are on one line. -/
structure Outline.IsLegible (outline : Outline) : Prop where
  instructions : ∀ content ∈ outline.instructions, content.IsLegible
  parameters : ∀ function ∈ outline.functions true, ∀ parameter ∈ function.2,
    '\n' ∉ parameter.toList

namespace Outline.IsLegible

variable {first second third : Outline}

theorem done : IsLegible .done where
  instructions := by simp [Structured.instructions]
  parameters := by simp [Structured.functions]

theorem append (legible : IsLegible first) (legibleMore : IsLegible second) :
    IsLegible (first ++ second) where
  instructions := by
    rw [Structured.instructions_append, List.forall_mem_append]
    exact ⟨legible.instructions, legibleMore.instructions⟩
  parameters := by
    rw [Structured.functions_append, List.forall_mem_append]
    exact ⟨legible.parameters, legibleMore.parameters⟩

theorem single {opcode : Opcode} {argument : Argument}
    (legible : (⟨opcode, argument⟩ : Instruction).IsLegible) :
    IsLegible (.single opcode argument) where
  instructions := by simpa using legible
  parameters := by simp [Structured.single, Structured.functions]

theorem branch (legible : IsLegible first) (trueLegible : IsLegible second)
    (falseLegible : IsLegible third) : IsLegible (first ++ .branch () second third .done) := by
  refine legible.append ⟨?_, ?_⟩
  · simpa [Structured.instructions] using (trueLegible.append falseLegible).instructions
  · simpa [Structured.functions] using (trueLegible.append falseLegible).parameters

theorem pushSymbol {name : String} (oneLine : '\n' ∉ name.toList) :
    IsLegible (Surface.pushSymbol name) :=
  single (Instruction.isLegible_symbol (by simp) oneLine)

/-- A function is bound to a temporary. -/
theorem pushFunction {name? : Option String} {parameters : List String} {counter : Int}
    (legible : IsLegible first)
    (oneLine : ∀ parameter ∈ parameters, '\n' ∉ parameter.toList) :
    IsLegible (Surface.pushFunction name? parameters first counter) := by
  have temporary := newline_notMem_temporaryName counter
  have bound : IsLegible (.single .pop (symbolArgument (Linear.temporaryName counter))) :=
    single (Instruction.isLegible_symbol (by simp) temporary)
  have inside := legible.append (bound.append (pushSymbol temporary))
  refine ⟨?_, ?_⟩
  · simpa [Surface.pushFunction, Surface.pushSymbol, Structured.instructions] using
      inside.instructions
  · rw [Surface.functions_pushFunction, withInner, if_pos rfl, List.forall_mem_cons]
    exact ⟨oneLine, legible.parameters⟩

end Outline.IsLegible

end StackScript.Code

namespace StackScript.Surface

open StackScript.Code (Outline Opcode Argument Instruction symbolArgument textArgument)

/-- The contents of a part of a tree are clean, and its nodes are known. -/
def IsCleanPart (contents : List Content) (nodes : List Expr) : Prop :=
  (∀ content ∈ contents, content.IsClean) ∧ ∀ node ∈ nodes, node.IsKnown

/-- A clean expression has a legible outline. -/
def LegibleExpr (expression : Expr) : Prop :=
  IsCleanPart expression.contents expression.nodes → ∀ {counter after : Int} {outline : Outline},
    outlineExpr counter expression = some (outline, after) → outline.IsLegible

def LegibleStmt (statement : Stmt) : Prop :=
  IsCleanPart statement.contents statement.nodes → ∀ {counter after : Int} {outline : Outline},
    outlineStmt counter statement = some (outline, after) → outline.IsLegible

section Forms

variable {counter after : Int} {outline : Outline}

theorem IsCleanPart.of_append {contents more : List Content} {nodes others : List Expr}
    (clean : IsCleanPart (contents ++ more) (nodes ++ others)) :
    IsCleanPart contents nodes ∧ IsCleanPart more others := by
  simp only [IsCleanPart, List.forall_mem_append] at clean ⊢
  exact ⟨⟨clean.1.1, clean.2.1⟩, clean.1.2, clean.2.2⟩

theorem legible_exprs {expressions : List Expr}
    (legible : ∀ expression ∈ expressions, LegibleExpr expression)
    (clean : IsCleanPart (exprsContents expressions) (exprsNodes expressions))
    (found : outlineExprs counter expressions = some (outline, after)) : outline.IsLegible := by
  induction expressions generalizing counter outline with
  | nil =>
      cases found
      exact .done
  | cons expression rest ih =>
      obtain ⟨legibleFirst, legibleRest⟩ := List.forall_mem_cons.mp legible
      obtain ⟨_, _, _, firstFound, restFound, rfl⟩ := outlineExprs_cons found
      obtain ⟨cleanFirst, cleanRest⟩ := clean.of_append
      exact (legibleFirst cleanFirst firstFound).append (ih legibleRest cleanRest restFound)

theorem legible_fields {fields : List (String × Expr)}
    (legible : ∀ field ∈ fields, LegibleExpr field.2)
    (clean : IsCleanPart (fieldsContents fields) (fieldsNodes fields))
    (found : outlineFields counter fields = some (outline, after)) : outline.IsLegible := by
  induction fields generalizing counter outline with
  | nil =>
      cases found
      exact .done
  | cons field rest ih =>
      obtain ⟨legibleFirst, legibleRest⟩ := List.forall_mem_cons.mp legible
      obtain ⟨_, _, _, firstFound, restFound, rfl⟩ := outlineFields_cons found
      obtain ⟨cleanName, cleanLater⟩ := List.forall_mem_cons.mp clean.1
      obtain ⟨cleanFirst, cleanRest⟩ := IsCleanPart.of_append ⟨cleanLater, clean.2⟩
      have named : Outline.IsLegible (.single .pushSymbol (symbolArgument field.1)) :=
        .single (Instruction.isLegible_symbol (by simp) cleanName.2)
      exact (legibleFirst cleanFirst firstFound).append
        (named.append (ih legibleRest cleanRest restFound))

theorem legible_stmts {statements : List Stmt}
    (legible : ∀ statement ∈ statements, LegibleStmt statement)
    (clean : IsCleanPart (stmtsContents statements) (stmtsNodes statements))
    (found : outlineStmts counter statements = some (outline, after)) : outline.IsLegible := by
  induction statements generalizing counter outline with
  | nil =>
      cases found
      exact .done
  | cons statement rest ih =>
      obtain ⟨legibleFirst, legibleRest⟩ := List.forall_mem_cons.mp legible
      obtain ⟨_, _, _, firstFound, restFound, rfl⟩ := outlineStmts_cons found
      obtain ⟨cleanFirst, cleanRest⟩ := clean.of_append
      exact (legibleFirst cleanFirst firstFound).append (ih legibleRest cleanRest restFound)

theorem legible_body {statements : List Stmt} (body : OnBody LegibleExpr LegibleStmt statements)
    (clean : IsCleanPart (stmtsContents statements) (stmtsNodes statements))
    (found : outlineBody counter statements = some (outline, after)) : outline.IsLegible := by
  induction statements generalizing counter outline with
  | nil => cases found
  | cons statement rest ih =>
      obtain ⟨cleanFirst, cleanRest⟩ := clean.of_append
      rcases outlineBody_cons found with ⟨rfl, expression, rfl, valueFound⟩ |
        ⟨_, _, _, _, firstFound, restFound, rfl⟩
      · exact body.values expression List.mem_cons_self cleanFirst valueFound
      · exact (body.head cleanFirst firstFound).append (ih body.tail cleanRest restFound)

theorem newline_notMem_parameters {parameters : List String}
    (clean : ∀ content ∈ parameters.map Content.word, content.IsClean) :
    ∀ parameter ∈ parameters, '\n' ∉ parameter.toList := fun parameter member =>
  (clean (.word parameter) (List.mem_map_of_mem member)).2

/-- The field of an access is a word. -/
theorem newline_notMem_name? {right : Expr} {field : String}
    (clean : IsCleanPart right.contents right.nodes) (named : right.name? = some field) :
    '\n' ∉ field.toList := by
  cases right with
  | symbol position name =>
      cases named
      exact (clean.1 (.word field) (by simp [Expr.contents])).2
  | misplaced form name? => exact (clean.2 (.misplaced form name?) (by simp)).elim
  | _ => cases named

/-- An operator has two arguments. -/
theorem isLegible_of_operator {operator : String} {opcode : Opcode}
    (performed : opcodeOfOperator? operator = some opcode) :
    (⟨opcode, .integer 2⟩ : Instruction).IsLegible := by
  have isOperator := mem_operatorOpcodes performed
  simp only [operatorOpcodes, List.mem_cons, List.not_mem_nil, or_false] at isOperator
  rcases isOperator with rfl | rfl | rfl | rfl | rfl | rfl | rfl | rfl | rfl | rfl | rfl <;>
    exact ⟨2, rfl⟩

theorem legibleExpr_binary (position : Position) (level : Level) (operator : String)
    (left right : Expr) (legibleLeft : LegibleExpr left) (legibleRight : LegibleExpr right) :
    LegibleExpr (.binary position level operator left right) := by
  rintro ⟨contents, nodes⟩ counter after outline found
  simp only [Expr.contents, Expr.nodes, List.forall_mem_append, List.forall_mem_cons]
    at contents nodes
  have cleanRight : IsCleanPart right.contents right.nodes := ⟨contents.2.2, nodes.2.2⟩
  obtain ⟨_, _, leftFound, cases⟩ := outlineExpr_binary found
  have onLeft := legibleLeft ⟨contents.1, nodes.2.1⟩ leftFound
  rcases cases with ⟨_, _, rightFound, rfl⟩ | ⟨_, _, rightFound, rfl⟩ | ⟨_, _, named, _, rfl⟩ |
    ⟨_, _, _, _, _, performed, rightFound, rfl⟩
  · exact onLeft.branch (legibleRight cleanRight rightFound) (.pushSymbol (by simp))
  · exact onLeft.branch (.pushSymbol (by simp)) (legibleRight cleanRight rightFound)
  · have fieldLegible := Instruction.isLegible_text (newline_notMem_name? cleanRight named)
    exact ((onLeft.append (.single fieldLegible)).append (.pushSymbol (by simp))).append
      (.single ⟨2, rfl⟩)
  · exact (onLeft.append (legibleRight cleanRight rightFound)).append
      (.single (isLegible_of_operator performed))

end Forms

/-- The outline of a clean tree is legible. -/
theorem treeStep_legible : TreeStep LegibleExpr LegibleStmt where
  integer value _ counter after outline found := by
    cases found
    exact .single ⟨value, rfl⟩
  text content clean counter after outline found := by
    cases found
    exact .single (Instruction.isLegible_text (clean.1 (.text content) (by simp [Expr.contents])))
  symbol position name clean counter after outline found := by
    cases found
    exact .pushSymbol (clean.1 (.word name) (by simp [Expr.contents])).2
  negation position operand legible clean counter after outline found := by
    obtain ⟨_, operandFound, rfl⟩ := outlineExpr_negation found
    have cleanOperand : IsCleanPart operand.contents operand.nodes :=
      ⟨(List.forall_mem_cons.mp clean.1).2, (List.forall_mem_cons.mp clean.2).2⟩
    exact (legible cleanOperand operandFound).append (.single ⟨1, rfl⟩)
  binary := legibleExpr_binary
  list items legible clean counter after outline found := by
    obtain ⟨_, itemsFound, rfl⟩ := outlineExpr_list found
    have cleanItems := And.intro clean.1 (List.forall_mem_cons.mp clean.2).2
    exact (legible_exprs legible cleanItems itemsFound).append (.single ⟨2, rfl⟩)
  record fields legible clean counter after outline found := by
    obtain ⟨_, fieldsFound, rfl⟩ := outlineExpr_record found
    have cleanFields := And.intro clean.1 (List.forall_mem_cons.mp clean.2).2
    exact (legible_fields legible cleanFields fieldsFound).append (.single ⟨_, rfl⟩)
  item position subject index _ _ _ counter after outline found := by cases found
  call position function arguments legible legibleArguments clean counter after outline found := by
    obtain ⟨_, _, _, argumentsFound, functionFound, rfl⟩ := outlineExpr_call found
    obtain ⟨cleanFunction, cleanArguments⟩ :=
      IsCleanPart.of_append ⟨clean.1, (List.forall_mem_cons.mp clean.2).2⟩
    exact ((legible_exprs legibleArguments cleanArguments argumentsFound).append
      (legible cleanFunction functionFound)).append (.single ⟨_, rfl⟩)
  lambda parameters body legible clean counter after outline found := by
    obtain ⟨_, _, bodyFound, rfl, _⟩ := outlineExpr_lambda found
    obtain ⟨cleanParameters, cleanBody⟩ :=
      List.forall_mem_append.mp (List.forall_mem_cons.mp clean.1).2
    exact (legible_body legible ⟨cleanBody, (List.forall_mem_cons.mp clean.2).2⟩
      bodyFound).pushFunction (newline_notMem_parameters cleanParameters)
  conditional condition onTrue onFalse legible legibleTrue legibleFalse clean counter after outline
      found := by
    obtain ⟨_, _, _, _, _, conditionFound, trueFound, falseFound, rfl⟩ :=
      outlineExpr_conditional found
    obtain ⟨cleanCondition, cleanBranches⟩ := IsCleanPart.of_append
      ⟨(List.forall_mem_cons.mp clean.1).2, (List.forall_mem_cons.mp clean.2).2⟩
    obtain ⟨cleanTrue, cleanFalse⟩ := cleanBranches.of_append
    exact (legible cleanCondition conditionFound).branch
      (legible_body legibleTrue cleanTrue trueFound)
      (legible_body legibleFalse cleanFalse falseFound)
  misplacedExpr form name? _ counter after outline found := by cases found
  assign target value legible clean counter after outline found := by
    obtain ⟨_, valueFound, rfl⟩ := outlineStmt_assign found
    obtain ⟨cleanTarget, cleanRest⟩ := List.forall_mem_cons.mp clean.1
    have cleanValue : IsCleanPart value.contents value.nodes :=
      ⟨(List.forall_mem_cons.mp cleanRest).2, clean.2⟩
    exact (legible cleanValue valueFound).append
      (.single (Instruction.isLegible_symbol (by simp) cleanTarget.2))
  evaluate expression legible clean counter after outline found := by
    obtain ⟨_, valueFound, rfl⟩ := outlineStmt_evaluate found
    exact (legible clean valueFound).append (.single rfl)
  define name parameters body legible clean counter after outline found := by
    obtain ⟨_, _, bodyFound, rfl, _⟩ := outlineStmt_define found
    obtain ⟨cleanName, cleanRest⟩ :=
      List.forall_mem_cons.mp (List.forall_mem_cons.mp clean.1).2
    obtain ⟨cleanParameters, cleanBody⟩ := List.forall_mem_append.mp cleanRest
    exact ((legible_body legible ⟨cleanBody, clean.2⟩ bodyFound).pushFunction
      (newline_notMem_parameters cleanParameters)).append
        (.single (Instruction.isLegible_symbol (by simp) cleanName.2))
  misplacedStmt form _ counter after outline found := by cases found

end StackScript.Surface

namespace StackScript.Text

/-! ## Labels -/

/-- A character that leaves a mark where it is printed. -/
def IsVisible (character : Char) : Prop :=
  0x20 < character.toNat ∧ character.toNat < 0x7F

instance (character : Char) : Decidable (IsVisible character) :=
  inferInstanceAs (Decidable (_ ∧ _))

theorem IsVisible.isBlank_eq_false {character : Char} (visible : IsVisible character) :
    isBlank character = false := by
  obtain ⟨lower, upper⟩ := visible
  simp only [isBlank, blankRanges, List.any_cons, List.any_nil, Bool.or_false,
    Bool.or_eq_false_iff, Bool.and_eq_false_iff, decide_eq_false_iff_not]
  omega

theorem isVisible_of_isWordCharacter {character : Char}
    (isWord : Lexer.isWordCharacter character = true) : IsVisible character := by
  simp only [Lexer.isWordCharacter, Bool.or_eq_true, Bool.and_eq_true, decide_eq_true_eq,
    Char.le_def, UInt32.le_iff_toNat_le] at isWord
  rcases isWord with ⟨lower, upper⟩ | rfl
  · exact ⟨Nat.lt_of_lt_of_le (by decide) lower, Nat.lt_of_le_of_lt upper (by decide)⟩
  · decide

theorem isVisible_of_mem_toString_int {number : Int} {character : Char}
    (member : character ∈ (toString number).toList) : IsVisible character := by
  rcases Code.mem_toString_int member with isDigit | rfl
  · simp only [Char.isDigit, Bool.and_eq_true, decide_eq_true_eq,
      UInt32.le_iff_toNat_le] at isDigit
    obtain ⟨lower, upper⟩ := isDigit
    exact ⟨Nat.lt_of_lt_of_le (by decide) lower, Nat.lt_of_le_of_lt upper (by decide)⟩
  · decide

end StackScript.Text

namespace StackScript.Code

structure IsVisibleLabel (label : String) : Prop where
  ne_nil : label.toList ≠ []
  visible : ∀ character ∈ label.toList, Text.IsVisible character

theorem IsVisibleLabel.newline_notMem {label : String} (isVisible : IsVisibleLabel label) :
    '\n' ∉ label.toList := fun member =>
  absurd (isVisible.visible '\n' member) (by decide)

theorem isVisibleLabel_mainLabel : IsVisibleLabel mainLabel :=
  ⟨by decide, by simp [mainLabel, Text.IsVisible]⟩

theorem isVisibleLabel_numbered {mark : String} (number : Int)
    (visible : ∀ character ∈ mark.toList, Text.IsVisible character) :
    IsVisibleLabel (mark ++ toString number ++ "__") := by
  constructor
  · simp
  · simp only [String.toList_append, List.forall_mem_append]
    exact ⟨⟨visible, fun _ => Text.isVisible_of_mem_toString_int⟩, by simp [Text.IsVisible]⟩

theorem isVisibleLabel_branchLabel {number : Int} {label : String}
    (member : label ∈ branchLabels number) : IsVisibleLabel label := by
  simp only [branchLabels, List.mem_cons, List.not_mem_nil, or_false] at member
  rcases member with rfl | rfl | rfl <;>
    exact isVisibleLabel_numbered number (by simp [Text.IsVisible])

theorem isVisibleLabel_functionLabel {stem : String} (number : Int)
    (visible : ∀ character ∈ stem.toList, Text.IsVisible character) :
    IsVisibleLabel (functionLabel stem number) := by
  constructor
  · simp [toList_functionLabel]
  · rw [toList_functionLabel, List.forall_mem_append, List.forall_mem_cons]
    exact ⟨visible, by decide, fun _ => Text.isVisible_of_mem_toString_int⟩

/-- The stem of a function is made of the characters of its name. -/
theorem isVisible_of_mem_labelStem {name? : Option String}
    (isName : ∀ name, name? = some name → IsName name) :
    ∀ character ∈ (labelStem name?).toList, Text.IsVisible character := by
  cases name? with
  | none => simp [labelStem, Text.IsVisible]
  | some name =>
      intro character member
      rw [labelStem, toList_escapeName] at member
      obtain ⟨original, inName, escaped⟩ := List.mem_flatMap.mp member
      have visible : Text.IsVisible original :=
        Text.isVisible_of_isWordCharacter ((isName name rfl).characters original inName)
      have dollarVisible : Text.IsVisible '$' := by decide
      unfold escapeCharacter at escaped
      split_ifs at escaped <;> simp_all

theorem forall_isLegible_iff {entries : List Entry} :
    (∀ entry ∈ entries, entry.IsLegible) ↔
      (∀ label ∈ labelsOf entries, '\n' ∉ label.toList) ∧
        ∀ content ∈ instructionsOf entries, content.IsLegible := by
  induction entries with
  | nil => simp
  | cons entry rest ih =>
      cases entry with
      | label name =>
          rw [List.forall_mem_cons, ih, labelsOf_label, instructionsOf_label,
            List.forall_mem_cons, and_assoc]
          rfl
      | instruction content =>
          rw [List.forall_mem_cons, ih, labelsOf_instruction, instructionsOf_instruction,
            List.forall_mem_cons, and_left_comm]
          rfl

/-- Code that has a block for the script starts with a label. -/
theorem ControlFlow.exists_label_cons {entries : List Entry} {functions : Surface.Functions}
    {blocks : List (List Entry)} {main : List Entry}
    (flow : ControlFlow entries functions blocks main) :
    ∃ label rest, entries = .label label :: rest := by
  rw [flow.layout]
  cases flow.functionBlocks with
  | nil =>
      obtain ⟨inside, rfl, _⟩ := flow.mainBlock
      exact ⟨_, _, rfl⟩
  | cons isBlock _ =>
      obtain ⟨_, inside, rfl, _⟩ := isBlock
      exact ⟨_, _, rfl⟩

/-- Shortened code is legible if the code is. -/
theorem ControlFlow.isLegibleCode_optimize {entries : List Entry} {functions : Surface.Functions}
    {blocks : List (List Entry)} {main : List Entry}
    (flow : ControlFlow entries functions blocks main)
    (visible : ∀ label ∈ labelsOf entries, IsVisibleLabel label)
    (legible : ∀ content ∈ instructionsOf entries, content.IsLegible) :
    IsLegibleCode (Code.optimize entries) := by
  have sameLabels : labelsOf (Code.optimize entries) = labelsOf entries :=
    labelsOf_shortenedPart _ _
  rw [← sameLabels] at visible
  constructor
  · obtain ⟨label, rest, starts⟩ := flow.optimize.exists_label_cons
    have isVisible := visible label (by simp [starts])
    obtain ⟨first, others, characters⟩ := List.exists_cons_of_ne_nil isVisible.ne_nil
    have firstVisible := isVisible.visible first (by simp [characters])
    refine ⟨first, others, rest, ?_, firstVisible.isBlank_eq_false⟩
    rw [starts, ← characters, String.ofList_toList]
  · refine forall_isLegible_iff.mpr ⟨fun label member => (visible label member).newline_notMem, ?_⟩
    intro content member
    rcases mem_shortenedPart member with isOld | rfl
    · exact legible content isOld
    · rfl

end StackScript.Code

namespace StackScript.Script

open StackScript.Code (Entry Instruction Labelled IsLegibleCode IsVisibleLabel labelsOf
  instructionsOf optimize assemble)

section Listings

variable {script : String} {program : Surface.Program} {labelled : Labelled}

theorem HasLabelled.isVisibleLabel (has : HasLabelled script program labelled) {label : String}
    (member : label ∈ labelsOf (assemble labelled.fragment)) : IsVisibleLabel label := by
  rw [(Code.labelsOf_assemble labelled).mem_iff, List.mem_cons, List.mem_append] at member
  rcases member with rfl | ofFunction | ofBranch
  · exact Code.isVisibleLabel_mainLabel
  · obtain ⟨⟨site, parameters⟩, isFunction, rfl⟩ := List.mem_map.mp ofFunction
    obtain ⟨number, isLabel⟩ := has.numbered.exists_label isFunction
    have inProgram : (site.name?, parameters) ∈ program.functions true := by
      rw [← has.functions_eq]
      exact List.mem_map_of_mem isFunction
    rw [isLabel]
    apply Code.isVisibleLabel_functionLabel
    apply Code.isVisible_of_mem_labelStem
    intro name isName
    rw [isName] at inProgram
    exact isName_of_mem_functions has.parsed inProgram
  · obtain ⟨number, _, inLabels⟩ := List.mem_flatMap.mp ofBranch
    exact Code.isVisibleLabel_branchLabel inLabels

/-- The outline of a script is legible. -/
theorem HasLabelled.isLegible_outline (has : HasLabelled script program labelled) :
    labelled.outline.IsLegible := by
  obtain ⟨⟨_, after⟩, stmtsFound, isOutline⟩ := Option.map_eq_some_iff.mp has.outlined
  have known := Surface.forall_program_iff.mpr fun statement member =>
    (isKnown_of_surface has.parsed statement member).2
  rw [← isOutline]
  exact Surface.legible_stmts (Surface.treeStep_legible.body program.statements).statements
    ⟨fun _ => isClean_of_mem_contents has.parsed, known.1⟩ stmtsFound

theorem HasLabelled.isLegible_instruction (has : HasLabelled script program labelled)
    {content : Instruction} (member : content ∈ instructionsOf (assemble labelled.fragment)) :
    content.IsLegible := by
  have outlineLegible := has.isLegible_outline
  have plain : ∀ label ∈ labelsOf (assemble labelled.fragment), '\n' ∉ label.toList :=
    fun label isLabel => (has.isVisibleLabel isLabel).newline_notMem
  simp only [(Code.labelsOf_assemble labelled).mem_iff, List.forall_mem_cons,
    List.forall_mem_append] at plain
  rw [(Code.instructionsOf_assemble labelled).mem_iff, List.mem_append, List.mem_append,
    Code.Structured.layoutInstructions, List.mem_append] at member
  rcases member with own | (ofFunction | ofBranch) | isLast
  · apply outlineLegible.instructions
    rwa [Code.Structured.outline, Code.Structured.instructions_mapMarks]
  · obtain ⟨function, isFunction, ofFunction⟩ := List.mem_flatMap.mp ofFunction
    simp only [Code.functionInstructions, List.mem_cons, List.mem_map, List.mem_reverse]
      at ofFunction
    rcases ofFunction with rfl | rfl | ⟨parameter, isParameter, rfl⟩
    · exact ⟨_, rfl, plain.2.1 _ (List.mem_map_of_mem isFunction)⟩
    · rfl
    · have parameters := outlineLegible.parameters
      rw [Code.Structured.outline, Code.Structured.functions_mapMarks] at parameters
      exact Instruction.isLegible_symbol (by simp)
        (parameters _ (List.mem_map_of_mem isFunction) parameter isParameter)
  · obtain ⟨number, isBranch, ofBranch⟩ := List.mem_flatMap.mp ofBranch
    have labelled : ∀ label ∈ Code.branchLabels number, '\n' ∉ label.toList := fun label inLabels =>
      plain.2.2 label (List.mem_flatMap.mpr ⟨number, isBranch, inLabels⟩)
    simp only [Code.branchInstructions, List.mem_cons, List.not_mem_nil, or_false] at ofBranch
    rcases ofBranch with rfl | rfl | rfl <;>
      exact ⟨_, rfl, labelled _ (by simp [Code.branchLabels])⟩
  · rw [List.mem_singleton.mp isLast]
    rfl

end Listings

theorem isLegibleCode_of_shortCode {script : String} {entries : List Entry}
    (shortened : Script.shortCode script = .ok entries) : IsLegibleCode entries := by
  obtain ⟨code, generated, same⟩ := except_bind_eq_ok.mp shortened
  cases same
  obtain ⟨program, labelled, has, rfl⟩ := exists_hasLabelled generated
  exact has.controlFlow.isLegibleCode_optimize (fun _ => has.isVisibleLabel)
    fun _ => has.isLegible_instruction

/-- The listing of a script's shortened code determines the code: its labels, its instructions
and their arguments, of whatever kind they are. -/
theorem shortCode_eq_of_listing_eq {first second : String} {entries entries' : List Entry}
    (shortened : Script.shortCode first = .ok entries)
    (shortened' : Script.shortCode second = .ok entries')
    (same : Code.listing entries = Code.listing entries') : entries = entries' :=
  Code.listing_inj (isLegibleCode_of_shortCode shortened) (isLegibleCode_of_shortCode shortened')
    same

/-- A script with a text that reads like a line of a listing. -/
def listedText : String := "print('    end')\n"

/-- The same script with other quotes, and with an expression whose value is not used. -/
def listedTextAgain : String := "x\nprint(\"    end\")\n"

theorem listedText_eq_again :
    ∃ entries entries', Script.shortCode listedText = .ok entries ∧
      Script.shortCode listedTextAgain = .ok entries' ∧
      Code.listing entries = Code.listing entries' ∧ entries = entries' := by
  have accepted : (Script.shortCode listedText).isOk = true ∧
      (Script.shortCode listedTextAgain).isOk = true := by
    decide +kernel
  have listed : (Script.shortCode listedText).map Code.listing =
      (Script.shortCode listedTextAgain).map Code.listing := by
    decide +kernel
  cases shortened : Script.shortCode listedText with
  | error error =>
      rw [shortened] at accepted
      cases accepted.1
  | ok entries =>
      cases shortened' : Script.shortCode listedTextAgain with
      | error error =>
          rw [shortened'] at accepted
          cases accepted.2
      | ok entries' =>
          rw [shortened, shortened'] at listed
          have same := Except.ok.inj listed
          exact ⟨entries, entries', rfl, rfl, same,
            shortCode_eq_of_listing_eq shortened shortened' same⟩

end StackScript.Script
