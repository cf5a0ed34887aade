import StackScript.Proofs.Depth.Discipline

/-!
# The flow of control in stack code

The code of a script is a sequence of blocks: one for each function, and then one for the
script.  Control leaves a block only at its end, where the only instruction stands that
returns or halts, and every jump inside a block goes forward to a label of the same block
that occurs nowhere else (`HasLabelled.controlFlow`).
-/

namespace StackScript.Code

/-- Whether an instruction goes on at the label that is its argument. -/
def Opcode.isJump : Opcode → Bool
  | jump | jumpIfFalse => true
  | _ => false

/-- Whether an instruction leaves its block for good. -/
def Opcode.leaves : Opcode → Bool
  | returnValue | halt => true
  | _ => false

/-- Every jump goes to a label that stands after it. -/
def JumpsForward : List Entry → Prop
  | [] => True
  | .label _ :: rest => JumpsForward rest
  | .instruction content :: rest =>
      (content.opcode.isJump = true →
        ∃ label, content.argument = .text label ∧ label ∈ labelsOf rest) ∧ JumpsForward rest

/-- A block: a label, code that jumps forward inside the block and does not leave it, and one
last instruction. -/
def IsBlock (label : String) (last : Opcode) (block : List Entry) : Prop :=
  ∃ inside, block = .label label :: (inside ++ [Entry.of last .nothing]) ∧
    JumpsForward inside ∧ ∀ content ∈ instructionsOf inside, content.opcode.leaves = false

/-- The block of a function: its label has the stem of the function's name, and it ends by
returning. -/
def IsFunctionBlock (block : List Entry) (function : Option String × List String) : Prop :=
  ∃ number, IsBlock (functionLabel (labelStem function.1) number) .returnValue block

/-- The flow of control in stack code that has a block for each function and one for the
script. -/
structure ControlFlow (entries : List Entry) (functions : Surface.Functions)
    (blocks : List (List Entry)) (main : List Entry) : Prop where
  layout : entries = blocks.flatten ++ main
  functionBlocks : List.Forall₂ IsFunctionBlock blocks functions
  mainBlock : IsBlock mainLabel .halt main
  /-- A jump goes to a label that occurs once in the whole code. -/
  jumps : ∀ content ∈ instructionsOf entries, content.opcode.isJump = true →
    ∃ label, content.argument = .text label ∧ (labelsOf entries).count label = 1
  /-- Closures are made of functions that have a block. -/
  closes : ∀ content ∈ instructionsOf entries, content.opcode = .close →
    ∃ label, content.argument = .text label ∧
      ∃ block ∈ blocks, block.head? = some (.label label)
  /-- The table leads every label that is used to an instruction. -/
  table : ∀ content ∈ instructionsOf entries, content.opcode.takesLabel = true →
    ∃ label number, content.argument = .text label ∧
      (Document.Table.ofCode entries).labels.get? label = some number ∧
      number < (Document.Table.ofCode entries).instructions.length

/-- In code that ends in an instruction every label leads to one. -/
theorem place?_lt_size {name : String} {number : Nat} (before : List Entry)
    (content : Instruction)
    (found : place? name (before ++ [.instruction content]) = some number) :
    number < size (before ++ [.instruction content]) := by
  rw [size_append, size_instruction, size_nil]
  induction before generalizing number with
  | nil => cases found
  | cons entry rest ih =>
      cases entry with
      | label other =>
          rw [size_label]
          rw [List.cons_append, place?] at found
          rcases Option.or_eq_some_iff.mp found with later | ⟨_, here⟩
          · exact ih later
          · split at here
            · cases here
              omega
            · cases here
      | instruction other =>
          rw [size_instruction]
          rcases Option.map_eq_some_iff.mp found with ⟨later, laterFound, rfl⟩
          have inside := ih laterFound
          omega

/-- A label that is used leads to an instruction, since it occurs and the code of a script
does not end in a label. -/
theorem exists_number_of_mem {entries blocks : List Entry} {main : List Entry} {label : String}
    (layout : entries = blocks ++ main) (mainBlock : IsBlock mainLabel .halt main)
    (occurs : label ∈ labelsOf entries) :
    ∃ number, (Document.Table.ofCode entries).labels.get? label = some number ∧
      number < (Document.Table.ofCode entries).instructions.length := by
  rcases mainBlock with ⟨inside, rfl, _⟩
  have ends : entries = (blocks ++ .label mainLabel :: inside) ++ [Entry.of .halt .nothing] := by
    simpa using layout
  cases found : place? label entries with
  | none => exact absurd occurs (place?_eq_none_iff.mp found)
  | some number =>
      refine ⟨number, (Document.get?_ofCode label entries).trans found, ?_⟩
      rw [ends] at found ⊢
      exact place?_lt_size _ _ found

/-- The labels of jumps and closures occur, so what the table says about them follows from
the rest. -/
theorem ControlFlow.of {entries : List Entry} {functions : Surface.Functions}
    {blocks : List (List Entry)} {main : List Entry} (layout : entries = blocks.flatten ++ main)
    (functionBlocks : List.Forall₂ IsFunctionBlock blocks functions)
    (mainBlock : IsBlock mainLabel .halt main)
    (jumps : ∀ content ∈ instructionsOf entries, content.opcode.isJump = true →
      ∃ label, content.argument = .text label ∧ (labelsOf entries).count label = 1)
    (closes : ∀ content ∈ instructionsOf entries, content.opcode = .close →
      ∃ label, content.argument = .text label ∧
        ∃ block ∈ blocks, block.head? = some (.label label)) :
    ControlFlow entries functions blocks main := by
  refine ⟨layout, functionBlocks, mainBlock, jumps, closes, ?_⟩
  intro content member takes
  have occurs : ∃ label, content.argument = .text label ∧ label ∈ labelsOf entries := by
    by_cases isClose : content.opcode = .close
    · rcases closes content member isClose with ⟨label, argument, block, isBlock, starts⟩
      refine ⟨label, argument, ?_⟩
      rcases List.append_of_mem isBlock with ⟨before, after, rfl⟩
      cases block with
      | nil => cases starts
      | cons first rest =>
          cases starts
          simp [layout]
    · have isJump : content.opcode.isJump = true := by
        revert takes isClose
        cases content.opcode <;> simp [Opcode.takesLabel, Opcode.isJump]
      rcases jumps content member isJump with ⟨label, argument, once⟩
      exact ⟨label, argument, List.count_pos_iff.mp (by omega)⟩
  rcases occurs with ⟨label, argument, isLabel⟩
  rcases exists_number_of_mem layout mainBlock isLabel with ⟨number, found, inside⟩
  exact ⟨label, number, argument, found, inside⟩

/-! ## Code that jumps forward -/

theorem JumpsForward.append {first second : List Entry} (firstForward : JumpsForward first)
    (secondForward : JumpsForward second) : JumpsForward (first ++ second) := by
  induction first with
  | nil => exact secondForward
  | cons entry rest ih =>
      cases entry with
      | label name => exact ih firstForward
      | instruction content =>
          refine ⟨fun isJump => ?_, ih firstForward.2⟩
          rcases firstForward.1 isJump with ⟨label, argument, later⟩
          have inBoth : label ∈ labelsOf (rest ++ second) := by
            rw [labelsOf_append]
            exact List.mem_append_left _ later
          exact ⟨label, argument, inBoth⟩

theorem isJump_of_straight {opcode : Opcode} (straight : opcode.isStraight = true) :
    opcode.isJump = false := by
  cases opcode <;> first | rfl | cases straight

theorem leaves_of_straight {opcode : Opcode} (straight : opcode.isStraight = true) :
    opcode.leaves = false := by
  cases opcode <;> first | rfl | cases straight

theorem jumpsForward_branching (number : Int) {onTrue onFalse : List Entry}
    (trueForward : JumpsForward onTrue) (falseForward : JumpsForward onFalse) :
    JumpsForward (branching number [] onTrue onFalse) := by
  have ends : JumpsForward (onFalse ++ [.label (endLabel number)]) :=
    falseForward.append trivial
  have afterTrue : JumpsForward
      (Entry.of .jump (.text (endLabel number)) :: .label (elseLabel number) ::
        (onFalse ++ [.label (endLabel number)])) :=
    ⟨fun _ => ⟨_, rfl, by simp⟩, ends⟩
  have fromTrue := trueForward.append afterTrue
  have layout : branching number [] onTrue onFalse =
      Entry.of .jumpIfFalse (.text (elseLabel number)) ::
        Entry.of .jump (.text (thenLabel number)) :: .label (thenLabel number) ::
          (onTrue ++ (Entry.of .jump (.text (endLabel number)) :: .label (elseLabel number) ::
            (onFalse ++ [.label (endLabel number)]))) := by
    simp [branching]
  rw [layout]
  exact ⟨fun _ => ⟨_, rfl, by simp⟩, fun _ => ⟨_, rfl, by simp⟩, fromTrue⟩

namespace Structured

/-- The code of labelled code jumps forward. -/
theorem jumpsForward_code {labelled : Labelled} (straight : labelled.IsStraight) :
    JumpsForward labelled.code := by
  induction labelled with
  | done => trivial
  | instruction content rest ih =>
      have straightBoth := List.forall_mem_cons.mp straight
      refine ⟨fun isJump => ?_, ih straightBoth.2⟩
      rw [isJump_of_straight straightBoth.1] at isJump
      cases isJump
  | function site parameters body rest _ ih =>
      have straightBoth := List.forall_mem_append.mp straight
      exact ⟨nofun, ih straightBoth.2⟩
  | branch number onTrue onFalse rest trueIH falseIH restIH =>
      have straightAll := List.forall_mem_append.mp straight
      have straightBoth := List.forall_mem_append.mp straightAll.1
      have branches := jumpsForward_branching number (trueIH straightBoth.1)
        (falseIH straightBoth.2)
      exact branches.append (restIH straightAll.2)

end Structured

/-- What an instruction in laid out code is: a straight one, a closure, or a jump to a label
of a conditional. -/
inductive Instruction.Origin (numbers : List Int) (content : Instruction) : Prop where
  | straight (isStraight : content.opcode.isStraight = true)
  | close (isClose : content.opcode = .close) (label : String)
      (argument : content.argument = .text label)
  | jump (isJump : content.opcode.isJump = true) (number : Int) (isBranch : number ∈ numbers)
      (label : String) (isLabel : label ∈ branchLabels number)
      (argument : content.argument = .text label)

theorem Instruction.Origin.mono {first second : List Int} {content : Instruction}
    (origin : content.Origin first) (subset : first ⊆ second) : content.Origin second := by
  cases origin with
  | straight isStraight => exact .straight isStraight
  | close isClose label argument => exact .close isClose label argument
  | jump isJump number isBranch label isLabel argument =>
      exact .jump isJump number (subset isBranch) label isLabel argument

namespace Structured

theorem origin_of_mem_code {labelled : Labelled} (straight : labelled.IsStraight) :
    ∀ content ∈ instructionsOf labelled.code, content.Origin labelled.branches := by
  induction labelled with
  | done => nofun
  | instruction other rest ih =>
      have straightBoth := List.forall_mem_cons.mp straight
      exact List.forall_mem_cons.mpr ⟨.straight straightBoth.1, ih straightBoth.2⟩
  | function site parameters body rest _ ih =>
      have straightBoth := List.forall_mem_append.mp straight
      refine List.forall_mem_cons.mpr ⟨.close rfl site.label rfl, fun content member => ?_⟩
      exact (ih straightBoth.2 content member).mono (List.subset_append_right _ _)
  | branch number onTrue onFalse rest trueIH falseIH restIH =>
      have straightAll := List.forall_mem_append.mp straight
      have straightBoth := List.forall_mem_append.mp straightAll.1
      have jumpOrigin : ∀ {opcode label}, opcode.isJump = true → label ∈ branchLabels number →
          (⟨opcode, .text label⟩ : Instruction).Origin
            (branches (branch number onTrue onFalse rest)) := fun isJump isLabel =>
        .jump isJump number List.mem_cons_self _ isLabel rfl
      have layout : instructionsOf (code (branch number onTrue onFalse rest)) =
          ⟨.jumpIfFalse, .text (elseLabel number)⟩ :: ⟨.jump, .text (thenLabel number)⟩ ::
            (instructionsOf onTrue.code ++ ⟨.jump, .text (endLabel number)⟩ ::
              (instructionsOf onFalse.code ++ instructionsOf rest.code)) := by
        simp [code, branching]
      rw [layout]
      simp only [List.forall_mem_cons, List.forall_mem_append]
      refine ⟨jumpOrigin rfl (by simp [branchLabels]), jumpOrigin rfl (by simp [branchLabels]),
        fun content member => ?_, jumpOrigin rfl (by simp [branchLabels]),
        fun content member => ?_, fun content member => ?_⟩
      · exact (trueIH straightBoth.1 content member).mono fun _ inside => by
          simp [branches, inside]
      · exact (falseIH straightBoth.2 content member).mono fun _ inside => by
          simp [branches, inside]
      · exact (restIH straightAll.2 content member).mono fun _ inside => by
          simp [branches, inside]

end Structured

theorem isStraight_takeParameters (parameters : List String) :
    (takeParameters parameters).IsStraight := by
  induction parameters with
  | nil => exact Structured.isStraight_done
  | cons parameter rest ih => exact List.forall_mem_cons.mpr ⟨rfl, ih⟩

/-- The piece of every function consists of straight code and ends by returning. -/
theorem Structured.IsStraight.functionPieces {labelled : Labelled}
    (straight : labelled.IsStraight) :
    ∀ piece ∈ labelled.functionPieces, piece.code.IsStraight ∧ piece.last = .returnValue := by
  induction labelled with
  | done => nofun
  | instruction content rest ih => exact ih (List.forall_mem_cons.mp straight).2
  | function site parameters body rest bodyIH restIH =>
      have straightBoth := List.forall_mem_append.mp straight
      rw [Structured.functionPieces, List.forall_mem_append, List.forall_mem_cons]
      refine ⟨bodyIH straightBoth.1, ⟨?_, rfl⟩, restIH straightBoth.2⟩
      exact isStraight_append.mpr ⟨isStraight_takeParameters _, straightBoth.1⟩
  | branch number onTrue onFalse rest trueIH falseIH restIH =>
      have straightAll := List.forall_mem_append.mp straight
      have straightBoth := List.forall_mem_append.mp straightAll.1
      rw [Structured.functionPieces, List.forall_mem_append, List.forall_mem_append]
      exact ⟨⟨trueIH straightBoth.1, falseIH straightBoth.2⟩, restIH straightAll.2⟩

/-- A piece of straight code is a block. -/
theorem Piece.isBlock {piece : Piece} (straight : piece.code.IsStraight) :
    IsBlock piece.label piece.last piece.entries := by
  refine ⟨piece.code.code, rfl, Structured.jumpsForward_code straight, ?_⟩
  intro content member
  cases Structured.origin_of_mem_code straight content member with
  | straight isStraight => exact leaves_of_straight isStraight
  | close isClose label argument => rw [isClose]; rfl
  | jump isJump number isBranch label isLabel argument =>
      revert isJump
      cases content.opcode <;> first | exact fun _ => rfl | nofun

/-- The instructions of a script are those of its pieces and the ones at their ends. -/
theorem Structured.origin_of_mem_assemble {labelled : Labelled} (straight : labelled.IsStraight)
    {content : Instruction} (member : content ∈ instructionsOf (assemble labelled.fragment)) :
    content.Origin labelled.branches ∨ content.opcode.leaves = true := by
  have inPiece : ∀ piece : Piece, piece.code.IsStraight → piece.last.leaves = true →
      piece.code.branches ⊆ labelled.branches → content ∈ instructionsOf piece.entries →
        content.Origin labelled.branches ∨ content.opcode.leaves = true := by
    intro piece isStraight leaves subset inEntries
    rw [Piece.entries, instructionsOf_label, instructionsOf_append, List.mem_append] at inEntries
    rcases inEntries with inCode | isLast
    · exact .inl ((Structured.origin_of_mem_code isStraight content inCode).mono subset)
    · cases List.mem_singleton.mp isLast
      exact .inr leaves
  rw [Structured.assemble_eq_pieces, instructionsOf_append, List.mem_append] at member
  rcases member with inFunctions | inMain
  · rw [instructionsOf, List.mem_filterMap] at inFunctions
    rcases inFunctions with ⟨entry, inEntries, isContent⟩
    rcases List.mem_flatMap.mp inEntries with ⟨piece, isPiece, inPieceEntries⟩
    have pieceStraight := straight.functionPieces piece isPiece
    refine inPiece piece pieceStraight.1 (by rw [pieceStraight.2]; rfl)
      (Structured.branches_functionPieces isPiece) ?_
    exact List.mem_filterMap.mpr ⟨entry, inPieceEntries, isContent⟩
  · exact inPiece labelled.mainPiece straight rfl (List.Subset.refl _) inMain

end StackScript.Code

namespace StackScript.Script

open StackScript.Code (Entry Labelled Piece ControlFlow assemble instructionsOf labelsOf
  closedLabels)

/-- Control flows through the code of a script as through blocks. -/
theorem HasLabelled.controlFlow {script : String} {program : Surface.Program}
    {labelled : Labelled} (has : HasLabelled script program labelled) :
    ControlFlow (assemble labelled.fragment) (program.functions false)
      (labelled.functionPieces.map Piece.entries) labelled.mainPiece.entries := by
  have straightPieces := has.straight.functionPieces
  apply ControlFlow.of
  · rw [Code.Structured.assemble_eq_pieces, List.flatMap_def]
  · rw [← has.functions_eq, List.forall₂_map_left_iff, List.forall₂_map_right_iff]
    have labels := forall₂_of_map_eq labelled.labels_functionPieces
      fun piece entry member same => (has.numbered.exists_label member).imp
        fun number isLabel => same.trans isLabel
    apply ((List.forall₂_and_left _ _).mpr ⟨straightPieces, labels⟩).imp
    rintro piece entry ⟨⟨straight, isLast⟩, number, isLabel⟩
    refine ⟨number, ?_⟩
    rw [← isLabel, ← isLast]
    exact Piece.isBlock straight
  · exact Piece.isBlock has.straight
  · intro content member isJump
    rcases Code.Structured.origin_of_mem_assemble has.straight member with origin | leaves
    · cases origin with
      | straight isStraight =>
          rw [Code.isJump_of_straight isStraight] at isJump
          cases isJump
      | close isClose label argument =>
          rw [isClose] at isJump
          cases isJump
      | jump _ number isBranch label isLabel argument =>
          exact ⟨label, argument, has.numbered.count_branchLabel isBranch isLabel⟩
    · revert isJump leaves
      cases content.opcode <;> nofun
  · intro content member isClose
    rcases Code.Structured.origin_of_mem_assemble has.straight member with origin | leaves
    · cases origin with
      | straight isStraight =>
          rw [isClose] at isStraight
          cases isStraight
      | jump isJump _ _ _ _ _ =>
          rw [isClose] at isJump
          cases isJump
      | close _ label argument =>
          refine ⟨label, argument, ?_⟩
          have isClosed : label ∈ closedLabels (assemble labelled.fragment) := by
            rcases content with ⟨opcode, given⟩
            cases isClose
            cases argument
            exact List.mem_filterMap.mpr ⟨_, member, rfl⟩
          rw [(Code.closedLabels_assemble_labels has.straight).mem_iff, Code.Structured.labels,
            ← (labelled.functions_perm.map _).mem_iff,
            ← Code.Structured.labels_functionPieces] at isClosed
          rcases List.mem_map.mp isClosed with ⟨piece, isPiece, rfl⟩
          exact ⟨piece.entries, List.mem_map_of_mem isPiece, rfl⟩
    · rw [isClose] at leaves
      cases leaves

end StackScript.Script
