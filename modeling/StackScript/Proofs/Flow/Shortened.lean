import StackScript.Proofs.Depth.Shortened
import StackScript.Proofs.Flow.Blocks

/-!
# The flow of control in shortened code

Shortening removes nothing across the border of two blocks, since a block starts with a
label.  So it shortens each block on its own, and keeps its label, its last instruction and
all its jumps (`ControlFlow.optimize`).
-/

namespace StackScript.Code

/-- A part of the code after shortening, when it is known which symbols are used. -/
def shortenedPart (used : List Argument) (part : List Entry) : List Entry :=
  (removePushDrop part).map (dropIfUnused used)

/-- Pairs are removed from two parts one by one, unless the second starts with a `drop`. -/
theorem removePushDrop_append {second : List Entry}
    (noDrop : ∀ entry ∈ second.head?, entry.hasOpcode .drop = false) (first : List Entry) :
    removePushDrop (first ++ second) = removePushDrop first ++ removePushDrop second := by
  induction first using removal_induction with
  | nil => rfl
  | pair pushed dropped rest ih =>
      rw [removePushDrop_pair rfl, List.cons_append, List.cons_append, removePushDrop_pair rfl, ih]
  | kept entry rest kept ih =>
      have stillKept : startsPair (entry :: (rest ++ second)) = false := by
        cases rest with
        | cons next others => exact kept
        | nil =>
            cases second with
            | nil => rfl
            | cons next others =>
                change (entry.hasOpcode .push && next.hasOpcode .drop) = false
                rw [noDrop next rfl, Bool.and_false]
      rw [removePushDrop_cons kept, List.cons_append, removePushDrop_cons stillKept, ih,
        List.cons_append]

theorem shortenedPart_append (used : List Argument) {second : List Entry}
    (noDrop : ∀ entry ∈ second.head?, entry.hasOpcode .drop = false) (first : List Entry) :
    shortenedPart used (first ++ second) =
      shortenedPart used first ++ shortenedPart used second := by
  rw [shortenedPart, removePushDrop_append noDrop, List.map_append]
  rfl

theorem shortenedPart_label (used : List Argument) (name : String) (rest : List Entry) :
    shortenedPart used (.label name :: rest) = .label name :: shortenedPart used rest := by
  have kept : startsPair (.label name :: rest) = false := by
    cases rest <;> rfl
  rw [shortenedPart, removePushDrop_cons kept]
  rfl

theorem labelsOf_removePushDrop (entries : List Entry) :
    labelsOf (removePushDrop entries) = labelsOf entries := by
  induction entries using removal_induction with
  | nil => rfl
  | pair first second rest ih =>
      rw [removePushDrop_pair rfl, ih]
      rfl
  | kept entry rest kept ih =>
      rw [removePushDrop_cons kept]
      cases entry with
      | label name => rw [labelsOf_label, labelsOf_label, ih]
      | instruction content => exact ih

/-- Shortening keeps all labels. -/
theorem labelsOf_shortenedPart (used : List Argument) (part : List Entry) :
    labelsOf (shortenedPart used part) = labelsOf part := by
  rw [← map_labelPoints 0, shortenedPart, labelPoints_dropIfUnused, map_labelPoints,
    labelsOf_removePushDrop]

theorem mem_removePushDrop {entries : List Entry} {entry : Entry}
    (member : entry ∈ removePushDrop entries) : entry ∈ entries := by
  induction entries using removal_induction with
  | nil => cases member
  | pair first second rest ih =>
      rw [removePushDrop_pair rfl] at member
      exact List.mem_cons_of_mem _ (List.mem_cons_of_mem _ (ih member))
  | kept first rest kept ih =>
      rw [removePushDrop_cons kept] at member
      rcases List.mem_cons.mp member with rfl | later
      · exact List.mem_cons_self
      · exact List.mem_cons_of_mem _ (ih later)

/-- Only symbols that are pushed and drops are removed. -/
theorem mem_removePushDrop_iff {entries : List Entry} {content : Instruction}
    (notPush : content.opcode ≠ .push) (notDrop : content.opcode ≠ .drop) :
    content ∈ instructionsOf (removePushDrop entries) ↔ content ∈ instructionsOf entries := by
  induction entries using removal_induction with
  | nil => rfl
  | pair first second rest ih =>
      have notFirst : content ≠ ⟨.push, first⟩ := fun same => notPush (congrArg _ same)
      have notSecond : content ≠ ⟨.drop, second⟩ := fun same => notDrop (congrArg _ same)
      rw [removePushDrop_pair rfl, instructionsOf_instruction, instructionsOf_instruction,
        List.mem_cons, List.mem_cons, or_iff_right notFirst, or_iff_right notSecond]
      exact ih
  | kept entry rest kept ih =>
      rw [removePushDrop_cons kept]
      cases entry with
      | label name => exact ih
      | instruction other =>
          rw [instructionsOf_instruction, instructionsOf_instruction, List.mem_cons,
            List.mem_cons, ih]

/-- An instruction of a shortened part is one of the part, or a `drop`. -/
theorem mem_shortenedPart {used : List Argument} {part : List Entry} {content : Instruction}
    (member : content ∈ instructionsOf (shortenedPart used part)) :
    content ∈ instructionsOf part ∨ content = ⟨.drop, .nothing⟩ := by
  rw [shortenedPart, instructionsOf_dropIfUnused] at member
  rcases List.mem_map.mp member with ⟨original, isOriginal, rfl⟩
  rcases List.mem_filterMap.mp isOriginal with ⟨entry, inShort, isContent⟩
  have inPart : original ∈ instructionsOf part :=
    List.mem_filterMap.mpr ⟨entry, mem_removePushDrop inShort, isContent⟩
  rw [dropInstruction]
  split
  · exact .inr rfl
  · exact .inl inPart

/-- Jumps stay, and so do the labels after them. -/
theorem JumpsForward.removePushDrop {entries : List Entry} (forward : JumpsForward entries) :
    JumpsForward (removePushDrop entries) := by
  induction entries using removal_induction with
  | nil => trivial
  | pair first second rest ih =>
      rw [removePushDrop_pair rfl]
      exact ih forward.2.2
  | kept entry rest kept ih =>
      rw [removePushDrop_cons kept]
      cases entry with
      | label name => exact ih forward
      | instruction content =>
          refine ⟨?_, ih forward.2⟩
          rw [labelsOf_removePushDrop]
          exact forward.1

theorem JumpsForward.dropIfUnused {entries : List Entry} (forward : JumpsForward entries)
    (used : List Argument) : JumpsForward (entries.map (dropIfUnused used)) := by
  induction entries with
  | nil => trivial
  | cons entry rest ih =>
      cases entry with
      | label name => exact ih forward
      | instruction content =>
          have sameLabels : labelsOf (rest.map (Code.dropIfUnused used)) = labelsOf rest := by
            rw [← map_labelPoints 0, labelPoints_dropIfUnused, map_labelPoints]
          rw [List.map_cons, dropIfUnused_instruction]
          refine ⟨?_, ih forward.2⟩
          rw [sameLabels, dropInstruction]
          split
          · rintro ⟨⟩
          · exact forward.1

/-! ## Blocks -/

/-- A block stays a block under the same label. -/
theorem IsBlock.shortenedPart {label : String} {last : Opcode} {block : List Entry}
    (isBlock : IsBlock label last block) (leaves : last.leaves = true) (used : List Argument) :
    IsBlock label last (shortenedPart used block) := by
  rcases isBlock with ⟨inside, rfl, forward, stays⟩
  have lastStays : Code.shortenedPart used [Entry.of last .nothing] =
      [Entry.of last .nothing] := by
    cases last <;> first | rfl | cases leaves
  have noDrop : ∀ entry ∈ [Entry.of last .nothing].head?, entry.hasOpcode .drop = false := by
    rintro entry ⟨⟩
    cases last <;> first | rfl | cases leaves
  refine ⟨Code.shortenedPart used inside, ?_, forward.removePushDrop.dropIfUnused used, ?_⟩
  · rw [shortenedPart_label, shortenedPart_append used noDrop, lastStays]
  · intro content member
    rcases mem_shortenedPart member with inBlock | rfl
    · exact stays content inBlock
    · rfl

/-- No block starts with a `drop`. -/
theorem IsBlock.noDrop {label : String} {last : Opcode} {block : List Entry}
    (isBlock : IsBlock label last block) (rest : List Entry) :
    ∀ entry ∈ (block ++ rest).head?, entry.hasOpcode .drop = false := by
  rcases isBlock with ⟨inside, rfl, _⟩
  rintro entry ⟨⟩
  rfl

/-- A sequence of blocks is shortened block by block. -/
theorem shortenedPart_blocks (used : List Argument) {functions : Surface.Functions}
    {blocks : List (List Entry)} {main : List Entry}
    (functionBlocks : List.Forall₂ IsFunctionBlock blocks functions)
    (mainBlock : IsBlock mainLabel .halt main) :
    shortenedPart used (blocks.flatten ++ main) =
      (blocks.map (shortenedPart used)).flatten ++ shortenedPart used main := by
  induction functionBlocks with
  | nil => rfl
  | @cons block function blocks functions isFunction rest ih =>
      have noDrop : ∀ entry ∈ (blocks.flatten ++ main).head?, entry.hasOpcode .drop = false := by
        cases rest with
        | nil => simpa using mainBlock.noDrop []
        | cons nextIsFunction _ =>
            rcases nextIsFunction with ⟨number, isBlock⟩
            rw [List.flatten_cons, List.append_assoc]
            exact isBlock.noDrop _
      rw [List.flatten_cons, List.append_assoc, shortenedPart_append used noDrop, ih,
        List.map_cons, List.flatten_cons, List.append_assoc]

theorem head?_shortenedPart {used : List Argument} {block : List Entry} {label : String}
    (starts : block.head? = some (.label label)) :
    (shortenedPart used block).head? = some (.label label) := by
  cases block with
  | nil => cases starts
  | cons first rest =>
      cases starts
      rw [shortenedPart_label]
      rfl

/-- Control flows through shortened code as through the code. -/
theorem ControlFlow.optimize {entries : List Entry} {functions : Surface.Functions}
    {blocks : List (List Entry)} {main : List Entry}
    (flow : ControlFlow entries functions blocks main) :
    ControlFlow (optimize entries) functions
      (blocks.map (shortenedPart (usedSymbols entries)))
      (shortenedPart (usedSymbols entries) main) := by
  have shortened : Code.optimize entries = shortenedPart (usedSymbols entries) entries := rfl
  rw [shortened]
  generalize usedSymbols entries = used
  apply ControlFlow.of
  · rw [flow.layout]
    exact shortenedPart_blocks used flow.functionBlocks flow.mainBlock
  · rw [List.forall₂_map_left_iff]
    apply flow.functionBlocks.imp
    rintro block function ⟨number, isBlock⟩
    exact ⟨number, isBlock.shortenedPart rfl used⟩
  · exact flow.mainBlock.shortenedPart rfl used
  · intro content member isJump
    rw [labelsOf_shortenedPart]
    rcases mem_shortenedPart member with inEntries | rfl
    · exact flow.jumps content inEntries isJump
    · cases isJump
  · intro content member isClose
    rcases mem_shortenedPart member with inEntries | rfl
    · rcases flow.closes content inEntries isClose with ⟨label, argument, block, isBlock, starts⟩
      exact ⟨label, argument, _, List.mem_map_of_mem isBlock, head?_shortenedPart starts⟩
    · cases isClose

end StackScript.Code

namespace StackScript.Script

open StackScript.Code (ControlFlow Entry optimize)

/-- The code of a script and its shortened code are sequences of blocks, through which
control flows forward. -/
theorem code_and_shortCode_flow {script : String} {entries : List Entry}
    (generated : Script.code script = .ok entries) :
    ∃ program, Script.surface script = .ok program ∧
      (∃ blocks main, ControlFlow entries (program.functions false) blocks main) ∧
      Script.shortCode script = .ok (optimize entries) ∧
      ∃ blocks main, ControlFlow (optimize entries) (program.functions false) blocks main := by
  rcases exists_hasLabelled generated with ⟨program, labelled, has, rfl⟩
  have shortened : Script.shortCode script = .ok (optimize (Code.assemble labelled.fragment)) := by
    rw [Script.shortCode, generated]
    rfl
  exact ⟨program, has.parsed, ⟨_, _, has.controlFlow⟩, shortened, _, _, has.controlFlow.optimize⟩

/-- A script in which a conditional stands in a function that stands in another one. -/
def conditionalInside : String :=
  "def f(x) do\n  lambda(y) do if x < y and y < 9 do [x] else [] end end\nend\nf(2)(3)\n"

theorem conditionalInside_flow :
    ∃ entries program, Script.code conditionalInside = .ok entries ∧
      Script.surface conditionalInside = .ok program ∧
      (∃ blocks main, ControlFlow entries (program.functions false) blocks main) ∧
      Script.shortCode conditionalInside = .ok (optimize entries) ∧
      ∃ blocks main, ControlFlow (optimize entries) (program.functions false) blocks main := by
  have accepted : (Script.code conditionalInside).isOk = true := by
    decide +kernel
  cases generated : Script.code conditionalInside with
  | error error =>
      rw [generated] at accepted
      cases accepted
  | ok entries =>
      rcases code_and_shortCode_flow generated with ⟨program, facts⟩
      exact ⟨entries, program, rfl, facts⟩

end StackScript.Script
