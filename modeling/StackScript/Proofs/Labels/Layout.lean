import StackScript.Proofs.Grammar.Names
import StackScript.Proofs.Labels.Place
import StackScript.Proofs.Structured.Contents
import StackScript.Proofs.Structured.OfScript
import Mathlib.Data.List.Perm.Basic

/-!
# The labels of laid out code

The labels of a script's code are `__main__`, one label for each function and three for
each conditional, and only functions are closed over.  Labels of different kinds are
never the same, and those of conditionals are all distinct.
-/

namespace StackScript.Code

/-- The label that an instruction closes over. -/
def Instruction.closed? : Instruction → Option String
  | ⟨.close, .text label⟩ => some label
  | _ => none

/-- The labels that stack code closes over, in order. -/
def closedLabels (entries : List Entry) : List String :=
  (instructionsOf entries).filterMap Instruction.closed?

@[simp] theorem closedLabels_append (first second : List Entry) :
    closedLabels (first ++ second) = closedLabels first ++ closedLabels second := by
  simp [closedLabels]

theorem closedLabels_label (name : String) (rest : List Entry) :
    closedLabels (.label name :: rest) = closedLabels rest := rfl

/-- A straight instruction closes over nothing. -/
theorem closed?_of_straight {content : Instruction}
    (straight : content.opcode.isStraight = true) : content.closed? = none := by
  rcases content with ⟨opcode, argument⟩
  cases opcode <;> first | rfl | cases straight

def bindings (parameters : List String) : List Entry :=
  parameters.reverse.map fun parameter => Entry.of .pop (symbolArgument parameter)

theorem Block.entries_eq (block : Block) :
    block.entries = .label block.site.label ::
      (bindings block.parameters ++ block.body ++ [Entry.of .returnValue .nothing]) := by
  simp [Block.entries, functionBlock, bindings]

theorem labelsOf_bindings (parameters : List String) : labelsOf (bindings parameters) = [] := by
  simp [labelsOf, bindings, List.filterMap_eq_nil_iff, Entry.of, Entry.label?]

theorem closedLabels_bindings (parameters : List String) :
    closedLabels (bindings parameters) = [] := by
  simp only [closedLabels, List.filterMap_eq_nil_iff, instructionsOf, bindings,
    List.mem_filterMap, List.mem_map]
  rintro content ⟨_, ⟨parameter, _, rfl⟩, found⟩
  cases found
  rfl

@[simp] theorem labelsOf_block (block : Block) :
    labelsOf block.entries = block.site.label :: labelsOf block.body := by
  simp [Block.entries_eq, labelsOf_bindings]

@[simp] theorem closedLabels_block (block : Block) :
    closedLabels block.entries = closedLabels block.body := by
  rw [Block.entries_eq, closedLabels_label, closedLabels_append, closedLabels_append,
    closedLabels_bindings]
  exact List.append_nil _

/-- The blocks of labelled code, laid out one after another. -/
def Structured.blockEntries (labelled : Labelled) : List Entry :=
  labelled.blocks.flatMap Block.entries

namespace Structured

@[simp] theorem blockEntries_instruction (content : Instruction) (rest : Labelled) :
    (instruction content rest : Labelled).blockEntries = rest.blockEntries := rfl

@[simp] theorem blockEntries_function (site : Site) (parameters : List String)
    (body rest : Labelled) :
    (function site parameters body rest : Labelled).blockEntries =
      body.blockEntries ++ (Block.entries ⟨site, parameters, body.code⟩ ++ rest.blockEntries) := by
  simp [blockEntries, blocks]

@[simp] theorem blockEntries_branch (number : Int) (onTrue onFalse rest : Labelled) :
    (branch number onTrue onFalse rest : Labelled).blockEntries =
      onTrue.blockEntries ++ (onFalse.blockEntries ++ rest.blockEntries) := by
  simp [blockEntries, blocks]

@[simp] theorem labels_function (site : Site) (parameters : List String)
    (body rest : Labelled) :
    (function site parameters body rest : Labelled).labels =
      site.label :: (body.labels ++ rest.labels) := by
  simp [labels, functions, withInner]

@[simp] theorem labels_branch (number : Int) (onTrue onFalse rest : Labelled) :
    (branch number onTrue onFalse rest : Labelled).labels =
      onTrue.labels ++ (onFalse.labels ++ rest.labels) := by
  simp [labels, functions]

end Structured

theorem assemble_fragment (labelled : Labelled) :
    assemble labelled.fragment =
      labelled.blockEntries ++
        .label mainLabel :: (labelled.code ++ [Entry.of .halt .nothing]) := by
  simp [assemble, Structured.fragment, Structured.blockEntries]

theorem labelsOf_branching (number : Int) (onTrue onFalse : List Entry) :
    (labelsOf (branching number [] onTrue onFalse)).Perm
      (branchLabels number ++ (labelsOf onTrue ++ labelsOf onFalse)) := by
  rw [List.perm_iff_count]
  intro label
  simp [branching, branchLabels, List.count_append, List.count_cons]
  omega

/-- The labels of laid out code belong to its functions and conditionals. -/
theorem labelsOf_layout (labelled : Labelled) :
    (labelsOf labelled.blockEntries ++ labelsOf labelled.code).Perm
      (labelled.labels ++ labelled.branches.flatMap branchLabels) := by
  rw [List.perm_iff_count]
  intro label
  induction labelled with
  | done => rfl
  | instruction content rest ih => exact ih
  | function site parameters body rest bodyIH restIH =>
      simp only [Structured.blockEntries_function, Structured.code, Structured.labels_function,
        Structured.branches, List.flatMap_append, labelsOf_append, labelsOf_block, labelsOf_of,
        List.cons_append, List.count_append, List.count_cons] at bodyIH restIH ⊢
      omega
  | branch number onTrue onFalse rest trueIH falseIH restIH =>
      have branchCount := (labelsOf_branching number onTrue.code onFalse.code).count_eq label
      simp only [List.count_append] at trueIH falseIH restIH branchCount
      simp only [Structured.blockEntries_branch, Structured.code, Structured.labels_branch,
        Structured.branches, List.flatMap_append, List.flatMap_cons, labelsOf_append,
        List.count_append]
      omega

/-- The labels of a script's code. -/
theorem labelsOf_assemble (labelled : Labelled) :
    (labelsOf (assemble labelled.fragment)).Perm
      (mainLabel :: (labelled.labels ++ labelled.branches.flatMap branchLabels)) := by
  rw [assemble_fragment, labelsOf_append, labelsOf_label, labelsOf_append]
  refine List.perm_middle.trans (List.Perm.cons _ ?_)
  simpa using labelsOf_layout labelled

theorem closedLabels_branching (number : Int) (onTrue onFalse : List Entry) :
    closedLabels (branching number [] onTrue onFalse) =
      closedLabels onTrue ++ closedLabels onFalse := by
  simp only [closedLabels, branching, instructionsOf_append, instructionsOf_of,
    instructionsOf_label, instructionsOf_nil, List.nil_append, List.append_nil, List.cons_append]
  rw [List.filterMap_cons_none rfl, List.filterMap_cons_none rfl, List.append_assoc,
    List.singleton_append, List.filterMap_append, List.filterMap_cons_none rfl]

/-- Laid out code closes over each of its functions once. -/
theorem closedLabels_layout {labelled : Labelled} (straight : labelled.IsStraight) :
    (closedLabels labelled.blockEntries ++ closedLabels labelled.code).Perm
      labelled.labels := by
  rw [List.perm_iff_count]
  intro label
  induction labelled with
  | done => rfl
  | instruction content rest ih =>
      have straightBoth := List.forall_mem_cons.mp straight
      have closesNothing : closedLabels (.instruction content :: rest.code) =
          closedLabels rest.code := by
        simp [closedLabels, closed?_of_straight straightBoth.1]
      rw [Structured.code, closesNothing]
      exact ih straightBoth.2
  | function site parameters body rest bodyIH restIH =>
      have straightBoth := List.forall_mem_append.mp straight
      have bodyCount := bodyIH straightBoth.1
      have restCount := restIH straightBoth.2
      have closesHere : closedLabels (Entry.of .close (.text site.label) :: rest.code) =
          site.label :: closedLabels rest.code := rfl
      simp only [Structured.blockEntries_function, Structured.code, Structured.labels_function,
        closedLabels_append, closedLabels_block, closesHere, List.count_append,
        List.count_cons] at bodyCount restCount ⊢
      omega
  | branch number onTrue onFalse rest trueIH falseIH restIH =>
      have straightAll := List.forall_mem_append.mp straight
      have straightBoth := List.forall_mem_append.mp straightAll.1
      have trueCount := trueIH straightBoth.1
      have falseCount := falseIH straightBoth.2
      have restCount := restIH straightAll.2
      simp only [Structured.blockEntries_branch, Structured.code, Structured.labels_branch,
        closedLabels_append, closedLabels_branching, List.count_append]
        at trueCount falseCount restCount ⊢
      omega

/-- A script's code closes over the labels of its functions. -/
theorem closedLabels_assemble_labels {labelled : Labelled} (straight : labelled.IsStraight) :
    (closedLabels (assemble labelled.fragment)).Perm labelled.labels := by
  have layout : closedLabels (assemble labelled.fragment) =
      closedLabels labelled.blockEntries ++ closedLabels labelled.code := by
    rw [assemble_fragment, closedLabels_append, closedLabels_label, closedLabels_append]
    exact congrArg _ (List.append_nil _)
  rw [layout]
  exact closedLabels_layout straight

/-- A script's code closes over each of its functions once. -/
theorem closedLabels_assemble {labelled : Labelled} (straight : labelled.IsStraight) :
    (closedLabels (assemble labelled.fragment)).Perm
      (labelled.blocks.map fun block => block.site.label) := by
  have blockLabels : labelled.blocks.map (fun block => block.site.label) =
      (labelled.functions false).map fun entry => entry.1.label := by
    rw [← Structured.map_blocks, List.map_map]
    rfl
  rw [blockLabels]
  exact (closedLabels_assemble_labels straight).trans (labelled.functions_perm.map _).symm

/-! ## Labels of different kinds -/

theorem exists_of_mem_labelsFor {label : String} {counts : Option String → Int}
    {names : List (Option String)} (member : label ∈ labelsFor counts names) :
    ∃ stem number, label = functionLabel stem number := by
  induction names generalizing counts with
  | nil => cases member
  | cons name? rest ih =>
      rcases List.mem_cons.mp member with rfl | later
      · exact ⟨_, _, rfl⟩
      · exact ih later

/-- The labels and numbers of a script have been given out from its first tally. -/
def Structured.Numbered (labelled : Labelled) : Prop :=
  ∃ after, Tallied Tally.initial labelled after

namespace Structured.Numbered

variable {labelled : Labelled}

theorem branches_nodup (numbered : labelled.Numbered) : labelled.branches.Nodup := by
  rcases numbered with ⟨after, tallied⟩
  rcases tallied.numbers 0 (by decide) with ⟨_, _, _, nodup, _⟩
  exact nodup

theorem exists_functionLabel (numbered : labelled.Numbered) {label : String}
    (member : label ∈ labelled.labels) : ∃ stem number, label = functionLabel stem number := by
  rcases numbered with ⟨after, tallied⟩
  rw [tallied.labels] at member
  exact exists_of_mem_labelsFor member

/-- Functions and conditionals have no label in common. -/
theorem disjoint (numbered : labelled.Numbered) :
    List.Disjoint labelled.labels (labelled.branches.flatMap branchLabels) := by
  intro label ofFunction ofBranch
  rcases numbered.exists_functionLabel ofFunction with ⟨stem, first, rfl⟩
  rcases List.mem_flatMap.mp ofBranch with ⟨second, _, member⟩
  exact functionLabel_notMem_branchLabels stem first second member

theorem mainLabel_notMem (numbered : labelled.Numbered) :
    mainLabel ∉ labelled.labels ++ labelled.branches.flatMap branchLabels := by
  intro member
  rcases List.mem_append.mp member with ofFunction | ofBranch
  · rcases numbered.exists_functionLabel ofFunction with ⟨stem, number, same⟩
    exact functionLabel_ne_mainLabel stem number same.symm
  · rcases List.mem_flatMap.mp ofBranch with ⟨number, _, inLabels⟩
    exact mainLabel_notMem_branchLabels number inLabels

/-- Only functions may share labels. -/
theorem nodup_labelsOf_iff (numbered : labelled.Numbered) :
    (labelsOf (assemble labelled.fragment)).Nodup ↔ labelled.labels.Nodup := by
  rw [(labelsOf_assemble labelled).nodup_iff, List.nodup_cons, List.nodup_append']
  constructor
  · rintro ⟨_, functions, _, _⟩
    exact functions
  · intro functions
    exact ⟨numbered.mainLabel_notMem, functions,
      flatMap_branchLabels_nodup numbered.branches_nodup, numbered.disjoint⟩

/-- A label of a conditional occurs once. -/
theorem count_branchLabel (numbered : labelled.Numbered) {number : Int} {label : String}
    (branch : number ∈ labelled.branches) (member : label ∈ branchLabels number) :
    (labelsOf (assemble labelled.fragment)).count label = 1 := by
  have ofBranch : label ∈ labelled.branches.flatMap branchLabels :=
    List.mem_flatMap.mpr ⟨number, branch, member⟩
  have notMain : mainLabel ≠ label := by
    rintro rfl
    exact numbered.mainLabel_notMem (List.mem_append_right _ ofBranch)
  have notFunction : label ∉ labelled.labels := fun ofFunction =>
    numbered.disjoint ofFunction ofBranch
  have once : (labelled.branches.flatMap branchLabels).count label = 1 :=
    List.count_eq_one_of_mem (flatMap_branchLabels_nodup numbered.branches_nodup) ofBranch
  rw [(labelsOf_assemble labelled).count_eq, List.count_cons_of_ne notMain, List.count_append,
    List.count_eq_zero.mpr notFunction, once]

/-- The label at which a script starts occurs once. -/
theorem count_mainLabel (numbered : labelled.Numbered) :
    (labelsOf (assemble labelled.fragment)).count mainLabel = 1 := by
  rw [(labelsOf_assemble labelled).count_eq, List.count_cons_self,
    List.count_eq_zero.mpr numbered.mainLabel_notMem]

end Structured.Numbered

end StackScript.Code

namespace StackScript.Script

open StackScript.Code (Entry Labelled Site assemble branchKey)

/-- A script has labelled code: it has the outline of the script's surface tree, and
its labels and numbers have been given out in order. -/
structure HasLabelled (script : String) (program : Surface.Program) (labelled : Labelled) :
    Prop where
  parsed : Script.surface script = .ok program
  outlined : program.outline = some labelled.outline
  numbered : labelled.Numbered

namespace HasLabelled

variable {script : String} {program : Surface.Program} {labelled : Labelled}

theorem straight (has : HasLabelled script program labelled) : labelled.IsStraight := by
  have outlineStraight := Surface.isStraight_outline has.outlined
  rwa [Code.Structured.IsStraight, Code.Structured.outline,
    Code.Structured.instructions_mapMarks] at outlineStraight

/-- The functions of labelled code are those of the script. -/
theorem functions_eq (has : HasLabelled script program labelled) (outerFirst : Bool) :
    (labelled.functions outerFirst).map (fun entry => (entry.1.name?, entry.2)) =
      program.functions outerFirst := by
  rw [← Surface.functions_outline has.outlined, Code.Structured.outline,
    Code.Structured.functions_mapMarks]

theorem names_eq (has : HasLabelled script program labelled) :
    labelled.names = (program.functions true).map Prod.fst := by
  rw [← has.functions_eq, List.map_map]
  rfl

end HasLabelled

/-- No function is counted under the name of conditionals. -/
theorem branchKey_notMem {script : String} {program : Surface.Program}
    (parsed : Script.surface script = .ok program) :
    branchKey ∉ (program.functions true).map Prod.fst := by
  intro member
  rcases List.mem_map.mp member with ⟨⟨name?, parameters⟩, isFunction, same⟩
  cases same
  exact (isName_of_mem_functions parsed isFunction).ne_if rfl

/-- The code of a script is the layout of its labelled code. -/
theorem exists_hasLabelled {script : String} {entries : List Entry}
    (generated : Script.code script = .ok entries) :
    ∃ program labelled, HasLabelled script program labelled ∧
      entries = assemble labelled.fragment := by
  rcases code_structured generated with
    ⟨program, parsed, labelled, after, outlined, rfl, tallied⟩
  refine ⟨program, labelled, ⟨parsed, outlined, after, tallied ?_⟩, rfl⟩
  have namesEq : labelled.names = (program.functions true).map Prod.fst := by
    rw [← Surface.functions_outline outlined, Code.Structured.outline,
      Code.Structured.functions_mapMarks, List.map_map]
    rfl
  rw [namesEq]
  exact branchKey_notMem parsed

end StackScript.Script
