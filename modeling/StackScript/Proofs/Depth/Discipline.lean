import StackScript.Proofs.Depth.Pieces
import StackScript.Proofs.Shortening.Points

/-!
# Stack discipline

Stack code is disciplined if every point of it has a depth of the stack: none at the start
and at the end of the script, the arguments of a function where its code starts, its result
where it returns, and elsewhere what the instructions take and give.  The code of a script
without lists is disciplined, and shortened code is disciplined if the code is.
-/

namespace StackScript.Code

/-- The labels of stack code with the points that they stand at, counted from a number. -/
def labelPoints : (number : Nat) → List Entry → List (String × Nat)
  | _, [] => []
  | number, .label name :: rest => (name, number) :: labelPoints number rest
  | number, .instruction _ :: rest => labelPoints (number + 1) rest

/-- The labels of functions with the points at which the functions start: the labels that
the code closes over. -/
def functionPoints (entries : List Entry) : List (String × Nat) :=
  (labelPoints 0 entries).filter fun place => place.1 ∈ closedLabels entries

theorem labelPoints_append (number : Nat) (first second : List Entry) :
    labelPoints number (first ++ second) =
      labelPoints number first ++ labelPoints (number + size first) second := by
  induction first generalizing number with
  | nil => rfl
  | cons entry rest ih =>
      cases entry with
      | label name =>
          rw [List.cons_append, labelPoints, labelPoints, ih, size_label]
          rfl
      | instruction content =>
          rw [List.cons_append, labelPoints, labelPoints, ih, size_instruction,
            Nat.add_assoc number 1, Nat.add_comm 1]

theorem map_labelPoints (number : Nat) (entries : List Entry) :
    (labelPoints number entries).map Prod.fst = labelsOf entries := by
  induction entries generalizing number with
  | nil => rfl
  | cons entry rest ih =>
      cases entry with
      | label name => rw [labelPoints, List.map_cons, ih, labelsOf_label]
      | instruction content => rw [labelPoints, ih, labelsOf_instruction]

section Filter

variable {isFunction : String → Bool}

theorem filter_labelPoints_eq_nil {entries : List Entry} (number : Nat)
    (none : ∀ label ∈ labelsOf entries, isFunction label = false) :
    (labelPoints number entries).filter (fun place => isFunction place.1) = [] := by
  rw [List.filter_eq_nil_iff]
  intro place member
  have isLabel : place.1 ∈ labelsOf entries := by
    rw [← map_labelPoints number]
    exact List.mem_map_of_mem member
  rw [none _ isLabel]
  exact Bool.false_ne_true

/-- Among the labels of a piece only the first one can be that of a function. -/
theorem filter_labelPoints_piece {piece : Piece} (number : Nat)
    (inside : ∀ label ∈ labelsOf piece.code.code, isFunction label = false) :
    (labelPoints number piece.entries).filter (fun place => isFunction place.1) =
      if isFunction piece.label then [(piece.label, number)] else [] := by
  have codeEmpty := filter_labelPoints_eq_nil number inside
  rw [Piece.entries, labelPoints, labelPoints_append, List.filter_cons, List.filter_append,
    codeEmpty]
  rfl

theorem filter_labelPoints_pieces {pieces : List Piece} (number : Nat)
    (labels : ∀ piece ∈ pieces, isFunction piece.label = true)
    (inside : ∀ piece ∈ pieces, ∀ label ∈ labelsOf piece.code.code, isFunction label = false) :
    (labelPoints number (pieces.flatMap Piece.entries)).filter (fun place => isFunction place.1) =
      Piece.places number pieces := by
  induction pieces generalizing number with
  | nil => rfl
  | cons piece rest ih =>
      have labelsBoth := List.forall_mem_cons.mp labels
      have insideBoth := List.forall_mem_cons.mp inside
      rw [List.flatMap_cons, labelPoints_append, List.filter_append,
        filter_labelPoints_piece number insideBoth.1, if_pos labelsBoth.1,
        ih _ labelsBoth.2 insideBoth.2]
      rfl

end Filter

/-- The labels inside labelled code are those of its conditionals. -/
theorem mem_branches_of_mem_code {labelled : Labelled} {label : String}
    (member : label ∈ labelsOf labelled.code) :
    label ∈ labelled.branches.flatMap branchLabels := by
  induction labelled with
  | done => cases member
  | instruction content rest ih => exact ih member
  | function site parameters body rest _ ih =>
      rw [Structured.branches, List.flatMap_append]
      exact List.mem_append_right _ (ih member)
  | branch number onTrue onFalse rest trueIH falseIH restIH =>
      rw [Structured.code, labelsOf_append, List.mem_append,
        (labelsOf_branching number onTrue.code onFalse.code).mem_iff, List.mem_append,
        List.mem_append] at member
      rw [Structured.branches, List.flatMap_cons, List.flatMap_append, List.flatMap_append,
        List.mem_append, List.mem_append, List.mem_append]
      rcases member with (here | inTrue | inFalse) | inRest
      · exact .inl here
      · exact .inr (.inl (.inl (trueIH inTrue)))
      · exact .inr (.inl (.inr (falseIH inFalse)))
      · exact .inr (.inr (restIH inRest))

/-- The label of a function has the stem of the name of the function. -/
theorem Structured.Numbered.exists_label {labelled : Labelled} (numbered : labelled.Numbered)
    {outerFirst : Bool} {entry : Site × List String}
    (member : entry ∈ labelled.functions outerFirst) :
    ∃ number, entry.1.label = functionLabel (labelStem entry.1.name?) number := by
  have inOrder : entry ∈ labelled.functions true := by
    cases outerFirst with
    | true => exact member
    | false => exact labelled.functions_perm.mem_iff.mp member
  rcases numbered with ⟨after, tallied⟩
  have labels := tallied.labels
  rw [Structured.labels, Structured.names] at labels
  generalize functionCounts Tally.initial = counts at labels
  generalize labelled.functions true = functions at labels inOrder
  induction functions generalizing counts with
  | nil => cases inOrder
  | cons first rest ih =>
      rcases List.cons.inj labels with ⟨firstLabel, restLabels⟩
      rcases List.mem_cons.mp inOrder with rfl | later
      · exact ⟨_, firstLabel⟩
      · exact ih _ restLabels later

/-- The functions of a script start where their pieces start. -/
theorem functionPoints_assemble {labelled : Labelled} (straight : labelled.IsStraight)
    (numbered : labelled.Numbered) :
    functionPoints (assemble labelled.fragment) = Piece.places 0 labelled.functionPieces := by
  have closed : ∀ label, label ∈ closedLabels (assemble labelled.fragment) ↔
      label ∈ labelled.labels := fun label =>
    (closedLabels_assemble_labels straight).mem_iff
  have notClosed : ∀ label ∈ labelled.branches.flatMap branchLabels,
      decide (label ∈ closedLabels (assemble labelled.fragment)) = false := by
    intro label ofBranch
    apply decide_eq_false
    intro isClosed
    exact numbered.disjoint ((closed label).mp isClosed) ofBranch
  have pieceLabels : ∀ piece ∈ labelled.functionPieces,
      decide (piece.label ∈ closedLabels (assemble labelled.fragment)) = true := by
    intro piece member
    have isLabel := List.mem_map_of_mem (f := Piece.label) member
    rw [Structured.labels_functionPieces, (labelled.functions_perm.map _).mem_iff] at isLabel
    exact decide_eq_true ((closed piece.label).mpr isLabel)
  have inPieces : ∀ piece ∈ labelled.functionPieces, ∀ label ∈ labelsOf piece.code.code,
      decide (label ∈ closedLabels (assemble labelled.fragment)) = false := by
    intro piece member label inCode
    have ofBranch := mem_branches_of_mem_code inCode
    rcases List.mem_flatMap.mp ofBranch with ⟨number, inPiece, isLabel⟩
    have inScript := Structured.branches_functionPieces member inPiece
    exact notClosed label (List.mem_flatMap.mpr ⟨number, inScript, isLabel⟩)
  have notMain : decide (mainLabel ∈ closedLabels (assemble labelled.fragment)) = false := by
    apply decide_eq_false
    intro isClosed
    exact numbered.mainLabel_notMem (List.mem_append_left _ ((closed mainLabel).mp isClosed))
  have inMain : (labelPoints (0 + size (labelled.functionPieces.flatMap Piece.entries))
      labelled.mainPiece.entries).filter
        (fun place => decide (place.1 ∈ closedLabels (assemble labelled.fragment))) = [] := by
    rw [filter_labelPoints_piece _ fun label inCode => notClosed label
      (mem_branches_of_mem_code inCode)]
    exact if_neg (Bool.eq_false_iff.mp notMain)
  rw [functionPoints]
  generalize closedLabels (assemble labelled.fragment) = closedOver at *
  rw [Structured.assemble_eq_pieces, labelPoints_append, List.filter_append, inMain,
    List.append_nil]
  exact filter_labelPoints_pieces 0 pieceLabels inPieces

/-! ## Discipline -/

/-- A function starts at a point: the label is one of its name, and its arguments are on
the stack. -/
def StartsAt (depth : Nat → Nat) (place : String × Nat)
    (function : Option String × List String) : Prop :=
  (∃ number, place.1 = functionLabel (labelStem function.1) number) ∧
    depth place.2 = function.2.length

/-- Depths of the stack for the points of stack code. -/
structure Disciplined (entries : List Entry) (functions : Surface.Functions)
    (depth : Nat → Nat) : Prop where
  /-- The script starts with an empty stack. -/
  starts : ∃ point, place? mainLabel entries = some point ∧ depth point = 0
  /-- Each function starts with its arguments. -/
  enters : List.Forall₂ (StartsAt depth) (functionPoints entries) functions
  /-- Instructions take and give what they have to, and code ends at the right depths. -/
  sound : ∀ point, SoundAt entries depth point

/-- The pieces of a script have depths that start as they have to. -/
theorem exists_depth_pieces {labelled : Labelled} (numbered : labelled.Numbered)
    (fits : labelled.Fits 0 0) :
    ∃ depth, (Piece.places 0 labelled.functionPieces).map
        (fun place => (place.1, depth place.2)) =
          (labelled.functions false).map (fun entry => (entry.1.label, entry.2.length)) ∧
      depth (size labelled.blockEntries) = 0 ∧
      ∀ point, SoundAt (assemble labelled.fragment) depth point := by
  rcases exists_depths_pieces fits.pieces with ⟨depths, measures⟩
  have layout : assemble labelled.fragment = [] ++
      ((labelled.functionPieces ++ [labelled.mainPiece]).flatMap Piece.entries ++ []) := by
    simp [Structured.assemble_eq_pieces]
  have once : ∀ piece ∈ labelled.functionPieces ++ [labelled.mainPiece],
      Once (assemble labelled.fragment) piece.code.branches := by
    intro piece member number isBranch label isLabel
    rcases List.mem_append.mp member with ofFunction | isMain
    · have inScript := Structured.branches_functionPieces ofFunction isBranch
      exact numbered.count_branchLabel inScript isLabel
    · cases List.mem_singleton.mp isMain
      exact numbered.count_branchLabel isBranch isLabel
  rcases measures.sound layout once (agrees_getD [] depths) with ⟨starts, sound⟩
  refine ⟨fun point => depths.getD point 0, ?_⟩
  rw [size_nil, Piece.places_append, List.map_append] at starts
  rcases List.append_inj' starts rfl with ⟨functionStarts, mainStarts⟩
  refine ⟨functionStarts, ?_, ?_⟩
  · have mainStart := (Prod.mk.inj (List.cons.inj mainStarts).1).2
    rwa [Structured.flatMap_functionPieces, Nat.zero_add] at mainStart
  · intro point content isAt
    have inside := (List.getElem?_eq_some_iff.mp isAt).1
    have total : size (assemble labelled.fragment) =
        size ([] : List Entry) +
          size ((labelled.functionPieces ++ [labelled.mainPiece]).flatMap Piece.entries) := by
      rw [layout]
      simp
    exact sound point (Nat.zero_le _) (total ▸ inside) content isAt

end StackScript.Code

namespace StackScript.Script

open StackScript.Code (Disciplined Structured assemble)

/-- The code of a script without lists is disciplined. -/
theorem HasLabelled.exists_disciplined {script : String} {program : Surface.Program}
    {labelled : Code.Labelled} (has : HasLabelled script program labelled)
    (listFree : program.isListFree = true) :
    ∃ depth, Disciplined (assemble labelled.fragment) (program.functions false) depth := by
  have fits : labelled.Fits 0 0 :=
    Structured.fits_of_mapMarks (Surface.fits_outline listFree has.outlined)
  rcases Code.exists_depth_pieces has.numbered fits with ⟨depth, functionStarts, mainStart, sound⟩
  refine ⟨depth, ?_, ?_, sound⟩
  · exact ⟨_, Code.place?_of_eq _ has.numbered.count_mainLabel
      (Code.assemble_fragment labelled), mainStart⟩
  · rw [Code.functionPoints_assemble has.straight has.numbered, ← has.functions_eq,
      List.forall₂_map_right_iff]
    apply forall₂_of_map_eq functionStarts
    intro place entry member same
    rcases has.numbered.exists_label member with ⟨number, isLabel⟩
    rcases Prod.mk.inj same with ⟨labels, depths⟩
    exact ⟨⟨number, labels.trans isLabel⟩, depths⟩

end StackScript.Script
