import StackScript.Proofs.Depth.Layout

/-!
# Pieces of code

The code of a script is a sequence of pieces, each under a label of its own.  The piece of
a function starts with as many values on the stack as the function has parameters, and the
piece of the script with none (`exists_depths_pieces`).
-/

namespace StackScript.Code

/-- A piece of code: what stands under a label up to the instruction that ends it. -/
structure Piece where
  label : String
  code : Labelled
  last : Opcode

namespace Piece

def entries (piece : Piece) : List Entry :=
  .label piece.label :: (piece.code.code ++ [Entry.of piece.last .nothing])

/-- A piece has a label and starts at a depth, and it ends at the depth that its last
instruction needs. -/
def Fits (piece : Piece) (start : String × Nat) : Prop :=
  piece.label = start.1 ∧
    ∃ after, piece.last.lastDepth? = some after ∧ piece.code.Fits start.2 after

/-- The labels of pieces with the points at which they start. -/
def places : (number : Nat) → List Piece → List (String × Nat)
  | _, [] => []
  | number, piece :: rest => (piece.label, number) :: places (number + size piece.entries) rest

theorem places_append (number : Nat) (first second : List Piece) :
    places number (first ++ second) =
      places number first ++ places (number + size (first.flatMap entries)) second := by
  induction first generalizing number with
  | nil => rfl
  | cons piece rest ih =>
      rw [List.cons_append, places, places, ih, List.flatMap_cons, size_append, Nat.add_assoc]
      rfl

end Piece

/-- The code that takes the values of parameters from the stack. -/
def takeParameters : List String → Labelled
  | [] => .done
  | parameter :: rest => .instruction ⟨.pop, symbolArgument parameter⟩ (takeParameters rest)

theorem code_takeParameters (parameters : List String) :
    (takeParameters parameters).code =
      parameters.map fun parameter => Entry.of .pop (symbolArgument parameter) := by
  induction parameters with
  | nil => rfl
  | cons parameter rest ih =>
      rw [takeParameters, Structured.code, ih]
      rfl

theorem fits_takeParameters (parameters : List String) :
    (takeParameters parameters).Fits parameters.length 0 := by
  induction parameters with
  | nil => exact .done 0
  | cons parameter rest ih => exact .instruction rfl rfl ih

theorem branches_takeParameters (parameters : List String) :
    (takeParameters parameters).branches = [] := by
  induction parameters with
  | nil => rfl
  | cons parameter rest ih => exact ih

namespace Structured

def functionPiece (site : Site) (parameters : List String) (body : Labelled) : Piece :=
  ⟨site.label, takeParameters parameters.reverse ++ body, .returnValue⟩

/-- The pieces of the functions of labelled code, inner functions first. -/
def functionPieces : Labelled → List Piece
  | done => []
  | instruction _ rest => rest.functionPieces
  | function site parameters body rest =>
      body.functionPieces ++ functionPiece site parameters body :: rest.functionPieces
  | branch _ onTrue onFalse rest =>
      onTrue.functionPieces ++ onFalse.functionPieces ++ rest.functionPieces

def mainPiece (labelled : Labelled) : Piece :=
  ⟨mainLabel, labelled, .halt⟩

theorem entries_functionPiece (site : Site) (parameters : List String) (body : Labelled) :
    (functionPiece site parameters body).entries =
      Block.entries ⟨site, parameters, body.code⟩ := by
  simp [Piece.entries, functionPiece, Block.entries_eq, bindings, code_takeParameters]

theorem flatMap_functionPieces (labelled : Labelled) :
    labelled.functionPieces.flatMap Piece.entries = labelled.blockEntries := by
  induction labelled with
  | done => rfl
  | instruction content rest ih => exact ih
  | function site parameters body rest bodyIH restIH =>
      rw [functionPieces, List.flatMap_append, List.flatMap_cons, bodyIH, restIH,
        entries_functionPiece, blockEntries_function]
  | branch number onTrue onFalse rest trueIH falseIH restIH =>
      rw [functionPieces, List.flatMap_append, List.flatMap_append, trueIH, falseIH, restIH,
        blockEntries_branch, List.append_assoc]

/-- The code of a script is that of its pieces. -/
theorem assemble_eq_pieces (labelled : Labelled) :
    assemble labelled.fragment =
      labelled.functionPieces.flatMap Piece.entries ++ labelled.mainPiece.entries := by
  rw [assemble_fragment, flatMap_functionPieces]
  rfl

theorem labels_functionPieces (labelled : Labelled) :
    labelled.functionPieces.map Piece.label =
      (labelled.functions false).map fun entry => entry.1.label := by
  induction labelled with
  | done => rfl
  | instruction content rest ih => exact ih
  | function site parameters body rest bodyIH restIH =>
      simp [functionPieces, functions, withInner, bodyIH, restIH, functionPiece]
  | branch number onTrue onFalse rest trueIH falseIH restIH =>
      simp [functionPieces, functions, trueIH, falseIH, restIH]

/-- Each function has a piece, which starts with its arguments on the stack. -/
theorem Fits.functionPieces {labelled : Labelled} {depth after : Nat}
    (fits : labelled.Fits depth after) :
    List.Forall₂ Piece.Fits labelled.functionPieces
      ((labelled.functions false).map fun entry => (entry.1.label, entry.2.length)) := by
  induction fits with
  | done depth => exact .nil
  | instruction _ _ _ ih => exact ih
  | @function site parameters body rest _ _ bodyFits _ bodyIH restIH =>
      have parametersFit := fits_takeParameters parameters.reverse
      rw [List.length_reverse] at parametersFit
      have pieceFits : (functionPiece site parameters body).Fits
          (site.label, parameters.length) :=
        ⟨rfl, 1, rfl, parametersFit.append bodyFits⟩
      rw [Structured.functionPieces, functions, withInner, if_neg Bool.false_ne_true,
        List.append_assoc, List.singleton_append, List.map_append, List.map_cons]
      exact List.rel_append bodyIH (.cons pieceFits restIH)
  | branch _ _ _ trueIH falseIH restIH =>
      rw [Structured.functionPieces, functions, List.map_append, List.map_append]
      exact List.rel_append (List.rel_append trueIH falseIH) restIH

/-- The pieces of a script, with the labels and depths that they start at. -/
theorem Fits.pieces {labelled : Labelled} (fits : labelled.Fits 0 0) :
    List.Forall₂ Piece.Fits (labelled.functionPieces ++ [labelled.mainPiece])
      ((labelled.functions false).map (fun entry => (entry.1.label, entry.2.length)) ++
        [(mainLabel, 0)]) :=
  List.rel_append fits.functionPieces (.cons ⟨rfl, 0, rfl, fits⟩ .nil)

/-- Pieces have the conditionals of the code that they belong to. -/
theorem branches_functionPieces {labelled : Labelled} {piece : Piece}
    (member : piece ∈ labelled.functionPieces) : piece.code.branches ⊆ labelled.branches := by
  induction labelled with
  | done => cases member
  | instruction content rest ih => exact ih member
  | function site parameters body rest bodyIH restIH =>
      intro number inPiece
      rw [branches, List.mem_append]
      rcases List.mem_append.mp member with inBody | rest
      · exact .inl (bodyIH inBody inPiece)
      · rcases List.mem_cons.mp rest with rfl | inRest
        · rw [functionPiece, branches_append, branches_takeParameters] at inPiece
          exact .inl inPiece
        · exact .inr (restIH inRest inPiece)
  | branch number onTrue onFalse rest trueIH falseIH restIH =>
      intro other inPiece
      rw [branches, List.mem_cons, List.mem_append, List.mem_append]
      rcases List.mem_append.mp member with inBoth | inRest
      · rcases List.mem_append.mp inBoth with inTrue | inFalse
        · exact .inr (.inl (.inl (trueIH inTrue inPiece)))
        · exact .inr (.inl (.inr (falseIH inFalse inPiece)))
      · exact .inr (.inr (restIH inRest inPiece))

end Structured

/-! ## Depths of pieces -/

/-- Depths for the points of pieces that are right wherever the pieces stand. -/
structure MeasuresPieces (pieces : List Piece) (starts : List (String × Nat))
    (depths : List Nat) : Prop where
  length_eq : depths.length = size (pieces.flatMap Piece.entries)
  sound : ∀ {entries front back : List Entry} {depth : Nat → Nat},
    entries = front ++ (pieces.flatMap Piece.entries ++ back) →
      (∀ piece ∈ pieces, Once entries piece.code.branches) →
        Agrees depth (size front) depths →
          (Piece.places (size front) pieces).map (fun place => (place.1, depth place.2)) =
              starts ∧
            SoundBetween entries depth (size front)
              (size front + size (pieces.flatMap Piece.entries))

theorem measuresPieces_nil : MeasuresPieces [] [] [] where
  length_eq := rfl
  sound := by
    intro entries front back depth _ _ _
    exact ⟨rfl, soundBetween_self _⟩

theorem size_piece (piece : Piece) : size piece.entries = size piece.code.code + 1 := by
  simp [Piece.entries]

theorem measuresPieces_cons {piece : Piece} {rest : List Piece} {before after : Nat}
    {starts : List (String × Nat)} {inner later : List Nat}
    (isLast : piece.last.lastDepth? = some after)
    (measures : Measures piece.code before after inner)
    (restMeasures : MeasuresPieces rest starts later) :
    MeasuresPieces (piece :: rest) ((piece.label, before) :: starts)
      (inner ++ after :: later) where
  length_eq := by
    rw [List.length_append, List.length_cons, measures.length_eq, restMeasures.length_eq,
      List.flatMap_cons, size_append, size_piece]
    omega
  sound := by
    intro entries front back depth layout once agrees
    have onceBoth := List.forall_mem_cons.mp once
    rcases agrees_append.mp agrees with ⟨codeAgrees, atLast, restAgrees⟩
    rw [measures.length_eq] at atLast restAgrees
    have codeLayout : entries = front ++ [.label piece.label] ++
        (piece.code.code ++ ([Entry.of piece.last .nothing] ++
          (rest.flatMap Piece.entries ++ back))) := by
      simpa [Piece.entries] using layout
    have lastLayout : entries = front ++ [.label piece.label] ++ piece.code.code ++
        Entry.of piece.last .nothing :: (rest.flatMap Piece.entries ++ back) := by
      simpa [Piece.entries] using layout
    have restLayout : entries = front ++ piece.entries ++
        (rest.flatMap Piece.entries ++ back) := by
      simpa using layout
    have stands := standsAt_code onceBoth.1 codeLayout
    have lastAt := fetch_of_eq _ lastLayout
    rw [size_append, size_label, size_nil, Nat.add_zero] at stands
    rw [size_append, size_append, size_label, size_nil, Nat.add_zero] at lastAt
    have lastInside := (List.getElem?_eq_some_iff.mp lastAt).1
    rcases measures.sound stands lastInside codeAgrees atLast with ⟨atStart, codeSound⟩
    have lastSound := soundAt_last lastAt isLast atLast
    have restStart : size (front ++ piece.entries) = size front + size piece.code.code + 1 := by
      rw [size_append, size_piece, Nat.add_assoc]
    rw [← restStart] at restAgrees
    rcases restMeasures.sound restLayout onceBoth.2 restAgrees with ⟨restStarts, restSound⟩
    constructor
    · rw [Piece.places, List.map_cons, atStart, ← size_append, restStarts]
    · rw [restStart] at restSound
      have total : size front + size ((piece :: rest).flatMap Piece.entries) =
          size front + size piece.code.code + 1 + size (rest.flatMap Piece.entries) := by
        rw [List.flatMap_cons, size_append, size_piece]
        omega
      rw [total]
      exact (codeSound.trans lastSound.between).trans restSound

/-- Pieces that fit have depths for their points. -/
theorem exists_depths_pieces {pieces : List Piece} {starts : List (String × Nat)}
    (fits : List.Forall₂ Piece.Fits pieces starts) :
    ∃ depths, MeasuresPieces pieces starts depths := by
  induction fits with
  | nil => exact ⟨[], measuresPieces_nil⟩
  | @cons piece start _ _ first _ ih =>
      rcases start with ⟨label, before⟩
      rcases first with ⟨rfl, after, isLast, codeFits⟩
      rcases exists_depths codeFits with ⟨inner, measures⟩
      rcases ih with ⟨later, restMeasures⟩
      exact ⟨_, measuresPieces_cons isLast measures restMeasures⟩

end StackScript.Code
