import StackScript.Proofs.Labels.Layout

/-!
# Where structured code stands

Once a script is laid out, its structured code stands between two points of the stack
code: the instructions are found one after another, and the labels of a conditional lead
to its branches and behind them (`standsAt_code`).
-/

namespace StackScript.Code

/-- A conditional stands in stack code.  Its first branch starts two points after `start`
and ends at `leaves`, its second branch starts after that and ends at `ends`. -/
structure BranchAt (entries : List Entry) (number : Int) (start leaves ends : Nat) : Prop where
  test : (instructionsOf entries)[start]? = some ⟨.jumpIfFalse, .text (elseLabel number)⟩
  enter : (instructionsOf entries)[start + 1]? = some ⟨.jump, .text (thenLabel number)⟩
  leave : (instructionsOf entries)[leaves]? = some ⟨.jump, .text (endLabel number)⟩
  thenPlace : place? (thenLabel number) entries = some (start + 2)
  elsePlace : place? (elseLabel number) entries = some (leaves + 1)
  endPlace : place? (endLabel number) entries = some ends

/-- Labelled code stands in stack code from one point to another. -/
def Structured.StandsAt (entries : List Entry) : Labelled → (start stop : Nat) → Prop
  | done, start, stop => start = stop
  | instruction content rest, start, stop =>
      (instructionsOf entries)[start]? = some content ∧ StandsAt entries rest (start + 1) stop
  | function site _ _ rest, start, stop =>
      (instructionsOf entries)[start]? = some ⟨.close, .text site.label⟩ ∧
        StandsAt entries rest (start + 1) stop
  | branch number onTrue onFalse rest, start, stop =>
      ∃ leaves ends, BranchAt entries number start leaves ends ∧
        StandsAt entries onTrue (start + 2) leaves ∧
        StandsAt entries onFalse (leaves + 1) ends ∧ StandsAt entries rest ends stop

def size (entries : List Entry) : Nat :=
  (instructionsOf entries).length

@[simp] theorem size_nil : size [] = 0 := rfl

@[simp] theorem size_append (first second : List Entry) :
    size (first ++ second) = size first + size second := by
  simp [size]

@[simp] theorem size_label (name : String) (rest : List Entry) :
    size (.label name :: rest) = size rest := rfl

@[simp] theorem size_instruction (content : Instruction) (rest : List Entry) :
    size (.instruction content :: rest) = size rest + 1 := rfl

@[simp] theorem size_of (opcode : Opcode) (argument : Argument) (rest : List Entry) :
    size (Entry.of opcode argument :: rest) = size rest + 1 := rfl

section Standing

variable {entries : List Entry}

theorem fetch_of_eq (before : List Entry) {after : List Entry} {content : Instruction}
    (layout : entries = before ++ .instruction content :: after) :
    (instructionsOf entries)[size before]? = some content := by
  rw [layout, instructionsOf_append, instructionsOf_instruction, size]
  simp

/-- A label that occurs once leads to the instruction that follows it. -/
theorem place?_of_eq (before : List Entry) {after : List Entry} {name : String}
    (once : (labelsOf entries).count name = 1)
    (layout : entries = before ++ .label name :: after) :
    place? name entries = some (size before) := by
  subst layout
  apply place?_of_last
  intro later
  have again := List.count_pos_iff.mpr later
  rw [labelsOf_append, labelsOf_label, List.count_append, List.count_cons_self] at once
  omega

/-- The labels of conditionals occur once in stack code. -/
def Once (entries : List Entry) (numbers : List Int) : Prop :=
  ∀ number ∈ numbers, ∀ label ∈ branchLabels number, (labelsOf entries).count label = 1

theorem once_append {first second : List Int} :
    Once entries (first ++ second) ↔ Once entries first ∧ Once entries second :=
  List.forall_mem_append

theorem once_cons {number : Int} {rest : List Int} :
    Once entries (number :: rest) ↔
      (∀ label ∈ branchLabels number, (labelsOf entries).count label = 1) ∧ Once entries rest :=
  List.forall_mem_cons

section Branching

variable (number : Int) (before onTrue onFalse after : List Entry)

def beforeTrue : List Entry :=
  before ++ [Entry.of .jumpIfFalse (.text (elseLabel number)),
    Entry.of .jump (.text (thenLabel number)), .label (thenLabel number)]

def beforeFalse : List Entry :=
  beforeTrue number before ++ onTrue ++
    [Entry.of .jump (.text (endLabel number)), .label (elseLabel number)]

def beforeRest : List Entry :=
  beforeFalse number before onTrue ++ onFalse ++ [.label (endLabel number)]

def afterFalse : List Entry :=
  .label (endLabel number) :: after

def afterTrue : List Entry :=
  Entry.of .jump (.text (endLabel number)) :: .label (elseLabel number) ::
    (onFalse ++ afterFalse number after)

theorem branching_at_true :
    before ++ (branching number [] onTrue onFalse ++ after) =
      beforeTrue number before ++ (onTrue ++ afterTrue number onFalse after) := by
  simp [branching, beforeTrue, afterTrue, afterFalse]

theorem branching_at_false :
    before ++ (branching number [] onTrue onFalse ++ after) =
      beforeFalse number before onTrue ++ (onFalse ++ afterFalse number after) := by
  simp [branching, beforeTrue, beforeFalse, afterFalse]

theorem branching_at_rest :
    before ++ (branching number [] onTrue onFalse ++ after) =
      beforeRest number before onTrue onFalse ++ after := by
  simp [branching, beforeTrue, beforeFalse, beforeRest]

@[simp] theorem size_beforeTrue : size (beforeTrue number before) = size before + 2 := by
  simp [beforeTrue]

@[simp] theorem size_beforeFalse :
    size (beforeFalse number before onTrue) = size before + 2 + size onTrue + 1 := by
  simp [beforeFalse, Nat.add_assoc]

@[simp] theorem size_beforeRest :
    size (beforeRest number before onTrue onFalse) =
      size before + 2 + size onTrue + 1 + size onFalse := by
  simp [beforeRest]

theorem size_branching :
    size (branching number [] onTrue onFalse) = 2 + size onTrue + 1 + size onFalse := by
  simp only [branching, size_append, size_of, size_label, size_nil]
  omega

end Branching

theorem branchAt_of_eq {number : Int} {before onTrue onFalse after : List Entry}
    (once : ∀ label ∈ branchLabels number, (labelsOf entries).count label = 1)
    (layout : entries = before ++ (branching number [] onTrue onFalse ++ after)) :
    BranchAt entries number (size before) (size before + 2 + size onTrue)
      (size before + 2 + size onTrue + 1 + size onFalse) := by
  have atTrue := layout.trans (branching_at_true number before onTrue onFalse after)
  have atFalse := layout.trans (branching_at_false number before onTrue onFalse after)
  have enterLayout : entries = before ++ [Entry.of .jumpIfFalse (.text (elseLabel number))] ++
      Entry.of .jump (.text (thenLabel number)) :: .label (thenLabel number) ::
        (onTrue ++ afterTrue number onFalse after) := by
    simpa [beforeTrue] using atTrue
  have thenLayout : entries = before ++ [Entry.of .jumpIfFalse (.text (elseLabel number)),
      Entry.of .jump (.text (thenLabel number))] ++ .label (thenLabel number) ::
        (onTrue ++ afterTrue number onFalse after) := by
    simpa [beforeTrue] using atTrue
  have leaveLayout : entries = beforeTrue number before ++ onTrue ++
      afterTrue number onFalse after := by
    simpa using atTrue
  have elseLayout : entries = beforeTrue number before ++ onTrue ++
      [Entry.of .jump (.text (endLabel number))] ++ .label (elseLabel number) ::
        (onFalse ++ afterFalse number after) := by
    simpa [beforeFalse] using atFalse
  have endLayout : entries = beforeFalse number before onTrue ++ onFalse ++
      afterFalse number after := by
    simpa using atFalse
  constructor
  · exact fetch_of_eq before layout
  · simpa using fetch_of_eq _ enterLayout
  · simpa using fetch_of_eq _ leaveLayout
  · simpa using place?_of_eq _ (once _ (by simp [branchLabels])) thenLayout
  · simpa [Nat.add_assoc] using place?_of_eq _ (once _ (by simp [branchLabels])) elseLayout
  · simpa using place?_of_eq _ (once _ (by simp [branchLabels])) endLayout

/-- Code that has been laid out stands between what is before and what is after it. -/
theorem standsAt_code {labelled : Labelled} {before after : List Entry}
    (once : Once entries labelled.branches)
    (layout : entries = before ++ (labelled.code ++ after)) :
    labelled.StandsAt entries (size before) (size before + size labelled.code) := by
  induction labelled generalizing before after with
  | done => rfl
  | instruction content rest ih =>
      have restLayout : entries = before ++ [.instruction content] ++ (rest.code ++ after) := by
        simpa [Structured.code] using layout
      have restStands := ih once restLayout
      rw [size_append, size_instruction, size_nil, Nat.add_assoc, Nat.add_comm 1] at restStands
      exact ⟨fetch_of_eq before layout, restStands⟩
  | function site parameters body rest _ ih =>
      have restLayout : entries =
          before ++ [Entry.of .close (.text site.label)] ++ (rest.code ++ after) := by
        simpa [Structured.code] using layout
      have restStands := ih (once_append.mp once).2 restLayout
      rw [size_append, size_of, size_nil, Nat.add_assoc, Nat.add_comm 1] at restStands
      exact ⟨fetch_of_eq before layout, restStands⟩
  | branch number onTrue onFalse rest trueIH falseIH restIH =>
      rcases once_cons.mp once with ⟨here, inside⟩
      rcases once_append.mp inside with ⟨inBoth, inRest⟩
      rcases once_append.mp inBoth with ⟨inTrue, inFalse⟩
      rw [Structured.code, List.append_assoc] at layout
      have trueStands := trueIH inTrue (layout.trans (branching_at_true ..))
      have falseStands := falseIH inFalse (layout.trans (branching_at_false ..))
      have restStands := restIH inRest (layout.trans (branching_at_rest ..))
      rw [size_beforeTrue] at trueStands
      rw [size_beforeFalse] at falseStands
      rw [size_beforeRest] at restStands
      have sizes : size before + size (Structured.code (.branch number onTrue onFalse rest)) =
          size before + 2 + size onTrue.code + 1 + size onFalse.code + size rest.code := by
        rw [Structured.code, size_append, size_branching]
        omega
      rw [sizes]
      exact ⟨_, _, branchAt_of_eq here layout, trueStands, falseStands, restStands⟩

/-- The code of a script starts at its label and ends in `halt`. -/
theorem Structured.Numbered.main_standsAt {labelled : Labelled} (numbered : labelled.Numbered) :
    ∃ start stop, place? mainLabel (assemble labelled.fragment) = some start ∧
      labelled.StandsAt (assemble labelled.fragment) start stop ∧
      (instructionsOf (assemble labelled.fragment))[stop]? = some ⟨.halt, .nothing⟩ := by
  have startLayout := assemble_fragment labelled
  have codeLayout : assemble labelled.fragment =
      labelled.blockEntries ++ [.label mainLabel] ++
        (labelled.code ++ [Entry.of .halt .nothing]) := by
    simpa using startLayout
  have haltLayout : assemble labelled.fragment =
      labelled.blockEntries ++ [.label mainLabel] ++ labelled.code ++
        [Entry.of .halt .nothing] := by
    simpa using startLayout
  have starts := place?_of_eq _ numbered.count_mainLabel startLayout
  have stands := standsAt_code
    (fun _ branch _ member => numbered.count_branchLabel branch member) codeLayout
  have halts := fetch_of_eq _ haltLayout
  rw [size_append, size_label, size_nil, Nat.add_zero] at stands
  rw [size_append, size_append, size_label, size_nil, Nat.add_zero] at halts
  exact ⟨_, _, starts, stands, halts⟩

end Standing

end StackScript.Code
