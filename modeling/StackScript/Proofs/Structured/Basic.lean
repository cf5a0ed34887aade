import StackScript.Code.OfLinear

/-!
# Structured code

Stack code is flat: the block of a function stands away from the instruction that
closes over it, and a conditional is spread over jumps and labels.  Structured code
is the same code before it is laid out.  A function still holds its body and a
conditional its branches, so that facts about stack code can be proved by induction
on the nesting of a script.

The marks of structured code are what tells its functions and conditionals apart.
In *labelled* code they are labels and numbers, and `Labelled.code` and
`Labelled.blocks` lay it out.  In an *outline* only the names from the script are
left.
-/

namespace StackScript.Code

/-- An outer item in front of what is inside it, or behind. -/
def withInner {α : Type} (outerFirst : Bool) (outer : α) (inner : List α) : List α :=
  if outerFirst then outer :: inner else inner ++ [outer]

theorem withInner_perm {α : Type} (outer : α) (inner : List α) :
    (withInner false outer inner).Perm (withInner true outer inner) := by
  simp only [withInner, Bool.false_eq_true, if_false, if_true]
  exact List.perm_append_singleton outer inner

/-- Whether an instruction goes on to the next one.  All others belong to the layout of
functions, conditionals and scripts. -/
def Opcode.isStraight : Opcode → Bool
  | close | jump | jumpIfFalse | returnValue | halt | other _ => false
  | _ => true

/-- Structured code, with marks of type `φ` on functions and marks of type `β` on
conditionals.  A function stands for the instruction that closes over it.  A
conditional takes the value on top of the stack as its condition. -/
inductive Structured (φ β : Type) where
  | done
  | instruction (content : Instruction) (rest : Structured φ β)
  | function (mark : φ) (parameters : List String) (body rest : Structured φ β)
  | branch (mark : β) (onTrue onFalse rest : Structured φ β)
  deriving DecidableEq, Repr

namespace Structured

variable {φ β : Type}

def append : Structured φ β → Structured φ β → Structured φ β
  | done, next => next
  | instruction content rest, next => instruction content (rest.append next)
  | function mark parameters body rest, next =>
      function mark parameters body (rest.append next)
  | branch mark onTrue onFalse rest, next =>
      branch mark onTrue onFalse (rest.append next)

instance : Append (Structured φ β) :=
  ⟨append⟩

@[simp] theorem done_append (next : Structured φ β) : done ++ next = next := rfl

@[simp] theorem instruction_append (content : Instruction) (rest next : Structured φ β) :
    instruction content rest ++ next = instruction content (rest ++ next) := rfl

@[simp] theorem function_append (mark : φ) (parameters : List String)
    (body rest next : Structured φ β) :
    function mark parameters body rest ++ next =
      function mark parameters body (rest ++ next) := rfl

@[simp] theorem branch_append (mark : β) (onTrue onFalse rest next : Structured φ β) :
    branch mark onTrue onFalse rest ++ next =
      branch mark onTrue onFalse (rest ++ next) := rfl

@[simp] theorem append_done (code : Structured φ β) : code ++ done = code := by
  induction code with
  | done => rfl
  | instruction content rest ih => simp [ih]
  | function mark parameters body rest _ ih => simp [ih]
  | branch mark onTrue onFalse rest _ _ ih => simp [ih]

theorem append_assoc (first second third : Structured φ β) :
    first ++ second ++ third = first ++ (second ++ third) := by
  induction first with
  | done => rfl
  | instruction content rest ih => simp [ih]
  | function mark parameters body rest _ ih => simp [ih]
  | branch mark onTrue onFalse rest _ _ ih => simp [ih]

def single (opcode : Opcode) (argument : Argument) : Structured φ β :=
  instruction ⟨opcode, argument⟩ done

/-- Code without the `drop` at its end, if there is one: the value that it drops is
kept instead. -/
def keepValue : Structured φ β → Option (Structured φ β)
  | done => none
  | instruction content done => if content.opcode = .drop then some done else none
  | instruction content rest => rest.keepValue.map (instruction content)
  | function mark parameters body rest =>
      rest.keepValue.map (function mark parameters body)
  | branch mark onTrue onFalse rest => rest.keepValue.map (branch mark onTrue onFalse)

theorem keepValue_instruction (content : Instruction) {rest : Structured φ β}
    (more : rest ≠ done) :
    (instruction content rest).keepValue = rest.keepValue.map (instruction content) := by
  cases rest with
  | done => exact absurd rfl more
  | instruction _ _ => rfl
  | function _ _ _ _ => rfl
  | branch _ _ _ _ => rfl

theorem append_eq_done_iff (first second : Structured φ β) :
    first ++ second = done ↔ first = done ∧ second = done := by
  cases first <;> simp

theorem append_single_ne_done (code : Structured φ β) (opcode : Opcode)
    (argument : Argument) : code ++ single opcode argument ≠ done := by
  simp [append_eq_done_iff, single]

/-- Exactly the code that ends in a `drop` has a value to keep. -/
theorem keepValue_eq_some_iff (code kept : Structured φ β) :
    code.keepValue = some kept ↔ ∃ argument, code = kept ++ single .drop argument := by
  constructor
  · intro found
    induction code generalizing kept with
    | done => simp [keepValue] at found
    | instruction content rest ih =>
        by_cases last : rest = done
        · subst last
          by_cases drops : content.opcode = .drop
          · simp only [keepValue, drops, if_true, Option.some.injEq] at found
            subst found
            exact ⟨content.argument, by simp [single, ← drops]⟩
          · simp [keepValue, drops] at found
        · rw [keepValue_instruction content last] at found
          obtain ⟨inner, innerFound, rfl⟩ := Option.map_eq_some_iff.mp found
          obtain ⟨argument, rfl⟩ := ih inner innerFound
          exact ⟨argument, rfl⟩
    | function mark parameters body rest _ ih =>
        obtain ⟨inner, innerFound, rfl⟩ := Option.map_eq_some_iff.mp found
        obtain ⟨argument, rfl⟩ := ih inner innerFound
        exact ⟨argument, rfl⟩
    | branch mark onTrue onFalse rest _ _ ih =>
        obtain ⟨inner, innerFound, rfl⟩ := Option.map_eq_some_iff.mp found
        obtain ⟨argument, rfl⟩ := ih inner innerFound
        exact ⟨argument, rfl⟩
  · rintro ⟨argument, rfl⟩
    induction kept with
    | done => simp [single, keepValue]
    | instruction content rest ih =>
        rw [instruction_append, keepValue_instruction content (append_single_ne_done rest _ _), ih]
        rfl
    | function mark parameters body rest _ ih => simp [keepValue, ih]
    | branch mark onTrue onFalse rest _ _ ih => simp [keepValue, ih]

/-- Whether code has a value to keep depends on its end. -/
theorem keepValue_append (first : Structured φ β) {second : Structured φ β}
    (more : second ≠ done) :
    (first ++ second).keepValue = second.keepValue.map (first ++ ·) := by
  induction first with
  | done => simp
  | instruction content rest ih =>
      have restMore : rest ++ second ≠ done := by simp [append_eq_done_iff, more]
      rw [instruction_append, keepValue_instruction content restMore, ih, Option.map_map]
      rfl
  | function mark parameters body rest _ ih =>
      rw [function_append, keepValue, ih, Option.map_map]
      rfl
  | branch mark onTrue onFalse rest _ _ ih =>
      rw [branch_append, keepValue, ih, Option.map_map]
      rfl

/-- The functions of structured code with their parameters.  A function comes before
the functions inside it if `outerFirst` holds, and after them otherwise. -/
def functions (outerFirst : Bool) : Structured φ β → List (φ × List String)
  | done => []
  | instruction _ rest => rest.functions outerFirst
  | function mark parameters body rest =>
      withInner outerFirst (mark, parameters) (body.functions outerFirst) ++
        rest.functions outerFirst
  | branch _ onTrue onFalse rest =>
      onTrue.functions outerFirst ++ onFalse.functions outerFirst ++
        rest.functions outerFirst

@[simp] theorem functions_append (outerFirst : Bool) (first second : Structured φ β) :
    (first ++ second).functions outerFirst =
      first.functions outerFirst ++ second.functions outerFirst := by
  induction first with
  | done => rfl
  | instruction content rest ih => simpa [functions] using ih
  | function mark parameters body rest _ ih => simp [functions, ih]
  | branch mark onTrue onFalse rest _ _ ih => simp [functions, ih]

/-- The two orders list the same functions. -/
theorem functions_perm (code : Structured φ β) :
    (code.functions false).Perm (code.functions true) := by
  induction code with
  | done => exact .refl _
  | instruction content rest ih => exact ih
  | function mark parameters body rest bodyIH restIH =>
      refine List.Perm.append ?_ restIH
      refine (withInner_perm _ _).trans ?_
      exact bodyIH.cons _
  | branch mark onTrue onFalse rest trueIH falseIH restIH =>
      exact (trueIH.append falseIH).append restIH

/-- The marks of the conditionals of structured code. -/
def branches : Structured φ β → List β
  | done => []
  | instruction _ rest => rest.branches
  | function _ _ body rest => body.branches ++ rest.branches
  | branch mark onTrue onFalse rest =>
      mark :: (onTrue.branches ++ onFalse.branches ++ rest.branches)

@[simp] theorem branches_append (first second : Structured φ β) :
    (first ++ second).branches = first.branches ++ second.branches := by
  induction first with
  | done => rfl
  | instruction content rest ih => simpa [branches] using ih
  | function mark parameters body rest _ ih => simp [branches, ih]
  | branch mark onTrue onFalse rest _ _ ih => simp [branches, ih]

/-- The instructions of structured code, those of functions and conditionals apart. -/
def instructions : Structured φ β → List Instruction
  | done => []
  | instruction content rest => content :: rest.instructions
  | function _ _ body rest => body.instructions ++ rest.instructions
  | branch _ onTrue onFalse rest =>
      onTrue.instructions ++ onFalse.instructions ++ rest.instructions

@[simp] theorem instructions_append (first second : Structured φ β) :
    (first ++ second).instructions = first.instructions ++ second.instructions := by
  induction first with
  | done => rfl
  | instruction content rest ih => simp [instructions, ih]
  | function mark parameters body rest _ ih => simp [instructions, ih]
  | branch mark onTrue onFalse rest _ _ ih => simp [instructions, ih]

@[simp] theorem instructions_single (opcode : Opcode) (argument : Argument) :
    (single opcode argument : Structured φ β).instructions = [⟨opcode, argument⟩] := rfl

/-- All instructions of structured code go on to the next one. -/
def IsStraight (code : Structured φ β) : Prop :=
  ∀ content ∈ code.instructions, content.opcode.isStraight = true

theorem isStraight_done : (done : Structured φ β).IsStraight := by
  intro content member
  cases member

theorem isStraight_append {first second : Structured φ β} :
    (first ++ second).IsStraight ↔ first.IsStraight ∧ second.IsStraight := by
  simp only [IsStraight, instructions_append, List.forall_mem_append]

theorem isStraight_single {opcode : Opcode} {argument : Argument}
    (straight : opcode.isStraight = true) :
    (single opcode argument : Structured φ β).IsStraight := by
  simpa [IsStraight] using straight

theorem isStraight_function {mark : φ} {parameters : List String} {body rest : Structured φ β}
    (bodyStraight : body.IsStraight) (restStraight : rest.IsStraight) :
    (function mark parameters body rest).IsStraight :=
  List.forall_mem_append.mpr ⟨bodyStraight, restStraight⟩

theorem isStraight_branch {mark : β} {onTrue onFalse : Structured φ β}
    (trueStraight : onTrue.IsStraight) (falseStraight : onFalse.IsStraight) :
    (branch mark onTrue onFalse done).IsStraight := by
  simp only [IsStraight, instructions, List.append_nil, List.forall_mem_append]
  exact ⟨trueStraight, falseStraight⟩

def mapMarks {φ' β' : Type} (onFunction : φ → φ') (onBranch : β → β') :
    Structured φ β → Structured φ' β'
  | done => done
  | instruction content rest => instruction content (rest.mapMarks onFunction onBranch)
  | function mark parameters body rest =>
      function (onFunction mark) parameters (body.mapMarks onFunction onBranch)
        (rest.mapMarks onFunction onBranch)
  | branch mark onTrue onFalse rest =>
      branch (onBranch mark) (onTrue.mapMarks onFunction onBranch)
        (onFalse.mapMarks onFunction onBranch) (rest.mapMarks onFunction onBranch)

section MapMarks

variable {φ' β' : Type} (onFunction : φ → φ') (onBranch : β → β')

@[simp] theorem mapMarks_append (first second : Structured φ β) :
    (first ++ second).mapMarks onFunction onBranch =
      first.mapMarks onFunction onBranch ++ second.mapMarks onFunction onBranch := by
  induction first with
  | done => rfl
  | instruction content rest ih => simp [mapMarks, ih]
  | function mark parameters body rest _ ih => simp [mapMarks, ih]
  | branch mark onTrue onFalse rest _ _ ih => simp [mapMarks, ih]

theorem functions_mapMarks (outerFirst : Bool) (code : Structured φ β) :
    (code.mapMarks onFunction onBranch).functions outerFirst =
      (code.functions outerFirst).map fun entry => (onFunction entry.1, entry.2) := by
  induction code with
  | done => rfl
  | instruction content rest ih => simpa [mapMarks, functions] using ih
  | function mark parameters body rest bodyIH restIH =>
      cases outerFirst <;> simp [mapMarks, functions, withInner, bodyIH, restIH]
  | branch mark onTrue onFalse rest trueIH falseIH restIH =>
      simp [mapMarks, functions, trueIH, falseIH, restIH]

theorem instructions_mapMarks (code : Structured φ β) :
    (code.mapMarks onFunction onBranch).instructions = code.instructions := by
  induction code with
  | done => rfl
  | instruction content rest ih => simp [mapMarks, instructions, ih]
  | function mark parameters body rest bodyIH restIH =>
      simp [mapMarks, instructions, bodyIH, restIH]
  | branch mark onTrue onFalse rest trueIH falseIH restIH =>
      simp [mapMarks, instructions, trueIH, falseIH, restIH]

end MapMarks

end Structured

/-! ## Labelled code and its layout -/

/-- A function of a script: its name there, and the label of its block. -/
structure Site where
  name? : Option String
  label : String
  deriving DecidableEq, Repr

/-- Structured code whose functions have labels and whose conditionals have
numbers. -/
abbrev Labelled : Type :=
  Structured Site Int

/-- Structured code of which only the names of functions are known. -/
abbrev Outline : Type :=
  Structured (Option String) Unit

/-- The block of a function: the code of its body under its label. -/
structure Block where
  site : Site
  parameters : List String
  body : List Entry
  deriving DecidableEq, Repr

def Block.entries (block : Block) : List Entry :=
  functionBlock block.site.label block.parameters block.body

/-- The code of a conditional is that of its condition and then its branches. -/
theorem branching_eq (number : Int) (condition onTrue onFalse : List Entry) :
    branching number condition onTrue onFalse =
      condition ++ branching number [] onTrue onFalse := by
  simp [branching]

theorem getLast?_branching (number : Int) (condition onTrue onFalse : List Entry) :
    (branching number condition onTrue onFalse).getLast? =
      some (.label (endLabel number)) := by
  simp only [branching, List.getLast?_append, List.getLast?_singleton, Option.some_or]

namespace Structured

/-- The code of labelled code, without the blocks of its functions. -/
def code : Labelled → List Entry
  | done => []
  | instruction content rest => .instruction content :: rest.code
  | function site _ _ rest => Entry.of .close (.text site.label) :: rest.code
  | branch number onTrue onFalse rest =>
      branching number [] onTrue.code onFalse.code ++ rest.code

/-- The blocks of the functions of labelled code.  The blocks of inner functions
come first. -/
def blocks : Labelled → List Block
  | done => []
  | instruction _ rest => rest.blocks
  | function site parameters body rest =>
      body.blocks ++ ⟨site, parameters, body.code⟩ :: rest.blocks
  | branch _ onTrue onFalse rest => onTrue.blocks ++ onFalse.blocks ++ rest.blocks

/-- The fragment that labelled code is laid out as. -/
def fragment (labelled : Labelled) : Fragment :=
  { blocks := labelled.blocks.flatMap Block.entries, code := labelled.code }

/-- Labelled code without its labels and numbers. -/
def outline (labelled : Labelled) : Outline :=
  labelled.mapMarks Site.name? fun _ => ()

@[simp] theorem code_append (first second : Labelled) :
    (first ++ second).code = first.code ++ second.code := by
  induction first with
  | done => rfl
  | instruction content rest ih => simp [code, ih]
  | function site parameters body rest _ ih => simp [code, ih]
  | branch number onTrue onFalse rest _ _ ih => simp [code, ih]

@[simp] theorem blocks_append (first second : Labelled) :
    (first ++ second).blocks = first.blocks ++ second.blocks := by
  induction first with
  | done => rfl
  | instruction content rest ih => simpa [blocks] using ih
  | function site parameters body rest _ ih => simp [blocks, ih]
  | branch number onTrue onFalse rest _ _ ih => simp [blocks, ih]

@[simp] theorem code_single (opcode : Opcode) (argument : Argument) :
    (single opcode argument : Labelled).code = [Entry.of opcode argument] := rfl

@[simp] theorem blocks_single (opcode : Opcode) (argument : Argument) :
    (single opcode argument : Labelled).blocks = [] := rfl

/-- The layout of code in sequence is the sequence of the layouts. -/
theorem fragment_append (first second : Labelled) :
    (first ++ second).fragment = first.fragment.append second.fragment := by
  simp [fragment, Fragment.append]

@[simp] theorem outline_append (first second : Labelled) :
    (first ++ second).outline = first.outline ++ second.outline :=
  mapMarks_append _ _ first second

@[simp] theorem outline_single (opcode : Opcode) (argument : Argument) :
    (single opcode argument : Labelled).outline = single opcode argument := rfl

/-- There is one block for each function, with its parameters. -/
theorem map_blocks (labelled : Labelled) :
    labelled.blocks.map (fun block => (block.site, block.parameters)) =
      labelled.functions false := by
  induction labelled with
  | done => rfl
  | instruction content rest ih => exact ih
  | function site parameters body rest bodyIH restIH =>
      simp [blocks, functions, withInner, bodyIH, restIH]
  | branch number onTrue onFalse rest trueIH falseIH restIH =>
      simp [blocks, functions, trueIH, falseIH, restIH]

/-- Only empty structured code is laid out as no code. -/
theorem code_eq_nil_iff (labelled : Labelled) : labelled.code = [] ↔ labelled = done := by
  cases labelled <;> simp [code, branching]

/-- Code whose layout ends in a `drop` ends in a `drop`. -/
theorem eq_append_drop_of_getLast? {labelled : Labelled} {last : Instruction}
    (ends : labelled.code.getLast? = some (.instruction last))
    (drops : last.opcode = .drop) :
    ∃ kept, labelled = kept ++ single .drop last.argument := by
  induction labelled with
  | done => simp [code] at ends
  | instruction content rest ih =>
      by_cases empty : rest = done
      · subst empty
        simp only [code, List.getLast?_singleton, Option.some.injEq,
          Entry.instruction.injEq] at ends
        subst ends
        exact ⟨done, by simp [single, ← drops]⟩
      · have more : rest.code ≠ [] := fun none => empty ((code_eq_nil_iff rest).mp none)
        rw [code, List.getLast?_cons_of_ne_nil more] at ends
        obtain ⟨kept, rfl⟩ := ih ends
        exact ⟨instruction content kept, rfl⟩
  | function site parameters body rest _ ih =>
      by_cases empty : rest = done
      · subst empty
        simp only [code, Entry.of, List.getLast?_singleton, Option.some.injEq,
          Entry.instruction.injEq] at ends
        simp [← ends] at drops
      · have more : rest.code ≠ [] := fun none => empty ((code_eq_nil_iff rest).mp none)
        rw [code, List.getLast?_cons_of_ne_nil more] at ends
        obtain ⟨kept, rfl⟩ := ih ends
        exact ⟨function site parameters body kept, rfl⟩
  | branch number onTrue onFalse rest _ _ ih =>
      by_cases empty : rest = done
      · subst empty
        simp [code, getLast?_branching] at ends
      · have more : rest.code ≠ [] := fun none => empty ((code_eq_nil_iff rest).mp none)
        rw [code, List.getLast?_append, List.getLast?_eq_some_getLast more,
          Option.some_or, ← List.getLast?_eq_some_getLast more] at ends
        obtain ⟨kept, rfl⟩ := ih ends
        exact ⟨branch number onTrue onFalse kept, rfl⟩

/-- The value that a body yields is kept in structured code as in its layout. -/
theorem exists_of_yielding {labelled : Labelled} {entries : List Entry}
    (yields : yielding labelled.code = .ok entries) :
    ∃ kept argument, labelled = kept ++ single .drop argument ∧ kept.code = entries := by
  unfold yielding at yields
  split at yields
  · simp at yields
  · simp at yields
  · rename_i last ends
    split at yields
    · rename_i drops
      obtain ⟨kept, rfl⟩ := eq_append_drop_of_getLast? ends drops
      simp only [code_append, code_single, List.dropLast_concat, Except.ok.injEq] at yields
      exact ⟨kept, last.argument, rfl, yields⟩
    · simp at yields

end Structured

end StackScript.Code
