import StackScript.Document.Table

/-!
# Where labels lead

The table of stack code is filled from the front, and a label that occurs again
replaces what was entered before.  `place?` says the same without a table: a label
leads to the instruction after its last occurrence (`get?_ofCode`).
-/

namespace StackScript.Code

/-- Whether the argument of an instruction is a label. -/
def Opcode.takesLabel : Opcode → Bool
  | close | jump | jumpIfFalse => true
  | _ => false

def Entry.label? : Entry → Option String
  | label name => some name
  | instruction _ => none

/-- The labels of stack code in order. -/
def labelsOf (entries : List Entry) : List String :=
  entries.filterMap Entry.label?

def instructionsOf (entries : List Entry) : List Instruction :=
  entries.filterMap Entry.instruction?

@[simp] theorem labelsOf_nil : labelsOf [] = [] := rfl

@[simp] theorem labelsOf_label (name : String) (rest : List Entry) :
    labelsOf (.label name :: rest) = name :: labelsOf rest := rfl

@[simp] theorem labelsOf_instruction (content : Instruction) (rest : List Entry) :
    labelsOf (.instruction content :: rest) = labelsOf rest := rfl

@[simp] theorem labelsOf_of (opcode : Opcode) (argument : Argument) (rest : List Entry) :
    labelsOf (Entry.of opcode argument :: rest) = labelsOf rest := rfl

@[simp] theorem labelsOf_append (first second : List Entry) :
    labelsOf (first ++ second) = labelsOf first ++ labelsOf second :=
  List.filterMap_append

@[simp] theorem instructionsOf_nil : instructionsOf [] = [] := rfl

@[simp] theorem instructionsOf_label (name : String) (rest : List Entry) :
    instructionsOf (.label name :: rest) = instructionsOf rest := rfl

@[simp] theorem instructionsOf_instruction (content : Instruction) (rest : List Entry) :
    instructionsOf (.instruction content :: rest) = content :: instructionsOf rest := rfl

@[simp] theorem instructionsOf_of (opcode : Opcode) (argument : Argument) (rest : List Entry) :
    instructionsOf (Entry.of opcode argument :: rest) =
      ⟨opcode, argument⟩ :: instructionsOf rest := rfl

@[simp] theorem instructionsOf_append (first second : List Entry) :
    instructionsOf (first ++ second) = instructionsOf first ++ instructionsOf second :=
  List.filterMap_append

/-- The number of the instruction after the last occurrence of a label. -/
def place? (name : String) : List Entry → Option Nat
  | [] => none
  | .label other :: rest => (place? name rest).or (if other = name then some 0 else none)
  | .instruction _ :: rest => (place? name rest).map (· + 1)

/-- In a sequence of code the later occurrence of a label counts. -/
theorem place?_append (name : String) (first second : List Entry) :
    place? name (first ++ second) =
      ((place? name second).map (· + (instructionsOf first).length)).or (place? name first) := by
  induction first with
  | nil => simp [place?]
  | cons entry rest ih =>
      cases entry with
      | label other =>
          simp only [List.cons_append, place?, ih, instructionsOf_label, Option.or_assoc]
      | instruction content =>
          simp only [List.cons_append, place?, ih, instructionsOf_instruction,
            List.length_cons, Option.map_or, Option.map_map]
          rfl

/-- A label leads nowhere if it does not occur. -/
theorem place?_eq_none_iff {name : String} {entries : List Entry} :
    place? name entries = none ↔ name ∉ labelsOf entries := by
  induction entries with
  | nil => simp [place?]
  | cons entry rest ih =>
      cases entry with
      | label other =>
          by_cases same : other = name
          · simp [place?, same]
          · have differs : name ≠ other := fun equal => same equal.symm
            simp [place?, same, differs, ih]
      | instruction content => simp [place?, ih]

/-- A label that does not occur again leads to the instruction that follows it. -/
theorem place?_of_last {name : String} (before : List Entry) {after : List Entry}
    (last : name ∉ labelsOf after) :
    place? name (before ++ .label name :: after) = some (instructionsOf before).length := by
  rw [place?_append, place?, place?_eq_none_iff.mpr last]
  simp

end StackScript.Code

namespace StackScript.Document

open StackScript.Code (Entry place? instructionsOf)

theorem get?_enterLabels (name : String) (entries : List Entry) (number : Nat)
    (labels : Ledger String Nat) :
    (enterLabels number labels entries).get? name =
      ((place? name entries).map (· + number)).or (labels.get? name) := by
  induction entries generalizing number labels with
  | nil => simp [enterLabels, place?]
  | cons entry rest ih =>
      cases entry with
      | label other =>
          rw [enterLabels, ih, Ledger.get?_set, place?]
          by_cases same : other = name
          · simp only [same, if_true]
            cases place? name rest with
            | none => simp
            | some later => simp
          · simp [same]
      | instruction content =>
          rw [enterLabels, ih, place?, Option.map_map]
          congr 2
          funext later
          simp only [Function.comp_apply]
          omega

/-- The table of stack code leads every label to its place. -/
theorem get?_ofCode (name : String) (entries : List Entry) :
    (Table.ofCode entries).labels.get? name = place? name entries := by
  rw [Table.ofCode, get?_enterLabels]
  cases place? name entries with
  | none => rfl
  | some number => rfl

theorem instructions_ofCode (entries : List Entry) :
    (Table.ofCode entries).instructions = instructionsOf entries := rfl

end StackScript.Document
