import StackScript.Code.Listing
import StackScript.Proofs.Labels.Text
import Mathlib.Data.List.Nodup

/-!
# Reading a listing back

A listing is made of lines.  Its lines can be told apart if there is no newline in them, a label
has an empty line before it, and the name of an instruction shows what its argument is.  So
listings of legible code are the same only if the code is (`listing_inj`).
-/

namespace StackScript.Code

/-- The characters of lines, with a newline before each of them. -/
def spellLines (lines : List (List Char)) : List Char :=
  lines.flatMap fun line => '\n' :: line

theorem head?_spellLines (lines : List (List Char)) :
    ∀ next ∈ (spellLines lines).head?, next = '\n' := by
  cases lines with
  | nil => simp [spellLines]
  | cons line rest => simp [spellLines, eq_comm]

/-- Lines without newlines in them can be told apart. -/
theorem spellLines_inj {lines lines' : List (List Char)} (plain : ∀ line ∈ lines, '\n' ∉ line)
    (plain' : ∀ line ∈ lines', '\n' ∉ line) (same : spellLines lines = spellLines lines') :
    lines = lines' := by
  induction lines generalizing lines' with
  | nil =>
      cases lines' with
      | nil => rfl
      | cons line rest => cases same
  | cons line rest ih =>
      cases lines' with
      | nil => cases same
      | cons line' rest' =>
          have both := List.forall_mem_cons.mp plain
          have both' := List.forall_mem_cons.mp plain'
          have split := append_inj_of_notMem both.1 both'.1 (head?_spellLines rest)
            (head?_spellLines rest') (List.cons.inj same).2
          rw [split.1, ih both.2 both'.2 split.2]

/-- The lines of an entry: a label has an empty one before it. -/
def Entry.lines : Entry → List (List Char)
  | .label name => [[], name.toList ++ [':']]
  | .instruction content => [content.listed.toList]

theorem spellLines_lines (entry : Entry) :
    spellLines entry.lines = '\n' :: entry.listed.toList := by
  cases entry with
  | label name => simp [spellLines, Entry.lines, Entry.listed]
  | instruction content => simp [spellLines, Entry.lines, Entry.listed]

/-- A listing that has not been trimmed, and a newline before it. -/
theorem spellLines_entries (first : Entry) (rest : List Entry) :
    spellLines ((first :: rest).flatMap Entry.lines) =
      '\n' :: (String.intercalate "\n" ((first :: rest).map Entry.listed)).toList := by
  induction rest generalizing first with
  | nil => simp [spellLines_lines]
  | cons second others ih =>
      rw [List.flatMap_cons, spellLines, List.flatMap_append, ← spellLines, ← spellLines,
        spellLines_lines, ih second]
      simp

/-- An instruction whose name shows what its argument is, which is on one line. -/
def Instruction.IsLegible (content : Instruction) : Prop :=
  match content.opcode with
  | .push | .pop | .pushText | .pushSymbol | .close | .jump | .jumpIfFalse =>
      ∃ text, content.argument = .text text ∧ '\n' ∉ text.toList
  | .drop | .returnValue | .halt => content.argument = .nothing
  | .other _ => False
  | _ => ∃ value, content.argument = .integer value

/-- An entry that can be read back from its lines. -/
def Entry.IsLegible : Entry → Prop
  | .label name => '\n' ∉ name.toList
  | .instruction content => content.IsLegible

theorem Opcode.mem_known {opcode : Opcode} (notOther : ∀ name, opcode ≠ .other name) :
    opcode ∈ known := by
  cases opcode with
  | other name => exact absurd rfl (notOther name)
  | _ => simp [known]

/-- The instructions of the machine have different names. -/
theorem Opcode.name_inj {first second : Opcode} (isKnown : first ∈ known)
    (isKnown' : second ∈ known) (same : first.name = second.name) : first = second := by
  have distinct : (known.map name).Nodup := by decide
  exact List.inj_on_of_nodup_map distinct isKnown isKnown' same

/-- The names of instructions are words. -/
theorem Opcode.notMem_name {opcode : Opcode} (isKnown : opcode ∈ known) :
    ' ' ∉ opcode.name.toList ∧ '\n' ∉ opcode.name.toList := by
  cases opcode with
  | other name => simp [known] at isKnown
  | _ => simp [name]

theorem newline_notMem_toString_int (number : Int) : '\n' ∉ (toString number).toList := by
  intro member
  have impossible := mem_toString_int member
  revert impossible
  decide

namespace Instruction

/-- What follows the name of an instruction in its line. -/
def afterName (content : Instruction) : List Char :=
  if content.opcode.needsNoArgument && content.argument = .nothing then []
  else ' ' :: content.argument.listed.toList

theorem toList_listed (content : Instruction) :
    content.listed.toList = "    ".toList ++ (content.opcode.name.toList ++ content.afterName) := by
  rw [listed, afterName]
  split <;> simp

theorem head?_afterName (content : Instruction) :
    ∀ next ∈ content.afterName.head?, next = ' ' := by
  rw [afterName]
  split <;> simp [eq_comm]

namespace IsLegible

variable {content : Instruction}

theorem mem_known (legible : content.IsLegible) : content.opcode ∈ Opcode.known := by
  refine Opcode.mem_known fun name isOther => ?_
  rw [IsLegible, isOther] at legible
  exact legible

/-- The line of a legible instruction is one line. -/
theorem newline_notMem (legible : content.IsLegible) : '\n' ∉ content.listed.toList := by
  have inName : '\n' ∉ content.opcode.name.toList :=
    (Opcode.notMem_name legible.mem_known).2
  have inArgument : '\n' ∉ content.argument.listed.toList := by
    obtain ⟨opcode, argument⟩ := content
    cases opcode with
    | push | pop | pushText | pushSymbol | close | jump | jumpIfFalse =>
        obtain ⟨text, rfl, plain⟩ := legible
        exact plain
    | drop | returnValue | halt =>
        cases legible
        simp [Argument.listed]
    | other name => cases legible
    | _ =>
        obtain ⟨value, rfl⟩ := legible
        exact newline_notMem_toString_int value
  rw [toList_listed, afterName]
  split <;> simp [inName, inArgument]

/-- The same instruction has the same kind of argument. -/
theorem argument_inj {opcode : Opcode} {argument argument' : Argument}
    (legible : IsLegible ⟨opcode, argument⟩) (legible' : IsLegible ⟨opcode, argument'⟩)
    (same : argument.listed = argument'.listed) : argument = argument' := by
  cases opcode with
  | push | pop | pushText | pushSymbol | close | jump | jumpIfFalse =>
      obtain ⟨text, rfl, -⟩ := legible
      obtain ⟨text', rfl, -⟩ := legible'
      exact congrArg Argument.text same
  | drop | returnValue | halt => exact legible.trans legible'.symm
  | other name => cases legible
  | _ =>
      obtain ⟨value, rfl⟩ := legible
      obtain ⟨value', rfl⟩ := legible'
      exact congrArg Argument.integer (Int.repr_injective same)

theorem afterName_inj {opcode : Opcode} {argument argument' : Argument}
    (legible : IsLegible ⟨opcode, argument⟩) (legible' : IsLegible ⟨opcode, argument'⟩)
    (same : afterName ⟨opcode, argument⟩ = afterName ⟨opcode, argument'⟩) :
    argument = argument' := by
  cases needsNone : opcode.needsNoArgument with
  | true =>
      cases opcode with
      | drop | returnValue => exact legible.trans legible'.symm
      | _ => cases needsNone
  | false =>
      simp only [afterName, needsNone, Bool.false_and, Bool.false_eq_true, if_false,
        List.cons.injEq, true_and, String.toList_inj] at same
      exact legible.argument_inj legible' same

/-- A legible instruction can be read back from its line. -/
theorem listed_inj {content' : Instruction} (legible : content.IsLegible)
    (legible' : content'.IsLegible) (same : content.listed = content'.listed) :
    content = content' := by
  rw [← String.toList_inj, toList_listed, toList_listed, List.append_cancel_left_eq] at same
  have split := append_inj_of_notMem (Opcode.notMem_name legible.mem_known).1
    (Opcode.notMem_name legible'.mem_known).1 content.head?_afterName content'.head?_afterName same
  have sameOpcode := Opcode.name_inj legible.mem_known legible'.mem_known
    (String.toList_inj.mp split.1)
  obtain ⟨opcode, argument⟩ := content
  obtain ⟨opcode', argument'⟩ := content'
  cases sameOpcode
  rw [legible.afterName_inj legible' split.2]

end IsLegible

end Instruction

/-! ## Entries -/

theorem Entry.IsLegible.newline_notMem {entry : Entry} (legible : entry.IsLegible) :
    ∀ line ∈ entry.lines, '\n' ∉ line := by
  cases entry with
  | label name =>
      have plain : '\n' ∉ name.toList := legible
      simp [Entry.lines, plain]
  | instruction content => simpa [Entry.lines] using Instruction.IsLegible.newline_notMem legible

/-- The line of an instruction is not empty, unlike that before a label. -/
theorem Instruction.listed_ne_nil (content : Instruction) : content.listed.toList ≠ [] := by
  simp [toList_listed]

theorem flatMap_lines_inj {entries entries' : List Entry}
    (legible : ∀ entry ∈ entries, entry.IsLegible)
    (legible' : ∀ entry ∈ entries', entry.IsLegible)
    (same : entries.flatMap Entry.lines = entries'.flatMap Entry.lines) : entries = entries' := by
  induction entries generalizing entries' with
  | nil =>
      cases entries' with
      | nil => rfl
      | cons entry rest => cases entry <;> cases same
  | cons entry rest ih =>
      cases entries' with
      | nil => cases entry <;> cases same
      | cons entry' rest' =>
          have both := List.forall_mem_cons.mp legible
          have both' := List.forall_mem_cons.mp legible'
          cases entry with
          | label name =>
              cases entry' with
              | label name' =>
                  simp only [List.flatMap_cons, Entry.lines, List.cons_append, List.nil_append,
                    List.cons.injEq, List.append_cancel_right_eq, String.toList_inj,
                    true_and] at same
                  rw [same.1, ih both.2 both'.2 same.2]
              | instruction content' =>
                  exact absurd (List.cons.inj same).1.symm content'.listed_ne_nil
          | instruction content =>
              cases entry' with
              | label name' => exact absurd (List.cons.inj same).1 content.listed_ne_nil
              | instruction content' =>
                  simp only [List.flatMap_cons, Entry.lines, List.cons_append, List.nil_append,
                    List.cons.injEq, String.toList_inj] at same
                  rw [Instruction.IsLegible.listed_inj both.1 both'.1 same.1,
                    ih both.2 both'.2 same.2]

/-- Code that starts with a label, all of it legible. -/
structure IsLegibleCode (entries : List Entry) : Prop where
  starts : ∃ first others rest, entries = .label (String.ofList (first :: others)) :: rest ∧
    Text.isBlank first = false
  legible : ∀ entry ∈ entries, entry.IsLegible

/-- Trimming takes away the empty line of the first label and nothing else. -/
theorem IsLegibleCode.spellLines_eq {entries : List Entry} (legible : IsLegibleCode entries) :
    spellLines (entries.flatMap Entry.lines) = '\n' :: '\n' :: (listing entries).toList := by
  obtain ⟨first, others, rest, rfl, notBlank⟩ := legible.starts
  obtain ⟨later, untrimmed⟩ : ∃ later, (String.intercalate "\n"
      ((Entry.label (String.ofList (first :: others)) :: rest).map Entry.listed)).toList =
        '\n' :: first :: later := by
    cases rest <;> simp [Entry.listed]
  have isBlank : Text.isBlank '\n' = true := by decide
  rw [spellLines_entries, listing, Text.trimStart, untrimmed, String.toList_ofList,
    List.dropWhile_cons_of_pos isBlank, List.dropWhile_cons_of_neg (by simp [notBlank])]

/-- Legible code can be read back from its listing. -/
theorem listing_inj {entries entries' : List Entry} (legible : IsLegibleCode entries)
    (legible' : IsLegibleCode entries') (same : listing entries = listing entries') :
    entries = entries' := by
  have plain : ∀ {code : List Entry}, IsLegibleCode code →
      ∀ line ∈ code.flatMap Entry.lines, '\n' ∉ line := by
    intro code isLegible line member
    obtain ⟨entry, inCode, inLines⟩ := List.mem_flatMap.mp member
    exact (isLegible.legible entry inCode).newline_notMem line inLines
  apply flatMap_lines_inj legible.legible legible'.legible
  apply spellLines_inj (plain legible) (plain legible')
  rw [legible.spellLines_eq, legible'.spellLines_eq, same]

end StackScript.Code
