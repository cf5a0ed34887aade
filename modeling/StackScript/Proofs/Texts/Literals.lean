import StackScript.Proofs.Listing.Legible

/-!
# Texts in documents

A document writes a text between quotes and takes its characters over as they are.  So it is one
literal of C exactly if no quote in it stands alone and no backslash is the last of them
(`isLiteral_quoted_iff`).  The names of fields are written as texts too, and always are literals,
so that a document has only literals exactly if all texts of the script are fit for it
(`Script.isLiteral_of_document_iff`).
-/

namespace StackScript.Document

/-- What follows a literal of C, given what follows its opening quote.  A backslash takes the
character after it along, and a literal ends on its line. -/
def afterLiteral? : List Char → Option (List Char)
  | [] => none
  | '"' :: rest => some rest
  | '\n' :: _ => none
  | ['\\'] => none
  | '\\' :: _ :: rest => afterLiteral? rest
  | _ :: rest => afterLiteral? rest

def isLiteral (text : String) : Bool :=
  match text.toList with
  | '"' :: rest => afterLiteral? rest = some []
  | _ => false

/-- Whether every quote has a backslash before it that belongs to it, and no backslash is left
without a character. -/
def isEscaped : List Char → Bool
  | [] => true
  | ['\\'] => false
  | '\\' :: _ :: rest => isEscaped rest
  | character :: rest => character ≠ '"' && isEscaped rest

theorem afterLiteral?_append_quote {content : List Char} (oneLine : '\n' ∉ content) :
    afterLiteral? (content ++ ['"']) = some [] ↔ isEscaped content = true := by
  fun_induction isEscaped content with
  | case1 => simp [afterLiteral?]
  | case2 => simp [afterLiteral?]
  | case3 escaped rest ih =>
      rw [List.cons_append, List.cons_append, afterLiteral?]
      exact ih fun member => oneLine (by simp [member])
  | case4 character rest notLast notEscape ih =>
      have notBackslash : character ≠ '\\' := by
        rintro rfl
        cases rest with
        | nil => exact notLast rfl rfl
        | cons next others => exact notEscape next others rfl rfl
      rw [List.mem_cons, not_or] at oneLine
      by_cases isQuote : character = '"'
      · subst isQuote
        simp [afterLiteral?]
      · have goesOn : afterLiteral? (character :: (rest ++ ['"'])) =
            afterLiteral? (rest ++ ['"']) := by
          rw [afterLiteral?]
          · exact isQuote
          · exact Ne.symm oneLine.1
          · exact fun isBackslash => absurd isBackslash notBackslash
          · exact fun _ _ isBackslash => absurd isBackslash notBackslash
        rw [List.cons_append, goesOn, ih oneLine.2]
        simp [isQuote]

/-- A text on one line is written as a literal exactly if it is escaped. -/
theorem isLiteral_quoted_iff {content : String} (oneLine : '\n' ∉ content.toList) :
    isLiteral ("\"" ++ content ++ "\"") = true ↔ isEscaped content.toList = true := by
  rw [← afterLiteral?_append_quote oneLine]
  simp [isLiteral]

theorem isEscaped_of_notMem {content : List Char} (noQuote : '"' ∉ content)
    (noBackslash : '\\' ∉ content) : isEscaped content = true := by
  fun_induction isEscaped content with
  | case1 => rfl
  | case2 => simp at noBackslash
  | case3 => simp at noBackslash
  | case4 character rest _ _ ih =>
      rw [List.mem_cons, not_or] at noQuote noBackslash
      simp [Ne.symm noQuote.1, ih noQuote.2 noBackslash.2]

theorem forall₂_operands {contents : List Code.Instruction} {values : List Code.Argument}
    (written : operands contents = .ok values) :
    List.Forall₂ (fun content value => operand content = .ok value) contents values := by
  induction contents generalizing values with
  | nil =>
      cases written
      exact .nil
  | cons content rest ih =>
      obtain ⟨first, firstWritten, written⟩ := except_bind_eq_ok.mp written
      obtain ⟨later, restWritten, written⟩ := except_bind_eq_ok.mp written
      cases written
      exact .cons firstWritten (ih restWritten)

theorem rows_eq_ok {table : Table} {rows : List (Code.Instruction × Code.Argument)}
    (written : table.rows = .ok rows) :
    rows.map Prod.fst = table.instructions ∧ ∀ row ∈ rows, operand row.1 = .ok row.2 := by
  obtain ⟨values, operandsWritten, written⟩ := except_bind_eq_ok.mp written
  cases written
  have related := forall₂_operands operandsWritten
  refine ⟨List.map_fst_zip related.length_eq.le, ?_⟩
  rintro ⟨content, value⟩ member
  exact (List.forall₂_iff_zip.mp related).2 member

/-- The operands of the instructions that push texts, as they stand in a document. -/
def pushedTexts (rows : List (Code.Instruction × Code.Argument)) : List String :=
  (rows.filter fun row => row.1.opcode = .pushText).map fun row => shownArgument row.2

theorem pushedTexts_eq {table : Table} {rows : List (Code.Instruction × Code.Argument)}
    (written : table.rows = .ok rows) :
    pushedTexts rows = (table.instructions.filter fun content => content.opcode = .pushText).map
      fun content => shownArgument content.argument := by
  obtain ⟨sameInstructions, operands⟩ := rows_eq_ok written
  rw [← sameInstructions, List.filter_map, List.map_map, pushedTexts]
  apply List.map_congr_left
  intro row member
  obtain ⟨inRows, isPush⟩ := List.mem_filter.mp member
  have isOperand := operands row inRows
  rw [operand, of_decide_eq_true isPush] at isOperand
  exact congrArg shownArgument (Except.ok.inj isOperand).symm

end StackScript.Document

namespace StackScript.Surface

open StackScript.Code (Instruction Opcode textArgument)

/-! ## Texts of nodes -/

/-- The text that a node pushes: a text, or the name of a field. -/
def Expr.pushedText? : Expr → Option String
  | .text content => some content
  | .binary _ _ operator _ right => if operator = "." then right.name? else none
  | _ => none

theorem Expr.filter_own (node : Expr) :
    (node.own.filter fun content => content.opcode = .pushText) =
      node.pushedText?.toList.map fun content => ⟨.pushText, textArgument content⟩ := by
  cases node with
  | binary position level operator left right =>
      by_cases isAccess : operator = "."
      · cases named : right.name? <;> simp [own, pushedText?, isAccess, named]
      · cases performed : opcodeOfOperator? operator with
        | none => simp [own, pushedText?, isAccess, performed]
        | some opcode =>
            have notText : opcode ≠ .pushText := by
              rintro rfl
              exact absurd (mem_operatorOpcodes performed) (by decide)
            simp [own, pushedText?, isAccess, performed, notText]
  | record fields => simp [own, pushedText?, List.filter_map, Function.comp_def]
  | _ => simp [own, pushedText?]

theorem flatMap_filter_own (nodes : List Expr) :
    (nodes.flatMap fun node => node.own.filter fun content => content.opcode = .pushText) =
      (nodes.filterMap Expr.pushedText?).map fun content => ⟨.pushText, textArgument content⟩ := by
  induction nodes with
  | nil => rfl
  | cons node rest ih =>
      rw [List.flatMap_cons, ih, Expr.filter_own, List.filterMap_cons]
      cases node.pushedText? <;> rfl

/-- A symbol has a name, and so has the field of an access. -/
def Expr.IsNamed : Expr → Prop
  | .symbol _ name => IsName name
  | .binary _ _ _ _ right => ∀ name, right.name? = some name → IsName name
  | .misplaced .. => False
  | _ => True

/-- All nodes of an expression are named. -/
abbrev NamedNodes (expression : Expr) : Prop :=
  expression.Throughout Expr.IsNamed fun _ => True

abbrev NamedNodesStmt (statement : Stmt) : Prop :=
  statement.Throughout Expr.IsNamed fun _ => True

theorem NamedNodes.isName {expression : Expr} (named : NamedNodes expression) {name : String}
    (hasName : expression.name? = some name) : IsName name := by
  cases expression with
  | symbol position given =>
      cases hasName
      exact named.1 (.symbol position name) (by simp)
  | misplaced form name? => exact (named.1 (.misplaced form name?) (by simp)).elim
  | _ => cases hasName

end StackScript.Surface

namespace StackScript

open StackScript.Grammar
open StackScript.Surface

theorem builds_namedNodes : Builds Token.HasName NamedNodes NamedNodesStmt where
  integer _ := by simp [Expr.Throughout, Expr.IsNamed]
  text _ := by simp [Expr.Throughout, Expr.IsNamed]
  symbol hasName isSymbol := by simpa [Expr.Throughout, Expr.IsNamed] using hasName isSymbol
  negation _ operandNamed := throughout_negation.mpr ⟨trivial, operandNamed⟩
  binary _ _ leftNamed rightNamed :=
    throughout_binary.mpr ⟨fun _ => rightNamed.isName, leftNamed, rightNamed⟩
  list itemsNamed := throughout_list.mpr ⟨trivial, itemsNamed⟩
  record fieldsNamed := throughout_record.mpr ⟨trivial, fieldsNamed⟩
  item _ subjectNamed indexNamed := throughout_item.mpr ⟨trivial, subjectNamed, indexNamed⟩
  call _ functionNamed argumentsNamed :=
    throughout_call.mpr ⟨trivial, functionNamed, argumentsNamed⟩
  lambda bodyNamed := throughout_lambda.mpr ⟨trivial, trivial, bodyNamed⟩
  conditional conditionNamed trueNamed falseNamed :=
    throughout_conditional.mpr
      ⟨trivial, conditionNamed, ⟨trivial, trueNamed⟩, trivial, falseNamed⟩
  assign _ _ _ valueNamed := valueNamed
  evaluate expressionNamed := expressionNamed
  define _ _ bodyNamed := throughout_define.mpr ⟨trivial, bodyNamed⟩

/-- All symbols of a script have names, and so have the fields that it reads. -/
theorem Script.isNamed_of_surface {script : String} {program : Program}
    (parsed : Script.surface script = .ok program) : ∀ node ∈ program.nodes, node.IsNamed := by
  obtain ⟨tokens, scanned, parsed⟩ := except_bind_eq_ok.mp parsed
  have named := builds_namedNodes.forall_statements_of_parse (Lexer.hasName_of_scan scanned) parsed
  exact (forall_program_iff.mpr named).1

end StackScript

namespace StackScript.Script

open StackScript.Code (Labelled instructionsOf optimize assemble textArgument)
open StackScript.Document (Table isLiteral isEscaped pushedTexts shownArgument)
open StackScript.Surface (Expr Program)

/-- The instructions of shortened code that push texts are those of the texts of a script and of
the fields that it reads. -/
theorem HasLabelled.filter_pushText_perm {script : String} {program : Program}
    {labelled : Labelled} (has : HasLabelled script program labelled) :
    ((instructionsOf (optimize (assemble labelled.fragment))).filter
        fun content => content.opcode = .pushText).Perm
      ((program.nodes.filterMap Expr.pushedText?).map
        fun content => ⟨.pushText, textArgument content⟩) := by
  rw [Code.filter_optimize rfl, ← Surface.flatMap_filter_own]
  exact has.filter_perm rfl

/-- The texts that nodes push are on one line. -/
theorem HasLabelled.newline_notMem_pushedText {script : String} {program : Program}
    {labelled : Labelled} (has : HasLabelled script program labelled) {content : String}
    (pushed : content ∈ program.nodes.filterMap Expr.pushedText?) : '\n' ∉ content.toList := by
  have member := has.filter_pushText_perm.mem_iff.mpr (List.mem_map_of_mem pushed)
  rcases Code.mem_shortenedPart (List.mem_of_mem_filter member) with inCode | isDrop
  · obtain ⟨text, isText, oneLine⟩ := has.isLegible_instruction inCode
    cases isText
    simpa using oneLine
  · cases isDrop

/-- A name is escaped. -/
theorem isEscaped_of_isName {name : String} (isName : IsName name) :
    isEscaped name.toList = true := by
  have notMem : ∀ character, Lexer.isWordCharacter character = false → character ∉ name.toList := by
    intro character notWord member
    rw [isName.characters character member] at notWord
    cases notWord
  exact Document.isEscaped_of_notMem (notMem '"' (by decide)) (notMem '\\' (by decide))

/-- What nodes push is escaped exactly if the texts are. -/
theorem forall_pushedText_iff {script : String} {program : Program}
    (parsed : Script.surface script = .ok program) :
    (∀ content ∈ program.nodes.filterMap Expr.pushedText?, isEscaped content.toList = true) ↔
      ∀ content, .text content ∈ program.nodes → isEscaped content.toList = true := by
  constructor
  · intro escaped content member
    exact escaped content (List.mem_filterMap.mpr ⟨_, member, rfl⟩)
  · intro escaped content pushed
    obtain ⟨node, member, isPushed⟩ := List.mem_filterMap.mp pushed
    cases node with
    | text other =>
        cases isPushed
        exact escaped content member
    | binary position level operator left right =>
        have named := isNamed_of_surface parsed _ member
        rw [Expr.pushedText?] at isPushed
        split at isPushed
        · exact isEscaped_of_isName (named content isPushed)
        · cases isPushed
    | _ => cases isPushed

/-- A document writes each text of a script, and the name of each field, between quotes.  What it
writes for a text is one literal of C exactly if the text is escaped, and it writes nothing but
literals for the instructions that push texts exactly if all texts of the script are escaped. -/
theorem isLiteral_of_document_iff {script document : String}
    (written : Script.document script = .ok document) :
    ∃ program entries rows, Script.surface script = .ok program ∧
      Script.shortCode script = .ok entries ∧ (Table.ofCode entries).rows = .ok rows ∧
      (pushedTexts rows).Perm ((program.nodes.filterMap Expr.pushedText?).map
        fun content => "\"" ++ content ++ "\"") ∧
      (∀ content, .text content ∈ program.nodes →
        (isLiteral ("\"" ++ content ++ "\"") = true ↔ isEscaped content.toList = true)) ∧
      ((∀ text ∈ pushedTexts rows, isLiteral text = true) ↔
        ∀ content, .text content ∈ program.nodes → isEscaped content.toList = true) := by
  obtain ⟨entries, shortened, written⟩ := except_bind_eq_ok.mp written
  obtain ⟨rows, rowsWritten, _⟩ := except_bind_eq_ok.mp written
  obtain ⟨code, generated, same⟩ := except_bind_eq_ok.mp shortened
  cases same
  obtain ⟨program, labelled, has, rfl⟩ := exists_hasLabelled generated
  have texts : (pushedTexts rows).Perm ((program.nodes.filterMap Expr.pushedText?).map
      fun content => "\"" ++ content ++ "\"") := by
    rw [Document.pushedTexts_eq rowsWritten, Document.instructions_ofCode]
    have mapped := has.filter_pushText_perm.map fun content => shownArgument content.argument
    rwa [List.map_map] at mapped
  have literal : ∀ content ∈ program.nodes.filterMap Expr.pushedText?,
      (isLiteral ("\"" ++ content ++ "\"") = true ↔ isEscaped content.toList = true) :=
    fun content pushed => Document.isLiteral_quoted_iff (has.newline_notMem_pushedText pushed)
  refine ⟨program, _, rows, has.parsed, shortened, rowsWritten, texts, ?_, ?_⟩
  · intro content member
    exact literal content (List.mem_filterMap.mpr ⟨_, member, rfl⟩)
  · rw [← forall_pushedText_iff has.parsed]
    simp only [texts.mem_iff, List.forall_mem_map]
    exact forall₂_congr literal

/-- A script with quotes and backslashes in its texts, all of them escaped. -/
def escapedTexts : String :=
  "x = 'a \\\"b\\\"'\nprint(x.size, \"it's \\\\\")\n"

theorem escapedTexts_literals :
    ∃ document program entries rows, Script.document escapedTexts = .ok document ∧
      Script.surface escapedTexts = .ok program ∧ Script.shortCode escapedTexts = .ok entries ∧
      (Table.ofCode entries).rows = .ok rows ∧
      (∀ content, .text content ∈ program.nodes → isEscaped content.toList = true) ∧
      ∀ text ∈ pushedTexts rows, isLiteral text = true := by
  have accepted : (Script.document escapedTexts).isOk = true := by
    decide +kernel
  have seen : (Script.surface escapedTexts).map (fun program =>
      (program.nodes.filterMap Expr.pushedText?).all fun content =>
        isEscaped content.toList) = .ok true := by
    decide +kernel
  cases written : Script.document escapedTexts with
  | error error =>
      rw [written] at accepted
      cases accepted
  | ok document =>
      obtain ⟨program, entries, rows, parsed, shortened, rowsWritten, _, _, literals⟩ :=
        isLiteral_of_document_iff written
      rw [parsed] at seen
      have escaped := (forall_pushedText_iff parsed).mp (List.all_eq_true.mp (Except.ok.inj seen))
      exact ⟨document, program, entries, rows, rfl, parsed, shortened, rowsWritten, escaped,
        literals.mpr escaped⟩

/-- A script with a text that is one quote. -/
def bareQuote : String :=
  "print('\"')\n"

/-- A quote that stands alone ends the literal too early. -/
theorem bareQuote_no_literal :
    ∃ document entries rows, Script.document bareQuote = .ok document ∧
      Script.shortCode bareQuote = .ok entries ∧ (Table.ofCode entries).rows = .ok rows ∧
      pushedTexts rows = ["\"\"\""] ∧ isLiteral "\"\"\"" = false := by
  have accepted : (Script.document bareQuote).isOk = true := by
    decide +kernel
  have seen : ((Script.shortCode bareQuote).bind fun entries =>
      (Table.ofCode entries).rows).map pushedTexts = .ok ["\"\"\""] := by
    decide +kernel
  cases written : Script.document bareQuote with
  | error error =>
      rw [written] at accepted
      cases accepted
  | ok document =>
      obtain ⟨entries, shortened, ofCode⟩ := except_bind_eq_ok.mp written
      obtain ⟨rows, rowsWritten, _⟩ := except_bind_eq_ok.mp ofCode
      rw [shortened, Except.bind, rowsWritten] at seen
      exact ⟨document, entries, rows, rfl, shortened, rowsWritten, Except.ok.inj seen, by decide⟩

end StackScript.Script
