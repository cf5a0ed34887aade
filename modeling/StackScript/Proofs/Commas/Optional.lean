import StackScript.Proofs.Commas.Rules
import StackScript.Proofs.Boundary.Delimiters
import StackScript.Proofs.Grammar.ReadBack

/-!
# Optional newlines

The newlines after the token that opens a comma list and after the commas in it can be left out,
and the tree stays the same.  Only two tokens open something else as well.

A parenthesis also opens a group.  Without the newline the name of the first field of a record is
read as a group, which the colon then leaves open.  A bracket also opens an index.  Without the
newline a list on a line of its own can become the index of what stands before it.  That the
bracket is an index shows in that a list of more items would not be read in its place.
-/

namespace StackScript

open StackScript.Grammar StackScript.Grammar.Commas

/-- What becomes of an accepted script in the two other runs. -/
theorem parse_deletion (deletion : Deletion) {program : Surface.Program}
    (accepted : parse (deletion.front ++ deletion.whole) = .ok program) :
    (deletion.Unmistaken ∧ parse (deletion.front ++ deletion.short) = .ok program) ∨
      (deletion.Mistakable ∧
        parse (deletion.front ++ deletion.probe) = .error .malformedConstruct) := by
  let depth := (deletion.front ++ deletion.whole).length +
    (deletion.front ++ deletion.short).length + (deletion.front ++ deletion.probe).length
  have outcome := carries_program depth (.before (List.suffix_refl deletion.front))
  rw [parse_eq_of_le (show _ ≤ depth by omega), Parser.finish] at accepted
  rw [parse_eq_of_le (show _ ≤ depth by omega), parse_eq_of_le (show _ ≤ depth by omega),
    Parser.finish, Parser.finish]
  generalize Grammar.program (nested depth) (deletion.front ++ deletion.whole) = reply,
    Grammar.program (nested depth) (deletion.front ++ deletion.short) = reply',
    Grammar.program (nested depth) (deletion.front ++ deletion.probe) = reply''
    at outcome accepted ⊢
  cases outcome with
  | failed => cases accepted
  | mistaken isMistakable => exact .inr ⟨isMistakable, rfl⟩
  | @accept value _ rest rest' _ remains =>
      have isEnd : rest = [] := by
        cases rest with
        | nil => rfl
        | cons token rest => cases accepted
      subst isEnd
      cases accepted
      have isEnd' : rest' = [] := remains.place.eq_nil_iff.1.mp rfl
      subst isEnd'
      exact .inl ⟨remains.place.unmistaken_of_nil, rfl⟩
  | @reject rest =>
      cases rest <;> cases accepted

section Newline

variable {front after : List Token} {opener newline : Token} {program : Surface.Program}

/-- A newline after a comma or after a token that opens a list, among plain tokens. -/
def Grammar.Commas.Deletion.ofPlain (front : List Token) (item? : Option (Token × Token))
    (plain : ∀ token ∈ opener :: newline :: after, token.IsPlain)
    (isOpener : opener.kind ∈ [.comma, .openParen, .openBracket])
    (isNewline : newline.kind = .newline)
    (isItem : ∀ item ∈ item?, opener.kind = .openBracket ∧ item.1.kind = .symbol ∧
      item.2.kind = .comma)
    (noItem : item? = none → opener.kind = .openBracket →
      ∃ token ∈ after.head?, token.kind = .newline) : Deletion where
  front := front
  opener := opener
  newline := newline
  after := after
  item? := item?
  isOpener := isOpener
  notWord isWord := by
    rcases (plain opener List.mem_cons_self).kind_of_bareWord isWord with
      isKeyword | ⟨isAddition, _⟩
    · simp [isKeyword] at isOpener
    · simp [isAddition] at isOpener
  isNewline := isNewline
  plainNewlines token member isNewline isWord := by
    rcases (plain token (List.mem_cons_of_mem _ member)).kind_of_bareWord isWord with
      isKeyword | ⟨isAddition, _⟩
    · simp [isKeyword] at isNewline
    · simp [isAddition] at isNewline
  isItem := isItem
  noItem := noItem

/-- A bracket that opens no list any more is that of an index. -/
theorem parse_without_bracket_newline
    (plain : ∀ token ∈ opener :: newline :: after, token.IsPlain)
    (isBracket : opener.kind = .openBracket) (isNewline : newline.kind = .newline)
    (accepted : parse (front ++ opener :: newline :: after) = .ok program)
    (changed : parse (front ++ opener :: after) ≠ .ok program) :
    EndsHead front ∧ (∀ first ∈ after.head?, first.kind ≠ .newline) ∧
      ∀ name comma : Token, name.kind = .symbol → comma.kind = .comma →
        parse (front ++ opener :: name :: comma :: newline :: after) =
          .error .malformedConstruct := by
  have isOpener : opener.kind ∈ [.comma, .openParen, .openBracket] := by simp [isBracket]
  have isIndex (name comma : Token) (isSymbol : name.kind = .symbol)
      (isComma : comma.kind = .comma) : EndsHead front ∧
        parse (front ++ opener :: name :: comma :: newline :: after) =
          .error .malformedConstruct := by
    have isItem : ∀ item ∈ some (name, comma), opener.kind = .openBracket ∧
        item.1.kind = .symbol ∧ item.2.kind = .comma := by
      rintro _ ⟨⟩
      exact ⟨isBracket, isSymbol, isComma⟩
    rcases parse_deletion (.ofPlain front _ plain isOpener isNewline isItem (by simp)) accepted with
      ⟨_, same⟩ | ⟨⟨_, follows, _⟩, fails⟩
    · exact absurd same changed
    · exact ⟨(follows isBracket).1, fails⟩
  refine ⟨(isIndex ⟨.symbol, "", ⟨0, 1⟩⟩ ⟨.comma, "", ⟨0, 1⟩⟩ rfl rfl).1, ?_,
    fun name comma isSymbol isComma => (isIndex name comma isSymbol isComma).2⟩
  intro first isFirst isBlank
  -- With another newline the second run rejects an index too, and no further item is needed.
  rcases parse_deletion (.ofPlain front none plain isOpener isNewline (by simp)
    fun _ _ => ⟨first, isFirst, isBlank⟩) accepted with ⟨_, same⟩ | ⟨⟨_, follows, _⟩, _⟩
  · exact changed same
  · exact absurd (follows isBracket).2 (by simp [Deletion.ofPlain])

/-- Without the newline that opens a comma list, or follows one of its commas, a script has the
same tree.  The first field of a record must not follow its parenthesis directly, and a list on a
line of its own can become an index of what ends the line before. -/
theorem parse_without_newline (plain : ∀ token ∈ opener :: newline :: after, token.IsPlain)
    (isOpener : opener.kind ∈ [.comma, .openParen, .openBracket])
    (isNewline : newline.kind = .newline)
    (accepted : parse (front ++ opener :: newline :: after) = .ok program) :
    (opener.kind = .openParen ∧ StartsField after →
        parse (front ++ opener :: after) = .error .malformedConstruct) ∧
      (¬(opener.kind = .openParen ∧ StartsField after) →
        parse (front ++ opener :: after) = .ok program ∨
          opener.kind = .openBracket ∧ EndsHead front ∧
            (∀ first ∈ after.head?, first.kind ≠ .newline) ∧
            ∀ name comma : Token, name.kind = .symbol → comma.kind = .comma →
              parse (front ++ opener :: name :: comma :: newline :: after) =
                .error .malformedConstruct) := by
  by_cases isBracket : opener.kind = .openBracket
  case pos =>
      refine ⟨fun both => by simp [isBracket] at both, fun _ => ?_⟩
      by_cases same : parse (front ++ opener :: after) = .ok program
      · exact .inl same
      · exact .inr ⟨isBracket,
          parse_without_bracket_newline plain isBracket isNewline accepted same⟩
  case neg =>
      rcases parse_deletion (.ofPlain front none plain isOpener isNewline (by simp)
        fun _ isBracket' => absurd isBracket' isBracket) accepted with
        ⟨unmistaken, same⟩ | ⟨⟨isField, _, notComma⟩, fails⟩
      · exact ⟨fun both => absurd both.2 (unmistaken both.1), fun _ => .inl same⟩
      · have isParen : opener.kind = .openParen := by
          simpa [isBracket, show opener.kind ≠ .comma from notComma] using isOpener
        exact ⟨fun _ => fails, fun notField => absurd ⟨isParen, isField isParen⟩ notField⟩

end Newline

set_option maxRecDepth 2000 in
theorem recordArgument_without_newline :
    ∃ front opener newline after program,
      tokenize "f([2,\n  (\n  a: 3)])\n" = .ok (front ++ opener :: newline :: after) ∧
        opener.kind = .comma ∧ newline.kind = .newline ∧
        parse (front ++ opener :: newline :: after) = .ok program ∧
        parse (front ++ opener :: after) = .ok program := by
  obtain ⟨front, opener, newline, after, program, scanned, isComma, isNewline, accepted⟩ :
      ∃ front opener newline after program,
        tokenize "f([2,\n  (\n  a: 3)])\n" = .ok (front ++ opener :: newline :: after) ∧
          opener.kind = .comma ∧ newline.kind = .newline ∧
          parse (front ++ opener :: newline :: after) = .ok program :=
    ⟨[_, _, _, _], _, _, _, _, rfl, rfl, rfl, rfl⟩
  have plain : ∀ token ∈ opener :: newline :: after, token.IsPlain := fun token member =>
    isPlain_of_tokenize scanned token (List.mem_append_right front member)
  have outcome := parse_without_newline plain (by simp [isComma]) isNewline accepted
  refine ⟨front, opener, newline, after, program, scanned, isComma, isNewline, accepted, ?_⟩
  simpa [isComma] using outcome

/-- A record is not read at all without the newline after its parenthesis, and a list on its own
becomes an index. -/
theorem openedRecord_needs_newline :
    (∃ opener newline after program,
      tokenize "(\na: 1)\n" = .ok (opener :: newline :: after) ∧
        opener.kind = .openParen ∧ newline.kind = .newline ∧
        parse (opener :: newline :: after) = .ok program ∧
        parse (opener :: after) = .error .malformedConstruct) ∧
      ∃ name opener newline after program program',
        tokenize "a[\n1]\n" = .ok (name :: opener :: newline :: after) ∧
          opener.kind = .openBracket ∧ newline.kind = .newline ∧
          parse (name :: opener :: newline :: after) = .ok program ∧
          parse (name :: opener :: after) = .ok program' ∧
          program.statements.length = 2 ∧ program'.statements.length = 1 :=
  ⟨⟨_, _, _, _, rfl, rfl, rfl, rfl, rfl⟩, _, _, _, _, _, _, rfl, rfl, rfl, rfl, rfl, rfl, rfl⟩

end StackScript
