import StackScript.Proofs.Grammar.Agreement
import StackScript.Proofs.Grammar.Spelling

/-!
# What is opened and closed

Parentheses, brackets and bodies are opened by one token and closed by another.  The surplus of
some tokens says how many of them are open after these tokens.
-/

namespace StackScript

/-- What has to be closed after it has been opened. -/
inductive Delimiter where
  | paren
  | bracket
  | body
  deriving DecidableEq, Repr

namespace Delimiter

def opens : Delimiter → Token → Bool
  | .paren => fun token => token.kind = .openParen
  | .bracket => fun token => token.kind = .openBracket
  | .body => Token.isKeyword "do"

def closes : Delimiter → Token → Bool
  | .paren => fun token => token.kind = .closeParen
  | .bracket => fun token => token.kind = .closeBracket
  | .body => Token.isKeyword "end"

end Delimiter

/-- How many times more tokens open something than close it. -/
def surplus (tokens : List Token) (delimiter : Delimiter) : Int :=
  tokens.countP delimiter.opens - tokens.countP delimiter.closes

/-- Something is opened that no later token closes. -/
def Unclosed (tokens : List Token) : Prop :=
  ∃ rest, rest <:+ tokens ∧ ∃ delimiter, 0 < surplus rest delimiter

/-- Some tokens close what is pending, if anything is, and all else that they open. -/
def Settles (pending : Option Delimiter) (tokens : List Token) : Prop :=
  ∀ delimiter, surplus tokens delimiter = if pending = some delimiter then -1 else 0

/-- A token neither opens nor closes anything. -/
def Token.IsInert (token : Token) : Prop :=
  ∀ delimiter : Delimiter, delimiter.opens token = false ∧ delimiter.closes token = false

/-- A token opens one thing and does nothing else. -/
def Token.Opens (token : Token) (delimiter : Delimiter) : Prop :=
  ∀ other : Delimiter, other.opens token = decide (other = delimiter) ∧ other.closes token = false

/-- A token closes one thing and does nothing else. -/
def Token.Closes (token : Token) (delimiter : Delimiter) : Prop :=
  ∀ other : Delimiter, other.opens token = false ∧ other.closes token = decide (other = delimiter)

section Surplus

variable {token : Token} {tokens rest : List Token} {pending : Option Delimiter}
  {delimiter : Delimiter}

theorem surplus_append (first second : List Token) (delimiter : Delimiter) :
    surplus (first ++ second) delimiter = surplus first delimiter + surplus second delimiter := by
  simp only [surplus, List.countP_append]
  omega

theorem settles_nil : Settles none [] := by
  intro delimiter
  rfl

theorem Settles.append (first : Settles none tokens) (second : Settles pending rest) :
    Settles pending (tokens ++ rest) := by
  intro delimiter
  rw [surplus_append, first delimiter, second delimiter]
  simp

theorem Token.IsInert.settles (inert : token.IsInert) : Settles none [token] := by
  intro delimiter
  simp [surplus, inert delimiter]

theorem Token.Opens.surplus_eq (opens : token.Opens delimiter) (other : Delimiter) :
    surplus [token] other = if other = delimiter then 1 else 0 := by
  simp only [surplus, List.countP_singleton, opens other, decide_eq_true_eq]
  by_cases same : other = delimiter <;> simp [same]

theorem Token.Opens.settles (opens : token.Opens delimiter)
    (settled : Settles (some delimiter) rest) : Settles none (token :: rest) := by
  intro other
  rw [← List.singleton_append, surplus_append, opens.surplus_eq, settled other]
  by_cases same : other = delimiter
  · simp [same]
  · simp [same, Ne.symm same]

theorem Token.Closes.settles (closes : token.Closes delimiter) (settled : Settles none rest) :
    Settles (some delimiter) (token :: rest) := by
  intro other
  rw [← List.singleton_append, surplus_append, settled other]
  simp only [surplus, List.countP_singleton, closes other, decide_eq_true_eq]
  by_cases same : other = delimiter
  · simp [same]
  · simp [same, Ne.symm same]

theorem Unclosed.append (unclosed : Unclosed rest) (taken : List Token) :
    Unclosed (taken ++ rest) := by
  obtain ⟨last, isSuffix, more⟩ := unclosed
  exact ⟨last, isSuffix.trans (List.suffix_append _ _), more⟩

/-- What has been opened is not closed if all that follows is closed. -/
theorem Token.Opens.unclosed (opens : token.Opens delimiter) (settled : Settles none rest) :
    Unclosed (token :: rest) := by
  refine ⟨_, List.suffix_refl _, delimiter, ?_⟩
  rw [← List.singleton_append, surplus_append, opens.surplus_eq, settled delimiter]
  simp

theorem Token.isInert_of_kind (other : token.kind ∉
    [.openParen, .closeParen, .openBracket, .closeBracket, .keyword]) : token.IsInert := by
  simp only [List.mem_cons, List.not_mem_nil, or_false, not_or] at other
  intro delimiter
  cases delimiter <;> simp [Delimiter.opens, Delimiter.closes, Token.isKeyword, other]

/-- A plain token with a word of the grammar is a keyword, or the minus. -/
theorem Token.IsPlain.kind_of_bareWord (plain : token.IsPlain) (isBare : token.text ∈ bareWords) :
    token.kind = .keyword ∨ token.kind = .addition ∧ token.text = "-" := by
  simp only [bareWords, List.mem_cons, List.not_mem_nil, or_false] at isBare
  rcases isBare with isWord | isWord | isWord | isWord | isWord
  · exact .inr ⟨plain.addition_of_minus isWord, isWord⟩
  all_goals exact .inl (plain.keyword_iff.mpr (by simp [isWord, Lexer.keywords]))

theorem Token.isInert_of_text (isKeyword : token.kind = .keyword) (notDo : token.text ≠ "do")
    (notEnd : token.text ≠ "end") : token.IsInert := by
  intro delimiter
  cases delimiter <;>
    simp [Delimiter.opens, Delimiter.closes, Token.isKeyword, isKeyword, notDo, notEnd]

end Surplus

end StackScript
