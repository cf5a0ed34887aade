import StackScript.Proofs.Boundary.Rules
import StackScript.Proofs.Ending.FinalNewline
import StackScript.Proofs.Faults.Places
import StackScript.Proofs.Grammar.Names
import StackScript.Proofs.Text.Numerals

/-!
# Scripts that are refused

A script is refused because of one of its tokens, or because its tokens end too early
(`surface_failure`).  If it ends in a newline, they end too early only if something has been
opened and not closed, and then a longer script may be read.  In all other cases no longer
script is read either.
-/

namespace StackScript

/-- An integer has digits as its text. -/
def Token.HasDigits (token : Token) : Prop :=
  token.kind = .integer →
    token.text.toList ≠ [] ∧ ∀ character ∈ token.text.toList, Text.isDigit character = true

theorem Lexer.isDigit_of_lexeme? {first : Char} {rest : List Char} {length : Nat}
    (found : lexeme? first rest = some (.integer, length)) :
    ∀ character ∈ first :: rest.take length, Text.isDigit character = true := by
  simp only [lexeme?] at found
  split at found
  · -- A word is a keyword or a symbol.
    simp only [wordKind, Option.some.injEq, Prod.mk.injEq] at found
    split at found <;> cases found.1
  · split at found
    · rename_i isFirst
      cases found
      have taken : rest.take (rest.takeWhile Text.isDigit).length = rest.takeWhile Text.isDigit :=
        (List.prefix_iff_eq_take.mp (List.takeWhile_prefix Text.isDigit)).symm
      rw [taken]
      exact List.forall_mem_cons.mpr ⟨isFirst, List.all_eq_true.mp List.all_takeWhile⟩
    · split at found <;> simp [ite_eq_iff] at found

theorem hasDigits_of_tokenize {script : String} {tokens : List Token}
    (scanned : tokenize script = .ok tokens) : ∀ token ∈ tokens, token.HasDigits := by
  refine Lexer.forall_mem_of_scan ?_ scanned
  rintro first rest kind length position found rfl
  refine ⟨by simp, ?_⟩
  rw [String.toList_ofList]
  exact Lexer.isDigit_of_lexeme? found

/-- An integer is refused only if it has too many digits. -/
theorem Token.HasDigits.readNumeral_eq_error {token : Token} (hasDigits : token.HasDigits)
    (isInteger : token.kind = .integer) {failure : Text.NumeralError}
    (refused : Text.readNumeral token.text = .error failure) :
    Text.digitLimit < token.text.length ∧ failure = .tooLong token.text.length := by
  obtain ⟨notEmpty, areDigits⟩ := hasDigits isInteger
  rw [Text.readNumeral_of_isDigit areDigits rfl notEmpty,
    Text.readUnsigned_of_isDigit areDigits notEmpty, String.length_toList] at refused
  split at refused
  · rename_i tooLong
    cases refused
    exact ⟨tooLong, rfl⟩
  · cases refused

namespace Grammar.Boundary

variable {tokens more : List Token} {error : Error}

theorem carries_program (depth : Nat) :
    Carries more none 0 Finished (program (nested depth)) :=
  (carries_statement (carriesInner_nested depth)).many.bind (fun _ => Carries.pure _)
    fun _ finished => finished.bind fun _ => ⟨_, rfl⟩

/-- A script that is refused leaves something open, or it is refused whatever follows. -/
theorem parse_failure (reaches : Reaches tokens) (failed : parse tokens = .error error)
    (more : List Token) :
    error = .endOfTokens ∧ (ArePlain tokens → Unclosed tokens) ∨
      error ≠ .endOfTokens ∧ parse (tokens ++ more) = .error error := by
  have enough : tokens.length ≤ (tokens ++ more).length := by simp
  have never : ∀ rest, program (nested (tokens ++ more).length) tokens ≠ .ok (.reject rest) :=
    neverRejects_program tokens
  have outcome : Outcome more none 0 Finished tokens _ _ :=
    carries_program (tokens ++ more).length tokens reaches
  rw [parse_eq_of_le enough] at failed
  rw [parse]
  unfold Parser.finish at failed ⊢
  generalize program _ tokens = reply, program _ (tokens ++ more) = reply'
    at outcome failed never ⊢
  cases outcome with
  | accept _ reachesRest _ _ =>
      obtain ⟨token, rest, rfl⟩ := reachesRest.exists_cons
      cases failed
      exact .inr ⟨by simp, rfl⟩
  | reject => exact absurd rfl (never _)
  | failed definite =>
      cases failed
      exact .inr ⟨definite, rfl⟩
  | unclosed isOpen =>
      cases failed
      exact .inl ⟨rfl, isOpen⟩
  | spent finished _ =>
      obtain ⟨value, rfl⟩ := finished
      cases failed

end Grammar.Boundary

/-- The faults that are told to the user as such. -/
def Fault.isReport : Fault → Bool
  | .leftover | .expectedOpening | .builtinTarget | .missingFieldValue => true
  | .malformedConstruct | .invalidNumeral | .numeralTooLong _ => false

namespace Script

end Script

end StackScript
