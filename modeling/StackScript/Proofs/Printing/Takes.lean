import StackScript.Proofs.Grammar.Repetition
import StackScript.Proofs.Printing.Lexemes

/-!
# What parsers take

A parser takes lexemes if it accepts every sequence of tokens that starts with them and goes
on in a suitable way, and leaves exactly what goes on.  It refuses a sequence of tokens if it
rejects it where it started.  There are laws of both for each combinator, so that the rules of
the grammar can be followed along a written script.
-/

namespace StackScript.Grammar

open StackScript.Grammar.Parser

variable {α β : Type}

/-- The first of the lexemes passes a test. -/
def StartsWith (test : Lexeme → Prop) : List Lexeme → Prop
  | [] => False
  | lexeme :: _ => test lexeme

namespace StartsWith

variable {test other : Lexeme → Prop} {lexemes : List Lexeme}

theorem mono (starts : StartsWith test lexemes) (weaker : ∀ lexeme, test lexeme → other lexeme) :
    StartsWith other lexemes := by
  cases lexemes with
  | nil => exact starts.elim
  | cons lexeme others => exact weaker lexeme starts

theorem append (starts : StartsWith test lexemes) (more : List Lexeme) :
    StartsWith test (lexemes ++ more) := by
  cases lexemes with
  | nil => exact starts.elim
  | cons lexeme others => exact starts

theorem length_pos (starts : StartsWith test lexemes) : 0 < lexemes.length := by
  cases lexemes with
  | nil => exact starts.elim
  | cons lexeme others => exact Nat.succ_pos _

end StartsWith

/-- A parser accepts tokens with given lexemes, whatever their places are, if the lexemes
after them are suitable. -/
def Takes (parser : Parser α) (lexemes : List Lexeme) (suitable : List Lexeme → Prop)
    (holds : α → Prop) : Prop :=
  ∀ tokens rest, tokens.map Token.lexeme = lexemes → suitable (rest.map Token.lexeme) →
    ∃ value, parser (tokens ++ rest) = .ok (.accept value rest) ∧ holds value

/-- A parser rejects tokens with certain lexemes, and does so where it started. -/
def Refuses (parser : Parser α) (refused : List Lexeme → Prop) : Prop :=
  ∀ tokens, refused (tokens.map Token.lexeme) → parser tokens = .ok (.reject tokens)

/-- A parser rejects tokens with certain lexemes. -/
def Fails (parser : Parser α) (refused : List Lexeme → Prop) : Prop :=
  ∀ tokens, refused (tokens.map Token.lexeme) → ∃ rest, parser tokens = .ok (.reject rest)

/-- Lexemes that consist of given ones and suitable ones after them. -/
def Begins (lexemes : List Lexeme) (suitable : List Lexeme → Prop) (all : List Lexeme) : Prop :=
  ∃ rest, all = lexemes ++ rest ∧ suitable rest

theorem attempt_apply {parser : Parser α} {tokens rest : List Token} {value : α}
    (accepted : parser tokens = .ok (.accept value rest)) :
    parser.attempt tokens = .ok (.accept value rest) := by
  rw [Parser.attempt, accepted]

theorem attempt_error {parser : Parser α} {tokens : List Token} {error : Error}
    (raised : parser tokens = .error error) : parser.attempt tokens = .error error := by
  rw [Parser.attempt, raised]

/-- Choices that reject where they start are passed over. -/
theorem firstOf_skip (before : List (Parser α)) {after : List (Parser α)} {tokens : List Token}
    (rejected : ∀ other ∈ before, other tokens = .ok (.reject tokens)) :
    Parser.firstOf (before ++ after) tokens = Parser.firstOf.go tokens after tokens := by
  rw [Parser.firstOf]
  induction before with
  | nil => rw [List.nil_append]
  | cons other others ih =>
      have rejectedBoth := List.forall_mem_cons.mp rejected
      rw [List.cons_append, Parser.firstOf.go, rejectedBoth.1]
      exact ih rejectedBoth.2

theorem firstOf_apply (before : List (Parser α)) {after : List (Parser α)} {choice : Parser α}
    {tokens rest : List Token} {value : α} (accepted : choice tokens = .ok (.accept value rest))
    (rejected : ∀ other ∈ before, other tokens = .ok (.reject tokens)) :
    Parser.firstOf (before ++ choice :: after) tokens = .ok (.accept value rest) := by
  rw [firstOf_skip before rejected, Parser.firstOf.go, accepted]

theorem firstOf_error (before : List (Parser α)) {after : List (Parser α)} {parser : Parser α}
    {tokens : List Token} {error : Error} (raised : parser tokens = .error error)
    (rejected : ∀ other ∈ before, other tokens = .ok (.reject tokens)) :
    Parser.firstOf (before ++ parser :: after) tokens = .error error := by
  rw [firstOf_skip before rejected, Parser.firstOf.go, raised]

/-- If the first of the lexemes passes a test, there is a first token. -/
theorem exists_first {tokens : List Token} {test : Lexeme → Prop}
    (starts : StartsWith test (tokens.map Token.lexeme)) :
    ∃ first rest, tokens = first :: rest ∧ test first.lexeme := by
  cases tokens with
  | nil => exact starts.elim
  | cons first rest => exact ⟨first, rest, rfl, starts⟩

variable {lexeme : Lexeme} {lexemes more : List Lexeme}
  {suitable suitableFirst refused : List Lexeme → Prop} {test : Token → Bool}
  {holds : α → Prop}

namespace Refuses

theorem fails {parser : Parser α} (refuses : Refuses parser refused) : Fails parser refused :=
  fun tokens isRefused => ⟨tokens, refuses tokens isRefused⟩

theorem mono {parser : Parser α} {fewer : List Lexeme → Prop}
    (refuses : Refuses parser refused) (weaker : ∀ lexemes, fewer lexemes → refused lexemes) :
    Refuses parser fewer :=
  fun tokens isFewer => refuses tokens (weaker _ isFewer)

/-- A parser that looks at the first lexeme only. -/
theorem starting {parser : Parser α} {first fewer : Lexeme → Prop}
    (refuses : Refuses parser (StartsWith first)) (weaker : ∀ lexeme, fewer lexeme → first lexeme) :
    Refuses parser (StartsWith fewer) :=
  refuses.mono fun _ starts => starts.mono weaker

theorem begins {parser : Parser α} {first : Lexeme → Prop}
    (refuses : Refuses parser (StartsWith first)) (isFirst : StartsWith first lexemes) :
    Refuses parser (Begins lexemes suitable) := by
  apply refuses.mono
  rintro _ ⟨rest, rfl, _⟩
  exact isFirst.append rest

theorem satisfy {refusedLexeme : Lexeme → Prop}
    (fails : ∀ token, refusedLexeme token.lexeme → test token = false) :
    Refuses (Parser.satisfy test) (StartsWith refusedLexeme) := by
  intro tokens isRefused
  rcases exists_first isRefused with ⟨first, rest, rfl, isFirst⟩
  rw [Parser.satisfy, fails first isFirst]
  rfl

theorem bind {first : Parser α} (refuses : Refuses first refused) (next : α → Parser β) :
    Refuses (first >>= next) refused := by
  intro tokens isRefused
  change Parser.bind first next tokens = _
  rw [Parser.bind, refuses tokens isRefused]

theorem skip {refusedLexeme : Lexeme → Prop}
    (fails : ∀ token, refusedLexeme token.lexeme → test token = false) :
    Refuses (Parser.skip test) (StartsWith refusedLexeme) :=
  (Refuses.satisfy fails).bind _

theorem attempt {parser : Parser α} (fails : Fails parser refused) :
    Refuses parser.attempt refused := by
  intro tokens isRefused
  rcases fails tokens isRefused with ⟨rest, rejected⟩
  rw [Parser.attempt, rejected]

theorem firstOf {choices : List (Parser α)}
    (refuses : ∀ choice ∈ choices, Refuses choice refused) :
    Refuses (Parser.firstOf choices) refused := by
  intro tokens isRefused
  rw [Parser.firstOf]
  induction choices with
  | nil => rfl
  | cons choice choices ih =>
      have refusesBoth := List.forall_mem_cons.mp refuses
      rw [Parser.firstOf.go, refusesBoth.1 tokens isRefused]
      exact ih refusesBoth.2

theorem chainLeft {operand : Parser α} {isOperator : Token → Bool} {join : Token → α → α → α}
    (refuses : Refuses operand refused) :
    Refuses (Parser.chainLeft isOperator operand join) refused :=
  .attempt (refuses.bind _).fails

/-- A wrapped value is refused if there is no opening token. -/
theorem wrapped (parser : Parser α) (opening closing : Kind) :
    Refuses (Parser.wrapped opening closing parser)
      (StartsWith fun lexeme => lexeme.kind ≠ opening) :=
  .attempt ((Refuses.skip fun _ => decide_eq_false).bind _).fails

/-- An application is refused if its head is. -/
theorem applied {head : Parser α} (refuses : Refuses head refused) (argument : Parser β)
    (apply : Position → α → β → α) : Refuses (Parser.applied head argument apply) refused :=
  .attempt (refuses.bind _).fails

end Refuses

theorem Fails.bind {first : Parser α} (fails : Fails first refused) (next : α → Parser β) :
    Fails (first >>= next) refused := by
  intro tokens isRefused
  rcases fails tokens isRefused with ⟨rest, rejected⟩
  refine ⟨rest, ?_⟩
  change Parser.bind first next tokens = _
  rw [Parser.bind, rejected]

/-- A parser that goes on after another one has taken lexemes may fail there. -/
theorem Takes.fails {first : Parser α} {next : α → Parser β}
    (takes : Takes first lexemes suitable holds)
    (fails : ∀ value, holds value → Fails (next value) suitable) :
    Fails (first >>= next) (Begins lexemes suitable) := by
  rintro tokens ⟨rest, same, isSuitable⟩
  rcases List.map_eq_append_iff.mp same with ⟨taken, left, rfl, isTaken, rfl⟩
  rcases takes taken left isTaken isSuitable with ⟨value, accepted, valueHolds⟩
  rw [bind_apply accepted]
  exact fails value valueHolds left isSuitable

/-! ## Sequences -/

namespace Takes

theorem mono {parser : Parser α} {fewer : List Lexeme → Prop}
    (takes : Takes parser lexemes suitable holds)
    (weaker : ∀ lexemes, fewer lexemes → suitable lexemes) :
    Takes parser lexemes fewer holds :=
  fun tokens rest isTaken isFewer => takes tokens rest isTaken (weaker _ isFewer)

theorem pure {value : α} (valueHolds : holds value) :
    Takes (Pure.pure value : Parser α) [] suitable holds := by
  intro tokens rest isTaken _
  rw [List.map_eq_nil_iff.mp isTaken]
  exact ⟨value, rfl, valueHolds⟩

theorem bind {first : Parser α} {next : α → Parser β} {holdsNext : β → Prop}
    (takesFirst : Takes first lexemes suitableFirst holds)
    (takesNext : ∀ value, holds value → Takes (next value) more suitable holdsNext)
    (fits : ∀ rest, suitable rest → suitableFirst (more ++ rest)) :
    Takes (first >>= next) (lexemes ++ more) suitable holdsNext := by
  intro tokens rest same isSuitable
  rcases List.map_eq_append_iff.mp same with ⟨taken, others, rfl, isTaken, isMore⟩
  have fitsHere : suitableFirst ((others ++ rest).map Token.lexeme) := by
    rw [List.map_append, isMore]
    exact fits _ isSuitable
  rcases takesFirst taken (others ++ rest) isTaken fitsHere with ⟨value, accepted, valueHolds⟩
  rcases takesNext value valueHolds others rest isMore isSuitable with
    ⟨result, acceptedNext, resultHolds⟩
  refine ⟨result, ?_, resultHolds⟩
  rw [List.append_assoc, bind_apply accepted, acceptedNext]

/-- A sequence whose first part takes one lexeme. -/
theorem cons {first : Parser α} {next : α → Parser β} {holdsNext : β → Prop}
    (takesFirst : Takes first [lexeme] (fun _ => True) holds)
    (takesNext : ∀ value, holds value → Takes (next value) more suitable holdsNext) :
    Takes (first >>= next) (lexeme :: more) suitable holdsNext :=
  takesFirst.bind takesNext fun _ _ => trivial

/-- A sequence whose first part takes nothing. -/
theorem nothing {first : Parser α} {next : α → Parser β} {holdsNext : β → Prop}
    (takesFirst : Takes first [] suitableFirst holds)
    (takesNext : ∀ value, holds value → Takes (next value) more suitable holdsNext)
    (fits : ∀ rest, suitable rest → suitableFirst (more ++ rest)) :
    Takes (first >>= next) more suitable holdsNext :=
  takesFirst.bind takesNext fits

theorem satisfy (passes : ∀ token : Token, token.lexeme = lexeme → test token = true) :
    Takes (Parser.satisfy test) [lexeme] (fun _ => True) fun token => token.lexeme = lexeme := by
  intro tokens rest same _
  rcases List.map_eq_singleton_iff.mp same with ⟨token, rfl, isLexeme⟩
  refine ⟨token, ?_, isLexeme⟩
  rw [List.singleton_append, Parser.satisfy, passes token isLexeme]
  rfl

theorem skip (passes : ∀ token : Token, token.lexeme = lexeme → test token = true) :
    Takes (Parser.skip test) [lexeme] (fun _ => True) fun _ => True :=
  (Takes.satisfy passes).cons fun _ _ => Takes.pure trivial

theorem demand {error : Token → Error}
    (passes : ∀ token : Token, token.lexeme = lexeme → test token = true) :
    Takes (Parser.demand test error) [lexeme] (fun _ => True) fun _ => True := by
  intro tokens rest same _
  rcases List.map_eq_singleton_iff.mp same with ⟨token, rfl, isLexeme⟩
  refine ⟨(), ?_, trivial⟩
  rw [List.singleton_append, Parser.demand, passes token isLexeme]
  rfl

theorem nextPosition :
    Takes Parser.nextPosition [] (StartsWith fun _ => True) fun _ => True := by
  intro tokens rest same isSuitable
  rw [List.map_eq_nil_iff.mp same]
  rcases exists_first isSuitable with ⟨first, others, rfl, _⟩
  exact ⟨first.position, rfl, trivial⟩

theorem newlines :
    Takes Parser.newlines [] (StartsWith fun lexeme => lexeme.kind ≠ .newline)
      fun _ => True := by
  intro tokens rest same isSuitable
  rw [List.map_eq_nil_iff.mp same]
  rcases exists_first isSuitable with ⟨first, others, rfl, notNewline⟩
  refine ⟨(), ?_, trivial⟩
  rw [Parser.newlines, List.nil_append, List.dropWhile_cons_of_neg]
  exact fun isNewline => notNewline (of_decide_eq_true isNewline)

theorem orRaise {parser : Parser α} (takes : Takes parser lexemes suitable holds)
    (error : Error) : Takes (parser.orRaise error) lexemes suitable holds := by
  intro tokens rest same isSuitable
  rcases takes tokens rest same isSuitable with ⟨value, accepted, valueHolds⟩
  refine ⟨value, ?_, valueHolds⟩
  rw [Parser.orRaise, accepted]

theorem attempt {parser : Parser α} (takes : Takes parser lexemes suitable holds) :
    Takes parser.attempt lexemes suitable holds := by
  intro tokens rest same isSuitable
  rcases takes tokens rest same isSuitable with ⟨value, accepted, valueHolds⟩
  exact ⟨value, attempt_apply accepted, valueHolds⟩

theorem map {parser : Parser α} {convert : α → β} {holdsNext : β → Prop}
    (takes : Takes parser lexemes suitable holds)
    (converts : ∀ value, holds value → holdsNext (convert value)) :
    Takes (parser >>= fun value => Pure.pure (convert value)) lexemes suitable holdsNext := by
  have takesBoth : Takes (parser >>= fun value => Pure.pure (convert value)) (lexemes ++ [])
      suitable holdsNext :=
    takes.bind (fun value valueHolds => Takes.pure (converts value valueHolds))
      fun _ isSuitable => isSuitable
  rwa [List.append_nil] at takesBoth

/-- The choice that takes the lexemes is made if the ones before it refuse them. -/
theorem firstOf (before : List (Parser α)) {choice : Parser α} {after : List (Parser α)}
    (takes : Takes choice lexemes suitable holds)
    (refuses : ∀ other ∈ before, Refuses other (Begins lexemes suitable)) :
    Takes (Parser.firstOf (before ++ choice :: after)) lexemes suitable holds := by
  intro tokens rest same isSuitable
  rcases takes tokens rest same isSuitable with ⟨value, accepted, valueHolds⟩
  have begins : Begins lexemes suitable ((tokens ++ rest).map Token.lexeme) :=
    ⟨rest.map Token.lexeme, by rw [List.map_append, same], isSuitable⟩
  exact ⟨value, firstOf_apply before accepted fun other member => refuses other member _ begins,
    valueHolds⟩

theorem hasKind (lexeme : Lexeme) (token : Token) (isLexeme : token.lexeme = lexeme) :
    decide (token.kind = lexeme.kind) = true :=
  decide_eq_true (congrArg Lexeme.kind isLexeme)

theorem wrapped {parser : Parser α} {opening closing : Lexeme}
    (takes : Takes parser lexemes (StartsWith (· = closing)) holds) :
    Takes (Parser.wrapped opening.kind closing.kind parser) (opening :: (lexemes ++ [closing]))
      (fun _ => True) holds := by
  apply Takes.attempt
  apply (Takes.skip (hasKind opening)).cons
  intro _ _
  apply takes.bind
  · intro value valueHolds
    apply (Takes.demand (hasKind closing)).cons
    intro _ _
    exact Takes.pure valueHolds
  · intro rest _
    rfl

/-- A wrapped value is refused if the value is. -/
theorem wrapped_refuses {parser : Parser α} (refuses : Refuses parser refused) (opening : Lexeme)
    (closing : Kind) :
    Refuses (Parser.wrapped opening.kind closing parser) (Begins [opening] refused) := by
  have takesOpening : Takes (Parser.skip fun token => token.kind = opening.kind) [opening] refused
      fun _ => True :=
    (Takes.skip (hasKind opening)).mono fun _ _ => trivial
  exact .attempt (takesOpening.fails fun _ _ => (refuses.bind _).fails)

end Takes

theorem dropWhile_newlines {breaks rest : List Token}
    (newlines : ∀ lexeme ∈ breaks.map Token.lexeme, lexeme.kind = .newline)
    (stops : StartsWith (fun lexeme => lexeme.kind ≠ .newline) (rest.map Token.lexeme)) :
    (breaks ++ rest).dropWhile (fun token => token.kind = .newline) = rest := by
  have allNewlines : ∀ token ∈ breaks, decide (token.kind = .newline) = true :=
    fun token member => decide_eq_true (newlines token.lexeme (List.mem_map_of_mem member))
  rcases exists_first stops with ⟨first, others, rfl, notNewline⟩
  rw [List.dropWhile_append_of_pos allNewlines, List.dropWhile_cons_of_neg]
  exact fun isNewline => notNewline (of_decide_eq_true isNewline)

/-- The lexemes between two items: a comma and newlines. -/
structure IsSeparator (separator : List Lexeme) : Prop where
  comma : StartsWith (fun lexeme => lexeme.kind = .comma) separator
  newlines : ∀ lexeme ∈ separator.tail, lexeme.kind = .newline

/-- An item is written with lexemes from which a parser reads its meaning. -/
structure Written {γ : Type} (item : Parser α) (suitable : List Lexeme → Prop) (view : α → γ)
    (lexemes : List Lexeme) (meaning : γ) : Prop where
  takes : Takes item lexemes suitable fun value => view value = meaning
  starts : StartsWith (fun lexeme => lexeme.kind ≠ .newline) lexemes

section Items

variable {ι γ : Type} {item : Parser α} {suitableItem closes : List Lexeme → Prop}
  {view : α → γ} {write : ι → List Lexeme} {meaning : ι → γ} {separator ending : List Lexeme}

/-- A separator is a comma and newlines, which are dropped up to what follows. -/
theorem IsSeparator.exists_comma (isSeparator : IsSeparator separator)
    {between rest : List Token} (isBetween : between.map Token.lexeme = separator)
    (starts : StartsWith (fun lexeme => lexeme.kind ≠ .newline) (rest.map Token.lexeme)) :
    ∃ comma breaks next others, between = comma :: breaks ∧ rest = next :: others ∧
      comma.kind = .comma ∧ dropNewlines (breaks ++ next :: others) = next :: others := by
  rcases isSeparator with ⟨startsWithComma, newlines⟩
  rw [← isBetween] at startsWithComma newlines
  rcases exists_first startsWithComma with ⟨comma, breaks, rfl, isComma⟩
  have dropped := dropWhile_newlines newlines starts
  rcases exists_first starts with ⟨next, others, rfl, _⟩
  exact ⟨comma, breaks, next, others, rfl, rfl, isComma, dropped⟩

section Separated

variable (isSeparator : IsSeparator separator) {between rest : List Token}
  (isBetween : between.map Token.lexeme = separator)
  (starts : StartsWith (fun lexeme => lexeme.kind ≠ .newline) (rest.map Token.lexeme))
include isSeparator isBetween starts

/-- A separator is read also if no item follows. -/
theorem moreItems_refused {bound : Nat} {resumed : List Token}
    (refused : item rest = .ok (.reject resumed)) :
    Parser.moreItems item (bound + 1) (between ++ rest) = .ok (.accept [] rest) := by
  rcases isSeparator.exists_comma isBetween starts with
    ⟨comma, breaks, next, others, rfl, rfl, isComma, dropped⟩
  have stops : nextItem item [] (comma :: (breaks ++ next :: others)) =
      .ok (.reject (next :: others)) := by
    rw [nextItem_comma isComma, dropped, bind_reject (offered_reject refused)]
  rw [← withItems_nil (Parser.moreItems _ _ _)]
  exact (repeats_moreItems item).rejected stops (Nat.succ_pos bound)

/-- After a separator an item is read, and then the further ones. -/
theorem moreItems_accepted {bound : Nat} {value : α} {values : List α} {more last : List Token}
    (accepted : item rest = .ok (.accept value more))
    (acceptedMore : Parser.moreItems item bound more = .ok (.accept values last)) :
    Parser.moreItems item (bound + 1) (between ++ rest) =
      .ok (.accept (value :: values) last) := by
  rcases isSeparator.exists_comma isBetween starts with
    ⟨comma, breaks, next, others, rfl, rfl, isComma, dropped⟩
  have goesOn : nextItem item [] (comma :: (breaks ++ next :: others)) =
      .ok (.accept [value] more) := by
    rw [nextItem_comma isComma, dropped, bind_apply (offered_accept accepted)]
    rfl
  rw [← withItems_nil (Parser.moreItems item (bound + 1) _)]
  refine ((repeats_moreItems item).accepted goesOn bound).trans ?_
  rw [acceptedMore]
  rfl

end Separated

/-- How the end of a list of items is laid out, with a separator before each item: what
stands after the last item, and what may follow an item and the list. -/
structure Layout (item : Parser α) (view : α → γ) (suitableItem closes : List Lexeme → Prop)
    (separator ending : List Lexeme) : Prop where
  isSeparator : IsSeparator separator
  fitsSeparator : ∀ rest, suitableItem (separator ++ rest)
  fitsEnding : ∀ rest, closes rest → suitableItem (ending ++ rest)
  takesEnding : ∀ bound, ending.length ≤ bound →
    Takes (Parser.moreItems item bound) ending closes fun values => values.map view = []

/-- A list with nothing after its last item. -/
theorem Layout.plain (isSeparator : IsSeparator separator)
    (fitsSeparator : ∀ rest, suitableItem (separator ++ rest))
    (fits : ∀ rest, closes rest → suitableItem rest)
    (noComma : ∀ rest, closes rest → StartsWith (fun lexeme => lexeme.kind ≠ .comma) rest) :
    Layout item view suitableItem closes separator [] := by
  refine ⟨isSeparator, fitsSeparator, fits, ?_⟩
  intro bound _ tokens rest same isClosed
  rw [List.map_eq_nil_iff.mp same, List.nil_append]
  rcases exists_first (noComma _ isClosed) with ⟨first, others, rfl, startsWithOther⟩
  have notComma : first.kind ≠ .comma := startsWithOther
  refine ⟨[], ?_, rfl⟩
  cases bound with
  | zero => rfl
  | succ bound =>
      rw [← withItems_nil (Parser.moreItems _ _ _)]
      exact (repeats_moreItems item).rejected (nextItem_other notComma) (Nat.succ_pos bound)

/-- A list with a separator also after its last item. -/
theorem Layout.closed (isSeparator : IsSeparator separator)
    (fitsSeparator : ∀ rest, suitableItem (separator ++ rest)) (refuses : Refuses item closes)
    (noNewline : ∀ rest, closes rest → StartsWith (fun lexeme => lexeme.kind ≠ .newline) rest) :
    Layout item view suitableItem closes separator separator := by
  refine ⟨isSeparator, fitsSeparator, fun rest _ => fitsSeparator rest, ?_⟩
  intro bound bounded tokens rest same isClosed
  have notEmpty := isSeparator.comma.length_pos
  cases bound with
  | zero => omega
  | succ bound =>
      refine ⟨[], ?_, rfl⟩
      exact moreItems_refused isSeparator same (noNewline _ isClosed) (refuses rest isClosed)

namespace Layout

variable (layout : Layout item view suitableItem closes separator ending)
include layout

/-- What stands after an item may follow it. -/
theorem fits (others : List ι) {rest : List Lexeme} (isClosed : closes rest) :
    suitableItem (others.flatMap (fun x => separator ++ write x) ++ ending ++ rest) := by
  cases others with
  | nil => exact layout.fitsEnding rest isClosed
  | cons next _ =>
      rw [List.flatMap_cons, List.append_assoc, List.append_assoc, List.append_assoc]
      exact layout.fitsSeparator _

/-- Further items, each after a separator. -/
theorem moreItems (items : List ι)
    (written : ∀ x ∈ items, Written item suitableItem view (write x) (meaning x)) {bound : Nat}
    (bounded : (items.flatMap (fun x => separator ++ write x) ++ ending).length ≤ bound) :
    Takes (Parser.moreItems item bound) (items.flatMap (fun x => separator ++ write x) ++ ending)
      closes fun values => values.map view = items.map meaning := by
  induction items generalizing bound with
  | nil => exact layout.takesEnding bound bounded
  | cons first others ih =>
      have writtenBoth := List.forall_mem_cons.mp written
      rw [List.flatMap_cons, List.append_assoc, List.append_assoc] at bounded ⊢
      intro tokens rest same isClosed
      rcases List.map_eq_append_iff.mp same with ⟨between, _, rfl, isBetween, sameItems⟩
      rcases List.map_eq_append_iff.mp sameItems with ⟨taken, later, rfl, isTaken, isLater⟩
      have fits : suitableItem ((later ++ rest).map Token.lexeme) := by
        rw [List.map_append, isLater]
        exact layout.fits others isClosed
      have starts : StartsWith (fun lexeme => lexeme.kind ≠ .newline)
          ((taken ++ (later ++ rest)).map Token.lexeme) := by
        rw [List.map_append, isTaken]
        exact writtenBoth.1.starts.append _
      rcases writtenBoth.1.takes taken (later ++ rest) isTaken fits with ⟨value, accepted, means⟩
      have notEmpty := layout.isSeparator.comma.length_pos
      rw [List.length_append, List.length_append] at bounded
      cases bound with
      | zero => omega
      | succ bound =>
          have stillBounded : (others.flatMap (fun x => separator ++ write x) ++ ending).length ≤
              bound := by
            omega
          rcases ih writtenBoth.2 stillBounded later rest isLater isClosed with
            ⟨values, acceptedMore, meanMore⟩
          refine ⟨value :: values, ?_, ?_⟩
          · rw [List.append_assoc, List.append_assoc]
            exact moreItems_accepted layout.isSeparator isBetween starts accepted acceptedMore
          · simp only [List.map_cons, means, meanMore]

/-- Newlines, a first item, and further items after separators. -/
theorem commaSeparated {breaks : List Lexeme}
    (newlines : ∀ lexeme ∈ breaks, lexeme.kind = .newline) (first : ι) (others : List ι)
    (written : ∀ x ∈ first :: others, Written item suitableItem view (write x) (meaning x)) :
    Takes (Parser.commaSeparated item)
      (breaks ++ (write first ++ (others.flatMap (fun x => separator ++ write x) ++ ending)))
      closes fun values => values.map view = (first :: others).map meaning := by
  have writtenBoth := List.forall_mem_cons.mp written
  intro tokens rest same isClosed
  rcases List.map_eq_append_iff.mp same with ⟨skipped, _, rfl, isSkipped, sameItems⟩
  rcases List.map_eq_append_iff.mp sameItems with ⟨taken, later, rfl, isTaken, isLater⟩
  rw [← isSkipped] at newlines
  have fits : suitableItem ((later ++ rest).map Token.lexeme) := by
    rw [List.map_append, isLater]
    exact layout.fits others isClosed
  have starts : StartsWith (fun lexeme => lexeme.kind ≠ .newline)
      ((taken ++ (later ++ rest)).map Token.lexeme) := by
    rw [List.map_append, isTaken]
    exact writtenBoth.1.starts.append _
  have bounded : (others.flatMap (fun x => separator ++ write x) ++ ending).length ≤
      (later ++ rest).length := by
    rw [← isLater, List.length_map, List.length_append]
    omega
  rcases writtenBoth.1.takes taken (later ++ rest) isTaken fits with ⟨value, accepted, means⟩
  rcases layout.moreItems others writtenBoth.2 bounded later rest isLater isClosed with
    ⟨values, acceptedMore, meanMore⟩
  refine ⟨value :: values, ?_, ?_⟩
  · rw [List.append_assoc, List.append_assoc, Parser.commaSeparated,
      dropWhile_newlines newlines starts, accepted]
    simp only [acceptedMore]
  · simp only [List.map_cons, means, meanMore]

end Layout

/-- A list without items. -/
theorem takes_commaSeparated_nil (refuses : Refuses item closes)
    (noNewline : ∀ rest, closes rest → StartsWith (fun lexeme => lexeme.kind ≠ .newline) rest) :
    Takes (Parser.commaSeparated item) [] closes fun values => values.map view = [] := by
  intro tokens rest same isClosed
  rw [List.map_eq_nil_iff.mp same, List.nil_append]
  have dropped : rest.dropWhile (fun token => token.kind = .newline) = rest :=
    @dropWhile_newlines [] rest nofun (noNewline _ isClosed)
  refine ⟨[], ?_, rfl⟩
  rw [Parser.commaSeparated, dropped, refuses rest isClosed]

end Items

/-! ## Operators and arguments -/

/-- A chain ends where no operator follows. -/
theorem moreOperands_stops {isOperator : Token → Bool} {operand : Parser α}
    {join : Token → α → α → α} {rest : List Token}
    (noOperator : ∀ token ∈ rest.head?, isOperator token = false) (bound : Nat) (left : α) :
    Parser.moreOperands isOperator operand join bound left rest = .ok (.accept left rest) := by
  have repeats := repeats_moreOperands isOperator operand join
  cases rest with
  | nil => rw [repeats.atEnd]
  | cons first others =>
      cases bound with
      | zero => rw [repeats.spent]
      | succ bound =>
          rw [repeats.rejected (nextOperand_other (noOperator first rfl)) (Nat.succ_pos bound)]

/-- After an operator the next operand is joined. -/
theorem moreOperands_operator {isOperator : Token → Bool} {operand : Parser α}
    {join : Token → α → α → α} {operator : Token} {tokens rest : List Token} {right : α}
    (isOne : isOperator operator = true) (notEnd : tokens ≠ [])
    (accepted : operand tokens = .ok (.accept right rest)) (bound : Nat) (left : α) :
    Parser.moreOperands isOperator operand join (bound + 1) left (operator :: tokens) =
      Parser.moreOperands isOperator operand join bound (join operator left right) rest := by
  obtain ⟨next, others, rfl⟩ := List.exists_cons_of_ne_nil notEnd
  exact (repeats_moreOperands isOperator operand join).accepted
    (nextOperand_accept isOne (offered_accept accepted)) bound

theorem moreOperands_error {isOperator : Token → Bool} {operand : Parser α}
    {join : Token → α → α → α} {operator : Token} {tokens : List Token} {error : Error}
    (isOne : isOperator operator = true) (notEnd : tokens ≠ [])
    (raised : operand tokens = .error error) (bound : Nat) (left : α) :
    Parser.moreOperands isOperator operand join (bound + 1) left (operator :: tokens) =
      .error error := by
  obtain ⟨next, others, rfl⟩ := List.exists_cons_of_ne_nil notEnd
  rw [(repeats_moreOperands isOperator operand join).turn,
    nextOperand_error isOne (offered_error raised)]
  rfl

theorem chainLeft_apply {isOperator : Token → Bool} {operand : Parser α}
    {join : Token → α → α → α} {tokens between rest : List Token} {first value : α}
    (accepted : operand tokens = .ok (.accept first between))
    (joined : Parser.moreOperands isOperator operand join between.length first between =
      .ok (.accept value rest)) :
    Parser.chainLeft isOperator operand join tokens = .ok (.accept value rest) :=
  attempt_apply ((bind_apply accepted).trans joined)

section Chains

variable {isOperator : Token → Bool} {operand : Parser α} {join : Token → α → α → α}
  {follow : Lexeme → Prop}

/-- An operand alone. -/
theorem Takes.chainLeft_single (takes : Takes operand lexemes (StartsWith follow) holds)
    (noOperator : ∀ token : Token, follow token.lexeme → isOperator token = false) :
    Takes (Parser.chainLeft isOperator operand join) lexemes (StartsWith follow) holds := by
  intro tokens rest same isSuitable
  rcases takes tokens rest same isSuitable with ⟨value, accepted, valueHolds⟩
  refine ⟨value, chainLeft_apply accepted ?_, valueHolds⟩
  apply moreOperands_stops
  rcases exists_first isSuitable with ⟨first, others, rfl, follows⟩
  rintro token ⟨⟩
  exact noOperator first follows

/-- Two operands with an operator between them. -/
theorem Takes.chainLeft_pair {left right : List Lexeme} {operator : Lexeme}
    {suitableLeft : List Lexeme → Prop} {holdsLeft holdsRight : α → Prop}
    (takesLeft : Takes operand left suitableLeft holdsLeft)
    (takesRight : Takes operand right (StartsWith follow) holdsRight)
    (fits : ∀ rest, suitableLeft (operator :: rest))
    (isOne : ∀ token : Token, token.lexeme = operator → isOperator token = true)
    (noOperator : ∀ token : Token, follow token.lexeme → isOperator token = false)
    (joins : ∀ token first second, token.lexeme = operator → holdsLeft first →
      holdsRight second → holds (join token first second)) :
    Takes (Parser.chainLeft isOperator operand join) (left ++ operator :: right)
      (StartsWith follow) holds := by
  intro tokens rest same isSuitable
  rcases List.map_eq_append_iff.mp same with ⟨leftTokens, _, rfl, isLeft, sameRight⟩
  rcases List.map_eq_cons_iff.mp sameRight with ⟨token, rightTokens, rfl, isToken, isRight⟩
  have fitsHere : suitableLeft ((token :: (rightTokens ++ rest)).map Token.lexeme) := by
    rw [List.map_cons, isToken]
    exact fits _
  rcases takesLeft leftTokens _ isLeft fitsHere with ⟨first, acceptedLeft, firstHolds⟩
  rcases takesRight rightTokens rest isRight isSuitable with ⟨second, acceptedRight, secondHolds⟩
  have notEnd : rightTokens ++ rest ≠ [] := by
    rcases exists_first isSuitable with ⟨last, others, rfl, _⟩
    simp
  have stops : ∀ last ∈ rest.head?, isOperator last = false := by
    rcases exists_first isSuitable with ⟨last, others, rfl, follows⟩
    rintro _ ⟨⟩
    exact noOperator last follows
  refine ⟨join token first second, ?_, joins token first second isToken firstHolds secondHolds⟩
  rw [List.append_assoc, List.cons_append]
  apply chainLeft_apply acceptedLeft
  rw [List.length_cons, moreOperands_operator (isOne token isToken) notEnd acceptedRight]
  exact moreOperands_stops stops _ _

end Chains

section Arguments

variable {head : Parser α} {argument : Parser β} {apply : Position → α → β → α}
  {headLexemes : List Lexeme} {follow : Lexeme → Prop} {holdsHead : α → Prop}

/-- A head that no argument follows is refused. -/
theorem Takes.applied_refuses (takes : Takes head headLexemes (StartsWith follow) holdsHead)
    (refuses : Refuses argument (StartsWith follow)) :
    Refuses (Parser.applied head argument apply) (Begins headLexemes (StartsWith follow)) := by
  apply Refuses.attempt
  apply takes.fails
  intro value _ tokens isSuitable
  rcases exists_first isSuitable with ⟨first, others, rfl, _⟩
  exact ⟨_, (refuses.bind _) (first :: others) isSuitable⟩

/-- A head with one argument. -/
theorem Takes.applied {argumentLexemes : List Lexeme} {suitableHead : List Lexeme → Prop}
    {holdsArgument : β → Prop} (takesHead : Takes head headLexemes suitableHead holdsHead)
    (takesArgument : Takes argument argumentLexemes (fun _ => True) holdsArgument)
    (fits : ∀ rest, suitableHead (argumentLexemes ++ rest))
    (refuses : Refuses argument (StartsWith follow))
    (applies : ∀ position first given, holdsHead first → holdsArgument given →
      holds (apply position first given)) :
    Takes (Parser.applied head argument apply) (headLexemes ++ argumentLexemes)
      (StartsWith follow) holds := by
  apply Takes.attempt
  apply takesHead.bind
  · intro first firstHolds tokens rest same isSuitable
    rcases takesArgument tokens rest same trivial with ⟨given, accepted, givenHolds⟩
    rcases exists_first isSuitable with ⟨next, others, rfl, follows⟩
    have nonempty : ∃ position, Parser.nextPosition (tokens ++ next :: others) =
        .ok (.accept position (tokens ++ next :: others)) := by
      cases tokens with
      | nil => exact ⟨_, rfl⟩
      | cons token _ => exact ⟨_, rfl⟩
    rcases nonempty with ⟨position, isPosition⟩
    refine ⟨apply position first given, ?_, applies position first given firstHolds givenHolds⟩
    refine (bind_apply isPosition).trans ((bind_apply accepted).trans ?_)
    have stops : nextArgument argument apply (first, position, given) (next :: others) =
        .ok (.reject (next :: others)) :=
      (bind_apply rfl).trans (bind_reject (refuses (next :: others) isSuitable))
    exact (repeats_moreArguments argument apply).rejected stops (by simp)
  · intro rest _
    exact fits rest

end Arguments

section Lines

variable {ι γ : Type} {line : Parser α} {view : α → γ} {write : ι → List Lexeme}
  {meaning : ι → γ} {newline : Lexeme} {closes : List Lexeme → Prop}

theorem skips_breaks (skips : ∀ (token : Token) tokens, token.kind = .newline →
      line (token :: tokens) = line tokens) {breaks : List Token}
    (newlines : ∀ token ∈ breaks, token.kind = .newline) (tokens : List Token) :
    line (breaks ++ tokens) = line tokens := by
  induction breaks with
  | nil => rfl
  | cons first others ih =>
      have newlinesBoth := List.forall_mem_cons.mp newlines
      rw [List.cons_append, skips first _ newlinesBoth.1, ih newlinesBoth.2]

theorem manyUpTo_accept {parser : Parser α} {tokens more rest : List Token} {value : α}
    {values : List α} {bound : Nat} (notEnd : tokens ≠ [])
    (accepted : parser tokens = .ok (.accept value more))
    (acceptedMore : Parser.manyUpTo parser bound more = .ok (.accept values rest)) :
    Parser.manyUpTo parser (bound + 1) tokens = .ok (.accept (value :: values) rest) := by
  obtain ⟨token, others, rfl⟩ := List.exists_cons_of_ne_nil notEnd
  have goesOn : nextValue parser [] (token :: others) = .ok (.accept [value] more) :=
    bind_apply accepted
  rw [← withItems_nil (Parser.manyUpTo parser (bound + 1) _)]
  refine ((repeats_manyUpTo parser).accepted goesOn bound).trans ?_
  rw [acceptedMore]
  rfl

/-- Values that are written with a newline after each, and read by a parser that skips
newlines before a value. -/
theorem takes_many (skips : ∀ (token : Token) tokens, token.kind = .newline →
      line (token :: tokens) = line tokens)
    (isNewline : newline.kind = .newline) (refuses : Refuses line closes) (items : List ι)
    (written : ∀ x ∈ items,
      Written line (StartsWith (· = newline)) view (write x) (meaning x)) :
    Takes (Parser.many line) (items.flatMap fun x => write x ++ [newline]) closes
      fun values => values.map view = items.map meaning := by
  -- The newline after a value is skipped when the next one is read.
  have all : ∀ (bound : Nat) (breaks tokens rest : List Token),
      (∀ token ∈ breaks, token.kind = .newline) →
      tokens.map Token.lexeme = items.flatMap (fun x => write x ++ [newline]) →
      closes (rest.map Token.lexeme) → (breaks ++ (tokens ++ rest)).length ≤ bound →
      ∃ values, Parser.manyUpTo line bound (breaks ++ (tokens ++ rest)) =
        .ok (.accept values rest) ∧ values.map view = items.map meaning := by
    induction items with
    | nil =>
        intro bound breaks tokens rest newlines same isClosed bounded
        rw [List.map_eq_nil_iff.mp same, List.nil_append] at bounded ⊢
        refine ⟨[], ?_, rfl⟩
        have rejected : line (breaks ++ rest) = .ok (.reject rest) := by
          rw [skips_breaks skips newlines, refuses rest isClosed]
        rw [← withItems_nil (Parser.manyUpTo _ _ _)]
        cases remaining : breaks ++ rest with
        | nil =>
            rw [(List.append_eq_nil_iff.mp remaining).2]
            exact (repeats_manyUpTo line).atEnd bound []
        | cons next _ =>
            rw [remaining] at bounded rejected
            exact (repeats_manyUpTo line).rejected (bind_reject rejected)
              (Nat.lt_of_lt_of_le (Nat.succ_pos _) bounded)
    | cons first others ih =>
        intro bound breaks tokens rest newlines same isClosed bounded
        have writtenBoth := List.forall_mem_cons.mp written
        rw [List.flatMap_cons, List.append_assoc] at same
        rcases List.map_eq_append_iff.mp same with ⟨taken, _, rfl, isTaken, sameLater⟩
        rcases List.map_eq_cons_iff.mp sameLater with ⟨last, later, rfl, isLast, isLater⟩
        have lastNewline : ∀ token ∈ [last], token.kind = .newline := by
          intro token member
          rw [List.mem_singleton.mp member, ← isNewline, ← isLast]
          rfl
        have notEmpty : 0 < taken.length := by
          rw [← List.length_map Token.lexeme, isTaken]
          exact writtenBoth.1.starts.length_pos
        rw [List.append_assoc] at bounded ⊢
        rcases writtenBoth.1.takes taken (last :: (later ++ rest)) isTaken isLast with
          ⟨value, accepted, means⟩
        rw [← skips_breaks skips newlines] at accepted
        simp only [List.length_append, List.length_cons] at bounded
        cases bound with
        | zero => omega
        | succ bound =>
            have stillBounded : ([last] ++ (later ++ rest)).length ≤ bound := by
              simp only [List.length_append, List.length_cons, List.length_nil]
              omega
            rcases ih writtenBoth.2 bound [last] later rest lastNewline isLater isClosed
              stillBounded with ⟨values, acceptedMore, meanMore⟩
            refine ⟨value :: values, manyUpTo_accept (by simp) accepted acceptedMore, ?_⟩
            simp only [List.map_cons, means, meanMore]
  intro tokens rest same isClosed
  exact all _ [] tokens rest nofun same isClosed (Nat.le_refl _)

end Lines

end StackScript.Grammar
