import StackScript.Proofs.Machine.Basic
import StackScript.Proofs.Shortening.Points

/-!
# Steps of shortened code

A run of stack code and a run of the shortened code are in states that correspond: the
points of the code are renumbered, and bindings that nothing reads may be missing.  One
step of the code is one step of the shortened code, except that a removed `push` and
its `drop` take no step there (`step_remains`, `step_removed`).
-/

namespace StackScript.Machine

open StackScript.Code (Entry Instruction newPoint? IsUsed RemovedAt RemainsAt usedSymbols
  dropInstruction instructionsOf place? optimize)
open StackScript.Document (Table)

/-- A point of the code and its new number. -/
abbrev SamePoint (entries : List Entry) (point newPoint : Nat) : Prop :=
  newPoint? entries point = some newPoint

/-- Values that are the same up to the renumbering of the code. -/
abbrev SameValue (entries : List Entry) : Value → Value → Prop :=
  Value.Related (SamePoint entries)

structure SameFrame (entries : List Entry) (frame frame' : Frame) : Prop where
  point : SamePoint entries frame.point frame'.point
  environment : frame'.environment = frame.environment

/-- Scopes that agree on every name that is still used. -/
def SameScope (entries : List Entry) (scope scope' : Scope) : Prop :=
  ∀ name, IsUsed entries name →
    Option.Rel (SameValue entries) (scope.get? name) (scope'.get? name)

inductive SameEvent (entries : List Entry) : Event → Event → Prop where
  | entered {entry entry' : Nat} (argumentCount : Nat) (same : SamePoint entries entry entry') :
      SameEvent entries (.entered entry argumentCount) (.entered entry' argumentCount)
  | invoked (builtin : Builtin) (arguments : List Scalar) (output : String) :
      SameEvent entries (.invoked builtin arguments output) (.invoked builtin arguments output)

/-- A state of the code and a state of the shortened code that corresponds to it. -/
structure Corresponds (entries : List Entry) (state state' : State) : Prop where
  point : SamePoint entries state.point state'.point
  environment : state'.environment = state.environment
  frames : List.Forall₂ (SameFrame entries) state.frames state'.frames
  stack : List.Forall₂ (SameValue entries) state.stack state'.stack
  scopes : List.Forall₂ (SameScope entries) state.scopes state'.scopes
  trace : List.Forall₂ (SameEvent entries) state.trace state'.trace

section Parts

variable {entries : List Entry}

/-- In scopes that agree a used name has the same value. -/
theorem resolve_related {name : String} (used : IsUsed entries name)
    {scopes scopes' : List Scope} (same : List.Forall₂ (SameScope entries) scopes scopes')
    (environment : List Nat) :
    Option.Rel (SameValue entries) (resolve name environment scopes)
      (resolve name environment scopes') := by
  induction environment with
  | nil => exact .none
  | cons index rest ih =>
      have here : Option.Rel (SameValue entries) (scopes[index]?.bind (Ledger.get? name))
          (scopes'[index]?.bind (Ledger.get? name)) :=
        optionRel_bind (getElem?_related same index) fun _ _ agree => agree name used
      rw [resolve, resolve, List.findSome?_cons, List.findSome?_cons]
      rcases optionRel_cases here with ⟨missing, missing'⟩ | ⟨value, value', found, found', values⟩
      · rw [missing, missing']
        exact ih
      · rw [found, found']
        exact .some values

theorem readName_related (runtime : Runtime) {name : String} (used : IsUsed entries name)
    {scopes scopes' : List Scope} (same : List.Forall₂ (SameScope entries) scopes scopes')
    (environment : List Nat) :
    Option.Rel (SameValue entries) (readName runtime name environment scopes)
      (readName runtime name environment scopes') := by
  unfold readName
  cases runtime.predefined name with
  | none => exact resolve_related used same environment
  | some content => exact .some (.scalar content)

/-- Scopes still agree when a name has been bound in both. -/
theorem SameScope.cons {scope scope' : Scope} {value value' : Value}
    (same : SameScope entries scope scope') (name : String)
    (values : SameValue entries value value') :
    SameScope entries ((name, value) :: scope) ((name, value') :: scope') := by
  intro wanted used
  by_cases isName : name = wanted
  · simp only [Ledger.get?, isName, if_true]
    exact .some values
  · simp only [Ledger.get?, isName, if_false]
    exact same wanted used

/-- Scopes still agree when an unused name has been bound in one of them. -/
theorem SameScope.cons_unused {scope scope' : Scope} (same : SameScope entries scope scope')
    {name : String} (unused : ¬ IsUsed entries name) (value : Value) :
    SameScope entries ((name, value) :: scope) scope' := by
  intro wanted used
  have differs : name ≠ wanted := by
    rintro rfl
    exact unused used
  simp only [Ledger.get?, differs, if_false]
  exact same wanted used

theorem canBind_related (runtime : Runtime) {name : String} (used : IsUsed entries name)
    {scope scope' : Scope} (same : SameScope entries scope scope') :
    canBind runtime name scope = canBind runtime name scope' := by
  unfold canBind
  rcases optionRel_cases (same name used) with ⟨missing, missing'⟩ | ⟨_, _, found, found', _⟩
  · rw [missing, missing']
  · rw [found, found']
    rfl

/-- A used name can be bound in both runs or in none. -/
theorem bindName_related (runtime : Runtime) {name : String} (used : IsUsed entries name)
    {value value' : Value} (values : SameValue entries value value')
    {scopes scopes' : List Scope} (same : List.Forall₂ (SameScope entries) scopes scopes')
    (environment : List Nat) :
    Option.Rel (List.Forall₂ (SameScope entries))
      (bindName runtime name value environment scopes)
      (bindName runtime name value' environment scopes') := by
  cases environment with
  | nil => exact .none
  | cons index rest =>
      unfold bindName
      rcases optionRel_cases (getElem?_related same index) with
        ⟨missing, missing'⟩ | ⟨scope, scope', found, found', agree⟩
      · simp only [missing, missing']
        exact .none
      · simp only [found, found', canBind_related runtime used agree]
        split
        · exact .some (set_related same index (agree.cons name values))
        · exact .none

/-- The binding of an unused name is not missed. -/
theorem bindName_unused (runtime : Runtime) {name : String} (unused : ¬ IsUsed entries name)
    {value : Value} {scopes scopes' after : List Scope}
    (same : List.Forall₂ (SameScope entries) scopes scopes') {environment : List Nat}
    (bound : bindName runtime name value environment scopes = some after) :
    List.Forall₂ (SameScope entries) after scopes' := by
  cases environment with
  | nil => cases bound
  | cons index rest =>
      unfold bindName at bound
      rcases optionRel_cases (getElem?_related same index) with
        ⟨missing, _⟩ | ⟨scope, scope', found, found', agree⟩
      · simp only [missing] at bound
        cases bound
      · simp only [found] at bound
        split at bound
        · cases bound
          obtain ⟨inside, rfl⟩ := List.getElem?_eq_some_iff.mp found'
          rw [← List.set_getElem_self inside]
          exact set_related same index (agree.cons_unused unused value)
        · cases bound

theorem scalar?_related {value value' : Value} (same : SameValue entries value value') :
    value.scalar? = value'.scalar? := by
  cases same with
  | scalar content => rfl
  | closure environment _ => rfl
  | compound _ => rfl

/-- The same scalars are taken from stacks that correspond. -/
theorem takeScalars_related (count : Nat) {stack stack' : List Value}
    (same : List.Forall₂ (SameValue entries) stack stack') :
    Option.Rel (fun taken taken' => taken.1 = taken'.1 ∧
      List.Forall₂ (SameValue entries) taken.2 taken'.2)
      (takeScalars count stack) (takeScalars count stack') := by
  induction count generalizing stack stack' with
  | zero => exact .some ⟨rfl, same⟩
  | succ count ih =>
      cases same with
      | nil => exact .none
      | cons first rest =>
          rename_i value value' stack stack'
          rw [takeScalars, takeScalars, scalar?_related first]
          cases value'.scalar? with
          | none => exact .none
          | some content =>
              simp only [Option.bind_eq_bind, Option.bind_some]
              refine optionRel_bind (ih rest) fun taken taken' both => ?_
              exact .some ⟨by rw [both.1], both.2⟩

end Parts

/-! ## Corresponding actions -/

/-- Actions that are the same up to the renumbering of the code, and that read and bind
only used names. -/
inductive SameAction (entries : List Entry) : Action → Action → Prop where
  | load (content : Scalar) : SameAction entries (.load content) (.load content)
  | read {name : String} (used : IsUsed entries name) :
      SameAction entries (.read name) (.read name)
  | bind {name : String} (used : IsUsed entries name) :
      SameAction entries (.bind name) (.bind name)
  | discard : SameAction entries .discard .discard
  | capture {entry entry' : Nat} (same : SamePoint entries entry entry') :
      SameAction entries (.capture entry) (.capture entry')
  | call (argumentCount : Nat) : SameAction entries (.call argumentCount) (.call argumentCount)
  | jump {target target' : Nat} (same : SamePoint entries target target') :
      SameAction entries (.jump target) (.jump target')
  | jumpIfFalse {target target' : Nat} (same : SamePoint entries target target') :
      SameAction entries (.jumpIfFalse target) (.jumpIfFalse target')
  | giveBack : SameAction entries .giveBack .giveBack
  | operate (opcode : Code.Opcode) (argumentCount : Nat) :
      SameAction entries (.operate opcode argumentCount) (.operate opcode argumentCount)
  | extend (instruction : Instruction) :
      SameAction entries (.extend instruction) (.extend instruction)

section Actions

variable {entries : List Entry} {runtime : Runtime} {state state' : State}

theorem Corresponds.next (same : Corresponds entries state state')
    (follows : SamePoint entries (state.point + 1) (state'.point + 1))
    {stack stack' : List Value} (sameStacks : List.Forall₂ (SameValue entries) stack stack') :
    Corresponds entries (state.next stack) (state'.next stack') :=
  ⟨follows, same.environment, same.frames, sameStacks, same.scopes, same.trace⟩

theorem trace_append {trace trace' : List Event} {event event' : Event}
    (traces : List.Forall₂ (SameEvent entries) trace trace')
    (events : SameEvent entries event event') :
    List.Forall₂ (SameEvent entries) (trace ++ [event]) (trace' ++ [event']) :=
  List.rel_append traces (.cons events .nil)

theorem callValue_related (same : Corresponds entries state state')
    (follows : SamePoint entries (state.point + 1) (state'.point + 1)) (argumentCount : Nat) :
    Option.Rel (Corresponds entries) (callValue runtime argumentCount state)
      (callValue runtime argumentCount state') := by
  have sameStacks := same.stack
  unfold callValue
  generalize state.stack = stack at sameStacks
  generalize state'.stack = stack' at sameStacks
  cases sameStacks with
  | nil => exact .none
  | cons first rest =>
      cases first with
      | compound _ => exact .none
      | closure environment entryPoints =>
          simp only []
          split
          · refine .some ⟨entryPoints, ?_, ?_, rest, ?_, ?_⟩
            · rw [same.scopes.length_eq]
            · exact .cons ⟨follows, same.environment⟩ same.frames
            · exact List.rel_append same.scopes (.cons (fun _ _ => .none) .nil)
            · exact trace_append same.trace (.entered argumentCount entryPoints)
          · exact .none
      | scalar content =>
          cases content with
          | builtin builtin =>
              refine optionRel_bind (takeScalars_related argumentCount rest) ?_
              rintro ⟨arguments, left⟩ ⟨_, left'⟩ ⟨rfl, lefts⟩
              simp only [Option.bind_eq_bind]
              cases runtime.invoke builtin arguments with
              | none => exact .none
              | some outcome =>
                  have nexts := same.next follows (.cons (.scalar outcome.1) lefts)
                  exact .some ⟨nexts.point, nexts.environment, nexts.frames, nexts.stack,
                    nexts.scopes, trace_append same.trace (.invoked builtin arguments outcome.2)⟩
          | boolean value => exact .none
          | integer value => exact .none
          | text content => exact .none

/-- Actions that are the same lead from corresponding states to corresponding states, or
they fail in both. -/
theorem act_related (same : Corresponds entries state state')
    (follows : SamePoint entries (state.point + 1) (state'.point + 1))
    {action action' : Action} (actions : SameAction entries action action') :
    Option.Rel (Corresponds entries) (act runtime state action) (act runtime state' action') := by
  cases actions with
  | load content => exact .some (same.next follows (.cons (.scalar content) same.stack))
  | read used =>
      refine optionRel_bind ?_ fun _ _ values => .some (same.next follows (.cons values same.stack))
      rw [same.environment]
      exact readName_related runtime used same.scopes state.environment
  | bind used =>
      have sameStacks := same.stack
      unfold act
      generalize state.stack = stack at sameStacks
      generalize state'.stack = stack' at sameStacks
      cases sameStacks with
      | nil => exact .none
      | cons first rest =>
          have nexts := same.next follows rest
          simp only [same.environment]
          refine optionRel_bind
            (bindName_related runtime used first same.scopes state.environment) ?_
          intro scopes scopes' agree
          exact .some ⟨nexts.point, nexts.environment, nexts.frames, nexts.stack, agree,
            nexts.trace⟩
  | discard =>
      have sameStacks := same.stack
      unfold act
      generalize state.stack = stack at sameStacks
      generalize state'.stack = stack' at sameStacks
      cases sameStacks with
      | nil => exact .none
      | cons first rest => exact .some (same.next follows rest)
  | capture entryPoints =>
      refine .some (same.next follows (.cons ?_ same.stack))
      rw [same.environment]
      exact .closure state.environment entryPoints
  | call argumentCount => exact callValue_related same follows argumentCount
  | jump targets =>
      exact .some ⟨targets, same.environment, same.frames, same.stack, same.scopes, same.trace⟩
  | jumpIfFalse targets =>
      have sameStacks := same.stack
      unfold act
      generalize state.stack = stack at sameStacks
      generalize state'.stack = stack' at sameStacks
      cases sameStacks with
      | nil => exact .none
      | cons first rest =>
          cases first with
          | closure environment _ => exact .none
          | compound _ => exact .none
          | scalar content =>
              cases content with
              | boolean value =>
                  cases value with
                  | true => exact .some (same.next follows rest)
                  | false =>
                      exact .some
                        ⟨targets, same.environment, same.frames, rest, same.scopes, same.trace⟩
              | integer value => exact .none
              | text content => exact .none
              | builtin builtin => exact .none
  | giveBack =>
      have frames := same.frames
      unfold act
      generalize state.frames = given at frames
      generalize state'.frames = given' at frames
      cases frames with
      | nil => exact .none
      | cons first rest =>
          exact .some ⟨first.point, first.environment, rest, same.stack, same.scopes, same.trace⟩
  | operate opcode argumentCount =>
      refine optionRel_bind (takeScalars_related argumentCount same.stack) ?_
      rintro ⟨arguments, left⟩ ⟨_, left'⟩ ⟨rfl, lefts⟩
      simp only [Option.bind_eq_bind]
      cases runtime.operate opcode arguments with
      | none => exact .none
      | some result => exact .some (same.next follows (.cons (.scalar result) lefts))
  | extend instruction =>
      refine optionRel_bind (runtime.extend_related _ instruction _ _ same.stack) ?_
      intro stack stack' sameStacks
      exact .some (same.next follows sameStacks)

end Actions

section Steps

variable {entries : List Entry} {runtime : Runtime} {state state' : State}

theorem eq_of_symbol? {argument : Code.Argument} {name : String}
    (named : symbol? argument = some name) : argument = Code.symbolArgument name := by
  rcases Option.bind_eq_some_iff.mp named with ⟨content, isText, isName⟩
  cases argument with
  | text given =>
      cases isText
      rw [Code.eq_of_symbolName? isName, Code.symbolArgument]
  | nothing => cases isText
  | integer value => cases isText

/-- A label in an argument leads to points that correspond. -/
theorem label_related (entries : List Entry) (argument : Code.Argument) :
    Option.Rel (SamePoint entries)
      ((text? argument).bind ((Table.ofCode entries).labels.get? ·))
      ((text? argument).bind ((Table.ofCode (optimize entries)).labels.get? ·)) := by
  cases text? argument with
  | none => exact .none
  | some name =>
      rw [Option.bind_some, Option.bind_some, Document.get?_ofCode, Document.get?_ofCode]
      exact Code.optimize_place name entries

/-- An instruction that remains is the same action in both codes. -/
theorem decode_related {content : Instruction}
    (remains : content ∈ instructionsOf (Code.removePushDrop entries))
    (used : content.opcode = .pop → content.argument ∈ usedSymbols entries) :
    Option.Rel (SameAction entries) (decode runtime (Table.ofCode entries).labels content)
      (decode runtime (Table.ofCode (optimize entries)).labels content) := by
  rcases content with ⟨opcode, argument⟩
  cases opcode with
  | push =>
      refine optionRel_map_self fun name named => .read ?_
      rcases Option.bind_eq_some_iff.mp named with ⟨given, isText, isName⟩
      cases argument with
      | text content =>
          cases isText
          exact Code.isUsed_of_push remains isName
      | nothing => cases isText
      | integer value => cases isText
  | pop =>
      refine optionRel_map_self fun name named => .bind ?_
      rw [IsUsed, ← eq_of_symbol? named]
      exact used rfl
  | drop => exact .some .discard
  | pushInteger => exact optionRel_map_self fun content _ => .load content
  | pushText => exact optionRel_map_self fun content _ => .load content
  | close => exact optionRel_map (label_related entries argument) fun _ _ same => .capture same
  | call => exact optionRel_map_self fun argumentCount _ => .call argumentCount
  | jump => exact optionRel_map (label_related entries argument) fun _ _ same => .jump same
  | jumpIfFalse =>
      exact optionRel_map (label_related entries argument) fun _ _ same => .jumpIfFalse same
  | returnValue => exact .some .giveBack
  | halt => exact .none
  | pushSymbol | list | record | other _ => exact .some (.extend _)
  | add | subtract | multiply | integerDivide | modulo | negate | eq | neq | lt | lte | gt | gte =>
      exact optionRel_map_self fun argumentCount _ => .operate _ argumentCount

theorem step_eq {table : Table} {instruction : Instruction}
    (found : table.instructions[state.point]? = some instruction) :
    step runtime table state = (decode runtime table.labels instruction).bind
      (act runtime state) := by
  rw [step, found]
  rfl

/-- A binding that has become a `drop` is not missed. -/
theorem act_unused_bind (same : Corresponds entries state state')
    (follows : SamePoint entries (state.point + 1) (state'.point + 1)) {name : String}
    (unused : ¬ IsUsed entries name) {next : State}
    (bound : act runtime state (.bind name) = some next) :
    ∃ next', act runtime state' .discard = some next' ∧ Corresponds entries next next' := by
  have sameStacks := same.stack
  unfold act at bound ⊢
  generalize state.stack = stack at sameStacks bound
  generalize state'.stack = stack' at sameStacks
  cases sameStacks with
  | nil => cases bound
  | cons first rest =>
      rcases Option.bind_eq_some_iff.mp bound with ⟨scopes, scopesBound, last⟩
      cases last
      have nexts := same.next follows rest
      exact ⟨_, rfl, nexts.point, nexts.environment, nexts.frames, nexts.stack,
        bindName_unused runtime unused same.scopes scopesBound, nexts.trace⟩

/-- A step at an instruction that remains is a step of the shortened code. -/
theorem step_remains (same : Corresponds entries state state') {content : Instruction}
    (remains : RemainsAt entries state.point state'.point content) {next : State}
    (stepped : step runtime (Table.ofCode entries) state = some next) :
    ∃ next', step runtime (Table.ofCode (optimize entries)) state' = some next' ∧
      Corresponds entries next next' := by
  rw [step_eq remains.found] at stepped
  rw [step_eq remains.newFound]
  by_cases unused : content.opcode = .pop ∧ content.argument ∉ usedSymbols entries
  · rw [dropInstruction, if_pos unused]
    rcases content with ⟨opcode, argument⟩
    cases unused.1
    rcases Option.bind_eq_some_iff.mp stepped with ⟨action, decoded, acted⟩
    rcases Option.map_eq_some_iff.mp decoded with ⟨name, named, rfl⟩
    refine act_unused_bind same remains.next ?_ acted
    rw [IsUsed, ← eq_of_symbol? named]
    exact unused.2
  · rw [dropInstruction, if_neg unused]
    have used : content.opcode = .pop → content.argument ∈ usedSymbols entries := by
      intro isPop
      by_contra missing
      exact unused ⟨isPop, missing⟩
    have related : Option.Rel (Corresponds entries)
        ((decode runtime (Table.ofCode entries).labels content).bind (act runtime state))
        ((decode runtime (Table.ofCode (optimize entries)).labels content).bind
          (act runtime state')) :=
      optionRel_bind (decode_related remains.remains used) fun _ _ actions =>
        act_related same remains.next actions
    rw [stepped] at related
    rcases optionRel_cases related with ⟨none, _⟩ | ⟨_, next', found, found', nexts⟩
    · cases none
    · cases found
      exact ⟨next', found', nexts⟩

/-- A removed `push` and its `drop` lead back to the same state of the shortened code. -/
theorem step_removed (same : Corresponds entries state state')
    (removed : RemovedAt entries state.point state'.point) {between : State}
    (stepped : step runtime (Table.ofCode entries) state = some between) :
    ∃ next, step runtime (Table.ofCode entries) between = some next ∧
      Corresponds entries next state' ∧ next.point = state.point + 2 := by
  rcases removed with ⟨first, second, firstAt, secondAt, follows⟩
  rw [step_eq firstAt] at stepped
  rcases Option.bind_eq_some_iff.mp stepped with ⟨action, decoded, acted⟩
  rcases Option.map_eq_some_iff.mp decoded with ⟨name, _, rfl⟩
  rcases Option.bind_eq_some_iff.mp acted with ⟨value, _, last⟩
  cases last
  refine ⟨(state.next (value :: state.stack)).next state.stack, ?_, ?_, rfl⟩
  · have atDrop : (Table.ofCode entries).instructions[(state.next (value :: state.stack)).point]? =
        some ⟨.drop, second⟩ := secondAt
    rw [step_eq atDrop]
    rfl
  · exact ⟨follows, same.environment, same.frames, same.stack, same.scopes, same.trace⟩

end Steps

end StackScript.Machine
