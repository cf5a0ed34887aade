import StackScript.Proofs.Evaluation.Structured
import StackScript.Proofs.Labels.Standing
import StackScript.Proofs.Shortening.Runs

/-!
# Runs of evaluated scripts

The standard machine does what direct evaluation does.  Where labelled code stands in
stack code, a run of the machine performs it (`run_of_perform`).  So a script whose
evaluation finishes is run to its end, with the same output, and its shortened code is
too.
-/

namespace StackScript.Evaluation

open StackScript.Code (Instruction Entry Labelled Structured BranchAt instructionsOf place?
  optimize)
open StackScript.Document (Table)
open StackScript.Machine (Action Scalar Primitives Runtime State Value decode run)

/-- The bindings of a memory in a scope of the machine. -/
def Memory.scope (memory : Memory) : Machine.Scope :=
  memory.bindings.map fun binding => (binding.1, .scalar binding.2)

/-- The machine is at a point of a script, outside of all functions, with a stack of scalars
and a memory. -/
structure Holds (state : State) (point : Nat) (stack : List Scalar) (memory : Memory) :
    Prop where
  point : state.point = point
  environment : state.environment = [0]
  frames : state.frames = []
  stack : state.stack = stack.map .scalar
  scopes : state.scopes = [memory.scope]
  output : state.output = memory.output

section Steps

variable {primitives : Primitives} {state : State} {point : Nat}
variable {stack stack' : List Scalar} {memory memory' : Memory} {function : Scalar}

theorem output_bind {name : String} {value : Scalar}
    (bound : memory.bind name value = some memory') : memory'.output = memory.output := by
  rw [Memory.bind] at bound
  split at bound
  · cases bound
    rfl
  · cases bound

theorem get?_scope (memory : Memory) (name : String) :
    memory.scope.get? name = (memory.bindings.get? name).map .scalar := by
  unfold Memory.scope
  induction memory.bindings with
  | nil => rfl
  | cons binding rest ih =>
      rw [List.map_cons, Ledger.get?, Ledger.get?, ih]
      by_cases same : binding.1 = name
      · rw [if_pos same, if_pos same]
        rfl
      · rw [if_neg same, if_neg same]

theorem takeScalars_of_takeTop {count : Nat} {arguments rest : List Scalar}
    (taken : takeTop count stack = some (arguments, rest)) :
    Machine.takeScalars count (stack.map .scalar) = some (arguments, rest.map .scalar) := by
  induction count generalizing stack arguments with
  | zero =>
      cases taken
      simp [Machine.takeScalars]
  | succ count ih =>
      rw [takeTop] at taken
      split at taken
      · rename_i enough
        cases taken
        cases stack with
        | nil => cases enough
        | cons top below =>
            have fewer : count ≤ below.length := Nat.le_of_succ_le_succ enough
            have inner := ih (if_pos fewer : takeTop count below = _)
            simp [Machine.takeScalars, Value.scalar?, inner]
      · cases taken

theorem Holds.next (holds : Holds state point stack memory) (after : List Scalar) :
    Holds (state.next (after.map .scalar)) (point + 1) after memory := by
  constructor
  · exact congrArg (· + 1) holds.point
  · exact holds.environment
  · exact holds.frames
  · rfl
  · exact holds.scopes
  · exact holds.output

theorem Holds.readName (holds : Holds state point stack memory) {name : String} {value : Scalar}
    (found : memory.read name = some value) :
    Machine.readName (.standard primitives) name state.environment state.scopes =
      some (.scalar value) := by
  rw [holds.environment, holds.scopes]
  have predefined : (Runtime.standard primitives).predefined name = Machine.reserved name := rfl
  rw [Memory.read] at found
  rw [Machine.readName, predefined]
  cases isReserved : Machine.reserved name with
  | some content =>
      rw [isReserved] at found
      cases found
      rfl
  | none =>
      rw [isReserved, Option.none_or] at found
      have bound := get?_scope memory name
      rw [found] at bound
      simp [Machine.resolve, bound]

theorem Holds.bindName (holds : Holds state point stack memory) {name : String} {value : Scalar}
    (bound : memory.bind name value = some memory') :
    Machine.bindName (.standard primitives) name (.scalar value) state.environment state.scopes =
      some [memory'.scope] := by
  rw [holds.environment, holds.scopes]
  rw [Memory.bind] at bound
  split at bound
  · rename_i free
    cases bound
    have allowed : Machine.canBind (.standard primitives) name memory.scope = true := by
      have parts := Bool.and_eq_true_iff.mp free
      rw [Machine.canBind, get?_scope, Option.isNone_map, parts.2, Bool.or_true, Bool.and_true]
      exact parts.1
    simp only [Machine.bindName, List.getElem?_cons_zero, allowed, if_true]
    rfl
  · cases bound

theorem Holds.callValue (holds : Holds state point (function :: stack) memory)
    {argumentCount : Nat} {arguments rest : List Scalar} {result : Scalar}
    (taken : takeTop argumentCount stack = some (arguments, rest))
    (called : call primitives function arguments memory = some (result, memory')) :
    ∃ next, Machine.callValue (.standard primitives) argumentCount state = some next ∧
      Holds next (point + 1) (result :: rest) memory' := by
  cases function with
  | builtin builtin =>
      rcases Option.bind_eq_some_iff.mp called with ⟨⟨_, printed⟩, invoked, same⟩
      cases same
      have standard : (Runtime.standard primitives).invoke builtin arguments =
          some (result, printed) := invoked
      rw [Machine.callValue, holds.stack, List.map_cons]
      simp only [takeScalars_of_takeTop taken, standard, Option.bind_eq_bind, Option.bind_some]
      refine ⟨_, rfl, ?_⟩
      constructor
      · exact congrArg (· + 1) holds.point
      · exact holds.environment
      · exact holds.frames
      · rfl
      · exact holds.scopes
      · rw [State.output, List.map_append, String.join_append]
        exact congrArg₂ (· ++ ·) holds.output (by simp [Machine.Event.output])
  | boolean value | integer value | text content => cases called

/-- An action that evaluation performs is one that the machine takes. -/
theorem Holds.act (holds : Holds state point stack memory) {action : Action}
    (performed : performAction primitives stack memory action = some (stack', memory')) :
    ∃ next, Machine.act (.standard primitives) state action = some next ∧
      Holds next (point + 1) stack' memory' := by
  cases action with
  | load content =>
      cases performed
      refine ⟨_, rfl, ?_⟩
      rw [holds.stack]
      exact holds.next (content :: stack)
  | read name =>
      rcases Option.bind_eq_some_iff.mp performed with ⟨value, found, same⟩
      cases same
      rw [Machine.act, holds.readName found, holds.stack]
      exact ⟨_, rfl, holds.next (value :: stack)⟩
  | bind name =>
      cases stack with
      | nil => cases performed
      | cons value below =>
          rcases Option.bind_eq_some_iff.mp performed with ⟨_, bound, same⟩
          cases same
          rw [Machine.act, holds.stack, List.map_cons]
          simp only [holds.bindName bound, Option.bind_eq_bind, Option.bind_some]
          refine ⟨_, rfl, ?_⟩
          constructor
          · exact congrArg (· + 1) holds.point
          · exact holds.environment
          · exact holds.frames
          · rfl
          · rfl
          · exact holds.output.trans (output_bind bound).symm
  | discard =>
      cases stack with
      | nil => cases performed
      | cons value below =>
          cases performed
          rw [Machine.act, holds.stack]
          exact ⟨_, rfl, holds.next stack'⟩
  | call argumentCount =>
      cases stack with
      | nil => cases performed
      | cons function below =>
          rcases Option.bind_eq_some_iff.mp performed with ⟨⟨arguments, rest⟩, taken, after⟩
          rcases Option.bind_eq_some_iff.mp after with ⟨⟨result, _⟩, called, same⟩
          cases same
          exact holds.callValue taken called
  | operate opcode argumentCount =>
      rcases Option.bind_eq_some_iff.mp performed with ⟨⟨arguments, rest⟩, taken, after⟩
      rcases Option.bind_eq_some_iff.mp after with ⟨result, operated, same⟩
      cases same
      have standard : (Runtime.standard primitives).operate opcode arguments = some result :=
        operated
      rw [Machine.act, holds.stack, takeScalars_of_takeTop taken]
      simp only [Option.bind_eq_bind, Option.bind_some, standard]
      exact ⟨_, rfl, holds.next (result :: rest)⟩
  | capture _ | jump _ | jumpIfFalse _ | giveBack | extend _ => cases performed

end Steps

/-! ## Runs -/

section Runs

variable {primitives : Primitives} {entries : List Entry} {state : State} {point : Nat}
variable {stack stack' : List Scalar} {memory memory' : Memory} {content : Instruction}

/-- What is read without labels does not depend on them. -/
theorem decode_of_nil {runtime : Runtime} {action : Action} (labels : Ledger String Nat)
    (decoded : decode runtime [] content = some action) :
    decode runtime labels content = some action := by
  rcases content with ⟨opcode, argument⟩
  cases opcode with
  | close | jump | jumpIfFalse => simp [decode, Ledger.get?] at decoded
  | _ => exact decoded

theorem Holds.step (holds : Holds state point stack memory)
    (isAt : (instructionsOf entries)[point]? = some content)
    (performed : performInstruction primitives content stack memory = some (stack', memory')) :
    ∃ next, Machine.step (.standard primitives) (Table.ofCode entries) state = some next ∧
      Holds next (point + 1) stack' memory' := by
  rcases Option.bind_eq_some_iff.mp performed with ⟨action, decoded, acted⟩
  rw [← holds.point] at isAt
  rw [Machine.step_eq isAt, decode_of_nil _ decoded]
  exact holds.act acted

theorem Holds.jump (holds : Holds state point stack memory) {label : String} {target : Nat}
    (isAt : (instructionsOf entries)[point]? = some ⟨.jump, .text label⟩)
    (leads : place? label entries = some target) :
    ∃ next, Machine.step (.standard primitives) (Table.ofCode entries) state = some next ∧
      Holds next target stack memory := by
  have decoded : decode (.standard primitives) (Table.ofCode entries).labels
      ⟨.jump, .text label⟩ = some (.jump target) := by
    simp [decode, Machine.text?, Document.get?_ofCode, leads]
  rw [← holds.point] at isAt
  rw [Machine.step_eq isAt, decoded]
  exact ⟨_, rfl, rfl, holds.environment, holds.frames, holds.stack, holds.scopes, holds.output⟩

theorem Holds.jumpIfFalse {condition : Scalar} {value : Bool} {label : String} {target : Nat}
    (holds : Holds state point (condition :: stack) memory)
    (isAt : (instructionsOf entries)[point]? = some ⟨.jumpIfFalse, .text label⟩)
    (leads : place? label entries = some target) (isTruth : truth? condition = some value) :
    ∃ next, Machine.step (.standard primitives) (Table.ofCode entries) state = some next ∧
      Holds next (cond value (point + 1) target) stack memory := by
  have decoded : decode (.standard primitives) (Table.ofCode entries).labels
      ⟨.jumpIfFalse, .text label⟩ = some (.jumpIfFalse target) := by
    simp [decode, Machine.text?, Document.get?_ofCode, leads]
  have isBoolean : condition = .boolean value := by
    cases condition with
    | boolean _ =>
        cases isTruth
        rfl
    | integer _ | text _ | builtin _ => cases isTruth
  subst isBoolean
  rw [← holds.point] at isAt
  rw [Machine.step_eq isAt, decoded, Option.bind_some, Machine.act, holds.stack,
    List.map_cons]
  refine ⟨_, rfl, ?_⟩
  cases value with
  | true => exact holds.next stack
  | false => exact ⟨rfl, holds.environment, holds.frames, rfl, holds.scopes, holds.output⟩

/-- A run of the machine reaches a point with a stack and a memory. -/
def Reaches (primitives : Primitives) (entries : List Entry) (state : State) (point : Nat)
    (stack : List Scalar) (memory : Memory) : Prop :=
  ∃ count reached, run (.standard primitives) (Table.ofCode entries) count state = some reached ∧
    Holds reached point stack memory

theorem reaches_of_step
    (stepped : ∃ next,
      Machine.step (.standard primitives) (Table.ofCode entries) state = some next ∧
        Holds next point stack memory) :
    Reaches primitives entries state point stack memory := by
  rcases stepped with ⟨next, isNext, holds⟩
  exact ⟨1, next, Machine.run_succ isNext rfl, holds⟩

theorem Reaches.trans {later : Nat}
    (first : Reaches primitives entries state point stack memory)
    (second : ∀ between, Holds between point stack memory →
      Reaches primitives entries between later stack' memory') :
    Reaches primitives entries state later stack' memory' := by
  rcases first with ⟨count, between, runs, holds⟩
  rcases second between holds with ⟨more, reached, runsOn, holdsLater⟩
  exact ⟨count + more, reached, Machine.run_add runs runsOn, holdsLater⟩

/-- Where labelled code stands, a run of the machine performs it. -/
theorem run_of_perform {labelled : Labelled} {start stop : Nat}
    (stands : labelled.StandsAt entries start stop) (holds : Holds state start stack memory)
    (performed : perform primitives labelled stack memory = some (stack', memory')) :
    Reaches primitives entries state stop stack' memory' := by
  induction labelled generalizing state start stop stack stack' memory memory' with
  | done =>
      cases stands
      cases performed
      exact ⟨0, state, rfl, holds⟩
  | instruction content rest ih =>
      rcases stands with ⟨isAt, restStands⟩
      rcases Option.bind_eq_some_iff.mp performed with ⟨⟨between, middle⟩, first, later⟩
      apply (reaches_of_step (holds.step isAt first)).trans
      intro next holdsNext
      exact ih restStands holdsNext later
  | function site parameters body rest _ _ => cases performed
  | branch number onTrue onFalse rest trueIH falseIH restIH =>
      rcases stands with ⟨leaves, ends, here, trueStands, falseStands, restStands⟩
      cases stack with
      | nil => cases performed
      | cons condition below =>
          rcases Option.bind_eq_some_iff.mp performed with ⟨value, isTruth, chosen⟩
          rcases Option.bind_eq_some_iff.mp chosen with ⟨⟨between, middle⟩, branched, later⟩
          have passes : Reaches primitives entries state ends between middle := by
            apply (reaches_of_step (holds.jumpIfFalse here.test here.elsePlace isTruth)).trans
            intro tested holdsTested
            cases value with
            | true =>
                apply (reaches_of_step (holdsTested.jump here.enter here.thenPlace)).trans
                intro entered holdsEntered
                apply (trueIH trueStands holdsEntered branched).trans
                intro left holdsLeft
                exact reaches_of_step (holdsLeft.jump here.leave here.endPlace)
            | false => exact falseIH falseStands holdsTested branched
          apply passes.trans
          intro joined holdsJoined
          exact restIH restStands holdsJoined later

/-- The code of a script whose evaluation finishes is run to its end. -/
theorem reaches_end {script : String} {program : Surface.Program} {labelled : Labelled}
    (has : Script.HasLabelled script program labelled)
    (evaluated : evaluateStmts primitives program.statements .initial = some memory) :
    ∃ point stop, place? Code.mainLabel (Code.assemble labelled.fragment) = some point ∧
      Reaches primitives (Code.assemble labelled.fragment) (.initial point) stop [] memory ∧
      (instructionsOf (Code.assemble labelled.fragment))[stop]? = some ⟨.halt, .nothing⟩ := by
  rcases has.numbered.main_standsAt with ⟨point, stop, starts, stands, halts⟩
  have performed : perform primitives labelled [] .initial = some ([], memory) := by
    rw [← perform_mapMarks Code.Site.name? (fun _ => ())]
    exact perform_outline has.outlined evaluated []
  have initial : Holds (.initial point) point [] .initial := ⟨rfl, rfl, rfl, rfl, rfl, rfl⟩
  exact ⟨point, stop, starts, run_of_perform stands initial performed, halts⟩

end Runs

theorem outputs_eq {entries : List Entry} {events events' : List Machine.Event}
    (same : List.Forall₂ (Machine.SameEvent entries) events events') :
    events'.map Machine.Event.output = events.map Machine.Event.output := by
  induction same with
  | nil => rfl
  | cons first _ ih =>
      rw [List.map_cons, List.map_cons, ih]
      cases first with
      | entered argumentCount same => rfl
      | invoked builtin arguments output => rfl

/-- If the evaluation of a script finishes, the standard machine runs the shortened code of
the script to its end, with an empty stack and the output of the evaluation.  Evaluation
does not finish where it comes to a function, a list, a record or a field. -/
theorem shortCode_prints_output (primitives : Primitives) {script output : String}
    {short : List Entry} (generated : Script.shortCode script = .ok short)
    (evaluated : (Script.surface script).map (output? primitives) = .ok (some output)) :
    ∃ origin count state, Machine.start (Table.ofCode short) = some origin ∧
      run (.standard primitives) (Table.ofCode short) count origin = some state ∧
      Machine.Halted (Table.ofCode short) state ∧ state.stack = [] ∧ state.output = output := by
  rcases StackScript.except_bind_eq_ok.mp generated with ⟨entries, code, same⟩
  cases same
  rcases Script.exists_hasLabelled code with ⟨program, labelled, has, rfl⟩
  rw [has.parsed] at evaluated
  rcases Option.map_eq_some_iff.mp (Except.ok.inj evaluated) with ⟨memory, finishes, rfl⟩
  rcases reaches_end has finishes with ⟨point, stop, starts, ⟨count, state, runs, holds⟩, halts⟩
  have halted : Machine.Halted (Table.ofCode (Code.assemble labelled.fragment)) state := by
    rw [Machine.Halted, holds.point, Document.instructions_ofCode, halts]
    rfl
  -- The shortened code starts where the label of the script leads to in it.
  rcases optionRel_cases (Code.optimize_place Code.mainLabel
    (Code.assemble labelled.fragment)) with ⟨missing, _⟩ | ⟨_, point', found, found', points⟩
  · rw [starts] at missing
    cases missing
  · rw [starts] at found
    cases found
    rcases Machine.exists_matched_end (Machine.corresponds_initial points) runs halted with
      ⟨count', state', runs', halted', ends⟩
    refine ⟨.initial point', count', state', ?_, runs', halted', ?_, ?_⟩
    · rw [Machine.start, Document.get?_ofCode, found']
      rfl
    · have sameStacks := ends.stack
      rw [holds.stack] at sameStacks
      exact List.forall₂_nil_left_iff.mp sameStacks
    · rw [State.output, outputs_eq ends.trace, ← State.output, holds.output]

/-- A script that prints a conditional and reads a name that is bound in it. -/
def printedConditional : String :=
  "x = 3\nprint(if x > 2 and pow(x, 2) < 10 do\n  y = x * 2\n  y - 1\nelse\n  0\nend, '!')\ny\n"

theorem printedConditional_prints_output :
    ∃ short, Script.shortCode printedConditional = .ok short ∧
      (Script.surface printedConditional).map (output? .words) = .ok (some "5!") ∧
      ∃ origin count state, Machine.start (Table.ofCode short) = some origin ∧
        run (.standard .words) (Table.ofCode short) count origin = some state ∧
        Machine.Halted (Table.ofCode short) state ∧ state.stack = [] ∧ state.output = "5!" := by
  have evaluated : (Script.surface printedConditional).map (output? .words) =
      .ok (some "5!") := by
    decide +kernel
  have accepted : (Script.shortCode printedConditional).isOk = true := by
    decide +kernel
  cases generated : Script.shortCode printedConditional with
  | error error =>
      rw [generated] at accepted
      cases accepted
  | ok short =>
      exact ⟨short, rfl, evaluated, shortCode_prints_output .words generated evaluated⟩

end StackScript.Evaluation
