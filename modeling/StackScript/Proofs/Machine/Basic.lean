import StackScript.Code.Label
import StackScript.Document.Table
import Mathlib.Data.List.Forall2
import Mathlib.Data.Option.Basic

/-!
# The stack machine

The machine that runs the instructions of a table.  It has an operand stack, frames
to return to, and scopes that are linked into environments.  What its instructions
compute is given by a `Runtime`: arithmetic, comparison and builtins are arbitrary
partial functions on scalars.  Instructions on lists, records and symbols are left to the
runtime as well.  They may move values around but must not look into closures.
-/

namespace StackScript.Machine

open StackScript.Code (Opcode Argument Instruction Entry mainLabel)
open StackScript.Document (Table symbolName?)

/-- The builtins that can be called. -/
inductive Builtin where
  | nil
  | pow
  | print
  deriving DecidableEq, Repr

/-- Values that can be computed with. -/
inductive Scalar where
  | boolean (value : Bool)
  | integer (value : Int)
  | text (content : String)
  | builtin (builtin : Builtin)
  deriving DecidableEq, Repr

/-- Values on the stack.  A closure has the number of its first instruction and the
environment that it was made in, the innermost scope first. -/
inductive Value where
  | scalar (content : Scalar)
  | closure (entry : Nat) (environment : List Nat)
  | compound (parts : List Value)

/-- Two values are the same up to the entries of the closures in them. -/
inductive Value.Related (corresponds : Nat → Nat → Prop) : Value → Value → Prop where
  | scalar (content : Scalar) : Related corresponds (.scalar content) (.scalar content)
  | closure {entry entry' : Nat} (environment : List Nat) (entries : corresponds entry entry') :
      Related corresponds (.closure entry environment) (.closure entry' environment)
  | compound {parts parts' : List Value}
      (related : List.Forall₂ (Related corresponds) parts parts') :
      Related corresponds (.compound parts) (.compound parts')

/-- What a machine computes. -/
structure Runtime where
  /-- The names that are reserved on reading, with their values. -/
  predefined : String → Option Scalar
  /-- The names that can be bound. -/
  bindable : String → Bool
  /-- Whether a name that is bound in a scope can be bound there again. -/
  rebinds : Bool
  /-- The numbers of arguments that closures can be called with. -/
  accepts : Nat → Bool
  /-- The value of an integer in the code. -/
  integer : Int → Option Scalar
  /-- The value of a quoted text in the code. -/
  text : String → Option Scalar
  operate : Opcode → List Scalar → Option Scalar
  /-- The result of a builtin, and what it prints. -/
  invoke : Builtin → List Scalar → Option (Scalar × String)
  /-- The stack after an instruction on lists, records or symbols. -/
  extend : Instruction → List Value → Option (List Value)
  extend_related : ∀ (corresponds : Nat → Nat → Prop) (instruction : Instruction)
    (stack stack' : List Value), List.Forall₂ (Value.Related corresponds) stack stack' →
      Option.Rel (List.Forall₂ (Value.Related corresponds)) (extend instruction stack)
        (extend instruction stack')

/-- Bindings of names, the latest first. -/
abbrev Scope : Type :=
  Ledger String Value

/-- Where to go on after a call. -/
structure Frame where
  point : Nat
  environment : List Nat

/-- What can be observed of a run. -/
inductive Event where
  | entered (entry : Nat) (argumentCount : Nat)
  | invoked (builtin : Builtin) (arguments : List Scalar) (output : String)
  deriving DecidableEq, Repr

def Event.output : Event → String
  | entered _ _ => ""
  | invoked _ _ output => output

/-- A state of the machine.  The stack has its top first, and the trace has the latest
event last. -/
structure State where
  point : Nat
  environment : List Nat
  frames : List Frame
  stack : List Value
  scopes : List Scope
  trace : List Event

namespace State

/-- The state at a point of the code with nothing on the stack and one empty scope. -/
def initial (point : Nat) : State :=
  { point, environment := [0], frames := [], stack := [], scopes := [[]], trace := [] }

/-- All that was printed. -/
def output (state : State) : String :=
  String.join (state.trace.map Event.output)

/-- Goes on to the next instruction with another stack. -/
def next (state : State) (stack : List Value) : State :=
  { state with point := state.point + 1, stack }

end State

/-- The value of a name in an environment: that of its innermost binding. -/
def resolve (name : String) (environment : List Nat) (scopes : List Scope) : Option Value :=
  environment.findSome? fun index => scopes[index]?.bind (Ledger.get? name)

/-- The value that reading a name yields. -/
def readName (runtime : Runtime) (name : String) (environment : List Nat)
    (scopes : List Scope) : Option Value :=
  match runtime.predefined name with
  | some content => some (.scalar content)
  | none => resolve name environment scopes

/-- Whether a scope lets a name be bound. -/
def canBind (runtime : Runtime) (name : String) (scope : Scope) : Bool :=
  runtime.bindable name && (runtime.rebinds || (scope.get? name).isNone)

/-- The scopes after a name has been bound in the innermost scope of an environment. -/
def bindName (runtime : Runtime) (name : String) (value : Value) (environment : List Nat)
    (scopes : List Scope) : Option (List Scope) :=
  match environment with
  | [] => none
  | index :: _ =>
      match scopes[index]? with
      | none => none
      | some scope =>
          if canBind runtime name scope then some (scopes.set index ((name, value) :: scope))
          else none

def Value.scalar? : Value → Option Scalar
  | scalar content => some content
  | closure _ _ => none
  | compound _ => none

/-- Takes scalars from the stack, in the order in which they were pushed, and gives what is
left. -/
def takeScalars : (count : Nat) → List Value → Option (List Scalar × List Value)
  | 0, stack => some ([], stack)
  | _ + 1, [] => none
  | count + 1, value :: stack => do
      let content ← value.scalar?
      let (contents, rest) ← takeScalars count stack
      return (contents ++ [content], rest)

/-! ## Actions -/

/-- An instruction with its argument read. -/
inductive Action where
  | load (content : Scalar)
  | read (name : String)
  | bind (name : String)
  | discard
  | capture (entry : Nat)
  | call (argumentCount : Nat)
  | jump (target : Nat)
  | jumpIfFalse (target : Nat)
  | giveBack
  | operate (opcode : Opcode) (argumentCount : Nat)
  | extend (instruction : Instruction)
  deriving DecidableEq, Repr

def text? : Argument → Option String
  | .text content => some content
  | _ => none

def integer? : Argument → Option Int
  | .integer value => some value
  | _ => none

/-- The name of the symbol that an argument is. -/
def symbol? (argument : Argument) : Option String :=
  (text? argument).bind symbolName?

/-- The number of values that an argument stands for. -/
def count? (argument : Argument) : Option Nat :=
  (integer? argument).bind Int.toNat?

/-- Reads the argument of an instruction.  The machine stops at `halt`, which is no
action. -/
def decode (runtime : Runtime) (labels : Ledger String Nat) (instruction : Instruction) :
    Option Action :=
  match instruction.opcode with
  | .push => (symbol? instruction.argument).map .read
  | .pop => (symbol? instruction.argument).map .bind
  | .drop => some .discard
  | .pushInteger => ((integer? instruction.argument).bind runtime.integer).map .load
  | .pushText => ((text? instruction.argument).bind runtime.text).map .load
  | .close => ((text? instruction.argument).bind (labels.get? ·)).map .capture
  | .call => (count? instruction.argument).map .call
  | .jump => ((text? instruction.argument).bind (labels.get? ·)).map .jump
  | .jumpIfFalse => ((text? instruction.argument).bind (labels.get? ·)).map .jumpIfFalse
  | .returnValue => some .giveBack
  | .halt => none
  | .pushSymbol | .list | .record | .other _ => some (.extend instruction)
  | opcode => (count? instruction.argument).map (.operate opcode)

/-- Calls a value. -/
def callValue (runtime : Runtime) (argumentCount : Nat) (state : State) : Option State :=
  match state.stack with
  | .closure entry environment :: stack =>
      if runtime.accepts argumentCount then
        some
          { point := entry
            environment := state.scopes.length :: environment
            frames := ⟨state.point + 1, state.environment⟩ :: state.frames
            stack
            scopes := state.scopes ++ [[]]
            trace := state.trace ++ [.entered entry argumentCount] }
      else none
  | .scalar (.builtin builtin) :: stack => do
      let (arguments, rest) ← takeScalars argumentCount stack
      let (result, output) ← runtime.invoke builtin arguments
      return { state.next (.scalar result :: rest) with
        trace := state.trace ++ [.invoked builtin arguments output] }
  | _ => none

/-- The state after an action, unless it fails. -/
def act (runtime : Runtime) (state : State) : Action → Option State
  | .load content => some (state.next (.scalar content :: state.stack))
  | .read name => do
      let value ← readName runtime name state.environment state.scopes
      return state.next (value :: state.stack)
  | .bind name =>
      match state.stack with
      | [] => none
      | value :: stack => do
          let scopes ← bindName runtime name value state.environment state.scopes
          return { state.next stack with scopes }
  | .discard =>
      match state.stack with
      | [] => none
      | _ :: stack => some (state.next stack)
  | .capture entry => some (state.next (.closure entry state.environment :: state.stack))
  | .call argumentCount => callValue runtime argumentCount state
  | .jump target => some { state with point := target }
  | .jumpIfFalse target =>
      match state.stack with
      | .scalar (.boolean value) :: stack =>
          some (if value then state.next stack else { state with point := target, stack })
      | _ => none
  | .giveBack =>
      match state.frames with
      | [] => none
      | frame :: frames =>
          some { state with point := frame.point, environment := frame.environment, frames }
  | .operate opcode argumentCount => do
      let (arguments, rest) ← takeScalars argumentCount state.stack
      let result ← runtime.operate opcode arguments
      return state.next (.scalar result :: rest)
  | .extend instruction => do
      let stack ← runtime.extend instruction state.stack
      return state.next stack

/-- One step of the machine, unless it has stopped or fails. -/
def step (runtime : Runtime) (table : Table) (state : State) : Option State := do
  let instruction ← table.instructions[state.point]?
  let action ← decode runtime table.labels instruction
  act runtime state action

/-- The state after a number of steps. -/
def run (runtime : Runtime) (table : Table) : (count : Nat) → State → Option State
  | 0, state => some state
  | count + 1, state => (step runtime table state).bind (run runtime table count)

/-- The state in which the machine starts, if the code has a place to start at. -/
def start (table : Table) : Option State :=
  (table.labels.get? mainLabel).map State.initial

/-- The machine has stopped. -/
def Halted (table : Table) (state : State) : Prop :=
  table.instructions[state.point]?.map Instruction.opcode = some .halt

instance (table : Table) (state : State) : Decidable (Halted table state) :=
  inferInstanceAs (Decidable (_ = _))

/-- No run from a state fails. -/
def Safe (runtime : Runtime) (table : Table) (state : State) : Prop :=
  ∀ count reached, run runtime table count state = some reached →
    Halted table reached ∨ ∃ next, step runtime table reached = some next

variable {runtime : Runtime} {table : Table}

theorem run_succ {count : Nat} {state between reached : State}
    (first : step runtime table state = some between)
    (rest : run runtime table count between = some reached) :
    run runtime table (count + 1) state = some reached := by
  rw [run, first]
  exact rest

/-- Runs can be put together. -/
theorem run_add {first second : Nat} {state between reached : State}
    (before : run runtime table first state = some between)
    (after : run runtime table second between = some reached) :
    run runtime table (first + second) state = some reached := by
  induction first generalizing state with
  | zero =>
      cases before
      rwa [Nat.zero_add]
  | succ first ih =>
      rcases Option.bind_eq_some_iff.mp before with ⟨next, stepped, rest⟩
      rw [Nat.succ_add]
      exact run_succ stepped (ih rest)

end StackScript.Machine
