import StackScript.Error
import StackScript.Linear.Basic

/-!
# Placement in the linear form

Code is emitted only for a linear form in which no node is misplaced.  The check
passes such a form on as it is, and otherwise reports the first misplaced node.
The branches of a conditional are looked at before its condition.
-/

namespace StackScript.Linear

mutual

/-- Checks that no node of a value is misplaced. -/
def checkValue : Value → Except Error Unit
  | .builtin _ => .ok ()
  | .integer _ => .ok ()
  | .text _ => .ok ()
  | .symbol _ => .ok ()
  | .symbolLiteral _ => .ok ()
  | .temporary _ => .ok ()
  | .list _ => .ok ()
  | .record _ => .ok ()
  | .call _ function _ => checkValue function
  | .lambda _ _ body => checkSteps body
  | .conditional condition onTrue onFalse => do
      checkSteps onTrue
      checkSteps onFalse
      checkValue condition
  | .misplaced form => throw (.misplaced form)

def checkStep : Step → Except Error Unit
  | .push value => checkValue value
  | .bindTemporary _ value => checkValue value
  | .assign _ value => checkValue value
  | .evaluate value => checkValue value
  | .misplaced form => throw (.misplaced form)

def checkSteps : List Step → Except Error Unit
  | [] => .ok ()
  | step :: rest => do
      checkStep step
      checkSteps rest

end

/-- A value in which no node is misplaced. -/
def Value.checked (value : Value) : Except Error Value :=
  (checkValue value).map fun _ => value

def Step.checked (step : Step) : Except Error Step :=
  (checkStep step).map fun _ => step

def checkedSteps (steps : List Step) : Except Error (List Step) :=
  (checkSteps steps).map fun _ => steps

/-- A script in which no node is misplaced. -/
def Program.checked (program : Program) : Except Error Program :=
  (checkSteps program.steps).map fun _ => program

end StackScript.Linear
