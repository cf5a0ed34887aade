import StackScript.Error
import StackScript.Ledger

/-!
# Labels and their numbers

A tally counts, under names, how many labels have been given out.  Functions share
a tally with branches, which are counted under the name `if`.

The number of a function's label is looked up under the escaped name and entered
under the name itself, and for a function without a name it is entered under no
name at all.
-/

namespace StackScript.Code

/-- Counts of labels by name; `none` is the entry of functions without a name. -/
abbrev Tally : Type :=
  Ledger (Option String) Int

/-- The name under which branches are counted. -/
def branchKey : Option String := some "if"

/-- The tally with which a script starts. -/
def Tally.initial : Tally := [(branchKey, 0)]

/-- A name in the form in which labels hold it: dollar signs are doubled, then
underscores become dollar signs. -/
def escapeName (name : String) : String :=
  String.ofList (name.toList.flatMap fun character =>
    if character = '$' then ['$', '$']
    else if character = '_' then ['$']
    else [character])

/-- The part of a function's label that comes from its name. -/
def labelStem : Option String → String
  | none => "__lambda__"
  | some name => escapeName name

/-- The label with a given stem and number. -/
def functionLabel (stem : String) (number : Int) : String :=
  stem ++ "$" ++ toString number

def thenLabel (number : Int) : String := "__if$" ++ toString number ++ "__"

/-- The label of the other branch. -/
def elseLabel (number : Int) : String := "__else$" ++ toString number ++ "__"

/-- The label after both branches. -/
def endLabel (number : Int) : String := "__endif$" ++ toString number ++ "__"

/-- The label at which a script starts. -/
def mainLabel : String := "__main__"

/-- Emits code under a tally.  The tally is kept when emission fails. -/
abbrev Emit : Type → Type :=
  ExceptT Error (StateM Tally)

/-- A new label for a function. -/
def newFunctionLabel (name? : Option String) : Emit String := do
  let stem := labelStem name?
  let number := ((← get).get? (some stem)).getD 0
  modify (Ledger.set name? (number + 1))
  return functionLabel stem number

/-- A new number for the labels of a conditional. -/
def newBranchNumber : Emit Int := do
  match (← get).get? branchKey with
  | none => throw .branchesNotNumbered
  | some number =>
      modify (Ledger.set branchKey (number + 1))
      return number

end StackScript.Code
