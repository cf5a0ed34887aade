import StackScript.Core.Basic

/-!
# The linear form

In linear form a script is a list of steps.  A value names only what is on top of
the stack when it is computed: the arguments of a call, the items of a list and
the fields of a record have been pushed by earlier steps, and a function literal
has been bound to a temporary by an earlier step.
-/

namespace StackScript.Linear

open StackScript.Core (Builtin)

mutual

/-- What a step computes. -/
inductive Value where
  | builtin (builtin : Builtin)
  | integer (value : Int)
  | text (content : String)
  | symbol (name : String)
  | symbolLiteral (name : String)
  | temporary (name : String)
  | list (itemCount : Int)
  | record (fieldCount : Int)
  | call (position : Position) (function : Value) (argumentCount : Int)
  | lambda (name? : Option String) (parameters : List String) (body : List Step)
  | conditional (condition : Value) (onTrue onFalse : List Step)
  /-- A node of a form that is no value. -/
  | misplaced (form : Form)

/-- A step: compute a value, then leave it on the stack, bind it to a temporary or
a name, or leave it as the result of a statement. -/
inductive Step where
  | push (value : Value)
  | bindTemporary (temporary : String) (value : Value)
  | assign (target : String) (value : Value)
  | evaluate (value : Value)
  /-- A node of a form that is no step. -/
  | misplaced (form : Form)

end

/-- A script in linear form. -/
structure Program where
  steps : List Step

end StackScript.Linear
