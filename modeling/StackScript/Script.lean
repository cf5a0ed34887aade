import StackScript.Code.Listing
import StackScript.Code.OfLinear
import StackScript.Code.Peephole
import StackScript.Core.OfSurface
import StackScript.Document.Basic
import StackScript.Grammar.Statement
import StackScript.Linear.OfCore
import StackScript.Linear.Placement
import StackScript.Token.Lexer

/-!
# From a script to its document

What can be made of the text of a script.  Each form is made from the one before,
so an error of an earlier form is also the error of every later one.
-/

namespace StackScript.Script

open StackScript.Code (Entry)

/-- The surface tree of a script. -/
def surface (script : String) : Except Error Surface.Program := do
  let tokens ← tokenize script
  parse tokens

/-- The core tree of a script. -/
def core (script : String) : Except Error Core.Program := do
  let program ← surface script
  Core.Program.ofSurface program

/-- The linear form of a script. -/
def linear (script : String) : Except Error Linear.Program := do
  let program ← core script
  Linear.Program.ofCore program

/-- The linear form of a script, with every node in its place. -/
def placed (script : String) : Except Error Linear.Program := do
  let program ← linear script
  program.checked

/-- The stack code of a script. -/
def code (script : String) : Except Error (List Entry) := do
  let program ← placed script
  Code.ofLinear program

/-- The stack code of a script, shortened. -/
def shortCode (script : String) : Except Error (List Entry) := do
  let entries ← code script
  return Code.optimize entries

/-- The listing of a script's shortened stack code. -/
def listing (script : String) : Except Error String := do
  let entries ← shortCode script
  return Code.listing entries

/-- The document of a script's shortened stack code. -/
def document (script : String) : Except Error String := do
  let entries ← shortCode script
  Document.ofCode entries

end StackScript.Script
