import StackScript.Folder
import StackScript.Script
import StackScript.Text.Newline

/-!
# The command

The command takes the path of a script, prints the listing of its code and writes
its document to a file beside it.  The listing is printed even if there is no
document, and a document is written only if the path has the suffix of scripts.
-/

namespace StackScript.Command

/-- What a run of the command does. -/
structure Outcome where
  /-- The text that is printed. -/
  printed : String
  /-- The path and the content of the file that is written. -/
  written? : Option (String × String)
  /-- The error that ends the run. -/
  error? : Option Error

def scriptSuffix : String := ".fur"

/-- The suffix that is added for documents. -/
def documentSuffix : String := ".c"

/-- A run that ends in an error after printing a text. -/
def failed (printed : String) (error : Error) : Outcome :=
  { printed, written? := none, error? := some error }

/-- Compiles the script at a path, given its content. -/
def compile (path : String) (content : String) : Outcome :=
  match Script.shortCode (Text.unifyNewlines content) with
  | .error error => failed "" error
  | .ok entries =>
      let printed := Code.listing entries ++ "\n"
      match Document.ofCode entries with
      | .error error => failed printed error
      | .ok document =>
          if scriptSuffix.toList.isSuffixOf path.toList then
            { printed, written? := some (path ++ documentSuffix, document), error? := none }
          else failed printed .notAScript

/-- Runs the command.  `find` tells what a path leads to. -/
def run (find : String → Finding) : (arguments : List String) → Outcome
  | [] => failed "" .noScriptNamed
  | path :: _ =>
      match find path with
      | .nothing => failed "" (.noSuchFile path)
      | .folder => failed "" (.folderNamed path)
      | .pastFile => failed "" (.pastFile path)
      | .file content => compile path content

end StackScript.Command
