import StackScript.Command

/-!
# The command line

Runs the command on the files of the working directory.  A report about an error
goes to the standard error stream.
-/

namespace StackScript.Command

/-- The system's code for an attempt to read from a folder. -/
def folderCode : UInt32 := 21

def find (path : String) : IO Finding := do
  try
    let content ← IO.FS.readFile path
    return .file content
  catch
    | .inappropriateType _ code _ =>
        return if code = folderCode then .folder else .pastFile
    | _ => return .nothing

end StackScript.Command

/-- Compiles the script that the first argument names. -/
def main (arguments : List String) : IO UInt32 := do
  let finding ←
    match arguments with
    | [] => pure .nothing
    | path :: _ => StackScript.Command.find path
  let outcome := StackScript.Command.run (fun _ => finding) arguments
  IO.print outcome.printed
  if let some (path, document) := outcome.written? then
    IO.FS.writeFile path document
  match outcome.error? with
  | none => return 0
  | some error =>
      IO.eprintln error.message
      return 1
