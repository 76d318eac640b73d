import Schematic.CommandLine

/-!
# The program

Reads the files a command names, runs it, and puts out what it gives: on the
standard output or into a file. Errors go to the standard error output.
-/

namespace Schematic

/-- The text of a file, if it can be read. -/
def readText (path : String) : IO (Option String) := do
  try
    return some (← IO.FS.readFile path)
  catch _ =>
    return none

/-- The texts of the files a command names. -/
def readTexts (paths : List String) : IO (Keyed (Option String)) :=
  paths.mapM fun path => do
    return (path, ← readText path)

/-- Tells why there is no output. -/
def fail (error : CommandError) : IO UInt32 := do
  match error.message with
  | some message => IO.eprintln ("Error: " ++ message)
  | none => IO.eprintln "usage: (types|sdl|select) --dmmf <path>... [options]"
  return 1

end Schematic

/-- Runs a command. -/
def main (args : List String) : IO UInt32 := do
  let paths := ((Schematic.Command.ofArgs? args).map Schematic.Command.paths).getD []
  let texts ← Schematic.readTexts paths
  let read (path : String) : Option String := (Schematic.Keyed.get? path texts).bind id
  match Schematic.Command.runArgs read args with
  | .error error => Schematic.fail error
  | .ok (.standard text) =>
    IO.print text
    return 0
  | .ok (.file path text) =>
    try
      IO.FS.writeFile path text
      return 0
    catch _ =>
      Schematic.fail (.unwritable path)
