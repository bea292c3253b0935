import Ember.Cli

/-! The program: files and lines are read and texts are written; all else is decided by `Cli`. -/
open Ember

/-- The fault that the system reported: for a path through a file it names the path, for the
reading of a folder it does not. -/
def faultOf : IO.Error → FileFault
  | .permissionDenied .. => .denied
  | .inappropriateType (some _) .. => .notFolder
  | .inappropriateType none .. => .isFolder
  | .invalidArgument (some _) .. => .nameTooLong
  | _ => .missing

def readFile (path : String) : IO (Except FileFault String) :=
  try
    match String.fromUTF8? (← IO.FS.readBinFile path) with
    | some text => return .ok text
    | none => return .error .notText
  catch e => return .error (faultOf e)

def writeOutput (o : Cli.Output) : IO Unit := do
  let stdout ← IO.getStdout
  stdout.putStr o.out
  stdout.flush
  (← IO.getStderr).putStr o.err

/-- A world that begins now, as far as the time since the start of the system is known. -/
def currentWorld : IO World := do
  let bytes ← IO.getRandomBytes 8
  let entropy := bytes.foldl (fun n b => n * 256 + b.toUInt64) 0
  return World.start (← IO.monoNanosNow) entropy

partial def readLines (o : Cli.Options) (s : Session) : IO Unit := do
  writeOutput ⟨Cli.prompt, ""⟩
  let line ← (← IO.getStdin).getLine
  if line.isEmpty then writeOutput ⟨"\n", ""⟩
  else
    let (output, s) := Cli.respond o s line
    writeOutput output
    readLines o s

def main (args : List String) : IO UInt32 := do
  match ← Cli.start readFile (← currentWorld) args with
  | .exit e =>
    writeOutput e.output
    return UInt32.ofNat e.code
  | .interactive o s =>
    readLines o s
    return 0
