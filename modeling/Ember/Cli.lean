import Ember.Ast.Outline
import Ember.Config
import Ember.Folder
import Ember.Session
import Ember.Text.Blank
import Ember.Token.Listing

/-! The command line: a script is listed, outlined or run; without one, lines are read and run one
after the other. -/
namespace Ember
namespace Cli
set_option autoImplicit false

/-! ## Arguments -/

structure Options where
  file : Option String
  tokens : Bool
  noColor : Bool
  pretty : Bool
  ast : Bool
  dis : Bool
  config : Option String
  deriving DecidableEq, Repr

def Options.plain : Options := ⟨none, false, false, false, false, false, none⟩

/-- Takes a script, if there is none yet. -/
def Options.addFile? (o : Options) (path : String) : Option Options :=
  if o.file.isSome || path.isEmpty then none else some { o with file := some path }

/-- Takes a configuration file, if there is none yet. -/
def Options.addConfig? (o : Options) (path : String) : Option Options :=
  if o.config.isSome || path.isEmpty then none else some { o with config := some path }

/-- Sets a flag that has not been set yet. -/
def Options.addFlag? (o : Options) (flag : String) : Option Options :=
  match flag with
  | "--tokens" => if o.tokens then none else some { o with tokens := true }
  | "--no-color" => if o.noColor then none else some { o with noColor := true }
  | "--pretty" => if o.pretty then none else some { o with pretty := true }
  | "--ast" => if o.ast then none else some { o with ast := true }
  | "--dis" => if o.dis then none else some { o with dis := true }
  | _ => none

/-- The options that arguments stand for. After `--` there are no more flags. -/
def readArguments (o : Options) : List String → Option Options
  | [] => some o
  | ["--config"] => none
  | "--config" :: path :: rest =>
    match o.addConfig? path with
    | some o => readArguments o rest
    | none => none
  | "--" :: rest => rest.foldlM Options.addFile? o
  | arg :: rest =>
    let next? :=
      if "--config=".toList.isPrefixOf arg.toList then
        o.addConfig? (String.ofList (arg.toList.drop 9))
      else if arg.toList.head? = some '-' && arg != "-" then o.addFlag? arg
      else o.addFile? arg
    match next? with
    | some o => readArguments o rest
    | none => none

/-! ## Paths -/

/-- The name of a file without the folders that it is in. -/
def fileName? (path : String) : Option String :=
  match ((path.splitOn "/").filter fun part => part != "" && part != ".").getLast? with
  | some ".." => none
  | name? => name?

/-- What follows the last point in the name of a file, unless nothing comes before it. -/
def extension? (path : String) : Option String :=
  match fileName? path with
  | none => none
  | some name =>
    let reversed := name.toList.reverse
    match reversed.dropWhile (· ≠ '.') with
    | [] => none
    | [_] => none
    | _ :: _ :: _ => some (String.ofList (reversed.takeWhile (· ≠ '.')).reverse)

/-! ## Output -/

/-- What is written to the two outputs. -/
structure Output where
  out : String
  err : String
  deriving DecidableEq, Repr

def Output.append (a b : Output) : Output := ⟨a.out ++ b.out, a.err ++ b.err⟩

/-- An end with an exit code. -/
structure Exit where
  code : Nat
  output : Output
  deriving DecidableEq, Repr

def complain (message : String) : Exit := ⟨1, ⟨"", message ++ "\n"⟩⟩

/-! ## Programs -/

/-- What comes of a program under the options. -/
structure Report where
  result : Except SessionError Value
  output : Output

/-- Runs a program after its code is listed, or outlines it. -/
def runChunk (o : Options) (s : Session) (source : String) : Report × Session :=
  if o.ast then
    match parse source with
    | .error e => (⟨.error (.source e), ⟨"", ""⟩⟩, s)
    | .ok p => (⟨.ok .nil, ⟨p.outline.text ++ "\n", ""⟩⟩, s)
  else if o.dis then
    match s.load source with
    | (.error e, s) => (⟨.error e, ⟨"", ""⟩⟩, s)
    | (.ok range, s) =>
      let listing : Output := match s.disassemble range with
        | .ok text => ⟨text, ""⟩
        | .error e => ⟨"", "disassembly failed: " ++ e.message ++ "\n"⟩
      let (answer, s) := s.execute range
      (⟨answer.result, listing.append ⟨answer.printed, ""⟩⟩, s)
  else
    let (answer, s) := s.evaluate source
    (⟨answer.result, ⟨answer.printed, ""⟩⟩, s)

def runScript (o : Options) (s : Session) (source : String) : Exit :=
  let (report, _) := runChunk o s source
  match report.result with
  | .ok _ => ⟨0, report.output⟩
  | .error e => ⟨1, report.output.append ⟨"", e.message ++ "\n"⟩⟩

def listScript (o : Options) (source : String) : Exit :=
  match lex source with
  | .ok tokens => ⟨0, ⟨listTokens ⟨!o.noColor, o.pretty⟩ tokens, ""⟩⟩
  | .error e => complain ("Lexer error: " ++ e.message)

/-! ## Lines -/

def prompt : String := "cinder> "

/-- What is written after a line that is not the last one: the value, unless it is nil. -/
def respond (o : Options) (s : Session) (line : String) : Output × Session :=
  if (Text.trim line).isEmpty then (⟨"", ""⟩, s)
  else
    let (report, s) := runChunk o s line
    match report.result with
    | .ok .nil => (report.output, s)
    | .ok v => (report.output.append ⟨v.text s.heap ++ "\n", ""⟩, s)
    | .error e => (report.output.append ⟨"", e.message ++ "\n"⟩, s)

/-- All that is written while lines are read. -/
def converse (o : Options) : Session → List String → Output → Output
  | _, [], written => written.append ⟨prompt ++ "\n", ""⟩
  | s, line :: rest, written =>
    let (output, s) := respond o s line
    converse o s rest ((written.append ⟨prompt, ""⟩).append output)

/-- The lines of a text, each with its line break. -/
def linesOf : List Char → List Char → List String
  | [], [] => []
  | [], current => [String.ofList current.reverse]
  | c :: rest, current =>
    if c = '\n' then String.ofList (c :: current).reverse :: linesOf rest []
    else linesOf rest (c :: current)

/-! ## Starting -/

/-- What is to be done: nothing more, or to read lines. -/
inductive Plan
  | exit (e : Exit)
  | interactive (o : Options) (s : Session)

/-- The settings of a configuration file, given what reading it gave. -/
def configOf (path : String) : Except FileFault String → Except Exit Config
  | .error e => .error (complain ("cannot read config " ++ path ++ ": " ++ e.message))
  | .ok text =>
    match Config.parse text with
    | .ok c => .ok c
    | .error e => .error (complain ("invalid config " ++ path ++ ": " ++ e.message text))

/-- Deals with a script, given what reading it gave. -/
def scriptExit (o : Options) (s : Session) (path : String) : Except FileFault String → Exit
  | .error e => complain ("Failed to read '" ++ path ++ "': " ++ e.message)
  | .ok source => if o.tokens then listScript o source else runScript o s source

def loadConfig {m : Type → Type} [Monad m] (readFile : String → m (Except FileFault String)) :
    Option String → m (Except Exit Config)
  | none => pure (.ok .standard)
  | some path => do return configOf path (← readFile path)

/-- Deals with the arguments; files are read by `readFile`. -/
def start {m : Type → Type} [Monad m] (readFile : String → m (Except FileFault String))
    (world : World) (args : List String) : m Plan := do
  match readArguments .plain args with
  | none => return .exit ⟨2, ⟨"", "error: invalid arguments\n"⟩⟩
  | some o =>
    match ← loadConfig readFile o.config with
    | .error e => return .exit e
    | .ok config =>
      let session := Session.start config.settings #[] .empty world
      match o.file with
      | none => return .interactive o session
      | some path =>
        if extension? path = some "cin" then
          return .exit (scriptExit o session path (← readFile path))
        else return .exit (complain ("Error: expected a .cin file, got " ++ path))

/-- A whole use of the command line in a folder, with all input known. -/
def run (folder : Folder) (stdin : String) (world : World) (args : List String) : Exit :=
  match start (m := Id) folder.read world args with
  | .exit e => e
  | .interactive o s => ⟨0, converse o s (linesOf stdin.toList []) ⟨"", ""⟩⟩

end Cli
end Ember
