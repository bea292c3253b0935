import Ember.Ast.Parser
import Ember.Compile.Compiler
import Ember.Disassembly
import Ember.Machine.Run
import Ember.Verify.Verifier

/-! Sessions: programs that are compiled one after the other into one growing stretch of code and
run with one set of names. What an earlier program has bound is there for the later ones. -/
namespace Ember
set_option autoImplicit false

structure Session where
  compiler : Compiler
  globals : Globals
  heap : Heap
  world : World
  surroundings : Surroundings

/-- Why a program gives no value. -/
inductive SessionError
  | source (e : SourceError)
  | compile (e : CompileError)
  | verify (e : VerifyError)
  | run (f : Failure)
  /-- The run did not end within the steps that it was allowed. -/
  | unfinished

def SessionError.message : SessionError → String
  | source e => e.message
  | compile e => e.message
  | verify e => e.message
  | run f => f.report
  | unfinished => "run not finished"

/-- What comes of a program: its value or an error, and what it has printed. -/
structure Answer where
  result : Except SessionError Value
  printed : String

namespace Session

/-- A session with the functions of the host added to the builtins. -/
def start (settings : Settings) (host : Array HostFunction) (heap : Heap) (world : World) :
    Session :=
  let (globals, heap) := Globals.standard host heap
  { compiler := .start globals.builtinNames heap.nextId
    globals
    heap
    world
    surroundings := ⟨settings, host⟩ }

def settings (s : Session) : Settings := s.surroundings.settings

/-- All code of the session. -/
def main (s : Session) : Routine Value := s.compiler.main

/-- Adds a program to the code. A program that is refused by the compiler leaves no trace; one that
is refused by the verifier stays in the code, but is not run. -/
def compile (s : Session) (p : Program) : Except SessionError CodeRange × Session :=
  match s.compiler.submit p with
  | (.error e, compiler) => (.error (.compile e), { s with compiler })
  | (.ok range, compiler) =>
    let s := { s with compiler }
    if s.settings.verify then
      match verifyChunk s.main range with
      | .error e => (.error (.verify e), s)
      | .ok () => (.ok range, s)
    else (.ok range, s)

/-- Runs a chunk of the code for at most so many steps. Its value is what it leaves on the stack, or
nil. -/
def executeFor (s : Session) (fuel : Nat) (range : CodeRange) : Answer × Session :=
  let main := s.main
  match s with
  | ⟨compiler, globals, heap, world, surroundings⟩ =>
    let machine := Machine.start main range.start globals heap { world with cancelled := false }
    match Machine.run surroundings fuel machine with
    | .halted m =>
      (⟨.ok (m.top?.getD .nil), m.output⟩, ⟨compiler, m.globals, m.heap, m.world, surroundings⟩)
    | .failed failure m =>
      (⟨.error (.run failure), m.output⟩, ⟨compiler, m.globals, m.heap, m.world, surroundings⟩)
    | .running m =>
      (⟨.error .unfinished, m.output⟩, ⟨compiler, m.globals, m.heap, m.world, surroundings⟩)

/-- Runs a chunk of the code. -/
def execute (s : Session) (range : CodeRange) : Answer × Session :=
  s.executeFor Machine.ample range

/-- Reads a program and adds it to the code. -/
def load (s : Session) (source : String) : Except SessionError CodeRange × Session :=
  match parse source with
  | .error e => (.error (.source e), s)
  | .ok p => s.compile p

/-- Reads, compiles and runs a program. -/
def evaluate (s : Session) (source : String) : Answer × Session :=
  match s.load source with
  | (.error e, s) => (⟨.error e, ""⟩, s)
  | (.ok range, s) => s.execute range

def disassemble (s : Session) (range : CodeRange) : Except DecodeError String :=
  s.main.disassembleRange s.heap range

end Session
end Ember
