import Ember.Ast.Basic
import Ember.Ast.Outline
import Ember.Ast.Parser
import Ember.Builtin.Arguments
import Ember.Builtin.Call
import Ember.Builtin.Conversion
import Ember.Builtin.Core
import Ember.Builtin.Database
import Ember.Builtin.Documents
import Ember.Builtin.Fault
import Ember.Builtin.Math
import Ember.Builtin.Strings
import Ember.Builtin.World
import Ember.Bytecode.Effect
import Ember.Bytecode.Instruction
import Ember.Bytecode.Opcode
import Ember.Cli
import Ember.Compile.Compiler
import Ember.Compile.Error
import Ember.Compile.Fragment
import Ember.Config
import Ember.Decimal.Integer
import Ember.Decimal.Layout
import Ember.Decimal.Reader
import Ember.Decimal.Remainder
import Ember.Decimal.Shortest
import Ember.Disassembly
import Ember.Fault
import Ember.Folder
import Ember.Json.Basic
import Ember.Json.Convert
import Ember.Json.Cursor
import Ember.Json.Reader
import Ember.Json.Skip
import Ember.Machine.Frame
import Ember.Machine.Globals
import Ember.Machine.Run
import Ember.Machine.State
import Ember.Main
import Ember.Operator
import Ember.OrderedMap
import Ember.Proofs.Ast.Consumption
import Ember.Proofs.Ast.Expressions
import Ember.Proofs.Ast.Forks
import Ember.Proofs.Ast.Lines
import Ember.Proofs.Ast.Moves
import Ember.Proofs.Ast.Numbers
import Ember.Proofs.Ast.Operands
import Ember.Proofs.Ast.Pieces
import Ember.Proofs.Ast.Printer
import Ember.Proofs.Ast.Readings
import Ember.Proofs.Ast.RoundTrip
import Ember.Proofs.Ast.Statements
import Ember.Proofs.Ast.Stops
import Ember.Proofs.Ast.Streams
import Ember.Proofs.Builtin.Effects
import Ember.Proofs.Builtin.Parts
import Ember.Proofs.Builtin.Policy
import Ember.Proofs.Builtin.Positions
import Ember.Proofs.Builtin.Ranges
import Ember.Proofs.Builtin.Repetition
import Ember.Proofs.Bytecode.Encoding
import Ember.Proofs.Bytecode.RoundTrip
import Ember.Proofs.Bytecode.Tiling
import Ember.Proofs.Capture.Closures
import Ember.Proofs.Capture.Confinement
import Ember.Proofs.Capture.Ledger
import Ember.Proofs.Capture.Orderly
import Ember.Proofs.Capture.Steps
import Ember.Proofs.Capture.Variables
import Ember.Proofs.Compile.Branches
import Ember.Proofs.Compile.Chunks
import Ember.Proofs.Compile.Constants
import Ember.Proofs.Compile.Demands
import Ember.Proofs.Compile.Drafts
import Ember.Proofs.Compile.Flow
import Ember.Proofs.Compile.Functions
import Ember.Proofs.Compile.Layout
import Ember.Proofs.Compile.Legality
import Ember.Proofs.Compile.Offences
import Ember.Proofs.Compile.Pieces
import Ember.Proofs.Compile.Programs
import Ember.Proofs.Compile.Results
import Ember.Proofs.Compile.Rollback
import Ember.Proofs.Compile.Shapes
import Ember.Proofs.Compile.Splits
import Ember.Proofs.Compile.Stores
import Ember.Proofs.Compile.Survey
import Ember.Proofs.Compile.Verified
import Ember.Proofs.Evaluation.Builtins
import Ember.Proofs.Evaluation.Compiled
import Ember.Proofs.Evaluation.Evaluator
import Ember.Proofs.Evaluation.Plays
import Ember.Proofs.Evaluation.Programs
import Ember.Proofs.Evaluation.Statements
import Ember.Proofs.Json.Cycles
import Ember.Proofs.Json.Documents
import Ember.Proofs.Json.Encoding
import Ember.Proofs.Json.Members
import Ember.Proofs.Json.Reading
import Ember.Proofs.Machine.Actions
import Ember.Proofs.Machine.Bounds
import Ember.Proofs.Machine.Calls
import Ember.Proofs.Machine.Frames
import Ember.Proofs.Machine.Limits
import Ember.Proofs.Machine.Obedience
import Ember.Proofs.Machine.Places
import Ember.Proofs.Machine.Pooling
import Ember.Proofs.Machine.Runs
import Ember.Proofs.Machine.Steps
import Ember.Proofs.Machine.Stores
import Ember.Proofs.Machine.Stretches
import Ember.Proofs.Machine.Twins
import Ember.Proofs.Maps.Events
import Ember.Proofs.Maps.Histories
import Ember.Proofs.OrderedMap
import Ember.Proofs.Scope
import Ember.Proofs.Scope.Histories
import Ember.Proofs.Scope.Resolution
import Ember.Proofs.Scope.Trees
import Ember.Proofs.Session.Calls
import Ember.Proofs.Session.Capture
import Ember.Proofs.Session.Confinement
import Ember.Proofs.Session.Continuation
import Ember.Proofs.Session.Faults
import Ember.Proofs.Session.Growth
import Ember.Proofs.Session.Names
import Ember.Proofs.Session.Refusals
import Ember.Proofs.Session.Results
import Ember.Proofs.Session.Safety
import Ember.Proofs.Session.Splits
import Ember.Proofs.Session.Verification
import Ember.Proofs.Text.Search
import Ember.Proofs.Token.Lines
import Ember.Proofs.Token.Positions
import Ember.Proofs.Token.Readers
import Ember.Proofs.Token.Spelling
import Ember.Proofs.Value.Bisimilarity
import Ember.Proofs.Value.Data
import Ember.Proofs.Value.Heaps
import Ember.Proofs.Value.Integers
import Ember.Proofs.Value.Lists
import Ember.Proofs.Value.Literals
import Ember.Proofs.Value.Operators
import Ember.Proofs.Value.Policy
import Ember.Proofs.Value.Sketches
import Ember.Proofs.Verify.Acceptance
import Ember.Proofs.Verify.Cells
import Ember.Proofs.Verify.Heights
import Ember.Proofs.Verify.Orders
import Ember.Proofs.Verify.Soundness
import Ember.Proofs.Verify.Specification
import Ember.Scope
import Ember.Session
import Ember.Settings
import Ember.Text.Blank
import Ember.Text.Case
import Ember.Text.Intervals
import Ember.Text.Letter
import Ember.Text.Padding
import Ember.Text.Printable
import Ember.Text.Quoted
import Ember.Text.Search
import Ember.Token.Basic
import Ember.Token.Lexer
import Ember.Token.Listing
import Ember.Value.Basic
import Ember.Value.Equality
import Ember.Value.Heap
import Ember.Value.Native
import Ember.Value.Operators
import Ember.Value.Routine
import Ember.Value.Subscript
import Ember.Value.Text
import Ember.Verify.Error
import Ember.Verify.Verifier
