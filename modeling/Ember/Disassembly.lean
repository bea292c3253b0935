import Ember.Text.Padding
import Ember.Text.Quoted
import Ember.Value.Routine
import Ember.Value.Text

/-! Code as text, one instruction a line: its offset, its mnemonic and operands, and a note on what
the operands stand for. Offsets that are jumped to are marked. The functions that a stretch of code
loads follow it, each with all functions among its constants, indented by their depth. -/
namespace Ember
namespace Routine
set_option autoImplicit false

/-! ## Lines -/

/-- A text is quoted, and other constants are shown as they are printed. -/
def constantText (h : Heap) : Value → String
  | .str s => Text.quote s
  | v => v.text h

/-- What the operands of an instruction stand for. -/
def note? (h : Heap) (f : Routine Value) (ins : Instruction) (offset : Nat) : Option String :=
  let i := ins.operand 0
  match ins.op with
  | .loadConst => (f.constants[i]?).map (constantText h)
  | .loadGlobal | .storeGlobal | .loadName | .storeName | .loadAttr | .storeAttr => f.names[i]?
  | .loadFast | .storeFast => f.scope.slots[i]?
  | .loadFree | .storeFree => (f.freeVariables[i]?).map (·.name)
  | .makeCell =>
    if ins.operand 1 = 0 then
      match f.scope.slots[i]? with
      | some name => some ("local " ++ name)
      | none => some "local"
    else
      match f.freeVariables[i]? with
      | some free => some ("free " ++ free.name)
      | none => some "free"
  | .loadClosure =>
    (f.constants[i]?).map fun c =>
      constantText h c ++ " with " ++ toString (ins.operand 1) ++ " cell(s)"
  | .binaryOp => (BinaryOperator.ofSelector? i).map (·.symbol)
  | .compareOp => (Comparison.ofSelector? i).map (·.symbol)
  | .returnValue => some (if i = 1 then "value" else "nil")
  | op =>
    (ins.target? offset).map fun target =>
      (if op.isBackward then "↑" else "↓") ++ " to " ++ Text.offset target

def instructionText (h : Heap) (f : Routine Value) (ins : Instruction) (offset : Nat) : String :=
  let operands := ins.operands.map toString
  let head := if operands.isEmpty then ins.op.mnemonic
    else Text.padRight ' ' 26 ins.op.mnemonic ++ " " ++ String.intercalate " " operands
  match f.note? h ins offset with
  | some note => Text.padRight ' ' 34 head ++ " ; " ++ note
  | none => head

/-! ## Functions -/

def ruler : String := "════════════════════════════════════════"

def indentation (depth : Nat) : String := String.ofList (List.replicate (2 * depth) ' ')

def header (f : Routine Value) (depth : Nat) : String :=
  let indent := indentation depth
  let params := String.intercalate ", " f.params.toList
  let path := f.scope.path
  let bytes := f.code.size
  let constants := f.constants.size
  let names := f.names.size
  let locals := f.localCount
  let free := f.freeVariables.size
  s!"{indent}{ruler}\n{indent} {path}({params})\n{indent} {bytes} bytes, {constants} constants, " ++
    s!"{names} names, {locals} locals, {free} free\n{indent}{ruler}\n"

/-- The instructions of a stretch of code. Offsets of faults count from its start. -/
def sweep (f : Routine Value) (range : CodeRange) :
    Except DecodeError (Array (Nat × Instruction)) :=
  let found := Sweep.of (f.code.extract range.start range.stop)
  match found.fault with
  | some e => .error e
  | none => .ok (found.instructions.map fun e => (range.start + e.1, e.2))

def listing (h : Heap) (f : Routine Value) (depth : Nat) (code : Array (Nat × Instruction)) :
    String :=
  let indent := indentation depth
  let targets : Std.HashMap Nat Unit :=
    code.foldl (fun found e =>
      match e.2.target? e.1 with
      | some target => found.insert target ()
      | none => found) ∅
  code.foldl (fun out e =>
    let marked := targets.contains e.1
    let out :=
      if marked then out ++ indent ++ "      ┌──────────────────────────────────\n" else out
    out ++ indent ++ Text.offset e.1 ++ " " ++ (if marked then "► " else "  ")
      ++ f.instructionText h e.2 e.1 ++ "\n") ""

mutual

/-- A function with all functions among its constants. -/
def nestedText (h : Heap) (f : Routine Value) (depth : Nat) : Except DecodeError String :=
  match f.sweep f.range with
  | .error e => .error e
  | .ok code =>
    let out := f.header depth ++ f.listing h depth code ++ "\n"
    constantsText h f depth (List.range f.constants.size) out
termination_by (sizeOf f, 1, 0)

/-- The functions at the given places among the constants, after `out`. -/
def constantsText (h : Heap) (f : Routine Value) (depth : Nat) :
    List Nat → String → Except DecodeError String
  | [], out => .ok out
  | i :: rest, out =>
    match _hi : f.constants[i]? with
    | some (.function g) =>
      match nestedText h g (depth + 1) with
      | .error e => .error e
      | .ok text => constantsText h f depth rest (out ++ text)
    | _ => constantsText h f depth rest out
termination_by places => (sizeOf f, 0, places.length)
decreasing_by
  · exact Prod.Lex.left _ _ (Routine.sizeOf_lt_of_getElem? _hi)
  · exact Prod.Lex.right _ (Prod.Lex.right _ (by simp))
  · exact Prod.Lex.right _ (Prod.Lex.right _ (by simp))

end

/-- A stretch of code and the functions that it loads. -/
def disassembleRange (h : Heap) (f : Routine Value) (range : CodeRange) :
    Except DecodeError String :=
  match f.sweep range with
  | .error e => .error e
  | .ok code =>
    let loaded : OrderedMap Nat Unit := code.foldl (fun found e =>
      match f.loaded? e.2 with
      | some i => found.insert i ()
      | none => found) .empty
    constantsText h f 0 loaded.keys.toList (f.header 0 ++ f.listing h 0 code ++ "\n")

def disassemble (h : Heap) (f : Routine Value) : Except DecodeError String :=
  f.disassembleRange h f.range

end Routine
end Ember
