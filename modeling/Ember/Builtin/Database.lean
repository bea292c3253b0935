import Ember.Builtin.World

/-! The functions of the library `pgx`. A connection is known by its number; it stays open until it
is closed, and what is asked of it is answered by the driver. What the driver reports comes back as
a result, while a wrong argument is a failure of the call. -/
namespace Ember
set_option autoImplicit false

/-! ## Rows -/

namespace Column

/-- What is null or cannot be read is nil. -/
def valueOf {α : Type} (value : α → Value) (read : Except String (Option α)) : Value :=
  match read with
  | .ok (some a) => value a
  | .ok none | .error _ => .nil

def toValue : Column → Value
  | bool read => valueOf .bool read
  | int16 read => valueOf (fun n => .int n.toInt64) read
  | int32 read => valueOf (fun n => .int n.toInt64) read
  | int64 read => valueOf .int read
  | float32 read => valueOf (fun x => .float x.toFloat) read
  | float64 read => valueOf .float read
  | other read => valueOf .str read

end Column

/-- A row as a map from the names of its columns; of two columns of one name the later one
counts. -/
def Row.entries (row : Row) : OrderedMap Key Value :=
  row.foldl (fun entries (name, column) => entries.insert (.str name) column.toValue) .empty

/-- The maps of the rows, in their order. -/
def rowValues : List Row → OnHeap CallFault (List Value)
  | [] => return []
  | row :: rows => do
    let v ← OnHeap.newMap (Row.entries row)
    return v :: (← rowValues rows)

/-! ## Arguments -/

namespace DatabaseFunction

def connectionArgument (name : String) : Value → Except CallFault Nat
  | .resource (.connection id) => .ok id
  | v => wrongType name "a connection argument" v

def parameterArgument (name : String) : Value → Except CallFault Parameter
  | .nil => .ok .null
  | .bool b => .ok (.bool b)
  | .int n => .ok (.int n)
  | .float x => .ok (.float x)
  | .str s => .ok (.text s)
  | v => .error (.unbindable name v.typeName)

/-- A statement has a connection, a text and parameters. -/
def statement (name : String) (args : Array Value) :
    Except CallFault (Nat × String × List Parameter) :=
  match args.toList with
  | connection :: text :: parameters => do
    let connection ← connectionArgument name connection
    let text ← strArgument name text
    let parameters ← parameters.mapM (parameterArgument name)
    return (connection, text, parameters)
  | _ => .error (.databaseCount name "at least two arguments" args.size)

def address (args : Array Value) : Except CallFault String :=
  match args.toList with
  | [v] => strArgument "pgx.connect" v
  | _ => .error (.databaseCount "pgx.connect" "exactly one argument" args.size)

def closed (args : Array Value) : Except CallFault Nat :=
  match args.toList with
  | [v] => connectionArgument "pgx.close" v
  | _ => .error (.databaseCount "pgx.close" "exactly one argument" args.size)

/-! ## Calls -/

/-- What the driver has answered as a result. -/
def answer {α : Type} (w : World) (value : α → OnHeap CallFault Value) :
    Except String α → OnHeap CallFault (Value × World)
  | .ok a => do
    let v ← OnHeap.newResult true (← value a)
    return (v, w)
  | .error reason => do
    let v ← OnHeap.newFailure reason
    return (v, w)

/-- A connection under the next number, which is open. -/
def opened (w : World) : OnHeap CallFault (Value × World) := do
  let id ← modifyGet Heap.newId
  let v ← OnHeap.newResult true (.resource (.connection id))
  return (v, w.connected id)

/-- Asks the driver, if the connection is open. -/
def onConnection (w : World) (connection : Nat)
    (next : Driver → World → OnHeap CallFault (Value × World)) : OnHeap CallFault (Value × World) :=
  if w.connections.contains connection then
    let (driver, w) := w.askDriver
    next driver w
  else do
    let v ← OnHeap.newFailure "pgx: connection is closed"
    return (v, w)

def call (f : DatabaseFunction) (args : Array Value) : WorldCall := fun w =>
  match f with
  | .connect => do
    let address ← ask fun _ => address args
    let (driver, w) := w.askDriver
    match driver.connect address with
    | .ok () => opened w
    | .error reason => answer w (fun () => return .nil) (.error reason)
  | .exec => do
    let (connection, text, parameters) ← ask fun _ => statement "pgx.exec" args
    onConnection w connection fun driver w =>
      answer w (fun count => return .int count.toInt64) (driver.execute connection text parameters)
  | .query => do
    let (connection, text, parameters) ← ask fun _ => statement "pgx.query" args
    onConnection w connection fun driver w =>
      answer w (fun rows => do OnHeap.newList (← rowValues rows).toArray)
        (driver.query connection text parameters)
  | .close => do
    let connection ← ask fun _ => closed args
    if w.connections.contains connection then
      let (driver, w) := w.askDriver
      answer (w.disconnected connection) (fun () => return .nil) (driver.close connection)
    else answer w (fun () => return .nil) (.ok ())

end DatabaseFunction
end Ember
