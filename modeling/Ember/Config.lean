import Ember.Json.Reader
import Ember.Json.Skip
import Ember.Settings
import Ember.Text.Quoted

/-! Reading the settings of a session from a JSON document. A record is written as an object, whose
unknown members are left out, or as an array of its fields in order; fields that are not given keep
their standard values. -/
namespace Ember
set_option autoImplicit false

structure Config where
  settings : Settings
  /-- What is logged. -/
  logFilter : String
  deriving DecidableEq, Repr

namespace Config

open Json

def standard : Config := ⟨.standard, "warn"⟩

/-! ## Simple values -/

def numberFound : JsonNumber → String
  | .whole n => "integer `" ++ toString n ++ "`"
  | .float x => "floating point `" ++ Decimal.encoded.float x ++ "`"

/-- Fails because another sort of value is found than is expected. The value found is read first,
unless it is an array or an object. -/
def mismatch {α : Type} (expected : String) (s : List Char) : Except ReadError α :=
  match s with
  | [] => failPast [] .expectedValue
  | c :: r =>
    if c = 'n' then do
      let x ← readWord ['u', 'l', 'l'] r
      failAt x.rest (.wrongType "null" expected)
    else if c = 't' then do
      let x ← readWord ['r', 'u', 'e'] r
      failAt x.rest (.wrongType "boolean `true`" expected)
    else if c = 'f' then do
      let x ← readWord ['a', 'l', 's', 'e'] r
      failAt x.rest (.wrongType "boolean `false`" expected)
    else if c = '-' then do
      let x ← readNumber true r
      failAt x.rest (.wrongType (numberFound x.value) expected)
    else if c.isDigit then do
      let x ← readNumber false (c :: r)
      failAt x.rest (.wrongType (numberFound x.value) expected)
    else if c = '"' then do
      let x ← readText r
      failAt x.rest (.wrongType ("string " ++ Text.quote x.value) expected)
    else if c = '[' then failAt (c :: r) (.wrongType "sequence" expected)
    else if c = '\x7b' then failAt (c :: r) (.wrongType "map" expected)
    else failPast (c :: r) .expectedValue

/-- Reads after blanks, at a character that there has to be. -/
def atValue {α : Type}
    (read : (c : Char) → (r : List Char) → Except ReadError (Read α (r.length + 1))) :
    Reader α := fun s =>
  match h : skipBlank s with
  | [] => failPast [] .eofValue
  | c :: r => (read c r).map fun x => x.widen (length_lt_of_skipBlank h)

/-- The count that a number stands for. -/
def countOf {n : Nat} (x : Read JsonNumber n) : Except ReadError (Read Nat n) :=
  match x.value with
  | .whole (.ofNat count) => .ok (x.map fun _ => count)
  | .whole m => failAt x.rest (.wrongValue (numberFound (.whole m)) "usize")
  | .float y => failAt x.rest (.wrongType (numberFound (.float y)) "usize")

def readCount : Reader Nat :=
  atValue fun c r =>
    if c = '-' then
      match readNumber true r with
      | .error e => .error e
      | .ok x => countOf (x.widen (by omega))
    else if c.isDigit then
      match readNumber false (c :: r) with
      | .error e => .error e
      | .ok x => countOf x
    else mismatch "usize" (c :: r)

def readLimit : Reader (Option Nat) :=
  atValue fun c r =>
    if c = 'n' then (readWord ['u', 'l', 'l'] r).map fun x => x.map fun _ => none
    else (readCount (c :: r)).map fun x => x.map some

def readFlag : Reader Bool :=
  atValue fun c r =>
    if c = 't' then (readWord ['r', 'u', 'e'] r).map fun x => x.map fun _ => true
    else if c = 'f' then (readWord ['a', 'l', 's', 'e'] r).map fun x => x.map fun _ => false
    else mismatch "a boolean" (c :: r)

def readString : Reader String :=
  atValue fun c r => if c = '"' then readText r else mismatch "a string" (c :: r)

/-! ## Records -/

/-- A field of a record: its name, and how its value is read and stored. -/
structure Field (σ : Type) where
  name : String
  read : σ → Reader σ

def field {σ α : Type} (name : String) (read : Reader α) (store : σ → α → σ) : Field σ :=
  ⟨name, fun record s => (read s).map fun x => x.map (store record)⟩

/-- Fails because a field is given twice. What follows its name is looked at before. -/
def failDuplicate {α : Type} (name : String) (s : List Char) : Except ReadError α :=
  match skipBlank s with
  | '\x7d' :: r => failAt r (.duplicateField name)
  | r => failAt r (.duplicateField name)

/-- A member of an object that stands for a record. The state is the record and the names of the
fields that have been given. -/
def readMember {σ : Type} (fields : List (Field σ)) (state : σ × List String) (name : String) :
    Reader (σ × List String) := fun s =>
  match fields.find? fun f => f.name == name with
  | some f =>
    if state.2.contains name then failDuplicate name s
    else
      match readColon s with
      | .error e => .error e
      | .ok ⟨_, r, h⟩ =>
        (f.read state.1 r).map fun x =>
          (x.map fun record => (record, name :: state.2)).widenLt h
  | none =>
    match readColon s with
    | .error e => .error e
    | .ok ⟨_, r, h⟩ => (skip r).map fun x => (x.map fun _ => state).widenLt h

/-- The end of an array all fields of which have been read. -/
def readClosing {σ : Type} (record : σ) : Reader σ := fun s =>
  match h : skipBlank s with
  | [] => failPast [] .eofList
  | c :: r =>
    if c = ']' then .ok ⟨record, r, length_lt_of_skipBlank h⟩
    else if c = ',' then
      match skipBlank r with
      | ']' :: t => failPast (']' :: t) .trailingComma
      | t => failPast t .trailingCharacters
    else failPast (c :: r) .trailingCharacters

/-- Fields one after the other in an array, as many as there are. -/
def readInOrder {σ : Type} (first : Bool) (record : σ) : List (Field σ) → Reader σ
  | [] => readClosing record
  | f :: fields => fun s =>
    match h : skipBlank s with
    | [] => failPast [] .eofList
    | c :: r =>
      have hr : (c :: r).length ≤ s.length := length_le_of_skipBlank h
      if c = ']' then .ok ⟨record, r, length_lt_of_skipBlank h⟩
      else if first then
        match f.read record (c :: r) with
        | .error e => .error e
        | .ok ⟨record, t, ht⟩ => (readInOrder false record fields t).map fun x => x.widen (by omega)
      else if c = ',' then
        match hd : skipBlank r with
        | [] => failPast [] .eofValue
        | d :: t =>
          have ht := length_lt_of_skipBlank hd
          if d = ']' then failPast (d :: t) .trailingComma
          else
            match f.read record (d :: t) with
            | .error e => .error e
            | .ok ⟨record, u, hu⟩ =>
              (readInOrder false record fields u).map fun x =>
                x.widen (by simp only [List.length_cons] at hr hu; omega)
      else failPast (c :: r) .expectedListComma

/-- A record as an object or as an array. -/
def readRecord {σ : Type} (title : String) (fields : List (Field σ)) (standard : σ) : Reader σ :=
  atValue fun c r =>
    if c = '[' then (readInOrder true standard fields r).map fun x => x.widen (by omega)
    else if c = '\x7b' then
      (readObject (readMember fields) (standard, []) r).map fun x =>
        (x.map fun state => state.1).widen (by omega)
    else mismatch ("struct " ++ title) (c :: r)

/-! ## The document -/

def settingsFields : List (Field Settings) := [
  field "max_call_depth" readCount fun s n => { s with maxCallDepth := n },
  field "max_steps" readLimit fun s n => { s with maxSteps := n },
  field "max_stack_size" readCount fun s n => { s with maxStackSize := n },
  field "verify" readFlag fun s b => { s with verify := b }]

def fields : List (Field Config) := [
  field "vm" (readRecord "VmConfig" settingsFields .standard) fun c s => { c with settings := s },
  field "log_filter" readString fun c s => { c with logFilter := s }]

def parse (source : String) : Except ReadError Config :=
  match readRecord "Config" fields standard source.toList with
  | .error e => .error e
  | .ok r => checkEnd r.value r.rest

end Config
end Ember
