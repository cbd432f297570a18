import TableLexer.Json.Basic
import TableLexer.Text.Hexadecimal

/-! Reading JSON text. -/
namespace TableLexer

namespace Json

def isBlank (c : Char) : Bool := c == ' ' || c == '\n' || c == '\r' || c == '\t'

def skipBlanks : List Char → List Char
  | c :: rest => if isBlank c then skipBlanks rest else c :: rest
  | [] => []

/-- Reads four hexadecimal digits. -/
def readUnit : List Char → Option (Nat × List Char)
  | a :: b :: c :: d :: rest => do
    let a ← Text.hexValue? a
    let b ← Text.hexValue? b
    let c ← Text.hexValue? c
    let d ← Text.hexValue? d
    return (((a * 16 + b) * 16 + c) * 16 + d, rest)
  | _ => none

/-- The character that an escape of one letter stands for. -/
def simpleEscape? : Char → Option Char
  | '"' => some '"'
  | '\\' => some '\\'
  | '/' => some '/'
  | 'b' => some '\x08'
  | 'f' => some '\x0c'
  | 'n' => some '\n'
  | 'r' => some '\r'
  | 't' => some '\t'
  | _ => none

/-- A part of a string: a character, or half of a pair of surrogates that make one together. -/
inductive Piece where
  | char (c : Char)
  | surrogate (unit : Nat)

/-- Reads the rest of a string, up to its closing quote. Every piece takes one unit of fuel. -/
def readPieces : Nat → List Piece → List Char → Option (List Piece × List Char)
  | 0, _, _ => none
  | fuel + 1, pieces, text =>
    match text with
    | '"' :: rest => some (pieces.reverse, rest)
    | '\\' :: 'u' :: rest =>
      match readUnit rest with
      | none => none
      | some (unit, rest) =>
        let piece := if 0xD800 ≤ unit ∧ unit ≤ 0xDFFF then .surrogate unit else .char (Char.ofNat unit)
        readPieces fuel (piece :: pieces) rest
    | '\\' :: c :: rest =>
      match simpleEscape? c with
      | none => none
      | some c => readPieces fuel (.char c :: pieces) rest
    | c :: rest => if c.toNat < 0x20 ∨ c = '\\' then none else readPieces fuel (.char c :: pieces) rest
    | [] => none

/-- Joins pairs of surrogates. Any other surrogate spells no text. -/
def joinPieces : List Char → List Piece → Option (List Char)
  | made, [] => some made.reverse
  | made, .char c :: rest => joinPieces (c :: made) rest
  | made, .surrogate high :: .surrogate low :: rest =>
    if high < 0xDC00 ∧ 0xDC00 ≤ low then
      joinPieces (Char.ofNat (0x10000 + (high - 0xD800) * 0x400 + (low - 0xDC00)) :: made) rest
    else none
  | _, .surrogate _ :: _ => none

/-- Reads a string after its opening quote. -/
def readString (text : List Char) : Option (Option String × List Char) := do
  let (pieces, rest) ← readPieces (text.length + 1) [] text
  return ((joinPieces [] pieces).map String.ofList, rest)

def digits (text : List Char) : List Char × List Char := text.span Char.isDigit

/-- Reads what may follow the integer part of a number: a fraction and an exponent. The flag tells
whether there was any. -/
def readTail (text : List Char) : Option (Bool × List Char) := do
  let (fraction, text) ← match text with
    | '.' :: rest =>
      let (ds, rest) := digits rest
      if ds.isEmpty then none else some (true, rest)
    | _ => some (false, text)
  match text with
  | c :: rest =>
    if c = 'e' ∨ c = 'E' then
      let rest := match rest with
        | s :: tail => if s = '+' ∨ s = '-' then tail else rest
        | [] => rest
      let (ds, rest) := digits rest
      if ds.isEmpty then none else some (true, rest)
    else some (fraction, text)
  | [] => some (fraction, text)

def digitsValue (ds : List Char) : Nat := ds.foldl (fun n d => n * 10 + (d.toNat - '0'.toNat)) 0

/-- Reads a number. No integer part but zero starts with a zero. -/
def readNumber (text : List Char) : Option (Json × List Char) := do
  let (negative, text) := match text with
    | '-' :: rest => (true, rest)
    | _ => (false, text)
  let (ds, text) := digits text
  if ds.isEmpty || (ds.length > 1 && ds.head? == some '0') then none
  let (hasTail, text) ← readTail text
  let n := digitsValue ds
  if hasTail || (negative && n == 0) then return (otherNumber, text)
  return (integer (if negative then -n else n), text)

def dropText? : List Char → List Char → Option (List Char)
  | [], text => some text
  | c :: rest, d :: text => if c = d then dropText? rest text else none
  | _ :: _, [] => none

mutual

/-- Reads a value. Every value, item and field takes one unit of fuel. -/
def readValue : Nat → List Char → Option (Json × List Char)
  | 0, _ => none
  | fuel + 1, text =>
    match skipBlanks text with
    | '[' :: rest =>
      match skipBlanks rest with
      | ']' :: rest => some (array [], rest)
      | rest => readItems fuel [] rest
    | '{' :: rest =>
      match skipBlanks rest with
      | '}' :: rest => some (object [], rest)
      | rest => readFields fuel [] rest
    | '"' :: rest => (readString rest).map fun (s, rest) => (string s, rest)
    | 'n' :: rest => (dropText? ['u', 'l', 'l'] rest).map (null, ·)
    | 't' :: rest => (dropText? ['r', 'u', 'e'] rest).map (bool true, ·)
    | 'f' :: rest => (dropText? ['a', 'l', 's', 'e'] rest).map (bool false, ·)
    | rest => readNumber rest

/-- Reads the items of an array up to its end. -/
def readItems : Nat → List Json → List Char → Option (Json × List Char)
  | 0, _, _ => none
  | fuel + 1, items, text =>
    match readValue fuel text with
    | none => none
    | some (item, rest) =>
      match skipBlanks rest with
      | ',' :: rest => readItems fuel (item :: items) rest
      | ']' :: rest => some (array (item :: items).reverse, rest)
      | _ => none

/-- Reads the fields of an object up to its end. -/
def readFields : Nat → List (Option String × Json) → List Char → Option (Json × List Char)
  | 0, _, _ => none
  | fuel + 1, fields, text =>
    match skipBlanks text with
    | '"' :: rest =>
      match readString rest with
      | none => none
      | some (key, rest) =>
        match skipBlanks rest with
        | ':' :: rest =>
          match readValue fuel rest with
          | none => none
          | some (value, rest) =>
            match skipBlanks rest with
            | ',' :: rest => readFields fuel ((key, value) :: fields) rest
            | '}' :: rest => some (object ((key, value) :: fields).reverse, rest)
            | _ => none
        | _ => none
    | _ => none

end

/-- The value that a text holds, with nothing but blanks around it. Every unit of fuel but the
first is paid with a character. -/
def parse? (text : String) : Option Json :=
  let text := text.toList
  match readValue (text.length + 1) text with
  | some (value, rest) => if (skipBlanks rest).isEmpty then some value else none
  | none => none

def asNat? (bound : Nat) : Json → Option Nat
  | integer n => if 0 ≤ n ∧ n < bound then some n.toNat else none
  | _ => none

def asList? {α : Type} (f : Json → Option α) : Json → Option (List α)
  | array items => items.mapM f
  | _ => none

def asString? : Json → Option String
  | string text => text
  | _ => none

/-- The value of a field that an object must have once. -/
def field? (name : String) (fields : List (String × Json)) : Option Json :=
  match fields.filter (·.1 = name) with
  | [(_, value)] => some value
  | _ => none

/-- The values of a record with the given fields: an object that has each of them once, and perhaps
others, or an array of just these values in order. -/
def record? (names : List String) : Json → Option (List Json)
  | array items => if items.length = names.length then some items else none
  | object fields => do
    let fields ← fields.mapM fun (key, value) => key.map (·, value)
    names.mapM (field? · fields)
  | _ => none

end Json

end TableLexer
