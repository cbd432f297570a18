/-! JSON values and their compact text. -/
namespace TableLexer

/-- A JSON value. A string is `none` if its escapes do not spell Unicode text, and a number is kept
only if it is written as an integer other than `-0`. -/
inductive Json where
  | null
  | bool (b : Bool)
  | integer (n : Int)
  | otherNumber
  | string (text : Option String)
  | array (items : List Json)
  | object (fields : List (Option String × Json))
deriving Repr, Inhabited

namespace Json

/-- A character within a string: quotes, backslashes and control characters are escaped. -/
def escape (c : Char) : List Char :=
  match c with
  | '"' => ['\\', '"']
  | '\\' => ['\\', '\\']
  | '\x08' => ['\\', 'b']
  | '\x0c' => ['\\', 'f']
  | '\n' => ['\\', 'n']
  | '\r' => ['\\', 'r']
  | '\t' => ['\\', 't']
  | c =>
    if c.toNat < 0x20 then
      ['\\', 'u', '0', '0', Nat.digitChar (c.toNat / 16), Nat.digitChar (c.toNat % 16)]
    else [c]

def quote (text : String) : String :=
  String.ofList ('"' :: text.toList.flatMap escape ++ ['"'])

mutual

/-- Appends the text of a value without any blanks. -/
def write (out : String) : Json → String
  | null => out ++ "null"
  | bool b => out ++ (if b then "true" else "false")
  | integer n => out ++ toString n
  | otherNumber => out ++ "-0"
  | string text => out ++ quote (text.getD "")
  | array items => (writeItems (out.push '[') items).push ']'
  | object fields => (writeFields (out.push '{') fields).push '}'

/-- Appends the items of an array, separated by commas. -/
def writeItems (out : String) : List Json → String
  | [] => out
  | item :: rest =>
    let out := write out item
    match rest with
    | [] => out
    | _ => writeItems (out.push ',') rest

/-- Appends the fields of an object, separated by commas. -/
def writeFields (out : String) : List (Option String × Json) → String
  | [] => out
  | (key, value) :: rest =>
    let out := write ((out ++ quote (key.getD "")).push ':') value
    match rest with
    | [] => out
    | _ => writeFields (out.push ',') rest

end

/-- The compact text of a value. -/
def compact (j : Json) : String := write "" j

def ofNat (n : Nat) : Json := integer n

def ofString (s : String) : Json := string (some s)

def ofList {α : Type} (f : α → Json) (items : List α) : Json := array (items.map f)

end Json

end TableLexer
