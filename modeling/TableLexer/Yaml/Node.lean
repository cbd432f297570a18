/-! YAML values. -/
namespace TableLexer.Yaml

/-- A YAML value. A real number is kept as it is written. A scalar that does not fit its tag, and an
alias within what it stands for, are `bad`. -/
inductive Node where
  | null
  | bool (b : Bool)
  | integer (n : Int)
  | real (text : String)
  | string (text : String)
  | sequence (items : List Node)
  | mapping (entries : List (Node × Node))
  | bad
deriving BEq, Repr, Inhabited

namespace Node

def string? : Node → Option String
  | string text => some text
  | _ => none

def bool? : Node → Option Bool
  | bool b => some b
  | _ => none

def integer? : Node → Option Int
  | integer n => some n
  | _ => none

/-- The value of a key of a mapping. -/
def get? (node : Node) (key : String) : Option Node :=
  match node with
  | mapping entries => (entries.find? (·.1 == string key)).map (·.2)
  | _ => none

/-- Adds an entry at the end, in place of one with the same key. -/
def insert (entries : List (Node × Node)) (key value : Node) : List (Node × Node) :=
  entries.filter (·.1 != key) ++ [(key, value)]

/-- Reads keys and values in turn; `key` is a key that waits for its value. What is bad is no key:
the next node takes its place. -/
def pairUp (key : Option Node) (entries : List (Node × Node)) : List Node → List (Node × Node)
  | [] => entries
  | node :: rest =>
    match key with
    | some key => pairUp none (insert entries key node) rest
    | none => pairUp (if node == bad then none else some node) entries rest

/-- The mapping with the given keys and values. -/
def ofFlat (nodes : List Node) : Node := mapping (pairUp none [] nodes)

/-- The digits of a number, read in a base; there must be some. -/
def natOfDigits? (base : Nat) (digits : List Char) : Option Nat :=
  if digits.isEmpty then none
  else digits.foldlM (fun n c => do
    let d ←
      if c.isDigit then some (c.toNat - '0'.toNat)
      else if 'a' ≤ c ∧ c ≤ 'z' then some (c.toNat - 'a'.toNat + 10)
      else if 'A' ≤ c ∧ c ≤ 'Z' then some (c.toNat - 'A'.toNat + 10)
      else none
    if d < base then some (n * base + d) else none) 0

/-- A 64-bit integer with an optional sign. -/
def integerOf? (base : Nat) (text : List Char) : Option Int := do
  let n ← match text with
    | '-' :: digits => (natOfDigits? base digits).map fun n => -(n : Int)
    | '+' :: digits => (natOfDigits? base digits).map Int.ofNat
    | digits => (natOfDigits? base digits).map Int.ofNat
  if -0x8000000000000000 ≤ n ∧ n < 0x8000000000000000 then some n else none

/-- Whether a text is a number with an optional sign, fraction and exponent, or the name of infinity
or of no number. -/
def isReal (text : String) : Bool :=
  let special := [".inf", ".Inf", ".INF", "+.inf", "+.Inf", "+.INF", "-.inf", "-.Inf", "-.INF",
    ".nan", "NaN", ".NAN"]
  special.contains text ||
    let unsigned := match text.toList with
      | c :: rest => if c == '+' || c == '-' then rest else c :: rest
      | [] => []
    let names := ["inf", "infinity", "nan"].map String.toList
    names.contains (unsigned.map Char.toLower) ||
      let (whole, rest) := unsigned.span Char.isDigit
      let (fraction, rest) := match rest with
        | '.' :: rest => rest.span Char.isDigit
        | _ => ([], rest)
      let exponentFits := match rest with
        | [] => true
        | c :: rest =>
          let digits := match rest with
            | s :: tail => if s == '+' || s == '-' then tail else rest
            | [] => []
          (c == 'e' || c == 'E') && !digits.isEmpty && digits.all Char.isDigit
      !(whole.isEmpty && fraction.isEmpty) && exponentFits

/-- The value of a plain scalar without a tag. -/
def ofPlain (text : String) : Node :=
  let chars := text.toList
  let marked := match chars with
    | '0' :: 'x' :: digits => integerOf? 16 digits
    | '0' :: 'o' :: digits => integerOf? 8 digits
    | '+' :: digits => integerOf? 10 digits
    | _ => none
  match marked with
  | some n => integer n
  | none =>
    match text with
    | "~" | "null" => null
    | "true" => bool true
    | "false" => bool false
    | _ =>
      match integerOf? 10 chars with
      | some n => integer n
      | none => if isReal text then real text else string text

/-- The value of a plain scalar with a tag. -/
def ofTagged (handle suffix text : String) : Node :=
  match handle, suffix with
  | "!!", "bool" =>
    match text with
    | "true" => bool true
    | "false" => bool false
    | _ => bad
  | "!!", "int" => ((integerOf? 10 text.toList).map integer).getD bad
  | "!!", "float" => if isReal text then real text else bad
  | "!!", "null" => if text == "~" || text == "null" then null else bad
  | _, _ => string text

/-- The value of a scalar. -/
def ofScalar (plain : Bool) (tag : Option (String × String)) (text : String) : Node :=
  match plain, tag with
  | false, _ => string text
  | true, some (handle, suffix) => ofTagged handle suffix text
  | true, none => ofPlain text

end Node

end TableLexer.Yaml
