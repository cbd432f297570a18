import TableLexer.CommandLine.Host
import TableLexer.CommandLine.TimeFormat
import TableLexer.Text.CharProperty

/-! The paths of logs. They can name variables of the environment, and hold a format for the time. -/
namespace TableLexer.CommandLine.LogPath

/-- What stands before the name of a variable. -/
def variableSign : List Char := "$ENV\x7b".toList

/-- What stands before a format for the time. -/
def timeSign : List Char := "$TIME\x7b".toList

/-- The name before a closing brace. It is made of letters, numbers, underscores and, but for the
first place, dots. -/
def nameAtStart? (text : List Char) : Option (List Char) :=
  let isStart (c : Char) : Bool := Text.isLetterOrNumber c || c == '_'
  let name := text.takeWhile fun c => isStart c || c == '.'
  if name.head?.any isStart && text[name.length]? == some '\x7d' then some name else none

/-- The names of variables in a path, from left to right. -/
def variableNames : List Char → List (List Char)
  | [] => []
  | c :: rest =>
    let path := c :: rest
    let name? :=
      if variableSign.isPrefixOf path then nameAtStart? (path.drop variableSign.length) else none
    name?.toList ++ variableNames rest

/-- The number of formats for the time that a path may hold. -/
def greatestTimeCount : Nat := 5

/-- Puts the moment into the first format for the time, if there is one. -/
def expandTime? (m : Moment) : List Char → Option (List Char)
  | [] => none
  | c :: rest =>
    let path := c :: rest
    if timeSign.isPrefixOf path then
      let body := path.drop timeSign.length
      match body.dropWhile (· != '\x7d') with
      | [] => none
      | _ :: after => some (m.format (body.takeWhile (· != '\x7d')) ++ after)
    else (expandTime? m rest).map (c :: ·)

/-- Puts the moment into formats for the time, one after the other. -/
def expandTimes (m : Moment) : Nat → List Char → List Char
  | 0, path => path
  | count + 1, path =>
    match expandTime? m path with
    | some path => expandTimes m count path
    | none => path

variable {m : Type → Type} [Monad m] [Host m]

/-- Puts the value of a variable into a path, unless the variable is not set. -/
def expandVariable (path : String) (name : List Char) : m String := do
  match ← Host.environment? (String.ofList name) with
  | some value => return path.replace (String.ofList (variableSign ++ name ++ ['\x7d'])) value
  | none => return path

/-- The path of the file that a path of a log stands for. -/
def expand (path : String) : m String := do
  let path ← (variableNames path.toList).foldlM expandVariable path
  return String.ofList (expandTimes (← Host.now) greatestTimeCount path.toList)

end TableLexer.CommandLine.LogPath
