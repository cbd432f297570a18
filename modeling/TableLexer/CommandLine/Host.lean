import TableLexer.CommandLine.Moment

/-! What the command line asks of the machine that it runs on. -/
namespace TableLexer.CommandLine

/-- The ways in which access to a file can fail. -/
inductive FileError where
  | notFound
  | isDirectory
  | notDirectory
  | alreadyExists
  | nameTooLong
  | noSpace
  | invalidText
  | other (text : String)
deriving DecidableEq, Repr

def FileError.message : FileError → String
  | notFound => "No such file or directory (os error 2)"
  | isDirectory => "Is a directory (os error 21)"
  | notDirectory => "Not a directory (os error 20)"
  | alreadyExists => "File exists (os error 17)"
  | nameTooLong => "File name too long (os error 36)"
  | noSpace => "No space left on device (os error 28)"
  | invalidText => "stream did not contain valid UTF-8"
  | other text => text

/-- A machine with files, a console, an environment and a clock. -/
class Host (m : Type → Type) where
  isFile (path : String) : m Bool
  readText (path : String) : m (Except FileError String)
  writeText (path text : String) : m (Except FileError Unit)
  /-- Creates a file that can be appended to, with its directories, unless it is there. -/
  openLog (path : String) : m (Except FileError Unit)
  appendText (path text : String) : m Unit
  /-- Shows a text and ends the line. -/
  putLine (text : String) : m Unit
  /-- Whether the console shows styles. -/
  showsStyles : m Bool
  /-- The value of a variable of the environment. -/
  environment? (name : String) : m (Option String)
  /-- The current moment. -/
  now : m Moment
  /-- The milliseconds since the start. -/
  elapsed : m Nat

end TableLexer.CommandLine
