/-! The names in paths. -/
namespace TableLexer.CommandLine.Path

def isAbsolute (path : String) : Bool := path.startsWith "/"

/-- What a path starts with: a slash, if it does not start from the working directory. -/
def root (path : String) : String := if isAbsolute path then "/" else ""

/-- The names that a path leads through. A dot leads nowhere. -/
def names (path : String) : List String :=
  (path.splitOn "/").filter fun name => name != "" && name != "."

/-- The names that a path leads through up to the directory of what it names. -/
def directoryNames (path : String) : List String := (names path).dropLast

/-- The path of the directory of what a path names. It is empty if that is the working directory. -/
def directory (path : String) : String :=
  root path ++ "/".intercalate (directoryNames path)

end TableLexer.CommandLine.Path
