import TableLexer.CommandLine.Host
import TableLexer.CommandLine.Path

/-! A machine in memory, with a working directory that is empty but for given files. -/
namespace TableLexer.CommandLine

/-- The names that lead to a file or directory from the working directory or, if the first of them
is a slash, from the root. -/
abbrev Place := List String

/-- The root, and the directories in it that are always there. -/
def systemDirectories : List Place :=
  ["/"] :: (["bin", "dev", "etc", "home", "lib", "media", "mnt", "opt", "proc", "root", "run",
    "sbin", "srv", "sys", "tmp", "usr", "var"].map fun name => ["/", name])

/-- The places of what is written and never read again. -/
def sinks : List Place := [["/", "dev", "null"], ["/", "dev", "zero"], ["/", "dev", "stderr"]]

/-- The place in which there is no space for any text. -/
def fullPlace : Place := ["/", "dev", "full"]

/-- The place of the console. -/
def console : Place := ["/", "dev", "stdout"]

/-- The number of bytes that a name may have. -/
def greatestNameSize : Nat := 255

/-- The number of bytes that a path may have. -/
def greatestPathSize : Nat := 4095

/-- A machine. Besides the directories that have been made there are those of its files; `shown` is
the text on the console. -/
structure Machine where
  files : List (Place × ByteArray) := []
  directories : List Place := []
  shown : String := ""
  styles : Bool := false
  environment : List (String × String) := []
  now : Moment := ⟨2000, 1, 1, 0, 0, 0, 0, 0⟩
  elapsed : Nat := 0

namespace Machine

def hasDirectory (machine : Machine) (place : Place) : Bool :=
  place.isEmpty || systemDirectories.contains place || machine.directories.contains place
    || machine.files.any fun (file, _) => place != file && place.isPrefixOf file

def content? (machine : Machine) (place : Place) : Option ByteArray := machine.files.lookup place

/-- Puts a file in its place. -/
def put (machine : Machine) (place : Place) (content : ByteArray) : Machine :=
  { machine with files := (place, content) :: machine.files.filter (·.1 != place) }

/-- Puts a text in a place. -/
def write (machine : Machine) (place : Place) (text : String) : Machine :=
  if sinks.contains place || place == fullPlace then machine
  else if place == console then { machine with shown := machine.shown ++ text }
  else machine.put place text.toUTF8

/-- Puts bytes at the end of a file among others. -/
def appendIn (place : Place) (bytes : ByteArray) :
    List (Place × ByteArray) → List (Place × ByteArray)
  | [] => [(place, bytes)]
  | (file, content) :: rest =>
    if file == place then (file, content ++ bytes) :: rest
    else (file, content) :: appendIn place bytes rest

/-- Puts a text at the end of what is in a place. -/
def append (machine : Machine) (place : Place) (text : String) : Machine :=
  if sinks.contains place || place == fullPlace || place == console then machine.write place text
  else { machine with files := appendIn place text.toUTF8 machine.files }

/-- The directory that a file or directory is in. The root is in itself, and the working directory
in the one for temporary files. -/
def parent (place : Place) : Place :=
  if place.isEmpty then ["/", "tmp"]
  else if place == ["/"] then place
  else place.dropLast

/-- Follows names from a place. All but the last one must be those of directories. -/
def follow (machine : Machine) (place : Place) : List String → Except FileError Place
  | [] => .ok place
  | name :: rest =>
    if machine.hasDirectory place then
      match name with
      | "" | "." => follow machine place rest
      | ".." => follow machine (parent place) rest
      | name =>
        if name.utf8ByteSize > greatestNameSize then .error .nameTooLong
        else follow machine (place ++ [name]) rest
    else if (machine.content? place).isSome then .error .notDirectory
    else .error .notFound

/-- The place that a path starts from. -/
def origin (path : String) : Place := if Path.isAbsolute path then ["/"] else []

/-- The place that a path names. -/
def locate (machine : Machine) (path : String) : Except FileError Place :=
  if path.isEmpty then .error .notFound
  else if path.utf8ByteSize > greatestPathSize then .error .nameTooLong
  else machine.follow (origin path) (path.splitOn "/")

/-- Reads the bytes of a file. -/
def readBytes (machine : Machine) (path : String) : Except FileError ByteArray := do
  let place ← machine.locate path
  match machine.content? place with
  | some content => return content
  | none => throw (if machine.hasDirectory place then .isDirectory else .notFound)

/-- The place of a file that is to be written. -/
def writable (machine : Machine) (path : String) : Except FileError Place := do
  if path.utf8ByteSize > greatestPathSize then throw .nameTooLong
  let trimmed := (path.dropEndWhile '/').toString
  let place ← if trimmed.isEmpty && path.endsWith "/" then .ok ["/"] else machine.locate trimmed
  if machine.hasDirectory place || path.endsWith "/" then throw .isDirectory
  return place

/-- Makes the directories that names lead through from a directory, if they are not there. -/
def makeDirectories (machine : Machine) (place : Place) : List String → Except FileError Machine
  | [] => .ok machine
  | ".." :: rest => makeDirectories machine (parent place) rest
  | name :: rest =>
    let inner := place ++ [name]
    if machine.hasDirectory inner then makeDirectories machine inner rest
    else if (machine.content? inner).isSome then
      .error (if rest.isEmpty then .alreadyExists else .notDirectory)
    else if name.utf8ByteSize > greatestNameSize then .error .nameTooLong
    else makeDirectories { machine with directories := inner :: machine.directories } inner rest

/-- What a machine does when it is put to use. -/
abbrev Run := StateM Machine

instance : Host Run where
  isFile path := return ((← get).readBytes path).toBool
  readText path := do
    match (← get).readBytes path with
    | .error e => return .error e
    | .ok content =>
      match String.fromUTF8? content with
      | some text => return .ok text
      | none => return .error .invalidText
  writeText path text := do
    match (← get).writable path with
    | .error e => return .error e
    | .ok place =>
      if place == fullPlace && !text.isEmpty then return .error .noSpace
      modify (·.write place text)
      return .ok ()
  openLog path := do
    if (Path.directory path).utf8ByteSize > greatestPathSize then return .error .nameTooLong
    match (← get).makeDirectories (origin path) (Path.directoryNames path) with
    | .error e => return .error e
    | .ok machine =>
      set machine
      match machine.writable path with
      | .error e => return .error e
      | .ok place => modify (·.append place ""); return .ok ()
  appendText path text := do
    match (← get).locate path with
    | .error _ => return
    | .ok place => modify (·.append place text)
  putLine text := modify fun machine => { machine with shown := machine.shown ++ text ++ "\n" }
  showsStyles := return (← get).styles
  environment? name := return (← get).environment.lookup name
  now := return (← get).now
  elapsed := return (← get).elapsed

end Machine

end TableLexer.CommandLine
