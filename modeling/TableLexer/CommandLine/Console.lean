import TableLexer.CommandLine.Host
import TableLexer.CommandLine.Log
import TableLexer.Text.ControlSequence

/-! Talking to the user: messages go to the console and, without control sequences, to the log. -/
namespace TableLexer.CommandLine

/-- Where messages go. -/
structure Outlet where
  log : Option String := none
  level : Level := .info
  styles : Bool := false

/-- Work that has been given up, after the reason has been told. -/
inductive Halt where
  | halt

/-- Work that talks to the user and can be given up. -/
abbrev Session (m : Type → Type) := ReaderT Outlet (ExceptT Halt m)

namespace Session

variable {m : Type → Type} [Monad m] [Host m] {α : Type}

def host (action : m α) : Session m α := fun _ => ExceptT.lift action

/-- Writes an entry to the log if there is one and the level admits it. -/
def log (e : Entry) : Session m Unit := do
  let outlet ← read
  match outlet.log with
  | some path =>
    if e.level.rank ≤ outlet.level.rank then
      host (Host.appendText path (Text.plain (e.line (← host Host.now))))
  | none => return

def logAll (entries : List Entry) : Session m Unit := entries.forM log

def putLine (line : String) : Session m Unit := host (Host.putLine line)

/-- A text in a style, if the console shows styles. -/
def paint (style : Text.Style) (text : String) : Session m String :=
  return style.paint (← read).styles text

/-- Shows a line that starts with a word in a style. -/
def putStyled (style : Text.Style) (start rest : String) : Session m Unit := do
  putLine ((← paint style start) ++ rest)

/-- Shows a line and logs it. -/
def inform (text : String) : Session m Unit := do
  putLine text
  log ⟨.info, text⟩

def reportError (text : String) : Session m Unit := do
  putStyled .brightRed "error" s!": {text}"
  log ⟨.error, text⟩

/-- Tells why work is given up, and gives it up. -/
def giveUp (reason : String) : Session m α := do
  putStyled .onBrightRed "fatal" s!": {reason}"
  log ⟨.error, reason⟩
  throw .halt

def lexing (input : String) : Session m Unit := do
  putStyled .brightBlue "  LEX" s!"| {input}"
  log ⟨.debug, s!"Lexing {input} ..."⟩

def lexed (summary : String) : Session m Unit := do
  putStyled .brightGreen "   OK" s!"| {summary}"
  log ⟨.debug, s!"Finished lexing {summary}"⟩

def lexFailed (text : String) : Session m Unit := do
  putStyled .brightRed "ERROR" s!"| {text}"
  log ⟨.error, text⟩

def showToken (text : String) : Session m Unit := do
  putLine text
  log ⟨.trace, text⟩

/-- The result, unless there is a reason to give up. -/
def orGiveUp {ε : Type} (result : Except ε α) (reason : ε → String) : Session m α :=
  match result with
  | .ok a => return a
  | .error e => giveUp (reason e)

end Session

end TableLexer.CommandLine
