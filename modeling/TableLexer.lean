import TableLexer.Main
import TableLexer.CommandLine.Machine
import TableLexer.Proofs.StateSet
import TableLexer.Proofs.Reachable
import TableLexer.Proofs.Automaton.Arena
import TableLexer.Proofs.Outcome
import TableLexer.Proofs.Automaton.Run
import TableLexer.Proofs.Automaton.Subset
import TableLexer.Proofs.Automaton.Change
import TableLexer.Proofs.Builder.Leads
import TableLexer.Proofs.Builder.Combinators
import TableLexer.Proofs.Builder.Copy
import TableLexer.Proofs.Builder.Declaration
import TableLexer.Proofs.Builder.Repetition
import TableLexer.Proofs.Builder.Public
import TableLexer.Proofs.Determinization
import TableLexer.Proofs.Pattern.Piece
import TableLexer.Proofs.Pattern.Pieces
import TableLexer.Proofs.Pattern.Atom
import TableLexer.Proofs.Pattern.Build
import TableLexer.Proofs.Pattern.Repeat
import TableLexer.Proofs.Pattern.Correct
import TableLexer.Proofs.Journal
import TableLexer.Proofs.Description.Build
import TableLexer.Proofs.Description.Matches
import TableLexer.Proofs.Automaton.Minimal
import TableLexer.Proofs.Table.Basic
import TableLexer.Proofs.Table.Implements
import TableLexer.Proofs.Table.Compressed
import TableLexer.Proofs.Scanner.Steps
import TableLexer.Proofs.Scanner.Twins
import TableLexer.Proofs.Lexicon.Stages
import TableLexer.Proofs.Lexicon.MaximalMunch
import TableLexer.Proofs.Lexicon.Options
import TableLexer.Proofs.Scanner.Consumed
import TableLexer.Proofs.Scanner.Account
import TableLexer.Proofs.Builder.Frozen
import TableLexer.Proofs.Automaton.Alike
import TableLexer.Proofs.Automaton.BreadthFirst
import TableLexer.Proofs.Automaton.Canonical
import TableLexer.Proofs.Automaton.Obtained
import TableLexer.Proofs.Minimization
import TableLexer.Proofs.Json.Lexemes
import TableLexer.Proofs.Json.RoundTrip
import TableLexer.Proofs.Table.Valid
import TableLexer.Proofs.Table.Json
import TableLexer.Proofs.Table.Bounds
import TableLexer.Proofs.Table.Agreement
import TableLexer.Proofs.Scanner.Ignoring
import TableLexer.Proofs.Automaton.StateLimit
import TableLexer.Proofs.Builder.Room
import TableLexer.Proofs.Builder.Landings
import TableLexer.Proofs.Description.Room
import TableLexer.Proofs.CharClass.Build
import TableLexer.Proofs.Scanner.Furthest
import TableLexer.Proofs.CharClass.Grammar
import TableLexer.Proofs.CharClass.Lexer
import TableLexer.Proofs.CharClass.Parse
import TableLexer.Proofs.Automaton.Shortlex
import TableLexer.Proofs.Ambiguity
import TableLexer.Proofs.Automaton.Bounds
import TableLexer.Proofs.Automaton.Embedding
import TableLexer.Proofs.Automaton.Bridge
import TableLexer.Proofs.Builder.Alongside
import TableLexer.Proofs.Builder.Follows
import TableLexer.Proofs.Pattern.Reads
import TableLexer.Proofs.Pattern.Bypass
import TableLexer.Proofs.Description.Serves
import TableLexer.Proofs.Description.Alone
import TableLexer.Proofs.Scanner.Abreast
import TableLexer.Proofs.Lexicon.DeclarationOrder
import TableLexer.Proofs.StateCount
import TableLexer.Proofs.Numbering
import TableLexer.Proofs.Lexicon.Failure
import TableLexer.Proofs.Builder.Duplicate
import TableLexer.Proofs.Builder.Aside
import TableLexer.Proofs.Builder.RepetitionCost
import TableLexer.Proofs.Builder.Upholds
import TableLexer.Proofs.Pattern.Failed
import TableLexer.Proofs.Pattern.Frozen
import TableLexer.Proofs.Scanner.Invariant
import TableLexer.Proofs.Scanner.EndOfInput
import TableLexer.Proofs.Scanner.Rounds
import TableLexer.Proofs.Scanner.Peeking
import TableLexer.Proofs.Names
import TableLexer.Proofs.Table.Faithful
import TableLexer.Proofs.Automaton.Closure
import TableLexer.Proofs.SetHistory
import TableLexer.Proofs.Source.Static
import TableLexer.Proofs.Table.Merging
import TableLexer.Proofs.Table.RustSource
import TableLexer.Proofs.SymbolRange
