import TableLexer.CommandLine.Moment

/-! The formats in which moments are written. -/
namespace TableLexer.CommandLine

/-- The digits of a number, filled up to a width. -/
def filled (fill : Option Char) (width n : Nat) : List Char :=
  let digits := Nat.toDigits 10 n
  (fill.map (List.replicate (width - digits.length))).getD [] ++ digits

def weekdayNames : List String :=
  ["Monday", "Tuesday", "Wednesday", "Thursday", "Friday", "Saturday", "Sunday"]

def monthNames : List String :=
  ["January", "February", "March", "April", "May", "June", "July", "August", "September",
    "October", "November", "December"]

/-- The format that a letter is short for. -/
def longFormat? : Char → Option String
  | 'D' | 'x' => some "%m/%d/%y"
  | 'F' => some "%Y-%m-%d"
  | 'R' => some "%H:%M"
  | 'T' | 'X' => some "%H:%M:%S"
  | 'c' => some "%a %b %e %H:%M:%S %Y"
  | 'r' => some "%I:%M:%S %p"
  | 'v' => some "%e-%b-%Y"
  | '+' => some "%Y-%m-%dT%H:%M:%S%.f%:z"
  | _ => none

/-- A format without letters that are short for formats. -/
def longFormat : List Char → List Char
  | [] => []
  | '%' :: c :: rest => ((longFormat? c).map String.toList).getD ['%', c] ++ longFormat rest
  | c :: rest => c :: longFormat rest

namespace Moment

/-- The number that a letter stands for, with what fills it up and its width. -/
def number? (m : Moment) : Char → Option (Char × Nat × Nat)
  | 'Y' => some ('0', 4, m.year)
  | 'C' => some ('0', 2, m.year / 100)
  | 'y' => some ('0', 2, m.year % 100)
  | 'G' => some ('0', 4, m.week.1)
  | 'g' => some ('0', 2, m.week.1 % 100)
  | 'V' => some ('0', 2, m.week.2)
  | 'U' => some ('0', 2, (m.yearDay + 7 - (m.weekday + 1) % 7) / 7)
  | 'W' => some ('0', 2, (m.yearDay + 7 - m.weekday) / 7)
  | 'q' => some ('0', 1, (m.month + 2) / 3)
  | 'm' => some ('0', 2, m.month)
  | 'd' => some ('0', 2, m.day)
  | 'e' => some (' ', 2, m.day)
  | 'j' => some ('0', 3, m.yearDay + 1)
  | 'u' => some ('0', 1, m.weekday + 1)
  | 'w' => some ('0', 1, (m.weekday + 1) % 7)
  | 'H' => some ('0', 2, m.hour)
  | 'k' => some (' ', 2, m.hour)
  | 'I' => some ('0', 2, m.dialHour)
  | 'l' => some (' ', 2, m.dialHour)
  | 'M' => some ('0', 2, m.minute)
  | 'S' => some ('0', 2, m.second)
  | 's' => some ('0', 1, m.timestamp.toNat)
  | 'f' => some ('0', 9, m.nanosecond)
  | _ => none

/-- The first digits of a fraction of a second. -/
def fraction (m : Moment) (count : Nat) : List Char :=
  (filled (some '0') 9 m.nanosecond).take count

/-- A fraction of a second behind a point, in as many groups of three digits as it needs. -/
def pointFraction (m : Moment) : List Char :=
  if m.nanosecond == 0 then []
  else if m.nanosecond % 1000000 == 0 then '.' :: m.fraction 3
  else if m.nanosecond % 1000 == 0 then '.' :: m.fraction 6
  else '.' :: m.fraction 9

/-- The hours and minutes of the offset. -/
def zone (m : Moment) (separator : String) : List Char :=
  let minutes := m.offset.natAbs
  (if m.offset < 0 then '-' else '+') :: filled (some '0') 2 (minutes / 60) ++ separator.toList
    ++ filled (some '0') 2 (minutes % 60)

/-- The word or sign that a letter stands for. -/
def word? (m : Moment) : Char → Option (List Char)
  | 'a' => some ((weekdayNames.getD m.weekday "").toList.take 3)
  | 'A' => some (weekdayNames.getD m.weekday "").toList
  | 'b' | 'h' => some ((monthNames.getD (m.month - 1) "").toList.take 3)
  | 'B' => some (monthNames.getD (m.month - 1) "").toList
  | 'p' => some (if m.hour < 12 then ['A', 'M'] else ['P', 'M'])
  | 'P' => some (if m.hour < 12 then ['a', 'm'] else ['p', 'm'])
  | 'z' => some (m.zone "")
  | 'Z' => some (m.zone ":")
  | 'n' => some ['\n']
  | 't' => some ['\t']
  | '%' => some ['%']
  | _ => none

/-- The part of a moment that the beginning of a text stands for, and the number of characters that
it is made of. Before the letter of a number can stand with what it is filled up. -/
def part? (m : Moment) : List Char → Option (List Char × Nat)
  | '0' :: c :: _ => (m.number? c).map fun (_, width, n) => (filled (some '0') width n, 2)
  | '_' :: c :: _ => (m.number? c).map fun (_, width, n) => (filled (some ' ') width n, 2)
  | '-' :: c :: _ => (m.number? c).map fun (_, width, n) => (filled none width n, 2)
  | '3' :: 'f' :: _ => some (m.fraction 3, 2)
  | '6' :: 'f' :: _ => some (m.fraction 6, 2)
  | '9' :: 'f' :: _ => some (m.fraction 9, 2)
  | '.' :: 'f' :: _ => some (m.pointFraction, 2)
  | '.' :: '3' :: 'f' :: _ => some ('.' :: m.fraction 3, 3)
  | '.' :: '6' :: 'f' :: _ => some ('.' :: m.fraction 6, 3)
  | '.' :: '9' :: 'f' :: _ => some ('.' :: m.fraction 9, 3)
  | ':' :: 'z' :: _ => some (m.zone ":", 2)
  | ':' :: ':' :: 'z' :: _ => some (m.zone ":" ++ [':', '0', '0'], 3)
  | ':' :: ':' :: ':' :: 'z' :: _ => some ((m.zone "").take 3, 4)
  | c :: _ =>
    match m.number? c with
    | some (fill, width, n) => some (filled (some fill) width n, 1)
    | none => (m.word? c).map (·, 1)
  | [] => none

/-- A moment in a long format. What follows a percent sign stands for a part of the moment, and all
else stands for itself. -/
def formatLong (m : Moment) (text : List Char) : List Char :=
  match text with
  | [] => []
  | '%' :: rest =>
    match m.part? rest with
    | some (part, count) => part ++ m.formatLong (rest.drop count)
    | none => '%' :: m.formatLong rest
  | c :: rest => c :: m.formatLong rest
termination_by text.length

def format (m : Moment) (text : List Char) : List Char := m.formatLong (longFormat text)

/-- A moment as the log shows it. -/
def stamp (m : Moment) : String := String.ofList (m.formatLong "%Y-%m-%d %H:%M:%S".toList)

end Moment

end TableLexer.CommandLine
