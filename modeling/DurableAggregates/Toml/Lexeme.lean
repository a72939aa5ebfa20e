/-!
# Lexemes of TOML documents

The parsers of this module take a lexeme from the front of the rest of a document: white space, comments, line ends,
strings, keys, numbers, dates and times. Of a float, a date or a time only its extent and its validity matter here, so
nothing but their kind is kept.
-/

namespace DurableAggregates.Toml

/-- A parser takes characters from the front of the rest, or fails. -/
abbrev Parser := StateT (List Char) Option

inductive Scalar where
  | text (s : String)
  | integer (n : Int)
  | boolean (b : Bool)
  | float
  | dateTime
  deriving DecidableEq, Repr

namespace Parser

def peek? : Parser (Option Char) := do return (← get).head?

/-- The next character, if it has the property. -/
def next (ok : Char → Bool) : Parser Char := do
  match ← get with
  | c :: rest => if ok c then set rest; return c else failure
  | [] => failure

def char (c : Char) : Parser Unit := do
  let _ ← next (· == c)

def string (s : String) : Parser Unit := s.toList.forM char

/-- The longest run of characters with the property. -/
def many (ok : Char → Bool) : Parser (List Char) := do
  let rest ← get
  set (rest.dropWhile ok)
  return rest.takeWhile ok

def many1 (ok : Char → Bool) : Parser (List Char) := do
  let cs ← many ok
  guard !cs.isEmpty
  return cs

/-- Exactly `n` digits. -/
def digits (n : Nat) : Parser Nat := do
  let rest ← get
  let ds := rest.take n
  guard (ds.length == n && ds.all Char.isDigit)
  set (rest.drop n)
  return ds.foldl (fun v c => 10 * v + (c.toNat - 48)) 0

end Parser

open Toml.Parser

/-! ## Space, comments and line ends -/

def isSpace (c : Char) : Bool := c == ' ' || c == '\t'

/-- Characters other than the controls, of which only the tab is one. -/
def isPrintable (c : Char) : Bool := c == '\t' || (' ' ≤ c && c != '\x7f')

def space : Parser Unit := do
  let _ ← many isSpace

def newline : Parser Unit := do
  let _ ← optional (char '\r')
  char '\n'

def comment : Parser Unit := do
  char '#'
  let _ ← many isPrintable

/-- A line end or the end of the document. -/
def lineEnd : Parser Unit := do
  unless (← get).isEmpty do newline

/-- What may follow on the line of a key and value or of a header. -/
def trailing : Parser Unit := do
  space
  let _ ← optional comment
  lineEnd

/-- Space, comments and line ends, as between the elements of an array; one comment or line end costs one unit. -/
def gap : Nat → Parser Unit
  | 0 => space
  | n + 1 => do
    space
    match ← peek? with
    | some '#' => comment; newline; gap n
    | some '\n' | some '\r' => newline; gap n
    | _ => return

/-! ## Strings -/

def isHexDigit (c : Char) : Bool := c.isDigit || ('a' ≤ c && c ≤ 'f') || ('A' ≤ c && c ≤ 'F')

def hexValue (c : Char) : Nat :=
  if c.isDigit then c.toNat - 48 else if 'a' ≤ c then c.toNat - 87 else c.toNat - 55

/-- The character with a number of exactly `n` hexadecimal digits. -/
def unicodeEscape (n : Nat) : Parser Char := do
  let rest ← get
  let ds := rest.take n
  guard (ds.length == n && ds.all isHexDigit)
  set (rest.drop n)
  let code := ds.foldl (fun v c => 16 * v + hexValue c) 0
  guard (code < 0xd800 || (0xdfff < code && code < 0x110000))
  return Char.ofNat code

/-- What follows a backslash. -/
def escape : Parser Char := do
  match ← next (fun _ => true) with
  | 'b' => return '\x08'
  | 't' => return '\t'
  | 'n' => return '\n'
  | 'f' => return '\x0c'
  | 'r' => return '\r'
  | '"' => return '"'
  | '\\' => return '\\'
  | 'u' => unicodeEscape 4
  | 'U' => unicodeEscape 8
  | _ => failure

/-- The rest of a basic string, after its opening quote. -/
def basicBody : Nat → Parser (List Char)
  | 0 => failure
  | n + 1 => do
    match ← next isPrintable with
    | '"' => return []
    | '\\' => return (← escape) :: (← basicBody n)
    | c => return c :: (← basicBody n)

/-- The rest of a literal string, after its opening quote. -/
def literalBody : Parser (List Char) := do
  let cs ← many fun c => isPrintable c && c != '\''
  char '\''
  return cs

/-- A run of quotes in a string of several lines: up to two quotes are content, three more end the string. -/
def quotes (q : Char) : Parser (List Char × Bool) := do
  let found := ((← get).take 5).takeWhile (· == q)
  modify (·.drop found.length)
  return if 3 ≤ found.length then (found.drop 3, true) else (found, false)

/-- Space and line ends; one line end costs one unit. -/
def blankLines : Nat → Parser Unit
  | 0 => space
  | n + 1 => do
    space
    match ← optional newline with
    | some () => blankLines n
    | none => return

/-- A line end that a backslash joins to the next text, with the space around it. -/
def joinedLines : Parser Unit := do
  space
  newline
  blankLines (← get).length

/-- The rest of a basic string of several lines, after the three opening quotes. -/
def longBasicBody : Nat → Parser (List Char)
  | 0 => failure
  | n + 1 => do
    match ← peek? with
    | some '"' =>
      let (content, closed) ← quotes '"'
      if closed then return content else return content ++ (← longBasicBody n)
    | some '\\' =>
      char '\\'
      match ← optional joinedLines with
      | some () => longBasicBody n
      | none => return (← escape) :: (← longBasicBody n)
    | some '\n' | some '\r' =>
      newline
      return '\n' :: (← longBasicBody n)
    | _ => return (← next isPrintable) :: (← longBasicBody n)

/-- The rest of a literal string of several lines, after the three opening quotes. -/
def longLiteralBody : Nat → Parser (List Char)
  | 0 => failure
  | n + 1 => do
    match ← peek? with
    | some '\'' =>
      let (content, closed) ← quotes '\''
      if closed then return content else return content ++ (← longLiteralBody n)
    | some '\n' | some '\r' =>
      newline
      return '\n' :: (← longLiteralBody n)
    | _ => return (← next isPrintable) :: (← longLiteralBody n)

/-- A string of one line. -/
def shortString : Parser String := do
  let n := (← get).length
  match ← peek? with
  | some '"' => char '"'; return .ofList (← basicBody n)
  | some '\'' => char '\''; return .ofList (← literalBody)
  | _ => failure

/-- A string of one or of several lines; a line end right after three opening quotes is dropped. -/
def text : Parser String := do
  let rest ← get
  if "\"\"\"".toList.isPrefixOf rest then
    string "\"\"\""
    let _ ← optional newline
    return .ofList (← longBasicBody rest.length)
  else if "'''".toList.isPrefixOf rest then
    string "'''"
    let _ ← optional newline
    return .ofList (← longLiteralBody rest.length)
  else shortString

/-! ## Keys -/

def isBare (c : Char) : Bool := c.isAlphanum || c == '-' || c == '_'

def keyPart : Parser String := do
  space
  let part ← match ← peek? with
    | some '"' | some '\'' => shortString
    | _ => String.ofList <$> many1 isBare
  space
  return part

/-- The parts after the first of a dotted key. -/
def keyParts : Nat → Parser (List String)
  | 0 => return []
  | n + 1 => do
    match ← peek? with
    | some '.' =>
      char '.'
      return (← keyPart) :: (← keyParts n)
    | _ => return []

/-- How deep values may be nested and how many parts a key may have, less one. -/
def nestingLimit : Nat := 79

/-- A dotted key: the path to a table and a name in it. -/
def key : Parser (List String × String) := do
  let first ← keyPart
  let others ← keyParts (← get).length
  guard (others.length < nestingLimit)
  return ((first :: others).dropLast, (first :: others).getLastD first)

/-! ## Numbers -/

/-- Digits with single underscores between them. -/
def groupedTail (ok : Char → Bool) : List Char → List Char × List Char
  | '_' :: c :: rest =>
    if ok c then
      let (ds, rest) := groupedTail ok rest
      (c :: ds, rest)
    else ([], '_' :: c :: rest)
  | c :: rest =>
    if ok c then
      let (ds, rest) := groupedTail ok rest
      (c :: ds, rest)
    else ([], c :: rest)
  | [] => ([], [])

def grouped (ok : Char → Bool) : Parser (List Char) := do
  let first ← next ok
  let (ds, rest) := groupedTail ok (← get)
  set rest
  return first :: ds

def sign : Parser Bool := do
  match ← peek? with
  | some '-' => char '-'; return true
  | some '+' => char '+'; return false
  | _ => return false

/-- Decimal digits without a leading zero, unless zero is all. -/
def wholeDigits : Parser (List Char) := do
  match ← peek? with
  | some '0' => char '0'; return ['0']
  | _ => grouped Char.isDigit

def valueIn (base : Nat) (ds : List Char) : Nat := ds.foldl (fun v c => base * v + hexValue c) 0

/-- An integer of 64 bits. -/
def integer : Parser Int := do
  let n ← match (← get).take 2 with
    | ['0', 'x'] => string "0x"; pure (Int.ofNat (valueIn 16 (← grouped isHexDigit)))
    | ['0', 'o'] => string "0o"; pure (Int.ofNat (valueIn 8 (← grouped fun c => '0' ≤ c && c ≤ '7')))
    | ['0', 'b'] => string "0b"; pure (Int.ofNat (valueIn 2 (← grouped fun c => c == '0' || c == '1')))
    | _ => do
      let negative ← sign
      let n := valueIn 10 (← wholeDigits)
      pure (if negative then -(n : Int) else n)
  guard (-0x8000_0000_0000_0000 ≤ n && n < 0x8000_0000_0000_0000)
  return n

/-- Whether `m` times ten to the `e` rounds to no finite binary number of 64 bits. -/
def overflows (m : Nat) (e : Int) : Bool :=
  let bound := Nat.pow 2 1024 - Nat.pow 2 970
  let magnitude := (Nat.repr m).length + e
  if m = 0 || magnitude < 300 then false
  else if 320 < magnitude then true
  else if 0 ≤ e then bound ≤ m * Nat.pow 10 e.toNat
  else bound * Nat.pow 10 (-e).toNat ≤ m

/-- An exponent with its mark. -/
def exponent : Parser Int := do
  let _ ← next fun c => c == 'e' || c == 'E'
  let negative ← sign
  let n := valueIn 10 (← grouped Char.isDigit)
  return if negative then -(n : Int) else n

/-- A float in digits; one that is too large is refused, if it is positive. -/
def digitFloat : Parser Unit := do
  let negative ← sign
  let whole ← wholeDigits
  let (fraction, e) ← match ← peek? with
    | some '.' => do
      char '.'
      let fraction ← grouped Char.isDigit
      pure (fraction, (← optional exponent).getD 0)
    | _ => pure ([], ← exponent)
  guard (negative || !overflows (valueIn 10 (whole ++ fraction)) (e - fraction.length))

/-- An infinity or a number that is none. -/
def namedFloat : Parser Unit := do
  let _ ← sign
  string "inf" <|> string "nan"

/-! ## Dates and times -/

def monthDays (year month : Nat) : Nat :=
  if month == 2 then
    if year % 4 == 0 && (year % 100 != 0 || year % 400 == 0) then 29 else 28
  else if month == 4 || month == 6 || month == 9 || month == 11 then 30
  else 31

def fullDate : Parser Unit := do
  let year ← digits 4
  char '-'
  let month ← digits 2
  char '-'
  let day ← digits 2
  guard (1 ≤ month && month ≤ 12 && 1 ≤ day && day ≤ monthDays year month)

def hourMinute : Parser Unit := do
  let hour ← digits 2
  char ':'
  let minute ← digits 2
  guard (hour ≤ 23 && minute ≤ 59)

def partialTime : Parser Unit := do
  hourMinute
  char ':'
  let second ← digits 2
  guard (second ≤ 60)
  let _ ← optional do
    char '.'
    many1 Char.isDigit

def timeOffset : Parser Unit := do
  match ← next fun c => c == 'Z' || c == 'z' || c == '+' || c == '-' with
  | '+' | '-' => hourMinute
  | _ => return

/-- A time with its divider and an optional offset, as it follows a date. -/
def timeOfDate : Parser Unit := do
  let _ ← next fun c => c == 'T' || c == 't' || c == ' '
  partialTime
  let _ ← optional timeOffset

def dateTime : Parser Unit := (do fullDate; let _ ← optional timeOfDate) <|> partialTime

/-- A date, a time or a number. -/
def number : Parser Scalar :=
  (do dateTime; return .dateTime) <|> (do digitFloat; return .float) <|> (do namedFloat; return .float) <|>
    Scalar.integer <$> integer

/-- A value that contains no other. -/
def scalar : Parser Scalar := do
  match ← peek? with
  | some '"' | some '\'' => return .text (← text)
  | some 't' => string "true"; return .boolean true
  | some 'f' => string "false"; return .boolean false
  | _ => number

end DurableAggregates.Toml
