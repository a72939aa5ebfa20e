import DurableAggregates.Calendar.Written
import DurableAggregates.Text.Blank

/-!
# Instants as text: reading

`Instant.read` accepts more spellings than are written. White space may stand before each number and each mark of the
date and the time, except that exactly one `T`, `t` or blank divides the two; any offset from UTC may be given, in
letters or in digits; a fraction may have any number of digits, of which nine count. A number is checked as soon as it
is read, the date and the offset as a whole at the end.
-/

namespace DurableAggregates.Calendar

/-- Why a text is no instant. -/
inductive ReadFault where
  | outOfRange
  | invalid
  | short
  | trailing
  | impossible
  deriving DecidableEq, Repr

def ReadFault.message : ReadFault → String
  | .outOfRange => "input is out of range"
  | .invalid => "input contains invalid characters"
  | .short => "premature end of input"
  | .trailing => "trailing input"
  | .impossible => "no possible date and time matching input"

namespace Reading

/-- A step of reading: takes characters from the front of the rest. -/
abbrev Scan := StateT (List Char) (Except ReadFault)

def fail {α : Type} (fault : ReadFault) : Scan α := fun _ => .error fault

def skipBlank : Scan Unit := modify (·.dropWhile Text.isBlank)

/-- A number of at least one and at most `width` digits. -/
def number (width : Nat) : Scan Nat := do
  let rest ← get
  let digits := (rest.take width).takeWhile Char.isDigit
  if digits.isEmpty then
    fail (if rest.isEmpty then .short else .invalid)
  set (rest.drop digits.length)
  return Text.Decimal.value digits

/-- A number of any length. -/
def longNumber : Scan Nat := do number (← get).length

/-- A two-digit number between the bounds, after white space. -/
def field (low high : Nat) : Scan Nat := do
  skipBlank
  let n ← number 2
  if n < low || high < n then fail .outOfRange
  return n

/-- The given mark, without white space before it. -/
def mark (c : Char) : Scan Unit := do
  match ← get with
  | [] => fail .short
  | d :: rest => if d = c then set rest else fail .invalid

/-- A year: after a sign any number of digits, otherwise at most four. It has to fit 32 bits. -/
def year : Scan Int := do
  skipBlank
  match ← get with
  | '-' :: rest =>
    set rest
    let n ← longNumber
    if 0x8000_0000 < n then fail .outOfRange
    return -n
  | '+' :: rest =>
    set rest
    let n ← longNumber
    if 0x8000_0000 ≤ n then fail .outOfRange
    return n
  | _ => return (← number 4)

/-- A date, not yet checked as a whole. -/
def date : Scan Date := do
  let y ← year
  skipBlank; mark '-'
  let m ← field 1 12
  skipBlank; mark '-'
  let d ← field 1 31
  return ⟨y, m, d⟩

def divider : Scan Unit := do
  match ← get with
  | [] => fail .short
  | c :: rest => if c = 'T' ∨ c = 't' ∨ c = ' ' then set rest else fail .invalid

/-- The nanoseconds of a fraction that follows its point: nine digits count, the others are dropped. -/
def fractionDigits : Scan Nat := do
  let before := (← get).length
  let n ← number 9
  let used := before - (← get).length
  modify (·.dropWhile Char.isDigit)
  return n * Nat.pow 10 (9 - used)

/-- The fraction of a second in nanoseconds, if a point follows. -/
def fraction : Scan Nat := do
  match ← get with
  | '.' :: rest =>
    set rest
    fractionDigits
  | _ => return 0

/-- The first two characters of the rest; too few bytes end the reading. -/
def pair : Scan (Char × Char) := do
  match ← get with
  | [] => fail .short
  | [c] => fail (if c.utf8Size < 2 then .short else .invalid)
  | c :: d :: _ => return (c, d)

/-- Two digits, the first of which may be at most `first`. -/
def offsetPart (first : Char) : Scan Nat := do
  let (c, d) ← pair
  if !(c.isDigit && d.isDigit) then fail .invalid
  if first < c then fail .outOfRange
  modify (·.drop 2)
  return Text.Decimal.value [c, d]

/-- An offset from UTC in seconds. -/
def offset : Scan Int := do
  let rest ← get
  if (rest.take 3).map Char.toUpper = ['U', 'T', 'C'] then
    set (rest.drop 3)
    return 0
  match rest with
  | [] => fail .short
  | c :: rest =>
    if c = 'Z' ∨ c = 'z' then
      set rest
      return 0
    else if c = '+' ∨ c = '-' ∨ c = '\u2212' then
      set rest
      let hours ← offsetPart '9'
      modify (·.dropWhile fun c => c = ':' || Text.isBlank c)
      let minutes ← offsetPart '5'
      let seconds : Int := 3600 * hours + 60 * minutes
      return if c = '+' then seconds else -seconds
    else fail .invalid

/-- The parts of a whole text, not yet checked against each other. -/
structure Parts where
  date : Date
  hour : Nat
  minute : Nat
  second : Nat
  nanos : Nat
  offset : Int
  deriving DecidableEq, Repr

def parts : Scan Parts := do
  let d ← date
  divider
  let hour ← field 0 23
  skipBlank; mark ':'
  let minute ← field 0 59
  skipBlank; mark ':'
  let second ← field 0 60
  let nanos ← fraction
  skipBlank
  let away ← offset
  skipBlank
  unless (← get).isEmpty do fail .trailing
  return ⟨d, hour, minute, second, nanos, away⟩

/-- The instant that the parts name: second 60 is second 59 with one more second of nanoseconds. -/
def Parts.instant (p : Parts) : Except ReadFault Instant :=
  if !decide p.date.Exists || p.date.year < firstYear || lastYear < p.date.year || 86400 ≤ p.offset.natAbs then
    .error .outOfRange
  else
    let seconds := 86400 * p.date.dayNumber + 3600 * p.hour + 60 * p.minute + min p.second 59 - p.offset
    let nanos := if p.second = 60 then p.nanos + 1_000_000_000 else p.nanos
    match Instant.ofParts? seconds nanos with
    | some t => .ok t
    | none => .error .impossible

end Reading

/-- The instant a text names. -/
def Instant.read (text : List Char) : Except ReadFault Instant := do
  let (p, _) ← Reading.parts.run text
  p.instant

end DurableAggregates.Calendar
