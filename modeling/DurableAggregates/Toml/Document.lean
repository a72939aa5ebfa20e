import DurableAggregates.Toml.Table

/-!
# TOML documents

`Table.parse?` reads a document of TOML 1.0 into its root table; it fails if and only if the document is malformed.
Values may be nested at most `nestingLimit` deep.
-/

namespace DurableAggregates.Toml

open Toml.Parser

/-! ## Values -/

mutual

/-- A value nested at most `depth` deep; the first number bounds the steps. -/
def value : Nat → Nat → Parser Value
  | 0, _ => failure
  | fuel + 1, depth => do
    match ← peek?, depth with
    | some '[', depth + 1 =>
      char '['
      elements fuel depth
      return .array
    | some '{', depth + 1 =>
      char '{'
      space
      let assignments ← match ← peek? with
        | some '}' => char '}'; pure []
        | _ => pairs fuel depth
      guard (Table.assignAll assignments []).isSome
      return .inlineTable
    | some '[', 0 | some '{', 0 => failure
    | _, _ => return .scalar (← scalar)

/-- The elements of an array up to its end. -/
def elements : Nat → Nat → Parser Unit
  | 0, _ => failure
  | fuel + 1, depth => do
    gap (← get).length
    match ← peek? with
    | some ']' => char ']'
    | _ =>
      let _ ← value fuel depth
      gap (← get).length
      match ← next fun c => c == ',' || c == ']' with
      | ',' => elements fuel depth
      | _ => return

/-- The keys and values of an inline table up to its end. -/
def pairs : Nat → Nat → Parser Assignments
  | 0, _ => failure
  | fuel + 1, depth => do
    let k ← key
    char '='
    space
    let v ← value fuel depth
    space
    match ← next fun c => c == ',' || c == '}' with
    | ',' => return (k, v) :: (← pairs fuel depth)
    | _ => return [(k, v)]

end

/-! ## Documents -/

/-- A key and its value on a line of their own. -/
def assignment : Parser ((List String × String) × Value) := do
  let k ← key
  char '='
  space
  let v ← value (2 * (← get).length + 2) nestingLimit
  trailing
  return (k, v)

def header : Parser (List String × String × Bool) := do
  char '['
  let isElement := (← optional (char '[')).isSome
  let (path, name) ← key
  string (if isElement then "]]" else "]")
  trailing
  return (path, name, isElement)

/-- The keys and values up to the next header, and the headers with theirs. -/
def statements : Nat → Parser (Assignments × List Segment)
  | 0 => return ([], [])
  | fuel + 1 => do
    space
    match ← peek? with
    | none => return ([], [])
    | some '#' =>
      comment
      lineEnd
      statements fuel
    | some '\n' | some '\r' =>
      newline
      statements fuel
    | some '[' =>
      let (path, name, isElement) ← header
      let (assignments, segments) ← statements fuel
      return ([], { path, name, isElement, assignments } :: segments)
    | _ =>
      let a ← assignment
      let (assignments, segments) ← statements fuel
      return (a :: assignments, segments)

/-- A whole document, with or without a byte order mark. -/
def document : Parser (Assignments × List Segment) := do
  let _ ← optional (char '\ufeff')
  statements ((← get).length + 1)

/-- The root table of a document. -/
def Table.parse? (text : String) : Option Table := do
  let ((assignments, segments), _) ← StateT.run document text.toList
  let root ← Table.assignAll assignments []
  segments.foldlM Table.addSegment root

end DurableAggregates.Toml
