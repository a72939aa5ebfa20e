import DurableAggregates.Toml.Lexeme

/-!
# Tables of a TOML document

A table may be declared by a header, implied by a longer header, or made by dotted keys, and what may still be added
to it depends on which (`Origin`). `alter` changes the table under a path and makes the tables on the way that are
missing; `assign` and `declare` are the two changes that a document makes. Of the elements of an array of tables only
the last can change, so only that is kept.
-/

namespace DurableAggregates.Toml

inductive Value where
  | scalar (v : Scalar)
  | array
  | inlineTable
  deriving DecidableEq, Repr

/-- How a table came into being. -/
inductive Origin where
  | declared
  | implied
  | dotted
  deriving DecidableEq, Repr

inductive Node where
  | value (v : Value)
  | table (origin : Origin) (entries : List (String × Node))
  /-- An array of tables, with the entries of the last. -/
  | tables (entries : List (String × Node))

abbrev Table := List (String × Node)

/-- Gives a name its node. -/
def Table.put (t : Table) (name : String) (n : Node) : Table :=
  if t.any (·.1 == name) then t.map fun e => if e.1 == name then (name, n) else e else t ++ [(name, n)]

/--
The table with the change made under a path. Tables made on the way have the origin `made`; dotted keys may not reach
into a declared table, and nothing reaches into a value.
-/
def Table.alter (made : Origin) (change : Origin → Table → Option Table) : List String → Origin → Table → Option Table
  | [], origin, t => change origin t
  | name :: path, _, t =>
    match t.lookup name with
    | none => do return t.put name (.table made (← alter made change path made []))
    | some (.value _) => none
    | some (.tables last) => do return t.put name (.tables (← alter made change path .declared last))
    | some (.table origin inner) =>
      if made = .dotted ∧ origin = .declared then none
      else do return t.put name (.table origin (← alter made change path origin inner))

/--
Assigns a value to a dotted key. The table it is put into was made by dotted keys if and only if the key is one.
-/
def Table.assign (t : Table) (path : List String) (name : String) (v : Value) : Option Table :=
  t.alter .dotted
    (fun origin t =>
      if decide (origin = .dotted) == path.isEmpty then none
      else if t.any (·.1 == name) then none
      else some (t.put name (.value v)))
    path .declared

/-- The node under a name, made a declared table; an implied table keeps its entries. -/
def Table.declareTable (name : String) (fill : Table → Option Table) (t : Table) : Option Table := do
  match t.lookup name with
  | none => return t.put name (.table .declared (← fill []))
  | some (.table .implied inner) => return t.put name (.table .declared (← fill inner))
  | _ => none

/-- One more table at the end of the array under a name. -/
def Table.declareElement (name : String) (fill : Table → Option Table) (t : Table) : Option Table := do
  match t.lookup name with
  | none => return t.put name (.tables (← fill []))
  | some (.tables _) => return t.put name (.tables (← fill []))
  | _ => none

/-- The keys and values below one header. -/
abbrev Assignments := List ((List String × String) × Value)

def Table.assignAll (assignments : Assignments) (t : Table) : Option Table :=
  assignments.foldlM (fun t ((path, name), v) => t.assign path name v) t

/-- A header and what is assigned below it. -/
structure Segment where
  path : List String
  name : String
  isElement : Bool
  assignments : Assignments

/-- Adds what a header opens. -/
def Table.addSegment (t : Table) (s : Segment) : Option Table :=
  t.alter .implied
    (fun _ => (if s.isElement then declareElement else declareTable) s.name (assignAll s.assignments))
    s.path .declared

end DurableAggregates.Toml
