import DurableAggregates.CorrelationKey

/-!
# The exchange index

The index remembers under which key each exchange was added, and the ids of exchanges that are done with. Its entries
are hints, since other writers may have changed the store. Of the completed ids the last `capacity` are kept: a set
answers whether an id is among them, a queue gives their order, the oldest first.
-/

namespace DurableAggregates

structure ExchangeIndex where
  byId : Std.ExtTreeMap String CorrelationKey compare := ∅
  byKey : KeyMap String := ∅
  completed : Std.ExtTreeSet String compare := ∅
  order : List String := []

namespace ExchangeIndex

/-- How many completed ids are kept. -/
def capacity : Nat := 1024

/-- The key an exchange was last added under, as far as the index knows. -/
def keyFor? (x : ExchangeIndex) (id : String) : Option CorrelationKey := x.byId[id]?

def isCompleted (x : ExchangeIndex) (id : String) : Bool := x.completed.contains id

/-- Drops the entry of an id if it is for the given key. -/
def dropId (x : ExchangeIndex) (id : String) (key : CorrelationKey) : ExchangeIndex :=
  if x.byId[id]? = some key then { x with byId := x.byId.erase id } else x

/-- Drops the entry of a key if it is for the given id. -/
def dropKey (x : ExchangeIndex) (key : CorrelationKey) (id : String) : ExchangeIndex :=
  if x.byKey[key]? = some id then { x with byKey := x.byKey.erase key } else x

/-- An id that is live again is not completed. -/
def revive (x : ExchangeIndex) (id : String) : ExchangeIndex :=
  if x.isCompleted id then { x with completed := x.completed.erase id, order := x.order.filter (· ≠ id) } else x

/-- Drops completed ids, the oldest first, until at most `capacity` are left. -/
def evict (x : ExchangeIndex) : ExchangeIndex :=
  let gone := x.order.take (x.order.length - capacity)
  { x with completed := gone.foldl .erase x.completed, order := x.order.drop (x.order.length - capacity) }

/-- Adds an id to the completed ones; one that is among them keeps its place. -/
def complete (x : ExchangeIndex) (id : String) : ExchangeIndex :=
  if x.isCompleted id then x
  else evict { x with completed := x.completed.insert id, order := x.order ++ [id] }

/-- Notes that an exchange was added under a key. -/
def insert (x : ExchangeIndex) (key : CorrelationKey) (id : String) : ExchangeIndex :=
  let cleared := match x.byKey[key]? with
    | some previous => if previous = id then x else x.dropId previous key
    | none => x
  { cleared with byId := cleared.byId.insert id key, byKey := cleared.byKey.insert key id }.revive id

/-- Drops the entry of a key; its exchange is completed. -/
def forget (x : ExchangeIndex) (key : CorrelationKey) : ExchangeIndex :=
  match x.byKey[key]? with
  | some id => ({ x with byKey := x.byKey.erase key }.dropId id key).complete id
  | none => x

/-- Drops an id whose key holds another exchange. -/
def forgetId (x : ExchangeIndex) (id : String) : ExchangeIndex :=
  match x.byId[id]? with
  | some key => { x with byId := x.byId.erase id }.dropKey key id
  | none => x

/-- Drops the entries of all keys that are not stored. -/
def retainKeys (x : ExchangeIndex) (stored : KeySet) : ExchangeIndex :=
  (x.byKey.keys.filter fun key => !stored.contains key).foldl forget x

end ExchangeIndex

end DurableAggregates
