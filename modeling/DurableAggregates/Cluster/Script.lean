import DurableAggregates.Cluster.Execution

/-!
# Scripts

A script drives a cluster from outside, one step after another. A step that is a task of its own is awaited, or left
to run in the background and joined later; the others look at the cluster or change it at once. An `Entry` says what a
step came to and what the collaborators noted during it.
-/

namespace DurableAggregates.Cluster

open Operation (ofStore)

/-- An operation on a node. -/
inductive NodeStep where
  | start
  | stop
  | add (key : CorrelationKey) (e : Exchange)
  | get (key : CorrelationKey)
  | recover (key : CorrelationKey)
  | remove (key : CorrelationKey)
  | confirm (id : String)
  | keys
  | scan
  | state (key : CorrelationKey)
  | pass
  /-- Adds an empty exchange under each of a row of numbered keys. -/
  | addMany (stem : String) (first count : Nat)
  | removeMany (stem : String) (first count : Nat)
  | confirmMany (stem : String) (first count : Nat)

/-- An operation on the store, past all nodes. -/
inductive StoreStep where
  | put (key : CorrelationKey) (e : Exchange)
  | get (key : CorrelationKey)
  | remove (key : CorrelationKey)
  | keys

/-- Something that is looked at. -/
inductive Look where
  | isRunning (node : Nat)
  | health (node : Nat)
  | config (node : Nat)
  /-- What the collaborators of a node were given, and how often for a key. -/
  | counts (node : Nat) (key : CorrelationKey)
  | contains (key : CorrelationKey)
  | isEmpty
  | raw (key : CorrelationKey)
  | calls

/-- Something that is changed at once. -/
inductive Change where
  /-- The sink of a node fails to reach anybody with the next letters. -/
  | failSink (node : Nat) (count : Nat)
  | insertRaw (key : CorrelationKey) (bytes : List UInt8)
  | failOn (call : Store.KeyedCall) (key : CorrelationKey)
  | setUnavailable (unavailable : Bool)
  | addPhantom (key : CorrelationKey)
  | heal
  | clear
  | resetCalls
  | setCrashing (crashing : Bool)
  | setDelays (f : Delays → Delays)

inductive Step where
  | node (n : Nat) (s : NodeStep)
  | store (s : StoreStep)
  /-- Lets some milliseconds pass. -/
  | advance (time : Nat)
  | look (l : Look)
  | change (x : Change)
  /-- Begins a step and goes on without its result. -/
  | background (s : Step)
  /-- Waits for the step that was begun in the background with this number. -/
  | join (number : Nat)

/-! ## Steps that are tasks -/

/-- Does something for each of a row of numbered names, until it fails. -/
def forNumbered (stem : String) (first count : Nat) (f : String → Operation Unit) : Operation Answer := do
  (List.range' first count).forM fun i => f s!"{stem}{i}"
  return .done

/-- The id of the exchange that is added under a numbered key. -/
def numberedId (name : String) : String := s!"ex-{name}"

def NodeStep.task (s : Setup) : NodeStep → Operation Answer
  | .start => do Repository.start s; return .done
  | .stop => do Repository.stop; return .done
  | .add key e => return .exchange (← Repository.add key e)
  | .get key => return .exchange (← Repository.get? key)
  | .recover key => return .exchange (← Repository.recover s key)
  | .remove key => do Repository.remove key; return .done
  | .confirm id => do Repository.confirm id; return .done
  | .keys => return .keys (← Repository.keys)
  | .scan => return .keys (← Repository.scan)
  | .state key => return .state (← Repository.recoveryState? key)
  | .pass => return .report (← Repository.pass s)
  | .addMany stem first count => forNumbered stem first count fun name => do
      let _ ← Repository.add ⟨name⟩ { id := numberedId name }
  | .removeMany stem first count => forNumbered stem first count fun name => Repository.remove ⟨name⟩
  | .confirmMany stem first count => forNumbered stem first count fun name => Repository.confirm (numberedId name)

def StoreStep.task : StoreStep → Operation Answer
  | .put key e => return .snapshot (← putDirectly key e)
  | .get key => return .snapshot (← Repository.fetch key)
  | .remove key => do Repository.erase key; return .done
  | .keys => return .keys (← Repository.listed)

/-! ## Steps that take no time -/

def look (c : Cluster) : Look → Answer
  | .isRunning n => .flag (c.node n).repository.isRunning
  | .health n => .health ((c.node n).repository.health (c.node n).setup)
  | .config n => .config (c.node n).config c.store.size
  | .counts n key =>
    let n := c.node n
    .counts {
      delivered := n.engine.map fun _ => n.delivered.length
      ofKey := n.engine.map fun _ => n.delivered.countP (·.1 = key)
      letters := n.sink.map fun _ => n.letters.length }
  | .contains key => .flag (c.store.contains key)
  | .isEmpty => .flag (c.store.size = 0)
  | .raw key => .bytes (c.store.raw? key)
  | .calls => .calls c.store.calls

def change (c : Cluster) : Change → Cluster
  | .failSink n count => c.modifyNode n ({ · with failures := count })
  | .insertRaw key bytes => { c with store := c.store.insertRaw key bytes }
  | .failOn call key => { c with store := c.store.failOn call key }
  | .setUnavailable unavailable => { c with store := c.store.setUnavailable unavailable }
  | .addPhantom key => { c with store := c.store.addPhantom key }
  | .heal => { c with store := c.store.heal }
  | .clear => { c with store := c.store.clear }
  | .resetCalls => { c with store := c.store.resetCalls }
  | .setCrashing crashing => { c with crashing }
  | .setDelays f => { c with delays := f c.delays }

/-! ## Performing a script -/

/-- Begins a step as a task that can be awaited, and answers the number of the task. -/
def begin (c : Cluster) : Step → Nat × Cluster
  | .node n s => (c.next, c.spawn n .awaited (s.task (c.node n).setup))
  | .store s => (c.next, c.spawn 0 .awaited s.task)
  | .advance time => (c.next, c.spawn 0 .awaited do Procedure.ask (.sleep time); return .done)
  | .look l => (c.next, c.spawn 0 .awaited (pure (c.look l)))
  | .change x => (c.next, (c.change x).spawn 0 .awaited (pure .done))
  | .background s => c.begin s
  | .join number => (c.background.reverse[number]?.getD c.next, c)

/-- Performs a step. -/
def perform (c : Cluster) : Step → Result × Cluster
  | .background s =>
    let (id, d) := c.begin s
    let e := { d with background := id :: d.background }.settle
    (.answered (.number (e.background.length - 1)), e)
  | s =>
    let (id, d) := c.begin s
    let e := d.await id
    ((e.result? id).getD .crashed, e)

/-- What a step came to, and what was noted during it, node by node. -/
structure Entry where
  result : Result
  /-- The number of stored entries. -/
  stored : Nat
  time : Nat
  delivered : List (Nat × CorrelationKey × Exchange)
  letters : List (Nat × DeadLetter)
  /-- Lifecycle errors with the names of the repositories. -/
  reports : List (Nat × String × RouteError)

/-- What was noted since there were `n` notes, the first first. -/
def notedSince {α : Type} (notes : List α) (n : Nat) : List α := (notes.take (notes.length - n)).reverse

/-- The notes in the order of their keys, those of one key in the order of time. -/
def byKey {α : Type} (key : α → CorrelationKey) (notes : List α) : List α :=
  notes.mergeSort fun a b => (compare (key a) (key b)).isLE

/-- Performs a step and notes what it came to. -/
def enter (c : Cluster) (s : Step) : Entry × Cluster :=
  let (result, d) := c.perform s
  let numbered := ((c.nodes.zip d.nodes).zipIdx).map fun ((old, new), i) => (i, old, new)
  ({ result
     stored := d.store.size
     time := d.now
     delivered := numbered.flatMap fun (i, old, new) =>
       (byKey (·.1) (notedSince new.delivered old.delivered.length)).map (i, ·)
     letters := numbered.flatMap fun (i, old, new) =>
       (byKey (·.key) (notedSince new.letters old.letters.length)).map (i, ·)
     reports := numbered.flatMap fun (i, old, new) =>
       (notedSince new.reports old.reports.length).map fun e => (i, new.config.cacheName, e) }, d)

/-- Performs a script. -/
def play (c : Cluster) : List Step → List Entry × Cluster
  | [] => ([], c)
  | s :: rest =>
    let (entry, d) := c.enter s
    let (entries, e) := d.play rest
    (entry :: entries, e)

/-- What all nodes have counted. -/
def tally (c : Cluster) : Tally := (c.nodes.map (·.repository.tally)).foldl (· + ·) {}

end DurableAggregates.Cluster
