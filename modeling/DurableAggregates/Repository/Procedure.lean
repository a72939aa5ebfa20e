import DurableAggregates.Repository.Basic
import DurableAggregates.Store.Memory

/-!
# Procedures

What a repository does is a `Procedure`: it reads and changes the repository, and in between it makes requests to the
world and goes on with their answers. While a request is open other procedures may change the repository, so the rest
of a procedure takes the repository as it is when the answer comes. A `Run` is what a procedure comes to on a given
repository: it has finished, or it asks. `Operation` is a procedure that can fail. Which requests are answered at once
and in which order procedures go on is for the world to decide.
-/

namespace DurableAggregates

/-- A lock of a repository, which one procedure can hold at a time. -/
inductive Lock where
  /-- Held while the repository starts or stops. -/
  | lifecycle
  /-- Held during a recovery pass. -/
  | pass
  deriving DecidableEq, Repr

inductive Request where
  | store (c : Store.Call)
  /-- Gives a letter to the sink. -/
  | forward (letter : DeadLetter)
  /-- Begins the redelivery of an exchange, as a procedure of its own. -/
  | dispatch (key : CorrelationKey) (e : Exchange)
  /-- Hands an exchange to the routing engine. -/
  | deliver (key : CorrelationKey) (e : Exchange)
  /-- Tells the monitor of a lifecycle error. -/
  | report (e : RouteError)
  | acquire (l : Lock)
  | release (l : Lock)
  /-- Begins a scheduler with an interval in milliseconds, as a procedure of its own. -/
  | launch (interval : Nat)
  /-- Ends the scheduler, if there is one, and waits until it has ended; an error says how it crashed before. -/
  | halt
  /-- Waits for the next tick of the scheduler; false once it is to end. -/
  | tick
  /-- Waits some milliseconds. -/
  | sleep (time : Nat)

/-- What a request is answered with. -/
abbrev Request.Answer : Request → Type
  | .store c => c.Result
  | .forward _ => Except DeadLetterError Unit
  | .deliver _ _ => Except RedeliveryError Unit
  | .halt => Except String Unit
  | .tick => Bool
  | .dispatch _ _ | .report _ | .acquire _ | .release _ | .launch _ | .sleep _ => Unit

inductive Run (α : Type) : Type where
  | finished (a : α) (r : Repository)
  | asking (q : Request) (r : Repository) (next : q.Answer → Repository → Run α)

namespace Run

variable {α β γ : Type}

/-- Goes on with a second procedure where the first has finished. -/
def bind : Run α → (α → Repository → Run β) → Run β
  | .finished a r, f => f a r
  | .asking q r next, f => .asking q r fun x s => (next x s).bind f

@[simp] theorem finished_bind (a : α) (r : Repository) (f : α → Repository → Run β) :
    (finished a r).bind f = f a r := rfl

@[simp] theorem asking_bind (q : Request) (r : Repository) (next : q.Answer → Repository → Run α)
    (f : α → Repository → Run β) : (asking q r next).bind f = .asking q r fun x s => (next x s).bind f := rfl

@[simp] theorem bind_finished (x : Run α) : x.bind .finished = x := by
  induction x with
  | finished a r => rfl
  | asking q r next ih => exact congrArg (Run.asking q r) (funext fun a => funext fun s => ih a s)

theorem bind_bind (x : Run α) (f : α → Repository → Run β) (g : β → Repository → Run γ) :
    (x.bind f).bind g = x.bind fun a r => (f a r).bind g := by
  induction x with
  | finished a r => rfl
  | asking q r next ih => exact congrArg (Run.asking q r) (funext fun a => funext fun s => ih a s)

end Run

def Procedure (α : Type) : Type := Repository → Run α

namespace Procedure

variable {α β : Type}

instance : Monad Procedure where
  pure a := fun r => .finished a r
  bind x f := fun r => (x r).bind f

instance : MonadStateOf Repository Procedure where
  get := fun r => .finished r r
  set s := fun _ => .finished () s
  modifyGet f := fun r => let (a, s) := f r; .finished a s

theorem bind_apply (x : Procedure α) (f : α → Procedure β) (r : Repository) : (x >>= f) r = (x r).bind f := rfl

instance : LawfulMonad Procedure := .mk' Procedure
  (fun x => funext fun r => (x r).bind_finished)
  (fun _ _ => rfl)
  (fun x f g => funext fun r => (x r).bind_bind (fun a => f a) fun b => g b)

/-- Makes a request. -/
def ask (q : Request) : Procedure q.Answer := fun r => .asking q r .finished

/-- The procedure makes this request and no other, and has finished when the answer is there. -/
def AsksOnce (x : Procedure α) (q : Request) : Prop :=
  ∀ r, ∃ next : q.Answer → Repository → α × Repository,
    x r = .asking q r fun answer t => .finished (next answer t).1 (next answer t).2

/-- Calls the store. -/
def call (c : Store.Call) : Procedure c.Result := ask (.store c)

/-- Tells the monitor of an error, which becomes the last one. -/
def report (e : RouteError) : Procedure Unit := do
  modify fun r => { r with lastError := some e }
  ask (.report e)

end Procedure

/-- A procedure that can fail. -/
abbrev Operation (α : Type) : Type := ExceptT RepositoryError Procedure α

namespace Operation

variable {α : Type}

/-- Goes on with the result of a store call. -/
def ofStore (x : Except StoreError α) : Operation α :=
  match x with
  | .ok a => pure a
  | .error e => throw (.store e)

/-- Does something while holding a lock, which is given back whatever the result. -/
def holding (l : Lock) (x : Operation α) : Operation α := ExceptT.mk do
  Procedure.ask (.acquire l)
  let result ← x.run
  Procedure.ask (.release l)
  return result

end Operation

end DurableAggregates
