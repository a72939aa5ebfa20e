import DurableAggregates.Repository.Operations

/-!
# Executing operations without interruption

A `World` is what a repository works on: the store, and notes on what its collaborators were given. An `Environment`
decides how the world answers: which faults hold at each call of the store, and how sink, engine and scheduler answer.
It is a function of the number of store calls made so far, so every pattern of faults and answers is one environment.
`Operation.exec` runs an operation from beginning to end, answering its requests one after another
(`exec_bind`).
-/

namespace DurableAggregates

/-! ## Worlds and environments -/

structure World where
  store : Store := {}
  /-- The letters that were offered to the sink and its answers, the first first. -/
  letters : List (DeadLetter × Except DeadLetterError Unit) := []
  /-- The exchanges whose redelivery was begun, with their keys, the first first. -/
  handed : List (CorrelationKey × Exchange) := []

/-- The letters that the sink accepted, the first first. -/
def World.accepted (w : World) : List DeadLetter := (w.letters.filter (·.2.isOk)).map (·.1)

/-- The number of store calls made so far. -/
def World.moment (w : World) : Nat := w.store.calls.total

/-- How the surroundings of a repository behave, as functions of the moment. -/
structure Environment where
  /-- The faults that hold at a call of the store. -/
  faults : Nat → Store.Faults := fun _ => {}
  /-- The answer of the sink to a letter. -/
  sink : Nat → DeadLetter → Except DeadLetterError Unit := fun _ _ => .ok ()
  /-- The answer of the engine to an exchange that is handed back. -/
  engine : Nat → CorrelationKey → Exchange → Except RedeliveryError Unit := fun _ _ _ => .ok ()
  /-- How the scheduler ends, if it is told to. -/
  ending : Nat → Except String Unit := fun _ => .ok ()

namespace Environment

/-- No call of the store ever fails by a fault, and no key is listed that is not stored. -/
def Healthy (env : Environment) : Prop := ∀ n, env.faults n = {}

/-- The sink accepts every letter. -/
def Accepting (env : Environment) : Prop := ∀ n letter, env.sink n letter = .ok ()

/-- The sink accepts no letter. -/
def Refusing (env : Environment) : Prop := ∀ n letter, ∃ e, env.sink n letter = .error e

/-- The store with the faults that hold now. -/
def storeNow (env : Environment) (w : World) : Store := { w.store with faults := env.faults w.moment }

/-- The result of a store call made now. -/
def result (env : Environment) (w : World) (c : Store.Call) : c.Result := ((env.storeNow w).perform c).1

/-- The world after a store call made now. -/
def after (env : Environment) (w : World) (c : Store.Call) : World :=
  { w with store := ((env.storeNow w).perform c).2 }

/-- The answer of the sink to a letter offered now. -/
def verdict (env : Environment) (w : World) (letter : DeadLetter) : Except DeadLetterError Unit :=
  env.sink w.moment letter

/-- The world after a letter was offered now. -/
def offering (env : Environment) (w : World) (letter : DeadLetter) : World :=
  { w with letters := w.letters ++ [(letter, env.verdict w letter)] }

/-- The answer to a request and the world after it. -/
def answer (env : Environment) (w : World) : (q : Request) → q.Answer × World
  | .store c => (env.result w c, env.after w c)
  | .forward letter => (env.verdict w letter, env.offering w letter)
  | .dispatch key e => ((), { w with handed := w.handed ++ [(key, e)] })
  | .deliver key e => (env.engine w.moment key e, w)
  | .halt => (env.ending w.moment, w)
  | .tick => (true, w)
  | .report _ | .acquire _ | .release _ | .launch _ | .sleep _ => ((), w)

end Environment

/-! ## Execution -/

/-- What a run comes to when nothing else happens in between. -/
def Run.exec {α : Type} (env : Environment) : Run α → World → α × Repository × World
  | .finished a r, w => (a, r, w)
  | .asking q r next, w => (next (env.answer w q).1 r).exec env (env.answer w q).2

def Procedure.exec {α : Type} (x : Procedure α) (env : Environment) (r : Repository) (w : World) :
    α × Repository × World := (x r).exec env w

def Operation.exec {α : Type} (x : Operation α) (env : Environment) (r : Repository) (w : World) :
    Except RepositoryError α × Repository × World := Procedure.exec x.run env r w

variable {α β : Type} {env : Environment} {r : Repository} {w : World}

theorem Run.exec_bind (x : Run α) (f : α → Repository → Run β) (w : World) :
    (x.bind f).exec env w = (f (x.exec env w).1 (x.exec env w).2.1).exec env (x.exec env w).2.2 := by
  induction x generalizing w with
  | finished a r => rfl
  | asking q r next ih => exact ih _ _ _

/-! ### Procedures -/

namespace Procedure

@[simp] theorem exec_pure (a : α) : (pure a : Procedure α).exec env r w = (a, r, w) := rfl

@[simp] theorem exec_bind (x : Procedure α) (f : α → Procedure β) :
    (x >>= f).exec env r w =
      (f (x.exec env r w).1).exec env (x.exec env r w).2.1 (x.exec env r w).2.2 :=
  Run.exec_bind (x r) (fun a => f a) w

@[simp] theorem exec_modifyThe (f : Repository → Repository) :
    (modifyThe Repository f : Procedure PUnit).exec env r w = (⟨⟩, f r, w) := rfl

@[simp] theorem exec_report (e : RouteError) :
    (report e).exec env r w = (⟨⟩, { r with lastError := some e }, w) := rfl

end Procedure

/-! ### Operations -/

@[simp] theorem mapError_ok {ε ε' : Type} (f : ε → ε') (a : α) : (.ok a : Except ε α).mapError f = .ok a := rfl

namespace Operation

@[simp] theorem exec_pure (a : α) : (pure a : Operation α).exec env r w = (.ok a, r, w) := rfl

@[simp] theorem exec_throw (e : RepositoryError) :
    (throw e : Operation α).exec env r w = (.error e, r, w) := rfl

/-- An operation goes on with the second part where the first has a result. -/
theorem exec_bind (x : Operation α) (f : α → Operation β) :
    (x >>= f).exec env r w = match x.exec env r w with
      | (.ok a, s, v) => (f a).exec env s v
      | (.error e, s, v) => (.error e, s, v) := by
  show Procedure.exec (x.run >>= ExceptT.bindCont f) env r w = _
  rw [Procedure.exec_bind]
  show Procedure.exec (ExceptT.bindCont f (x.exec env r w).1) env (x.exec env r w).2.1 (x.exec env r w).2.2 = _
  generalize x.exec env r w = y
  obtain ⟨a | a, s, v⟩ := y <;> rfl

theorem exec_bind_ok {x : Operation α} {f : α → Operation β} {a : α} {s : Repository} {v : World}
    (h : x.exec env r w = (.ok a, s, v)) : (x >>= f).exec env r w = (f a).exec env s v := by
  rw [exec_bind, h]

theorem exec_bind_error {x : Operation α} {f : α → Operation β} {e : RepositoryError} {s : Repository} {v : World}
    (h : x.exec env r w = (.error e, s, v)) : (x >>= f).exec env r w = (.error e, s, v) := by
  rw [exec_bind, h]

/-- Something is made of the result of an operation. -/
theorem exec_bind_pure (x : Operation α) (f : α → β) :
    (x >>= fun a => pure (f a)).exec env r w =
      ((x.exec env r w).1.map f, (x.exec env r w).2.1, (x.exec env r w).2.2) := by
  rw [exec_bind]
  generalize x.exec env r w = y
  obtain ⟨a | a, s, v⟩ := y <;> rfl

@[simp] theorem exec_getThe : (getThe Repository : Operation Repository).exec env r w = (.ok r, r, w) := rfl

@[simp] theorem exec_modifyThe (f : Repository → Repository) :
    (modifyThe Repository f : Operation PUnit).exec env r w = (.ok ⟨⟩, f r, w) := rfl

/-- A procedure as an operation always has a result. -/
@[simp] theorem exec_lift (x : Procedure α) :
    (monadLift x : Operation α).exec env r w =
      (.ok (x.exec env r w).1, (x.exec env r w).2.1, (x.exec env r w).2.2) := by
  show Procedure.exec (x >>= fun a => pure (Except.ok (ε := RepositoryError) a)) env r w = _
  rw [Procedure.exec_bind]
  rfl

@[simp] theorem exec_ofStore (x : Except StoreError α) :
    (ofStore x).exec env r w = (x.mapError .store, r, w) := by
  cases x <;> rfl

/-- Nothing else is under way, so a lock is free. -/
theorem exec_holding (l : Lock) (x : Operation α) : (holding l x).exec env r w = x.exec env r w := by
  show Procedure.exec (Procedure.ask (.acquire l) >>= fun _ => x.run >>= fun a =>
    Procedure.ask (.release l) >>= fun _ => pure a) env r w = _
  simp only [Procedure.exec_bind, Procedure.exec_pure]
  rfl

end Operation

/-! ### The policy -/

namespace Repository

theorem runningPolicy_run {p : Policy} (h : r.active = some p) : runningPolicy.run r = .finished (.ok p) r := by
  cases r
  cases h
  rfl

theorem runningPolicy_run_none (h : r.active = none) : runningPolicy.run r = .finished (.error .notRunning) r := by
  cases r
  cases h
  rfl

theorem run_running_bind {p : Policy} {f : Policy → Operation α} (h : r.active = some p) :
    (runningPolicy >>= f).run r = (f p).run r := by
  show (runningPolicy.run r).bind _ = _
  rw [runningPolicy_run h]
  rfl

theorem run_running_bind_none {f : Policy → Operation α} (h : r.active = none) :
    (runningPolicy >>= f).run r = .finished (.error .notRunning) r := by
  show (runningPolicy.run r).bind _ = _
  rw [runningPolicy_run_none h]
  rfl

end Repository

/-! ### Calls of the store -/

namespace Repository

open Operation

theorem fetch_exec (key : CorrelationKey) :
    (fetch key).exec env r w = ((env.result w (.get key)).mapError .store, r, env.after w (.get key)) := by
  show (monadLift (Procedure.call (.get key)) >>= ofStore).exec env r w = _
  rw [exec_bind_ok (exec_lift _), exec_ofStore]
  rfl

theorem listed_exec :
    listed.exec env r w = ((env.result w .keys).mapError .store, r, env.after w .keys) := by
  show (monadLift (Procedure.call .keys) >>= ofStore).exec env r w = _
  rw [exec_bind_ok (exec_lift _), exec_ofStore]
  rfl

theorem erase_exec (key : CorrelationKey) :
    (erase key).exec env r w = ((env.result w (.remove key)).mapError .store, r, env.after w (.remove key)) := by
  show (monadLift (Procedure.call (.remove key)) >>= ofStore).exec env r w = _
  rw [exec_bind_ok (exec_lift _), exec_ofStore]
  rfl

end Repository

end DurableAggregates
