import DurableAggregates.Proofs.Execution.Operations

/-!
# Sinks that do something

A sink can do more than answer: it may be a procedure, which works on the repository and on the store before the pass
goes on. `through sink` replaces what is asked of a sink by what the sink does, and leaves all other requests; it goes
through sequencing (`Operation.through_bind`). `Spares` says that whatever a sink does meanwhile, something leaves a
key alone; it is closed under sequencing too.
-/

namespace DurableAggregates

/-- What a sink does with a letter before it answers. -/
abbrev Reaction := DeadLetter → Procedure (Except DeadLetterError Unit)

variable {α β : Type} {sink : Reaction}

/-! ## Putting a sink in -/

/-- A letter is answered by what the sink does with it. -/
def Request.through (sink : Reaction) : (q : Request) → Procedure q.Answer
  | .forward letter => sink letter
  | q => Procedure.ask q

def Run.through (sink : Reaction) : Run α → Run α
  | .finished a r => .finished a r
  | .asking q r next => (q.through sink r).bind fun a s => (next a s).through sink

theorem Run.through_bind (x : Run α) (f : α → Repository → Run β) :
    (x.bind f).through sink = (x.through sink).bind fun a r => (f a r).through sink := by
  induction x with
  | finished a r => rfl
  | asking q r next ih =>
    show (q.through sink r).bind (fun a s => ((next a s).bind f).through sink) =
      ((q.through sink r).bind fun a s => (next a s).through sink).bind _
    rw [Run.bind_bind]
    exact congrArg (Run.bind _) (funext fun a => funext fun s => ih a s)

def Procedure.through (sink : Reaction) (x : Procedure α) : Procedure α :=
  fun r => (x r).through sink

def Operation.through (sink : Reaction) (x : Operation α) : Operation α :=
  ExceptT.mk (Procedure.through sink x.run)

namespace Procedure

@[simp] theorem through_pure (a : α) : (pure a : Procedure α).through sink = pure a := rfl

@[simp] theorem through_bind (x : Procedure α) (f : α → Procedure β) :
    (x >>= f).through sink = x.through sink >>= fun a => (f a).through sink :=
  funext fun r => (x r).through_bind fun a => f a

@[simp] theorem through_modifyThe (f : Repository → Repository) :
    (modifyThe Repository f : Procedure PUnit).through sink = modifyThe Repository f := rfl

theorem through_ask (q : Request) : (ask q).through sink = q.through sink :=
  funext fun r => (q.through sink r).bind_finished

end Procedure

namespace Operation

@[simp] theorem through_pure (a : α) : (pure a : Operation α).through sink = pure a := rfl

@[simp] theorem through_throw (e : RepositoryError) : (throw e : Operation α).through sink = throw e := rfl

@[simp] theorem through_bind (x : Operation α) (f : α → Operation β) :
    (x >>= f).through sink = x.through sink >>= fun a => (f a).through sink := by
  show Procedure.through sink (x.run >>= ExceptT.bindCont f) = Procedure.through sink x.run >>= ExceptT.bindCont _
  rw [Procedure.through_bind]
  refine congrArg (Procedure.through sink x.run >>= ·) (funext fun a => ?_)
  cases a <;> rfl

@[simp] theorem through_getThe : (getThe Repository : Operation Repository).through sink = getThe Repository := rfl

@[simp] theorem through_modifyThe (f : Repository → Repository) :
    (modifyThe Repository f : Operation PUnit).through sink = modifyThe Repository f := rfl

@[simp] theorem through_lift (x : Procedure α) :
    (monadLift x : Operation α).through sink = monadLift (x.through sink) := by
  show Procedure.through sink (x >>= fun a => pure (Except.ok a)) = _
  rw [Procedure.through_bind]
  rfl

@[simp] theorem through_ofStore (x : Except StoreError α) : (ofStore x).through sink = ofStore x := by
  cases x <;> rfl

@[simp] theorem through_holding (l : Lock) (x : Operation α) :
    (holding l x).through sink = holding l (x.through sink) := by
  show Procedure.through sink (Procedure.ask (.acquire l) >>= fun _ => x.run >>= fun a =>
    Procedure.ask (.release l) >>= fun _ => pure a) = _
  simp only [Procedure.through_bind, Procedure.through_pure]
  rfl

end Operation

namespace Repository

open Operation

/-- A call of the store is no matter of the sink. -/
theorem through_call (c : Store.Call) {f : c.Result → Operation α} (hf : ∀ x, (f x).through sink = f x) :
    (monadLift (Procedure.call c) >>= f).through sink = monadLift (Procedure.call c) >>= f := by
  rw [through_bind, through_lift, show (Procedure.call c).through sink = _ from Procedure.through_ask (.store c)]
  exact congrArg (monadLift (Procedure.call c) >>= ·) (funext hf)

@[simp] theorem through_runningPolicy : runningPolicy.through sink = runningPolicy := by
  simp only [runningPolicy, through_bind, through_getThe]
  refine congrArg (getThe Repository >>= ·) (funext fun r => ?_)
  cases r.active <;> rfl

@[simp] theorem through_fetch (key : CorrelationKey) : (fetch key).through sink = fetch key :=
  through_call (.get key) through_ofStore

@[simp] theorem through_listed : listed.through sink = listed := through_call .keys through_ofStore

@[simp] theorem through_erase (key : CorrelationKey) : (erase key).through sink = erase key :=
  through_call (.remove key) through_ofStore

@[simp] theorem through_recoverable (s : Setup) (key : CorrelationKey) :
    (recoverable s key).through sink = recoverable s key := by
  unfold recoverable
  split <;> simp only [through_bind, through_fetch, through_pure]

@[simp] theorem through_eraseIfCurrent (key : CorrelationKey) (id : String) :
    (eraseIfCurrent key id).through sink = eraseIfCurrent key id := by
  simp only [eraseIfCurrent, through_bind, through_fetch]
  refine congrArg (fetch key >>= ·) (funext fun current => ?_)
  split <;> simp only [through_bind, through_erase, through_modifyThe, through_pure]

end Repository

/-! ## What is not touched -/

/-- The entry of the key, its record and the policy are the same. -/
structure Untouched (key : CorrelationKey) (r : Repository) (w : World) (t : Repository) (u : World) : Prop where
  entry : u.store.data[key]? = w.store.data[key]?
  record : t.records[key]? = r.records[key]?
  active : t.active = r.active

namespace Untouched

variable {key : CorrelationKey} {r t t' : Repository} {w u u' : World}

theorem refl (key : CorrelationKey) (r : Repository) (w : World) : Untouched key r w r w := ⟨rfl, rfl, rfl⟩

theorem trans (h : Untouched key r w t u) (h' : Untouched key t u t' u') : Untouched key r w t' u' :=
  ⟨h'.entry.trans h.entry, h'.record.trans h.record, h'.active.trans h.active⟩

end Untouched

/-- With this sink, the procedure leaves the key alone. -/
def Procedure.Spares (sink : Reaction) (env : Environment)
    (key : CorrelationKey) (x : Procedure α) : Prop :=
  ∀ r w, Untouched key r w ((x.through sink).exec env r w).2.1 ((x.through sink).exec env r w).2.2

def Operation.Spares (sink : Reaction) (env : Environment)
    (key : CorrelationKey) (x : Operation α) : Prop := Procedure.Spares sink env key x.run

section

variable {env : Environment} {key : CorrelationKey}

namespace Procedure.Spares

theorem pure (a : α) : Procedure.Spares sink env key (Pure.pure a) := fun r w => .refl key r w

theorem bind {x : Procedure α} {f : α → Procedure β} (hx : x.Spares sink env key)
    (hf : ∀ a, (f a).Spares sink env key) : (x >>= f).Spares sink env key := by
  intro r w
  rw [through_bind, exec_bind]
  exact (hx r w).trans (hf _ _ _)

theorem modify {f : Repository → Repository} (hr : ∀ r, (f r).records[key]? = r.records[key]?)
    (ha : ∀ r, (f r).active = r.active) : Procedure.Spares sink env key (modifyThe Repository f) :=
  fun r _ => ⟨rfl, hr r, ha r⟩

end Procedure.Spares

namespace Operation.Spares

theorem pure (a : α) : Operation.Spares sink env key (Pure.pure a) := Procedure.Spares.pure (Except.ok a)

theorem fail (e : RepositoryError) : Operation.Spares sink env key (throw e : Operation α) :=
  Procedure.Spares.pure (Except.error e)

theorem bind {x : Operation α} {f : α → Operation β} (hx : x.Spares sink env key)
    (hf : ∀ a, (f a).Spares sink env key) : (x >>= f).Spares sink env key := by
  refine Procedure.Spares.bind hx fun a => ?_
  cases a with
  | ok a => exact hf a
  | error e => exact fail e

theorem get : Operation.Spares sink env key (getThe Repository) := fun r w => .refl key r w

theorem modify {f : Repository → Repository} (hr : ∀ r, (f r).records[key]? = r.records[key]?)
    (ha : ∀ r, (f r).active = r.active) : Operation.Spares sink env key (modifyThe Repository f) :=
  fun r _ => ⟨rfl, hr r, ha r⟩

/-- It is enough to execute what becomes of an operation when the sink is put in. -/
theorem of_through {x y : Operation α} (hx : x.through sink = y)
    (h : ∀ r w, Untouched key r w (y.exec env r w).2.1 (y.exec env r w).2.2) : x.Spares sink env key := by
  intro r w
  show Untouched key r w ((x.through sink).exec env r w).2.1 ((x.through sink).exec env r w).2.2
  rw [hx]
  exact h r w

theorem lift {x : Procedure α} (hx : x.Spares sink env key) : Operation.Spares sink env key (monadLift x) :=
  Procedure.Spares.bind hx fun a => Procedure.Spares.pure (Except.ok a : Except RepositoryError α)

end Operation.Spares

end

end DurableAggregates
