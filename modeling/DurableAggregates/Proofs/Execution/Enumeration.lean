import DurableAggregates.Proofs.Execution.Basic

/-!
# Listings in another order

A store lists its keys in some order, and nothing in what a repository does may rest on which it is.
`x.enumerated order` is the operation `x` where every listing comes in the order that is made of it; all other answers
stay. It goes through sequencing (`Operation.enumerated_bind`), and what does not list the keys is not affected by it.
-/

namespace DurableAggregates

/-- What an order makes of a list of keys. -/
abbrev KeyOrder := List CorrelationKey → List CorrelationKey

variable {α β : Type} {order : KeyOrder}

/-- The answer to a request, where the keys of a listing come in another order. -/
def Request.reorder (order : KeyOrder) : (q : Request) → q.Answer → q.Answer
  | .store .keys, answer => answer.map order
  | _, answer => answer

def Run.enumerated (order : KeyOrder) : Run α → Run α
  | .finished a r => .finished a r
  | .asking q r next => .asking q r fun a s => (next (q.reorder order a) s).enumerated order

theorem Run.enumerated_bind (x : Run α) (f : α → Repository → Run β) :
    (x.bind f).enumerated order = (x.enumerated order).bind fun a r => (f a r).enumerated order := by
  induction x with
  | finished a r => rfl
  | asking q r next ih => exact congrArg (Run.asking q r) (funext fun a => funext fun s => ih (q.reorder order a) s)

def Procedure.enumerated (order : KeyOrder) (x : Procedure α) : Procedure α := fun r => (x r).enumerated order

theorem Procedure.enumerated_bind (x : Procedure α) (f : α → Procedure β) :
    (x >>= f).enumerated order = x.enumerated order >>= fun a => (f a).enumerated order :=
  funext fun r => (x r).enumerated_bind fun a => f a

def Operation.enumerated (order : KeyOrder) (x : Operation α) : Operation α :=
  ExceptT.mk (Procedure.enumerated order x.run)

namespace Operation

@[simp] theorem enumerated_pure (a : α) : (pure a : Operation α).enumerated order = pure a := rfl

@[simp] theorem enumerated_throw (e : RepositoryError) : (throw e : Operation α).enumerated order = throw e := rfl

@[simp] theorem enumerated_bind (x : Operation α) (f : α → Operation β) :
    (x >>= f).enumerated order = x.enumerated order >>= fun a => (f a).enumerated order := by
  show Procedure.enumerated order (x.run >>= ExceptT.bindCont f) =
    Procedure.enumerated order x.run >>= ExceptT.bindCont _
  rw [Procedure.enumerated_bind]
  refine congrArg (Procedure.enumerated order x.run >>= ·) (funext fun a => ?_)
  cases a <;> rfl

@[simp] theorem enumerated_getThe : (getThe Repository : Operation Repository).enumerated order = getThe Repository :=
  rfl

@[simp] theorem enumerated_modifyThe (f : Repository → Repository) :
    (modifyThe Repository f : Operation PUnit).enumerated order = modifyThe Repository f := rfl

@[simp] theorem enumerated_ofStore (x : Except StoreError α) : (ofStore x).enumerated order = ofStore x := by
  cases x <;> rfl

/-- Listings in their own order are what they are. -/
@[simp] theorem enumerated_id (x : Operation α) : x.enumerated (fun keys => keys) = x := by
  have hrun : ∀ y : Run (Except RepositoryError α), y.enumerated (fun keys => keys) = y := by
    intro y
    induction y with
    | finished a r => rfl
    | asking q r next ih =>
      refine congrArg (Run.asking q r) (funext fun a => funext fun s => ?_)
      have hq : q.reorder (fun keys => keys) a = a := by
        unfold Request.reorder
        split
        · next a => cases a <;> rfl
        · rfl
      rw [hq]
      exact ih a s
  exact funext fun r => hrun (x.run r)

end Operation

namespace Repository

open Operation

@[simp] theorem enumerated_runningPolicy : runningPolicy.enumerated order = runningPolicy := by
  simp only [runningPolicy, enumerated_bind, enumerated_getThe]
  refine congrArg (getThe Repository >>= ·) (funext fun r => ?_)
  cases r.active <;> rfl

@[simp] theorem enumerated_fetch (key : CorrelationKey) : (fetch key).enumerated order = fetch key := by
  show (monadLift (Procedure.call (.get key)) >>= ofStore).enumerated order = _
  rw [enumerated_bind]
  exact congrArg (monadLift (Procedure.call (.get key)) >>= ·) (funext enumerated_ofStore)

@[simp] theorem enumerated_erase (key : CorrelationKey) : (erase key).enumerated order = erase key := by
  show (monadLift (Procedure.call (.remove key)) >>= ofStore).enumerated order = _
  rw [enumerated_bind]
  exact congrArg (monadLift (Procedure.call (.remove key)) >>= ·) (funext enumerated_ofStore)

theorem enumerated_listed : listed.enumerated order = listed >>= fun keys => pure (order keys) := by
  refine funext fun r => congrArg (Run.asking (.store .keys) r) (funext fun a => funext fun s => ?_)
  cases a <;> rfl

@[simp] theorem enumerated_search (id : String) (keys : List CorrelationKey) :
    (search id keys).enumerated order = search id keys := by
  induction keys with
  | nil => rfl
  | cons key rest ih =>
    simp only [search, enumerated_bind, enumerated_fetch]
    refine congrArg (fetch key >>= ·) (funext fun found => ?_)
    cases found with
    | none => exact ih
    | some snapshot =>
      dsimp only
      split
      · rfl
      · exact ih

end Repository

end DurableAggregates
