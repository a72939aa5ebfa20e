import DurableAggregates.Cluster.Script

/-!
# Procedures that keep to some requests

A run is `Confined` if it makes requests of one kind only and leaves the policy of the repository alone, whatever
happens to the repository while a request is open. Confined procedures are closed under sequencing
(`Procedure.Within`, `Operation.Within`). Most of what a repository does asks only for store calls, letters and the
begin of redeliveries, and so waits for nobody: all operations on aggregates and the body of a recovery pass are of
that kind, `Request.isPlain`; starting and stopping are not.
-/

namespace DurableAggregates

/-- Whether a request needs nobody to wait, neither for a task nor for a time. -/
def Request.isPlain : Request → Bool
  | .store _ | .forward _ | .dispatch _ _ => true
  | _ => false

variable {α β : Type} {ok allowed : Request → Bool} {P : α → Prop} {Q : β → Prop} {p : Option Policy}

/--
A run of a repository with the policy `p` that makes requests of one kind only, leaves the policy alone, and has a
result of one kind.
-/
inductive Run.Confined (ok : Request → Bool) (P : α → Prop) : Option Policy → Run α → Prop where
  | finished {p : Option Policy} {a : α} (ha : P a) {r : Repository} (hr : r.active = p) :
      Confined ok P p (.finished a r)
  | asking {p : Option Policy} {q : Request} (hq : ok q = true) {r : Repository} (hr : r.active = p)
      {next : q.Answer → Repository → Run α} (h : ∀ a s, Confined ok P s.active (next a s)) :
      Confined ok P p (.asking q r next)

theorem Run.Confined.bind {x : Run α} {f : α → Repository → Run β} (hx : x.Confined ok P p)
    (hf : ∀ a r, P a → (f a r).Confined ok Q r.active) : (x.bind f).Confined ok Q p := by
  induction hx with
  | @finished p a ha r hr =>
    rw [← hr]
    exact hf a r ha
  | asking hq hr h ih => exact .asking hq hr ih

/-- What is confined to some requests is confined to more. -/
theorem Run.Confined.mono {x : Run α} (hx : x.Confined ok P p) (h : ∀ q, ok q = true → allowed q = true) :
    x.Confined allowed P p := by
  induction hx with
  | finished ha hr => exact .finished ha hr
  | asking hq hr h' ih => exact .asking (h _ hq) hr ih

/-! ## Procedures and operations -/

/-- A procedure that makes requests of one kind only and leaves the policy alone. -/
def Procedure.Within (ok : Request → Bool) (x : Procedure α) : Prop :=
  ∀ r : Repository, (x r).Confined ok (fun _ => True) r.active

def Operation.Within (ok : Request → Bool) (x : Operation α) : Prop := Procedure.Within ok x.run

namespace Procedure.Within

theorem pure (a : α) : Procedure.Within ok (Pure.pure a) := fun _ => .finished trivial rfl

theorem bind {x : Procedure α} {f : α → Procedure β} (hx : x.Within ok) (hf : ∀ a, (f a).Within ok) :
    (x >>= f).Within ok :=
  fun r => (hx r).bind fun a s _ => hf a s

theorem mono {x : Procedure α} (hx : x.Within ok) (h : ∀ q, ok q = true → allowed q = true) : x.Within allowed :=
  fun r => (hx r).mono h

theorem ask {q : Request} (hq : ok q = true) : (Procedure.ask q).Within ok :=
  fun _ => .asking hq rfl fun _ _ => .finished trivial rfl

theorem modify {f : Repository → Repository} (hf : ∀ r, (f r).active = r.active) :
    Procedure.Within ok (modifyThe Repository f) := fun r => .finished trivial (hf r)

theorem foldlM {ι : Type} {f : β → ι → Procedure β} (hf : ∀ b i, (f b i).Within ok) (l : List ι) (b : β) :
    (l.foldlM f b).Within ok := by
  induction l generalizing b with
  | nil => exact pure b
  | cons i l ih =>
    rw [List.foldlM_cons]
    exact bind (hf b i) ih

end Procedure.Within

namespace Operation.Within

theorem pure (a : α) : Operation.Within ok (Pure.pure a) := Procedure.Within.pure (Except.ok a)

theorem fail (e : RepositoryError) : Operation.Within ok (throw e : Operation α) :=
  Procedure.Within.pure (Except.error e)

theorem bind {x : Operation α} {f : α → Operation β} (hx : x.Within ok) (hf : ∀ a, (f a).Within ok) :
    (x >>= f).Within ok := by
  refine Procedure.Within.bind hx fun a => ?_
  cases a with
  | ok a => exact hf a
  | error e => exact fail e

theorem mono {x : Operation α} (hx : x.Within ok) (h : ∀ q, ok q = true → allowed q = true) : x.Within allowed :=
  Procedure.Within.mono hx h

theorem get : Operation.Within ok (getThe Repository) := fun _ => Run.Confined.finished trivial rfl

theorem modify {f : Repository → Repository} (hf : ∀ r, (f r).active = r.active) :
    Operation.Within ok (modifyThe Repository f) := fun r => Run.Confined.finished trivial (hf r)

theorem lift {x : Procedure α} (hx : x.Within ok) : Operation.Within ok (monadLift x) :=
  Procedure.Within.bind hx fun a => Procedure.Within.pure (Except.ok a : Except RepositoryError α)

theorem ofStore (x : Except StoreError α) : (Operation.ofStore x).Within ok := by
  cases x with
  | ok a => exact pure a
  | error e => exact fail (.store e)

theorem forM {ι : Type} {f : ι → Operation PUnit} (hf : ∀ i, (f i).Within ok) (l : List ι) :
    Operation.Within ok (l.forM f) := by
  induction l with
  | nil => exact pure _
  | cons i l ih => exact bind (hf i) fun _ => ih

theorem call (c : Store.Call) : Operation.Within Request.isPlain (monadLift (Procedure.call c)) := lift (.ask rfl)

end Operation.Within

/-! ## What a repository does -/

open Request (isPlain)

namespace Repository

open Operation

theorem plain_runningPolicy : runningPolicy.Within isPlain := by
  refine .bind .get fun r => ?_
  cases r.active with
  | some policy => exact .pure policy
  | none => exact .fail .notRunning

theorem plain_fetch (key : CorrelationKey) : (fetch key).Within isPlain := .bind (.call _) .ofStore

theorem plain_listed : listed.Within isPlain := .bind (.call _) .ofStore

theorem plain_erase (key : CorrelationKey) : (erase key).Within isPlain := .bind (.call _) .ofStore

theorem plain_add (key : CorrelationKey) (e : Exchange) : (add key e).Within isPlain := by
  refine .bind plain_runningPolicy fun policy => ?_
  cases e.capture policy.allowSerializedHeaders with
  | error fault => exact .fail _
  | ok snapshot =>
    exact .bind (.call _) fun answer => .bind (.ofStore answer) fun previous => .bind (.modify fun _ => rfl) fun _ => .pure _

theorem plain_get? (key : CorrelationKey) : (get? key).Within isPlain :=
  .bind plain_runningPolicy fun _ => .bind (plain_fetch key) fun _ => .pure _

theorem plain_remove (key : CorrelationKey) : (remove key).Within isPlain :=
  .bind plain_runningPolicy fun _ => .bind (plain_erase key) fun _ => .modify fun _ => rfl

theorem plain_keys : keys.Within isPlain := .bind plain_runningPolicy fun _ => plain_listed

theorem plain_recoverable (s : Setup) (key : CorrelationKey) : (recoverable s key).Within isPlain := by
  unfold recoverable
  split
  · exact .bind (plain_fetch key) fun _ => .pure _
  · exact .pure none

theorem plain_recover (s : Setup) (key : CorrelationKey) : (recover s key).Within isPlain :=
  .bind plain_runningPolicy fun _ => plain_recoverable s key

theorem plain_recoveryState? (key : CorrelationKey) : (recoveryState? key).Within isPlain := by
  refine .bind plain_runningPolicy fun _ => .bind (plain_fetch key) fun found => ?_
  cases found with
  | some snapshot => exact .bind .get fun _ => .pure _
  | none => exact .pure none

theorem plain_search (id : String) (stored : List CorrelationKey) : (search id stored).Within isPlain := by
  induction stored with
  | nil => exact .pure none
  | cons key rest ih =>
    refine .bind (plain_fetch key) fun found => ?_
    cases found with
    | some snapshot =>
      show Operation.Within isPlain (if snapshot.id = id then _ else _)
      split
      · exact .pure _
      · exact ih
    | none => exact ih

theorem plain_locateStored (id : String) : (locateStored id).Within isPlain := by
  refine .bind (plain_fetch _) fun found => ?_
  cases found with
  | some snapshot => exact .pure _
  | none => exact .bind plain_listed fun stored => plain_search id stored

theorem plain_locate (id : String) : (locate id).Within isPlain := by
  refine .bind .get fun r => ?_
  dsimp only
  cases r.index.keyFor? id with
  | some key =>
    refine .bind (plain_fetch key) fun found => ?_
    cases found with
    | some snapshot =>
      show Operation.Within isPlain (if snapshot.id = id then _ else _)
      split
      · exact .pure _
      · exact .bind (.modify fun _ => rfl) fun _ => plain_locateStored id
    | none => exact .bind (.modify fun _ => rfl) fun _ => .pure none
  | none =>
    show Operation.Within isPlain (if r.index.isCompleted id = true then _ else _)
    split
    · exact .pure none
    · exact plain_locateStored id

theorem plain_confirm (id : String) : (confirm id).Within isPlain := by
  refine .bind plain_runningPolicy fun _ => .bind (plain_locate id) fun found => ?_
  cases found with
  | none => exact .pure _
  | some key => exact .bind (plain_erase key) fun _ => .modify fun _ => rfl

/-! ### Passes -/

theorem plain_handBack (s : Setup) (key : CorrelationKey) (e : Exchange) : (handBack s key e).Within isPlain := by
  unfold handBack
  split
  · exact .bind (.modify fun _ => rfl) fun _ => .ask rfl
  · exact .pure _

theorem plain_forward (letter : DeadLetter) : (forward letter).Within isPlain := by
  refine .bind (.lift (.ask rfl)) fun answer => ?_
  cases answer with
  | ok u => exact .pure _
  | error e => exact .fail _

theorem plain_eraseIfCurrent (key : CorrelationKey) (id : String) : (eraseIfCurrent key id).Within isPlain := by
  refine .bind (plain_fetch key) fun current => ?_
  show Operation.Within isPlain (if current.any (·.id = id) = true then _ else _)
  split
  · exact .bind (plain_erase key) fun _ => .pure true
  · exact .bind (.modify fun _ => rfl) fun _ => .pure false

theorem plain_escalate (s : Setup) (p : Policy) (key : CorrelationKey) (e : Exchange) (n : Nat) :
    (escalate s p key e n).Within isPlain := by
  unfold escalate
  cases sinkAddress? s p with
  | some uri =>
    refine .bind (plain_forward _) fun _ => .bind (plain_eraseIfCurrent key e.id) fun erased => ?_
    cases erased with
    | true => exact .bind (.modify fun _ => rfl) fun _ => .bind (.modify fun _ => rfl) fun _ => .pure _
    | false => exact .bind (.modify fun _ => rfl) fun _ => .pure _
  | none =>
    refine .bind (plain_eraseIfCurrent key e.id) fun erased => ?_
    cases erased with
    | true => exact .bind (.modify fun _ => rfl) fun _ => .pure _
    | false => exact .pure _

theorem plain_recoverKey (s : Setup) (p : Policy) (key : CorrelationKey) : (recoverKey s p key).Within isPlain := by
  refine .bind (.modify fun _ => rfl) fun _ => .bind .get fun r => .bind (plain_recoverable s key) fun found => ?_
  cases found with
  | none => exact .bind (.modify fun _ => rfl) fun _ => .pure _
  | some e =>
    show Operation.Within isPlain (if p.maximumRedeliveries < (r.recordOf key s.clock).attempts then _ else _)
    split
    · exact plain_escalate s p key e _
    · exact .bind (.lift (plain_handBack s key _)) fun _ => .bind (.modify fun _ => rfl) fun _ => .pure _

theorem plain_recoverNext (s : Setup) (p : Policy) (rep : Report) (key : CorrelationKey) :
    (recoverNext s p rep key).Within isPlain := by
  refine .bind (plain_recoverKey s p key) fun outcome => ?_
  cases outcome with
  | ok outcome => exact .pure _
  | error e => exact .bind (.modify fun _ => rfl) fun _ => .pure _

theorem plain_passOver (s : Setup) (p : Policy) : (passOver s p).Within isPlain := by
  refine .bind plain_listed fun stored => ?_
  show Operation.Within isPlain (if p.useRecovery = true then _ else _)
  split
  · refine .bind (.modify fun _ => rfl) fun _ => .bind (.lift ?_) fun rep => .bind (.modify fun _ => rfl) fun _ => .pure rep
    exact .foldlM (plain_recoverNext s p) stored _
  · exact .pure _

end Repository

/-! ## Steps of a script -/

namespace Cluster

theorem plain_forNumbered (stem : String) (first count : Nat) {f : String → Operation Unit} (hf : ∀ x, (f x).Within isPlain) :
    (forNumbered stem first count f).Within isPlain :=
  .bind (.forM (fun _ => hf _) _) fun _ => .pure _

/-- All operations on a node but a start, a stop and a pass are plain. -/
theorem NodeStep.plain_task (s : Setup) {x : NodeStep} (hstart : x ≠ .start) (hstop : x ≠ .stop) (hpass : x ≠ .pass) :
    (x.task s).Within isPlain := by
  cases x with
  | start => exact absurd rfl hstart
  | stop => exact absurd rfl hstop
  | pass => exact absurd rfl hpass
  | add key e => exact .bind (Repository.plain_add key e) fun _ => .pure _
  | get key => exact .bind (Repository.plain_get? key) fun _ => .pure _
  | recover key => exact .bind (Repository.plain_recover s key) fun _ => .pure _
  | remove key => exact .bind (Repository.plain_remove key) fun _ => .pure _
  | confirm id => exact .bind (Repository.plain_confirm id) fun _ => .pure _
  | keys | scan => exact .bind Repository.plain_keys fun _ => .pure _
  | state key => exact .bind (Repository.plain_recoveryState? key) fun _ => .pure _
  | addMany stem first count =>
    unfold task
    refine plain_forNumbered stem first count fun name => ?_
    exact .bind (Repository.plain_add ⟨name⟩ { id := numberedId name }) fun _ => .pure _
  | removeMany stem first count => exact plain_forNumbered stem first count fun _ => Repository.plain_remove _
  | confirmMany stem first count => exact plain_forNumbered stem first count fun _ => Repository.plain_confirm _

end Cluster

end DurableAggregates
