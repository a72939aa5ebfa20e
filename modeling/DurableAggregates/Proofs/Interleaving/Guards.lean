import DurableAggregates.Proofs.Schedule.Bodies

/-!
# What tasks do about passes and redeliveries

Operations on aggregates, and the reactions of collaborators, are `Modest`: they make store calls only, and leave the
policy of the repository and the number of its outstanding redeliveries alone. All other tasks but redeliveries are
`Guarded`: they enter the lock of passes only while the repository runs, give letters to the sink and begin
redeliveries only while they hold it, and count every redelivery that they begin. A redelivery hands its exchange over
once and is `Parting` from then on: it makes store calls, and when it has finished there is one redelivery less.
-/

namespace DurableAggregates

open Cluster (Answer NodeStep StoreStep)

variable {α β : Type}

/-! ## Modest procedures -/

/-- What a modest procedure leaves alone. -/
def Repository.standing (r : Repository) : Option Policy × Nat := (r.active, r.inFlight)

/-- A run of a repository with this standing that makes store calls only and leaves the standing alone. -/
inductive Run.Modest : Option Policy × Nat → Run α → Prop where
  | finished {p : Option Policy × Nat} {a : α} {r : Repository} (hr : r.standing = p) : Modest p (.finished a r)
  | asking {p : Option Policy × Nat} {call : Store.Call} {r : Repository} (hr : r.standing = p)
      {next : call.Result → Repository → Run α} (h : ∀ a t, Modest t.standing (next a t)) :
      Modest p (.asking (.store call) r next)

theorem Run.Modest.bind {p : Option Policy × Nat} {x : Run α} {f : α → Repository → Run β} (hx : x.Modest p)
    (hf : ∀ a r, (f a r).Modest r.standing) : (x.bind f).Modest p := by
  induction hx with
  | finished hr =>
    rw [← hr]
    exact hf _ _
  | asking hr _ ih => exact .asking hr ih

def Procedure.Modest (x : Procedure α) : Prop := ∀ r : Repository, (x r).Modest r.standing

def Operation.Modest (x : Operation α) : Prop := Procedure.Modest x.run

namespace Procedure.Modest

theorem pure (a : α) : Procedure.Modest (Pure.pure a) := fun _ => .finished rfl

theorem bind {x : Procedure α} {f : α → Procedure β} (hx : x.Modest) (hf : ∀ a, (f a).Modest) : (x >>= f).Modest :=
  fun r => (hx r).bind fun a t => hf a t

end Procedure.Modest

namespace Operation.Modest

theorem pure (a : α) : Operation.Modest (Pure.pure a) := Procedure.Modest.pure (Except.ok a)

theorem fail (e : RepositoryError) : Operation.Modest (throw e : Operation α) := Procedure.Modest.pure (Except.error e)

theorem bind {x : Operation α} {f : α → Operation β} (hx : x.Modest) (hf : ∀ a, (f a).Modest) :
    (x >>= f).Modest := by
  refine Procedure.Modest.bind hx fun a => ?_
  cases a with
  | ok a => exact hf a
  | error e => exact fail e

theorem get : Operation.Modest (getThe Repository) := fun _ => Run.Modest.finished rfl

theorem modify {f : Repository → Repository} (hf : ∀ r, (f r).standing = r.standing) :
    Operation.Modest (modifyThe Repository f) := fun r => Run.Modest.finished (hf r)

theorem call (c : Store.Call) : Operation.Modest (monadLift (Procedure.call c)) :=
  fun _ => Run.Modest.asking rfl fun _ _ => .finished rfl

theorem ofStore (x : Except StoreError α) : (Operation.ofStore x).Modest := by
  cases x with
  | ok a => exact pure a
  | error e => exact fail (.store e)

theorem forM {ι : Type} {f : ι → Operation PUnit} (hf : ∀ i, (f i).Modest) (l : List ι) :
    Operation.Modest (l.forM f) := by
  induction l with
  | nil => exact pure _
  | cons i l ih => exact bind (hf i) fun _ => ih

end Operation.Modest

namespace Repository

open Operation

theorem modest_runningPolicy : runningPolicy.Modest := by
  refine .bind .get fun r => ?_
  cases r.active with
  | some policy => exact .pure policy
  | none => exact .fail .notRunning

theorem modest_fetch (key : CorrelationKey) : (fetch key).Modest := .bind (.call _) .ofStore

theorem modest_listed : listed.Modest := .bind (.call _) .ofStore

theorem modest_erase (key : CorrelationKey) : (erase key).Modest := .bind (.call _) .ofStore

theorem modest_add (key : CorrelationKey) (e : Exchange) : (add key e).Modest := by
  refine .bind modest_runningPolicy fun policy => ?_
  cases e.capture policy.allowSerializedHeaders with
  | error fault => exact .fail _
  | ok snapshot =>
    exact .bind (.call _) fun answer => .bind (.ofStore answer) fun _ => .bind (.modify fun _ => rfl) fun _ => .pure _

theorem modest_get? (key : CorrelationKey) : (get? key).Modest :=
  .bind modest_runningPolicy fun _ => .bind (modest_fetch key) fun _ => .pure _

theorem modest_remove (key : CorrelationKey) : (remove key).Modest :=
  .bind modest_runningPolicy fun _ => .bind (modest_erase key) fun _ => .modify fun _ => rfl

theorem modest_keys : keys.Modest := .bind modest_runningPolicy fun _ => modest_listed

theorem modest_recoverable (s : Setup) (key : CorrelationKey) : (recoverable s key).Modest := by
  unfold recoverable
  split
  · exact .bind (modest_fetch key) fun _ => .pure _
  · exact .pure none

theorem modest_recover (s : Setup) (key : CorrelationKey) : (recover s key).Modest :=
  .bind modest_runningPolicy fun _ => modest_recoverable s key

theorem modest_recoveryState? (key : CorrelationKey) : (recoveryState? key).Modest := by
  refine .bind modest_runningPolicy fun _ => .bind (modest_fetch key) fun found => ?_
  cases found with
  | some snapshot => exact .bind .get fun _ => .pure _
  | none => exact .pure none

theorem modest_search (id : String) (stored : List CorrelationKey) : (search id stored).Modest := by
  induction stored with
  | nil => exact .pure none
  | cons key rest ih =>
    refine .bind (modest_fetch key) fun found => ?_
    cases found with
    | some snapshot =>
      show Operation.Modest (if snapshot.id = id then _ else _)
      split
      · exact .pure _
      · exact ih
    | none => exact ih

theorem modest_locateStored (id : String) : (locateStored id).Modest := by
  refine .bind (modest_fetch _) fun found => ?_
  cases found with
  | some snapshot => exact .pure _
  | none => exact .bind modest_listed fun stored => modest_search id stored

theorem modest_locate (id : String) : (locate id).Modest := by
  refine .bind .get fun r => ?_
  dsimp only
  cases r.index.keyFor? id with
  | some key =>
    refine .bind (modest_fetch key) fun found => ?_
    cases found with
    | some snapshot =>
      show Operation.Modest (if snapshot.id = id then _ else _)
      split
      · exact .pure _
      · exact .bind (.modify fun _ => rfl) fun _ => modest_locateStored id
    | none => exact .bind (.modify fun _ => rfl) fun _ => .pure none
  | none =>
    show Operation.Modest (if r.index.isCompleted id = true then _ else _)
    split
    · exact .pure none
    · exact modest_locateStored id

theorem modest_confirm (id : String) : (confirm id).Modest := by
  refine .bind modest_runningPolicy fun _ => .bind (modest_locate id) fun found => ?_
  cases found with
  | none => exact .pure _
  | some key => exact .bind (modest_erase key) fun _ => .modify fun _ => rfl

theorem modest_eraseIfCurrent (key : CorrelationKey) (id : String) : (eraseIfCurrent key id).Modest := by
  refine .bind (modest_fetch key) fun current => ?_
  show Operation.Modest (if current.any (·.id = id) = true then _ else _)
  split
  · exact .bind (modest_erase key) fun _ => .pure true
  · exact .bind (.modify fun _ => rfl) fun _ => .pure false

end Repository

namespace Cluster

theorem modest_putDirectly (key : CorrelationKey) (e : Exchange) : (putDirectly key e).Modest := by
  unfold putDirectly
  cases e.capture true with
  | error fault => exact .fail _
  | ok snapshot => exact .bind (.call _) .ofStore

theorem modest_react (k : Sink) (letter : DeadLetter) : (k.react letter).Modest := by
  unfold Sink.react
  refine Procedure.Modest.bind ?_ fun _ => .pure _
  cases k.reaction with
  | none => exact .pure _
  | some reaction =>
    cases reaction with
    | add e => exact Operation.Modest.bind (Repository.modest_add _ e) fun _ => .pure _
    | put e => exact Operation.Modest.bind (modest_putDirectly _ e) fun _ => .pure _
    | remove => exact Repository.modest_erase _

theorem modest_engine_react (g : Engine) (key : CorrelationKey) (e : Exchange) : (g.react key e).Modest := by
  unfold Engine.react
  split
  · exact .pure _
  · cases g.reaction with
    | none => exact .pure _
    | some reaction =>
      cases reaction with
      | confirm => exact .bind (Repository.modest_confirm e.id) fun _ => .pure _
      | remove => exact .bind (Repository.modest_remove key) fun _ => .pure _

theorem modest_forNumbered (stem : String) (first count : Nat) {f : String → Operation Unit} (hf : ∀ x, (f x).Modest) :
    (forNumbered stem first count f).Modest :=
  .bind (.forM (fun _ => hf _) _) fun _ => .pure _

theorem NodeStep.modest_task (s : Setup) {x : NodeStep} (hstart : x ≠ .start) (hstop : x ≠ .stop) (hpass : x ≠ .pass) :
    (x.task s).Modest := by
  cases x with
  | start => exact absurd rfl hstart
  | stop => exact absurd rfl hstop
  | pass => exact absurd rfl hpass
  | add key e => exact .bind (Repository.modest_add key e) fun _ => .pure _
  | get key => exact .bind (Repository.modest_get? key) fun _ => .pure _
  | recover key => exact .bind (Repository.modest_recover s key) fun _ => .pure _
  | remove key => exact .bind (Repository.modest_remove key) fun _ => .pure _
  | confirm id => exact .bind (Repository.modest_confirm id) fun _ => .pure _
  | keys | scan => exact .bind Repository.modest_keys fun _ => .pure _
  | state key => exact .bind (Repository.modest_recoveryState? key) fun _ => .pure _
  | addMany stem first count =>
    unfold task
    refine modest_forNumbered stem first count fun name => ?_
    exact .bind (Repository.modest_add ⟨name⟩ { id := numberedId name }) fun _ => .pure _
  | removeMany stem first count => exact modest_forNumbered stem first count fun _ => Repository.modest_remove _
  | confirmMany stem first count => exact modest_forNumbered stem first count fun _ => Repository.modest_confirm _

theorem StoreStep.modest_task (x : StoreStep) : x.task.Modest := by
  cases x with
  | put key e => exact .bind (modest_putDirectly key e) fun _ => .pure _
  | get key => exact .bind (Repository.modest_fetch key) fun _ => .pure _
  | remove key => exact .bind (Repository.modest_erase key) fun _ => .pure _
  | keys => exact .bind Repository.modest_listed fun _ => .pure _

end Cluster

/-! ## Guarded procedures -/

/-- Whether a request concerns neither the lock of passes nor what only passes and redeliveries do. -/
def Request.isAside : Request → Bool
  | .forward _ | .dispatch _ _ | .deliver _ _ | .acquire .pass | .release .pass => false
  | _ => true

/--
A run of a repository with `k` outstanding redeliveries that is `inside` the lock of passes or not: it enters the lock
if the repository runs, gives letters to the sink and begins redeliveries inside only and only if there is an engine,
counts what it begins, and is inside at its end or not.
-/
inductive Run.Guarded (engine done : Bool) : Bool → Nat → Run α → Prop where
  | finished {a : α} {r : Repository} {k : Nat} (hr : r.inFlight = k) : Guarded engine done done k (.finished a r)
  | aside {inside : Bool} {k : Nat} {q : Request} (hq : q.isAside = true) {r : Repository} (hr : r.inFlight = k)
      {next : q.Answer → Repository → Run α} (h : ∀ a t, Guarded engine done inside t.inFlight (next a t)) :
      Guarded engine done inside k (.asking q r next)
  | forward {k : Nat} {letter : DeadLetter} {r : Repository} (hr : r.inFlight = k)
      {next : Except DeadLetterError Unit → Repository → Run α}
      (h : ∀ a t, Guarded engine done true t.inFlight (next a t)) :
      Guarded engine done true k (.asking (.forward letter) r next)
  | dispatch (hengine : engine = true) {k : Nat} {key : CorrelationKey} {e : Exchange} {r : Repository}
      (hr : r.inFlight = k + 1) {next : Unit → Repository → Run α}
      (h : ∀ t, Guarded engine done true t.inFlight (next () t)) :
      Guarded engine done true k (.asking (.dispatch key e) r next)
  | acquire {k : Nat} {r : Repository} (hr : r.inFlight = k) (hrun : r.isRunning = true)
      {next : Unit → Repository → Run α} (h : ∀ t, Guarded engine done true t.inFlight (next () t)) :
      Guarded engine done false k (.asking (.acquire .pass) r next)
  | release {k : Nat} {r : Repository} (hr : r.inFlight = k) {next : Unit → Repository → Run α}
      (h : ∀ t, Guarded engine done false t.inFlight (next () t)) :
      Guarded engine done true k (.asking (.release .pass) r next)

variable {engine inside done last : Bool}

namespace Run

theorem Guarded.bind {k : Nat} {x : Run α} {f : α → Repository → Run β} (hx : x.Guarded engine done inside k)
    (hf : ∀ a r, (f a r).Guarded engine last done r.inFlight) : (x.bind f).Guarded engine last inside k := by
  induction hx with
  | finished hr =>
    rw [← hr]
    exact hf _ _
  | aside hq hr _ ih => exact .aside hq hr ih
  | forward hr _ ih => exact .forward hr ih
  | dispatch hengine hr _ ih => exact .dispatch hengine hr ih
  | acquire hr hrun _ ih => exact .acquire hr hrun ih
  | release hr _ ih => exact .release hr ih

theorem Modest.guarded {p : Option Policy × Nat} {x : Run α} (hx : x.Modest p) :
    x.Guarded engine inside inside p.2 := by
  induction hx with
  | finished hr => exact .finished (congrArg Prod.snd hr)
  | asking hr _ ih => exact .aside rfl (congrArg Prod.snd hr) ih

end Run

theorem Run.Modest.confined {ok : Request → Bool} (hok : ∀ call, ok (.store call) = true) {p : Option Policy × Nat}
    {x : Run α} (hx : x.Modest p) : x.Confined ok (fun _ => True) p.1 := by
  induction hx with
  | finished hr => exact .finished trivial (congrArg Prod.fst hr)
  | asking hr _ ih => exact .asking (hok _) (congrArg Prod.fst hr) ih

def Procedure.Guarded (engine inside done : Bool) (x : Procedure α) : Prop :=
  ∀ r, (x r).Guarded engine done inside r.inFlight

def Operation.Guarded (engine inside done : Bool) (x : Operation α) : Prop :=
  Procedure.Guarded engine inside done x.run

theorem Procedure.Modest.guarded {x : Procedure α} (hx : x.Modest) : x.Guarded engine inside inside :=
  fun r => (hx r).guarded

namespace Procedure.Guarded

theorem bind {x : Procedure α} {f : α → Procedure β} (hx : x.Guarded engine inside done)
    (hf : ∀ a, (f a).Guarded engine done last) : (x >>= f).Guarded engine inside last :=
  fun r => (hx r).bind fun a t => hf a t

theorem ask {q : Request} (hq : q.isAside = true) : (Procedure.ask q).Guarded engine inside inside :=
  fun _ => .aside hq rfl fun _ _ => .finished rfl

theorem modify {f : Repository → Repository} (hf : ∀ r, (f r).inFlight = r.inFlight) :
    (modifyThe Repository f : Procedure PUnit).Guarded engine inside inside := fun r => .finished (hf r)

theorem foldlM {ι : Type} {f : β → ι → Procedure β} (hf : ∀ b i, (f b i).Guarded engine inside inside) (l : List ι)
    (b : β) : (l.foldlM f b).Guarded engine inside inside := by
  induction l generalizing b with
  | nil => exact (Procedure.Modest.pure b).guarded
  | cons i l ih =>
    rw [List.foldlM_cons]
    exact bind (hf b i) ih

end Procedure.Guarded

namespace Operation

theorem Modest.guarded {x : Operation α} (hx : x.Modest) : x.Guarded engine inside inside :=
  Procedure.Modest.guarded hx

namespace Guarded

theorem pure (a : α) : Operation.Guarded engine inside inside (Pure.pure a) := (Modest.pure a).guarded

theorem fail (e : RepositoryError) : Operation.Guarded engine inside inside (throw e : Operation α) :=
  (Modest.fail e).guarded

theorem bind {x : Operation α} {f : α → Operation β} (hx : x.Guarded engine inside done)
    (hf : ∀ a, (f a).Guarded engine done done) : (x >>= f).Guarded engine inside done := by
  refine Procedure.Guarded.bind hx fun a => ?_
  cases a with
  | ok a => exact hf a
  | error e => exact fail e

theorem get : Operation.Guarded engine inside inside (getThe Repository) := Modest.get.guarded

theorem modify {f : Repository → Repository} (hf : ∀ r, (f r).inFlight = r.inFlight) :
    Operation.Guarded engine inside inside (modifyThe Repository f) := fun r => Run.Guarded.finished (hf r)

theorem lift {x : Procedure α} (hx : x.Guarded engine inside done) :
    Operation.Guarded engine inside done (monadLift x) :=
  Procedure.Guarded.bind hx fun a => (Procedure.Modest.pure (Except.ok a : Except RepositoryError α)).guarded

theorem holding_lifecycle {x : Operation α} (hx : x.Guarded engine inside inside) :
    (holding .lifecycle x).Guarded engine inside inside :=
  Procedure.Guarded.bind (.ask rfl) fun _ => .bind hx fun _ => .bind (.ask rfl) fun _ =>
    (Procedure.Modest.pure _).guarded

end Guarded

end Operation

namespace Repository

open Operation

variable {s : Setup}

theorem guarded_handBack (key : CorrelationKey) (e : Exchange) :
    (handBack s key e).Guarded s.hasEngine true true := by
  unfold handBack
  split
  · rename_i hengine
    exact fun r => .dispatch hengine rfl fun _ => .finished rfl
  · exact (Procedure.Modest.pure _).guarded

theorem guarded_forward (letter : DeadLetter) : (forward letter).Guarded engine true true := by
  refine .bind (.lift fun r => .forward rfl fun _ _ => .finished rfl) fun answer => ?_
  cases answer with
  | ok u => exact .pure _
  | error e => exact .fail _

theorem guarded_escalate (p : Policy) (key : CorrelationKey) (e : Exchange) (n : Nat) :
    (escalate s p key e n).Guarded engine true true := by
  unfold escalate
  cases sinkAddress? s p with
  | some uri =>
    refine .bind (guarded_forward _) fun _ => .bind (modest_eraseIfCurrent key e.id).guarded fun erased => ?_
    cases erased with
    | true => exact .bind (.modify fun _ => rfl) fun _ => .bind (.modify fun _ => rfl) fun _ => .pure _
    | false => exact .bind (.modify fun _ => rfl) fun _ => .pure _
  | none =>
    refine .bind (modest_eraseIfCurrent key e.id).guarded fun erased => ?_
    cases erased with
    | true => exact .bind (.modify fun _ => rfl) fun _ => .pure _
    | false => exact .pure _

theorem guarded_recoverKey (p : Policy) (key : CorrelationKey) :
    (recoverKey s p key).Guarded s.hasEngine true true := by
  refine .bind (.modify fun _ => rfl) fun _ => .bind .get fun r => .bind (modest_recoverable s key).guarded fun found => ?_
  cases found with
  | none => exact .bind (.modify fun _ => rfl) fun _ => .pure _
  | some e =>
    show Operation.Guarded _ _ _ (if p.maximumRedeliveries < (r.recordOf key s.clock).attempts then _ else _)
    split
    · exact guarded_escalate p key e _
    · exact .bind (.lift (guarded_handBack key _)) fun _ => .bind (.modify fun _ => rfl) fun _ => .pure _

theorem guarded_recoverNext (p : Policy) (rep : Report) (key : CorrelationKey) :
    (recoverNext s p rep key).Guarded s.hasEngine true true := by
  refine .bind (guarded_recoverKey p key) fun outcome => ?_
  cases outcome with
  | ok outcome => exact (Procedure.Modest.pure _).guarded
  | error e => exact .bind (.modify fun _ => rfl) fun _ => (Procedure.Modest.pure _).guarded

theorem guarded_passOver (p : Policy) : (passOver s p).Guarded s.hasEngine true true := by
  refine .bind modest_listed.guarded fun stored => ?_
  show Operation.Guarded _ _ _ (if p.useRecovery = true then _ else _)
  split
  · refine .bind (.modify fun _ => rfl) fun _ => .bind (.lift ?_) fun rep => .bind (.modify fun _ => rfl) fun _ => .pure rep
    exact .foldlM (guarded_recoverNext p) stored _
  · exact .pure _

/-- A pass enters the lock at once if the repository runs, and makes no request outside. -/
theorem guarded_pass : (pass s).Guarded s.hasEngine false false := by
  rintro ⟨active⟩
  cases active with
  | none => exact .finished rfl
  | some p =>
    refine .acquire rfl rfl fun t => ?_
    have hrest : Procedure.Guarded s.hasEngine true false (do
        let result ← (passOver s p).run
        Procedure.ask (.release .pass)
        return result) :=
      Procedure.Guarded.bind (guarded_passOver p) fun _ =>
        .bind (fun r => .release rfl fun _ => .finished rfl) fun _ => (Procedure.Modest.pure _).guarded
    exact hrest t

theorem guarded_report (e : RouteError) : (Procedure.report e).Guarded engine inside inside :=
  .bind (.modify fun _ => rfl) fun _ => .ask rfl

theorem guarded_start (s : Setup) : (start s).Guarded engine false false := by
  refine .holding_lifecycle (.bind .get fun r => ?_)
  show Operation.Guarded _ _ _ (if r.isRunning then _ else _)
  split
  · exact .pure _
  · cases s.policy? with
    | error e => exact .bind (.lift (guarded_report _)) fun _ => .fail _
    | ok policy =>
      refine .bind (.modify fun _ => rfl) fun _ => ?_
      show Operation.Guarded _ _ _ (if policy.schedulesPasses then _ else _)
      split
      · exact .lift (.ask rfl)
      · exact .pure _

theorem guarded_halt : halt.Guarded engine false false := by
  refine .bind .get fun r => ?_
  cases r.active with
  | none => exact .pure _
  | some policy =>
    refine .bind (.modify fun _ => rfl) fun _ => .bind (.lift (.ask rfl)) fun joined => ?_
    cases joined with
    | ok a => exact .pure _
    | error detail => exact .bind (.lift (guarded_report _)) fun _ => .pure _

theorem guarded_drain (n : Nat) : (drain n).Guarded engine false false := by
  induction n with
  | zero =>
    refine .bind .get fun r => ?_
    dsimp only
    split
    · exact .pure _
    · exact .bind (.lift (guarded_report _)) fun _ => .fail _
  | succ n ih =>
    refine .bind .get fun r => ?_
    split
    · exact .pure _
    · exact .bind (.lift (.ask rfl)) fun _ => ih

theorem guarded_stop : stop.Guarded engine false false := by
  refine .bind (.holding_lifecycle guarded_halt) fun halted => ?_
  cases halted with
  | none => exact .pure _
  | some h =>
    refine .bind (guarded_drain _) fun _ => ?_
    cases h.crash with
    | none => exact .pure _
    | some detail => exact .fail _

end Repository

namespace Cluster

theorem NodeStep.guarded_task (s : Setup) (x : NodeStep) : (x.task s).Guarded s.hasEngine false false := by
  by_cases hstart : x = .start
  · subst hstart
    exact .bind (Repository.guarded_start s) fun _ => .pure _
  by_cases hstop : x = .stop
  · subst hstop
    exact .bind Repository.guarded_stop fun _ => .pure _
  by_cases hpass : x = .pass
  · subst hpass
    exact .bind Repository.guarded_pass fun _ => .pure _
  · exact (NodeStep.modest_task s hstart hstop hpass).guarded

theorem guarded_round (s : Setup) : (round s).Guarded s.hasEngine false false := by
  refine .bind (.lift (.bind (.ask rfl) fun goes => ?_)) fun _ => .pure _
  cases goes with
  | true => exact .bind Repository.guarded_pass fun _ => (Procedure.Modest.pure _).guarded
  | false => exact (Procedure.Modest.pure _).guarded

end Cluster

/-! ## Redeliveries -/

/-- A run that makes store calls and leaves the standing alone until it ends, with one outstanding redelivery less. -/
inductive Run.Parting : Option Policy × Nat → Run α → Prop where
  | finished {p : Option Policy × Nat} {a : α} {r : Repository} (hr : r.standing = (p.1, p.2 - 1)) :
      Parting p (.finished a r)
  | asking {p : Option Policy × Nat} {call : Store.Call} {r : Repository} (hr : r.standing = p)
      {next : call.Result → Repository → Run α} (h : ∀ a t, Parting t.standing (next a t)) :
      Parting p (.asking (.store call) r next)

theorem Run.Modest.parting {p : Option Policy × Nat} {x : Run α} {f : α → Repository → Run β} (hx : x.Modest p)
    (hf : ∀ a r, (f a r).Parting r.standing) : (x.bind f).Parting p := by
  induction hx with
  | finished hr =>
    rw [← hr]
    exact hf _ _
  | asking hr _ ih => exact .asking hr ih

namespace Cluster

/-- The body of a redelivery that has handed its exchange over. -/
def Parting (b : Operation Answer) : Prop := ∀ r : Repository, (b.run r).Parting r.standing

/-- The body of a redelivery that is to hand over an exchange. -/
def Handing (key : CorrelationKey) (e : Exchange) (b : Operation Answer) : Prop :=
  ∃ next : Except RedeliveryError Unit → Operation Answer,
    (∀ r, b.run r = .asking (.deliver key e) r fun a => (next a).run) ∧ ∀ a, Parting (next a)

theorem handing_redelivery (key : CorrelationKey) (e : Exchange) : Handing key e (redelivery key e) := by
  refine ⟨_, fun _ => rfl, fun answer r => ?_⟩
  cases answer with
  | ok u => exact .finished rfl
  | error f => exact .finished rfl

end Cluster

end DurableAggregates
