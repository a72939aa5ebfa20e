import DurableAggregates.Proofs.Index.Completed
import DurableAggregates.Proofs.Traffic.Basic

/-!
# Reactions of calls to answers

A call changes the index only when it goes on with an answer of the store, at most once for each, and in a way that
goes by the answer (`Heeded`). `Tidy` procedures do so, and all actions are tidy (`Action.tidy`). What a change of the
index needs was answered a moment before, so a procedure that goes on after a request is looked at together with the
answer (`Reacts`). An add is over when its put is answered (`Action.brief`).
-/

namespace DurableAggregates

open Cluster (Answer)

variable {α β : Type} {s : Setup} {a : Action} {now : ExchangeIndex → Prop}

/-- What an action may make of the index with the answer to a request. -/
inductive Request.Heeded (a : Action) (i : ExchangeIndex) : (q : Request) → q.Answer → ExchangeIndex → Prop where
  | same {q : Request} {x : q.Answer} (hq : ∀ key v, q ≠ .store (.put key v)) : Heeded a i q x i
  | unstored {key : CorrelationKey} {v : Snapshot} {e : StoreError} : Heeded a i (.store (.put key v)) (.error e) i
  | stored {key : CorrelationKey} {v : Snapshot} {old : Option Snapshot} :
      Heeded a i (.store (.put key v)) (.ok old) (i.insert key v.id)
  | removed {key : CorrelationKey} : Heeded a i (.store (.remove key)) (.ok ()) (i.forget key)
  | absent {key : CorrelationKey} : Heeded a i (.store (.get key)) (.ok none) (i.forget key)
  /-- The key holds another exchange than the one with this id. -/
  | other {key : CorrelationKey} {found : Option Snapshot} (id : String) :
      Heeded a i (.store (.get key)) (.ok found) (i.forgetId id)
  | listed {stored : List CorrelationKey} (ha : a.sweeps = true) :
      Heeded a i (.store .keys) (.ok stored) (i.retainKeys (.ofList stored compare))

/-- Whether an action may make a request: only an add puts anything into the store, and only its exchange. -/
def Action.Mandates (a : Action) : Request → Prop
  | .store (.put key v) => ∃ e he, a = .add key e he ∧ v.id = e.id ∧ v.Fits
  | _ => True

/-- A run of a repository whose index is `now` as it may be, which heeds every answer that it gets. -/
inductive Run.Heeds (s : Setup) (a : Action) : (ExchangeIndex → Prop) → Run α → Prop where
  | finished {now : ExchangeIndex → Prop} {x : α} {r : Repository} (hr : r.Follows s) (hi : now r.index) :
      Heeds s a now (.finished x r)
  | asking {now : ExchangeIndex → Prop} {q : Request} {r : Repository} (hr : r.Follows s) (hi : now r.index)
      (hq : a.Mandates q) {next : q.Answer → Repository → Run α}
      (h : ∀ x t, t.Follows s → Heeds s a (q.Heeded a t.index x) (next x t)) : Heeds s a now (.asking q r next)

theorem Run.Heeds.bind {x : Run α} {f : α → Repository → Run β} (hx : x.Heeds s a now)
    (hf : ∀ b r now, r.Follows s → now r.index → (f b r).Heeds s a now) : (x.bind f).Heeds s a now := by
  induction hx with
  | finished hr hi => exact hf _ _ _ hr hi
  | asking hr hi hq _ ih => exact .asking hr hi hq ih

/-! ## Tidy procedures -/

/-- A procedure that begins with the index as it is and changes it by what is answered only. -/
def Procedure.Tidy (s : Setup) (a : Action) (x : Procedure α) : Prop :=
  ∀ now r, r.Follows s → now r.index → (x r).Heeds s a now

def Operation.Tidy (s : Setup) (a : Action) (x : Operation α) : Prop := Procedure.Tidy s a x.run

/-- An operation that goes on with the answer to a request as it may. -/
def Operation.Reacts (s : Setup) (a : Action) (q : Request) (answer : q.Answer) (x : Operation α) : Prop :=
  ∀ r, r.Follows s → (x.run r).Heeds s a (q.Heeded a r.index answer)

theorem Repository.Follows.congr {r t : Repository} (h : r.Follows s) (ht : t.active = r.active) : t.Follows s :=
  fun p hp => h p (by rw [← ht, hp])

namespace Procedure.Tidy

theorem pure (x : α) : Procedure.Tidy s a (Pure.pure x) := fun _ _ hr hi => .finished hr hi

theorem bind {x : Procedure α} {f : α → Procedure β} (hx : x.Tidy s a) (hf : ∀ b, (f b).Tidy s a) :
    (x >>= f).Tidy s a :=
  fun _ r hr hi => (hx _ r hr hi).bind fun b t now ht hi => hf b now t ht hi

/-- A modification that leaves the policy and the index alone. -/
theorem note {f : Repository → Repository} (hi : ∀ r, (f r).index = r.index) (ha : ∀ r, (f r).active = r.active) :
    Procedure.Tidy s a (modifyThe Repository f) :=
  fun now r hr h => .finished (hr.congr (ha r)) (show now (f r).index by rw [hi]; exact h)

/-- A request other than a put needs no reaction. -/
theorem ask {q : Request} (hq : ∀ key v, q ≠ .store (.put key v)) : (Procedure.ask q).Tidy s a := by
  refine fun _ r hr hi => .asking hr hi ?_ fun x t ht => .finished ht (.same hq)
  unfold Action.Mandates
  split
  · exact absurd rfl (hq _ _)
  · trivial

theorem foldlM {ι : Type} {f : β → ι → Procedure β} (hf : ∀ b i, (f b i).Tidy s a) (l : List ι) (b : β) :
    (l.foldlM f b).Tidy s a := by
  induction l generalizing b with
  | nil => exact pure b
  | cons i l ih =>
    rw [List.foldlM_cons]
    exact bind (hf b i) ih

end Procedure.Tidy

namespace Operation.Tidy

open Operation

theorem pure (x : α) : Operation.Tidy s a (Pure.pure x) := Procedure.Tidy.pure (Except.ok x)

theorem fail (e : RepositoryError) : Operation.Tidy s a (throw e : Operation α) := Procedure.Tidy.pure (Except.error e)

theorem bind {x : Operation α} {f : α → Operation β} (hx : x.Tidy s a) (hf : ∀ b, (f b).Tidy s a) :
    (x >>= f).Tidy s a := by
  refine Procedure.Tidy.bind hx fun b => ?_
  cases b with
  | ok b => exact hf b
  | error e => exact fail e

theorem lift {x : Procedure α} (hx : x.Tidy s a) : Operation.Tidy s a (monadLift x) :=
  Procedure.Tidy.bind hx fun b => Procedure.Tidy.pure (Except.ok b : Except RepositoryError α)

theorem get : Operation.Tidy s a (getThe Repository) := fun _ _ hr hi => Run.Heeds.finished hr hi

theorem modify {f : Repository → Repository} (hi : ∀ r, (f r).index = r.index)
    (ha : ∀ r : Repository, r.Follows s → (f r).Follows s) : Operation.Tidy s a (modifyThe Repository f) :=
  fun now r hr h => Run.Heeds.finished (ha r hr) (show now (f r).index by rw [hi]; exact h)

theorem note {f : Repository → Repository} (hi : ∀ r, (f r).index = r.index) (ha : ∀ r, (f r).active = r.active) :
    Operation.Tidy s a (modifyThe Repository f) := modify hi fun r hr => hr.congr (ha r)

theorem ofStore (x : Except StoreError α) : (Operation.ofStore x).Tidy s a := by
  cases x with
  | ok b => exact pure b
  | error e => exact fail (.store e)

theorem holding (l : Lock) {x : Operation α} (hx : x.Tidy s a) : (Operation.holding l x).Tidy s a :=
  Procedure.Tidy.bind (.ask fun _ _ => Request.noConfusion) fun _ => .bind hx fun _ =>
    .bind (.ask fun _ _ => Request.noConfusion) fun _ => .pure _

end Operation.Tidy

/-! ## Going on with an answer -/

namespace Operation.Reacts

variable {q : Request} {x : q.Answer}

theorem of_tidy (hq : ∀ key v, q ≠ .store (.put key v)) {y : Operation α} (hy : y.Tidy s a) :
    Operation.Reacts s a q x y := fun r hr => hy _ r hr (.same hq)

/-- First the index is changed, and then nothing more is done with the answer. -/
theorem modify {f : Repository → Repository} (hi : ∀ r : Repository, q.Heeded a r.index x (f r).index)
    (ha : ∀ r, (f r).active = r.active) {y : Operation α} (hy : y.Tidy s a) :
    Operation.Reacts s a q x (do modifyThe Repository f; y) :=
  fun r hr => hy _ (f r) (hr.congr (ha r)) (hi r)

end Operation.Reacts

namespace Repository

open Operation

variable {key : CorrelationKey} {id : String}

theorem tidy_fetch_bind {f : Option Snapshot → Operation α}
    (hf : ∀ found, Reacts s a (.store (.get key)) (.ok found) (f found)) : (fetch key >>= f).Tidy s a := by
  refine fun _ r hr hi => .asking (q := .store (.get key)) hr hi trivial fun x t ht => ?_
  cases x with
  | ok found => exact hf found t ht
  | error e => exact .finished ht (.same fun _ _ h => by cases h)

theorem tidy_listed_bind {f : List CorrelationKey → Operation α}
    (hf : ∀ stored, Reacts s a (.store .keys) (.ok stored) (f stored)) : (listed >>= f).Tidy s a := by
  refine fun _ r hr hi => .asking (q := .store .keys) hr hi trivial fun x t ht => ?_
  cases x with
  | ok stored => exact hf stored t ht
  | error e => exact .finished ht (.same fun _ _ h => by cases h)

theorem tidy_erase_bind {f : Unit → Operation α} (hf : Reacts s a (.store (.remove key)) (.ok ()) (f ())) :
    (erase key >>= f).Tidy s a := by
  refine fun _ r hr hi => .asking (q := .store (.remove key)) hr hi trivial fun x t ht => ?_
  cases x with
  | ok u => exact hf t ht
  | error e => exact .finished ht (.same fun _ _ h => by cases h)

/-- What a running repository does may depend on its policy being that of the setup. -/
theorem tidy_running_bind {f : Policy → Operation α} (hf : ∀ p, s.policy? = .ok p → (f p).Tidy s a) :
    (runningPolicy >>= f).Tidy s a := by
  intro now r hr hi
  cases hp : r.active with
  | none =>
    rw [run_running_bind_none hp]
    exact .finished hr hi
  | some p =>
    rw [run_running_bind hp]
    exact hf p (hr p hp) now r hr hi

/-! ## Operations on aggregates -/

theorem tidy_fetch (key : CorrelationKey) : (fetch key).Tidy s a :=
  .bind (.lift (.ask fun _ _ h => by cases h)) .ofStore

theorem tidy_listed : listed.Tidy s a := .bind (.lift (.ask fun _ _ h => by cases h)) .ofStore

theorem tidy_add (key : CorrelationKey) (e : Exchange) (he : e.Fits) : (add key e).Tidy s (.add key e he) := by
  refine tidy_running_bind fun p _ => ?_
  cases hc : e.capture p.allowSerializedHeaders with
  | error fault => exact .fail _
  | ok v =>
    have hid : v.id = e.id := (Exchange.capture_eq_ok hc).1
    intro now r hr hi
    have hput : (Action.add key e he).Mandates (.store (.put key v)) :=
      ⟨e, he, rfl, hid, Exchange.fits_of_capture hc he⟩
    refine .asking (q := .store (.put key v)) hr hi hput fun x t ht => ?_
    cases x with
    | error f => exact .finished ht .unstored
    | ok old =>
      refine .finished (ht.congr rfl) ?_
      show Request.Heeded _ t.index (.store (.put key v)) (.ok old) (t.index.insert key e.id)
      rw [← hid]
      exact .stored

theorem tidy_get? (key : CorrelationKey) : (get? key).Tidy s a :=
  tidy_running_bind fun _ _ => .bind (tidy_fetch key) fun _ => .pure _

theorem tidy_remove (key : CorrelationKey) : (remove key).Tidy s a :=
  tidy_running_bind fun _ _ => tidy_erase_bind fun _ hr => .finished (hr.congr rfl) .removed

theorem tidy_keys : keys.Tidy s a := tidy_running_bind fun _ _ => tidy_listed

theorem tidy_recoverable (key : CorrelationKey) : (recoverable s key).Tidy s a := by
  unfold recoverable
  split
  · exact .bind (tidy_fetch key) fun _ => .pure _
  · exact .pure none

theorem tidy_recover (key : CorrelationKey) : (recover s key).Tidy s a :=
  tidy_running_bind fun _ _ => tidy_recoverable key

theorem tidy_recoveryState? (key : CorrelationKey) : (recoveryState? key).Tidy s a := by
  refine tidy_running_bind fun _ _ => .bind (tidy_fetch key) fun found => ?_
  cases found with
  | some v => exact .bind .get fun _ => .pure _
  | none => exact .pure none

theorem tidy_search (id : String) (stored : List CorrelationKey) : (search id stored).Tidy s a := by
  induction stored with
  | nil => exact .pure none
  | cons key rest ih =>
    refine .bind (tidy_fetch key) fun found => ?_
    cases found with
    | some v =>
      show Operation.Tidy s a (if v.id = id then _ else _)
      split
      · exact .pure _
      · exact ih
    | none => exact ih

theorem tidy_locateStored (id : String) : (locateStored id).Tidy s a := by
  refine .bind (tidy_fetch _) fun found => ?_
  cases found with
  | some v => exact .pure _
  | none => exact .bind tidy_listed fun stored => tidy_search id stored

theorem tidy_locate (id : String) : (locate id).Tidy s a := by
  refine .bind .get fun r => ?_
  dsimp only
  cases r.index.keyFor? id with
  | some key =>
    refine tidy_fetch_bind fun found => ?_
    cases found with
    | some v =>
      show Operation.Reacts s a _ _ (if v.id = id then _ else _)
      split
      · exact .of_tidy (fun _ _ h => by cases h) (.pure _)
      · refine .modify (fun _ => ?_) (fun _ => ?_) ?_
        exacts [.other id, rfl, tidy_locateStored id]
    | none =>
      refine .modify (fun _ => ?_) (fun _ => ?_) ?_
      exacts [.absent, rfl, .pure none]
  | none =>
    show Operation.Tidy s a (if r.index.isCompleted id = true then _ else _)
    split
    · exact .pure none
    · exact tidy_locateStored id

theorem tidy_confirm (id : String) : (confirm id).Tidy s a := by
  refine tidy_running_bind fun _ _ => .bind (tidy_locate id) fun found => ?_
  cases found with
  | none => exact .pure _
  | some key => exact tidy_erase_bind fun _ hr => .finished (hr.congr rfl) .removed

/-! ## Passes -/

theorem tidy_forward (letter : DeadLetter) : (forward letter).Tidy s a := by
  refine .bind (.lift (.ask fun _ _ => Request.noConfusion)) fun answer => ?_
  cases answer with
  | ok u => exact .pure _
  | error e => exact .fail _

theorem tidy_handBack (key : CorrelationKey) (e : Exchange) : (handBack s key e).Tidy s a := by
  unfold handBack
  split
  · exact .bind (.note (fun _ => rfl) fun _ => rfl) fun _ => .ask fun _ _ => Request.noConfusion
  · exact .pure _

/-- What comes after a removal sees its success; a key that holds another exchange is left alone. -/
theorem tidy_eraseIfCurrent_bind {f : Bool → Operation α}
    (htrue : Reacts s a (.store (.remove key)) (.ok ()) (f true)) (hfalse : (f false).Tidy s a) :
    (eraseIfCurrent key id >>= f).Tidy s a := by
  unfold eraseIfCurrent
  rw [bind_assoc]
  refine tidy_fetch_bind fun found => ?_
  show Operation.Reacts s a _ _ ((if found.any (·.id = id) = true then _ else _) >>= f)
  split
  · rw [bind_assoc]
    refine .of_tidy (fun _ _ h => by cases h) (tidy_erase_bind ?_)
    rw [pure_bind]
    exact htrue
  · rw [bind_assoc]
    refine .modify (fun _ => ?_) (fun _ => ?_) ?_
    · exact .other id
    · rfl
    · rw [pure_bind]
      exact hfalse

theorem tidy_escalate (p : Policy) (key : CorrelationKey) (e : Exchange) (n : Nat) :
    (escalate s p key e n).Tidy s a := by
  unfold escalate
  cases sinkAddress? s p with
  | some uri =>
    refine .bind (tidy_forward _) fun _ => tidy_eraseIfCurrent_bind ?_ ?_
    · refine .modify (fun _ => ?_) (fun _ => ?_) ?_
      exacts [.removed, rfl, .bind (.note (fun _ => rfl) fun _ => rfl) fun _ => .pure _]
    · exact .bind (.note (fun _ => rfl) fun _ => rfl) fun _ => .pure _
  | none =>
    refine tidy_eraseIfCurrent_bind (.modify (fun _ => ?_) (fun _ => ?_) ?_) (.pure _)
    exacts [.removed, rfl, .pure _]

/-- With recovery on, what is not found under a key is not stored. -/
theorem tidy_recoverKey (hs : s.config.useRecovery = true) (p : Policy) (key : CorrelationKey) :
    (recoverKey s p key).Tidy s a := by
  have hfetch : recoverable s key = fetch key >>= fun found => pure (found.map Snapshot.restore) := by
    unfold recoverable
    rw [if_pos hs]
  refine .bind (.note (fun _ => rfl) fun _ => rfl) fun _ => .bind .get fun r => ?_
  rw [hfetch, bind_assoc]
  refine tidy_fetch_bind fun found => ?_
  rw [pure_bind]
  cases found with
  | none =>
    refine .modify (fun _ => ?_) (fun _ => ?_) ?_
    exacts [.absent, rfl, .pure _]
  | some v =>
    refine .of_tidy (fun _ _ h => by cases h) ?_
    show Operation.Tidy s a (if p.maximumRedeliveries < (r.recordOf key s.clock).attempts then _ else _)
    split
    · exact tidy_escalate p key _ _
    · exact .bind (.lift (tidy_handBack key _)) fun _ => .bind (.note (fun _ => rfl) fun _ => rfl) fun _ => .pure _

theorem tidy_recoverNext (hs : s.config.useRecovery = true) (p : Policy) (report : Report) (key : CorrelationKey) :
    (recoverNext s p report key).Tidy s a := by
  refine Procedure.Tidy.bind (tidy_recoverKey hs p key) fun x => ?_
  cases x with
  | ok outcome => exact .pure _
  | error e => exact .bind (.note (fun _ => rfl) fun _ => rfl) fun _ => .pure _

theorem tidy_pass : (pass s).Tidy s .pass := by
  refine tidy_running_bind fun p hp => .holding .pass (tidy_listed_bind fun stored => ?_)
  show Operation.Reacts s .pass _ _ (if p.useRecovery = true then _ else _)
  split
  · rename_i hrec
    -- What is recovered goes by the configuration, which the policy was made of.
    have hs : s.config.useRecovery = true := by rw [← Setup.useRecovery_of_policy? hp, hrec]
    refine .modify (fun _ => ?_) (fun _ => ?_) ?_
    · exact .listed rfl
    · rfl
    · exact .bind (.lift (.foldlM (fun report key => tidy_recoverNext hs p report key) _ _)) fun _ =>
        .bind (.note (fun _ => rfl) fun _ => rfl) fun _ => .pure _
  · exact .of_tidy (fun _ _ h => by cases h) (.pure _)

/-! ## Starting and stopping -/

theorem tidy_report (e : RouteError) : (Procedure.report e).Tidy s a :=
  .bind (.note (fun _ => rfl) fun _ => rfl) fun _ => .ask fun _ _ => Request.noConfusion

theorem tidy_start : (start s).Tidy s a := by
  refine .holding .lifecycle (.bind .get fun r => ?_)
  show Operation.Tidy s a (if r.isRunning = true then _ else _)
  split
  · exact .pure _
  · cases hp : s.policy? with
    | error e => exact .bind (.lift (tidy_report _)) fun _ => .fail _
    | ok p =>
      refine .bind (.modify (fun _ => rfl) fun t _ q hq => ?_) fun _ => ?_
      · cases hq
        exact hp
      · show Operation.Tidy s a (if p.schedulesPasses = true then _ else _)
        split
        · exact .lift (.ask fun _ _ => Request.noConfusion)
        · exact .pure _

theorem tidy_halt : halt.Tidy s a := by
  refine .bind .get fun r => ?_
  cases r.active with
  | none => exact .pure none
  | some p =>
    refine .bind (.modify (fun _ => rfl) fun t _ q hq => by cases hq) fun _ =>
      .bind (.lift (.ask fun _ _ => Request.noConfusion)) fun joined => ?_
    cases joined with
    | ok u => exact .pure _
    | error detail => exact .bind (.lift (tidy_report _)) fun _ => .pure _

theorem tidy_drain (n : Nat) : (drain n).Tidy s a := by
  induction n with
  | zero =>
    refine .bind .get fun r => ?_
    show Operation.Tidy s a (if r.inFlight = 0 then _ else _)
    split
    · exact .pure _
    · exact .bind (.lift (tidy_report _)) fun _ => .fail _
  | succ n ih =>
    refine .bind .get fun r => ?_
    show Operation.Tidy s a (if r.inFlight = 0 then _ else _)
    split
    · exact .pure _
    · exact .bind (.lift (.ask fun _ _ => Request.noConfusion)) fun _ => ih

theorem tidy_stop : stop.Tidy s a := by
  refine .bind (.holding .lifecycle tidy_halt) fun halted => ?_
  cases halted with
  | none => exact .pure _
  | some halted =>
    refine .bind (tidy_drain _) fun _ => ?_
    cases halted.crash with
    | none => exact .pure _
    | some detail => exact .fail _

theorem tidy_redelivery (key : CorrelationKey) (e : Exchange) : (redelivery key e).Tidy s a := by
  refine .bind (.ask fun _ _ => Request.noConfusion) fun answer => ?_
  cases answer with
  | ok u => exact .note (fun _ => rfl) fun _ => rfl
  | error f => exact .bind (.note (fun _ => rfl) fun _ => rfl) fun _ => .note (fun _ => rfl) fun _ => rfl

end Repository

/-! ## After a put -/

/-- A run that finishes at once, or after a put and then with success if the put had it. -/
inductive Run.Brief : Run (Except RepositoryError α) → Prop where
  | finished {x : Except RepositoryError α} {r : Repository} : Brief (.finished x r)
  | asking {key : CorrelationKey} {v : Snapshot} {r : Repository}
      {next : Except StoreError (Option Snapshot) → Repository → Run (Except RepositoryError α)}
      (h : ∀ x t, ∃ y u, next x t = .finished y u ∧ (x.isOk = true → y.isOk = true)) :
      Brief (.asking (.store (.put key v)) r next)

theorem Run.Brief.map {x : Operation α} {r : Repository} (h : (x.run r).Brief) (f : α → β) :
    ((x >>= fun b => pure (f b)).run r).Brief := by
  show ((x.run r).bind _).Brief
  generalize x.run r = z at h
  cases h with
  | @finished y r => cases y <;> exact .finished
  | asking h =>
    refine .asking fun y t => ?_
    obtain ⟨z, u, hz, hok⟩ := h y t
    rw [hz]
    cases z with
    | ok b => exact ⟨_, _, rfl, fun _ => rfl⟩
    | error e => exact ⟨_, _, rfl, hok⟩

theorem Repository.brief_add (key : CorrelationKey) (e : Exchange) (r : Repository) : ((add key e).run r).Brief := by
  unfold add
  cases hp : r.active with
  | none =>
    rw [run_running_bind_none hp]
    exact .finished
  | some p =>
    rw [run_running_bind hp]
    cases e.capture p.allowSerializedHeaders with
    | error fault => exact .finished
    | ok v =>
      refine .asking (v := v) fun x t => ?_
      cases x with
      | ok old => exact ⟨_, _, rfl, fun _ => rfl⟩
      | error f => exact ⟨_, _, rfl, fun h => nomatch h⟩

/-! ## Actions -/

/-- Every action changes the index by what it is answered only. -/
theorem Action.tidy (s : Setup) (a : Action) : (a.task s).Tidy s a := by
  cases a with
  | start => exact .bind Repository.tidy_start fun _ => .pure _
  | stop => exact .bind Repository.tidy_stop fun _ => .pure _
  | add key e he => exact .bind (Repository.tidy_add key e he) fun _ => .pure _
  | get key => exact .bind (Repository.tidy_get? key) fun _ => .pure _
  | recover key => exact .bind (Repository.tidy_recover key) fun _ => .pure _
  | remove key => exact .bind (Repository.tidy_remove key) fun _ => .pure _
  | confirm id => exact .bind (Repository.tidy_confirm id) fun _ => .pure _
  | keys | scan => exact .bind Repository.tidy_keys fun _ => .pure _
  | state key => exact .bind (Repository.tidy_recoveryState? key) fun _ => .pure _
  | pass => exact .bind Repository.tidy_pass fun _ => .pure _
  | redelivery key e => exact .bind (.lift (Repository.tidy_redelivery key e)) fun _ => .pure _

theorem Action.brief {a : Action} (ha : a.isAdd = true) (s : Setup) (r : Repository) : ((a.task s).run r).Brief := by
  cases a with
  | add key e => exact .map (Repository.brief_add key e r) _
  | _ => cases ha

end DurableAggregates
