import DurableAggregates.Cluster.Script
import DurableAggregates.Proofs.Execution.Operations

/-!
# Actions on a repository

An `Action` is what a repository can be asked for, together with the end of a redelivery. The cases of `Acted` are the
ways in which an action that is no pass can end (`Repository.action_exec`). `Steady` is what all of them leave alone:
letters and hand-overs stay as they are, and a key keeps its entry and its record, or has lost both, or keeps its
record and got an entry that can be read (`Repository.action_steady`).
-/

namespace DurableAggregates

inductive Action where
  | start
  | stop
  /-- An exchange has lengths that fit. -/
  | add (key : CorrelationKey) (e : Exchange) (fits : e.Fits)
  | get (key : CorrelationKey)
  | recover (key : CorrelationKey)
  | remove (key : CorrelationKey)
  | confirm (id : String)
  | keys
  | scan
  | state (key : CorrelationKey)
  | pass
  /-- A redelivery that was begun ends. -/
  | redelivery (key : CorrelationKey) (e : Exchange)

def Action.isAdd : Action → Bool
  | .add .. => true
  | _ => false

/-- Whether an action starts or stops the repository. -/
def Action.isLifecycle : Action → Bool
  | .start | .stop => true
  | _ => false

/-- What is done for an action. -/
def Action.task (s : Setup) : Action → Operation Cluster.Answer
  | .start => Cluster.NodeStep.start.task s
  | .stop => Cluster.NodeStep.stop.task s
  | .add key e _ => (Cluster.NodeStep.add key e).task s
  | .get key => (Cluster.NodeStep.get key).task s
  | .recover key => (Cluster.NodeStep.recover key).task s
  | .remove key => (Cluster.NodeStep.remove key).task s
  | .confirm id => (Cluster.NodeStep.confirm id).task s
  | .keys => Cluster.NodeStep.keys.task s
  | .scan => Cluster.NodeStep.scan.task s
  | .state key => (Cluster.NodeStep.state key).task s
  | .pass => Cluster.NodeStep.pass.task s
  | .redelivery key e => Cluster.redelivery key e

/-! ## How an action ends -/

namespace Repository

/-- All that differs is the policy, the last error and what is counted. -/
structure Alike (s : Setup) (r t : Repository) : Prop where
  records : t.records = r.records
  index : t.index = r.index
  deadLettered : t.deadLettered = r.deadLettered
  active : t.active = r.active ∨ t.active = none ∨ ∃ p, s.policy? = .ok p ∧ t.active = some p

/-- How an action that is no pass ends: its answer, and the repository and the world that it leaves. -/
inductive Acted (env : Environment) (s : Setup) (r : Repository) (w : World) :
    Action → Except RepositoryError Cluster.Answer → Repository → World → Prop where
  /-- The repository is not running. -/
  | refused {a : Action} (ha : r.active = none) : Acted env s r w a (.error .notRunning) r w
  /-- Nothing that concerns a key has changed. -/
  | quiet {a : Action} (ha : a.isAdd = false) {x : Except RepositoryError Cluster.Answer}
      {t : Repository} {v : World} (ht : r.Alike s t) (hv : w.Reads v)
      (hl : a.isLifecycle = true ∨ t.active = r.active ∧ t.lastError = r.lastError) : Acted env s r w a x t v
  | uncaptured {key : CorrelationKey} {e : Exchange} {he : e.Fits} {p : Policy} {fault : SnapshotError}
      (ha : r.active = some p) (hc : e.capture p.allowSerializedHeaders = .error fault) :
      Acted env s r w (.add key e he) (.error (.serialization fault)) r w
  | added {key : CorrelationKey} {e : Exchange} {he : e.Fits} {p : Policy} {v : Snapshot} {old : Option Snapshot}
      (ha : r.active = some p) (hc : e.capture p.allowSerializedHeaders = .ok v)
      (hp : env.result w (.put key v) = .ok old) :
      Acted env s r w (.add key e he) (.ok (.exchange (old.map Snapshot.restore)))
        ({ r with index := r.index.insert key e.id }.count .adds) (env.after w (.put key v))
  | unstored {key : CorrelationKey} {e : Exchange} {he : e.Fits} {p : Policy} {v : Snapshot} {f : StoreError}
      (ha : r.active = some p) (hc : e.capture p.allowSerializedHeaders = .ok v)
      (hp : env.result w (.put key v) = .error f) :
      Acted env s r w (.add key e he) (.error (.store f)) r (env.after w (.put key v))
  | removed {key : CorrelationKey} (hx : env.result w (.remove key) = .ok ()) :
      Acted env s r w (.remove key) (.ok .done) ((r.forget key).count .removes) (env.after w (.remove key))
  | confirmed {id : String} {key : CorrelationKey} {t : Repository} {v : World} (hv : w.Reads v)
      (hl : Located env id r w (.ok (some key)) t) (hx : env.result v (.remove key) = .ok ()) :
      Acted env s r w (.confirm id) (.ok .done) ((t.forget key).count .confirms) (env.after v (.remove key))
  /-- There is nothing to confirm. -/
  | unlocated {id : String} {t : Repository} {v : World} (hv : w.Reads v) (hl : Located env id r w (.ok none) t) :
      Acted env s r w (.confirm id) (.ok .done) t v
  /-- The key cannot be located, or not be removed. -/
  | unconfirmed {id : String} {x : Except RepositoryError (Option CorrelationKey)} {e : RepositoryError}
      {t : Repository} {v : World} (hv : w.Reads v) (hl : Located env id r w x t) (hx : x ≠ .ok none) :
      Acted env s r w (.confirm id) (.error e) t v

end Repository

namespace World

variable {env : Environment} {v w : World} {key : CorrelationKey}

/-- A removal that fails is no more than a reading. -/
theorem Reads.remove_error {e : StoreError} (h : w.Reads v) (hx : env.result v (.remove key) = .error e) :
    w.Reads (env.after v (.remove key)) :=
  ⟨(Environment.data_after_remove_error hx).trans h.data, h.letters, h.handed⟩

end World

namespace Repository

open Operation Environment

variable {α : Type} {env : Environment} {s : Setup} {r t : Repository} {w v : World} {key : CorrelationKey}
  {id : String} {a : Action}

theorem Alike.refl (s : Setup) (r : Repository) : r.Alike s r := ⟨rfl, rfl, rfl, .inl rfl⟩

/-- An operation that asks for the policy first does nothing where there is none. -/
theorem acted_of_running {x : Operation α} {f : Policy → Operation α} {g : α → Cluster.Answer}
    (hx : x = runningPolicy >>= f)
    (h : ∀ p, r.active = some p → Acted env s r w a ((x.exec env r w).1.map g) (x.exec env r w).2.1
      (x.exec env r w).2.2) :
    let y := (x >>= fun b => pure (g b)).exec env r w
    Acted env s r w a y.1 y.2.1 y.2.2 := by
  rw [exec_bind_pure]
  cases ha : r.active with
  | none =>
    rw [hx, exec_bind_error (runningPolicy_exec_none ha)]
    exact .refused ha
  | some p => exact h p ha

theorem acted_keys (ha : a.isAdd = false) :
    let y := (keys >>= fun ks => pure (Cluster.Answer.keys ks)).exec env r w
    Acted env s r w a y.1 y.2.1 y.2.2 :=
  acted_of_running rfl fun p hp => by
    rw [keys_exec hp]
    exact .quiet ha (.refl s r) (World.reads_keys env w) (.inr ⟨rfl, rfl⟩)

/-- The ways in which an action that is no pass can end. -/
theorem action_exec (env : Environment) (s : Setup) (r : Repository) (w : World) (h : a ≠ .pass) :
    let y := (a.task s).exec env r w
    Acted env s r w a y.1 y.2.1 y.2.2 := by
  have hget (key : CorrelationKey) := World.reads_get env w key
  cases a with
  | start =>
    show let y := (start s >>= fun _ => pure Cluster.Answer.done).exec env r w; Acted env s r w .start y.1 y.2.1 y.2.2
    rw [exec_bind_pure]
    rcases start_exec env s r w with ⟨-, hx⟩ | ⟨e, f, -, hx, -⟩ | ⟨p, hp, hx⟩
    · rw [hx]
      exact .quiet rfl (.refl s r) (.refl w) (.inl rfl)
    · rw [hx]
      exact .quiet rfl ⟨rfl, rfl, rfl, .inl rfl⟩ (.refl w) (.inl rfl)
    · rw [hx]
      exact .quiet rfl ⟨rfl, rfl, rfl, .inr (.inr ⟨p, hp, rfl⟩)⟩ (.refl w) (.inl rfl)
  | stop =>
    show let y := (stop >>= fun _ => pure Cluster.Answer.done).exec env r w; Acted env s r w .stop y.1 y.2.1 y.2.2
    rw [exec_bind_pure]
    obtain ⟨x, e, hx, -⟩ := stop_exec env r w
    rw [hx]
    exact .quiet rfl ⟨rfl, rfl, rfl, .inr (.inl rfl)⟩ (.refl w) (.inl rfl)
  | add key e he =>
    refine acted_of_running rfl fun p ha => ?_
    rcases add_exec env w key ha e with ⟨fault, hc, hx⟩ | ⟨v, hc, ⟨f, hp, hx⟩ | ⟨old, hp, hx⟩⟩
    · rw [hx]
      exact .uncaptured ha hc
    · rw [hx]
      exact .unstored ha hc hp
    · rw [hx]
      exact .added ha hc hp
  | get key =>
    refine acted_of_running rfl fun p ha => ?_
    rw [get?_exec ha]
    exact .quiet rfl (.refl s r) (hget key) (.inr ⟨rfl, rfl⟩)
  | recover key =>
    refine acted_of_running rfl fun p ha => ?_
    rw [recover_exec env s w key ha]
    split
    · exact .quiet rfl (.refl s r) (hget key) (.inr ⟨rfl, rfl⟩)
    · exact .quiet rfl (.refl s r) (.refl w) (.inr ⟨rfl, rfl⟩)
  | remove key =>
    refine acted_of_running rfl fun p ha => ?_
    rcases remove_exec env w key ha with ⟨hr, hx⟩ | ⟨e, hr, hx⟩
    · rw [hx]
      exact .removed hr
    · rw [hx]
      exact .quiet rfl (.refl s r) ((World.Reads.refl w).remove_error hr) (.inr ⟨rfl, rfl⟩)
  | confirm id =>
    refine acted_of_running rfl fun p ha => ?_
    obtain ⟨x, t, v, hv, hl, hx⟩ := confirm_exec env w id ha
    rcases hx with ⟨e, rfl, hx⟩ | ⟨rfl, hx⟩ | ⟨key, rfl, hr, hx⟩ | ⟨key, e, rfl, hr, hx⟩
    · rw [hx]
      exact .unconfirmed hv hl (by simp)
    · rw [hx]
      exact .unlocated hv hl
    · rw [hx]
      exact .confirmed hv hl hr
    · rw [hx]
      exact .unconfirmed (hv.remove_error hr) hl (by simp)
  | keys => exact acted_keys rfl
  | scan => exact acted_keys rfl
  | state key =>
    refine acted_of_running rfl fun p ha => ?_
    rw [recoveryState?_exec ha]
    exact .quiet rfl (.refl s r) (hget key) (.inr ⟨rfl, rfl⟩)
  | pass => exact absurd rfl h
  | redelivery key e =>
    obtain ⟨m, c, hx⟩ := redelivery_exec env r w key e
    show let y := ((monadLift (redelivery key e) : Operation Unit) >>= fun _ => pure Cluster.Answer.done).exec env r w
      Acted env s r w (.redelivery key e) y.1 y.2.1 y.2.2
    rw [exec_bind_pure, exec_lift, hx]
    exact .quiet rfl ⟨rfl, rfl, rfl, .inl rfl⟩ (.refl w) (.inr ⟨rfl, rfl⟩)

end Repository

/-! ## What actions leave alone -/

/-- What may become of a key by an action that is no pass. -/
inductive Touched (key : CorrelationKey) (r : Repository) (w : World) (r' : Repository) (w' : World) : Prop where
  | kept (hd : w'.store.data[key]? = w.store.data[key]?) (hr : r'.records[key]? = r.records[key]?)
  | dropped (hd : w'.store.data[key]? = none) (hr : r'.records[key]? = none)
  | stored (v : Snapshot) (hv : v.Fits) (hd : w'.store.data[key]? = some v.encode)
      (hr : r'.records[key]? = r.records[key]?)

/-- What every action but a pass leaves alone. -/
structure Steady (s : Setup) (r : Repository) (w : World) (r' : Repository) (w' : World) : Prop where
  letters : w'.letters = w.letters
  handed : w'.handed = w.handed
  deadLettered : r'.deadLettered = r.deadLettered
  active : r'.active = r.active ∨ r'.active = none ∨ ∃ p, s.policy? = .ok p ∧ r'.active = some p
  touched : ∀ key, Touched key r w r' w'

namespace Repository

open Environment

variable {env : Environment} {s : Setup} {r t : Repository} {w v : World} {key : CorrelationKey} {id : String}
  {a : Action} {x : Except RepositoryError Cluster.Answer}

/-- Locating a key drops at most the record of a key that is not stored. -/
theorem Located.touched {y : Except RepositoryError (Option CorrelationKey)} (h : Located env id r w y t)
    (hv : w.Reads v) (k : CorrelationKey) : Touched k r w t v := by
  cases h with
  | hit | completed | unknown | failed | stale => exact .kept (by rw [hv.data]) rfl
  | @absent key hi hd =>
    by_cases hk : key = k
    · subst hk
      exact .dropped (by rw [hv.data, hd]) (by rw [records_forget, if_pos rfl])
    · exact .kept (by rw [hv.data]) (by rw [records_forget, if_neg hk])

theorem Located.deadLettered {y : Except RepositoryError (Option CorrelationKey)} (h : Located env id r w y t) :
    t.deadLettered = r.deadLettered := by
  cases h <;> rfl

theorem Located.tally {y : Except RepositoryError (Option CorrelationKey)} (h : Located env id r w y t) :
    t.tally = r.tally := by
  cases h <;> rfl

theorem Located.active {y : Except RepositoryError (Option CorrelationKey)} (h : Located env id r w y t) :
    t.active = r.active := by
  cases h <;> rfl

/-- To look for an exchange can cost the record of a key only if nothing is stored under it. -/
theorem Located.records {y : Except RepositoryError (Option CorrelationKey)} (h : Located env id r w y t)
    (hy : y ≠ .ok none) : t.records = r.records := by
  cases h with
  | absent => exact absurd rfl hy
  | hit | stale | completed | unknown | failed => rfl

/-- A key is removed together with its record. -/
theorem touched_remove (hv : w.Reads v) (hr : t.records = r.records) (hx : env.result v (.remove key) = .ok ())
    (c : Counter) (k : CorrelationKey) : Touched k r w ((t.forget key).count c) (env.after v (.remove key)) := by
  have hd : (env.after v (.remove key)).store.data[k]? = if key = k then none else w.store.data[k]? := by
    rw [data_after_remove_ok hx, hv.data]
    simp [Std.ExtTreeMap.getElem?_erase]
  have he : ((t.forget key).count c).records[k]? = if key = k then none else r.records[k]? := by
    rw [← hr]
    exact records_forget t key k
  by_cases hk : key = k
  · exact .dropped (by rw [hd, if_pos hk]) (by rw [he, if_pos hk])
  · exact .kept (by rw [hd, if_neg hk]) (by rw [he, if_neg hk])

/-- What is captured of an exchange that fits can be read. -/
theorem touched_put {e : Exchange} (he : e.Fits) {v : Snapshot} {allow : Bool} (hc : e.capture allow = .ok v)
    (hr : t.records = r.records) (k : CorrelationKey) : Touched k r w t (env.after w (.put key v)) := by
  have hd := data_after_put env w key v
  split at hd
  · exact .kept (by rw [hd]) (by rw [hr])
  · by_cases hk : key = k
    · exact .stored v (Exchange.fits_of_capture hc he) (by rw [hd]; simp [hk]) (by rw [hr])
    · exact .kept (data_after_put_of_ne (Ne.symm hk) v) (by rw [hr])

theorem Located.lastError {y : Except RepositoryError (Option CorrelationKey)} (h : Located env id r w y t) :
    t.lastError = r.lastError := by
  cases h <;> rfl

/-- Only a start and a stop change whether the repository is running and how it failed last. -/
theorem Acted.lifecycle (h : Acted env s r w a x t v) (ha : a.isLifecycle = false) :
    t.active = r.active ∧ t.lastError = r.lastError := by
  cases h with
  | quiet _ _ _ hl =>
    rw [ha] at hl
    simpa using hl
  | refused | uncaptured | added | unstored | removed => exact ⟨rfl, rfl⟩
  | confirmed hv hl | unlocated hv hl | unconfirmed hv hl => exact ⟨hl.active, hl.lastError⟩

theorem Acted.steady (h : Acted env s r w a x t v) : Steady s r w t v := by
  cases h with
  | refused | uncaptured => exact ⟨rfl, rfl, rfl, .inl rfl, fun _ => .kept rfl rfl⟩
  | quiet _ ht hv =>
    exact ⟨hv.letters, hv.handed, ht.deadLettered, ht.active, fun k => .kept (by rw [hv.data]) (by rw [ht.records])⟩
  | @added key e he p v old ha hc hp => exact ⟨rfl, rfl, rfl, .inl rfl, touched_put he hc rfl⟩
  | @unstored key e he p v f ha hc hp => exact ⟨rfl, rfl, rfl, .inl rfl, touched_put he hc rfl⟩
  | removed hx => exact ⟨rfl, rfl, rfl, .inl rfl, touched_remove (.refl w) rfl hx .removes⟩
  | confirmed hv hl hx =>
    exact ⟨hv.letters, hv.handed, hl.deadLettered, .inl hl.active,
      touched_remove hv (hl.records (by simp)) hx .confirms⟩
  | unlocated hv hl => exact ⟨hv.letters, hv.handed, hl.deadLettered, .inl hl.active, hl.touched hv⟩
  | unconfirmed hv hl hx => exact ⟨hv.letters, hv.handed, hl.deadLettered, .inl hl.active, hl.touched hv⟩

/-- What every action but a pass leaves alone. -/
theorem action_steady (env : Environment) (s : Setup) (r : Repository) (w : World) (h : a ≠ .pass) :
    Steady s r w ((a.task s).exec env r w).2.1 ((a.task s).exec env r w).2.2 :=
  (action_exec env s r w h).steady

end Repository

end DurableAggregates
