import DurableAggregates.Proofs.Execution.Confirming
import DurableAggregates.Proofs.Snapshot.Written
import DurableAggregates.Repository.Lifecycle
import DurableAggregates.Repository.Recovery

/-!
# What single operations do

One lemma for each operation on aggregates says what it answers, and with which repository and in which world it ends,
by the results of the store calls that it makes. A start and a stop change the policy and the last error and nothing
else (`start_exec`, `stop_exec`).
-/

namespace DurableAggregates

/-! ## Reading what was put -/

theorem Store.snapshot?_of_encode {s : Store} {key : CorrelationKey} {v : Snapshot} (hv : v.Fits)
    (hd : s.data[key]? = some v.encode) : s.snapshot? key = some v.asWritten :=
  snapshot?_eq_some.2 ⟨v.encode, hd, Snapshot.decode_encode hv⟩

theorem Environment.snapshot?_of_result_put {env : Environment} {w : World} {key : CorrelationKey} {v : Snapshot}
    {old : Option Snapshot} (hv : v.Fits) (h : env.result w (.put key v) = .ok old) :
    (env.after w (.put key v)).store.snapshot? key = some v.asWritten := by
  refine Store.snapshot?_of_encode hv ?_
  rw [result_put] at h
  rw [data_after_put]
  cases hf : env.fault? w .put key with
  | none => simp
  | some f =>
    rw [hf] at h
    cases h

/-! ## Operations -/

namespace Repository

open Operation Environment

variable {env : Environment} {s : Setup} {r : Repository} {w : World} {p : Policy} {key : CorrelationKey}
  {id : String}

theorem exec_put (key : CorrelationKey) (v : Snapshot) :
    (monadLift (Procedure.call (.put key v)) : Operation (Except StoreError (Option Snapshot))).exec env r w =
      (.ok (env.result w (.put key v)), r, env.after w (.put key v)) := exec_lift _

theorem add_exec (env : Environment) (w : World) (key : CorrelationKey) (h : r.active = some p) (e : Exchange) :
    (∃ fault, e.capture p.allowSerializedHeaders = .error fault ∧
      (add key e).exec env r w = (.error (.serialization fault), r, w)) ∨
    ∃ v, e.capture p.allowSerializedHeaders = .ok v ∧
      ((∃ f, env.result w (.put key v) = .error f ∧
          (add key e).exec env r w = (.error (.store f), r, env.after w (.put key v))) ∨
        ∃ x, env.result w (.put key v) = .ok x ∧ (add key e).exec env r w = (.ok (x.map Snapshot.restore),
          { r with index := r.index.insert key e.id }.count .adds, env.after w (.put key v))) := by
  simp only [add, exec_bind, runningPolicy_exec h]
  cases hc : e.capture p.allowSerializedHeaders with
  | error fault => exact .inl ⟨fault, rfl, rfl⟩
  | ok v =>
    refine .inr ⟨v, rfl, ?_⟩
    simp only [exec_bind, exec_put, exec_ofStore]
    cases hp : env.result w (.put key v) with
    | error f => exact .inl ⟨f, rfl, rfl⟩
    | ok x => exact .inr ⟨x, rfl, rfl⟩

theorem remove_exec (env : Environment) (w : World) (key : CorrelationKey) (h : r.active = some p) :
    (env.result w (.remove key) = .ok () ∧ (remove key).exec env r w =
      (.ok (), (r.forget key).count .removes, env.after w (.remove key))) ∨
    ∃ e, env.result w (.remove key) = .error e ∧
      (remove key).exec env r w = (.error (.store e), r, env.after w (.remove key)) := by
  simp only [remove, exec_bind, runningPolicy_exec h, erase_exec]
  cases hr : env.result w (.remove key) with
  | ok u => exact .inl ⟨rfl, rfl⟩
  | error e => exact .inr ⟨e, rfl, rfl⟩

theorem get?_exec (h : r.active = some p) : (get? key).exec env r w =
    (((env.result w (.get key)).mapError .store).map (·.map Snapshot.restore), r, env.after w (.get key)) := by
  simp only [get?, exec_bind, runningPolicy_exec h, fetch_exec]
  cases env.result w (.get key) <;> rfl

theorem keys_exec (h : r.active = some p) :
    keys.exec env r w = ((env.result w .keys).mapError .store, r, env.after w .keys) := by
  simp only [keys, exec_bind, runningPolicy_exec h, listed_exec]

theorem recoverable_exec : (recoverable s key).exec env r w =
    if s.config.useRecovery then
      (((env.result w (.get key)).mapError .store).map (·.map Snapshot.restore), r, env.after w (.get key))
    else (.ok none, r, w) := by
  unfold recoverable
  split
  · simp only [exec_bind, fetch_exec]
    cases env.result w (.get key) <;> rfl
  · rfl

theorem recover_exec (env : Environment) (s : Setup) (w : World) (key : CorrelationKey) (h : r.active = some p) :
    (recover s key).exec env r w =
    if s.config.useRecovery then
      (((env.result w (.get key)).mapError .store).map (·.map Snapshot.restore), r, env.after w (.get key))
    else (.ok none, r, w) := by
  rw [recover, exec_bind_ok (runningPolicy_exec h), recoverable_exec]

theorem recoveryState?_exec (h : r.active = some p) : (recoveryState? key).exec env r w =
    (((env.result w (.get key)).mapError .store).map (·.map fun _ => r.stateOf key), r, env.after w (.get key)) := by
  simp only [recoveryState?, exec_bind, runningPolicy_exec h, fetch_exec]
  cases env.result w (.get key) with
  | error e => rfl
  | ok found => cases found <;> rfl

/-! ## Starting and stopping -/

@[simp] theorem exec_report (e : RouteError) :
    (monadLift (Procedure.report e) : Operation Unit).exec env r w = (.ok (), { r with lastError := some e }, w) :=
  exec_lift _

@[simp] theorem exec_halt :
    (monadLift (Procedure.ask .halt) : Operation (Except String Unit)).exec env r w =
      (.ok (env.ending w.moment), r, w) := exec_lift _

/-- A start changes nothing but the policy and the last error; one that fails leaves an unhealthy repository. -/
theorem start_exec (env : Environment) (s : Setup) (r : Repository) (w : World) :
    (r.isRunning = true ∧ (start s).exec env r w = (.ok (), r, w)) ∨
    (∃ e f, s.policy? = .error e ∧
      (start s).exec env r w = (.error (.config e), { r with lastError := some f }, w) ∧
      r.isRunning = false ∧ f.unhealthy = true) ∨
    ∃ p, s.policy? = .ok p ∧ (start s).exec env r w = (.ok (), { r with active := some p, lastError := none }, w) := by
  simp only [start, exec_holding, exec_bind, exec_getThe]
  by_cases hr : r.isRunning = true
  · rw [if_pos hr]
    exact .inl ⟨hr, rfl⟩
  · rw [if_neg hr]
    cases hp : s.policy? with
    | error e => exact .inr (.inl ⟨e, _, rfl, rfl, by simpa using hr, rfl⟩)
    | ok p =>
      refine .inr (.inr ⟨p, rfl, ?_⟩)
      simp only [exec_bind, exec_modifyThe]
      by_cases hl : p.schedulesPasses = true
      · rw [if_pos hl]
        rfl
      · rw [if_neg hl]
        rfl

/-- Waiting for the outstanding redeliveries changes nothing but the last error, if they take too long. -/
theorem drain_exec (env : Environment) (r : Repository) (w : World) (n : Nat) :
    ∃ x e, (drain n).exec env r w = (x, { r with lastError := e }, w) ∧
      (e = r.lastError ∨ ∃ f, e = some (stopFailure f)) := by
  induction n with
  | zero =>
    simp only [drain, exec_bind, exec_getThe]
    split
    · exact ⟨_, r.lastError, rfl, .inl rfl⟩
    · exact ⟨_, _, rfl, .inr ⟨_, rfl⟩⟩
  | succ n ih =>
    simp only [drain, exec_bind, exec_getThe]
    split
    · exact ⟨_, r.lastError, rfl, .inl rfl⟩
    · obtain ⟨x, e, h, he⟩ := ih
      exact ⟨x, e, h, he⟩

/-- A stop changes nothing but the policy and the last error, and that only if the repository was running. -/
theorem stop_exec (env : Environment) (r : Repository) (w : World) :
    ∃ x e, stop.exec env r w = (x, { r with active := none, lastError := e }, w) ∧
      (e = r.lastError ∨ r.isRunning = true ∧ ∃ f, e = some (stopFailure f)) := by
  simp only [stop, exec_bind, exec_holding, halt, exec_getThe]
  cases ha : r.active with
  | none =>
    refine ⟨.ok (), r.lastError, ?_, .inl rfl⟩
    simp only [exec_pure]
    rw [← ha]
  | some p =>
    have hr : r.isRunning = true := by rw [isRunning, ha]; rfl
    simp only [exec_bind, exec_modifyThe, exec_halt]
    cases env.ending w.moment with
    | ok u =>
      simp only [exec_pure, exec_bind]
      obtain ⟨x, e, h, he⟩ := drain_exec env { r with active := none } w (polls p.shutdownTimeout)
      have hlast : e = r.lastError ∨ r.isRunning = true ∧ ∃ f, e = some (stopFailure f) :=
        he.imp_right fun hf => ⟨hr, hf⟩
      rw [h]
      cases x with
      | ok u => exact ⟨_, e, rfl, hlast⟩
      | error f => exact ⟨_, e, rfl, hlast⟩
    | error detail =>
      simp only [exec_pure, exec_bind, exec_report]
      obtain ⟨x, e, h, he⟩ := drain_exec env
        { r with active := none, lastError := some (stopFailure (.schedulerJoin detail)) } w (polls p.shutdownTimeout)
      have hlast : ∃ f, e = some (stopFailure f) := he.elim (fun hx => ⟨_, hx⟩) id
      rw [h]
      cases x with
      | ok u => exact ⟨_, e, rfl, .inr ⟨hr, hlast⟩⟩
      | error f => exact ⟨_, e, rfl, .inr ⟨hr, hlast⟩⟩

/-- Where no redelivery is outstanding there is nothing to wait for. -/
theorem drain_exec_idle (env : Environment) (w : World) (h : r.inFlight = 0) (n : Nat) :
    (drain n).exec env r w = (.ok (), r, w) := by
  cases n with
  | zero => simp only [drain, exec_bind, exec_getThe, if_pos h, exec_pure]
  | succ n => simp only [drain, exec_bind, exec_getThe, if_pos h, exec_pure]

/-- A stop succeeds if no redelivery is outstanding and the scheduler has not crashed. -/
theorem stop_exec_idle (h : r.inFlight = 0) (he : env.ending w.moment = .ok ()) :
    stop.exec env r w = (.ok (), { r with active := none }, w) := by
  simp only [stop, exec_bind, exec_holding, halt, exec_getThe]
  cases ha : r.active with
  | none =>
    simp only [exec_pure]
    rw [← ha]
  | some p =>
    have hidle : { r with active := none }.inFlight = 0 := h
    simp only [exec_bind, exec_modifyThe, exec_halt, he, exec_pure, drain_exec_idle env w hidle]

/-- The end of a redelivery changes nothing but what is counted. -/
theorem redelivery_exec (env : Environment) (r : Repository) (w : World) (key : CorrelationKey) (e : Exchange) :
    ∃ m t, Procedure.exec (redelivery key e) env r w = (⟨⟩, { r with inFlight := m, tally := t }, w) := by
  simp only [redelivery, Procedure.exec_bind]
  cases h : ((Procedure.ask (.deliver key e)).exec env r w).1 with
  | ok u => exact ⟨_, _, rfl⟩
  | error f => exact ⟨_, _, rfl⟩

end Repository

end DurableAggregates
