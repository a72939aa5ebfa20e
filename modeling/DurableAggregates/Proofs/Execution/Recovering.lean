import DurableAggregates.Proofs.Execution.Operations

/-!
# What a pass does with one key

The cases of `Recovered` are the ways in which the recovery of a key ends (`recoverKey_exec`), under any faults and
any answers of the sink. Since nobody else writes meanwhile, the entry that is read again after the letter is the one
that was forwarded, so a key is never found replaced.
-/

namespace DurableAggregates

/-- The number of the attempt that the next pass makes for a key. -/
def Repository.nextAttempt (r : Repository) (key : CorrelationKey) : Nat :=
  min ((r.records[key]?.elim 0 Record.attempts) + 1) Record.limit

/-- The letter of an exchange whose budget is spent. -/
def Setup.letter (s : Setup) (uri : String) (key : CorrelationKey) (e : Exchange) (attempts : Nat) : DeadLetter :=
  { uri, key, exchange := e, attempts, escalatedAt := s.clock }

/-- The world after the letter of an exchange was offered, if there is an address. -/
def Environment.escalating (env : Environment) (w : World) (s : Setup) (address : Option String)
    (key : CorrelationKey) (e : Exchange) (attempts : Nat) : World :=
  match address with
  | some uri => env.offering w (s.letter uri key e attempts)
  | none => w

/-- The world after an exchange was handed back, if there is an engine. -/
def World.handing (w : World) (s : Setup) (key : CorrelationKey) (e : Exchange) : World :=
  if s.hasEngine then { w with handed := w.handed ++ [(key, e)] } else w

namespace Repository

/-- A redelivery was begun, if there is an engine, and is counted. -/
def handedBack (r : Repository) (s : Setup) : Repository :=
  (if s.hasEngine then r.beginRedelivery else r).count .redeliveries

/-- A key whose budget is spent has left the store. -/
def escalated (r : Repository) (address : Option String) (key : CorrelationKey) : Repository :=
  match address with
  | some _ => { r.forget key with deadLettered := r.deadLettered + 1 }.count .deadLetters
  | none => (r.forget key).count .discards

/-- What becomes of a key whose budget is spent. -/
def fate (address : Option String) : Outcome :=
  match address with
  | some _ => .deadLettered
  | none => .discarded

/-- How the recovery of a key ends, with the repository and the world that it leaves. -/
inductive Recovered (env : Environment) (s : Setup) (p : Policy) (key : CorrelationKey) (r : Repository) (w : World) :
    Except RepositoryError Outcome → Repository → World → Prop where
  | unread (e : StoreError) (hg : env.result w (.get key) = .error e) :
      Recovered env s p key r w (.error (.store e)) (r.observe key s.clock) (env.after w (.get key))
  | gone (hg : env.result w (.get key) = .ok none) :
      Recovered env s p key r w (.ok .skipped) ((r.observe key s.clock).forget key) (env.after w (.get key))
  | handed (v : Snapshot) (hg : env.result w (.get key) = .ok (some v))
      (hn : r.nextAttempt key ≤ p.maximumRedeliveries) :
      Recovered env s p key r w (.ok (.redelivered (r.nextAttempt key))) ((r.observe key s.clock).handedBack s)
        ((env.after w (.get key)).handing s key
          (v.restore.tagRedelivery key (r.nextAttempt key) p.maximumRedeliveries))
  /-- The sink does not accept the letter. -/
  | refused (v : Snapshot) (hg : env.result w (.get key) = .ok (some v))
      (hn : p.maximumRedeliveries < r.nextAttempt key) (uri : String) (ha : sinkAddress? s p = some uri)
      (e : DeadLetterError)
      (hv : env.verdict (env.after w (.get key)) (s.letter uri key v.restore (r.nextAttempt key)) = .error e) :
      Recovered env s p key r w (.error (.deadLetter e)) (r.observe key s.clock)
        (env.offering (env.after w (.get key)) (s.letter uri key v.restore (r.nextAttempt key)))
  /-- The key cannot be read again, or not be removed. -/
  | kept (hf : ¬ env.Healthy) (v : Snapshot) (hg : env.result w (.get key) = .ok (some v))
      (hn : p.maximumRedeliveries < r.nextAttempt key)
      (hv : ∀ uri, sinkAddress? s p = some uri →
        env.verdict (env.after w (.get key)) (s.letter uri key v.restore (r.nextAttempt key)) = .ok ())
      (e : StoreError) (u : World)
      (hu : (env.escalating (env.after w (.get key)) s (sinkAddress? s p) key v.restore
        (r.nextAttempt key)).Reads u) :
      Recovered env s p key r w (.error (.store e)) (r.observe key s.clock) u
  | moved (v : Snapshot) (hg : env.result w (.get key) = .ok (some v))
      (hn : p.maximumRedeliveries < r.nextAttempt key)
      (hv : ∀ uri, sinkAddress? s p = some uri →
        env.verdict (env.after w (.get key)) (s.letter uri key v.restore (r.nextAttempt key)) = .ok ())
      (u : World) (hd : u.store.data = w.store.data.erase key)
      (hl : u.letters = (env.escalating (env.after w (.get key)) s (sinkAddress? s p) key v.restore
        (r.nextAttempt key)).letters) (hh : u.handed = w.handed) :
      Recovered env s p key r w (.ok (fate (sinkAddress? s p)))
        ((r.observe key s.clock).escalated (sinkAddress? s p) key) u

open Operation Environment

variable {env : Environment} {s : Setup} {r : Repository} {w : World} {p : Policy} {key : CorrelationKey}
  {v : Snapshot}

/-- The record of a key that a pass has observed. -/
theorem records_observe :
    (r.observe key s.clock).records[key]? = some ((r.recordOf key s.clock).observe s.clock) := by
  simp [observe]

theorem attempts_observe_recordOf : ((r.recordOf key s.clock).observe s.clock).attempts = r.nextAttempt key := by
  rw [Record.attempts_observe, recordOf, nextAttempt]
  cases r.records[key]? <;> rfl

/-- The record that a pass finds after it has observed a key counts that pass. -/
theorem attempts_recordOf_observe :
    ((r.observe key s.clock).recordOf key s.clock).attempts = r.nextAttempt key := by
  rw [recordOf, records_observe, Option.getD_some, attempts_observe_recordOf]

/-- An entry that nobody else replaces is still the same when it is read again. -/
theorem eraseIfCurrent_exec (env : Environment) (r : Repository) (hv : w.store.snapshot? key = some v) :
    (¬ env.Healthy ∧ ∃ e u, (eraseIfCurrent key v.id).exec env r w = (.error (.store e), r, u) ∧ w.Reads u) ∨
    ∃ u, (eraseIfCurrent key v.id).exec env r w = (.ok true, r, u) ∧ u.store.data = w.store.data.erase key ∧
      u.letters = w.letters ∧ u.handed = w.handed := by
  have hr := World.reads_get env w key
  simp only [eraseIfCurrent, exec_bind, fetch_exec]
  rcases result_get_of_snapshot? env hv with hg | ⟨e, hg, hf⟩
  · rw [hg]
    simp only [mapError_ok, Option.any_some, decide_true, if_true, exec_bind, erase_exec]
    cases hx : env.result (env.after w (.get key)) (.remove key) with
    | error e =>
      refine .inl ⟨not_healthy_of_result_remove hx, e, _, rfl, ?_, rfl, rfl⟩
      rw [data_after_remove_error hx, hr.data]
    | ok u =>
      refine .inr ⟨_, rfl, ?_, rfl, rfl⟩
      rw [data_after_remove_ok hx, hr.data]
  · rw [hg]
    exact .inl ⟨hf, e, _, rfl, hr⟩

theorem forward_exec (env : Environment) (r : Repository) (w : World) (letter : DeadLetter) :
    (forward letter).exec env r w = ((env.verdict w letter).mapError .deadLetter, r, env.offering w letter) := by
  have ha : (monadLift (Procedure.ask (.forward letter)) : Operation (Except DeadLetterError Unit)).exec env r w =
      (.ok (env.verdict w letter), r, env.offering w letter) := exec_lift _
  simp only [forward, exec_bind, ha]
  cases env.verdict w letter <;> rfl

theorem handBack_exec (e : Exchange) : Procedure.exec (handBack s key e) env r w =
    (⟨⟩, if s.hasEngine then r.beginRedelivery else r, w.handing s key e) := by
  unfold handBack World.handing
  split <;> rfl

theorem escalate_exec (env : Environment) (s : Setup) (p : Policy) (r : Repository)
    (hv : w.store.snapshot? key = some v) (n : Nat) :
    (∃ uri e, sinkAddress? s p = some uri ∧ env.verdict w (s.letter uri key v.restore n) = .error e ∧
      (escalate s p key v.restore n).exec env r w =
        (.error (.deadLetter e), r, env.offering w (s.letter uri key v.restore n))) ∨
    (∀ uri, sinkAddress? s p = some uri → env.verdict w (s.letter uri key v.restore n) = .ok ()) ∧
      ((¬ env.Healthy ∧ ∃ e u, (escalate s p key v.restore n).exec env r w = (.error (.store e), r, u) ∧
          (env.escalating w s (sinkAddress? s p) key v.restore n).Reads u) ∨
        ∃ u, (escalate s p key v.restore n).exec env r w =
            (.ok (fate (sinkAddress? s p)), r.escalated (sinkAddress? s p) key, u) ∧
          u.store.data = w.store.data.erase key ∧
          u.letters = (env.escalating w s (sinkAddress? s p) key v.restore n).letters ∧ u.handed = w.handed) := by
  cases ha : sinkAddress? s p with
  | some uri =>
    let letter := s.letter uri key v.restore n
    have hf := forward_exec env r w letter
    have hw : (env.offering w letter).store.snapshot? key = some v := hv
    cases hl : env.verdict w letter with
    | error e =>
      rw [hl] at hf
      refine .inl ⟨uri, e, rfl, hl, ?_⟩
      simp only [escalate, ha]
      exact exec_bind_error hf
    | ok u =>
      rw [hl] at hf
      refine .inr ⟨fun uri' h => by cases h; exact hl, ?_⟩
      simp only [escalate, ha]
      rcases eraseIfCurrent_exec env r hw with ⟨hf', e, u, hx, hr⟩ | ⟨u, hx, hd, hl, hh⟩
      · exact .inl ⟨hf', e, u, (exec_bind_ok hf).trans (exec_bind_error hx), hr⟩
      · exact .inr ⟨u, (exec_bind_ok hf).trans (exec_bind_ok hx), hd, hl, hh⟩
  | none =>
    refine .inr ⟨fun uri h => (nomatch h), ?_⟩
    simp only [escalate, ha]
    rcases eraseIfCurrent_exec env r hv with ⟨hf', e, u, hx, hr⟩ | ⟨u, hx, hd, hl, hh⟩
    · exact .inl ⟨hf', e, u, exec_bind_error hx, hr⟩
    · exact .inr ⟨u, exec_bind_ok hx, hd, hl, hh⟩

theorem recoverKey_exec (env : Environment) (p : Policy) (r : Repository) (w : World) (key : CorrelationKey)
    (hs : s.config.useRecovery = true) :
    ∃ x t u, (recoverKey s p key).exec env r w = (x, t, u) ∧ Recovered env s p key r w x t u := by
  simp only [recoverKey, exec_bind, exec_modifyThe, exec_getThe, attempts_recordOf_observe, recoverable_exec, hs,
    if_true]
  cases hg : env.result w (.get key) with
  | error e => exact ⟨_, _, _, rfl, .unread e hg⟩
  | ok found =>
    cases found with
    | none => exact ⟨_, _, _, rfl, .gone hg⟩
    | some v =>
      have hv : (env.after w (.get key)).store.snapshot? key = some v := by
        rw [(World.reads_get env w key).snapshot? key]
        exact snapshot?_of_result_get hg
      simp only [mapError_ok, Except.map, Option.map_some]
      by_cases hn : p.maximumRedeliveries < r.nextAttempt key
      · rw [if_pos hn]
        rcases escalate_exec env s p (r.observe key s.clock) hv (r.nextAttempt key) with
          ⟨uri, e, ha, hl, hx⟩ | ⟨hl, ⟨hf, e, u, hx, hu⟩ | ⟨u, hx, hd, hll, hh⟩⟩
        · exact ⟨_, _, _, hx, .refused v hg hn uri ha e hl⟩
        · exact ⟨_, _, _, hx, .kept hf v hg hn hl e u hu⟩
        · exact ⟨_, _, _, hx, .moved v hg hn hl u (by rw [hd, data_after_get]) hll hh⟩
      · rw [if_neg hn]
        refine ⟨_, _, _, ?_, .handed v hg (Nat.le_of_not_lt hn)⟩
        simp only [exec_bind, exec_lift, handBack_exec, exec_modifyThe, exec_pure]
        rfl

end Repository

end DurableAggregates
