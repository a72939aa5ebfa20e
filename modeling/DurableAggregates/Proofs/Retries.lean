import DurableAggregates.Proofs.Acknowledgement
import DurableAggregates.Proofs.Execution.Plain
import DurableAggregates.Proofs.Index.Accuracy
import DurableAggregates.Proofs.Index.Completed

/-!
# Calls that are made again

A confirmation or a removal that meets a fault is made again once the faults are gone. A removal then does what it
would have done the first time, and so does a confirmation unless the failed one dropped a hint: it does so where the
index has a key for the id that holds another exchange, and if the id is completed as well, the second call takes it
for done and answers that all is well (`failed_call_retried`). A repository that adds an exchange under two keys, of
which another repository takes over the one that is indexed, gets there (`retried_confirm_keeps_third_key`). A sole
writer never does, as its hints are right (`not_conflicted_of_accurate`).
-/

namespace DurableAggregates

/-- The two leave the same entries and the same records. -/
def Agree {α : Type} (y z : Except RepositoryError α × Repository × World) : Prop :=
  y.2.2.store.data = z.2.2.store.data ∧ y.2.1.records = z.2.1.records

/-! ## Without faults the entries decide -/

namespace Environment

variable {env : Environment} {u w : World}

theorem healthy_default : ({} : Environment).Healthy := fun _ => rfl

/-- Without faults a call depends on the entries only. -/
theorem call_congr (he : env.Healthy) (hd : u.store.data = w.store.data) (c : Store.Call) :
    env.result u c = env.result w c ∧ (env.after u c).store.data = (env.after w c).store.data := by
  cases c with
  | put key v =>
    rw [result_put, result_put, fault?_eq_none_of_healthy he, fault?_eq_none_of_healthy he, hd,
      data_after_put_of_healthy he, data_after_put_of_healthy he, hd]
    exact ⟨rfl, rfl⟩
  | get key =>
    rw [result_get, result_get, fault?_eq_none_of_healthy he, fault?_eq_none_of_healthy he, hd,
      data_after_get, data_after_get, hd]
    exact ⟨rfl, rfl⟩
  | remove key =>
    have hu : env.result u (.remove key) = .ok () := result_remove_of_healthy he
    have hw : env.result w (.remove key) = .ok () := result_remove_of_healthy he
    rw [data_after_remove_ok hu, data_after_remove_ok hw, hu, hw, hd]
    exact ⟨rfl, rfl⟩
  | keys =>
    rw [result_keys_eq_of_healthy he, result_keys_eq_of_healthy he, data_after_keys, data_after_keys, hd]
    exact ⟨rfl, rfl⟩

end Environment

variable {α : Type} {order : KeyOrder}

theorem Run.Confined.enumerated {ok : Request → Bool} {P : α → Prop} {p : Option Policy} {x : Run α}
    (hx : x.Confined ok P p) : (x.enumerated order).Confined ok P p := by
  induction hx with
  | finished ha hr => exact .finished ha hr
  | asking hq hr h ih => exact .asking hq hr fun a s => ih _ s

/-- In a world without faults that accepts everything, what is plain depends on the entries only. -/
theorem Run.Confined.exec_congr {P : α → Prop} {p : Option Policy} {x : Run α} (hx : x.Confined Request.isPlain P p)
    {u w : World} (hd : u.store.data = w.store.data) :
    (x.exec {} u).1 = (x.exec {} w).1 ∧ (x.exec {} u).2.1 = (x.exec {} w).2.1 ∧
      (x.exec {} u).2.2.store.data = (x.exec {} w).2.2.store.data := by
  induction hx generalizing u w with
  | finished ha hr => exact ⟨rfl, rfl, hd⟩
  | @asking p q hq r hr next h ih =>
    cases q with
    | store c =>
      obtain ⟨hresult, hafter⟩ := Environment.call_congr Environment.healthy_default hd c
      have hnext := ih (Environment.result {} u c) r hafter
      simp only [Run.exec, Environment.answer]
      rwa [← hresult]
    | forward letter => exact ih (.ok ()) r hd
    | dispatch key e => exact ih () r hd
    | _ => cases hq

theorem Operation.Within.exec_congr (order : KeyOrder) {x : Operation α} (hx : x.Within Request.isPlain)
    (r : Repository) {u w : World} (hd : u.store.data = w.store.data) :
    ((x.enumerated order).exec {} r u).1 = ((x.enumerated order).exec {} r w).1 ∧
      ((x.enumerated order).exec {} r u).2.1 = ((x.enumerated order).exec {} r w).2.1 ∧
      ((x.enumerated order).exec {} r u).2.2.store.data = ((x.enumerated order).exec {} r w).2.2.store.data :=
  (hx r).enumerated.exec_congr hd

/-- The same call in two worlds with the same entries leaves the same. -/
theorem Operation.Within.agree {x : Operation α} (hx : x.Within Request.isPlain) (r : Repository) {u w : World}
    (hd : u.store.data = w.store.data) :
    Agree ((x.enumerated order).exec {} r u) ((x.enumerated order).exec {} r w) := by
  obtain ⟨-, hr, hdata⟩ := hx.exec_congr order r hd
  exact ⟨hdata, by rw [hr]⟩

/-! ## Confirming again -/

/-- The index has a key for the id that holds another exchange, and the id is completed nevertheless. -/
def Repository.Conflicted (r : Repository) (w : World) (id : String) : Prop :=
  r.index.isCompleted id = true ∧
    ∃ key v, r.index.keyFor? id = some key ∧ w.store.snapshot? key = some v ∧ v.id ≠ id

namespace Repository

open Operation Environment

variable {env : Environment} {r t : Repository} {u w : World} {p : Policy} {key : CorrelationKey} {id : String}

/-- Hints that are right are in no conflict. -/
theorem not_conflicted_of_accurate (h : r.index.Accurate w) : ¬ r.Conflicted w id := by
  rintro ⟨-, key, v, hi, hv, hne⟩
  exact World.not_holds_of_id_ne hv hne (h.held id key hi)

/-- The index is no obstacle to what is located. -/
theorem Located.not_misled (h : Located env id r w (.ok (some key)) t) : ¬ r.Misled w id := by
  intro hm
  cases h with
  | hit hi hh => exact (misled_of_keyFor? hi).1 hm hh.mem
  | stale hi hv => exact (misled_of_keyFor? hi).1 hm (Store.mem_of_snapshot? hv)
  | unknown hi hc =>
    rw [misled_of_keyFor?_none hi, hc] at hm
    cases hm

/-- A confirmation that fails leaves all as it was, but for a hint at a key that holds another exchange. -/
theorem confirm_failed (ho : ∀ keys, (order keys).Perm keys) (ha : r.active = some p) {e : RepositoryError}
    (h : ((confirm id).enumerated order).exec env r w = (.error e, t, u)) :
    u.store.data = w.store.data ∧ (t = r ∨ ∃ key v, r.index.keyFor? id = some key ∧
      w.store.snapshot? key = some v ∧ v.id ≠ id ∧ t = { r with index := r.index.forgetId id }) := by
  obtain ⟨x, t', v, hv, hl, hx⟩ := confirm_enumerated_exec ho env w id ha
  have hlocated : x ≠ .ok none → t' = r ∨ ∃ key v, r.index.keyFor? id = some key ∧
      w.store.snapshot? key = some v ∧ v.id ≠ id ∧ t' = { r with index := r.index.forgetId id } := by
    intro hne
    cases hl with
    | hit | completed | unknown | failed => exact .inl rfl
    | absent => exact absurd rfl hne
    | stale hi hu hid => exact .inr ⟨_, _, hi, hu, hid, rfl⟩
  rcases hx with ⟨f, rfl, hexec⟩ | ⟨-, hexec⟩ | ⟨key, -, -, hexec⟩ | ⟨key, f, rfl, hrem, hexec⟩
  · rw [hexec] at h
    cases h
    exact ⟨hv.data, hlocated (by simp)⟩
  · rw [hexec] at h
    cases h
  · rw [hexec] at h
    cases h
  · rw [hexec] at h
    cases h
    exact ⟨(data_after_remove_error hrem).trans hv.data, hlocated (by simp)⟩

/-- Without faults a confirmation takes a stored key out of the store, or leaves the entries and the records alone. -/
theorem confirm_cases (ho : ∀ keys, (order keys).Perm keys) (he : env.Healthy) (ha : r.active = some p)
    (w : World) (id : String) :
    let y := ((confirm id).enumerated order).exec env r w
    (y.2.2.store.data = w.store.data ∧
        ((∀ key, r.index.keyFor? id = some key → key ∈ w.store.data) → y.2.1.records = r.records)) ∨
      (¬ r.Misled w id ∧ y.2.2.store.data ≠ w.store.data) := by
  intro y
  obtain ⟨x, t, v, hv, hl, hx⟩ := confirm_enumerated_exec ho env w id ha
  have hquiet (hstored : ∀ key, r.index.keyFor? id = some key → key ∈ w.store.data) : t.records = r.records := by
    cases hl with
    | hit | completed | unknown | failed | stale => rfl
    | @absent key hi hd => exact absurd (hstored key hi) ((getElem?_eq_none_iff ..).1 hd)
  rcases hx with ⟨f, -, hexec⟩ | ⟨-, hexec⟩ | ⟨key, rfl, hrem, hexec⟩ | ⟨key, f, -, hrem, -⟩
  · rw [show y = _ from hexec]
    exact .inl ⟨hv.data, hquiet⟩
  · rw [show y = _ from hexec]
    exact .inl ⟨hv.data, hquiet⟩
  · have hmem := hl.mem
    rw [show y = _ from hexec]
    refine .inr ⟨hl.not_misled, fun hd => ?_⟩
    rw [data_after_remove_ok hrem, hv.data] at hd
    rw [← hd] at hmem
    simp at hmem
  · exact absurd he (not_healthy_of_result_remove hrem)

/-- A confirmation that meets another exchange under the hinted key goes on as if there had been no hint. -/
theorem confirm_of_stale (ha : r.active = some p) {v : Snapshot} (hi : r.index.keyFor? id = some key)
    (hv : w.store.snapshot? key = some v) (hne : v.id ≠ id) (hc : r.index.isCompleted id = false) :
    ((confirm id).enumerated order).exec {} r w =
      ((confirm id).enumerated order).exec {} { r with index := r.index.forgetId id }
        (Environment.after {} w (.get key)) := by
  have hread : Environment.result {} w (.get key) = .ok (some v) := by
    rcases result_get_of_snapshot? {} hv with h | ⟨e, -, hf⟩
    · exact h
    · exact absurd healthy_default hf
  have hunknown : (r.index.forgetId id).keyFor? id = none := by rw [ExchangeIndex.keyFor?_forgetId, if_pos rfl]
  have hlive : (r.index.forgetId id).isCompleted id = false := by rw [ExchangeIndex.isCompleted_forgetId, hc]
  have hactive : ({ r with index := r.index.forgetId id } : Repository).active = some p := ha
  simp only [confirm, locate, enumerated_bind, enumerated_runningPolicy, enumerated_getThe, exec_bind, exec_getThe,
    runningPolicy_exec ha, runningPolicy_exec hactive, hi, hunknown, hlive, enumerated_fetch, fetch_exec, hread,
    mapError_ok, if_neg hne, enumerated_modifyThe, exec_modifyThe, Bool.false_eq_true, if_false]

/-- An id that is completed and has no hint is taken for done. -/
theorem confirm_of_completed (ha : r.active = some p) (hi : r.index.keyFor? id = none)
    (hc : r.index.isCompleted id = true) : ((confirm id).enumerated order).exec env r w = (.ok (), r, w) := by
  simp only [confirm, locate, enumerated_bind, enumerated_runningPolicy, enumerated_getThe, exec_bind, exec_getThe,
    runningPolicy_exec ha, hi, hc, if_true, enumerated_pure, exec_pure]

/-- A confirmation after a failed one leaves what a single one would have left, unless the id is taken for done. -/
theorem confirm_retried (ho : ∀ keys, (order keys).Perm keys) {faulty : Environment} {e : StoreError}
    (h : ((confirm id).enumerated order).exec faulty r w = (.error (.store e), t, u)) :
    let retried := ((confirm id).enumerated order).exec {} t u
    let once := ((confirm id).enumerated order).exec {} r w
    (Agree retried once ↔ ¬ (t.Misled u id ∧ once.2.2.store.data ≠ w.store.data)) ∧
    (t.Misled u id → once.2.2.store.data ≠ w.store.data → r.Conflicted w id ∧
      retried.1 = .ok () ∧ retried.2.2.store.data = w.store.data ∧ retried.2.1.records = r.records) := by
  intro retried once
  cases ha : r.active with
  | none =>
    have hrefused : ((confirm id).enumerated order).exec faulty r w = (.error .notRunning, r, w) := by
      rw [confirm, enumerated_bind, enumerated_runningPolicy]
      exact exec_bind_error (runningPolicy_exec_none ha)
    rw [hrefused] at h
    cases h
  | some p =>
    obtain ⟨hd, ht⟩ := confirm_failed ho ha h
    have hcases := confirm_cases ho healthy_default ha w id
    rcases ht with rfl | ⟨key, v, hi, hv, hne, rfl⟩
    · have hagree : Agree retried once := (plain_confirm id).agree t hd
      have hnot : ¬ (t.Misled u id ∧ once.2.2.store.data ≠ w.store.data) := by
        rintro ⟨hm, hremoved⟩
        rw [Misled, hd] at hm
        rcases hcases with ⟨hsame, -⟩ | ⟨hclear, -⟩
        · exact hremoved hsame
        · exact hclear hm
      exact ⟨⟨fun _ => hnot, fun _ => hagree⟩, fun hm hremoved => absurd ⟨hm, hremoved⟩ hnot⟩
    · have hdropped : (r.index.forgetId id).keyFor? id = none := by rw [ExchangeIndex.keyFor?_forgetId, if_pos rfl]
      have hmisled : Misled { r with index := r.index.forgetId id } u id ↔ r.index.isCompleted id = true := by
        rw [misled_of_keyFor?_none hdropped, ExchangeIndex.isCompleted_forgetId]
      cases hc : r.index.isCompleted id with
      | false =>
        have hnot : ¬ Misled { r with index := r.index.forgetId id } u id := by
          rw [hmisled, hc]
          exact Bool.false_ne_true
        have honce : once = _ := confirm_of_stale ha hi hv hne hc
        have hagree : Agree retried once := by
          rw [honce]
          exact (plain_confirm id).agree _ (by rw [hd, data_after_get])
        exact ⟨⟨fun _ hm => hnot hm.1, fun _ => hagree⟩, fun hm => absurd hm hnot⟩
      | true =>
        have hretried : retried = (.ok (), { r with index := r.index.forgetId id }, u) :=
          confirm_of_completed ha hdropped (by rw [ExchangeIndex.isCompleted_forgetId, hc])
        have hstored : ∀ k, r.index.keyFor? id = some k → k ∈ w.store.data := by
          intro k hk
          rw [hi] at hk
          cases hk
          exact Store.mem_of_snapshot? hv
        rw [hretried]
        refine ⟨⟨fun hagree hm => hm.2 (hagree.1.symm.trans hd), fun hnot => ?_⟩,
          fun _ _ => ⟨⟨hc, key, v, hi, hv, hne⟩, rfl, hd, rfl⟩⟩
        rcases hcases with ⟨hsame, hrecords⟩ | ⟨-, hremoved⟩
        · exact ⟨hd.trans hsame.symm, (hrecords hstored).symm⟩
        · exact absurd ⟨hmisled.2 hc, hremoved⟩ hnot

/-- A removal after a failed one leaves what a single one would have left. -/
theorem remove_retried {faulty : Environment} {e : StoreError}
    (h : ((remove key).enumerated order).exec faulty r w = (.error (.store e), t, u)) :
    Agree (((remove key).enumerated order).exec {} t u) (((remove key).enumerated order).exec {} r w) := by
  have hremove : (remove key).enumerated order = remove key := by
    simp only [remove, enumerated_bind, enumerated_runningPolicy, enumerated_erase, enumerated_modifyThe]
  rw [hremove] at h
  cases ha : r.active with
  | none =>
    have hrefused : (remove key).exec faulty r w = (.error .notRunning, r, w) :=
      exec_bind_error (runningPolicy_exec_none ha)
    rw [hrefused] at h
    cases h
  | some p =>
    rcases remove_exec faulty w key ha with ⟨-, hexec⟩ | ⟨f, hf, hexec⟩
    · rw [hexec] at h
      cases h
    · rw [hexec] at h
      cases h
      exact (plain_remove key).agree r (data_after_remove_error hf)

end Repository

/--
A call that failed can be made again. In whatever state the repositories that share a store have led it to, in
whatever order the store lists its keys and whatever faults the failed call met: if `confirm id` answers a store
error and is called again without faults, then the entries and the records are those of a single call without faults
if and only if not both the failed call has left the index misleading and the single call would have removed a key.
In that case the index had a wrong hint for an id that was completed, and the second call says yes and changes
nothing. A removal can always be made again.
-/
theorem failed_call_retried {order : KeyOrder} (ho : ∀ keys, (order keys).Perm keys) (faulty : Environment)
    (r : Repository) (w : World) (e : StoreError) (t : Repository) (u : World) :
    (∀ id, ((Repository.confirm id).enumerated order).exec faulty r w = (.error (.store e), t, u) →
      let retried := ((Repository.confirm id).enumerated order).exec {} t u
      let once := ((Repository.confirm id).enumerated order).exec {} r w
      (Agree retried once ↔ ¬ (t.Misled u id ∧ once.2.2.store.data ≠ w.store.data)) ∧
      (t.Misled u id → once.2.2.store.data ≠ w.store.data → r.Conflicted w id ∧
        retried.1 = .ok () ∧ retried.2.2.store.data = w.store.data ∧ retried.2.1.records = r.records)) ∧
    ∀ key, ((Repository.remove key).enumerated order).exec faulty r w = (.error (.store e), t, u) →
      Agree (((Repository.remove key).enumerated order).exec {} t u)
        (((Repository.remove key).enumerated order).exec {} r w) :=
  ⟨fun _ h => Repository.confirm_retried ho h, fun _ h => Repository.remove_retried h⟩

/-- A confirmation whose search met an entry that could not be read is made again, and removes the key then. -/
theorem failed_call_retried_search :
    let steps : List (Nat × Action) :=
      [(0, .start), (1, .start), (1, .add ⟨"key"⟩ { id := "exchange" } (Exchange.fits_of_id (by decide)))]
    let f := Fleet.run {} (fun _ => {}) {} steps
    let faulty : Environment := { faults := fun _ => { failing := [(.get, ⟨"key"⟩)] } }
    let confirm := (Repository.confirm "exchange").enumerated List.reverse
    let failed := confirm.exec faulty (f.repository 0) f.world
    let once := confirm.exec {} (f.repository 0) f.world
    failed.1.isOk = false ∧ Agree (confirm.exec {} failed.2.1 failed.2.2) once ∧
      (⟨"key"⟩ : CorrelationKey) ∉ once.2.2.store.data := by
  intro steps f faulty confirm failed once
  have hfailed : failed.1 = .error (.store (.backend "injected Get failure for key")) := by rfl
  have hmisled : ¬ failed.2.1.Misled failed.2.2 "exchange" := by decide +kernel
  obtain ⟨hretried, -⟩ := (failed_call_retried List.reverse_perm faulty (f.repository 0) f.world
    (.backend "injected Get failure for key") failed.2.1 failed.2.2).1 "exchange" (by rw [← hfailed])
  exact ⟨by rw [hfailed]; rfl, hretried.2 fun h => hmisled h.1, by decide +kernel⟩

/-- An exchange that is found under a third key is not confirmed there again once a failed call has dropped the hint. -/
theorem retried_confirm_keeps_third_key :
    let exchange (id : String) : Exchange := { id }
    let steps : List (Nat × Action) :=
      [(0, .start), (0, .add ⟨"first"⟩ (exchange "exchange") (Exchange.fits_of_id (by decide))),
        (0, .add ⟨"second"⟩ (exchange "exchange") (Exchange.fits_of_id (by decide))), (0, .remove ⟨"first"⟩), (1, .start),
        (1, .add ⟨"second"⟩ (exchange "other") (Exchange.fits_of_id (by decide))),
        (1, .add ⟨"third"⟩ (exchange "exchange") (Exchange.fits_of_id (by decide)))]
    let f := Fleet.run {} (fun _ => {}) {} steps
    let faulty : Environment := { faults := fun _ => { failing := [(.get, ⟨"exchange"⟩)] } }
    let confirm := Repository.confirm "exchange"
    let failed := confirm.exec faulty (f.repository 0) f.world
    let retried := confirm.exec {} failed.2.1 failed.2.2
    let once := confirm.exec {} (f.repository 0) f.world
    failed.1.isOk = false ∧ retried.1.isOk = true ∧ once.1.isOk = true ∧
      (⟨"third"⟩ : CorrelationKey) ∈ retried.2.2.store.data ∧ (⟨"third"⟩ : CorrelationKey) ∉ once.2.2.store.data := by
  decide +kernel

end DurableAggregates
