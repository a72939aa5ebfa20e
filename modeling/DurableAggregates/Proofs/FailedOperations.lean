import DurableAggregates.Proofs.Execution.Actions

/-!
# Failed operations

An operation that fails leaves the entries of the store and the redelivery records as they were, whatever the store
holds and whatever faults it has: all that can fail comes before the first effect. There is one exception
(`Repository.Overwrites`). A put stores the new snapshot before it reads the entry that it replaced, so an exchange
that is added over an entry that stands for no snapshot is stored although the operation fails
(`failed_operation_leaves_no_trace`, `failed_add_is_stored`).
-/

namespace DurableAggregates

/-- Whether a step is one call of a repository, for aggregates or for a recovery pass. -/
def Cluster.NodeStep.isCall : Cluster.NodeStep → Bool
  | .add _ _ | .get _ | .remove _ | .confirm _ | .keys | .scan | .recover _ | .state _ | .pass => true
  | .start | .stop | .addMany _ _ _ | .removeMany _ _ _ | .confirmMany _ _ _ => false

/-- If the operation fails, the entries and the records are as they were. -/
def Operation.Traceless {α : Type} (x : Operation α) (env : Environment) (r : Repository) (w : World) : Prop :=
  ∀ e t u, x.exec env r w = (.error e, t, u) → t.records = r.records ∧ u.store.data = w.store.data

namespace Repository

open Operation Environment Cluster

variable {α β : Type} {env : Environment} {s : Setup} {r : Repository} {w : World} {p : Policy}
  {key : CorrelationKey} {id : String} {e : Exchange}

/-- The exchange can be captured and stored, but the entry that it replaces cannot be read. -/
def Overwrites (env : Environment) (r : Repository) (w : World) : NodeStep → Prop
  | .add key e => (∃ p v, r.active = some p ∧ e.capture p.allowSerializedHeaders = .ok v) ∧
      env.fault? w .put key = none ∧ w.store.Unreadable key
  | _ => False

/-! ## Operations that cannot leave a trace -/

/-- What is made of the result of an operation does not fail. -/
theorem exec_of_bind_pure_error {x : Operation α} {f : α → β} {g : RepositoryError} {t : Repository} {u : World}
    (h : (x >>= fun a => pure (f a)).exec env r w = (.error g, t, u)) : x.exec env r w = (.error g, t, u) := by
  rw [exec_bind_pure] at h
  generalize x.exec env r w = y at h ⊢
  obtain ⟨a | a, t', u'⟩ := y
  · cases h
    rfl
  · cases h

/-- No other action than an add stores anything, and what removes a key succeeds. -/
theorem traceless_action (s : Setup) (a : Action) (hadd : a.isAdd = false) (hpass : a ≠ .pass) :
    (a.task s).Traceless env r w := by
  intro e t u he
  have h := action_exec env s r w hpass
  rw [he] at h
  cases h with
  | refused => exact ⟨rfl, rfl⟩
  | quiet _ ht hv => exact ⟨ht.records, hv.data⟩
  | unconfirmed hv hl hx => exact ⟨hl.records hx, hv.data⟩
  | uncaptured | unstored => cases hadd

/-- A pass fails only where the keys cannot be listed; the failure of a key belongs to the report. -/
theorem traceless_pass : (NodeStep.pass.task s).Traceless env r w := by
  intro e t u he
  replace he : (pass s).exec env r w = (.error e, t, u) := exec_of_bind_pure_error he
  cases ha : r.active with
  | none =>
    rw [pass, exec_bind_error (runningPolicy_exec_none ha)] at he
    cases he
    exact ⟨rfl, rfl⟩
  | some p => ?_
  simp only [pass, exec_bind, runningPolicy_exec ha, exec_holding, passOver, listed_exec] at he
  cases hk : env.result w .keys with
  | error f =>
    rw [hk] at he
    cases he
    exact ⟨rfl, data_after_keys⟩
  | ok stored =>
    rw [hk] at he
    simp only [mapError_ok] at he
    split at he
    · simp only [exec_bind, exec_modifyThe, exec_lift, exec_pure] at he
      cases he
    · cases he

/-! ## Adding -/

/-- An add that fails leaves the records alone, and stores the exchange only over an entry that cannot be read. -/
theorem add_failed {f : RepositoryError} {t : Repository} {u : World}
    (h : (add key e).exec env r w = (.error f, t, u)) :
    t.records = r.records ∧ (¬ Overwrites env r w (.add key e) → u.store.data = w.store.data) ∧
      (Overwrites env r w (.add key e) → ∃ p v, r.active = some p ∧ e.capture p.allowSerializedHeaders = .ok v ∧
        u.store.data = w.store.data.insert key v.encode) := by
  cases ha : r.active with
  | none =>
    have hx : (add key e).exec env r w = (.error .notRunning, r, w) := exec_bind_error (runningPolicy_exec_none ha)
    rw [hx] at h
    cases h
    refine ⟨rfl, fun _ => rfl, ?_⟩
    rintro ⟨⟨p, v, hp, -⟩, -⟩
    rw [ha] at hp
    cases hp
  | some p =>
    rcases add_exec env w key ha e with ⟨fault, hc, hx⟩ | ⟨v, hc, ⟨g, hg, hx⟩ | ⟨y, -, hx⟩⟩
    · rw [hx] at h
      cases h
      refine ⟨rfl, fun _ => rfl, ?_⟩
      rintro ⟨⟨q, v, hq, hv⟩, -⟩
      rw [ha] at hq
      cases hq
      rw [hc] at hv
      cases hv
    · rw [hx] at h
      cases h
      have hd := data_after_put env w key v
      cases hf : env.fault? w .put key with
      | some fault =>
        rw [hf] at hd
        refine ⟨rfl, fun _ => hd, ?_⟩
        rintro ⟨-, hn, -⟩
        rw [hf] at hn
        cases hn
      | none =>
        rw [hf] at hd
        exact ⟨rfl, fun hn => absurd ⟨⟨p, v, ha, hc⟩, hf, unreadable_of_result_put hg hf⟩ hn,
          fun _ => ⟨p, v, rfl, hc, hd⟩⟩
    · rw [hx] at h
      cases h

/-! ## All operations -/

/-- Every call but an add. -/
theorem traceless_task {x : NodeStep} (hx : x.isCall = true) (hadd : ∀ key e, x ≠ .add key e) :
    (x.task s).Traceless env r w := by
  cases x with
  | add key e => exact absurd rfl (hadd key e)
  | get key => exact traceless_action s (.get key) rfl nofun
  | remove key => exact traceless_action s (.remove key) rfl nofun
  | confirm id => exact traceless_action s (.confirm id) rfl nofun
  | keys => exact traceless_action s .keys rfl nofun
  | scan => exact traceless_action s .scan rfl nofun
  | recover key => exact traceless_action s (.recover key) rfl nofun
  | state key => exact traceless_action s (.state key) rfl nofun
  | pass => exact traceless_pass
  | start | stop | addMany | removeMany | confirmMany => cases hx

end Repository

open Repository in
/--
A call that fails, in any state of a repository, on any store and under any faults, leaves the records as they were.
It leaves the entries as they were unless it adds an exchange over an entry that cannot be read; then the exchange is
stored all the same.
-/
theorem failed_operation_leaves_no_trace (env : Environment) (s : Setup) (r : Repository) (w : World)
    {x : Cluster.NodeStep} (hx : x.isCall = true) {f : RepositoryError} {t : Repository} {u : World}
    (h : (x.task s).exec env r w = (.error f, t, u)) :
    t.records = r.records ∧ (¬ Overwrites env r w x → u.store.data = w.store.data) ∧
      ∀ key e, x = .add key e → Overwrites env r w x →
        ∃ p v, r.active = some p ∧ e.capture p.allowSerializedHeaders = .ok v ∧
          u.store.data = w.store.data.insert key v.encode ∧ (e.Fits → u.store.data ≠ w.store.data) := by
  cases x with
  | add key e =>
    obtain ⟨hr, hclean, hover⟩ := add_failed (exec_of_bind_pure_error (f := Cluster.Answer.exchange) h)
    refine ⟨hr, hclean, fun key' e' he ho => ?_⟩
    cases he
    obtain ⟨p, v, ha, hc, hd⟩ := hover ho
    refine ⟨p, v, ha, hc, hd, fun hfits heq => ?_⟩
    -- The entry that stands there now can be read, the one before could not.
    obtain ⟨-, -, bytes, g, hb, hg⟩ := ho
    have hv : (w.store.data.insert key v.encode)[key]? = some bytes := by rw [← hd, heq, hb]
    rw [Std.ExtTreeMap.getElem?_insert_self] at hv
    cases hv
    rw [Snapshot.decode_encode (Exchange.fits_of_capture hc hfits)] at hg
    cases hg
  | _ =>
    obtain ⟨hr, hd⟩ := traceless_task hx (by simp) f t u h
    exact ⟨hr, fun _ => hd, by simp⟩

/-- A confirmation that fails at the search leaves the entry that it could not read. -/
theorem failed_confirm_leaves_no_trace :
    let s : Setup := {}
    let r := ((Cluster.NodeStep.start.task s).exec {} {} {}).2.1
    let w : World := { store := { data := (∅ : KeyMap (List UInt8)).insert ⟨"key"⟩ [0xff] } }
    let y := ((Cluster.NodeStep.confirm "exchange").task s).exec {} r w
    y.1.isOk = false ∧ y.2.1.records = r.records ∧ y.2.2.store.data = w.store.data := by
  intro s r w y
  have hy : y.1 = .error (.store (.serialization "Snapshot codec error: io error: unexpected end of file")) := by
    rfl
  obtain ⟨hr, hd, -⟩ := failed_operation_leaves_no_trace {} s r w (x := .confirm "exchange") rfl
    (show y = (_, y.2.1, y.2.2) by rw [← hy])
  exact ⟨by rw [hy]; rfl, hr, hd id⟩

/-- An exchange is stored over an entry that cannot be read although the add fails. -/
theorem failed_add_is_stored :
    let s : Setup := {}
    let r := ((Cluster.NodeStep.start.task s).exec {} {} {}).2.1
    let w : World := { store := { data := (∅ : KeyMap (List UInt8)).insert ⟨"key"⟩ [0xff] } }
    let y := ((Cluster.NodeStep.add ⟨"key"⟩ { id := "exchange" }).task s).exec {} r w
    y.1.isOk = false ∧ y.2.2.store.data.toList ≠ w.store.data.toList := by
  decide +kernel

end DurableAggregates
