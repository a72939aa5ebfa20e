import DurableAggregates.Proofs.Execution.Runs

/-!
# When an acknowledgement is lost

A confirmation should take one key that holds the exchange out of the store. It does so unless the index of the
repository misleads it: by an entry for a key that is not stored, or by a completed id that was stored again
(`confirm_removes_iff`). Then it answers that all is well and the exchange stays. An exchange that was added under two
keys gets there by the removal of one of them (`confirm_keeps_second_key`).
-/

namespace DurableAggregates

namespace Repository

/-- The index does not let the repository look for the id in the store. -/
def Misled (r : Repository) (w : World) (id : String) : Prop :=
  match r.index.keyFor? id with
  | some key => key ∉ w.store.data
  | none => r.index.isCompleted id = true

variable {env : Environment} {r t : Repository} {w : World} {p : Policy} {id : String}

theorem misled_of_keyFor? {key : CorrelationKey} (h : r.index.keyFor? id = some key) :
    r.Misled w id ↔ key ∉ w.store.data := by
  rw [Misled, h]

theorem misled_of_keyFor?_none (h : r.index.keyFor? id = none) :
    r.Misled w id ↔ r.index.isCompleted id = true := by
  rw [Misled, h]

instance (r : Repository) (w : World) (id : String) : Decidable (r.Misled w id) :=
  match h : r.index.keyFor? id with
  | some key => decidable_of_iff (key ∉ w.store.data) (misled_of_keyFor? h).symm
  | none => decidable_of_iff (r.index.isCompleted id = true) (misled_of_keyFor?_none h).symm

/-- An exchange that can be read is found where the search for it begins. -/
theorem Found.of_held {x : Except RepositoryError (Option CorrelationKey)} (h : Found env id w x) (hc : env.Clear w)
    (hn : ⟨id⟩ ∉ w.store.data) (hk : ∃ key, w.Holds key id) : ∃ key, x = .ok (some key) ∧ w.Holds key id := by
  cases h with
  | named hs => exact absurd hs hn
  | held hn hh => exact ⟨_, rfl, hh⟩
  | nowhere hn hh =>
    obtain ⟨key, hkey⟩ := hk
    exact absurd hkey (hh key)
  | failed e hf => exact absurd hc hf

/-- A key that holds the exchange is located unless the index misleads the repository. -/
theorem Located.of_held {x : Except RepositoryError (Option CorrelationKey)} (h : Located env id r w x t)
    (hc : env.Clear w) (hn : ⟨id⟩ ∉ w.store.data) (hk : ∃ key, w.Holds key id) :
    (r.Misled w id ∧ x = .ok none) ∨ (¬ r.Misled w id ∧ ∃ key, x = .ok (some key) ∧ w.Holds key id) := by
  cases h with
  | hit hi hh => exact .inr ⟨fun hm => (misled_of_keyFor? hi).1 hm hh.mem, _, rfl, hh⟩
  | absent hi hd =>
    exact .inl ⟨(misled_of_keyFor? hi).2 ((getElem?_eq_none_iff ..).1 hd), rfl⟩
  | stale hi hv hne hx =>
    exact .inr ⟨fun hm => (misled_of_keyFor? hi).1 hm (Store.mem_of_snapshot? hv), hx.of_held hc hn hk⟩
  | completed hi hcomp => exact .inl ⟨(misled_of_keyFor?_none hi).2 hcomp, rfl⟩
  | unknown hi hcomp hx =>
    refine .inr ⟨fun hm => ?_, hx.of_held hc hn hk⟩
    rw [misled_of_keyFor?_none hi, hcomp] at hm
    cases hm
  | failed hi e hf => exact absurd hc hf

/-- A confirmation of an exchange that is stored succeeds, and removes a key or changes nothing. -/
theorem confirm_of_held (ha : r.active = some p) (hc : env.Clear w) (hn : ⟨id⟩ ∉ w.store.data)
    (hk : ∃ key, w.Holds key id) :
    ∃ t u, (confirm id).exec env r w = (.ok (), t, u) ∧ ((r.Misled w id ∧ u.store.data = w.store.data) ∨
      (¬ r.Misled w id ∧ ∃ key, w.Holds key id ∧ u.store.data = w.store.data.erase key)) := by
  obtain ⟨x, t, v, hv, hl, hx⟩ := confirm_exec env w id ha
  rcases hl.of_held hc hn hk with ⟨hm, rfl⟩ | ⟨hm, key, rfl, hh⟩
  · rcases hx with ⟨e, hf, -⟩ | ⟨-, he⟩ | ⟨key, hf, -⟩ | ⟨key, e, hf, -⟩
    · cases hf
    · exact ⟨t, v, he, .inl ⟨hm, hv.data⟩⟩
    · cases hf
    · cases hf
  · rcases hx with ⟨e, hf, -⟩ | ⟨hf, -⟩ | ⟨k, hf, hr, he⟩ | ⟨k, e, hf, hr, -⟩
    · cases hf
    · cases hf
    · cases hf
      refine ⟨_, _, he, .inr ⟨hm, key, hh, ?_⟩⟩
      rw [Environment.data_after_remove_ok hr, hv.data]
    · exact absurd hc.1 (Environment.not_healthy_of_result_remove hr)

end Repository

/--
In every run of any number of repositories on a store without faults: a running repository that is asked to confirm an
exchange that is stored, by an id that is no key, says yes. Exactly one key that holds the exchange leaves the store
if and only if the index does not mislead the repository, and otherwise nothing leaves it.
-/
theorem confirm_removes_iff {env : Environment} (he : env.Healthy) (setup : Nat → Setup) {w : World}
    (hw : w.store.Sound) (steps : List (Nat × Action)) (i : Nat) (id : String) :
    let f := Fleet.run env setup { world := w } steps
    let after := (f.act env setup i (.confirm id)).2
    (f.repository i).isRunning = true → ⟨id⟩ ∉ f.world.store.data → (∃ key, f.world.Holds key id) →
      (f.act env setup i (.confirm id)).1 = .ok .done ∧
      ((∃ key, f.world.Holds key id ∧ after.world.store.data = f.world.store.data.erase key) ↔
        ¬ (f.repository i).Misled f.world id) ∧
      ((f.repository i).Misled f.world id → after.world.store.data = f.world.store.data) := by
  intro f after hr hn hk
  obtain ⟨-, hs⟩ := Fleet.run_invariant env setup hw steps
  obtain ⟨p, ha⟩ := Option.isSome_iff_exists.1 hr
  obtain ⟨t, u, hx, hcases⟩ := Repository.confirm_of_held ha ⟨he, hs⟩ hn hk
  have hact : (Action.confirm id |>.task (setup i)).exec env (f.repository i) f.world = (.ok .done, t, u) := by
    show (Repository.confirm id >>= fun _ => pure Cluster.Answer.done).exec env (f.repository i) f.world = _
    rw [Operation.exec_bind_pure, hx]
    rfl
  have hu : after.world = u := by
    show ((Action.confirm id |>.task (setup i)).exec env (f.repository i) f.world).2.2 = u
    rw [hact]
  refine ⟨by show ((Action.confirm id |>.task (setup i)).exec env (f.repository i) f.world).1 = _; rw [hact], ?_⟩
  rw [hu]
  rcases hcases with ⟨hm, hd⟩ | ⟨hm, hd⟩
  · refine ⟨⟨fun ⟨key, hh, hk⟩ => ?_, fun h => absurd hm h⟩, fun _ => hd⟩
    have hmem := hh.mem
    rw [← hd, hk] at hmem
    simp at hmem
  · exact ⟨⟨fun _ => hm, fun _ => hd⟩, fun h => absurd h hm⟩

/-- A repository that added an exchange once removes it on the confirmation. -/
theorem confirm_removes_added :
    let steps : List (Nat × Action) :=
      [(0, .start), (0, .add ⟨"key"⟩ { id := "exchange" } (Exchange.fits_of_id (by decide)))]
    let f := Fleet.run {} (fun _ => {}) {} steps
    let after := (f.act {} (fun _ => {}) 0 (.confirm "exchange")).2
    ∃ key, f.world.Holds key "exchange" ∧ after.world.store.data = f.world.store.data.erase key :=
  ((confirm_removes_iff (fun _ => rfl) (fun _ => {}) Store.sound_empty _ 0 "exchange" (by decide +kernel)
    (by decide +kernel) ⟨⟨"key"⟩, by decide +kernel⟩).2.1).2 (by decide +kernel)

/-- An exchange that was added under two keys cannot be confirmed under the first once the second is removed. -/
theorem confirm_keeps_second_key :
    let steps : List (Nat × Action) :=
      [(0, .start), (0, .add ⟨"first"⟩ { id := "exchange" } (Exchange.fits_of_id (by decide))),
        (0, .add ⟨"second"⟩ { id := "exchange" } (Exchange.fits_of_id (by decide))), (0, .remove ⟨"second"⟩)]
    let f := Fleet.run {} (fun _ => {}) {} steps
    let confirmed := f.act {} (fun _ => {}) 0 (.confirm "exchange")
    (f.repository 0).isRunning = true ∧ (⟨"exchange"⟩ : CorrelationKey) ∉ f.world.store.data ∧
      f.world.Holds ⟨"first"⟩ "exchange" ∧ confirmed.1.isOk = true ∧
      confirmed.2.world.store.data.toList = f.world.store.data.toList := by
  decide +kernel

end DurableAggregates
