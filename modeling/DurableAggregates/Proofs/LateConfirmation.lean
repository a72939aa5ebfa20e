import DurableAggregates.Proofs.Index.Accuracy

/-!
# Late confirmations

The confirmation of an exchange can come when it is stored no more, because another one was added under its key. Then
the index of a sole writer has no entry for it, and the search of the store finds nothing, so nothing changes. One way
of locating it remains: the text of the id may be a key, and then whatever that key holds is removed
(`late_confirmation`). An exchange whose id is the text of its own key is enough for that
(`late_confirmation_takes_successor`).
-/

namespace DurableAggregates

/-- The text of the id is a stored key, and the id is not known to be completed. -/
def Repository.TakesAsKey (r : Repository) (w : World) (id : String) : Prop :=
  ⟨id⟩ ∈ w.store.data ∧ r.index.isCompleted id = false

instance (r : Repository) (w : World) (id : String) : Decidable (r.TakesAsKey w id) :=
  inferInstanceAs (Decidable (_ ∧ _))

namespace Repository

open Environment

variable {env : Environment} {r t : Repository} {w : World} {p : Policy} {id : String}

/-- Without the index an exchange that is not stored can only be taken for a key. -/
theorem Found.of_unheld {x : Except RepositoryError (Option CorrelationKey)} (h : Found env id w x)
    (hc : env.Clear w) (hh : ∀ key, ¬ w.Holds key id) :
    x = .ok (if ⟨id⟩ ∈ w.store.data then some ⟨id⟩ else none) := by
  cases h with
  | named hk => rw [if_pos hk]
  | held hn hk => exact absurd hk (hh _)
  | nowhere hn _ => rw [if_neg hn]
  | failed e hf => exact absurd hc hf

theorem Located.of_unheld {x : Except RepositoryError (Option CorrelationKey)} (h : Located env id r w x t)
    (hc : env.Clear w) (hr : r.index.Accurate w) (hh : ∀ key, ¬ w.Holds key id) :
    t = r ∧ x = .ok (if r.TakesAsKey w id then some ⟨id⟩ else none) := by
  have hindex {key : CorrelationKey} (hi : r.index.keyFor? id = some key) : False := hh key (hr.held id key hi)
  cases h with
  | hit hi => exact (hindex hi).elim
  | absent hi => exact (hindex hi).elim
  | stale hi => exact (hindex hi).elim
  | failed hi => exact (hindex hi).elim
  | completed hi hcomp =>
    refine ⟨rfl, ?_⟩
    rw [if_neg]
    rintro ⟨-, hn⟩
    rw [hcomp] at hn
    cases hn
  | unknown hi hcomp hx =>
    refine ⟨rfl, ?_⟩
    rw [hx.of_unheld hc hh]
    simp only [TakesAsKey, hcomp, and_true]

/-- A confirmation of an exchange that is not stored changes nothing or removes the key that its id is taken for. -/
theorem confirm_of_unheld (ha : r.active = some p) (hc : env.Clear w) (hr : r.index.Accurate w)
    (hh : ∀ key, ¬ w.Holds key id) :
    ∃ t u, (confirm id).exec env r w = (.ok (), t, u) ∧
      (¬ r.TakesAsKey w id → t = r ∧ u.store.data = w.store.data) ∧
      (r.TakesAsKey w id → t = (r.forget ⟨id⟩).count .confirms ∧ u.store.data = w.store.data.erase ⟨id⟩) := by
  obtain ⟨x, t, v, hv, hl, hx⟩ := confirm_exec env w id ha
  obtain ⟨rfl, rfl⟩ := hl.of_unheld hc hr hh
  by_cases hk : t.TakesAsKey w id
  · simp only [if_pos hk] at hx
    rcases hx with ⟨e, hf, -⟩ | ⟨hf, -⟩ | ⟨key, hf, hrem, he⟩ | ⟨key, e, hf, hrem, -⟩
    · cases hf
    · cases hf
    · cases hf
      refine ⟨_, _, he, fun h => absurd hk h, fun _ => ⟨rfl, ?_⟩⟩
      rw [data_after_remove_ok hrem, hv.data]
    · exact absurd hc.1 (not_healthy_of_result_remove hrem)
  · simp only [if_neg hk] at hx
    rcases hx with ⟨e, hf, -⟩ | ⟨-, he⟩ | ⟨key, hf, -⟩ | ⟨key, e, hf, -⟩
    · cases hf
    · exact ⟨_, _, he, fun _ => ⟨rfl, hv.data⟩, fun h => absurd h hk⟩
    · cases hf
    · cases hf

end Repository

/--
In every run of one repository that alone writes a store without faults: a confirmation of an exchange that is not
stored, such as one whose key got another exchange, says yes. It changes neither the entries nor the repository unless
the text of the id is a stored key and the id is not completed; then it removes that key with its record.
-/
theorem late_confirmation {env : Environment} (he : env.Healthy) (s : Setup) {w : World} (hw : w.store.Sound)
    (actions : List Action) (id : String) :
    let x := Site.run env s { world := w } actions
    let y := x.act env s (.confirm id)
    x.repository.isRunning = true → (∀ key, ¬ x.world.Holds key id) →
      y.1 = .ok .done ∧
      (¬ x.repository.TakesAsKey x.world id →
        y.2.world.store.data = x.world.store.data ∧ y.2.repository = x.repository) ∧
      (x.repository.TakesAsKey x.world id →
        y.2.world.store.data = x.world.store.data.erase ⟨id⟩ ∧
          y.2.repository.records = x.repository.records.erase ⟨id⟩) := by
  intro x y hrun hh
  have hclear : env.Clear x.world := ⟨he, Site.run_sound hw actions⟩
  obtain ⟨p, ha⟩ := Option.isSome_iff_exists.1 hrun
  obtain ⟨t, u, hx, hsame, hkey⟩ :=
    Repository.confirm_of_unheld ha hclear (Site.run_accurate env s w actions) hh
  have hact : y = (.ok .done, ⟨t, u⟩) := by
    have htask : ((Action.confirm id).task s).exec env x.repository x.world = (.ok .done, t, u) := by
      show (Repository.confirm id >>= fun _ => pure Cluster.Answer.done).exec env x.repository x.world = _
      rw [Operation.exec_bind_pure, hx]
      rfl
    show x.act env s (.confirm id) = _
    rw [Site.act, htask]
  rw [hact]
  refine ⟨rfl, fun hn => ⟨(hsame hn).2, (hsame hn).1⟩, fun hk => ⟨(hkey hk).2, ?_⟩⟩
  rw [(hkey hk).1]
  rfl

/-- A key keeps the exchange that came after the confirmed one. -/
theorem late_confirmation_keeps_successor :
    let actions : List Action :=
      [.start, .add ⟨"key"⟩ { id := "first" } (Exchange.fits_of_id (by decide)),
        .add ⟨"key"⟩ { id := "second" } (Exchange.fits_of_id (by decide))]
    let x := Site.run {} {} {} actions
    let y := x.act {} {} (.confirm "first")
    (∀ key, ¬ x.world.Holds key "first") ∧ y.1 = .ok .done ∧ y.2.world.Holds ⟨"key"⟩ "second" := by
  intro actions x y
  have hh : ∀ key, ¬ x.world.Holds key "first" := by decide +kernel
  obtain ⟨hanswer, hsame, -⟩ := late_confirmation (fun _ => rfl) {} Store.sound_empty actions "first"
    (by decide +kernel) hh
  obtain ⟨hd, -⟩ := hsame (by decide +kernel)
  have hsecond : x.world.Holds ⟨"key"⟩ "second" := by decide +kernel
  exact ⟨hh, hanswer, hsecond.congr (by rw [hd])⟩

/-- An exchange whose id is the text of its key takes its successor with it. -/
theorem late_confirmation_takes_successor :
    let actions : List Action :=
      [.start, .add ⟨"key"⟩ { id := "key" } (Exchange.fits_of_id (by decide)),
        .add ⟨"key"⟩ { id := "second" } (Exchange.fits_of_id (by decide))]
    let x := Site.run {} {} {} actions
    let y := x.act {} {} (.confirm "key")
    x.repository.isRunning = true ∧ (∀ key, ¬ x.world.Holds key "key") ∧ x.world.Holds ⟨"key"⟩ "second" ∧
      y.1.isOk = true ∧ ¬ y.2.world.Holds ⟨"key"⟩ "second" := by
  decide +kernel

end DurableAggregates
