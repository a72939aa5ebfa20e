import DurableAggregates.Proofs.Execution.Steps
import DurableAggregates.Proofs.Index.Exactness
import DurableAggregates.Proofs.LateConfirmation

/-!
# Confirmations by a sole writer

A repository that alone writes a store without faults, and never has an exchange under two keys, confirms exactly what
is asked for: the key that holds the exchange leaves the store with its record, and where no key holds it nothing
changes (`confirm_exact`). So the index only saves the search of the store. A repository that knows nothing and always
searches comes to the same entries and the same records, whatever was forgotten, completed or evicted before.

The one thing that can mislead such a repository is an id that is the text of a key which holds another exchange; the
theorem leaves that out, as `late_confirmation` says what happens then.
-/

namespace DurableAggregates

/-- The site with an index that knows nothing, so that an exchange to confirm is searched for in the store. -/
def Site.unindexed (x : Site) : Site := { x with repository := { x.repository with index := {} } }

namespace Repository

open Environment

variable {env : Environment} {r t : Repository} {w : World} {p : Policy} {key : CorrelationKey} {id : String}

/-! ## Locating a stored exchange -/

/-- With an exact index an exchange that is stored is located by its hint. -/
theorem Located.of_noted {x : Except RepositoryError (Option CorrelationKey)} (h : Located env id r w x t)
    (hc : env.Clear w) (hr : r.index.Exact w) (hk : w.Holds key id) : t = r ∧ x = .ok (some key) := by
  have hi : r.index.keyFor? id = some key := (hr.keyFor?_iff id key).2 hk
  refine ⟨h.eq_of_exact hr, ?_⟩
  cases h with
  | @hit k hi' hh =>
    rw [hi] at hi'
    cases hi'
    rfl
  | absent hi' hd => exact absurd ((hr.keyFor?_iff _ _).1 hi') (World.not_holds_of_absent hd)
  | stale hi' hv hne => exact absurd ((hr.keyFor?_iff _ _).1 hi') (World.not_holds_of_id_ne hv hne)
  | completed hi' =>
    rw [hi] at hi'
    cases hi'
  | unknown hi' =>
    rw [hi] at hi'
    cases hi'
  | failed hi' e hf => exact absurd hc hf

/-- Without an index the search locates the one key that holds the exchange. -/
theorem Located.of_search {x : Except RepositoryError (Option CorrelationKey)} (h : Located env id r w x t)
    (hc : env.Clear w) (hx : r.index = {}) (hu : w.Unshared) (hn : ⟨id⟩ ∈ w.store.data → w.Holds ⟨id⟩ id)
    (hk : w.Holds key id) : t = r ∧ x = .ok (some key) := by
  have hi (k : CorrelationKey) : r.index.keyFor? id ≠ some k := by
    rw [hx]
    simp [ExchangeIndex.keyFor?]
  cases h with
  | hit hi' => exact absurd hi' (hi _)
  | absent hi' => exact absurd hi' (hi _)
  | stale hi' => exact absurd hi' (hi _)
  | failed hi' => exact absurd hi' (hi _)
  | completed _ hcomp =>
    rw [hx] at hcomp
    simp [ExchangeIndex.isCompleted] at hcomp
  | unknown _ _ hf =>
    refine ⟨rfl, ?_⟩
    cases hf with
    | named hm => rw [hu key ⟨id⟩ id hk (hn hm)]
    | held _ hh => rw [hu key _ id hk hh]
    | nowhere _ hh => exact absurd hk (hh key)
    | failed e hf => exact absurd hc hf

/-- A confirmation that locates a key removes it with its record. -/
theorem confirm_of_located (ha : r.active = some p) (he : env.Healthy)
    (h : ∀ x t, Located env id r w x t → t = r ∧ x = .ok (some key)) :
    ∃ u, (confirm id).exec env r w = (.ok (), (r.forget key).count .confirms, u) ∧
      u.store.data = w.store.data.erase key := by
  obtain ⟨x, t, v, hv, hl, hx⟩ := confirm_exec env w id ha
  obtain ⟨rfl, rfl⟩ := h x t hl
  rcases hx with ⟨e, hf, -⟩ | ⟨hf, -⟩ | ⟨k, hf, hrem, hexec⟩ | ⟨k, e, hf, hrem, -⟩
  · cases hf
  · cases hf
  · cases hf
    refine ⟨_, hexec, ?_⟩
    rw [data_after_remove_ok hrem, hv.data]
  · exact absurd he (not_healthy_of_result_remove hrem)

/--
A confirmation removes the key that holds the exchange with its record, and changes nothing where no key holds it, if
the index either is exact or knows nothing.
-/
theorem confirm_effect (ha : r.active = some p) (hc : env.Clear w) (hu : w.Unshared)
    (hr : r.index.Exact w ∨ r.index = {}) (hn : ⟨id⟩ ∈ w.store.data → w.Holds ⟨id⟩ id) :
    ∃ t u, (confirm id).exec env r w = (.ok (), t, u) ∧
      (∀ key, w.Holds key id → u.store.data = w.store.data.erase key ∧ t.records = r.records.erase key) ∧
      ((∀ key, ¬ w.Holds key id) → u.store.data = w.store.data ∧ t.records = r.records) := by
  by_cases hk : ∃ key, w.Holds key id
  · obtain ⟨key, hk⟩ := hk
    have hlocated : ∀ x t, Located env id r w x t → t = r ∧ x = .ok (some key) := by
      intro x t hl
      rcases hr with hr | hr
      · exact hl.of_noted hc hr hk
      · exact hl.of_search hc hr hu hn hk
    obtain ⟨u, hexec, hd⟩ := confirm_of_located ha hc.1 hlocated
    refine ⟨_, u, hexec, ?_, ?_⟩
    · intro k hk'
      obtain rfl := hu key k id hk hk'
      exact ⟨hd, rfl⟩
    · intro hnone
      exact absurd hk (hnone key)
  · have hh : ∀ key, ¬ w.Holds key id := fun key hkey => hk ⟨key, hkey⟩
    have hacc : r.index.Accurate w := by
      rcases hr with hr | hr
      · exact ⟨hr.paired, fun i k hi => (hr.keyFor?_iff i k).1 hi⟩
      · rw [hr]
        exact ExchangeIndex.accurate_empty w
    obtain ⟨t, u, hexec, hsame, -⟩ := confirm_of_unheld ha hc hacc hh
    have htaken : ¬ r.TakesAsKey w id := by
      rintro ⟨hm, -⟩
      exact hh _ (hn hm)
    obtain ⟨rfl, hd⟩ := hsame htaken
    refine ⟨t, u, hexec, ?_, ?_⟩
    · intro key hkey
      exact absurd hkey (hh key)
    · intro _
      exact ⟨hd, rfl⟩

end Repository

/-! ## Runs -/

/--
In every run of a repository that alone writes a store without faults, and in which no exchange is ever stored under
two keys: let the text of an id be no stored key, unless that key holds the exchange. Then a running repository says
yes to the confirmation of the id. The key that holds the exchange leaves the store with its record, and nothing else
changes in either; where no key holds the exchange nothing changes at all. With an index that knows nothing, so that
the whole store is searched, the answer, the entries and the records would be the same.
-/
theorem confirm_exact {env : Environment} (he : env.Healthy) (s : Setup) (actions : List Action)
    (hu : ∀ m ∈ Site.history env s {} actions, m.after.world.Unshared) (id : String) :
    let x := Site.run env s {} actions
    let y := x.act env s (.confirm id)
    let z := x.unindexed.act env s (.confirm id)
    (⟨id⟩ ∈ x.world.store.data → x.world.Holds ⟨id⟩ id) →
      (x.repository.isRunning = true → y.1 = .ok .done ∧
        (∀ key, x.world.Holds key id → y.2.world.store.data = x.world.store.data.erase key ∧
          y.2.repository.records = x.repository.records.erase key) ∧
        ((∀ key, ¬ x.world.Holds key id) → y.2.world.store.data = x.world.store.data ∧
          y.2.repository.records = x.repository.records)) ∧
      (x.repository.isRunning = false → y = (.error .notRunning, x)) ∧
      z.1 = y.1 ∧ z.2.world.store.data = y.2.world.store.data ∧ z.2.repository.records = y.2.repository.records := by
  intro x y z hn
  have hexact : x.repository.index.Exact x.world := Site.run_exact he s actions hu
  have hclear : env.Clear x.world := ⟨he, Site.run_sound Store.sound_empty actions⟩
  cases ha : x.repository.active with
  | none =>
    have hy : y = (.error .notRunning, x) := Site.act_of_stopped rfl ha
    have hz : z = (.error .notRunning, x.unindexed) := Site.act_of_stopped rfl ha
    refine ⟨?_, fun _ => hy, ?_⟩
    · intro hr
      rw [Repository.isRunning, ha] at hr
      cases hr
    · rw [hy, hz]
      exact ⟨rfl, rfl, rfl⟩
  | some p =>
    obtain ⟨t, u, hexec, hheld, hunheld⟩ :=
      Repository.confirm_effect ha hclear hexact.unshared (.inl hexact) hn
    obtain ⟨t', u', hexec', hheld', hunheld'⟩ :=
      Repository.confirm_effect (r := x.unindexed.repository) ha hclear hexact.unshared (.inr rfl) hn
    have hy : y = (.ok .done, ⟨t, u⟩) := by
      show x.act env s (.confirm id) = _
      rw [Site.act_confirm, hexec]
      rfl
    have hz : z = (.ok .done, ⟨t', u'⟩) := by
      show x.unindexed.act env s (.confirm id) = _
      rw [Site.act_confirm, show x.unindexed.world = x.world from rfl, hexec']
      rfl
    rw [hy, hz]
    refine ⟨fun _ => ⟨rfl, hheld, hunheld⟩, ?_, rfl, ?_⟩
    · intro hr
      rw [Repository.isRunning, ha] at hr
      cases hr
    · by_cases hk : ∃ key, x.world.Holds key id
      · obtain ⟨key, hk⟩ := hk
        obtain ⟨hd, hrec⟩ := hheld key hk
        obtain ⟨hd', hrec'⟩ := hheld' key hk
        exact ⟨hd'.trans hd.symm, hrec'.trans hrec.symm⟩
      · have hh : ∀ key, ¬ x.world.Holds key id := fun key hkey => hk ⟨key, hkey⟩
        obtain ⟨hd, hrec⟩ := hunheld hh
        obtain ⟨hd', hrec'⟩ := hunheld' hh
        exact ⟨hd'.trans hd.symm, hrec'.trans hrec.symm⟩

/-- An exchange that was completed under one key and added again under another is confirmed there. -/
theorem confirm_exact_moved :
    let actions : List Action :=
      [.start, .add ⟨"first"⟩ { id := "exchange" } (Exchange.fits_of_id (by decide)),
        .add ⟨"other"⟩ { id := "neighbour" } (Exchange.fits_of_id (by decide)), .pass, .remove ⟨"first"⟩,
        .add ⟨"second"⟩ { id := "exchange" } (Exchange.fits_of_id (by decide)), .pass]
    let x := Site.run {} {} {} actions
    let y := x.act {} {} (.confirm "exchange")
    x.world.Holds ⟨"second"⟩ "exchange" ∧ y.1 = .ok .done ∧
      y.2.world.store.data = x.world.store.data.erase ⟨"second"⟩ ∧
      y.2.repository.records = x.repository.records.erase ⟨"second"⟩ := by
  intro actions x y
  have hu : ∀ m ∈ Site.history {} {} {} actions, m.after.world.Unshared := by decide +kernel
  have hh : x.world.Holds ⟨"second"⟩ "exchange" := by decide +kernel
  have hn : (⟨"exchange"⟩ : CorrelationKey) ∉ x.world.store.data := by decide +kernel
  obtain ⟨hrunning, -⟩ := confirm_exact (fun _ => rfl) {} actions hu "exchange" (fun hm => absurd hm hn)
  obtain ⟨hanswer, hheld, -⟩ := hrunning (by decide +kernel)
  obtain ⟨hdata, hrecords⟩ := hheld ⟨"second"⟩ hh
  exact ⟨hh, hanswer, hdata, hrecords⟩

end DurableAggregates
