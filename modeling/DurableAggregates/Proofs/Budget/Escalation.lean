import DurableAggregates.Proofs.Execution.Steps

/-!
# What an escalation has cost

A pass counts an attempt before it reads the key, so a pass that cannot read it spends a redelivery that never
happens. `passesTracked` are the reports of the passes since the record of a key was made, as the history tells them.
As long as the budget lasts each of them lists the key as redelivered or as failed (`Counted`), and it is the first
so many that spend the budget. A key that is moved out was redelivered as often as was promised if and only if none of
these passes failed to read it (`escalation_cost`); a single fault is enough for an escalation without any redelivery
(`escalation_without_redelivery`).
-/

namespace DurableAggregates

/-- The reports since the record of the key was made, with the one of a pass that has just ended. -/
def KeyView.tracked (b c : KeyView) (rep? : Option Report) (past : List Report) : List Report :=
  match b.record, c.record with
  | _, none => []
  | none, some _ => rep?.toList
  | some _, some _ => past ++ rep?.toList

theorem KeyView.tracked_of_none {b c : KeyView} (hc : c.record = none) (rep? : Option Report) (past : List Report) :
    b.tracked c rep? past = [] := by
  unfold tracked
  rw [hc]

def Moment.tracked (key : CorrelationKey) (past : List Report) (m : Moment) : List Report :=
  (m.before.view key).tracked (m.after.view key) m.report? past

/-- The reports of the passes since the record of the key was made, the first first; none if there is no record. -/
def passesTracked (key : CorrelationKey) (past : List Moment) : List Report := past.foldl (Moment.tracked key) []

theorem passesTracked_concat (key : CorrelationKey) (past : List Moment) (m : Moment) :
    passesTracked key (past ++ [m]) = m.tracked key (passesTracked key past) := by
  rw [passesTracked, List.foldl_append]
  rfl

/-! ## The step of one key -/

/-- How many of the passes have listed the key. -/
def listings (key : CorrelationKey) (l : Listing) (past : List Report) : Nat := past.countP (key ∈ ·.list l)

theorem listings_concat {key : CorrelationKey} {rep : Report} {l? : Option Listing}
    (hl : ∀ l, key ∈ rep.list l ↔ l? = some l) (l : Listing) (past : List Report) :
    listings key l (past ++ [rep]) = listings key l past + if l? = some l then 1 else 0 := by
  simp only [listings, List.countP_append, List.countP_singleton, decide_eq_true_eq, hl]

/--
The record has counted every pass since it was made. Each of those within the budget has listed the key as redelivered
or as failed, and no later one as redelivered.
-/
structure Counted (maximum : Nat) (key : CorrelationKey) (past : List Report) (record : Option Record) : Prop where
  attempts : record.elim 0 Record.attempts = min past.length Record.limit
  spent : listings key .redelivered past + listings key .failed (past.take maximum) = min past.length maximum
  untracked : record = none → past = []

namespace Counted

variable {env : Environment} {s : Setup} {p : Policy} {key : CorrelationKey} {past : List Report} {b c : KeyView}
  {maximum : Nat}

theorem nil : Counted maximum key [] none := ⟨rfl, by simp [listings], fun _ => rfl⟩

/-- The next attempt comes after as many as there were passes. -/
theorem next_eq (h : Counted maximum key past b.record) : b.next = min (past.length + 1) Record.limit := by
  rw [KeyView.next, h.attempts]
  omega

/-- One more pass that observes the key and does not move it out. -/
theorem observed (h : Counted p.maximumRedeliveries key past b.record) (hp : s.policy? = .ok p) {rep : Report}
    {record : Record} (hr : record.attempts = b.next) {l : Listing} (hl : ∀ l', key ∈ rep.list l' ↔ some l = some l')
    (hcase : (l = .redelivered ∧ b.next ≤ p.maximumRedeliveries) ∨ l = .failed) :
    Counted p.maximumRedeliveries key (past ++ [rep]) (some record) := by
  have hmax := Setup.maximumRedeliveries_lt hp
  have hnext := h.next_eq
  refine ⟨?_, ?_, fun hn => by cases hn⟩
  · rw [List.length_append, List.length_singleton, Option.elim_some, hr, hnext]
  · have hspent := h.spent
    rw [List.length_append, List.length_singleton, listings_concat hl]
    by_cases hlen : past.length < p.maximumRedeliveries
    -- The budget lasts, so the pass spends one redelivery, wherever it lists the key.
    · rw [List.take_of_length_le (by simp; omega), listings_concat hl]
      rw [List.take_of_length_le (by omega)] at hspent
      rcases hcase with ⟨rfl, -⟩ | rfl
      · rw [if_pos rfl, if_neg (by simp)]
        omega
      · rw [if_neg (by simp), if_pos rfl]
        omega
    · rw [List.take_append_of_le_length (by omega)]
      rcases hcase with ⟨-, hle⟩ | rfl
      · omega
      · rw [if_neg (by simp)]
        omega

/-- One more pass, whatever it does with the key. -/
theorem passed (h : Counted p.maximumRedeliveries key past b.record) (hp : s.policy? = .ok p) {rep : Report}
    {l? : Option Listing} (hk : KeyPass env s p key b l? c) (hl : ∀ l, key ∈ rep.list l ↔ l? = some l) :
    Counted p.maximumRedeliveries key (b.tracked c (some rep) past) c.record := by
  have htracked (record : Record) (hc : c.record = some record) : b.tracked c (some rep) past = past ++ [rep] := by
    unfold KeyView.tracked
    rw [hc]
    cases hb : b.record with
    | none =>
      rw [h.untracked hb]
      rfl
    | some _ => rfl
  cases hk with
  | absent | moved =>
    rw [KeyView.tracked_of_none rfl]
    exact .nil
  | unread hf record hr =>
    rw [htracked record rfl]
    exact h.observed hp hr hl (.inr rfl)
  | handed bytes v he hv hn record hr =>
    rw [htracked record rfl]
    exact h.observed hp hr hl (.inl ⟨rfl, hn⟩)
  | refused bytes v he hv hn hf letter e record hr | kept bytes v he hv hn hf record hr =>
    rw [htracked record rfl]
    exact h.observed hp hr hl (.inr rfl)

/-- Every action counts. -/
theorem step (h : Counted p.maximumRedeliveries key past b.record) (hp : s.policy? = .ok p) (hu : p.useRecovery = true)
    {rep? : Option Report} (hk : KeyStep env s key b rep? c) :
    Counted p.maximumRedeliveries key (b.tracked c rep? past) c.record := by
  have hsame (hc : c.record = b.record) : b.tracked c none past = past := by
    unfold KeyView.tracked
    rw [hc]
    cases hb : b.record with
    | none => exact (h.untracked hb).symm
    | some _ => exact List.append_nil past
  cases rep? with
  | none =>
    cases hk with
    | kept | stored =>
      rw [hsame rfl]
      exact h
    | dropped =>
      rw [KeyView.tracked_of_none rfl]
      exact .nil
  | some rep =>
    obtain ⟨l?, hkey, hl⟩ := hk.of_report hp hu
    exact h.passed hp hkey hl

end Counted

/-! ## Runs -/

/-- In every run, under any faults and any answers of the sink, the record of a key has counted its passes. -/
theorem counted_run (env : Environment) {s : Setup} {p : Policy} (hp : s.policy? = .ok p) (hu : p.useRecovery = true)
    (w : World) (actions : List Action) (key : CorrelationKey) :
    Counted p.maximumRedeliveries key (passesTracked key (Site.history env s { world := w } actions))
      ((Site.run env s { world := w } actions).view key).record := by
  refine (Site.run_induction (x := { world := w })
    (P := fun past x => x.repository.Follows s ∧
      Counted p.maximumRedeliveries key (passesTracked key past) (x.view key).record)
    ⟨Repository.follows_new s, ?_⟩ ?_ actions).2
  · have hnone : (Site.view { world := w } key).record = none := by simp [Site.view, Repository.view]
    rw [hnone]
    exact .nil
  · rintro past x a ⟨hf, hc⟩
    refine ⟨hf.act env x.world a, ?_⟩
    rw [passesTracked_concat]
    exact hc.step hp hu (Site.keyStep hf env a key)

/-- A key is moved out only by an attempt beyond the budget. -/
theorem KeyPass.exhausted {env : Environment} {s : Setup} {p : Policy} {key : CorrelationKey} {b c : KeyView}
    {l? : Option Listing} (h : KeyPass env s p key b l? c) (hl : l? = some .deadLettered ∨ l? = some .discarded) :
    p.maximumRedeliveries < b.next := by
  cases h with
  | absent | unread | handed | refused | kept => rcases hl with hl | hl <;> cases hl
  | moved bytes v he hv hn => exact hn

/--
The cost of an escalation, in every run under any faults and any answers of the sink. When a pass moves a key out, at
least as many passes as the budget has redeliveries have ended since the record of the key was made. They have listed
the key as redelivered once for each of the first so many of them that did not list it as failed. So the key was
redelivered as often as was promised if and only if none of these has failed to read it.
-/
theorem escalation_cost (env : Environment) (s : Setup) (w : World) (actions : List Action) (key : CorrelationKey) :
    let x := Site.run env s { world := w } actions
    let past := passesTracked key (Site.history env s { world := w } actions)
    let maximum := s.config.maximumRedeliveries.toInt.toNat
    ∀ rep, (x.moment env s .pass).report? = some rep → key ∈ rep.deadLettered ∨ key ∈ rep.discarded →
      maximum ≤ past.length ∧
      past.countP (key ∈ ·.redelivered) + (past.take maximum).countP (key ∈ ·.failed) = maximum ∧
      (past.countP (key ∈ ·.redelivered) = maximum ↔ ∀ rep ∈ past.take maximum, key ∉ rep.failed) := by
  intro x past maximum rep hreport hgone
  have hf : x.repository.Follows s := Site.run_follows actions
  have hstep := Site.keyStep hf env .pass key
  rw [hreport] at hstep
  generalize (x.act env s .pass).2.view key = c at hstep
  cases hstep with
  | idle p hp hu rep hl =>
    rcases hgone with hgone | hgone
    · exact absurd hgone (hl .deadLettered)
    · exact absurd hgone (hl .discarded)
  | passed p hp hu rep l? c hkey hl =>
    have hmax : p.maximumRedeliveries = maximum := (Config.policy?_eq_ok (Setup.policy?_eq_ok hp).1).2.1
    have hc : Counted p.maximumRedeliveries key past (x.view key).record := counted_run env hp hu w actions key
    have hnext := hkey.exhausted (hgone.imp (hl .deadLettered).1 (hl .discarded).1)
    rw [hc.next_eq] at hnext
    rw [hmax] at hc hnext
    have hlen : maximum ≤ past.length := by omega
    have hspent := hc.spent
    rw [Nat.min_eq_right hlen] at hspent
    have hzero : listings key .failed (past.take maximum) = 0 ↔ ∀ rep ∈ past.take maximum, key ∉ rep.failed := by
      simp only [listings, List.countP_eq_zero, decide_eq_true_eq]
      rfl
    refine ⟨hlen, hspent, ?_⟩
    rw [← hzero]
    show listings key .redelivered past = maximum ↔ _
    omega

/-- A key that every pass could read was redelivered as often as was promised before it is discarded. -/
theorem escalation_of_readable :
    let s : Setup := { config := { maximumRedeliveries := 1 } }
    let actions : List Action :=
      [.start, .add ⟨"key"⟩ { id := "exchange" } (Exchange.fits_of_id (by decide)), .pass]
    ((Site.run {} s {} actions).moment {} s .pass).report? = some { scanned := 1, discarded := [⟨"key"⟩] } ∧
      (passesTracked ⟨"key"⟩ (Site.history {} s {} actions)).countP (⟨"key"⟩ ∈ ·.redelivered) = 1 := by
  intro s actions
  have hreport : ((Site.run {} s {} actions).moment {} s .pass).report? =
      some { scanned := 1, discarded := [⟨"key"⟩] } := by
    decide +kernel
  obtain ⟨-, -, hiff⟩ := escalation_cost {} s {} actions ⟨"key"⟩ _ hreport (.inr (List.mem_singleton_self _))
  exact ⟨hreport, hiff.2 (by decide +kernel)⟩

/-- One reading that fails is enough to discard a key without the only redelivery that was promised. -/
theorem escalation_without_redelivery :
    let s : Setup := { config := { maximumRedeliveries := 1 } }
    let env : Environment := { faults := fun n => if n = 2 then { failing := [(.get, ⟨"key"⟩)] } else {} }
    let actions : List Action :=
      [.start, .add ⟨"key"⟩ { id := "exchange" } (Exchange.fits_of_id (by decide)), .pass]
    ((Site.run env s {} actions).moment env s .pass).report? = some { scanned := 1, discarded := [⟨"key"⟩] } ∧
      passesTracked ⟨"key"⟩ (Site.history env s {} actions) = [{ scanned := 1, failed := [⟨"key"⟩] }] ∧
      (passesTracked ⟨"key"⟩ (Site.history env s {} actions)).countP (⟨"key"⟩ ∈ ·.redelivered) ≠
        s.config.maximumRedeliveries.toInt.toNat := by
  decide +kernel

end DurableAggregates
