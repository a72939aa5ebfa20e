import DurableAggregates.Proofs.Execution.Steps

/-!
# A pass loses nothing

Whatever faults a pass meets, whatever is in the store, and however the sink answers: an entry is left as it is or is
removed, and it is removed if and only if the report lists its key as dead-lettered or discarded. A dead-lettered key
had its exchange accepted by the sink during the pass, a discarded one has no sink to go to, and both have spent their
budget (`pass_loses_nothing`). Each of these facts is first one about the step of a single key.
-/

namespace DurableAggregates

/-! ## The step of one key -/

namespace KeyPass

open Repository

variable {env : Environment} {s : Setup} {p : Policy} {key : CorrelationKey} {b c : KeyView} {l? : Option Listing}

/-- A stored key is removed if and only if it is listed as dead-lettered or discarded. -/
theorem removed_iff (h : KeyPass env s p key b l? c) (hb : b.entry ≠ none) :
    c.entry = none ↔ l? = some .deadLettered ∨ l? = some .discarded := by
  cases h with
  | absent he => exact absurd he hb
  | unread | handed | refused | kept => exact ⟨fun hc => absurd hc hb, fun hl => by rcases hl with hl | hl <;> cases hl⟩
  | moved =>
    refine ⟨fun _ => ?_, fun _ => rfl⟩
    unfold lastListing
    split
    · exact .inl rfl
    · exact .inr rfl

/-- The sink has accepted the exchange of a key that is listed as dead-lettered, and nothing else for the key. -/
theorem deadLettered (h : KeyPass env s p key b (some .deadLettered) c) :
    ∃ uri bytes v, sinkAddress? s p = some uri ∧ b.entry = some bytes ∧ Snapshot.decode bytes = .ok v ∧
      p.maximumRedeliveries < b.next ∧ c.letters = b.letters ++ [(s.letter uri key v.restore b.next, .ok ())] := by
  generalize hl : some Listing.deadLettered = l? at h
  cases h with
  | absent | unread | handed | refused | kept => cases hl
  | moved bytes v he hv hn =>
    cases ha : sinkAddress? s p with
    | some uri => exact ⟨uri, bytes, v, rfl, he, hv, hn, by simp [accepted, ha]⟩
    | none =>
      rw [lastListing, ha] at hl
      cases hl

/-- A key that is listed as discarded has no address to go to. -/
theorem discarded (h : KeyPass env s p key b (some .discarded) c) :
    sinkAddress? s p = none ∧ p.maximumRedeliveries < b.next := by
  generalize hl : some Listing.discarded = l? at h
  cases h with
  | absent | unread | handed | refused | kept => cases hl
  | moved bytes v he hv hn =>
    cases ha : sinkAddress? s p with
    | some uri =>
      rw [lastListing, ha] at hl
      cases hl
    | none => exact ⟨rfl, hn⟩

end KeyPass

/-! ## A whole pass -/

/--
A pass of a reachable repository with any records, on any store, under any faults and any answers of the sink. It
leaves an entry as it is or removes it. If it fails, or if recovery is off, it changes nothing. If it ends with a
report, a stored key is removed if and only if the report lists it as dead-lettered or discarded; a dead-lettered key
had exactly one letter in this pass, which the sink accepted, with the exchange that was stored and a number of
attempts beyond the budget; a discarded key is beyond its budget, and no dead letter address is configured.
-/
theorem pass_loses_nothing {s : Setup} {r : Repository} (hr : Reachable s r) (records : KeyMap Record)
    (env : Environment) (w : World) :
    ∃ x t u, (Repository.pass s).exec env { r with records } w = (x, t, u) ∧
      (∀ key : CorrelationKey, u.store.data[key]? = w.store.data[key]? ∨ u.store.data[key]? = none) ∧
      (s.config.useRecovery = false ∨ (∃ e, x = .error e) → w.Reads u ∧ t.records = records) ∧
      ∀ rep, x = .ok rep → ∀ key,
        (key ∈ w.store.data → (key ∉ u.store.data ↔ key ∈ rep.deadLettered ∨ key ∈ rep.discarded)) ∧
        (key ∈ rep.deadLettered → ∃ bytes v letter,
          w.store.data[key]? = some bytes ∧ Snapshot.decode bytes = .ok v ∧
          u.letters.filter (·.1.key = key) = w.letters.filter (·.1.key = key) ++ [(letter, .ok ())] ∧
          letter.key = key ∧ letter.exchange = v.restore ∧
          s.config.maximumRedeliveries.toInt < letter.attempts) ∧
        (key ∈ rep.discarded → s.config.maximumRedeliveries.toInt < Repository.nextAttempt { r with records } key ∧
          s.config.deadLetterUri = none) := by
  have hf : Repository.Follows s { r with records } := hr.follows
  rcases hf.pass_cases env w with ⟨-, he⟩ | ⟨p, x, t, u, -, hp, he, h⟩
  · exact ⟨_, _, _, he, fun key => .inl rfl, fun _ => ⟨.refl w, rfl⟩, fun rep hx => by cases hx⟩
  refine ⟨x, t, u, he, h.entry, ?_⟩
  cases h with
  | unlisted e hh => exact ⟨fun _ => ⟨World.reads_keys env w, rfl⟩, fun rep hx => by cases hx⟩
  | idle hu n =>
    refine ⟨fun _ => ⟨World.reads_keys env w, rfl⟩, fun rep hx key => ?_⟩
    cases hx
    refine ⟨fun hk => ?_, fun hk => absurd hk List.not_mem_nil, fun hk => absurd hk List.not_mem_nil⟩
    rw [Environment.data_after_keys]
    exact ⟨fun hn => absurd hk hn, fun hl => by rcases hl with hl | hl <;> cases hl⟩
  | completed hu rep t u ha hkeys =>
    obtain ⟨hc, -⟩ := Setup.policy?_eq_ok hp
    obtain ⟨huse, hmax, huri⟩ := Config.policy?_eq_ok hc
    refine ⟨fun h => ?_, fun rep' hx key => ?_⟩
    · rcases h with h | ⟨e, h⟩
      · rw [← huse, hu] at h
        cases h
      · cases h
    cases hx
    obtain ⟨l?, h, hl⟩ := hkeys key
    have hmem := Report.mem_list hl
    refine ⟨fun hk => ?_, fun hk => ?_, fun hk => ?_⟩
    · rw [Std.ExtTreeMap.mem_iff_isSome_getElem?] at hk
      rw [Std.ExtTreeMap.mem_iff_isSome_getElem?, Option.not_isSome_iff_eq_none]
      exact (h.removed_iff (Option.isSome_iff_ne_none.1 hk)).trans (or_congr (hmem _) (hmem _)).symm
    · obtain rfl := (hmem .deadLettered).1 hk
      obtain ⟨uri, bytes, v, -, hb, hv, hn, hletters⟩ := h.deadLettered
      refine ⟨bytes, v, _, hb, hv, hletters, rfl, rfl, ?_⟩
      show _ < ((KeyView.next _ : Nat) : Int)
      omega
    · obtain rfl := (hmem .discarded).1 hk
      obtain ⟨ha, hn⟩ := h.discarded
      rw [Setup.sinkAddress?_eq hp hu, huri] at ha
      refine ⟨?_, ha⟩
      have hnext : (Repository.view { r with records } w key).next =
          Repository.nextAttempt { r with records } key := rfl
      omega

/-- A repository that was started, on a store with an entry that cannot be read. -/
theorem pass_keeps_broken_entry :
    let s : Setup := { config := { maximumRedeliveries := 0 } }
    let w : World := { store := { data := (∅ : KeyMap (List UInt8)).insert ⟨"broken"⟩ [1] } }
    ∃ x t u, (Repository.pass s).exec {} { ((Action.start.task s).exec {} {} {}).2.1 with records := ∅ } w = (x, t, u) ∧
      (∀ key : CorrelationKey, u.store.data[key]? = w.store.data[key]? ∨ u.store.data[key]? = none) ∧
      ∀ rep, x = .ok rep →
        (⟨"broken"⟩ ∉ u.store.data ↔ ⟨"broken"⟩ ∈ rep.deadLettered ∨ ⟨"broken"⟩ ∈ rep.discarded) := by
  intro s w
  obtain ⟨x, t, u, he, hd, -, h⟩ := pass_loses_nothing (Reachable.act (s := s) .new {} {} .start) ∅ {} w
  exact ⟨x, t, u, he, hd, fun rep hx => (h rep hx ⟨"broken"⟩).1 (by decide +kernel)⟩

end DurableAggregates
