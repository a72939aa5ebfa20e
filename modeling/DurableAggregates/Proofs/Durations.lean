import DurableAggregates.Proofs.Execution.Runs

/-!
# Durations of a configuration

An option holds whole milliseconds, so a duration that is given to a configuration is cut to the last whole one, and
beyond the width of the option to its largest value (`Duration.CutTo`). The policy of a repository that was started
with the configuration has the same numbers (`durations_reach_policy`). Since an interval of zero stands for passes on
demand, an interval of less than a millisecond, but not zero, turns scheduled passes off
(`short_interval_schedules_nothing`).
-/

namespace DurableAggregates

/-! ## Cutting to whole milliseconds -/

namespace Duration

/-- A duration comes to a number of whole milliseconds, of which there are at most `limit`. -/
structure CutTo (d : Duration) (limit n : Nat) : Prop where
  not_longer : n * 1_000_000 ≤ d.nanoseconds
  near : d.nanoseconds ≤ limit * 1_000_000 → d.nanoseconds < (n + 1) * 1_000_000
  saturated : limit * 1_000_000 < d.nanoseconds → n = limit

theorem cutTo_min (d : Duration) (limit : Nat) : d.CutTo limit (min d.milliseconds limit) := by
  have hle : d.milliseconds * 1_000_000 ≤ d.nanoseconds := Nat.div_mul_le_self d.nanoseconds 1_000_000
  have hlt : d.nanoseconds < (d.milliseconds + 1) * 1_000_000 :=
    Nat.lt_mul_of_div_lt (Nat.lt_succ_self _) (by decide)
  rcases Nat.le_total d.milliseconds limit with hlimit | hlimit
  · rw [Nat.min_eq_left hlimit]
    refine ⟨hle, fun _ => hlt, fun h => ?_⟩
    omega
  · rw [Nat.min_eq_right hlimit]
    refine ⟨(Nat.mul_le_mul_right _ hlimit).trans hle, fun h => h.trans_lt ?_, fun _ => rfl⟩
    exact Nat.mul_lt_mul_of_pos_right (Nat.lt_succ_self limit) (by decide)

namespace CutTo

variable {d e : Duration} {limit m n : Nat}

theorem le_limit (h : d.CutTo limit n) : n ≤ limit := by
  have hle := h.not_longer
  rcases Nat.lt_or_ge (limit * 1_000_000) d.nanoseconds with hd | hd
  · exact Nat.le_of_eq (h.saturated hd)
  · omega

theorem mono (hd : d.CutTo limit m) (he : e.CutTo limit n) (h : d.nanoseconds ≤ e.nanoseconds) : m ≤ n := by
  rcases Nat.lt_or_ge (limit * 1_000_000) e.nanoseconds with hlong | hshort
  · rw [he.saturated hlong]
    exact hd.le_limit
  · have hle := hd.not_longer
    have hlt := he.near hshort
    omega

/-- What is left of a duration is zero unless a whole millisecond has passed. -/
theorem pos_iff (h : d.CutTo limit n) (hlimit : 0 < limit) : 0 < n ↔ 1_000_000 ≤ d.nanoseconds := by
  have hle := h.not_longer
  constructor
  · intro hn
    omega
  · intro hd
    rcases Nat.lt_or_ge (limit * 1_000_000) d.nanoseconds with hlong | hshort
    · rwa [h.saturated hlong]
    · have hlt := h.near hshort
      omega

end CutTo

end Duration

/-! ## The options of a configuration -/

namespace Config

variable {c : Config} {p : Policy}

theorem policy?_eq_ok_iff : c.policy? = .ok p ↔ ¬ c.maximumRedeliveries < 0 ∧ ¬ c.recoveryIntervalMillis < 0 ∧ p = {
    useRecovery := c.useRecovery
    interval := c.recoveryIntervalMillis.toInt.toNat
    maximumRedeliveries := c.maximumRedeliveries.toInt.toNat
    deadLetterUri := c.deadLetterUri
    allowSerializedHeaders := c.allowSerializedHeaders
    shutdownTimeout := c.shutdownTimeoutMillis.toNat } := by
  unfold policy?
  split
  · simp_all
  split
  · simp_all
  · simp_all [eq_comm]

/-- An interval that is given as a duration is always valid. -/
theorem policy?_withRecoveryInterval {n : Int64} (h : (c.withRecoveryIntervalMillis n).policy? = .ok p)
    (d : Duration) : (c.withRecoveryInterval d).policy? =
      .ok { p with interval := min d.milliseconds 0x7fff_ffff_ffff_ffff } := by
  have hint : (Int64.ofNat (min d.milliseconds 0x7fff_ffff_ffff_ffff)).toInt =
      (min d.milliseconds 0x7fff_ffff_ffff_ffff : Nat) := Int64.toInt_ofNat_of_lt (by omega)
  obtain ⟨hmax, -, rfl⟩ := policy?_eq_ok_iff.1 h
  refine policy?_eq_ok_iff.2 ⟨hmax, ?_, ?_⟩
  · rw [withRecoveryInterval, Int64.lt_iff_toInt_lt, hint, Int64.toInt_zero]
    omega
  · rw [withRecoveryInterval, hint]
    rfl

theorem policy?_withShutdownTimeout (h : c.policy? = .ok p) (d : Duration) :
    (c.withShutdownTimeout d).policy? =
      .ok { p with shutdownTimeout := min d.milliseconds 0xffff_ffff_ffff_ffff } := by
  have htimeout : (UInt64.ofNat (min d.milliseconds 0xffff_ffff_ffff_ffff)).toNat =
      min d.milliseconds 0xffff_ffff_ffff_ffff :=
    UInt64.toNat_ofNat_of_lt' (Nat.lt_of_le_of_lt (Nat.min_le_right ..) (by decide))
  obtain ⟨hmax, hinterval, rfl⟩ := policy?_eq_ok_iff.1 h
  refine policy?_eq_ok_iff.2 ⟨hmax, hinterval, ?_⟩
  rw [withShutdownTimeout, htimeout]

end Config

/-! ## Running repositories -/

/-- The sink is enough to decide whether a valid configuration makes a valid setup. -/
theorem Setup.policy?_of_config {s : Setup} {p : Policy} (h : s.config.policy? = .ok p)
    (hsink : p.deadLetterUri ≠ none → p.useRecovery = true → s.hasSink = true) : s.policy? = .ok p := by
  unfold policy?
  rw [h]
  cases ha : p.deadLetterUri with
  | none => simp [ha]
  | some uri =>
    have hpresent : p.useRecovery = true → s.hasSink = true := hsink (by simp [ha])
    simpa [ha] using hpresent

/-- The configuration is valid, and a repository that has the sink it needs starts with the policy. -/
structure Config.Governs (c : Config) (p : Policy) : Prop where
  valid : c.policy? = .ok p
  started : ∀ s : Setup, s.config = c → (p.deadLetterUri ≠ none → p.useRecovery = true → s.hasSink = true) →
    ∀ (env : Environment) (r : Repository) (w : World), r.isRunning = false →
      ∃ t, (Repository.start s).exec env r w = (.ok (), t, w) ∧ t.active = some p

theorem Config.governs {c : Config} {p : Policy} (h : c.policy? = .ok p) : c.Governs p := by
  refine ⟨h, fun s hc hsink env r w hr => ?_⟩
  have hp : s.policy? = .ok p := Setup.policy?_of_config (by rw [hc, h]) hsink
  rcases Repository.start_exec env s r w with ⟨hrun, -⟩ | ⟨e, f, he, -⟩ | ⟨q, hq, hx⟩
  · rw [hr] at hrun
    cases hrun
  · rw [hp] at he
    cases he
  · rw [hp] at hq
    cases hq
    exact ⟨_, hx, rfl⟩

/--
The durations of a configuration in the policy of a running repository. Whatever interval is given to a configuration
that is valid with some interval, and whatever timeout to a valid one, the configuration stays valid, a repository
starts with it, and nothing else in its policy changes. The number of milliseconds is the largest that is not longer
than the duration, up to the width of the option, and a longer duration never gives a smaller number. Passes are
scheduled if and only if the interval is at least a millisecond.
-/
theorem durations_reach_policy (c : Config) :
    (∀ n p, (c.withRecoveryIntervalMillis n).policy? = .ok p → p.useRecovery = true →
      ∃ interval : Duration → Nat,
        (∀ d, (c.withRecoveryInterval d).Governs { p with interval := interval d }) ∧
        (∀ d : Duration, d.CutTo (2 ^ 63 - 1) (interval d)) ∧
        (∀ d e, d.nanoseconds ≤ e.nanoseconds → interval d ≤ interval e) ∧
        ∀ d, { p with interval := interval d }.schedulesPasses = true ↔ 1_000_000 ≤ d.nanoseconds) ∧
    ∀ p, c.policy? = .ok p →
      ∃ timeout : Duration → Nat,
        (∀ d, (c.withShutdownTimeout d).Governs { p with shutdownTimeout := timeout d }) ∧
        (∀ d : Duration, d.CutTo (2 ^ 64 - 1) (timeout d)) ∧
        ∀ d e, d.nanoseconds ≤ e.nanoseconds → timeout d ≤ timeout e := by
  refine ⟨fun n p hp hrecovery => ?_, fun p hp => ?_⟩
  · let interval (d : Duration) : Nat := min d.milliseconds (2 ^ 63 - 1)
    have hcut (d : Duration) : d.CutTo (2 ^ 63 - 1) (interval d) := d.cutTo_min _
    refine ⟨interval, fun d => ?_, hcut, fun d e => (hcut d).mono (hcut e), fun d => ?_⟩
    · exact Config.governs (Config.policy?_withRecoveryInterval hp d)
    · rw [← (hcut d).pos_iff (by decide), Nat.pos_iff_ne_zero]
      simp [Policy.schedulesPasses, hrecovery]
  · let timeout (d : Duration) : Nat := min d.milliseconds (2 ^ 64 - 1)
    have hcut (d : Duration) : d.CutTo (2 ^ 64 - 1) (timeout d) := d.cutTo_min _
    refine ⟨timeout, fun d => ?_, hcut, fun d e => (hcut d).mono (hcut e)⟩
    exact Config.governs (Config.policy?_withShutdownTimeout hp d)

/-- Almost two milliseconds come to one, and the longest duration of all to the largest number. -/
theorem durations_reach_policy_cut :
    ∃ p q r : Policy,
      (({} : Config).withRecoveryInterval ⟨1_999_999⟩).Governs p ∧ p.interval = 1 ∧ p.schedulesPasses = true ∧
      (({} : Config).withRecoveryInterval (.ofParts (2 ^ 64 - 1) 999_999_999)).Governs q ∧
        q.interval = 2 ^ 63 - 1 ∧
      (({} : Config).withShutdownTimeout ⟨1_999_999⟩).Governs r ∧ r.shutdownTimeout = 1 := by
  obtain ⟨interval, hruns, hcut, -, hschedules⟩ := (durations_reach_policy {}).1 5000 _ rfl rfl
  obtain ⟨timeout, hruns', hcut', -⟩ := (durations_reach_policy {}).2 _ rfl
  have hone {limit n : Nat} (h : Duration.CutTo ⟨1_999_999⟩ limit n) (hlimit : 2 ≤ limit) : n = 1 := by
    have hle := h.not_longer
    have hlt := h.near
    simp only at hle hlt
    omega
  exact ⟨_, _, _, hruns _, hone (hcut _) (by decide), (hschedules _).2 (by decide), hruns _,
    (hcut _).saturated (by decide), hruns' _, hone (hcut' _) (by decide)⟩

/-- Half a millisecond is not zero, and yet no passes are scheduled. -/
theorem short_interval_schedules_nothing :
    let d : Duration := ⟨500_000⟩
    d.nanoseconds ≠ 0 ∧ ∃ p, (({} : Config).withRecoveryInterval d).policy? = .ok p ∧ p.useRecovery = true ∧
      p.schedulesPasses = false :=
  ⟨by decide, _, rfl, rfl, rfl⟩

end DurableAggregates
