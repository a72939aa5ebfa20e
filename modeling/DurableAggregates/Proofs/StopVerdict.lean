import DurableAggregates.Proofs.Shutdown.Draining

/-!
# The verdict of a stop

A stop waits until its scheduler has ended, and from then on for the outstanding redeliveries: it looks every ten
milliseconds until none is outstanding or its timeout has passed. `stop_verdict` says when it returns and what, whatever
the redeliveries and a pass of the scheduler take, as long as nothing else is called.
-/

namespace DurableAggregates

open Cluster (Answer NodeStep)
open Relation (ReflTransGen)
open Repository (pollInterval polls stopFailure)

namespace Cluster

variable {f : Nat → Cluster} {n i a b : Nat} {c : Cluster} {s : Setup} {p : Policy} {outcome : Except String Unit}
  {sent : Nat → Multiset (CorrelationKey × Exchange)}

theorem polls_bounds (timeout : Nat) :
    timeout ≤ pollInterval * polls timeout ∧ pollInterval * polls timeout < timeout + pollInterval := by
  unfold polls pollInterval
  omega

/-! ## What a stop comes to -/

/-- What a node has dispatched up to a point of a course. -/
def dispatched (f : Nat → Cluster) (sent : Multiset (CorrelationKey × Exchange)) (n j : Nat) :
    Multiset (CorrelationKey × Exchange) := (∑ k ∈ Finset.range j, (f k).dispatching n) + sent

/-- A stop has found nothing outstanding, at a look in time, and has returned how the scheduler had ended. -/
structure Completes (f : Nat → Cluster) (n i timeout : Nat) (sent : Multiset (CorrelationKey × Exchange))
    (outcome : Except String Unit) (a b : Nat) : Prop where
  /-- At all looks before something was outstanding. -/
  now : ∃ k ≤ polls timeout, (f b).now = (f a).now + pollInterval * k ∧ Busy f n a b k
  rest : (f b).outstanding n = 0
  result : (f b).result? i = some (.ofExcept (drained outcome))
  heard : ((f b).node n).heard = told (joinFailures outcome) ((f 0).node n).heard
  /-- What was dispatched was handed over, each exchange once, -/
  delivered : Multiset.ofList ((f b).node n).delivered = dispatched f sent n b
  /-- and nothing is handed over before the next start. -/
  settled : ∀ d, ReflTransGen (Unstarted n) (f b) d → (d.node n).delivered = ((f b).node n).delivered

/-- A stop has found something outstanding at all its looks, and has returned how much. -/
structure TimesOut (f : Nat → Cluster) (n i timeout : Nat) (outcome : Except String Unit) (a b : Nat) : Prop where
  now : (f b).now = (f a).now + pollInterval * polls timeout
  busy : Busy f n a b (polls timeout + 1)
  running : (f b).outstanding n ≠ 0
  result : (f b).result? i = some (.failed (.shutdownTimeout ((f b).outstanding n)))
  heard : ((f b).node n).heard =
    told (stopFailure (.shutdownTimeout ((f b).outstanding n)) :: joinFailures outcome) ((f 0).node n).heard

/--
How a stop comes out that is called at the begin of a course: the scheduler has ended, as the outcome says, at the
point `a`, and the stop has returned at the point `b`.
-/
structure StopVerdict (f : Nat → Cluster) (n i timeout : Nat) (sent : Multiset (CorrelationKey × Exchange))
    (outcome : Except String Unit) (a b : Nat) : Prop where
  /-- The repository counts the redeliveries that have begun and not ended. -/
  counted : ∀ j, ((f j).node n).repository.inFlight = (f j).outstanding n
  /-- So there is something to subtract from at the end of each. -/
  positive : ∀ j, ∀ x ∈ ((f j).view n).tasks, x.role = .redelivery → 0 < ((f j).node n).repository.inFlight
  ended : ((f a).node n).join? = some outcome
  alive : ∀ j < a, ((f j).node n).join? = none
  le : a ≤ b
  pending : ∀ j < b, (f j).result? i = none
  /-- The last look is at the first multiple of the poll interval that is no less than the timeout. -/
  last : timeout ≤ pollInterval * polls timeout ∧ pollInterval * polls timeout < timeout + pollInterval
  verdict : Completes f n i timeout sent outcome a b ∨ TimesOut f n i timeout outcome a b
  /-- If all has ended before the timeout the stop completes. -/
  inTime : (∀ j, a ≤ j → (f a).now + timeout ≤ (f j).now → (f j).outstanding n = 0) →
    Completes f n i timeout sent outcome a b
  /-- If something goes on after the last look the stop times out. -/
  late : (∃ j, (f a).now + pollInterval * polls timeout < (f j).now ∧ (f j).outstanding n ≠ 0) →
    TimesOut f n i timeout outcome a b
  quiet : ((f b).node n).Quiet

/-- Where a stop has returned and nothing is outstanding, nobody goes on. -/
theorem Winding.idle (h : c.Winding n i) (hq : (c.node n).Quiet) {result : Result} (hr : c.result? i = some result)
    (hnone : c.outstanding n = 0) : (c.view n).Idle := by
  obtain ⟨hordered, -⟩ := h.tended.views n h.known
  have htasks (x : Task) (hx : x ∈ (c.view n).tasks) : False := by
    rcases h.alone x (mem_crowd.2 ⟨n, h.known, hx⟩) with hid | hrole | ⟨hrole, -⟩
    · have hpending := h.pending hx hid
      rw [hr] at hpending
      cases hpending
    · exact Multiset.countP_eq_zero.1 hnone x hx hrole
    · exact h.tended.unscheduled_of_quiet h.known hq hx hrole
  refine ⟨hq.active, List.eq_nil_iff_forall_not_mem.2 fun k hk => ?_, fun x hx => (htasks x hx).elim⟩
  obtain ⟨x, hx, -⟩ := hordered.known .pass k hk
  exact htasks x hx

end Cluster

open Cluster (StopVerdict Uninterrupted)

/--
A stop is called, that is, it is its turn, while the repository runs, and nothing else is under way but redeliveries and
the scheduler. Then it returns: with a timeout and how many redeliveries are outstanding, if some are at the last look,
else with how the scheduler has crashed, if it has, else well.
-/
theorem stop_verdict {f : Nat → Cluster} {n i : Nat} {s : Setup} {p : Policy}
    {sent : Nat → Multiset (CorrelationKey × Exchange)} (hf : Uninterrupted f) (h : (f 0).Tracked sent)
    (hn : n < (f 0).nodes.length) (hp : ((f 0).node n).repository.active = some p)
    (hcall : (f 0).ready.head? = some { id := i, node := n, role := .awaited, body := NodeStep.stop.task s })
    (halone : ∀ x ∈ (f 0).crowd, x.id = i ∨ x.role = .redelivery ∨ x.role = .scheduler ∧ x.node = n) :
    ∃ outcome a b, StopVerdict f n i p.shutdownTimeout (sent n) outcome a b := by
  have hwinding : (f 0).Winding n i := ⟨h.tended, h.reached.inOrder, hn, halone⟩
  obtain ⟨a, b, outcome, hjoin, halive, ⟨time, hwait⟩, hdrained, hend, hquiet⟩ :=
    hf.stops ⟨hwinding, List.head?_eq_some_iff.1 hcall⟩ hp
  have hknown (j : Nat) : (f j).Tended ∧ n < (f j).nodes.length := by
    obtain ⟨htended, hlength⟩ := hf.known h.tended j
    exact ⟨htended, hlength ▸ hn⟩
  have hcounted (j : Nat) := (hknown j).1.outstanding_eq (hknown j).2
  have hpositive (j : Nat) (x : Cluster.Task) (hx : x ∈ ((f j).view n).tasks) (hrole : x.role = .redelivery) :
      0 < ((f j).node n).repository.inFlight := by
    rw [hcounted j]
    exact Multiset.countP_pos.2 ⟨x, hx, hrole⟩
  have hheard := hwait.heard
  rw [Cluster.told_nil] at hheard
  have hpending {l : Nat} {es : List RouteError} (hpassage : Cluster.Passage f n i a b l es) (j : Nat) (hj : j < b) :
      (f j).result? i = none :=
    (Nat.lt_or_ge j a).elim (hwait.pending j (Nat.zero_le j)) fun hge => hpassage.pending j hge hj
  have hlast := Cluster.polls_bounds p.shutdownTimeout
  refine ⟨outcome, a, b, ?_⟩
  cases hdrained with
  | @idle k hk hpassage hbusy hnone hresult =>
    have hcompletes : Cluster.Completes f n i p.shutdownTimeout (sent n) outcome a b :=
      { now := ⟨k, hk, hpassage.now, hbusy⟩
        rest := hnone
        result := hresult
        heard := by rw [hpassage.heard, hheard]
        delivered := by
          have hbalance := (h.uninterrupted hf b).balance (hknown b).2
          rw [(hknown b).1.owed_eq_zero (hknown b).2 hnone, add_zero] at hbalance
          exact hbalance
        settled := fun d hd =>
          Cluster.delivered_of_idle (hknown b).1 (hknown b).2 (hend.idle hquiet hresult hnone) hd }
    refine ⟨hcounted, hpositive, hjoin, halive, hpassage.le, hpending hpassage, hlast, .inl hcompletes,
      fun _ => hcompletes, ?_, hquiet⟩
    rintro ⟨j, hnow, hout⟩
    -- After the return nothing is begun any more.
    have hbj : b ≤ j := Nat.le_of_not_le fun hjb => by
      have hmono : (f j).now ≤ (f b).now := hf.now_mono hjb
      have hlook := Nat.mul_le_mul_left pollInterval hk
      have hreturn := hpassage.now
      omega
    have hended := ((hf.after hend hquiet.active hresult hbj).1.ended (by
      rw [Cluster.Node.join?, hquiet.scheduler]
      exact Option.some_ne_none _)).2
    rw [hcounted, hcounted, hnone] at hended
    exact absurd (Nat.le_zero.1 hended) hout
  | late hpassage hbusy hsome hresult =>
    have htimes : Cluster.TimesOut f n i p.shutdownTimeout outcome a b :=
      { now := hpassage.now
        busy := hbusy
        running := hsome
        result := hresult
        heard := by rw [hpassage.heard, hheard] }
    refine ⟨hcounted, hpositive, hjoin, halive, hpassage.le, hpending hpassage, hlast, .inr htimes, fun hall => ?_,
      fun _ => htimes, hquiet⟩
    exact absurd (hall b hpassage.le (by rw [hpassage.now]; exact Nat.add_le_add_left hlast.1 _)) hsome

namespace Cluster

theorem uninterrupted_proceed (c : Cluster) : Uninterrupted fun j => proceed^[j] c :=
  fun _ => ⟨_, .refl _, Function.iterate_succ_apply' ..⟩

/-- Something is called at a node, and then tasks go on for a while. -/
theorem Tracked.call {c : Cluster} {sent : Nat → Multiset (CorrelationKey × Exchange)} (h : c.Tracked sent)
    (hn : n < c.nodes.length) (x : NodeStep) (k : Nat) :
    ∃ sent', (Cluster.proceed^[k] (c.begin (.node n x)).2).Tracked sent' ∧
      n < (Cluster.proceed^[k] (c.begin (.node n x)).2).nodes.length := by
  have hbegin := h.begin (x := .node n x) hn
  have hlength := ((uninterrupted_proceed _).known hbegin.tended k).2
  exact ⟨_, hbegin.uninterrupted (uninterrupted_proceed _) k, hlength ▸ hn⟩

/-- Where no other task can go on, what is begun has its turn next. -/
theorem head_begin {c : Cluster} (h : c.ready = []) (n : Nat) (x : NodeStep) : (c.begin (.node n x)).2.ready.head? =
    some { id := c.next, node := n, role := .awaited, body := x.task (c.node n).setup } := by
  show (c.ready ++ [_]).head? = _
  rw [h]
  rfl

/-- A repository with a shutdown timeout, whose engine takes its time. -/
def slow (timeout : UInt64) : Cluster :=
  { delays := { keys := 2 }
    nodes := [{
      config := { recoveryIntervalMillis := 5, shutdownTimeoutMillis := timeout }
      engine := some { delay := 30 } }] }

/-- Its scheduler waits, in a pass, for the keys of the store. -/
def scanning (timeout : UInt64) : Cluster :=
  let c := proceed^[5] ((slow timeout).begin (.node 0 .start)).2
  proceed^[6] (c.begin (.node 0 (.add ⟨"key"⟩ { id := "exchange" }))).2

/-- It is stopped then. -/
def stopping (timeout : UInt64) (j : Nat) : Cluster := proceed^[j] ((scanning timeout).begin (.node 0 .stop)).2

theorem tracked_stopping (timeout : UInt64) :
    ∃ sent, (stopping timeout 0).Tracked sent ∧ 0 < (stopping timeout 0).nodes.length := by
  have h₀ : Tracked (slow timeout) fun _ => 0 :=
    .initial ⟨rfl, rfl, rfl, fun x hx => by rw [List.mem_singleton.1 hx]; exact ⟨rfl, rfl, rfl, rfl⟩⟩
      fun x hx => by rw [List.mem_singleton.1 hx]
  obtain ⟨_, h₁, hn⟩ := h₀.call Nat.zero_lt_one .start 5
  obtain ⟨_, h₂, hn⟩ := h₁.call hn (.add ⟨"key"⟩ { id := "exchange" }) 6
  exact h₂.call (c := scanning timeout) hn .stop 0

/-- Where all is at rest, time does not pass. -/
theorem proceed_of_rest {c : Cluster} (hr : c.ready.length = 0) (hs : c.sleeping.length = 0) : c.proceed = c := by
  rw [Cluster.proceed, List.eq_nil_of_length_eq_zero hr, List.isEmpty_nil, if_pos rfl, wakeNext,
    List.eq_nil_of_length_eq_zero hs]

theorem now_le_of_rest {c : Cluster} {k : Nat} (hr : (proceed^[k] c).ready.length = 0)
    (hs : (proceed^[k] c).sleeping.length = 0) (j : Nat) : (proceed^[j] c).now ≤ (proceed^[k] c).now := by
  rcases Nat.le_total j k with hj | hj
  · exact (uninterrupted_proceed c).now_mono hj
  · obtain ⟨l, rfl⟩ := Nat.exists_eq_add_of_le' hj
    rw [Function.iterate_add_apply, Function.iterate_fixed (proceed_of_rest hr hs)]

end Cluster

open Cluster (stopping scanning)

/-- The pass that the scheduler is in dispatches an exchange, which is handed over after 30 milliseconds. -/
theorem stop_verdict_of_scan :
    (∃ sent outcome a b, StopVerdict (stopping 15) 0 3 15 sent outcome a b ∧
      Cluster.TimesOut (stopping 15) 0 3 15 outcome a b) ∧
    ∃ sent outcome a b, StopVerdict (stopping 40) 0 3 40 sent outcome a b ∧
      Cluster.Completes (stopping 40) 0 3 40 sent outcome a b := by
  have hverdict (timeout : UInt64) (m : Nat)
      (hactive : ((stopping timeout 0).node 0).repository.active.map (·.shutdownTimeout) = some m)
      (hready : (scanning timeout).ready.length = 0) (hnext : (scanning timeout).next = 3)
      (halone : ∀ x ∈ (stopping timeout 0).crowd, x.id = 3 ∨ x.role = .redelivery ∨ x.role = .scheduler ∧ x.node = 0) :
      ∃ sent outcome a b, StopVerdict (stopping timeout) 0 3 m sent outcome a b := by
    obtain ⟨sent, h, hn⟩ := Cluster.tracked_stopping timeout
    obtain ⟨p, hp, rfl⟩ := Option.map_eq_some_iff.1 hactive
    have hcall := Cluster.head_begin (List.eq_nil_of_length_eq_zero hready) 0 .stop
    rw [hnext] at hcall
    exact ⟨_, stop_verdict (Cluster.uninterrupted_proceed _) h hn hp hcall halone⟩
  constructor
  · obtain ⟨sent, outcome, a, b, h⟩ :=
      hverdict 15 15 (by decide +kernel) (by decide +kernel) (by decide +kernel) (by decide +kernel)
    have ha : a ≤ 10 := Nat.le_of_not_lt fun hlt => absurd (h.alive 10 hlt) (by decide +kernel)
    have hended : (stopping 15 a).now ≤ (stopping 15 10).now := (Cluster.uninterrupted_proceed _).now_mono ha
    have hnow : (stopping 15 10).now = 7 ∧ (stopping 15 20).now = 37 := by decide +kernel
    refine ⟨sent, outcome, a, b, h, h.late ⟨20, ?_, by decide +kernel⟩⟩
    have hlast : pollInterval * polls 15 = 20 := rfl
    omega
  · obtain ⟨sent, outcome, a, b, h⟩ :=
      hverdict 40 40 (by decide +kernel) (by decide +kernel) (by decide +kernel) (by decide +kernel)
    refine ⟨sent, outcome, a, b, h, h.inTime fun j _ hj => ?_⟩
    have hend : (stopping 40 j).now ≤ (stopping 40 25).now :=
      Cluster.now_le_of_rest (by decide +kernel) (by decide +kernel) j
    have hnow : (stopping 40 25).now = 37 ∧ (stopping 40 0).now = 5 := by decide +kernel
    have hbegin : (stopping 40 0).now ≤ (stopping 40 a).now :=
      (Cluster.uninterrupted_proceed _).now_mono (Nat.zero_le a)
    omega

end DurableAggregates
