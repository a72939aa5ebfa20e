import DurableAggregates.Proofs.Execution.Runs
import DurableAggregates.Proofs.Schedule.Clock
import DurableAggregates.Proofs.Schedule.Histories
import Mathlib.Data.Multiset.Count

/-!
# Scheduled passes follow the clock

In a cluster where no call crashes, tasks may be begun at any time and go on in any order that the cluster allows, and
time passes when no task can go on. Whatever happens, the signs of the schedule of a node make up windows: one
scheduler at a time, one pass at a time, none outside a window, and no end of a life before its last pass has ended.
As long as passes are shorter than the interval they begin whenever one is due inside a window, and never else. The
main result, `scheduled_passes`, says so of a scheduler on a clock, whatever its passes take and whenever it is
stopped, and of the repositories of clusters.
-/

namespace DurableAggregates

namespace Cluster

open Schedule (Sign Window)

variable {s : Setup} {n : Nat} {c d : Cluster} {ws : List Window} {log : List (Nat × Sign)}

/-! ## Windows and repositories -/

/-- All that goes on, or waits at a node. -/
def tasks (c : Cluster) (n : Nat) : List Task := c.ready ++ c.sleeping.map (·.2) ++ (c.node n).waiters

/-- How many tasks are the scheduler of a node. -/
def schedulers (c : Cluster) (n : Nat) : Nat := (c.tasks n).countP fun t => t.node = n ∧ t.role = .scheduler

/-- Whether a task asks for the end of the scheduler and waits for it. -/
def Task.Halts (t : Task) : Prop := ∃ next, ∀ r, t.body.run r = .asking .halt r next

/-- How the windows of a node stand to its repository, which is built from `s`. -/
structure Attended (s : Setup) (n : Nat) (c : Cluster) (ws : List Window) : Prop where
  /-- A window follows another, with one pass after another inside. -/
  inTurn : Window.InTurn ws c.now
  /-- Quick passes begin whenever one is due inside the window, and never else. -/
  punctual : ∀ w ∈ ws, w.Quick c.now → w.Punctual c.now
  /-- Passes are scheduled if recovery is enabled with an interval, which is that of the windows. -/
  configured : ∀ w ∈ ws, s.config.useRecovery = true ∧ 0 < s.config.recoveryIntervalMillis ∧
    w.interval = s.config.recoveryIntervalMillis.toInt.toNat
  /-- A window is open while the repository runs with a policy that schedules passes. -/
  running : (∃ w ∈ ws, w.closed = none) ↔ ∃ p, (c.node n).repository.active = some p ∧ p.schedulesPasses = true
  /-- Whoever closed a window keeps the lock and waits until the window is joined. -/
  stopping : ∀ w ∈ ws, w.closed ≠ none → w.joined = false →
    (c.node n).lifecycle.holder.isSome = true ∧ ∃ t ∈ c.tasks n, t.Halts
  /-- There are never two schedulers. -/
  schedulers : c.schedulers n ≤ 1

theorem Manned.countP_le {crew : Multiset Task} {special inside : Option Task} (h : Manned s crew special inside) :
    crew.countP (·.role = .scheduler) ≤ 1 := by
  obtain ⟨⟨rest, rfl, hrest⟩, hin⟩ := h
  have hspecial : (Multiset.ofList special.toList).countP (·.role = .scheduler) ≤ 1 := by
    refine (Multiset.countP_le_card _ _).trans ?_
    cases special with
    | none => exact Nat.zero_le _
    | some x => exact Nat.le_refl _
  have hinside : (Multiset.ofList inside.toList).countP (·.role = .scheduler) = 0 :=
    Multiset.countP_eq_zero.2 fun t ht => (hin t (Option.mem_toList.1 ht)).role
  have hothers : rest.countP (·.role = .scheduler) = 0 := Multiset.countP_eq_zero.2 fun t ht => (hrest t ht).role
  rw [Multiset.countP_add, Multiset.countP_add, hinside, hothers]
  exact hspecial

/-- No scheduler waits for the end of a scheduler. -/
theorem Stage.role_waiting {special : Option Task} {held : Bool} (h : Stage s n c ws special held)
    {st : SchedulerState} (hst : (c.node n).scheduler = some st) {t : Task} (ht : st.waiting = some t) :
    t.role ≠ .scheduler := by
  cases h with
  | idle hs =>
    rw [hs] at hst
    cases hst
  | @serving _ _ st' _ _ h =>
    rw [h.scheduler] at hst
    cases hst
    by_cases hclosing : st.closing = true
    · obtain ⟨-, y, hy, hrole, -⟩ := h.stopping hclosing
      rw [hy] at ht
      cases ht
      exact hrole
    · rw [(h.running (Bool.eq_false_iff.2 hclosing)).1] at ht
      cases ht
  | ended h =>
    obtain ⟨st', hst', -, hwaiting⟩ := h.scheduler
    rw [hst'] at hst
    cases hst
    rw [hwaiting] at ht
    cases ht

theorem Scheduled.schedulers_le (h : Scheduled s n c ws) : c.schedulers n ≤ 1 := by
  obtain ⟨special, inside, hs, hm⟩ := h
  have hlifecycle : (c.node n).lifecycle.waiting.countP (fun t => t.node = n ∧ t.role = .scheduler) = 0 :=
    List.countP_eq_zero.2 fun t ht hrole => (hs.queue t ht).role (of_decide_eq_true hrole).2
  have hscheduler : ((c.node n).scheduler.bind (·.waiting)).toList.countP
      (fun t => t.node = n ∧ t.role = .scheduler) = 0 := by
    refine List.countP_eq_zero.2 fun t ht hrole => ?_
    obtain ⟨st, hst, ht⟩ := Option.bind_eq_some_iff.1 (Option.mem_toList.1 ht)
    exact hs.stage.role_waiting hst ht (of_decide_eq_true hrole).2
  have hqueued : (c.ready ++ c.sleeping.map (·.2)).countP (fun t => t.node = n ∧ t.role = .scheduler) =
      (c.queued.filter (·.node = n)).countP (·.role = .scheduler) := by
    rw [Multiset.countP_filter, queued, Multiset.coe_add, Multiset.coe_countP]
    exact List.countP_congr fun t _ => by simp [and_comm]
  have hpass : (c.node n).pass.waiting.countP (fun t => t.node = n ∧ t.role = .scheduler) ≤
      (Multiset.ofList (c.node n).pass.waiting).countP (·.role = .scheduler) := by
    rw [Multiset.coe_countP]
    exact List.countP_mono_left fun t _ hrole => decide_eq_true (of_decide_eq_true hrole).2
  -- Who waits for the lifecycle lock or for the end of a scheduler is no scheduler; all others are in the crew.
  have hcrew := hm.countP_le
  rw [crew, Multiset.countP_add] at hcrew
  rw [schedulers, tasks, Node.waiters, List.countP_append, hqueued, List.countP_append, List.countP_append,
    hlifecycle, hscheduler]
  omega

/-! ### Windows at a stage -/

theorem Fair.configured {now : Nat} {w : Window} (h : Fair s now w) : s.config.useRecovery = true ∧
    0 < s.config.recoveryIntervalMillis ∧ w.interval = s.config.recoveryIntervalMillis.toInt.toNat := by
  obtain ⟨p, hp, hschedules, hinterval⟩ := h.policy
  obtain ⟨hrecovery, hpos⟩ := Bool.and_eq_true_iff.1 hschedules
  rw [hinterval, ← Setup.interval_of_policy? hp]
  rw [Setup.useRecovery_of_policy? hp] at hrecovery
  refine ⟨hrecovery, ?_, rfl⟩
  have hpos : p.interval ≠ 0 := by simpa using hpos
  rw [Setup.interval_of_policy? hp] at hpos
  rw [Int64.lt_iff_toInt_lt, Int64.toInt_zero]
  omega

section Windows

variable {special : Option Task} {held : Bool} (h : Stage s n c ws special held)
include h

/-- A repository that runs and schedules passes has an open window. -/
theorem Stage.exists_open {p : Policy} (hp : (c.node n).repository.active = some p) (hs : p.schedulesPasses = true) :
    ∃ w ∈ ws, w.closed = none := by
  cases h with
  | idle _ ha =>
    rw [ha p hp] at hs
    cases hs
  | @serving _ _ st _ w h =>
    refine ⟨w, List.mem_cons_self .., ?_⟩
    by_cases hclosing : st.closing = true
    · rw [(h.stopping hclosing).1] at hp
      cases hp
    · exact h.closed_eq_none (Bool.eq_false_iff.2 hclosing)
  | ended h =>
    rw [h.active] at hp
    cases hp

variable (hturn : Window.InTurn ws c.now) {w : Window} (hw : w ∈ ws)
include hturn hw

/-- The scheduler of an open window serves its ticker. -/
theorem Stage.serving_of_open (hopen : w.closed = none) : ∃ st x, Serving s n c st x w ∧ st.closing = false := by
  have hj := (hturn.orderly w hw).open hopen
  have hhead := hturn.eq_head hw hj
  cases h with
  | idle _ _ hjoined =>
    rw [hjoined w hhead] at hj
    cases hj
  | @serving _ _ st x _ h =>
    cases hhead
    refine ⟨st, x, h, ?_⟩
    rw [← h.closed, hopen]
    rfl
  | ended h =>
    cases hhead
    exact absurd hopen h.closed

/-- Whoever closed a window that is not joined keeps the lock, and waits. -/
theorem Stage.stopping (hclosed : w.closed ≠ none) (hj : w.joined = false) :
    (c.node n).lifecycle.holder.isSome = true ∧
      ∃ t, (t ∈ (c.node n).waiters ∨ special = some t) ∧ Halting s t.body := by
  have hhead := hturn.eq_head hw hj
  cases h with
  | idle _ _ hjoined =>
    rw [hjoined w hhead] at hj
    cases hj
  | @serving _ _ st x _ h hl =>
    cases hhead
    have hclosing : st.closing = true := by
      rw [← h.closed]
      exact Option.isSome_iff_ne_none.2 hclosed
    obtain ⟨-, y, hy, -, hhalting⟩ := h.stopping hclosing
    refine ⟨hl.trans (by rw [hclosing]; rfl), y, .inl ?_, hhalting⟩
    exact mem_waiters.2 (.inr (.inr ⟨st, h.scheduler, hy⟩))
  | @ended _ y _ h hl =>
    cases hhead
    exact ⟨hl, y, .inr rfl, h.halting⟩

/-- Quick passes are as scheduled, in the open window too. -/
theorem Stage.punctual (hfair : Fair s c.now w) (hq : w.Quick c.now) : w.Punctual c.now := by
  by_cases hclosed : w.closed = none
  · obtain ⟨st, x, hserving, hopen⟩ := h.serving_of_open hturn hw hclosed
    obtain ⟨k, hp⟩ := hserving.paced hopen hq
    exact hp.punctual hq (by rw [hclosed]; rfl)
  · exact hfair.punctual hclosed hq

end Windows

theorem mem_tasks_of_crew {t : Task} (ht : t ∈ c.crew n) : t ∈ c.tasks n := by
  rcases Multiset.mem_add.1 ht with ht | ht
  · have hq : t ∈ c.ready ++ c.sleeping.map (·.2) := Multiset.mem_of_mem_filter ht
    exact List.mem_append_left _ hq
  · exact List.mem_append_right _ (mem_waiters.2 (.inr (.inl ht)))

theorem Scheduled.attended (h : Scheduled s n c ws) (hturn : Window.InTurn ws c.now) : Attended s n c ws := by
  obtain ⟨special, inside, hs, hm⟩ := id h
  refine ⟨hturn, fun w hw => hs.stage.punctual hturn hw (hs.windows w hw), fun w hw => (hs.windows w hw).configured,
    ⟨?_, ?_⟩, ?_, h.schedulers_le⟩
  · rintro ⟨w, hw, hopen⟩
    obtain ⟨st, x, hserving, hclosing⟩ := hs.stage.serving_of_open hturn hw hopen
    exact (hserving.running hclosing).2
  · rintro ⟨p, hp, hschedules⟩
    exact hs.stage.exists_open hp hschedules
  · intro w hw hclosed hj
    obtain ⟨hl, t, ht, next, hrun, -⟩ := hs.stage.stopping hturn hw hclosed hj
    refine ⟨hl, t, ?_, _, hrun⟩
    rcases ht with ht | rfl
    · exact List.mem_append_right _ ht
    · obtain ⟨rest, hcrew, -⟩ := hm.crew
      refine mem_tasks_of_crew ?_
      rw [hcrew]
      exact Multiset.mem_add.2 (.inl (List.mem_singleton_self _))

end Cluster

open Schedule (Plan Scheduler Sign Window)

/--
A scheduler that is spawned, left alone for any spans of time and stopped shows one window with one pass after another,
which begins with it, is closed by the stop and joined when no pass runs. In any history of a cluster the signs of the
schedule of a node make up windows that follow each other as its repository runs and stops; without recovery, or with
an interval of zero, there are none. Passes that are shorter than the interval begin one interval after another.
-/
theorem scheduled_passes :
    (∀ (interval : Nat) (plan : Plan) (spans : List Nat), 0 < interval → plan.crashing = none →
      ∃ w, Window.read (Scheduler.signs interval plan spans) = some [w] ∧ w.since = 0 ∧ w.interval = interval ∧
        w.closed = some (spans.foldl (· + ·) 0) ∧ w.joined = true ∧ (∃ now, w.Orderly now) ∧ Scheduler.Took plan w ∧
        ((∀ j, plan.length j < interval) → w.Punctual (spans.foldl (· + ·) 0))) ∧
    ∀ (n : Nat) (c₀ c : Cluster) (log : List (Nat × Sign)), c₀.Fresh → n < c₀.nodes.length →
      Cluster.History n c₀ log c →
      (∃ ws, Window.read log = some ws ∧ Cluster.Attended (c₀.node n).setup n c ws) ∧
        ((c₀.node n).config.useRecovery = false ∨ (c₀.node n).config.recoveryIntervalMillis = 0 → log = []) := by
  refine ⟨fun interval plan spans hi hc => Scheduler.signs_window hi hc spans, fun n c₀ c log h₀ hn h => ?_⟩
  obtain ⟨ws, hread, hs⟩ := h.scheduled h₀ hn
  have hattended := hs.attended (Window.inTurn_of_read h.chronological hread)
  refine ⟨⟨ws, hread, hattended⟩, fun hoff => ?_⟩
  cases ws with
  | nil => exact Window.eq_nil_of_read hread
  | cons w ws =>
    obtain ⟨hrecovery, hpos, -⟩ := hattended.configured w (List.mem_cons_self ..)
    rcases hoff with hoff | hoff
    · exact absurd (hoff.symm.trans hrecovery) Bool.false_ne_true
    · have hzero : (c₀.node n).setup.config.recoveryIntervalMillis = 0 := hoff
      rw [hzero] at hpos
      exact absurd hpos (by decide)

/-- Ten milliseconds apart, and five: a stop during the second pass waits for its end. -/
theorem scheduled_passes_until_stop :
    (∃ w, Window.read (Scheduler.signs 10 { lengths := [3, 4] } [12, 13]) = some [w] ∧
      w.passes = [(10, 13), (20, 24)] ∧ w.Punctual 25) ∧
    ∃ c w, Cluster.History 0
        { delays := { keys := 2 }, nodes := [{ config := { recoveryIntervalMillis := 5 } }] }
        [(0, .launched 5), (5, .began), (7, .ended), (10, .began), (10, .closed), (12, .ended), (12, .joined)] c ∧
      w.passes = [(5, 7), (10, 12)] ∧ w.closed = some 10 ∧
      Cluster.Attended { config := { recoveryIntervalMillis := 5 } } 0 c [w] := by
  constructor
  · obtain ⟨w, hread, -, -, -, -, -, -, hpunctual⟩ :=
      scheduled_passes.1 10 { lengths := [3, 4] } [12, 13] (by decide) rfl
    have hwindow : Window.read (Scheduler.signs 10 { lengths := [3, 4] } [12, 13]) =
        some [{ since := 0, interval := 10, passes := [(10, 13), (20, 24)], closed := some 25, joined := true }] := by
      decide +kernel
    refine ⟨w, hread, ?_, hpunctual fun j => ?_⟩
    · rw [hwindow] at hread
      cases hread
      rfl
    · match j with
      | 0 | 1 => decide
      | j + 2 => exact Nat.zero_lt_succ 9
  · let c₀ : Cluster := { delays := { keys := 2 }, nodes := [{ config := { recoveryIntervalMillis := 5 } }] }
    have hfresh : c₀.Fresh :=
      ⟨rfl, rfl, rfl, fun x hx => by rw [List.mem_singleton.1 hx]; exact ⟨rfl, rfl, rfl, rfl⟩⟩
    have hstart : Cluster.History 0 c₀ [] (c₀.begin (.node 0 .start)).2 := .begin .start rfl
    have hstop := ((hstart.onwards 18).begin (x := .node 0 .stop) rfl).onwards 9
    have hlog : [] ++ ((c₀.begin (.node 0 .start)).2.onwards 0 18).1 ++
        ((((c₀.begin (.node 0 .start)).2.onwards 0 18).2.begin (.node 0 .stop)).2.onwards 0 9).1 =
        [(0, .launched 5), (5, .began), (7, .ended), (10, .began), (10, .closed), (12, .ended), (12, .joined)] := by
      decide +kernel
    rw [hlog] at hstop
    obtain ⟨⟨ws, hread, hattended⟩, -⟩ := scheduled_passes.2 0 c₀ _ _ hfresh (by decide) hstop
    cases hread
    exact ⟨_, _, hstop, rfl, rfl, hattended⟩

end DurableAggregates
