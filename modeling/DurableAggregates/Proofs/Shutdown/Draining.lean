import DurableAggregates.Proofs.Shutdown.Callers
import DurableAggregates.Proofs.Shutdown.Handovers

/-!
# Draining

A stop goes through stages: it takes the lifecycle lock, ends the scheduler, reports a crash, gives the lock back, and
looks at what is outstanding until nothing is or it has looked often enough (`run_stop` and what follows). On an
uninterrupted course it gets through all of them (`Uninterrupted.stops`), and `Drained` says how it comes out.
-/

namespace DurableAggregates

open Cluster (Answer NodeStep)
open Procedure (ask)
open Repository (stopFailure polls)

/-! ## The stages of a stop -/

/-- What a stop returns when nothing is outstanding and the scheduler has ended in some way. -/
def drained : Except String Unit → Except RepositoryError Answer
  | .ok () => .ok .done
  | .error detail => .error (.schedulerJoin detail)

/-- A stop that looks at what is outstanding, and again at most `m` times. -/
def draining (outcome : Except String Unit) (m : Nat) : Operation Answer := do
  Repository.drain m
  ExceptT.mk (pure (drained outcome))

/-- A stop that gives the lifecycle lock back. -/
def releasing (outcome : Except String Unit) (m : Nat) : Operation Answer := do
  ask (.release .lifecycle)
  draining outcome m

/-- A stop that gets to know how the scheduler has ended. -/
def joining (m : Nat) : Except String Unit → Operation Answer
  | .ok () => releasing (.ok ()) m
  | .error detail => do
    Procedure.report (stopFailure (.schedulerJoin detail))
    releasing (.error detail) m

/-- A stop that has the lifecycle lock. -/
def locking : Operation Answer := do
  match (← getThe Repository).active with
  | none =>
    ask (.release .lifecycle)
    return .done
  | some policy =>
    modifyThe Repository fun r => { r with active := none }
    joining (polls policy.shutdownTimeout) (← ask .halt)

theorem run_stop (s : Setup) (r : Repository) :
    (NodeStep.stop.task s).run r = .asking (.acquire .lifecycle) r fun _ => locking.run := by
  -- What follows the wait ends as `drained` says.
  have hlast (m : Nat) (u : Repository)
      {F : Except RepositoryError Unit → Repository → Run (Except RepositoryError Unit)}
      {G : Except RepositoryError Unit → Repository → Run (Except RepositoryError Answer)}
      {H : Except RepositoryError Unit → Repository → Run (Except RepositoryError Answer)}
      (h : ∀ a u, (F a u).bind G = H a u) :
      (((Repository.drain m).run u).bind F).bind G = ((Repository.drain m).run u).bind H := by
    rw [Run.bind_bind]
    exact congrArg _ (funext fun a => funext fun u => h a u)
  refine congrArg (Run.asking _ r) (funext fun _ => funext fun u => ?_)
  obtain ⟨active⟩ := u
  cases active with
  | none => rfl
  | some policy =>
    refine congrArg (Run.asking _ _) (funext fun a => funext fun u => ?_)
    cases a with
    | ok a =>
      refine congrArg (Run.asking _ _) (funext fun a => funext fun u => hlast _ u fun a u => ?_)
      cases a <;> rfl
    | error detail =>
      refine congrArg (Run.asking _ _) (funext fun a => funext fun u => ?_)
      refine congrArg (Run.asking _ _) (funext fun a => funext fun u => hlast _ u fun a u => ?_)
      cases a <;> rfl

theorem run_locking {r : Repository} {p : Policy} (h : r.active = some p) :
    locking.run r = .asking .halt { r with active := none } fun a => (joining (polls p.shutdownTimeout) a).run := by
  cases r
  cases h
  rfl

theorem run_joining (m : Nat) (detail : String) (r : Repository) : (joining m (.error detail)).run r =
    .asking (.report (stopFailure (.schedulerJoin detail)))
      { r with lastError := some (stopFailure (.schedulerJoin detail)) }
      fun _ => (releasing (.error detail) m).run := rfl

theorem run_releasing (outcome : Except String Unit) (m : Nat) (r : Repository) :
    (releasing outcome m).run r = .asking (.release .lifecycle) r fun _ => (draining outcome m).run := rfl

theorem run_draining_idle (outcome : Except String Unit) (m : Nat) {r : Repository} (h : r.inFlight = 0) :
    (draining outcome m).run r = .finished (drained outcome) r := by
  cases r
  cases h
  cases m <;> rfl

theorem run_draining_last (outcome : Except String Unit) {r : Repository} (h : r.inFlight ≠ 0) :
    (draining outcome 0).run r = .asking (.report (stopFailure (.shutdownTimeout r.inFlight)))
      { r with lastError := some (stopFailure (.shutdownTimeout r.inFlight)) }
      fun _ => (throw (.shutdownTimeout r.inFlight) : Operation Answer).run := by
  obtain ⟨k, hk⟩ := Nat.exists_eq_succ_of_ne_zero h
  cases r
  cases hk
  rfl

theorem run_draining_again (outcome : Except String Unit) (m : Nat) {r : Repository} (h : r.inFlight ≠ 0) :
    (draining outcome (m + 1)).run r =
      .asking (.sleep Repository.pollInterval) r fun _ => (draining outcome m).run := by
  obtain ⟨k, hk⟩ := Nat.exists_eq_succ_of_ne_zero h
  cases r
  cases hk
  rfl

namespace Cluster

variable {f : Nat → Cluster} {n i a b k m : Nat} {outcome : Except String Unit} {s : Setup} {p : Policy}

/-- Who waits for the end of a scheduler to go on with the rest of a stop is in no pass. -/
theorem not_guarded_joining (engine : Bool) : ¬Operation.Guarded engine true false (asking .halt (joining m)) := by
  intro h
  have hhalt : ((asking .halt (joining m)).run {}).Guarded engine false true 0 := h {}
  cases hhalt with
  | aside _ _ hjoin =>
    have hrelease : ((joining m (.ok ())).run {}).Guarded engine false true 0 := hjoin (.ok ()) {}
    cases hrelease with
    | aside _ _ hdrain =>
      have hlast : ((draining (.ok ()) m).run {}).Guarded engine false true 0 := hdrain () {}
      rw [run_draining_idle _ _ rfl] at hlast
      cases hlast

/-- What a stop reports of the way in which the scheduler has ended. -/
def joinFailures : Except String Unit → List RouteError
  | .ok () => []
  | .error detail => [stopFailure (.schedulerJoin detail)]

/-! ## The looks of a stop -/

/-- At each of `k` looks from a point of a course on something was outstanding. -/
def Busy (f : Nat → Cluster) (n a b k : Nat) : Prop :=
  ∀ l < k, ∃ j, a ≤ j ∧ j < b ∧ (f j).now = (f a).now + Repository.pollInterval * l ∧ (f j).outstanding n ≠ 0

/--
How a stop comes out that looks at what is outstanding, and again at most `m` times, when the scheduler has ended in
some way and the monitor was told of some errors.
-/
inductive Drained (f : Nat → Cluster) (n i m : Nat) (outcome : Except String Unit) (es : List RouteError) (a b : Nat) :
    Prop where
  /-- At a look nothing was outstanding. -/
  | idle {k : Nat} (hk : k ≤ m) (h : Passage f n i a b (Repository.pollInterval * k) es) (hbusy : Busy f n a b k)
      (hnone : (f b).outstanding n = 0) (hresult : (f b).result? i = some (.ofExcept (drained outcome)))
  /-- At the last look something was outstanding. -/
  | late (h : Passage f n i a b (Repository.pollInterval * m)
        (stopFailure (.shutdownTimeout ((f b).outstanding n)) :: es))
      (hbusy : Busy f n a b (m + 1)) (hsome : (f b).outstanding n ≠ 0)
      (hresult : (f b).result? i = some (.failed (.shutdownTimeout ((f b).outstanding n))))

/-- The looks are counted from any point at the same time. -/
theorem Drained.since {es : List RouteError} (h : Passage f n i a b 0 es) (hd : Drained f n i m outcome [] b k) :
    Drained f n i m outcome es a k := by
  have hbusy {l : Nat} (hd : Busy f n b k l) : Busy f n a k l := fun j hj => by
    obtain ⟨e, hbe, hek, hnow, hout⟩ := hd j hj
    exact ⟨e, h.le.trans hbe, hek, by rw [hnow, h.now, Nat.add_zero], hout⟩
  cases hd with
  | idle hl h' hd hnone hresult =>
    refine .idle hl ?_ (hbusy hd) hnone hresult
    simpa using h.trans h'
  | late h' hd hsome hresult =>
    refine .late ?_ (hbusy hd) hsome hresult
    simpa using h.trans h'

/-- A look at something, and after a while those that follow. -/
theorem Drained.again (h : Passage f n i a b Repository.pollInterval []) (hsome : (f a).outstanding n ≠ 0)
    (hd : Drained f n i m outcome [] b k) : Drained f n i (m + 1) outcome [] a k := by
  have hlt : a < b := Nat.lt_of_le_of_ne h.le fun he => by
    have hnow := h.now
    rw [he] at hnow
    exact absurd hnow (Nat.lt_add_of_pos_right (by decide)).ne
  have hbusy {l : Nat} (hle : b ≤ k) (hd : Busy f n b k l) : Busy f n a k (l + 1)
    | 0, _ => ⟨a, Nat.le_refl a, hlt.trans_le hle, rfl, hsome⟩
    | j + 1, hj => by
      obtain ⟨e, hbe, hek, hnow, hout⟩ := hd j (Nat.lt_of_succ_lt_succ hj)
      refine ⟨e, h.le.trans hbe, hek, ?_, hout⟩
      rw [hnow, h.now, Nat.mul_succ]
      ac_rfl
  cases hd with
  | @idle l hl h' hd hnone hresult =>
    refine .idle (Nat.succ_le_succ hl) ?_ (hbusy h'.le hd) hnone hresult
    rw [Nat.mul_succ, Nat.add_comm]
    exact h.trans h'
  | late h' hd hsome' hresult =>
    refine .late ?_ (hbusy h'.le hd) hsome' hresult
    rw [Nat.mul_succ, Nat.add_comm]
    simpa using h.trans h'

namespace Uninterrupted

variable (hf : Uninterrupted f)
include hf

/-- A stop that finds nothing outstanding returns at once. -/
theorem drains_idle (h : Heads n i (draining outcome m) (f a)) (hq : ((f a).node n).Quiet)
    (hnone : ((f a).node n).repository.inFlight = 0) :
    Drained f n i m outcome [] a (a + 1) ∧ (f (a + 1)).Winding n i ∧ ((f (a + 1)).node n).Quiet := by
  obtain ⟨hresult, hwinding, hpassage, hrepository, hscheduler⟩ := hf.finishes h (run_draining_idle outcome m hnone)
  refine ⟨.idle (Nat.zero_le m) hpassage (fun l hl => absurd hl (Nat.not_lt_zero l)) ?_ hresult, hwinding,
    by rw [hrepository]; exact hq.active, hscheduler.trans hq.scheduler⟩
  rw [← hwinding.tended.outstanding_eq hwinding.known, hrepository, hnone]

/-- A stop that looks at what is outstanding comes to its end. -/
theorem drains (h : Heads n i (draining outcome m) (f a)) (hq : ((f a).node n).Quiet) :
    ∃ b, Drained f n i m outcome [] a b ∧ (f b).Winding n i ∧ ((f b).node n).Quiet := by
  induction m generalizing a with
  | zero =>
    by_cases hnone : ((f a).node n).repository.inFlight = 0
    · exact ⟨_, hf.drains_idle h hq hnone⟩
    · have hturn := hf.reports h (fun _ => throw (.shutdownTimeout ((f a).node n).repository.inFlight))
        (run_draining_last outcome hnone)
      obtain ⟨hresult, hwinding, hpassage, hrepository, hscheduler⟩ := hf.finishes hturn.heads rfl
      have hflight : ((f (a + 1 + 1)).node n).repository.inFlight = ((f a).node n).repository.inFlight := by
        rw [hrepository, hturn.repository]
      have hout := (h.winding.tended.outstanding_eq h.winding.known).symm
      rw [hwinding.tended.outstanding_eq hwinding.known] at hflight
      refine ⟨a + 1 + 1, .late ?_ (fun l hl => ?_) (hflight ▸ hnone) ?_, hwinding, ?_, ?_⟩
      · rw [hflight]
        exact hturn.passage.trans hpassage
      · obtain rfl := Nat.lt_one_iff.1 hl
        exact ⟨a, Nat.le_refl a, Nat.lt_succ_of_lt (Nat.lt_succ_self a), rfl, hout ▸ hnone⟩
      · rw [hflight]
        exact hresult
      · rw [hrepository, hturn.repository]
        exact hq.active
      · rw [hscheduler, hturn.scheduler]
        exact hq.scheduler
  | succ m ih =>
    by_cases hnone : ((f a).node n).repository.inFlight = 0
    · exact ⟨_, hf.drains_idle h hq hnone⟩
    · obtain ⟨b, hheads, hpassage, hquiet⟩ := hf.sleeps h (fun _ => draining outcome m) (by decide)
        (run_draining_again outcome m hnone) hq
      obtain ⟨k, hdrained, hend⟩ := ih hheads hquiet
      rw [h.winding.tended.outstanding_eq h.winding.known] at hnone
      exact ⟨k, hdrained.again hpassage hnone, hend⟩

/-! ## The whole of a stop -/

/-- A stop that knows how the scheduler has ended reports it if it crashed, and gives the lifecycle lock back. -/
theorem releases_joined (h : Heads n i (joining m outcome) (f a)) (hq : ((f a).node n).Quiet) :
    ∃ b, Heads n i (draining outcome m) (f b) ∧ Passage f n i a b 0 (joinFailures outcome) ∧ ((f b).node n).Quiet := by
  have hrelease {a : Nat} (h : Heads n i (releasing outcome m) (f a)) (hq : ((f a).node n).Quiet) :
      Heads n i (draining outcome m) (f (a + 1)) ∧ Passage f n i a (a + 1) 0 [] ∧ ((f (a + 1)).node n).Quiet := by
    have hturn := hf.releases h (fun _ => draining outcome m) (run_releasing outcome m _)
    exact ⟨hturn.heads, hturn.passage, by rw [hturn.repository]; exact hq.active, hturn.scheduler.trans hq.scheduler⟩
  cases outcome with
  | ok => exact ⟨_, hrelease h hq⟩
  | error detail =>
    have hturn := hf.reports h (fun _ => releasing (.error detail) m) (run_joining m detail _)
    obtain ⟨hheads, hpassage, hquiet⟩ :=
      hrelease hturn.heads ⟨by rw [hturn.repository]; exact hq.active, hturn.scheduler.trans hq.scheduler⟩
    exact ⟨_, hheads, hturn.passage.trans hpassage, hquiet⟩

/-- A stop that has the lifecycle lock of a running repository waits for the end of the scheduler, if there is one. -/
theorem joins_scheduler (h : Heads n i locking (f a)) (hp : ((f a).node n).repository.active = some p) :
    ∃ b c outcome, ((f b).node n).join? = some outcome ∧ (∀ j, a ≤ j → j < b → ((f j).node n).join? = none) ∧
      (∃ time, Passage f n i a b time []) ∧ Passage f n i b c 0 [] ∧
      Heads n i (joining (polls p.shutdownTimeout) outcome) (f c) ∧ ((f c).node n).Quiet := by
  have hrun := run_locking hp
  cases hjoin : ((f a).node n).join? with
  | some outcome =>
    have hturn := hf.joins h hrun hjoin
    exact ⟨a, a + 1, outcome, hjoin, fun j hle hlt => absurd hlt (Nat.not_lt_of_le hle), ⟨0, .refl f n i a⟩,
      hturn.passage, hturn.heads, by rw [hturn.repository], hturn.scheduler⟩
  | none =>
    obtain ⟨b, c, hall, hended, hwait, hpassage, hheads, hactive, hscheduler⟩ :=
      hf.halts h hrun rfl hjoin not_guarded_joining
    obtain ⟨outcome, houtcome⟩ := Option.ne_none_iff_exists'.1 hended
    have hturn := hf.joins hheads rfl (by rw [Node.join?, hscheduler]; exact houtcome)
    exact ⟨b, c + 1, outcome, houtcome, hall, hwait, hpassage.trans hturn.passage, hturn.heads,
      by rw [hturn.repository]; exact hactive, hturn.scheduler⟩

/-- A stop of a running repository comes to its end. -/
theorem stops (h : Heads n i (NodeStep.stop.task s) (f 0)) (hp : ((f 0).node n).repository.active = some p) :
    ∃ a b outcome, ((f a).node n).join? = some outcome ∧ (∀ j < a, ((f j).node n).join? = none) ∧
      (∃ time, Passage f n i 0 a time []) ∧
      Drained f n i (polls p.shutdownTimeout) outcome (joinFailures outcome) a b ∧ (f b).Winding n i ∧
      ((f b).node n).Quiet := by
  have hturn := hf.acquires h (fun _ => locking) (run_stop s _)
  have hsame : ((f 1).node n).join? = ((f 0).node n).join? := by rw [Node.join?, Node.join?, hturn.scheduler]
  obtain ⟨a, c, outcome, hjoin, hall, ⟨time, hwait⟩, hpassage, hheads, hquiet⟩ :=
    hf.joins_scheduler hturn.heads (by rw [hturn.repository]; exact hp)
  obtain ⟨e, hheads, hjoined, hquiet⟩ := hf.releases_joined hheads hquiet
  obtain ⟨b, hdrained, hwinding, hquiet⟩ := hf.drains hheads hquiet
  cases hfirst : ((f 0).node n).join? with
  | none =>
    refine ⟨a, b, outcome, hjoin, fun j hj => ?_, ⟨_, hturn.passage.trans hwait⟩, hdrained.since ?_, hwinding, hquiet⟩
    · cases j with
      | zero => exact hfirst
      | succ j => exact hall (j + 1) (Nat.succ_le_succ (Nat.zero_le j)) hj
    · simpa using hpassage.trans hjoined
  | some outcome' =>
    -- The scheduler had ended before, so there was nothing to wait for.
    have ha : a = 1 := Nat.le_antisymm (Nat.le_of_not_lt fun hlt => ?_) hwait.le
    · subst ha
      obtain rfl : outcome' = outcome := Option.some.inj (hfirst.symm.trans (hsame.symm.trans hjoin))
      refine ⟨0, b, outcome', hfirst, fun j hj => absurd hj (Nat.not_lt_zero j), ⟨0, .refl f n i 0⟩,
        hdrained.since ?_, hwinding, hquiet⟩
      simpa using (hturn.passage.trans hpassage).trans hjoined
    · rw [hall 1 (Nat.le_refl 1) hlt, hfirst] at hsame
      cases hsame

end Uninterrupted

end Cluster

end DurableAggregates
