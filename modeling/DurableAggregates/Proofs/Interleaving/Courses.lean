import DurableAggregates.Proofs.Interleaving.Turns
import DurableAggregates.Proofs.Schedule.Histories
import Mathlib.Logic.Relation

/-!
# Courses

Whatever may happen to a cluster: tasks that can go on do so in any order, those that wait for time to pass wake at any
time, new ones are begun, and between two steps the store and the collaborators become what they like (`Happens`). The
order of the queue, the clock and the delays play no part, so a course stands for all interleavings of the tasks at the
points where they wait. After any course the tasks of all nodes are `Tended`.
-/

namespace DurableAggregates.Cluster

open Relation (ReflTransGen)

variable {s : Setup} {n m k j : Nat} {c d e : Cluster} {t x y : Task} {tail : List Task} {v w : View} {rs : List Result}

/-! ## What happens -/

/-- A node may get other collaborators, but none that it has not, and loses none. -/
structure Node.Drifts (x y : Node) : Prop where
  engine : y.engine.isSome = x.engine.isSome
  sink : y.sink.isSome = x.sink.isSome
  same : y = { x with engine := y.engine, sink := y.sink, failures := y.failures }

/--
What may change while no task goes on: the order of the queue, who sleeps and until when, the time, the store with its
delays and crashes, and the ways of the collaborators.
-/
structure Drifts (c d : Cluster) : Prop where
  known : d.nodes.length = c.nodes.length
  nodes : ∀ n, (c.node n).Drifts (d.node n)
  queued : d.queued = c.queued
  next : d.next = c.next
  results : d.results = c.results

/-- Whether a step concerns nodes that exist. -/
def Step.Known (k : Nat) : Step → Prop
  | .node n _ => n < k
  | .background x => x.Known k
  | _ => 0 < k

/-- One thing that may happen to a cluster. -/
inductive Happens (c : Cluster) : Cluster → Prop where
  | drift {d : Cluster} (h : c.Drifts d) : Happens c d
  | step : Happens c c.step
  | begin (x : Step) (hx : x.Known c.nodes.length) : Happens c (c.begin x).2

/-- What happens next if nothing comes from outside: the first task goes on, or time passes if none can. -/
def proceed (c : Cluster) : Cluster := if c.ready.isEmpty then c.wakeNext else c.step

/-- Nothing has begun yet. -/
structure Initial (c : Cluster) : Prop where
  ready : c.ready = []
  sleeping : c.sleeping = []
  results : c.results = []
  nodes : ∀ x ∈ c.nodes, x.repository = {} ∧ x.lifecycle = {} ∧ x.pass = {} ∧ x.scheduler = none

/-- A cluster that may come about. -/
def Possible (c : Cluster) : Prop := ∃ c₀ : Cluster, c₀.Initial ∧ ReflTransGen Happens c₀ c

namespace Node.Drifts

theorem refl (x : Node) : x.Drifts x := ⟨rfl, rfl, rfl⟩

variable {x y : Node} (h : x.Drifts y)
include h

theorem lock (l : Lock) : y.lock l = x.lock l := by
  rw [h.same]
  cases l <;> rfl

theorem waiters : y.waiters = x.waiters := by
  rw [h.same]
  rfl

theorem repository : y.repository = x.repository := by rw [h.same]

theorem scheduler : y.scheduler = x.scheduler := by rw [h.same]

theorem setup : y.setup = x.setup := by
  have hs : y.setup = { x.setup with hasEngine := y.engine.isSome, hasSink := y.sink.isSome } := by
    rw [h.same]
    rfl
  rw [hs, h.engine, h.sink]
  rfl

end Node.Drifts

/-- Time may pass. -/
theorem drifts_wakeNext (c : Cluster) : c.Drifts c.wakeNext := by
  have hsame : c.wakeNext.nodes = c.nodes ∧ c.wakeNext.next = c.next ∧ c.wakeNext.results = c.results := by
    unfold wakeNext
    split <;> exact ⟨rfl, rfl, rfl⟩
  obtain ⟨hnodes, hnext, hresults⟩ := hsame
  refine ⟨by rw [hnodes], fun n => ?_, queued_wakeNext c, hnext, hresults⟩
  rw [node, node, hnodes]
  exact .refl _

theorem happens_proceed (c : Cluster) : c.Happens c.proceed := by
  unfold proceed
  split
  · exact .drift (drifts_wakeNext c)
  · exact .step

/-- A change of the store or of a collaborator is a drift. -/
theorem drifts_change (c : Cluster) (x : Change) : c.Drifts (c.change x) := by
  have hsame (d : Cluster) (hnodes : d.nodes = c.nodes) (hqueued : d.queued = c.queued) (hnext : d.next = c.next)
      (hresults : d.results = c.results) : c.Drifts d :=
    ⟨by rw [hnodes], fun n => by rw [node, node, hnodes]; exact .refl _, hqueued, hnext, hresults⟩
  cases x with
  | failSink m count =>
    refine ⟨length_modifyNode .., fun n => ?_, rfl, rfl, rfl⟩
    show (c.node n).Drifts ((c.modifyNode m _).node n)
    rw [node_modifyNode_eq]
    split
    · rename_i hn
      rw [hn.1]
      exact ⟨rfl, rfl, rfl⟩
    · exact .refl _
  | _ => exact hsame _ rfl rfl rfl rfl

/-! ## Tasks of a view after a turn -/

theorem View.mem_tasks : x ∈ v.tasks ↔ x ∈ v.queued ∨ x ∈ v.node.waiters := Multiset.mem_add

theorem View.mem_tasks_put {v : View} (hx : x ∈ (v.put y).tasks) : x = y ∨ x ∈ v.tasks :=
  Multiset.mem_cons.1 (Ordered.tasks_put v y ▸ hx)

/-- After a turn the tasks are those from before, the one whose turn it was if it goes on, and perhaps a new one. -/
theorem View.Tended.mem_tasks (h : (v.put t).Tended s n k) (ht : v.Turn t k w j rs) (hx : x ∈ w.tasks) :
    x ∈ v.tasks ∨ t.Goes v.node x ∧ rs = [] ∨ t.Begins v.node k x ∧ j = k + 1 := by
  obtain ⟨new, hw, hnew⟩ := h.trades ht
  rw [hw.tasks] at hx
  exact (Multiset.mem_add.1 hx).symm.imp_right hnew.mem

theorem View.Turn.le (h : v.Turn t k w j rs) : k ≤ j := by
  cases h with
  | finished => exact Nat.le_refl k
  | answered _ ha => cases ha <;> first | exact Nat.le_refl k | exact Nat.le_succ k
  | crashed => exact Nat.le_refl k

/-! ## Tended clusters -/

theorem View.Tended.mono (h : v.Tended s n k) (hkj : k ≤ j) : v.Tended s n j :=
  ⟨{ h.ordered with numbered := fun x hx => Nat.lt_of_lt_of_le (h.ordered.numbered x hx) hkj }, h.staged⟩

/-- The tasks of all nodes do what is allowed, no two of all have the same number, and none has a result yet. -/
structure Tended (c : Cluster) : Prop where
  views : ∀ n, n < c.nodes.length → (c.view n).Tended (c.node n).setup n c.next
  known : ∀ t ∈ c.queued, t.node < c.nodes.length
  apart : ∀ m n, m < c.nodes.length → n < c.nodes.length → ∀ x ∈ (c.view m).tasks, ∀ y ∈ (c.view n).tasks,
    x.id = y.id → m = n
  pending : ∀ n, n < c.nodes.length → ∀ x ∈ (c.view n).tasks, c.result? x.id = none
  unborn : ∀ i, c.next ≤ i → c.result? i = none

theorem Tended.waiters (h : c.Tended) (hn : n < c.nodes.length) : ∀ x ∈ (c.node n).waiters, x.node = n :=
  fun x hx => (h.views n hn).ordered.housed x (View.mem_tasks.2 (.inr hx))

theorem lookup_noted (t : Task) (rs : List Result) (results : List (Nat × Result)) {i : Nat} (hi : i ≠ t.id) :
    (rs.map (t.id, ·) ++ results).lookup i = results.lookup i := by
  induction rs with
  | nil => rfl
  | cons r rs ih =>
    rw [List.map_cons, List.cons_append, List.lookup_cons, beq_eq_false_iff_ne.2 hi]
    exact ih

theorem mem_queued_view : x ∈ (c.view n).queued ↔ x ∈ c.queued ∧ x.node = n := by
  simp only [view, Multiset.mem_filter]

/-- A step of a cluster is a turn at one node. -/
theorem Tended.turn (h : c.Tended) (hr : c.ready = t :: tail) : t.node < c.nodes.length ∧
    ∃ (v w : View) (k : Nat) (rs : List Result), c.view t.node = v.put t ∧
      (v.put t).Tended (c.node t.node).setup t.node c.next ∧ v.Turn t c.next w k rs ∧
      Becomes t.node c c.step w k (rs.map (t.id, ·) ++ c.results) := by
  have hn : t.node < c.nodes.length :=
    h.known t (by rw [queued, hr]; exact Multiset.mem_add.2 (.inl (List.mem_cons_self ..)))
  obtain ⟨v, w, k, rs, hview, hturn, hb⟩ := step_turn hr hn (h.waiters hn)
  exact ⟨hn, v, w, k, rs, hview, hview ▸ h.views t.node hn, hturn, hb⟩

theorem Tended.step (h : c.Tended) : c.step.Tended := by
  cases hr : c.ready with
  | nil =>
    rw [Cluster.step, hr]
    exact h
  | cons t tail =>
    obtain ⟨hn, v, w, k, rs, hview, hv, hturn, hb⟩ := h.turn hr
    have hw : w.Tended (c.node t.node).setup t.node k := hv.turn hturn
    have hle : c.next ≤ k := hturn.le
    -- Every task of the node was there before, or is new.
    have hmem {x : Task} (hx : x ∈ w.tasks) : (∃ y ∈ (c.view t.node).tasks, y.id = x.id) ∨ x.id = c.next := by
      rw [hview]
      rcases hv.mem_tasks hturn hx with hx | ⟨hgoes, -⟩ | ⟨hbegins, -⟩
      · exact .inl ⟨x, View.Ordered.tasks_put v t ▸ Multiset.mem_cons_of_mem hx, rfl⟩
      · exact .inl ⟨t, View.Ordered.tasks_put v t ▸ Multiset.mem_cons_self .., hgoes.same.1.symm⟩
      · exact .inr hbegins.fresh.1
    have hother {n : Nat} (hn : n < c.nodes.length) (hne : n ≠ t.node) {x : Task} (hx : x ∈ (c.view n).tasks) :
        x.id ≠ t.id := by
      intro hid
      refine hne (h.apart n t.node hn (by assumption) x hx t ?_ hid)
      rw [hview]
      exact View.Ordered.tasks_put v t ▸ Multiset.mem_cons_self ..
    have hself {x : Task} (hx : x ∈ w.tasks) (hrs : rs ≠ []) : x.id ≠ t.id := by
      rcases hv.mem_tasks hturn hx with hx | ⟨-, hrs'⟩ | ⟨hbegins, -⟩
      · exact hv.ordered.id_ne hx
      · exact absurd hrs' hrs
      · rw [hbegins.fresh.1]
        exact hv.ordered.self.2.1.ne'
    have hlookup {i : Nat} (hi : rs ≠ [] → i ≠ t.id) : c.step.result? i = c.result? i := by
      rw [result?, hb.results, result?]
      cases rs with
      | nil => rfl
      | cons r rs => exact lookup_noted t _ _ (hi (List.cons_ne_nil r rs))
    refine ⟨fun n hn' => ?_, fun x hx => ?_, fun m n hm hn' x hx y hy hid => ?_, fun n hn' x hx => ?_, fun i hi => ?_⟩
    · rw [hb.next]
      by_cases hne : n = t.node
      · subst hne
        rw [hb.node_eq, hb.here, hw.ordered.setup]
        exact hw
      · have he := hb.elsewhere n hne
        rw [show c.step.node n = c.node n from congrArg View.node he, he]
        exact (h.views n (hb.known ▸ hn')).mono hle
    · rw [hb.known]
      by_cases hne : x.node = t.node
      · rw [hne]
        exact hn
      · have hx := mem_queued_view.2 ⟨hx, rfl⟩
        rw [hb.elsewhere x.node hne] at hx
        exact h.known x (mem_queued_view.1 hx).1
    · rw [hb.known] at hm hn'
      by_cases hm' : m = t.node
      · by_cases hne : n = t.node
        · rw [hm', hne]
        · subst hm'
          rw [hb.here] at hx
          rw [hb.elsewhere n hne] at hy
          rcases hmem hx with ⟨z, hz, hid'⟩ | hid'
          · exact h.apart _ n hm hn' z hz y hy (hid'.trans hid)
          · exact absurd ((h.views n hn').ordered.numbered y hy) (Nat.not_lt_of_le (by rw [← hid, hid']))
      · rw [hb.elsewhere m hm'] at hx
        by_cases hne : n = t.node
        · subst hne
          rw [hb.here] at hy
          rcases hmem hy with ⟨z, hz, hid'⟩ | hid'
          · exact h.apart m _ hm hn' x hx z hz (hid.trans hid'.symm)
          · exact absurd ((h.views m hm).ordered.numbered x hx) (Nat.not_lt_of_le (by rw [hid, hid']))
        · rw [hb.elsewhere n hne] at hy
          exact h.apart m n hm hn' x hx y hy hid
    · rw [hb.known] at hn'
      by_cases hne : n = t.node
      · subst hne
        rw [hb.here] at hx
        rw [hlookup (hself hx)]
        rcases hmem hx with ⟨z, hz, hid'⟩ | hid'
        · rw [← hid']
          exact h.pending _ hn' z hz
        · rw [hid']
          exact h.unborn _ (Nat.le_refl _)
      · rw [hb.elsewhere n hne] at hx
        rw [hlookup fun _ => hother hn' hne hx]
        exact h.pending n hn' x hx
    · rw [hb.next] at hi
      rw [hlookup fun _ => ((Nat.lt_of_lt_of_le hv.ordered.self.2.1 hle).trans_le hi).ne']
      exact h.unborn i (Nat.le_trans hle hi)

/-! ### Drifting and beginning -/

theorem View.tasks_drift (hq : w.queued = v.queued) (hx : v.node.Drifts w.node) : w.tasks = v.tasks := by
  rw [View.tasks, View.tasks, hq, hx.waiters]

theorem View.Tended.drift (h : v.Tended s n k) (hq : w.queued = v.queued) (hx : v.node.Drifts w.node) :
    w.Tended s n k := by
  have htasks := View.tasks_drift hq hx
  have hlifecycle : w.node.lifecycle = v.node.lifecycle := hx.lock .lifecycle
  have hjoin : w.node.join? = v.node.join? := by rw [Node.join?, Node.join?, hx.scheduler]
  obtain ⟨⟨hsetup, hhoused, hdistinct, hnumbered, hfair, hknown, hconduct⟩,
    ⟨hflight, hschedulers, hopened, hclosed, hhalting⟩⟩ := h
  refine ⟨⟨hx.setup.trans hsetup, htasks ▸ hhoused, htasks ▸ hdistinct, htasks ▸ hnumbered,
    fun l => hx.lock l ▸ hfair l, fun l i hi => htasks ▸ hknown l i (hx.lock l ▸ hi), fun z hz => ?_⟩,
    ⟨?_, ?_, ?_, ?_, ?_⟩⟩
  · have hwithin (l : Lock) : w.within l z = v.within l z := by rw [View.within, View.within, hx.lock]
    rw [hwithin, hwithin]
    exact hconduct z (htasks ▸ hz)
  · rw [htasks, hx.repository]
    exact hflight
  · rw [htasks, hjoin]
    exact hschedulers
  · rw [hx.scheduler, hx.repository]
    exact hopened
  · rw [hx.scheduler, hx.repository, htasks, hlifecycle, hq]
    exact hclosed
  · rw [htasks, hlifecycle, hx.scheduler]
    exact hhalting

theorem Drifts.queued_view (h : c.Drifts d) (n : Nat) : (d.view n).queued = (c.view n).queued := by
  rw [view, view, h.queued]

theorem Drifts.tasks (h : c.Drifts d) (n : Nat) : (d.view n).tasks = (c.view n).tasks :=
  View.tasks_drift (h.queued_view n) (h.nodes n)

theorem Tended.drift (h : c.Tended) (hd : c.Drifts d) : d.Tended := by
  have hresult (i : Nat) : d.result? i = c.result? i := by rw [result?, result?, hd.results]
  refine ⟨fun n hn => ?_, fun x hx => ?_, fun m n hm hn x hx y hy => ?_, fun n hn x hx => ?_, fun i hi => ?_⟩
  · rw [(hd.nodes n).setup, hd.next]
    exact (h.views n (hd.known ▸ hn)).drift (hd.queued_view n) (hd.nodes n)
  · rw [hd.known]
    exact h.known x (hd.queued ▸ hx)
  · rw [hd.tasks] at hx hy
    exact h.apart m n (hd.known ▸ hm) (hd.known ▸ hn) x hx y hy
  · rw [hd.tasks] at hx
    rw [hresult]
    exact h.pending n (hd.known ▸ hn) x hx
  · rw [hresult]
    exact h.unborn i (hd.next ▸ hi)

/-- A task begins that somebody waits for. -/
theorem View.Tended.begin (h : v.Tended s n k) (hid : y.id = k) (hn : y.node = n) (hrole : y.role = .awaited)
    (hc : y.Conducts s false false) : (v.put y).Tended s n (k + 1) := by
  have htasks := Ordered.tasks_put v y
  have hcount {role : Role} (hr : role ≠ .awaited) :
      (v.put y).tasks.countP (·.role = role) = v.tasks.countP (·.role = role) := by
    rw [htasks, Multiset.countP_cons, hrole, if_neg hr.symm, Nat.add_zero]
  have hout (l : Lock) : (v.put y).within l y = false := by
    refine decide_eq_false fun hi => ?_
    obtain ⟨x, hx, hid'⟩ := h.ordered.known l y.id hi
    exact absurd (h.ordered.numbered x hx) (Nat.not_lt_of_le (by rw [hid', hid]))
  have hnew {P : Task → Prop} (hy : P y) (hold : ∀ x ∈ v.tasks, P x) : ∀ x ∈ (v.put y).tasks, P x := fun x hx =>
    (mem_tasks_put hx).elim (fun he => he ▸ hy) (hold x)
  have hmem {x : Task} (hx : x ∈ v.tasks) : x ∈ (v.put y).tasks := htasks ▸ Multiset.mem_cons_of_mem hx
  refine ⟨⟨h.ordered.setup, hnew hn h.ordered.housed, ?_, hnew (by rw [hid]; exact Nat.lt_succ_self k) fun x hx =>
      Nat.lt_succ_of_lt (h.ordered.numbered x hx), h.ordered.fair, fun l i hi => ?_, hnew ?_ h.ordered.conduct⟩,
    ⟨?_, ?_, h.staged.opened, fun st hst hclosed => ?_, hnew ?_ h.staged.halting⟩⟩
  · rw [htasks, Multiset.map_cons, Multiset.nodup_cons]
    refine ⟨fun hy => ?_, h.ordered.distinct⟩
    obtain ⟨x, hx, hid'⟩ := Multiset.mem_map.1 hy
    exact absurd (h.ordered.numbered x hx) (Nat.not_lt_of_le (by rw [hid', hid]))
  · obtain ⟨x, hx, hid'⟩ := h.ordered.known l i hi
    exact ⟨x, hmem hx, hid'⟩
  · rw [hout, hout]
    exact .conducts hc
  · rw [hcount Role.noConfusion]
    exact h.staged.inFlight
  · rw [hcount Role.noConfusion]
    exact h.staged.schedulers
  · obtain ⟨ha, z, hz, hid', hr, hhalting, hstage⟩ := h.staged.closed st hst hclosed
    refine ⟨ha, z, hmem hz, hid', hr, hhalting, ?_⟩
    split at hstage
    · rename_i hp
      rw [if_pos hp]
      exact hstage
    · rename_i hp
      rw [if_neg hp]
      exact ⟨hstage.1, Multiset.mem_cons_of_mem hstage.2⟩
  · exact fun hhalting => absurd hhalting hc.not_halting

theorem Tended.spawn (h : c.Tended) (hn : n < c.nodes.length) {body : Operation Answer}
    (hlawful : body.Lawful (c.node n).setup false false)
    (hguarded : body.Guarded (c.node n).setup.hasEngine false false) : (c.spawn n .awaited body).Tended := by
  let y : Task := { id := c.next, node := n, role := .awaited, body }
  have hb : Becomes n c (c.spawn n .awaited body) ((c.view n).put y) (c.next + 1) c.results :=
    (Becomes.refl c n).spawn .awaited body
  have hw : ((c.view n).put y).Tended (c.node n).setup n (c.next + 1) :=
    (h.views n hn).begin rfl rfl rfl (.awaited rfl hlawful hguarded)
  have hresult (i : Nat) : (c.spawn n .awaited body).result? i = c.result? i := rfl
  have hview (m : Nat) {x : Task} (hx : x ∈ ((c.spawn n .awaited body).view m).tasks) :
      x ∈ (c.view m).tasks ∨ m = n ∧ x = y := by
    by_cases hm : m = n
    · subst hm
      rw [hb.here] at hx
      exact (View.mem_tasks_put hx).elim (fun he => .inr ⟨rfl, he⟩) .inl
    · rw [hb.elsewhere m hm] at hx
      exact .inl hx
  refine ⟨fun m hm => ?_, fun x hx => ?_, fun m m' hm hm' x hx z hz hid => ?_, fun m hm x hx => ?_, fun i hi => ?_⟩
  · by_cases hne : m = n
    · subst hne
      rw [hb.here]
      exact hw
    · rw [hb.elsewhere m hne]
      exact (h.views m hm).mono (Nat.le_succ _)
  · rw [Cluster.spawn, queued_enqueue] at hx
    rcases Multiset.mem_cons.1 hx with rfl | hx
    · exact hn
    · exact h.known x hx
  · rcases hview m hx with hx' | ⟨rfl, rfl⟩
    · rcases hview m' hz with hz' | ⟨rfl, rfl⟩
      · exact h.apart m m' hm hm' x hx' z hz' hid
      · exact absurd ((h.views m hm).ordered.numbered x hx') (Nat.not_lt_of_le (by rw [hid]))
    · rcases hview m' hz with hz' | ⟨rfl, rfl⟩
      · exact absurd ((h.views m' hm').ordered.numbered z hz') (Nat.not_lt_of_le (by rw [← hid]))
      · rfl
  · rw [hresult]
    rcases hview m hx with hx | ⟨rfl, rfl⟩
    · exact h.pending m hm x hx
    · exact h.unborn _ (Nat.le_refl _)
  · rw [hresult]
    exact h.unborn i (Nat.le_of_succ_le hi)

theorem Tended.begin (h : c.Tended) {x : Step} (hx : x.Known c.nodes.length) : (c.begin x).2.Tended := by
  induction x with
  | node m x => exact h.spawn hx (x.lawful_task _) (x.guarded_task _)
  | store x => exact h.spawn hx (Operation.Within.lawful x.free_task) x.modest_task.guarded
  | advance time =>
    exact h.spawn hx (Operation.Within.lawful (.bind (.lift (.ask rfl)) fun _ => .pure _))
      (.bind (.lift (.ask rfl)) fun _ => .pure _)
  | look l => exact h.spawn hx (Operation.Within.lawful (.pure _)) (.pure _)
  | change x =>
    have hd := drifts_change c x
    exact (h.drift hd).spawn (hd.known ▸ hx) (Operation.Within.lawful (.pure _)) (.pure _)
  | background x ih => exact ih hx
  | join number => exact h

theorem Tended.happens (h : c.Tended) (hd : c.Happens d) : d.Tended := by
  cases hd with
  | drift hd => exact h.drift hd
  | step => exact h.step
  | begin x hx => exact h.begin hx

/-- No node comes or goes, and numbers of tasks grow. -/
theorem Tended.bounds (h : c.Tended) (hd : c.Happens d) : d.nodes.length = c.nodes.length ∧ c.next ≤ d.next := by
  cases hd with
  | drift hd => exact ⟨hd.known, hd.next.ge⟩
  | step =>
    cases hr : c.ready with
    | nil =>
      rw [Cluster.step, hr]
      exact ⟨rfl, Nat.le_refl _⟩
    | cons t tail =>
      obtain ⟨-, v, w, k, rs, -, -, hturn, hb⟩ := h.turn hr
      exact ⟨hb.known, hb.next ▸ hturn.le⟩
  | begin x hx =>
    induction x with
    | change x => exact ⟨(drifts_change c x).known, Nat.le_of_lt (Nat.lt_succ_of_le (drifts_change c x).next.ge)⟩
    | background x ih => exact ih hx
    | join number => exact ⟨rfl, Nat.le_refl _⟩
    | _ => exact ⟨rfl, Nat.le_succ _⟩

/-- What holds at the begin of a course and is kept by all that happens on it. -/
theorem Tended.course {R : Cluster → Cluster → Prop} (hR : ∀ d e, R d e → d.Happens e) (hc : c.Tended)
    {P : Cluster → Prop} (hP : ∀ d e, d.Tended → d.nodes.length = c.nodes.length → c.next ≤ d.next → R d e → P d → P e)
    (h : P c) (hd : ReflTransGen R c d) : d.Tended ∧ d.nodes.length = c.nodes.length ∧ c.next ≤ d.next ∧ P d := by
  induction hd with
  | refl => exact ⟨hc, rfl, Nat.le_refl _, h⟩
  | @tail d e _ hlast ih =>
    obtain ⟨ht, hlength, hnext, hp⟩ := ih
    obtain ⟨hlength', hnext'⟩ := ht.bounds (hR _ _ hlast)
    exact ⟨ht.happens (hR _ _ hlast), hlength'.trans hlength, hnext.trans hnext', hP d e ht hlength hnext hlast hp⟩

theorem Initial.node (h : c.Initial) (n : Nat) : (c.node n).repository = {} ∧ (c.node n).lifecycle = {} ∧
    (c.node n).pass = {} ∧ (c.node n).scheduler = none := by
  rw [Cluster.node]
  cases hn : c.nodes[n]? with
  | none => exact ⟨rfl, rfl, rfl, rfl⟩
  | some x => exact h.nodes x (List.mem_of_getElem? hn)

theorem Initial.queued (h : c.Initial) : c.queued = 0 := by
  rw [Cluster.queued, h.ready, h.sleeping]
  rfl

theorem Initial.tasks (h : c.Initial) (n : Nat) : (c.view n).tasks = 0 := by
  obtain ⟨-, hlifecycle, hpass, hscheduler⟩ := h.node n
  have hwaiters : (c.node n).waiters = [] := by
    rw [Node.waiters, hlifecycle, hpass, hscheduler]
    rfl
  rw [View.tasks, view, h.queued]
  exact congrArg Multiset.ofList hwaiters

theorem Initial.tended (h : c.Initial) : c.Tended := by
  have htasks := h.tasks
  have hnone {P : Task → Prop} (n : Nat) : ∀ x ∈ (c.view n).tasks, P x := fun x hx =>
    absurd (htasks n ▸ hx) (Multiset.notMem_zero x)
  refine ⟨fun n hn => ⟨⟨rfl, hnone n, ?_, hnone n, fun l => ?_, fun l i hi => ?_, hnone n⟩,
      ⟨?_, ?_, fun st hst => ?_, fun st hst => ?_, hnone n⟩⟩,
    fun x hx => absurd (h.queued ▸ hx) (Multiset.notMem_zero x), fun m _ _ _ => hnone m, fun n _ => hnone n,
    fun i _ => ?_⟩
  · rw [htasks]
    exact Multiset.nodup_zero
  · obtain ⟨-, hlifecycle, hpass, -⟩ := h.node n
    cases l with
    | lifecycle => exact (show (c.node n).lifecycle.Fair from hlifecycle ▸ ⟨fun _ => rfl, List.nodup_nil⟩)
    | pass => exact (show (c.node n).pass.Fair from hpass ▸ ⟨fun _ => rfl, List.nodup_nil⟩)
  · obtain ⟨-, hlifecycle, hpass, -⟩ := h.node n
    cases l with
    | lifecycle =>
      have hi : i ∈ (c.node n).lifecycle.ids := hi
      rw [hlifecycle] at hi
      cases hi
    | pass =>
      have hi : i ∈ (c.node n).pass.ids := hi
      rw [hpass] at hi
      cases hi
  · rw [htasks]
    exact congrArg (·.inFlight) (h.node n).1
  · have hjoin : (c.view n).node.join? = some (.ok ()) := by
      show (c.node n).join? = _
      rw [Node.join?, (h.node n).2.2.2]
    rw [htasks, hjoin]
    rfl
  · have hst : (c.node n).scheduler = some st := hst
    rw [(h.node n).2.2.2] at hst
    cases hst
  · have hst : (c.node n).scheduler = some st := hst
    rw [(h.node n).2.2.2] at hst
    cases hst
  · rw [result?, h.results]
    rfl

theorem Possible.happens (h : c.Possible) (hd : c.Happens d) : d.Possible := by
  obtain ⟨c₀, h₀, hc⟩ := h
  exact ⟨c₀, h₀, hc.tail hd⟩

theorem Possible.proceed (h : c.Possible) (k : Nat) : (Cluster.proceed^[k] c).Possible := by
  induction k generalizing c with
  | zero => exact h
  | succ k ih => exact ih (h.happens (happens_proceed c))

/-- After any course the tasks of all nodes are tended. -/
theorem Possible.tended (h : c.Possible) : c.Tended := by
  obtain ⟨c₀, h₀, hc⟩ := h
  induction hc with
  | refl => exact h₀.tended
  | tail _ hd ih => exact ih.happens hd

end DurableAggregates.Cluster
