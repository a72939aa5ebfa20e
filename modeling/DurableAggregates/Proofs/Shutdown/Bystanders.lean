import DurableAggregates.Proofs.Shutdown.Descent
import DurableAggregates.Proofs.Shutdown.Places

/-!
# Bystanders

When somebody stops a repository and nobody calls anything else, the only other tasks are redeliveries and the
scheduler of the node (`Winding`). What these do in their turns concerns neither the lifecycle lock nor the monitor of
the node, and leaves less under way (`Winding.aside`). So an uninterrupted course, on which tasks go on in the order of
the queues and time passes only when none can, gets to wherever such turns lead (`Uninterrupted.eventually`).
-/

namespace DurableAggregates.Cluster

variable {s : Setup} {n m i k j : Nat} {c d e : Cluster} {t x : Task} {tail : List Task} {v w : View} {rs : List Result}
  {f : Nat → Cluster}

/-! ## Courses in order -/

/-- The ways of the store and of the collaborators change, and nothing else. -/
structure Veers (c d : Cluster) : Prop where
  drifts : c.Drifts d
  now : d.now = c.now
  ready : d.ready = c.ready
  sleeping : d.sleeping = c.sleeping

theorem Veers.refl (c : Cluster) : c.Veers c :=
  ⟨⟨rfl, fun _ => .refl _, rfl, rfl, rfl⟩, rfl, rfl, rfl⟩

/--
A cluster that comes about when tasks go on in the order of the queues and time passes only when none can, whatever is
begun, and to whatever ways the store and the collaborators change.
-/
inductive Reached : Cluster → Prop where
  | initial {c : Cluster} (h : c.Initial) : Reached c
  | proceed {c d : Cluster} (h : Reached c) (hv : c.Veers d) : Reached d.proceed
  | begin {c : Cluster} (h : Reached c) {x : Step} (hx : x.Known c.nodes.length) : Reached (c.begin x).2

/-- A course in order on which nothing is begun. -/
def Uninterrupted (f : Nat → Cluster) : Prop := ∀ j, ∃ d, (f j).Veers d ∧ f (j + 1) = d.proceed

theorem Reached.possible (h : c.Reached) : c.Possible := by
  induction h with
  | initial h => exact ⟨_, h, .refl⟩
  | proceed _ hv ih => exact (ih.happens (.drift hv.drifts)).happens (happens_proceed _)
  | begin _ hx ih => exact ih.happens (.begin _ hx)

theorem inOrder_begin (h : c.InOrder) (x : Step) : (c.begin x).2.InOrder := by
  induction x with
  | change x => cases x <;> exact h
  | background x ih => exact ih
  | _ => exact h

theorem Veers.inOrder (hv : c.Veers d) (h : c.InOrder) : d.InOrder := by
  show d.sleeping.Pairwise _
  rw [hv.sleeping]
  exact h

theorem Reached.inOrder (h : c.Reached) : c.InOrder := by
  induction h with
  | initial h =>
    show List.Pairwise _ _
    rw [h.sleeping]
    exact .nil
  | proceed _ hv ih => exact (hv.inOrder ih).proceed
  | begin _ hx ih => exact inOrder_begin ih _

theorem Reached.uninterrupted (h : (f 0).Reached) (hf : Uninterrupted f) (j : Nat) : (f j).Reached := by
  induction j with
  | zero => exact h
  | succ j ih =>
    obtain ⟨d, hv, hd⟩ := hf j
    rw [hd]
    exact ih.proceed hv

theorem Uninterrupted.known (hf : Uninterrupted f) (h : (f 0).Tended) (j : Nat) :
    (f j).Tended ∧ (f j).nodes.length = (f 0).nodes.length := by
  induction j with
  | zero => exact ⟨h, rfl⟩
  | succ j ih =>
    obtain ⟨htended, hlength⟩ := ih
    obtain ⟨d, hv, hd⟩ := hf j
    have hdrift := htended.drift hv.drifts
    rw [hd]
    exact ⟨hdrift.happens (happens_proceed d),
      (hdrift.bounds (happens_proceed d)).1.trans (hv.drifts.known.trans hlength)⟩

/-- Time does not run backwards. -/
theorem Uninterrupted.now_mono (hf : Uninterrupted f) : Monotone fun j => (f j).now := by
  refine monotone_nat_of_le_succ fun j => ?_
  obtain ⟨d, hv, hd⟩ := hf j
  rw [hd, ← hv.now]
  unfold Cluster.proceed
  split
  · exact now_le_wakeNext d
  · exact (now_step d).ge

/-- What spends something as long as it has not got to a goal gets there. -/
theorem eventually {P Q : Nat → Prop} {a : Nat} (ha : P a)
    (h : ∀ j, a ≤ j → P j → Q j ∨ P (j + 1) ∧ (f (j + 1)).Spends (f j)) :
    ∃ b, a ≤ b ∧ Q b ∧ P b ∧ ∀ j, a ≤ j → j < b → P j ∧ ¬Q j := by
  induction a using (InvImage.wf f wellFounded_spends).induction with
  | _ a ih =>
    by_cases hq : Q a
    · exact ⟨a, Nat.le_refl a, hq, ha, fun j hle hlt => absurd hlt (Nat.not_lt_of_le hle)⟩
    · obtain ⟨hp, hspends⟩ := (h a (Nat.le_refl a) ha).resolve_left hq
      obtain ⟨b, hab, hqb, hpb, hall⟩ := ih (a + 1) hspends hp fun j hj => h j (Nat.le_of_succ_le hj)
      refine ⟨b, Nat.le_of_succ_le hab, hqb, hpb, fun j hle hlt => ?_⟩
      rcases Nat.eq_or_lt_of_le hle with rfl | hle
      · exact ⟨ha, hq⟩
      · exact hall j hle hlt

/-! ## What bystanders leave alone -/

/-- What the monitor of a node has been told, if there is one. -/
def Node.heard (x : Node) : Bool × List RouteError := (x.monitored, x.reports)

namespace View

@[simp] theorem heard_leave (v : View) (r : Repository) : (v.leave r).node.heard = v.node.heard := rfl

@[simp] theorem heard_release (v : View) (l : Lock) : (v.release l).node.heard = v.node.heard := by
  rw [node_release]
  cases l <;> rfl

@[simp] theorem heard_surrender (v : View) (t : Task) (l : Lock) : (v.surrender t l).node.heard = v.node.heard := by
  unfold View.surrender
  split
  · exact heard_release v l
  · rfl

@[simp] theorem heard_endScheduler (v : View) (p : SchedulerPhase) : (v.endScheduler p).node.heard = v.node.heard := by
  unfold View.endScheduler
  split
  · rfl
  · dsimp only
    split <;> rfl

namespace Tended

variable (h : (v.put t).Tended s n k)
include h

/-- What redeliveries and schedulers ask for. -/
theorem asks {r₀ r : Repository} {q : Request} {next : q.Answer → Repository → Run (Except RepositoryError Answer)}
    (hrole : t.role ≠ .awaited) (hrun : t.body.run r₀ = .asking q r next) :
    q.isSlow = true ∨ t.role = .scheduler ∧ q.isRound = true := by
  have hconducts := h.ordered.self.2.2.of_role hrole
  cases hr : t.role with
  | awaited => exact absurd hr hrole
  | scheduler => exact .inr ⟨rfl, hconducts.isRound hrun hr⟩
  | redelivery =>
    exact .inl (Bool.eq_true_of_not_eq_false fun hq => hconducts.role_ne_redelivery hrun hq hr)

/-- Only awaited tasks tell the monitor of errors. -/
theorem heard_turn (ht : v.Turn t k w j rs) (hrole : t.role ≠ .awaited) : w.node.heard = v.node.heard := by
  cases ht with
  | finished =>
    unfold View.finish
    split <;> simp
  | crashed =>
    unfold View.crash
    dsimp only
    split <;> simp
  | answered hrun ha =>
    cases ha with
    | reported => rcases h.asks hrole hrun with hq | ⟨-, hq⟩ <;> cases hq
    | acquired =>
      rename_i l next
      rw [node_acquire]
      cases l <;> rfl
    | released => exact heard_release _ _
    | _ => rfl

/-- Only awaited tasks are inside the lifecycle lock. -/
theorem lifecycle_turn (ht : v.Turn t k w j rs) (hrole : t.role ≠ .awaited) :
    w.node.lifecycle = v.node.lifecycle := by
  show w.node.lock .lifecycle = v.node.lock .lifecycle
  rcases h.lock_turn ht .lifecycle with hl | ⟨next, x, -, hrun, -⟩ | ⟨hheld, -⟩
  · exact hl
  · rcases h.asks hrole hrun with hq | ⟨-, hq⟩ <;> cases hq
  · have hin : v.within .lifecycle t = true := decide_eq_true (mem_ids_of_holder hheld)
    exact absurd (hin.symm.trans (h.ordered.self.2.2.outside hrole)) Bool.noConfusion

/-- A redelivery leaves the scheduler alone and begins no redelivery. -/
theorem redelivery_turn (ht : v.Turn t k w j rs) (hrole : t.role = .redelivery) :
    w.node.scheduler = v.node.scheduler ∧ w.node.repository.inFlight ≤ v.node.repository.inFlight := by
  have hawaited : t.role ≠ .awaited := by rw [hrole]; exact Role.noConfusion
  have hslow {q : Request} {r : Repository} {next : q.Answer → Repository → Run (Except RepositoryError Answer)}
      (hrun : t.body.run v.node.repository = .asking q r next) : q.isSlow = true :=
    (h.asks hawaited hrun).resolve_right fun hr => Role.noConfusion (hrole.symm.trans hr.1)
  constructor
  · cases ht with
    | finished =>
      unfold View.finish
      rw [hrole]
      rfl
    | crashed =>
      unfold View.crash
      rw [hrole]
      simp
    | answered hrun ha =>
      have hq := hslow hrun
      cases ha with
      | slow => rfl
      | called => rfl
      | undelivered => rfl
      | delivered => rfl
      | _ => cases hq
  · obtain ⟨new, hw, hnew⟩ := h.trades ht
    have hflight := h.staged.inFlight
    have hflight' := (h.turn ht).staged.inFlight
    rw [Ordered.tasks_put, Multiset.countP_cons, if_pos hrole] at hflight
    rw [hw.tasks, Multiset.countP_add] at hflight'
    have hcount : new.countP (·.role = .redelivery) ≤ 1 := by
      cases hnew with
      | ended => exact Nat.zero_le 1
      | goes hx => exact Multiset.countP_le_card ..
      | begins _ hy =>
        cases hy with
        | dispatched hrun => cases hslow hrun
        | launched hrun => cases hslow hrun
    have hnode : (v.put t).node = v.node := rfl
    rw [hnode] at hflight
    omega

/-- Redeliveries and schedulers do not make a node forget its scheduler. -/
theorem scheduler_ne_none (ht : v.Turn t k w j rs) (hrole : t.role ≠ .awaited) (hs : v.node.scheduler ≠ none) :
    w.node.scheduler ≠ none := by
  have hend {u : View} (hu : u.node.scheduler ≠ none) (p : SchedulerPhase) :
      (u.endScheduler p).node.scheduler ≠ none := by
    unfold View.endScheduler
    split
    · exact hu
    · dsimp only
      split <;> exact Option.some_ne_none _
  cases ht with
  | @finished result r =>
    unfold View.finish
    split
    · exact hs
    · exact hs
    · exact hs
    · exact hend (u := v.leave r) hs _
  | crashed =>
    unfold View.crash
    dsimp only
    split
    · simpa using hs
    · simpa using hs
    · exact hend (by simpa using hs) _
  | answered hrun ha =>
    cases ha with
    | ticked => simpa [View.setScheduler, View.set] using hs
    | acquired => simpa using hs
    | released => simpa using hs
    | launched => exact Option.some_ne_none _
    | closing => exact Option.some_ne_none _
    | joined => rcases h.asks hrole hrun with hq | ⟨-, hq⟩ <;> cases hq
    | reported => rcases h.asks hrole hrun with hq | ⟨-, hq⟩ <;> cases hq
    | _ => exact hs

end Tended

end View

/-! ## Nobody else -/

/-- The only tasks under way are redeliveries, the scheduler of a node, and the task with a number. -/
structure Winding (n i : Nat) (c : Cluster) : Prop where
  tended : c.Tended
  inOrder : c.InOrder
  known : n < c.nodes.length
  alone : ∀ x ∈ c.crowd, x.id = i ∨ x.role = .redelivery ∨ x.role = .scheduler ∧ x.node = n

theorem mem_crowd : x ∈ c.crowd ↔ ∃ m < c.nodes.length, x ∈ (c.view m).tasks := by
  simp only [crowd, Multiset.mem_bind, Multiset.mem_range]

theorem Drifts.crowd (hd : c.Drifts d) : d.crowd = c.crowd := by
  rw [Cluster.crowd, Cluster.crowd, hd.known]
  exact Multiset.bind_congr fun m _ => hd.tasks m

theorem Winding.drift (h : c.Winding n i) (hd : c.Drifts d) (hs : d.InOrder) : d.Winding n i :=
  ⟨h.tended.drift hd, hs, hd.known ▸ h.known, hd.crowd ▸ h.alone⟩

theorem Winding.step (h : c.Winding n i) (hr : c.ready = t :: tail)
    (hlaunch : ∀ interval r next, t.body.run (c.node t.node).repository ≠ .asking (.launch interval) r next) :
    c.step.Winding n i := by
  obtain ⟨hn, v, w, k, rs, hview, hv, hturn, hb⟩ := h.tended.turn hr
  have hnode : c.node t.node = v.node := congrArg View.node hview
  have ht : t ∈ c.crowd := mem_crowd.2 ⟨_, hn, hview ▸ View.mem_put v t⟩
  refine ⟨h.tended.step, h.inOrder.step, hb.known ▸ h.known, fun x hx => ?_⟩
  obtain ⟨m, hm, hx⟩ := mem_crowd.1 hx
  rw [hb.known] at hm
  by_cases hne : m = t.node
  · rw [hne, hb.here] at hx
    rcases hv.mem_tasks hturn hx with hx | ⟨hgoes, -⟩ | ⟨hbegins, -⟩
    · exact h.alone x (mem_crowd.2 ⟨_, hn, hview ▸ View.mem_put_of_mem hx⟩)
    · obtain ⟨hid, hnode, hrole⟩ := hgoes.same
      rw [hid, hnode, hrole]
      exact h.alone t ht
    · cases hbegins with
      | dispatched => exact .inr (.inl rfl)
      | launched hrun => exact absurd (hnode ▸ hrun) (hlaunch _ _ _)
  · rw [hb.elsewhere m hne] at hx
    exact h.alone x (mem_crowd.2 ⟨m, hm, hx⟩)

/-! ## What others do meanwhile -/

/-- What has happened to a node while the task with a number had no turn and the repository did not run. -/
structure Aside (n i : Nat) (c d : Cluster) : Prop where
  winding : d.Winding n i
  now : c.now ≤ d.now
  active : (d.node n).repository.active = none
  heard : (d.node n).heard = (c.node n).heard
  lifecycle : (d.node n).lifecycle = (c.node n).lifecycle
  scheduler : (c.node n).scheduler ≠ none → (d.node n).scheduler ≠ none
  /-- After the end of the scheduler no redelivery is begun. -/
  ended : (c.node n).join? ≠ none → (d.node n).scheduler = (c.node n).scheduler ∧
    (d.node n).repository.inFlight ≤ (c.node n).repository.inFlight
  tasks : ∀ x ∈ (c.view n).tasks, x.id = i → x ∈ (d.view n).tasks

namespace Aside

theorem refl (h : c.Winding n i) (ha : (c.node n).repository.active = none) : Aside n i c c :=
  ⟨h, Nat.le_refl _, ha, rfl, rfl, id, fun _ => ⟨rfl, Nat.le_refl _⟩, fun _ hx _ => hx⟩

theorem trans (h : Aside n i c d) (h' : Aside n i d e) : Aside n i c e where
  winding := h'.winding
  now := h.now.trans h'.now
  active := h'.active
  heard := h'.heard.trans h.heard
  lifecycle := h'.lifecycle.trans h.lifecycle
  scheduler hs := h'.scheduler (h.scheduler hs)
  ended hj := by
    obtain ⟨hs, hf⟩ := h.ended hj
    obtain ⟨hs', hf'⟩ := h'.ended (by rw [Node.join?, hs]; exact hj)
    exact ⟨hs'.trans hs, hf'.trans hf⟩
  tasks x hx hid := h'.tasks x (h.tasks x hx hid) hid

theorem drift (h : c.Winding n i) (ha : (c.node n).repository.active = none) (hd : c.Drifts d) (hs : d.InOrder)
    (hnow : c.now ≤ d.now) : Aside n i c d := by
  have hn := hd.nodes n
  exact
    { winding := h.drift hd hs
      now := hnow
      active := hn.repository ▸ ha
      heard := by rw [hn.same]; rfl
      lifecycle := hn.lock .lifecycle
      scheduler := fun hs => hn.scheduler ▸ hs
      ended := fun _ => ⟨hn.scheduler, by rw [hn.repository]⟩
      tasks := fun x hx _ => hd.tasks n ▸ hx }

theorem step (h : c.Winding n i) (ha : (c.node n).repository.active = none) (hr : c.ready = t :: tail)
    (ht : t.id ≠ i) : Aside n i c c.step ∧ c.step.Spends c := by
  obtain ⟨hn, v, w, k, rs, hview, hv, hturn, hb⟩ := h.tended.turn hr
  have hnode : c.node t.node = v.node := congrArg View.node hview
  have hrole : t.role = .redelivery ∨ t.role = .scheduler ∧ t.node = n :=
    (h.alone t (mem_crowd.2 ⟨_, hn, hview ▸ View.mem_put v t⟩)).resolve_left ht
  have hawaited : t.role ≠ .awaited := by
    rcases hrole with hrole | ⟨hrole, -⟩ <;> rw [hrole] <;> exact Role.noConfusion
  have hwinding : c.step.Winding n i := h.step hr fun interval r next hrun => by
    rcases hv.asks hawaited (hnode ▸ hrun) with hq | ⟨-, hq⟩ <;> cases hq
  refine ⟨?_, h.tended.spends hr (hrole.imp_right fun ⟨hs, hm⟩ => ⟨hs, by rw [hm]; exact ha⟩)⟩
  by_cases hne : n = t.node
  · subst hne
    rw [hnode] at ha
    have hout : v.within .lifecycle t = false := hv.ordered.self.2.2.outside hawaited
    have hactive : c.step.node t.node = w.node := hb.node_eq
    refine ⟨hwinding, (now_step c).ge, ?_, ?_, ?_, fun hs => ?_, fun hj => ?_, fun x hx hid => ?_⟩
    · rw [hactive, hv.active_turn hturn hout, ha]
    · rw [hactive, hnode, hv.heard_turn hturn hawaited]
    · rw [hactive, hnode, hv.lifecycle_turn hturn hawaited]
    · rw [hactive]
      exact hv.scheduler_ne_none hturn hawaited (hnode ▸ hs)
    · have hredelivery := hrole.resolve_right fun hr => hj (hnode ▸ Node.join?_eq_none.2 (hv.alive_of_scheduler hr.1))
      rw [hactive, hnode]
      exact hv.redelivery_turn hturn hredelivery
    · rw [hb.here]
      rw [hview] at hx
      refine hv.mem_turn hturn ((View.mem_tasks_put hx).resolve_left fun he => ht ?_)
      rw [← he, hid]
  · have hsame := hb.elsewhere n hne
    have hsame' : c.step.node n = c.node n := congrArg View.node hsame
    refine ⟨hwinding, (now_step c).ge, by rw [hsame', ha], by rw [hsame'], by rw [hsame'], by rw [hsame']; exact id,
      by rw [hsame']; exact fun _ => ⟨rfl, Nat.le_refl _⟩, by rw [hsame]; exact fun x hx _ => hx⟩

/-- What happens next is aside from the task with the number if it is not its turn. -/
theorem moves (h : c.Winding n i) (ha : (c.node n).repository.active = none) (hv : c.Veers d)
    (hhead : ∀ t tail, c.ready = t :: tail → t.id ≠ i) : Aside n i c d.proceed := by
  have hd := Aside.drift h ha hv.drifts (hv.inOrder h.inOrder) hv.now.ge
  cases hr : d.ready with
  | nil =>
    rw [Cluster.proceed, hr, List.isEmpty_nil, if_pos rfl]
    exact hd.trans (.drift hd.winding hd.active (drifts_wakeNext d) hd.winding.inOrder.wakeNext (now_le_wakeNext d))
  | cons t tail =>
    rw [Cluster.proceed, hr, List.isEmpty_cons, if_neg Bool.false_ne_true]
    exact hd.trans (Aside.step hd.winding hd.active hr (hhead t tail (hv.ready ▸ hr))).1

/-- As long as the task with the number has no turn, and not all is at rest, others get on. -/
theorem proceed (h : c.Winding n i) (ha : (c.node n).repository.active = none) (hv : c.Veers d)
    (hhead : ∀ t tail, c.ready = t :: tail → t.id ≠ i) (hrest : c.ready = [] → c.sleeping ≠ []) :
    Aside n i c d.proceed ∧ d.proceed.Spends c := by
  refine ⟨moves h ha hv hhead, ?_⟩
  have hspends {e : Cluster} (he : e.Spends d) : e.Spends c := by
    rw [Spends, hv.drifts.crowd, hv.sleeping] at he
    exact he
  cases hr : d.ready with
  | nil =>
    rw [Cluster.proceed, hr, List.isEmpty_nil, if_pos rfl]
    exact hspends (spends_wakeNext (hv.sleeping ▸ hrest (hv.ready ▸ hr)))
  | cons t tail =>
    rw [Cluster.proceed, hr, List.isEmpty_cons, if_neg Bool.false_ne_true]
    have hd := Aside.drift h ha hv.drifts (hv.inOrder h.inOrder) hv.now.ge
    exact hspends (Aside.step hd.winding hd.active hr (hhead t tail (hv.ready ▸ hr))).2

end Aside

end DurableAggregates.Cluster
