import DurableAggregates.Proofs.Interleaving.Effects
import Mathlib.Logic.Hydra

/-!
# Tasks run out

A redelivery makes finitely many requests, and so does a scheduler that is being closed: it gets no tick any more, so
it ends when it asks for the next one. Each turn of such a task replaces it by tasks that are `Below` it, finitely many
of them, and that cannot go on for ever (`Spends`): what is under way as a multiset of tasks decreases, and when no
task can go on, the number of those that sleep does.
-/

namespace DurableAggregates.Cluster

open Relation (CutExpand)

variable {s : Setup} {n m k j : Nat} {c d : Cluster} {t x : Task} {tail : List Task} {v w : View} {rs : List Result}
  {q : Request} {next : q.Answer → Operation Answer} {b : Operation Answer} {p : Pause}

/-! ## Bodies -/

/-- What a task does after a turn, with what it waits for, and what it did before. -/
inductive Nearer : Operation Answer × Pause → Operation Answer × Pause → Prop where
  | answered {b : Operation Answer} {p p' : Pause} {q : Request} {r r' : Repository} {f : q.Answer → Operation Answer}
      (hrun : b.run r = .asking q r' fun a => (f a).run) (a : q.Answer) : Nearer (f a, p') (b, p)
  | reacted {b : Operation Answer} {p p' : Pause} {q : Request} (hq : q.isReacted = true) {r r' : Repository}
      {f : q.Answer → Operation Answer} (hrun : b.run r = .asking q r' fun a => (f a).run)
      {y : Procedure q.Answer} (hy : y.Modest) : Nearer (do f (← y), p') (b, p)
  | delayed {b : Operation Answer} {p : Pause} (hp : p ≠ .delay) {q : Request} {r r' : Repository}
      {f : q.Answer → Operation Answer} (hrun : b.run r = .asking q r' fun a => (f a).run) :
      Nearer (asking q f, .delay) (b, p)

/-- Whatever the answer to a request is, and whatever the reaction to it, what follows comes to an end. -/
def Answerable (q : Request) (next : q.Answer → Operation Answer) : Prop :=
  (∀ a p, Acc Nearer (next a, p)) ∧
    (q.isReacted = true → ∀ y : Procedure q.Answer, y.Modest → ∀ p, Acc Nearer (do next (← y), p))

theorem eq_of_run_eq {q q' : Request} {r r' : Repository} {f : q.Answer → Operation Answer}
    {g : q'.Answer → Operation Answer} {P : (q : Request) → (q.Answer → Operation Answer) → Prop}
    (h : Run.asking q r (fun a => (f a).run) = .asking q' r' fun a => (g a).run) (hf : P q f) : P q' g := by
  injection h with hq _ hnext
  subst hq
  obtain rfl : f = g := funext fun a => congrFun (eq_of_heq hnext) a
  exact hf

/-- A body whose requests are answerable comes to an end, also if it waits for a delay first. -/
theorem acc_of_answerable (h : ∀ (r r' : Repository) (q : Request) (next : q.Answer → Operation Answer),
    b.run r = .asking q r' (fun a => (next a).run) → Answerable q next) (p : Pause) : Acc Nearer (b, p) := by
  have hdelayed {b : Operation Answer} (h : ∀ (r r' : Repository) (q : Request) (next : q.Answer → Operation Answer),
      b.run r = .asking q r' (fun a => (next a).run) → Answerable q next) : Acc Nearer (b, .delay) := by
    refine .intro _ fun x hx => ?_
    cases hx with
    | answered hrun a => exact (h _ _ _ _ hrun).1 a _
    | reacted hq hrun hy => exact (h _ _ _ _ hrun).2 hq _ hy _
    | delayed hp => exact absurd rfl hp
  refine .intro _ fun x hx => ?_
  cases hx with
  | answered hrun a => exact (h _ _ _ _ hrun).1 a _
  | reacted hq hrun hy => exact (h _ _ _ _ hrun).2 hq _ hy _
  | delayed hp hrun => exact hdelayed fun r₀ _ _ _ hrun' => eq_of_run_eq (P := Answerable) hrun' (h _ _ _ _ hrun)

/-- A reaction makes store calls only, so what follows it is answerable if what follows its end is. -/
theorem answerable_of_modest {o : Option Policy × Nat} {z : Run q.Answer} (hz : z.Modest o)
    (h : ∀ a r, ∀ (q' : Request) (r' : Repository) (next' : q'.Answer → Operation Answer),
      (next a).run r = .asking q' r' (fun a => (next' a).run) → Answerable q' next') :
    ∀ (q' : Request) (r' : Repository) (next' : q'.Answer → Operation Answer),
      z.bind (fun a => (next a).run) = .asking q' r' (fun a => (next' a).run) → Answerable q' next' := by
  induction hz with
  | finished => exact h _ _
  | @asking o call r hr nz _ ih =>
    intro q' r' next' hrun
    refine eq_of_run_eq (P := Answerable) (q := .store call)
      (f := fun a => ExceptT.mk fun t => (nz a t).bind fun a => (next a).run) hrun
      ⟨fun a p => ?_, fun hq => by cases hq⟩
    exact acc_of_answerable (fun r₀ r₁ q₁ next₁ hrun₁ => ih a r₀ q₁ r₁ next₁ hrun₁) p

theorem answerable (x : Run (Except RepositoryError Answer)) : ∀ (q : Request) (r : Repository)
    (next : q.Answer → Operation Answer), x = .asking q r (fun a => (next a).run) → Answerable q next := by
  induction x with
  | finished => exact fun q r next hrun => nomatch hrun
  | asking q r nx ih =>
    intro q' r' next' hrun
    refine eq_of_run_eq (P := Answerable) (q := q) (f := fun a => ExceptT.mk (nx a)) hrun
      ⟨fun a p => acc_of_answerable (fun r₀ r₁ q₁ next₁ => ih a r₀ q₁ r₁ next₁) p, fun _ y hy p => ?_⟩
    refine acc_of_answerable (fun r₀ r₁ q₁ next₁ hrun₁ => ?_) p
    rw [run_lift_bind] at hrun₁
    exact answerable_of_modest (hy r₀) (fun a t => ih a t) q₁ r₁ next₁ hrun₁

theorem wellFounded_nearer : WellFounded Nearer :=
  ⟨fun (b, p) => acc_of_answerable (fun r r' q next hrun => answerable (b.run r) q r' next hrun) p⟩

/-! ## Tasks -/

open Classical in
/-- Redeliveries are below schedulers, and of these the ones that only wait for their end below the others. -/
noncomputable def Task.level (t : Task) : Nat :=
  match t.role with
  | .scheduler => if Ending t.body then 1 else if Ticking t.body then 2 else 3
  | _ => 0

/-- A task is below another if it may come from it in a turn. -/
def Task.Below (x t : Task) : Prop :=
  Prod.Lex (· < ·) Nearer (x.level, x.body, x.pause) (t.level, t.body, t.pause)

theorem wellFounded_below : WellFounded Task.Below :=
  InvImage.wf (fun t : Task => (t.level, t.body, t.pause)) (WellFounded.prod_lex Nat.lt_wfRel.wf wellFounded_nearer)

theorem Task.Below.of_le (hlevel : x.level ≤ t.level) (h : Nearer (x.body, x.pause) (t.body, t.pause)) : x.Below t := by
  rcases Nat.lt_or_eq_of_le hlevel with hlt | he
  · exact .left _ _ hlt
  · rw [Task.Below, he]
    exact .right _ h

theorem Task.level_le (t : Task) : t.level ≤ 3 := by
  unfold Task.level
  split
  · split
    · decide
    · split <;> decide
  · decide

theorem Task.level_of_ne (h : t.role ≠ .scheduler) : t.level = 0 := by
  unfold Task.level
  split
  · rename_i hrole
    exact absurd hrole h
  · rfl

theorem Task.level_pos (h : t.role = .scheduler) : 0 < t.level := by
  unfold Task.level
  rw [h]
  dsimp only
  split
  · decide
  · split <;> decide

theorem Task.level_of_ending (hrole : t.role = .scheduler) (h : Ending t.body) : t.level = 1 := by
  unfold Task.level
  rw [hrole]
  exact if_pos h

theorem Task.level_of_ticking (hrole : t.role = .scheduler) (h : Ticking t.body) : t.level = 2 := by
  unfold Task.level
  rw [hrole]
  refine (if_neg fun he => ?_).trans (if_pos h)
  obtain ⟨next, hrun, -⟩ := h
  cases (hrun {}).symm.trans (he {})

/-- A scheduler on the highest level neither ends nor asks for a tick. -/
theorem Task.level_of_not (hrole : t.role = .scheduler) (he : ¬Ending t.body) (ht : ¬Ticking t.body) : t.level = 3 := by
  unfold Task.level
  rw [hrole]
  exact (if_neg he).trans (if_neg ht)

/-! ## Turns -/

namespace View.Tended

variable (h : (v.put t).Tended s n k)
include h

/-- A redelivery goes on with what is nearer to its end, and begins nothing. -/
theorem below_redelivery (ht : v.Turn t k w j rs) (hrole : t.role = .redelivery) :
    ∃ new, w.tasks = new + v.tasks ∧ ∀ x ∈ new, x.Below t := by
  have hconducts := h.ordered.self.2.2.of_role (by rw [hrole]; exact Role.noConfusion)
  have hslow {q : Request} {r : Repository} {next : q.Answer → Operation Answer}
      (hrun : t.body.run v.node.repository = .asking q r fun a => (next a).run) : q.isSlow = true :=
    Bool.eq_true_of_not_eq_false fun hq => hconducts.role_ne_redelivery hrun hq hrole
  have hlevel (x : Task) (hx : x.role = t.role) : x.level ≤ t.level := by
    rw [Task.level_of_ne (t := x) (by rw [hx, hrole]; exact Role.noConfusion)]
    exact Nat.zero_le _
  obtain ⟨new, hw, hnew⟩ := h.trades ht
  refine ⟨new, hw.tasks, fun x hx => ?_⟩
  rcases hnew.mem hx with ⟨hgoes, -⟩ | ⟨hbegins, -⟩
  · refine .of_le (hlevel x hgoes.same.2.2) ?_
    cases hgoes with
    | answered hrun a p => exact .answered hrun a
    | reacted hq hrun hy => exact .reacted hq hrun hy
    | delayed hq hp hrun => exact .delayed hp hrun
    | halting hrun => cases hslow hrun
    | dozing hrun => cases hslow hrun
    | again hscheduler => exact absurd (hrole.symm.trans hscheduler) Role.noConfusion
  · cases hbegins with
    | dispatched hrun => cases hslow hrun
    | launched hrun => cases hslow hrun

/-- While there is the task of a scheduler, the scheduler is alive. -/
theorem alive_of_scheduler (hrole : t.role = .scheduler) : ∃ st, v.node.scheduler = some st ∧ st.phase = .alive := by
  refine Node.join?_eq_none.1 (Decidable.byContradiction fun hjoin => ?_)
  have hcount := h.staged.schedulers
  rw [show (v.put t).node.join? = v.node.join? from rfl, if_neg hjoin, Multiset.countP_eq_zero] at hcount
  exact hcount t (mem_put v t) hrole

/-- A scheduler that is being closed goes on with what is nearer to its end; a redelivery that it begins is below it. -/
theorem below_scheduler (ht : v.Turn t k w j rs) (hrole : t.role = .scheduler)
    (hactive : v.node.repository.active = none) : ∃ new, w.tasks = new + v.tasks ∧ ∀ x ∈ new, x.Below t := by
  have hconducts := h.ordered.self.2.2.of_role (by rw [hrole]; exact Role.noConfusion)
  have hclosing (st : SchedulerState) (hst : v.node.scheduler = some st) : st.closing = true :=
    Bool.eq_true_of_not_eq_false fun hopen => (h.staged.opened st hst hopen).2 hactive
  by_cases htick : ∃ r next, t.body.run v.node.repository = .asking .tick r next
  · -- It gets no tick.
    obtain ⟨r, next, hrun⟩ := htick
    have ha := ht.of_asking hrun Request.noConfusion
    cases ha with
    | slow hq => cases hq
    | dozing hs hopen => exact absurd ((hclosing _ hs).symm.trans hopen) Bool.noConfusion
    | ticked ticker goes hgoes =>
      obtain ⟨st, hst, -⟩ := h.alive_of_scheduler hrole
      obtain rfl := hgoes st hst (hclosing st hst)
      have hset := trades_setScheduler t (v.leave r) 0 (x := (v.leave r).node.scheduler.map fun st =>
        { st with ticker := ticker st.ticker }) (by rw [Option.bind_map]; exact (zero_add _).symm)
      refine ⟨_, (((Trades.refl t v).leave r |>.trans hset).resume t _).tasks, fun x hx => ?_⟩
      rw [add_zero, Multiset.cons_zero] at hx
      rw [Multiset.mem_singleton.1 hx]
      have hnearer : Nearer ((ExceptT.mk (next false) : Operation Answer), .nothing) (t.body, t.pause) :=
        .answered (f := fun a => ExceptT.mk (next a)) hrun false
      by_cases hticking : Ticking t.body
      · obtain ⟨next', hrun', hending, -⟩ := id hticking
        refine .left _ _ ?_
        rw [Task.level_of_ticking hrole hticking]
        refine (Task.level_of_ending (t := { t with body := ExceptT.mk (next false), pause := .nothing }) hrole
          fun r => ?_).trans_lt Nat.one_lt_two
        have he := hrun.symm.trans (hrun' _)
        injection he with _ _ he
        rw [he]
        exact hending r
      · refine .of_le ?_ hnearer
        rw [Task.level_of_not (t := t) hrole (fun he => by cases hrun.symm.trans (he _)) hticking]
        exact Task.level_le _
  · obtain ⟨new, hw, hnew⟩ := h.trades ht
    have hlevel (he : ¬Ending t.body) : t.level = 3 :=
      Task.level_of_not hrole he fun ⟨_, hrun, _⟩ => htick ⟨_, _, hrun _⟩
    have hasking {q : Request} {r : Repository} {next : q.Answer → Operation Answer}
        (hrun : t.body.run v.node.repository = .asking q r fun a => (next a).run) : t.level = 3 :=
      hlevel fun he => by cases hrun.symm.trans (he _)
    refine ⟨new, hw.tasks, fun x hx => ?_⟩
    rcases hnew.mem hx with ⟨hgoes, -⟩ | ⟨hbegins, -⟩
    · cases hgoes with
      | answered hrun a p => exact .of_le (hasking hrun ▸ Task.level_le _) (.answered hrun a)
      | reacted hq hrun hy => exact .of_le (hasking hrun ▸ Task.level_le _) (.reacted hq hrun hy)
      | delayed hq hp hrun => exact .of_le (hasking hrun ▸ Task.level_le _) (.delayed hp hrun)
      | halting hrun => cases hconducts.isRound hrun hrole
      | dozing hrun => exact absurd ⟨_, _, hrun⟩ htick
      | again _ hrun =>
        refine .left _ _ ?_
        rw [hlevel fun he => by cases hrun.symm.trans (he _)]
        exact (Task.level_of_ticking (t := { t with body := round v.node.setup, pause := .nothing }) hrole
          (ticking_round _)).trans_lt (Nat.lt_succ_self 2)
    · cases hbegins with
      | dispatched hrun => exact .left _ _ ((Task.level_of_ne Role.noConfusion).trans_lt (t.level_pos hrole))
      | launched hrun => cases hconducts.isRound hrun hrole

end View.Tended

/-! ## Clusters -/

/-- All tasks that are under way. -/
def crowd (c : Cluster) : Multiset Task := (Multiset.range c.nodes.length).bind fun n => (c.view n).tasks

/-- Less is under way than before, or as much and fewer of the tasks sleep. -/
def Spends (d c : Cluster) : Prop :=
  Prod.Lex (CutExpand Task.Below) (· < ·) (d.crowd, d.sleeping.length) (c.crowd, c.sleeping.length)

theorem wellFounded_spends : WellFounded Spends :=
  InvImage.wf (fun c : Cluster => (c.crowd, c.sleeping.length))
    (WellFounded.prod_lex wellFounded_below.cutExpand Nat.lt_wfRel.wf)

theorem Becomes.crowd {rs : List (Nat × Result)} (h : Becomes n c d w k rs) (hn : n < c.nodes.length) :
    d.crowd + (c.view n).tasks = c.crowd + w.tasks := by
  have hsplit (e : Cluster) (he : e.nodes.length = c.nodes.length) : e.crowd =
      (e.view n).tasks + ((Multiset.range c.nodes.length).erase n).bind fun m => (e.view m).tasks := by
    rw [Cluster.crowd, he]
    nth_rewrite 1 [← Multiset.cons_erase (Multiset.mem_range.2 hn)]
    exact Multiset.cons_bind ..
  have hrest : (((Multiset.range c.nodes.length).erase n).bind fun m => (d.view m).tasks) =
      ((Multiset.range c.nodes.length).erase n).bind fun m => (c.view m).tasks :=
    Multiset.bind_congr fun m hm => by rw [h.elsewhere m ((Multiset.nodup_range _).mem_erase_iff.1 hm).1]
  rw [hsplit c rfl, hsplit d h.known, hrest, h.here]
  ac_rfl

/-- A turn of a redelivery, or of a scheduler that is being closed, leaves less under way. -/
theorem Tended.spends (h : c.Tended) (hr : c.ready = t :: tail)
    (ht : t.role = .redelivery ∨ t.role = .scheduler ∧ (c.node t.node).repository.active = none) :
    c.step.Spends c := by
  obtain ⟨hn, v, w, k, rs, hview, hv, hturn, hb⟩ := h.turn hr
  have hbelow : ∃ new, w.tasks = new + v.tasks ∧ ∀ x ∈ new, x.Below t := by
    rcases ht with hrole | ⟨hrole, hactive⟩
    · exact hv.below_redelivery hturn hrole
    · refine hv.below_scheduler hturn hrole ?_
      rw [show c.node t.node = v.node from congrArg View.node hview] at hactive
      exact hactive
  obtain ⟨new, hw, hnew⟩ := hbelow
  refine .left _ _ ⟨new, t, hnew, ?_⟩
  have hcrowd := hb.crowd hn
  rw [hview, View.Ordered.tasks_put, hw, ← Multiset.singleton_add, ← add_assoc, ← add_assoc] at hcrowd
  exact add_right_cancel hcrowd

/-- Tasks wake when time passes. -/
theorem spends_wakeNext (hs : c.sleeping ≠ []) : c.wakeNext.Spends c := by
  have hd := drifts_wakeNext c
  have hcrowd : c.wakeNext.crowd = c.crowd := by
    rw [crowd, crowd, hd.known]
    exact Multiset.bind_congr fun m _ => hd.tasks m
  rw [Spends, hcrowd]
  refine .right _ ?_
  cases hc : c.sleeping with
  | nil => exact absurd hc hs
  | cons e rest =>
    obtain ⟨first, x⟩ := e
    rw [wakeNext_of_cons hc]
    show (c.sleeping.dropWhile (·.1 ≤ first)).length < ((first, x) :: rest).length
    rw [hc, List.dropWhile_cons, if_pos (decide_eq_true (Nat.le_refl first))]
    exact Nat.lt_succ_of_le (List.dropWhile_sublist _).length_le

end DurableAggregates.Cluster
