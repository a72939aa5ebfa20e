import DurableAggregates.Proofs.Interleaving.Stops

/-!
# What goes on after a stop

A stop ends the scheduler and with it the pass that the scheduler is in, but it does not wait for passes that were
called: these have looked before whether the repository runs, and go on with what they are about, or with the wait for
an earlier pass. They are all that outlasts a stop, together with the redeliveries that they begin
(`only_called_passes_outlast_stop`), and they do (`called_pass_redelivers_after_stop`).
-/

namespace DurableAggregates

open Cluster (Answer NodeStep)
open Relation (ReflTransGen)

variable {α β : Type}

/-! ## What a pass does -/

/--
A run of a repository with the policy `p` that enters the lock of passes if it runs, makes all other requests inside,
which wait for nobody, and is outside at its end.
-/
inductive Run.Enclosed : Bool → Option Policy → Run α → Prop where
  | finished {p : Option Policy} {a : α} {r : Repository} : Enclosed false p (.finished a r)
  | acquire {p : Option Policy} (hp : p ≠ none) {r : Repository} {next : Unit → Repository → Run α}
      (h : ∀ t, Enclosed true t.active (next () t)) : Enclosed false p (.asking (.acquire .pass) r next)
  | asking {p : Option Policy} {q : Request} (hq : q.isPlain = true) {r : Repository}
      {next : q.Answer → Repository → Run α} (h : ∀ a t, Enclosed true t.active (next a t)) :
      Enclosed true p (.asking q r next)
  | release {p : Option Policy} {r : Repository} {next : Unit → Repository → Run α}
      (h : ∀ t, Enclosed false t.active (next () t)) : Enclosed true p (.asking (.release .pass) r next)

theorem Run.Confined.enclosed {P : α → Prop} {p : Option Policy} {x : Run α} (hx : x.Confined Request.isPlain P p)
    {f : α → Repository → Run β} (hf : ∀ a t, (f a t).Enclosed true t.active) : (x.bind f).Enclosed true p := by
  induction hx with
  | finished _ hr =>
    rw [← hr]
    exact hf _ _
  | asking hq _ _ ih => exact .asking hq ih

theorem Cluster.enclosed_pass (s : Setup) (r : Repository) :
    ((NodeStep.pass.task s).run r).Enclosed false r.active := by
  cases ha : r.active with
  | none =>
    rw [pass_run_none ha]
    exact .finished
  | some p =>
    rw [pass_run ha]
    refine .acquire (Option.some_ne_none p) fun t => ?_
    exact (Repository.plain_passOver s p t).enclosed fun a u => .release fun u => .finished

namespace Cluster

variable {s : Setup} {n i k j : Nat} {c d e : Cluster} {t x : Task} {v w : View} {rs : List Result}

/-- The numbers of the tasks that are in a recovery pass of a node, or wait for one to end. -/
def passes (c : Cluster) (n : Nat) : List Nat := ((c.node n).lock .pass).ids

/-- A pass with a number, which makes its requests inside the lock of passes. -/
def View.Enclosing (i : Nat) (v : View) : Prop :=
  ∀ x ∈ v.tasks, x.id = i → x.role = .awaited ∧ ∀ r, (x.body.run r).Enclosed (i ∈ (v.node.lock .pass).ids) r.active

/-- A pass makes its requests inside the lock of passes. -/
theorem View.Tended.enclosing_turn (h : (v.put t).Tended s n k) (ht : v.Turn t k w j rs) (hi : (v.put t).Enclosing i)
    (hlt : i < k) : w.Enclosing i := by
  intro x hx hid
  by_cases he : i = t.id
  · subst he
    obtain ⟨hrole, hall⟩ := hi t (mem_put v t) rfl
    have henclosed := hall v.node.repository
    have hgoes := h.goes_of_mem ht hx hid
    have hf (r : Repository) : ((v.leave r).node.lock .pass).Fair := (lock_leave v r .pass).symm ▸ h.ordered.fair .pass
    refine ⟨hgoes.same.2.2.trans hrole, ?_⟩
    generalize hrun : t.body.run v.node.repository = run at henclosed
    by_cases hin : t.id ∈ (v.node.lock .pass).ids
    · rw [show (v.put t).node = v.node from rfl, decide_eq_true hin] at henclosed
      cases henclosed with
      | asking hq hnext =>
        have hafter : t.id ∈ (w.node.lock .pass).ids := by
          rcases h.lock_turn ht .pass with hl | ⟨_, _, -, hrun', -⟩ | ⟨-, -, ⟨_, hrun'⟩ | hended⟩
          · rwa [hl]
          · cases hrun.symm.trans hrun'
            cases hq
          · cases hrun.symm.trans hrun'
            cases hq
          · exact absurd hid (hended x hx)
        rw [decide_eq_true hafter]
        cases hgoes with
        | answered hrun' a p =>
          cases hrun.symm.trans hrun'
          exact hnext a
        | reacted _ hrun' hy =>
          cases hrun.symm.trans hrun'
          intro r
          rw [run_lift_bind]
          exact ((hy r).confined fun _ => rfl).enclosed hnext
        | delayed _ _ hrun' =>
          cases hrun.symm.trans hrun'
          exact fun r => .asking hq hnext
        | halting hrun' =>
          cases hrun.symm.trans hrun'
          cases hq
        | dozing hrun' =>
          cases hrun.symm.trans hrun'
          cases hq
        | again hscheduler => exact absurd (hrole.symm.trans hscheduler) Role.noConfusion
      | @release _ r next hnext =>
        have ha := ht.of_asking hrun Request.noConfusion
        cases ha with
        | slow hq => cases hq
        | released =>
          rw [node_resume, decide_eq_false (notMem_ids_release (hf r) (h.ordered.holder (decide_eq_true hin)))]
          rcases mem_tasks_put hx with rfl | hx
          · exact hnext
          · rw [tasks_release] at hx
            exact absurd hid (h.ordered.id_ne hx)
    · rw [show (v.put t).node = v.node from rfl, decide_eq_false hin] at henclosed
      cases henclosed with
      | finished =>
        cases hgoes with
        | again hscheduler => exact absurd (hrole.symm.trans hscheduler) Role.noConfusion
        | answered hrun' => cases hrun.symm.trans hrun'
        | reacted _ hrun' => cases hrun.symm.trans hrun'
        | delayed _ _ hrun' => cases hrun.symm.trans hrun'
        | halting hrun' => cases hrun.symm.trans hrun'
        | dozing hrun' => cases hrun.symm.trans hrun'
      | @acquire _ _ r next hnext =>
        have ha := ht.of_asking hrun Request.noConfusion
        cases ha with
        | slow hq => cases hq
        | acquired =>
          rw [decide_eq_true (mem_ids_acquire (hf r) _)]
          obtain ⟨p, htasks⟩ := tasks_acquire (v.leave r) t .pass (ExceptT.mk (next ()))
          have hx := htasks ▸ hx
          rcases Multiset.mem_add.1 hx with hx | hx
          · rw [Multiset.mem_singleton.1 hx]
            exact hnext
          · exact absurd hid (h.ordered.id_ne hx)
  · have hids : decide (i ∈ (w.node.lock .pass).ids) = decide (i ∈ (v.node.lock .pass).ids) :=
      decide_eq_decide.2 (h.ids_turn ht .pass he)
    rcases h.mem_tasks ht hx with hx | ⟨hgoes, -⟩ | ⟨hbegins, -⟩
    · rw [hids]
      exact hi x (mem_put_of_mem hx) hid
    · exact absurd (hid.symm.trans hgoes.same.1) he
    · exact absurd (hid.symm.trans hbegins.fresh.1) hlt.ne

theorem enclosing_happens (h : c.Tended) (hn : n < c.nodes.length) (hd : c.Happens d) (hi : i < c.next)
    (hs : (c.view n).Enclosing i) : (d.view n).Enclosing i := by
  refine h.happens_view hn hd (I := fun v => v.Enclosing i) hs (fun v w hq hx hs y hy => ?_)
    (fun v y hid _ hs x hx hid' => ?_) fun v t rs hview hv ht => ?_
  · rw [hx.lock]
    exact hs y (View.tasks_drift hq hx ▸ hy)
  · rcases View.mem_tasks_put hx with rfl | hx
    · exact absurd (hid'.symm.trans hid) hi.ne
    · exact hs x hx hid'
  · exact hv.enclosing_turn ht (hview ▸ hs) hi

/-- As long as a repository does not run no pass begins. -/
theorem passes_unstarted (h : c.Tended) (hn : n < c.nodes.length) (hd : Unstarted n c d)
    (hactive : (c.node n).repository.active = none) : d.passes n ⊆ c.passes n := by
  refine h.happens_view hn hd.happens (I := fun v => (v.node.lock .pass).ids ⊆ c.passes n) (fun _ => id)
    (fun v w _ hx hs => hx.lock .pass ▸ hs) (fun _ _ _ _ hs => hs) fun v t rs hview hv ht => ?_
  have hids := hv.passes_turn ht (hd.still hactive)
  rw [passes, show c.node n = v.node from congrArg View.node hview]
  exact hids

/-- In a quiet node only tasks that somebody waits for are in a pass. -/
theorem Tended.awaited_of_quiet (h : c.Tended) (hn : n < c.nodes.length) (hq : (c.node n).Quiet) {x : Task}
    (hx : x ∈ (c.view n).tasks) : x.role ≠ .scheduler ∧ (x.id ∈ c.passes n → x.role = .awaited) := by
  have hscheduler := h.unscheduled_of_quiet hn hq hx
  refine ⟨hscheduler, fun hin => ?_⟩
  have hstands := (h.views n hn).ordered.conduct x hx
  rw [show (c.view n).within .pass x = true from decide_eq_true hin] at hstands
  generalize hp : true = passing at hstands
  generalize (c.view n).within .lifecycle x = inside at hstands
  cases hstands with
  | halts _ hrole => exact hrole
  | conducts hc =>
    cases hc with
    | awaited hrole => exact hrole
    | scheduler hrole => exact absurd hrole hscheduler
    | redelivery => cases hp

/-- A task that has been begun as a pass. -/
def IsPass (n i : Nat) (e : Cluster) : Prop :=
  ∃ c : Cluster, c.Possible ∧ n < c.nodes.length ∧ c.next = i ∧ ReflTransGen Happens (c.begin (.node n .pass)).2 e

/-- A pass is outside the lock of passes at its begin. -/
theorem Possible.enclosing_begin (h : c.Possible) (hn : n < c.nodes.length) :
    ((c.begin (.node n .pass)).2.view n).Enclosing c.next := by
  have hv := (h.tended.views n hn).ordered
  have hb : (c.begin (.node n .pass)).2.view n =
      (c.view n).put { id := c.next, node := n, role := .awaited, body := NodeStep.pass.task (c.node n).setup } :=
    ((Becomes.refl c n).spawn .awaited _).here
  rw [hb]
  intro x hx hid
  rcases View.mem_tasks_put hx with rfl | hx
  · refine ⟨rfl, ?_⟩
    rw [decide_eq_false fun hin => ?_]
    · exact enclosed_pass _
    · obtain ⟨y, hy, hid⟩ := hv.known .pass _ hin
      exact absurd (hv.numbered y hy) (Nat.not_lt_of_le (by rw [hid]))
  · exact absurd (hv.numbered x hx) (Nat.not_lt_of_le (by rw [hid]))

/-- A pass that is outside the lock of passes makes no request while the repository does not run. -/
theorem IsPass.finished (h : IsPass n i e) (hi : i ∉ e.passes n) (hactive : (e.node n).repository.active = none)
    {x : Task} (hx : x ∈ (e.view n).tasks) (hid : x.id = i) :
    ∃ result r, x.body.run (e.node n).repository = .finished result r := by
  obtain ⟨c, hc, hn, rfl, he⟩ := h
  have hb := hc.tended.begin (x := .node n .pass) hn
  obtain ⟨-, -, -, henclosing⟩ := hb.course (fun _ _ => id) (P := fun e => (e.view n).Enclosing c.next)
    (fun d e hd hlength hnext hde => enclosing_happens hd (hlength ▸ hn) hde hnext) (hc.enclosing_begin hn) he
  obtain ⟨-, henclosed⟩ := henclosing x hx hid
  have hrun : (x.body.run (e.node n).repository).Enclosed (c.next ∈ e.passes n) _ := henclosed _
  rw [decide_eq_false hi, hactive] at hrun
  cases hrun' : x.body.run (e.node n).repository with
  | finished result r => exact ⟨result, r, rfl⟩
  | asking q r next =>
    -- The only request outside is the one for the lock, and no repository makes it that does not run.
    rw [hrun'] at hrun
    cases hrun with
    | acquire hp => exact absurd rfl hp

/-- What may still go on at a node between two clusters. -/
structure Outlasts (n : Nat) (d e : Cluster) : Prop where
  quiet : (e.node n).Quiet
  unscheduled : ∀ x ∈ (e.view n).tasks, x.role ≠ .scheduler
  passes : e.passes n ⊆ d.passes n
  awaited : ∀ x ∈ (e.view n).tasks, x.id ∈ e.passes n → x.role = .awaited
  /-- Letters and redeliveries come from those who are in a pass. -/
  forwards : ∀ x ∈ (e.view n).tasks, ∀ r letter r' next,
    x.body.run r = .asking (.forward letter) r' next → x.id ∈ e.passes n
  dispatches : ∀ x ∈ (e.view n).tasks, ∀ r key exchange r' next,
    x.body.run r = .asking (.dispatch key exchange) r' next → x.id ∈ e.passes n
  /-- Any other pass ends at once. -/
  finished : ∀ x ∈ (e.view n).tasks, IsPass n x.id e → x.id ∉ e.passes n →
    ∃ result r, x.body.run (e.node n).repository = .finished result r

theorem Tended.within_of_forward (h : c.Tended) (hn : n < c.nodes.length) {x : Task} (hx : x ∈ (c.view n).tasks)
    {r r' : Repository} {letter : DeadLetter} {next : _ → Repository → Run (Except RepositoryError Answer)}
    (hrun : x.body.run r = .asking (.forward letter) r' next) : x.id ∈ c.passes n := by
  have hhalt : ¬Halting (c.node n).setup x.body := not_halting hrun Request.noConfusion
  exact of_decide_eq_true ((((h.views n hn).ordered.conduct x hx).of_not_halting hhalt).forwards
    (f := fun a => ExceptT.mk (next a)) hrun).1

theorem Tended.within_of_dispatch (h : c.Tended) (hn : n < c.nodes.length) {x : Task} (hx : x ∈ (c.view n).tasks)
    {r r' : Repository} {key : CorrelationKey} {exchange : Exchange}
    {next : _ → Repository → Run (Except RepositoryError Answer)}
    (hrun : x.body.run r = .asking (.dispatch key exchange) r' next) : x.id ∈ c.passes n := by
  have hhalt : ¬Halting (c.node n).setup x.body := not_halting hrun Request.noConfusion
  exact of_decide_eq_true ((((h.views n hn).ordered.conduct x hx).of_not_halting hhalt).dispatches
    (f := fun a => ExceptT.mk (next a)) hrun).1

end Cluster

open Cluster (Happens Unstarted Outlasts)

/--
What goes on after a stop has returned, whatever its result, as long as the repository is not started: the repository
does not run, there is no scheduler, and the only recovery passes under way are those that were when the stop returned.
Somebody waits for each of them. Nobody else gives letters to the sink or begins redeliveries, and passes that are
called later, or were called before and had not begun, fail at once.
-/
theorem only_called_passes_outlast_stop {c m d e : Cluster} {n : Nat} (hc : c.Possible) (hn : n < c.nodes.length)
    (hm : ReflTransGen Happens (c.begin (.node n .stop)).2 m) (hheld : (m.node n).lifecycle.holder = some c.next)
    (hd : ReflTransGen (Unstarted n) m d) (hresult : d.result? c.next ≠ none)
    (he : ReflTransGen (Unstarted n) d e) : Outlasts n d e := by
  obtain ⟨htended, hlt, hquiet⟩ := Cluster.quiet_of_stop hc hn hm hheld hd hresult
  obtain ⟨htended, hlength, -, hquiet, hpasses⟩ := htended.course (fun _ _ h => Unstarted.happens h)
    (P := fun e => (e.node n).Quiet ∧ e.passes n ⊆ d.passes n)
    (fun d' e' ht hlength _ hde hp => ⟨hp.1.unstarted ht (hlength ▸ hlt) hde,
      List.Subset.trans (Cluster.passes_unstarted ht (hlength ▸ hlt) hde hp.1.active) hp.2⟩)
    ⟨hquiet, List.Subset.refl _⟩ he
  have hlt : n < e.nodes.length := hlength ▸ hlt
  exact
    { quiet := hquiet
      unscheduled := fun x hx => (htended.awaited_of_quiet hlt hquiet hx).1
      passes := hpasses
      awaited := fun x hx => (htended.awaited_of_quiet hlt hquiet hx).2
      forwards := fun x hx _ _ _ _ hrun => htended.within_of_forward hlt hx hrun
      dispatches := fun x hx _ _ _ _ _ hrun => htended.within_of_dispatch hlt hx hrun
      finished := fun x hx hpass hout => hpass.finished hout hquiet.active hx rfl }

namespace Cluster

/-- A repository with a pass that waits for the keys of the store. -/
def listing : Cluster :=
  let c : Cluster :=
    { delays := { keys := 10 }, nodes := [{ config := { recoveryIntervalMillis := 0 }, engine := some {} }] }
  let c := proceed^[3] (c.begin (.node 0 .start)).2
  let c := proceed^[2] (c.begin (.node 0 (.add ⟨"key"⟩ { id := "exchange" }))).2
  proceed^[2] (c.begin (.node 0 .pass)).2

/-- What has become of it some steps after it was stopped. -/
def listingStopped (k : Nat) : Cluster := proceed^[k] (listing.begin (.node 0 .stop)).2

theorem unstarted_listingStopped (j : Nat) {k : Nat}
    (h : ∀ i < k, ((proceed^[i] (listingStopped j)).node 0).repository.isRunning = false →
      ((proceed^[i + 1] (listingStopped j)).node 0).repository.isRunning = false) :
    ReflTransGen (Unstarted 0) (listingStopped j) (listingStopped (k + j)) := by
  have hlater : listingStopped (k + j) = proceed^[k] (listingStopped j) := Function.iterate_add_apply ..
  rw [hlater]
  exact unstarted_proceed h

theorem possible_listing : listing.Possible := by
  have h₀ : Possible
      { delays := { keys := 10 }, nodes := [{ config := { recoveryIntervalMillis := 0 }, engine := some {} }] } :=
    ⟨_, ⟨rfl, rfl, rfl, fun x hx => by rw [List.mem_singleton.1 hx]; exact ⟨rfl, rfl, rfl, rfl⟩⟩, .refl⟩
  have h₁ := (h₀.happens (.begin (.node 0 .start) Nat.zero_lt_one)).proceed 3
  have h₂ := (h₁.happens (.begin (.node 0 (.add ⟨"key"⟩ { id := "exchange" })) ?_)).proceed 2
  · refine (h₂.happens (.begin (.node 0 .pass) ?_)).proceed 2
    show 0 < List.length _
    decide +kernel
  · show 0 < List.length _
    decide +kernel

end Cluster

open Cluster (listing listingStopped)

/-- A pass that is under way when a stop returns goes on, and its redelivery is handed over. -/
theorem called_pass_redelivers_after_stop : listing.Possible ∧
    ReflTransGen (Unstarted 0) (listing.begin (.node 0 .stop)).2 (listingStopped 4) ∧
    (listingStopped 4).result? listing.next = some (.answered .done) ∧ (listingStopped 4).passes 0 = [2] ∧
    ReflTransGen (Unstarted 0) (listingStopped 4) (listingStopped 12) ∧
    ((listingStopped 4).node 0).delivered = [] ∧
    ((listingStopped 12).node 0).delivered.map Prod.fst = [⟨"key"⟩] := by
  have hreturned := Cluster.unstarted_listingStopped 0 (k := 4) (by decide +kernel)
  have hlater := Cluster.unstarted_listingStopped 4 (k := 8) (by decide +kernel)
  exact ⟨Cluster.possible_listing, hreturned, rfl, by decide +kernel, hlater, rfl, by decide +kernel⟩

/-- Between the return of the stop and the end of the redelivery. -/
theorem only_called_pass_outlasts_stop : Outlasts 0 (listingStopped 4) (listingStopped 12) := by
  have hm : ReflTransGen Happens (listing.begin (.node 0 .stop)).2 (listingStopped 1) :=
    .single (Cluster.happens_proceed _)
  have hd := Cluster.unstarted_listingStopped 1 (k := 3) (by decide +kernel)
  have he := Cluster.unstarted_listingStopped 4 (k := 8) (by decide +kernel)
  have hresult : (listingStopped 4).result? listing.next = some (.answered .done) := rfl
  exact only_called_passes_outlast_stop Cluster.possible_listing (by decide +kernel) hm (by decide +kernel) hd
    (by rw [hresult]; exact Option.some_ne_none _) he

end DurableAggregates
