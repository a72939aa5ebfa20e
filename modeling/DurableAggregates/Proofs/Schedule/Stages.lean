import DurableAggregates.Proofs.Schedule.Crews
import DurableAggregates.Proofs.Schedule.Windows

/-!
# Stages of a schedule

Every step of a cluster gives at most one sign of the schedule of a node (`Cluster.sign`). Between two steps the node
is at one of three stages: it has no scheduler, or one that serves its ticker or is being closed (`Serving`), or one
that has ended while the task that closed it is yet to go on. `Settled` ties the stage to the windows that have been
seen, and `Manned` says who is in the crew: the task that the stage is about, the task that holds the lifecycle lock,
and tasks that do not.
-/

namespace DurableAggregates.Cluster

open Schedule (Sign Window)

/-! ## Signs -/

/-- What the answer to a request shows of the schedule of a node. -/
def Node.shows (x : Node) (now : Nat) : Request → Option Sign
  | .launch interval => some (.launched interval)
  | .tick => x.scheduler.bind fun st => if !st.closing && st.ticker.isDue now then some .began else none
  | .halt => x.scheduler.bind fun st => match st.phase with
    | .alive => if st.closing then none else some .closed
    | .ended | .crashed _ => some .joined
  | _ => none

/-- What the end of a body shows: after a pass its scheduler goes on. -/
def Task.shows (t : Task) : Except RepositoryError Answer → Option Sign
  | .ok (.flag true) => if t.role = .scheduler then some .ended else none
  | _ => none

/-- What the next step shows of the schedule of a node. -/
def sign (c : Cluster) (n : Nat) : Option Sign :=
  match c.ready with
  | [] => none
  | t :: _ =>
    if t.node = n then
      match t.body.run (c.node n).repository with
      | .finished result _ => t.shows result
      | .asking q _ _ => (c.node n).shows c.now q
    else none

/-- The cluster when the task at the head of the queue has been taken and has left a repository behind. -/
def taken (c : Cluster) (tail : List Task) (n : Nat) (r : Repository) : Cluster :=
  setRepository { c with ready := tail } n r

variable {c d : Cluster} {n : Nat} {t x y : Task} {tail : List Task} {r : Repository}

theorem step_asking (hr : c.ready = t :: tail) {q : Request} (next : q.Answer → Operation Answer)
    (hrun : t.body.run (c.node t.node).repository = .asking q r fun a => (next a).run) :
    c.step = (c.taken tail t.node r).answer t q next ∧ c.sign t.node = (c.node t.node).shows c.now q := by
  have hrun' : t.body.run (node { c with ready := tail } t.node).repository = .asking q r fun a => (next a).run := hrun
  constructor
  · rw [step, hr]
    dsimp only
    rw [hrun']
    rfl
  · rw [sign, hr]
    dsimp only
    rw [if_pos rfl, hrun]

theorem step_finished (hr : c.ready = t :: tail) {result : Except RepositoryError Answer}
    (hrun : t.body.run (c.node t.node).repository = .finished result r) :
    c.step = (c.taken tail t.node r).finish t result ∧ c.sign t.node = t.shows result := by
  have hrun' : t.body.run (node { c with ready := tail } t.node).repository = .finished result r := hrun
  constructor
  · rw [step, hr]
    dsimp only
    rw [hrun']
    rfl
  · rw [sign, hr]
    dsimp only
    rw [if_pos rfl, hrun]

theorem sign_of_ne (hr : c.ready = t :: tail) (hn : n ≠ t.node) : c.sign n = none := by
  rw [sign, hr]
  exact if_neg hn.symm

/-! ## Stages -/

/-- A task that is no scheduler and lawful, inside the lifecycle lock or outside. -/
structure Citizen (s : Setup) (inside : Bool) (t : Task) : Prop where
  role : t.role ≠ .scheduler
  lawful : t.body.Lawful s inside false

/-- A scheduler that is alive, and its window. -/
structure Serving (s : Setup) (n : Nat) (c : Cluster) (st : SchedulerState) (x : Task) (w : Window) : Prop where
  node : x.node = n
  role : x.role = .scheduler
  scheduler : (c.node n).scheduler = some st
  phase : st.phase = .alive
  interval : st.ticker.interval = w.interval
  joined : w.joined = false
  closed : w.closed.isSome = st.closing
  /-- Before it is closed the repository runs and schedules passes. -/
  running : st.closing = false → st.waiting = none ∧
    ∃ p, (c.node n).repository.active = some p ∧ p.schedulesPasses = true
  /-- After it was closed a task waits for its end. -/
  stopping : st.closing = true → (c.node n).repository.active = none ∧
    ∃ y, st.waiting = some y ∧ y.role ≠ .scheduler ∧ Halting s y.body
  body : Ticking x.body ∧ w.running = none ∨ Passing x.body ∧ w.running ≠ none ∨
    Ending x.body ∧ w.running = none ∧ st.closing = true
  /-- It does not oversleep. -/
  awake : st.closing = false → w.running = none → x ∈ c.ready ∨ (st.ticker.due, x) ∈ c.sleeping
  paced : st.closing = false → w.Quick c.now → ∃ k, w.Paced st.ticker.due c.now k

/-- A scheduler that has ended, and the task that is to go on. -/
structure Over (s : Setup) (n : Nat) (c : Cluster) (y : Task) (w : Window) : Prop where
  role : y.role ≠ .scheduler
  halting : Halting s y.body
  scheduler : ∃ st, (c.node n).scheduler = some st ∧ st.phase = .ended ∧ st.waiting = none
  active : (c.node n).repository.active = none
  running : w.running = none
  joined : w.joined = false
  closed : w.closed ≠ none

/-- At which stage a node is, with the task that this is about, and whether a task of its own is inside the lock. -/
inductive Stage (s : Setup) (n : Nat) (c : Cluster) : List Window → Option Task → Bool → Prop where
  | idle {ws : List Window} {held : Bool} (hs : (c.node n).scheduler = none)
      (ha : ∀ p, (c.node n).repository.active = some p → p.schedulesPasses = false)
      (hj : ∀ w, ws.head? = some w → w.joined = true) (hl : (c.node n).lifecycle.holder.isSome = held) :
      Stage s n c ws none held
  | serving {ws : List Window} {held : Bool} {st : SchedulerState} {x : Task} {w : Window} (h : Serving s n c st x w)
      (hl : (c.node n).lifecycle.holder.isSome = (st.closing || held)) (hc : st.closing = true → held = false) :
      Stage s n c (w :: ws) (some x) held
  | ended {ws : List Window} {y : Task} {w : Window} (h : Over s n c y w)
      (hl : (c.node n).lifecycle.holder.isSome = true) : Stage s n c (w :: ws) (some y) false

variable {s : Setup} {ws : List Window} {special : Option Task} {held : Bool}

theorem Serving.closed_eq_none {st : SchedulerState} {w : Window} (h : Serving s n c st x w)
    (hopen : st.closing = false) : w.closed = none := by
  have hclosed := h.closed
  rw [hopen] at hclosed
  exact Option.not_isSome_iff_eq_none.1 (Bool.eq_false_iff.1 hclosed)

theorem Serving.keep {st : SchedulerState} {w : Window} (h : Serving s n c st x w) (hnow : d.now = c.now)
    (hscheduler : (d.node n).scheduler = (c.node n).scheduler)
    (hactive : (d.node n).repository.active = (c.node n).repository.active)
    (hready : ∀ x ∈ c.ready, x.node = n → x.role = .scheduler → x ∈ d.ready)
    (hsleeping : ∀ e ∈ c.sleeping, e.2.node = n → e ∈ d.sleeping) : Serving s n d st x w :=
  { h with
    scheduler := hscheduler.trans h.scheduler
    running := by rw [hactive]; exact h.running
    stopping := by rw [hactive]; exact h.stopping
    awake := fun ho hr => (h.awake ho hr).imp (hready _ · h.node h.role) (hsleeping _ · h.node)
    paced := by rw [hnow]; exact h.paced }

/-- Where nothing of it changes the stage remains. -/
theorem Stage.keep (h : Stage s n c ws special held) (hnow : d.now = c.now)
    (hscheduler : (d.node n).scheduler = (c.node n).scheduler)
    (hactive : (d.node n).repository.active = (c.node n).repository.active)
    (hlifecycle : (d.node n).lifecycle.holder = (c.node n).lifecycle.holder)
    (hready : ∀ x ∈ c.ready, x.node = n → x.role = .scheduler → x ∈ d.ready)
    (hsleeping : ∀ e ∈ c.sleeping, e.2.node = n → e ∈ d.sleeping) : Stage s n d ws special held := by
  cases h with
  | idle hs ha hj hl =>
    exact .idle (hscheduler.trans hs) (by rw [hactive]; exact ha) hj (by rw [hlifecycle]; exact hl)
  | serving h hl hc =>
    exact .serving (h.keep hnow hscheduler hactive hready hsleeping) (by rw [hlifecycle]; exact hl) hc
  | ended h hl =>
    refine .ended { h with
      scheduler := by rw [hscheduler]; exact h.scheduler
      active := hactive.trans h.active } (by rw [hlifecycle]; exact hl)

/-- The policy may change as it may without a scheduler. -/
theorem Stage.keeps (h : Stage s n c ws special held) (hn : n < c.nodes.length)
    (hk : Policy.Keeps held (c.node n).repository.active r.active) :
    Stage s n (c.setRepository n r) ws special held := by
  have hnode : (c.setRepository n r).node n = { c.node n with repository := r } := node_modifyNode hn _
  rcases hk with hk | ⟨rfl, ha, o, hr, ho⟩
  · exact h.keep rfl (by rw [hnode]) (by rw [hnode]; exact hk) (by rw [hnode]) (fun _ hx _ _ => hx) fun _ he _ => he
  · cases h with
    | idle hs _ hj hl =>
      refine .idle (by rw [hnode]; exact hs) (fun p hp => ?_) hj (by rw [hnode]; exact hl)
      rw [hnode] at hp
      have hp : r.active = some p := hp
      rw [hr] at hp
      cases hp
      exact ho
    | @serving _ _ st _ _ h _ hc =>
      -- While a scheduler is open there is a policy; while it is closed the task inside waits for it.
      cases hclosing : st.closing with
      | true => cases hc hclosing
      | false =>
        obtain ⟨-, p, hp, -⟩ := h.running hclosing
        rw [ha] at hp
        cases hp

/-- The lock may change hands unless a task waits for the end of the scheduler. -/
theorem Stage.relock {held' : Bool} (h : Stage s n c ws special held)
    (hfree : held = true ∨ (c.node n).lifecycle.holder = none) (hnow : d.now = c.now)
    (hscheduler : (d.node n).scheduler = (c.node n).scheduler)
    (hactive : (d.node n).repository.active = (c.node n).repository.active)
    (hlifecycle : (d.node n).lifecycle.holder.isSome = held')
    (hready : ∀ x ∈ c.ready, x ∈ d.ready) (hsleeping : d.sleeping = c.sleeping) : Stage s n d ws special held' := by
  cases h with
  | idle hs ha hj _ => exact .idle (hscheduler.trans hs) (by rw [hactive]; exact ha) hj hlifecycle
  | @serving _ _ st _ _ h hl hc =>
    have hopen : st.closing = false := by
      cases hclosing : st.closing with
      | false => rfl
      | true =>
        rcases hfree with hfree | hfree
        · rw [hc hclosing] at hfree
          cases hfree
        · rw [hfree, hclosing] at hl
          cases hl
    refine .serving (h.keep hnow hscheduler hactive (fun x hx _ _ => hready x hx) fun e he _ => ?_) ?_ fun hx => ?_
    · rw [hsleeping]
      exact he
    · rw [hlifecycle, hopen]
      rfl
    · rw [hopen] at hx
      cases hx
  | ended h hl =>
    rcases hfree with hfree | hfree
    · cases hfree
    · rw [hfree] at hl
      cases hl

/-- While the lock is held a node without a policy has no scheduler. -/
theorem Stage.idle_of_inactive (h : Stage s n c ws special true) (ha : (c.node n).repository.active = none) :
    special = none ∧ (∀ w, ws.head? = some w → w.joined = true) ∧ (c.node n).lifecycle.holder.isSome = true := by
  cases h with
  | idle _ _ hj hl => exact ⟨rfl, hj, hl⟩
  | @serving _ _ st _ _ h _ hc =>
    have hopen : st.closing = false := Bool.eq_false_iff.2 fun h => by cases hc h
    obtain ⟨-, p, hp, -⟩ := h.running hopen
    rw [ha] at hp
    cases hp

/-- A window whose passes were as scheduled. -/
structure Fair (s : Setup) (now : Nat) (w : Window) : Prop where
  policy : ∃ p, s.policy? = .ok p ∧ p.schedulesPasses = true ∧ w.interval = p.interval
  punctual : w.closed ≠ none → w.Quick now → w.Punctual now

/-- What holds of a node between two steps, but for its crew. -/
structure Settled (s : Setup) (n : Nat) (c : Cluster) (ws : List Window) (special : Option Task) (held : Bool) :
    Prop where
  sound : c.Sound
  known : n < c.nodes.length
  setup : (c.node n).setup = s
  queue : ∀ t ∈ (c.node n).lifecycle.waiting, Citizen s true t
  windows : ∀ w ∈ ws, Fair s c.now w
  stage : Stage s n c ws special held

/-- Who is in a crew: the task that the stage is about, one that is inside the lock, and others. -/
structure Manned (s : Setup) (crew : Multiset Task) (special inside : Option Task) : Prop where
  crew : ∃ rest, crew = Multiset.ofList special.toList + (Multiset.ofList inside.toList + rest) ∧
    ∀ t ∈ rest, Citizen s false t
  inside : ∀ t, inside = some t → Citizen s true t

/-- What holds of a node and its windows between two steps. -/
def Scheduled (s : Setup) (n : Nat) (c : Cluster) (ws : List Window) : Prop :=
  ∃ special inside, Settled s n c ws special inside.isSome ∧ Manned s (c.crew n) special inside

/-! ## Crews at a stage -/

namespace Manned

variable {crew more : Multiset Task} {inside : Option Task}

theorem add (h : Manned s crew special inside) (hmore : ∀ t ∈ more, Citizen s false t) :
    Manned s (crew + more) special inside := by
  obtain ⟨⟨rest, hcrew, hrest⟩, hin⟩ := h
  refine ⟨⟨rest + more, ?_, fun t ht => (Multiset.mem_add.1 ht).elim (hrest t) (hmore t)⟩, hin⟩
  rw [hcrew, Multiset.add_assoc, Multiset.add_assoc]

theorem enter (h : Manned s crew special none) (ht : Citizen s true t) : Manned s (t ::ₘ crew) special (some t) := by
  obtain ⟨⟨rest, hcrew, hrest⟩, -⟩ := h
  refine ⟨⟨rest, ?_, hrest⟩, fun x hx => by cases hx; exact ht⟩
  show _ = _ + (Multiset.ofList [t] + rest)
  rw [hcrew, Multiset.coe_singleton, Multiset.singleton_add, Multiset.add_cons]
  exact congrArg (fun m => t ::ₘ (_ + m)) (Multiset.zero_add rest)

theorem appoint (h : Manned s crew none inside) (t : Task) : Manned s (t ::ₘ crew) (some t) inside := by
  obtain ⟨⟨rest, hcrew, hrest⟩, hin⟩ := h
  refine ⟨⟨rest, ?_, hrest⟩, hin⟩
  show _ = Multiset.ofList [t] + _
  rw [hcrew, Multiset.coe_singleton, Multiset.singleton_add]
  exact congrArg (t ::ₘ ·) (Multiset.zero_add _)

/-- A task of a crew is special, inside or outside. -/
theorem pop (h : Manned s (t ::ₘ crew) special inside) :
    special = some t ∧ Manned s crew none inside ∨
      inside = some t ∧ Citizen s true t ∧ Manned s crew special none ∨
      Citizen s false t ∧ Manned s crew special inside := by
  obtain ⟨⟨rest, hcrew, hrest⟩, hin⟩ := h
  have ht : t ∈ t ::ₘ crew := Multiset.mem_cons_self ..
  rw [hcrew] at ht
  rcases Multiset.mem_add.1 ht with ht | ht
  · cases special with
    | none => cases ht
    | some x =>
      obtain rfl : t = x := List.mem_singleton.1 ht
      refine .inl ⟨rfl, ⟨rest, (Multiset.cons_inj_right t).1 ?_, hrest⟩, hin⟩
      exact hcrew.trans (congrArg (t ::ₘ ·) (Multiset.zero_add _).symm)
  rcases Multiset.mem_add.1 ht with ht | ht
  · cases inside with
    | none => cases ht
    | some x =>
      obtain rfl : t = x := List.mem_singleton.1 ht
      refine .inr (.inl ⟨rfl, hin t rfl, ⟨rest, (Multiset.cons_inj_right t).1 ?_, hrest⟩, fun _ hx => nomatch hx⟩)
      rw [hcrew, ← Multiset.add_cons]
      exact congrArg (_ + ·) (congrArg (t ::ₘ ·) (Multiset.zero_add rest).symm)
  · obtain ⟨others, rfl⟩ := Multiset.exists_cons_of_mem ht
    refine .inr (.inr ⟨hrest t ht, ⟨others, (Multiset.cons_inj_right t).1 ?_, fun x hx => ?_⟩, hin⟩)
    · rw [hcrew, Multiset.add_cons, Multiset.add_cons]
    · exact hrest x (Multiset.mem_cons_of_mem hx)

end Manned

end DurableAggregates.Cluster
