import DurableAggregates.Proofs.Interleaving.Views
import Mathlib.Algebra.Order.Group.Multiset

/-!
# Order among the tasks of a node

The numbers of those who hold a lock or wait for it make up a queue (`LockState.ids`): who asks for the lock goes to
its end, and who gives it back leaves its head. A task in the queue is inside the lock whenever it goes on. `Ordered`
says that all tasks of a node do what is allowed where they are; `Ordered.trade` that this stays so when a task is
replaced by others, as long as the queues of the locks change by that task only.
-/

namespace DurableAggregates

/-- Whether the task of a scheduler may make a request: it asks for ticks, and for what a pass asks for. -/
def Request.isRound : Request → Bool
  | .tick | .acquire .pass | .release .pass => true
  | q => q.isPlain

theorem Request.isRound_of_isPlain (q : Request) (hq : q.isPlain = true) : q.isRound = true := by
  cases q <;> first | rfl | cases hq

namespace Cluster

variable {s : Setup} {n k j : Nat} {t x y : Task} {v w u : View} {l : Lock} {new : Multiset Task}

/-! ## Queues of locks -/

/-- The numbers of those who hold a lock or wait for it, in the order in which they get it. -/
def LockState.ids (a : LockState) : List Nat := a.holder.toList ++ a.waiting.map (·.id)

/-- Nobody waits for a lock that nobody holds, and nobody twice. -/
structure LockState.Fair (a : LockState) : Prop where
  free : a.holder = none → a.waiting = []
  nodup : a.ids.Nodup

/-- The next in the queue gets the lock. -/
def LockState.pass (a : LockState) : LockState :=
  match a.waiting with
  | [] => { a with holder := none }
  | t :: rest => { holder := some t.id, waiting := rest }

/-- A task gets the lock, or goes to the end of the queue. -/
def LockState.join (a : LockState) (t : Task) : LockState :=
  match a.holder with
  | none => { a with holder := some t.id }
  | some _ => { a with waiting := a.waiting ++ [t] }

namespace LockState.Fair

variable {a : LockState}

theorem ids_pass (h : a.Fair) : a.pass.ids = a.ids.tail := by
  obtain ⟨holder, waiting⟩ := a
  cases holder with
  | none =>
    obtain rfl : waiting = [] := h.free rfl
    rfl
  | some i => cases waiting <;> rfl

theorem pass (h : a.Fair) : a.pass.Fair := by
  refine ⟨fun hp => ?_, h.ids_pass ▸ h.nodup.sublist (List.tail_sublist _)⟩
  obtain ⟨holder, waiting⟩ := a
  cases waiting with
  | nil => rfl
  | cons t rest => cases hp

theorem ids_join (h : a.Fair) (t : Task) : (a.join t).ids = a.ids ++ [t.id] := by
  obtain ⟨holder, waiting⟩ := a
  cases holder with
  | none =>
    obtain rfl : waiting = [] := h.free rfl
    rfl
  | some i => simp [ids, join]

theorem join (h : a.Fair) (ht : t.id ∉ a.ids) : (a.join t).Fair := by
  refine ⟨fun hj => ?_, by rw [h.ids_join]; exact List.concat_eq_append ▸ h.nodup.concat ht⟩
  obtain ⟨holder, waiting⟩ := a
  cases holder with
  | none => cases hj
  | some i => cases hj

end LockState.Fair

namespace View

/-- Whether a task is inside a lock when it goes on. -/
def within (v : View) (l : Lock) (t : Task) : Bool := t.id ∈ (v.node.lock l).ids

theorem waiters_setLock (x : Node) (l : Lock) (a : LockState) :
    Multiset.ofList (x.setLock l a).waiters + Multiset.ofList (x.lock l).waiting =
      Multiset.ofList a.waiting + Multiset.ofList x.waiters := by
  cases l with
  | lifecycle =>
    simp only [Node.waiters, Node.setLock, Node.lock, ← Multiset.coe_add]
    ac_rfl
  | pass =>
    simp only [Node.waiters, Node.setLock, Node.lock, ← Multiset.coe_add]
    ac_rfl

/-! ## Changes by one task -/

/-- The locks of a node `z` are those of `y`, but for where the task `t` stands in their queues. -/
structure Locks (t : Task) (y z : Node) : Prop where
  setup : z.setup = y.setup
  fair : (∀ l, (y.lock l).Fair) → ∀ l, (z.lock l).Fair
  others : ∀ l i, i ≠ t.id → (i ∈ (z.lock l).ids ↔ i ∈ (y.lock l).ids)

/-- Nothing changes that concerns a lock. -/
theorem Locks.same {y z : Node} (hsetup : z.setup = y.setup) (hlock : ∀ l, z.lock l = y.lock l) : Locks t y z :=
  ⟨hsetup, fun hf l => (hlock l).symm ▸ hf l, fun l _ _ => by rw [hlock]⟩

theorem Locks.trans {a b z : Node} (h : Locks t a b) (h' : Locks t b z) : Locks t a z :=
  ⟨h'.setup.trans h.setup, fun hf => h'.fair (h.fair hf), fun l i hi => (h'.others l i hi).trans (h.others l i hi)⟩

theorem Locks.setLock {y : Node} {a : LockState} (hfair : (y.lock l).Fair → a.Fair)
    (hothers : ∀ i, i ≠ t.id → (i ∈ a.ids ↔ i ∈ (y.lock l).ids)) : Locks t y (y.setLock l a) := by
  refine ⟨by cases l <;> rfl, fun hf m => ?_, fun m i hi => ?_⟩
  · rw [Node.lock_setLock]
    split
    · exact hfair (hf l)
    · exact hf m
  · rw [Node.lock_setLock]
    split
    · rename_i hm
      rw [hm]
      exact hothers i hi
    · exact .rfl

/-- A view has the tasks of another and new ones, and its locks have changed by one task only. -/
structure Trades (t : Task) (v : View) (new : Multiset Task) (w : View) : Prop where
  locks : Locks t v.node w.node
  tasks : w.tasks = new + v.tasks

namespace Trades

theorem refl (t : Task) (v : View) : Trades t v 0 v := ⟨.same rfl fun _ => rfl, (zero_add _).symm⟩

theorem trans {more : Multiset Task} (h : Trades t v new w) (h' : Trades t w more u) :
    Trades t v (more + new) u :=
  ⟨h.locks.trans h'.locks, by rw [h'.tasks, h.tasks, add_assoc]⟩

theorem put (h : Trades t v new w) (x : Task) : Trades t v (x ::ₘ new) (w.put x) := by
  refine ⟨h.locks, ?_⟩
  rw [Multiset.cons_add, ← h.tasks]
  exact Multiset.cons_add ..

theorem resume (h : Trades t v new w) (x : Task) (body : Operation Answer) :
    Trades t v ({ x with body, pause := .nothing } ::ₘ new) (w.resume x body) := h.put _

/-- The node changes in what concerns no lock and no task that waits. -/
theorem set (h : Trades t v new w) {z : Node} (hsetup : z.setup = w.node.setup) (hlock : ∀ l, z.lock l = w.node.lock l)
    (hwaiters : z.waiters = w.node.waiters) : Trades t v new (w.set z) :=
  ⟨h.locks.trans (.same hsetup hlock), by rw [← h.tasks, View.tasks, View.tasks, ← hwaiters]; rfl⟩

theorem leave (h : Trades t v new w) (r : Repository) : Trades t v new (w.leave r) :=
  h.set rfl (lock_leave w r) rfl

end Trades

theorem node_acquire (v : View) (t : Task) (l : Lock) (body : Operation Answer) :
    (v.acquire t l body).node = v.node.setLock l ((v.node.lock l).join { t with body }) := by
  unfold View.acquire LockState.join
  dsimp only
  cases (v.node.lock l).holder <;> rfl

theorem node_release (v : View) (l : Lock) : (v.release l).node = v.node.setLock l (v.node.lock l).pass := by
  unfold View.release LockState.pass
  dsimp only
  cases (v.node.lock l).waiting <;> rfl

theorem tasks_setLock (v : View) (l : Lock) (a : LockState) :
    (v.set (v.node.setLock l a)).tasks + Multiset.ofList (v.node.lock l).waiting =
      Multiset.ofList a.waiting + v.tasks := by
  have h := waiters_setLock v.node l a
  rw [tasks, tasks, add_left_comm, ← h, ← add_assoc]
  rfl

theorem tasks_acquire (v : View) (t : Task) (l : Lock) (body : Operation Answer) :
    ∃ p, (v.acquire t l body).tasks = {{ t with body, pause := p }} + v.tasks := by
  unfold View.acquire
  dsimp only
  split
  · have h := tasks_setLock v l { v.node.lock l with holder := some t.id }
    rw [add_comm, add_left_cancel_iff] at h
    refine ⟨.nothing, ?_⟩
    rw [← h]
    exact Multiset.cons_add ..
  · have h := tasks_setLock v l { v.node.lock l with waiting := (v.node.lock l).waiting ++ [{ t with body }] }
    rw [← Multiset.coe_add, add_comm, add_assoc, add_left_cancel_iff] at h
    exact ⟨t.pause, h⟩

/-- A task that is not in the queue of a lock goes to its end. -/
theorem trades_acquire (hf : (v.node.lock l).Fair) (hout : t.id ∉ (v.node.lock l).ids) (body : Operation Answer) :
    ∃ p, Trades t v {{ t with body, pause := p }} (v.acquire t l body) := by
  obtain ⟨p, htasks⟩ := tasks_acquire v t l body
  refine ⟨p, ?_, htasks⟩
  rw [node_acquire]
  refine .setLock (fun h => h.join hout) fun i hi => ?_
  rw [hf.ids_join]
  simp [hi]

theorem tasks_release (v : View) (l : Lock) : (v.release l).tasks = v.tasks := by
  unfold View.release
  dsimp only
  split
  · have h := tasks_setLock v l { v.node.lock l with holder := none }
    rw [add_comm, add_left_cancel_iff] at h
    exact h
  · rename_i x rest hw
    have h := tasks_setLock v l { holder := some x.id, waiting := rest }
    rw [hw, ← Multiset.cons_coe, Multiset.add_cons, ← Multiset.cons_add, add_comm, add_left_cancel_iff] at h
    rw [← h]
    exact Multiset.cons_add ..

/-- The task at the head of the queue of a lock leaves it. -/
theorem trades_release (hf : (v.node.lock l).Fair) (hin : (v.node.lock l).holder = some t.id) :
    Trades t v 0 (v.release l) := by
  have hids : (v.node.lock l).ids = t.id :: (v.node.lock l).waiting.map (·.id) := by
    rw [LockState.ids, hin]
    rfl
  refine ⟨?_, (tasks_release v l).trans (zero_add _).symm⟩
  rw [node_release]
  refine .setLock (fun h => h.pass) fun i hi => ?_
  rw [hf.ids_pass, hids]
  simp [hi]

theorem trades_surrender (hf : (v.node.lock l).Fair) : Trades t v 0 (v.surrender t l) := by
  unfold View.surrender
  split
  · rename_i hin
    exact trades_release hf hin
  · exact .refl t v

/-- A scheduler that ends, or is told to, or is forgotten, concerns no lock. -/
theorem trades_setScheduler (t : Task) (v : View) {x : Option SchedulerState} (new : Multiset Task)
    (h : (Multiset.ofList (x.bind (·.waiting)).toList) =
      new + Multiset.ofList (v.node.scheduler.bind (·.waiting)).toList) : Trades t v new (v.setScheduler x) := by
  refine ⟨.same rfl fun l => by cases l <;> rfl, ?_⟩
  simp only [tasks, setScheduler, set, Node.waiters, ← Multiset.coe_add, h]
  ac_rfl

theorem trades_endScheduler (t : Task) (v : View) (phase : SchedulerPhase) : Trades t v 0 (v.endScheduler phase) := by
  unfold View.endScheduler
  split
  · exact .refl t v
  · rename_i st hst
    dsimp only
    have hlocks (z : Option SchedulerState) : Locks t v.node (v.setScheduler z).node :=
      .same rfl fun l => by cases l <;> rfl
    split
    · rename_i x hx
      refine ⟨hlocks _, ?_⟩
      simp only [tasks, View.put, setScheduler, set, Node.waiters, hst, hx, ← Multiset.coe_add, Option.bind_some,
        Option.toList_some, Option.toList_none, Multiset.coe_nil, add_zero, zero_add, Multiset.coe_singleton,
        ← Multiset.singleton_add]
      ac_rfl
    · rename_i hx
      refine trades_setScheduler t v 0 ?_
      rw [hst, Option.bind_some, Option.bind_some, hx]
      rfl

end View

/-! ## Tasks that do what is allowed -/

/-- What a task does that is inside the lifecycle lock or not, and inside the lock of passes or not. -/
inductive Task.Conducts (s : Setup) (t : Task) : Bool → Bool → Prop where
  | awaited {inside passing : Bool} (hrole : t.role = .awaited) (hlawful : t.body.Lawful s inside false)
      (hguarded : t.body.Guarded s.hasEngine passing false) : Conducts s t inside passing
  | scheduler {passing : Bool} (hrole : t.role = .scheduler) (hround : t.body.Within Request.isRound)
      (hguarded : t.body.Guarded s.hasEngine passing false) : Conducts s t false passing
  | redelivery (hrole : t.role = .redelivery)
      (hbody : Parting t.body ∨ s.hasEngine = true ∧ ∃ key e, Handing key e t.body) : Conducts s t false false

/-- A task that conducts itself as it may, or that has closed a scheduler and asks for its end. -/
inductive Task.Stands (s : Setup) (t : Task) (inside passing : Bool) : Prop where
  | conducts (h : t.Conducts s inside passing)
  | halts (hin : inside = true) (hrole : t.role = .awaited) (hhalting : Halting s t.body)
    (hguarded : t.body.Guarded s.hasEngine passing false)

/-- The tasks of a node, numbered below `k`, do what is allowed where they are. -/
structure View.Ordered (s : Setup) (n k : Nat) (v : View) : Prop where
  setup : v.node.setup = s
  housed : ∀ x ∈ v.tasks, x.node = n
  distinct : (v.tasks.map (·.id)).Nodup
  numbered : ∀ x ∈ v.tasks, x.id < k
  fair : ∀ l, (v.node.lock l).Fair
  known : ∀ l, ∀ i ∈ (v.node.lock l).ids, ∃ x ∈ v.tasks, x.id = i
  conduct : ∀ x ∈ v.tasks, x.Stands s (v.within .lifecycle x) (v.within .pass x)

namespace View.Ordered

theorem tasks_put (v : View) (t : Task) : (v.put t).tasks = t ::ₘ v.tasks := Multiset.cons_add ..

variable (h : (v.put t).Ordered s n k)
include h

theorem self : t.node = n ∧ t.id < k ∧ t.Stands s (v.within .lifecycle t) (v.within .pass t) := by
  have ht : t ∈ (v.put t).tasks := tasks_put v t ▸ Multiset.mem_cons_self ..
  exact ⟨h.housed t ht, h.numbered t ht, h.conduct t ht⟩

/-- No other task has the number of a task that can go on. -/
theorem id_ne (hx : x ∈ v.tasks) : x.id ≠ t.id := by
  have hd := h.distinct
  rw [tasks_put, Multiset.map_cons, Multiset.nodup_cons] at hd
  exact fun he => hd.1 (he ▸ Multiset.mem_map_of_mem _ hx)

/-- A task that can go on inside a lock holds it. -/
theorem holder (hin : v.within l t = true) : (v.node.lock l).holder = some t.id := by
  rcases List.mem_append.1 (of_decide_eq_true hin) with hi | hi
  · exact Option.mem_toList.1 hi
  · obtain ⟨x, hx, hid⟩ := List.mem_map.1 hi
    have hx : x ∈ v.tasks := Multiset.mem_add.2 (.inr (View.mem_waiters_lock hx))
    exact absurd hid (h.id_ne hx)

/-- A task is replaced by others: itself, if it goes on, and new ones, which are outside all locks. -/
theorem trade (ht : Trades t v new w) (hkj : k ≤ j) (hnode : ∀ x ∈ new, x.node = n)
    (hids : (new.map (·.id)).Nodup) (hnew : ∀ x ∈ new, x.id = t.id ∧
      x.Stands s (w.within .lifecycle t) (w.within .pass t) ∨ k ≤ x.id ∧ x.id < j ∧ x.Conducts s false false)
    (hgone : ∀ l, w.within l t = true → ∃ x ∈ new, x.id = t.id) : w.Ordered s n j := by
  have hold : ∀ x ∈ v.tasks, x ∈ (v.put t).tasks := fun x hx => tasks_put v t ▸ Multiset.mem_cons_of_mem hx
  have hwithin (l : Lock) (x : Task) (hx : x.id ≠ t.id) : w.within l x = v.within l x :=
    decide_eq_decide.2 (ht.locks.others l x.id hx)
  have hfresh (l : Lock) (x : Task) (hx : k ≤ x.id) : w.within l x = false := by
    refine decide_eq_false fun hi => ?_
    have hne : x.id ≠ t.id := (Nat.lt_of_lt_of_le h.self.2.1 hx).ne'
    obtain ⟨y, hy, hid⟩ := h.known l x.id ((ht.locks.others l x.id hne).1 hi)
    exact absurd (h.numbered y hy) (Nat.not_lt_of_le (hid ▸ hx))
  refine ⟨ht.locks.setup.trans h.setup, fun x hx => ?_, ?_, fun x hx => ?_, ht.locks.fair h.fair, fun l i hi => ?_,
    fun x hx => ?_⟩
  · rw [ht.tasks] at hx
    rcases Multiset.mem_add.1 hx with hx | hx
    · exact hnode x hx
    · exact h.housed x (hold x hx)
  · have hd := h.distinct
    rw [tasks_put, Multiset.map_cons, Multiset.nodup_cons] at hd
    rw [ht.tasks, Multiset.map_add, Multiset.nodup_add]
    refine ⟨hids, hd.2, Multiset.disjoint_left.2 fun hi hi' => ?_⟩
    obtain ⟨x, hx, rfl⟩ := Multiset.mem_map.1 hi
    obtain ⟨y, hy, hid⟩ := Multiset.mem_map.1 hi'
    rcases hnew x hx with ⟨he, -⟩ | ⟨hle, -⟩
    · exact h.id_ne hy (hid.trans he)
    · exact absurd (h.numbered y (hold y hy)) (Nat.not_lt_of_le (hid ▸ hle))
  · rw [ht.tasks] at hx
    rcases Multiset.mem_add.1 hx with hx | hx
    · rcases hnew x hx with ⟨he, -⟩ | ⟨-, hlt, -⟩
      · rw [he]
        exact Nat.lt_of_lt_of_le h.self.2.1 hkj
      · exact hlt
    · exact Nat.lt_of_lt_of_le (h.numbered x (hold x hx)) hkj
  · rw [ht.tasks]
    by_cases he : i = t.id
    · subst he
      obtain ⟨x, hx, hid⟩ := hgone l (decide_eq_true hi)
      exact ⟨x, Multiset.mem_add.2 (.inl hx), hid⟩
    · obtain ⟨x, hx, hid⟩ := h.known l i ((ht.locks.others l i he).1 hi)
      rw [tasks_put] at hx
      rcases Multiset.mem_cons.1 hx with rfl | hx
      · exact absurd hid.symm he
      · exact ⟨x, Multiset.mem_add.2 (.inr hx), hid⟩
  · rw [ht.tasks] at hx
    rcases Multiset.mem_add.1 hx with hx | hx
    · rcases hnew x hx with ⟨he, hc⟩ | ⟨hle, -, hc⟩
      · have hsame (l : Lock) : w.within l x = w.within l t := by rw [within, within, he]
        rw [hsame, hsame]
        exact hc
      · rw [hfresh _ x hle, hfresh _ x hle]
        exact .conducts hc
    · rw [hwithin _ x (h.id_ne hx), hwithin _ x (h.id_ne hx)]
      exact h.conduct x (hold x hx)

/-- A task leaves that is outside all locks. -/
theorem gone (ht : Trades t v 0 w) (hout : ∀ l, w.within l t = false) : w.Ordered s n k :=
  h.trade ht (Nat.le_refl k) (fun x hx => absurd hx (Multiset.notMem_zero x)) Multiset.nodup_zero
    (fun x hx => absurd hx (Multiset.notMem_zero x)) fun l hl => absurd ((hout l).symm.trans hl) Bool.false_ne_true

/-- A task goes on. -/
theorem back (ht : Trades t v {x} w) (hid : x.id = t.id) (hn : x.node = t.node)
    (hc : x.Stands s (w.within .lifecycle t) (w.within .pass t)) : w.Ordered s n k := by
  refine h.trade ht (Nat.le_refl k) (fun y hy => ?_) (Multiset.nodup_singleton _) (fun y hy => ?_)
    fun _ _ => ⟨x, Multiset.mem_singleton_self x, hid⟩
  · rw [Multiset.mem_singleton.1 hy, hn]
    exact h.self.1
  · rw [Multiset.mem_singleton.1 hy]
    exact .inl ⟨hid, hc⟩

/-- A task goes on and another begins. -/
theorem begun (ht : Trades t v (x ::ₘ {y}) w) (hid : x.id = t.id) (hn : x.node = t.node)
    (hc : x.Stands s (w.within .lifecycle t) (w.within .pass t)) (hid' : y.id = k) (hn' : y.node = t.node)
    (hc' : y.Conducts s false false) : w.Ordered s n (k + 1) := by
  have hne : x.id ≠ y.id := by
    rw [hid, hid']
    exact h.self.2.1.ne
  refine h.trade ht (Nat.le_succ k) (fun z hz => ?_) ?_ (fun z hz => ?_)
    fun _ _ => ⟨x, Multiset.mem_cons_self .., hid⟩
  · rcases Multiset.mem_cons.1 hz with rfl | hz
    · rw [hn]
      exact h.self.1
    · rw [Multiset.mem_singleton.1 hz, hn']
      exact h.self.1
  · rw [Multiset.map_cons, Multiset.map_singleton, Multiset.nodup_cons]
    exact ⟨fun hx => hne (Multiset.mem_singleton.1 hx), Multiset.nodup_singleton _⟩
  · rcases Multiset.mem_cons.1 hz with rfl | hz
    · exact .inl ⟨hid, hc⟩
    · rw [Multiset.mem_singleton.1 hz, hid']
      exact .inr ⟨Nat.le_refl k, Nat.lt_succ_self k, hc'⟩

end View.Ordered

end Cluster

end DurableAggregates
