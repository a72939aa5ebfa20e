import DurableAggregates.Proofs.Interleaving.Guards
import DurableAggregates.Proofs.Schedule.Steps

/-!
# Views of nodes

What belongs to a node are its state and those of its tasks that can go on or wait for time to pass. A task that goes
on changes only the view of its own node. `View.Turn` says all that it can do there, whatever the store and the
collaborators answer, and `step_turn` that a step of a cluster is such a turn and changes no other view.
-/

namespace DurableAggregates

/-- Whether a request may take time to be answered. -/
def Request.isSlow : Request → Bool
  | .store _ | .deliver _ _ => true
  | _ => false

/-- Whether a request may be answered after a reaction to it. -/
def Request.isReacted : Request → Bool
  | .forward _ | .deliver _ _ => true
  | _ => false

namespace Cluster

@[simp] theorem Node.lock_setLock (x : Node) (l m : Lock) (a : LockState) :
    (x.setLock l a).lock m = if m = l then a else x.lock m := by
  cases l <;> cases m <;> rfl

@[simp] theorem Node.setup_setLock (x : Node) (l : Lock) (a : LockState) : (x.setLock l a).setup = x.setup := by
  cases l <;> rfl

@[simp] theorem Node.repository_setLock (x : Node) (l : Lock) (a : LockState) :
    (x.setLock l a).repository = x.repository := by
  cases l <;> rfl

@[simp] theorem Node.scheduler_setLock (x : Node) (l : Lock) (a : LockState) :
    (x.setLock l a).scheduler = x.scheduler := by
  cases l <;> rfl

/-- The state of a node, and its tasks that can go on or wait for time to pass. -/
structure View where
  node : Node
  queued : Multiset Task

def view (c : Cluster) (n : Nat) : View := ⟨c.node n, c.queued.filter (·.node = n)⟩

/-- How a scheduler has ended; nothing while it is alive. -/
def Node.join? (x : Node) : Option (Except String Unit) :=
  match x.scheduler with
  | none => some (.ok ())
  | some s => match s.phase with
    | .alive => none
    | .ended => some (.ok ())
    | .crashed detail => some (.error detail)

/-- What is noted for those who wait for a task when it ends. -/
def Task.noted (t : Task) (result : Result) : List Result := if t.role = .awaited then [result] else []

/-- What the monitor of a node is told. -/
def Node.noting (x : Node) (e : RouteError) : Node := if x.monitored then { x with reports := e :: x.reports } else x

namespace View

/-- All tasks of a node. -/
def tasks (v : View) : Multiset Task := v.queued + Multiset.ofList v.node.waiters

def put (v : View) (t : Task) : View := { v with queued := t ::ₘ v.queued }

def set (v : View) (x : Node) : View := { v with node := x }

/-- A task goes on with a body. -/
def resume (v : View) (t : Task) (body : Operation Answer) : View := v.put { t with body, pause := .nothing }

/-- A task has left a repository behind. -/
def leave (v : View) (r : Repository) : View := v.set { v.node with repository := r }

def setScheduler (v : View) (s : Option SchedulerState) : View := v.set { v.node with scheduler := s }

def acquire (v : View) (t : Task) (l : Lock) (body : Operation Answer) : View :=
  let s := v.node.lock l
  match s.holder with
  | none => (v.set (v.node.setLock l { s with holder := some t.id })).resume t body
  | some _ => v.set (v.node.setLock l { s with waiting := s.waiting ++ [{ t with body }] })

def release (v : View) (l : Lock) : View :=
  let s := v.node.lock l
  match s.waiting with
  | [] => v.set (v.node.setLock l { s with holder := none })
  | t :: rest => (v.set (v.node.setLock l { holder := some t.id, waiting := rest })).put t

def surrender (v : View) (t : Task) (l : Lock) : View :=
  if (v.node.lock l).holder = some t.id then v.release l else v

def endScheduler (v : View) (phase : SchedulerPhase) : View :=
  match v.node.scheduler with
  | none => v
  | some s =>
    let ended := v.setScheduler (some { s with phase, waiting := none })
    match s.waiting with
    | some t => ended.put t
    | none => ended

def finish (v : View) (t : Task) (result : Except RepositoryError Answer) : View :=
  match t.role, result with
  | .awaited, _ => v
  | .redelivery, _ => v
  | .scheduler, .ok (.flag true) => v.resume t (round v.node.setup)
  | .scheduler, _ => v.endScheduler .ended

def crash (v : View) (t : Task) : View :=
  let v := (v.surrender t .pass).surrender t .lifecycle
  match t.role with
  | .awaited => v
  | .redelivery => v.leave v.node.repository.endRedelivery
  | .scheduler => v.endScheduler (.crashed s!"task N panicked with message \"{crashText}\"")

@[simp] theorem repository_leave (v : View) (r : Repository) : (v.leave r).node.repository = r := rfl

@[simp] theorem scheduler_leave (v : View) (r : Repository) : (v.leave r).node.scheduler = v.node.scheduler := rfl

@[simp] theorem lock_leave (v : View) (r : Repository) (l : Lock) : (v.leave r).node.lock l = v.node.lock l := by
  cases l <;> rfl

/-! ## Turns -/

/--
How a view changes when the request of a task that was taken is answered, or waits. New tasks are numbered from `k` to
the next number.
-/
inductive Answered (t : Task) (k : Nat) (v : View) :
    (q : Request) → (q.Answer → Operation Answer) → View → Nat → Prop where
  /-- The call is to take its time. -/
  | slow {q : Request} {next : q.Answer → Operation Answer} (hq : q.isSlow = true) (hp : t.pause ≠ .delay) :
      Answered t k v q next (v.put { t with body := asking q next, pause := .delay }) k
  | called {call : Store.Call} {next : call.Result → Operation Answer} (a : call.Result) :
      Answered t k v (.store call) next (v.resume t (next a)) k
  | slept {time : Nat} {next : Unit → Operation Answer} :
      Answered t k v (.sleep time) next (v.resume t (next ())) k
  /-- The sink refuses a letter, or notes it and reacts. -/
  | forwarded {letter : DeadLetter} {next : Except DeadLetterError Unit → Operation Answer} (letters : List DeadLetter)
      (failures : Nat) {y : Procedure (Except DeadLetterError Unit)} (hy : y.Modest) :
      Answered t k v (.forward letter) next ((v.set { v.node with letters, failures }).resume t do next (← y)) k
  | undelivered {key : CorrelationKey} {e : Exchange} {next : Except RedeliveryError Unit → Operation Answer}
      (hengine : v.node.engine = none) (a : Except RedeliveryError Unit) :
      Answered t k v (.deliver key e) next (v.resume t (next a)) k
  | delivered {key : CorrelationKey} {e : Exchange} {next : Except RedeliveryError Unit → Operation Answer}
      (hengine : v.node.engine.isSome = true) {y : Procedure (Except RedeliveryError Unit)}
      (hy : y.Modest) :
      Answered t k v (.deliver key e) next
        ((v.set { v.node with delivered := (key, e) :: v.node.delivered }).resume t do next (← y)) k
  | dispatched {key : CorrelationKey} {e : Exchange} {next : Unit → Operation Answer} :
      Answered t k v (.dispatch key e) next
        ((v.put { id := k, node := t.node, role := .redelivery, body := redelivery key e }).resume t (next ())) (k + 1)
  | reported {e : RouteError} {next : Unit → Operation Answer} :
      Answered t k v (.report e) next ((v.set (v.node.noting e)).resume t (next ())) k
  | acquired {l : Lock} {next : Unit → Operation Answer} :
      Answered t k v (.acquire l) next (v.acquire t l (next ())) k
  | released {l : Lock} {next : Unit → Operation Answer} :
      Answered t k v (.release l) next ((v.release l).resume t (next ())) k
  | launched {interval : Nat} {next : Unit → Operation Answer} (now : Nat) :
      Answered t k v (.launch interval) next
        (((v.setScheduler (some { ticker := .starting now interval })).put
          { id := k, node := t.node, role := .scheduler, body := round v.node.setup }).resume t (next ())) (k + 1)
  | joined {next : Except String Unit → Operation Answer} {a : Except String Unit} (ha : v.node.join? = some a) :
      Answered t k v .halt next ((v.setScheduler none).resume t (next a)) k
  | closing {next : Except String Unit → Operation Answer} {s : SchedulerState} (hs : v.node.scheduler = some s)
      (hphase : s.phase = .alive) :
      Answered t k v .halt next (v.setScheduler (some { s with
        closing := true, waiting := some { t with body := asking .halt next, pause := .nothing } })) k
  /-- A scheduler that is being closed gets no tick. -/
  | ticked {next : Bool → Operation Answer} (ticker : Schedule.Ticker → Schedule.Ticker) (goes : Bool)
      (hgoes : ∀ s, v.node.scheduler = some s → s.closing = true → goes = false) :
      Answered t k v .tick next
        ((v.setScheduler (v.node.scheduler.map fun s => { s with ticker := ticker s.ticker })).resume t (next goes)) k
  | dozing {next : Bool → Operation Answer} {s : SchedulerState} (hs : v.node.scheduler = some s)
      (hopen : s.closing = false) :
      Answered t k v .tick next (v.put { t with body := asking .tick next, pause := .tick }) k

/--
How a view without the task `t` changes when `t` goes on: to which view, with which number for the next task, and what
is noted for those who wait for it.
-/
inductive Turn (t : Task) (k : Nat) (v : View) : View → Nat → List Result → Prop where
  | finished {result : Except RepositoryError Answer} {r : Repository}
      (hrun : t.body.run v.node.repository = .finished result r) :
      Turn t k v ((v.leave r).finish t result) k (t.noted (.ofExcept result))
  | answered {q : Request} {r : Repository} {f : q.Answer → Operation Answer} {w : View} {j : Nat}
      (hrun : t.body.run v.node.repository = .asking q r fun a => (f a).run)
      (h : (v.leave r).Answered t k q f w j) : Turn t k v w j []
  /-- A call that lists the keys crashes. -/
  | crashed {r : Repository} {next : Store.Call.keys.Result → Repository → Run (Except RepositoryError Answer)}
      (hrun : t.body.run v.node.repository = .asking (.store .keys) r next) :
      Turn t k v ((v.leave r).crash t) k (t.noted .crashed)

end View

/-! ## Changes at one node -/

/--
Between two clusters only the view of one node has changed, to `v`, and the number of the next task, to `k`, and the
results, to `rs`.
-/
structure Becomes (n : Nat) (c d : Cluster) (v : View) (k : Nat) (rs : List (Nat × Result)) : Prop where
  here : d.view n = v
  elsewhere : ∀ m, m ≠ n → d.view m = c.view m
  known : d.nodes.length = c.nodes.length
  next : d.next = k
  results : d.results = rs

variable {c d e : Cluster} {n k j : Nat} {t : Task} {v w : View} {tail : List Task} {r : Repository}
  {rs rs' : List (Nat × Result)}

/-- One more task. -/
theorem view_of_queued (hnodes : d.nodes = c.nodes) (hq : d.queued = t ::ₘ c.queued) :
    d.view t.node = (c.view t.node).put t ∧ ∀ m, m ≠ t.node → d.view m = c.view m := by
  have hnode (m : Nat) : d.node m = c.node m := by rw [node, node, hnodes]
  constructor
  · rw [view, hnode, hq, filter_node_cons rfl]
    rfl
  · intro m hm
    rw [view, hnode, hq, filter_node_cons_of_ne hm]
    rfl

theorem View.mem_waiters_lock {v : View} {l : Lock} (h : t ∈ (v.node.lock l).waiting) : t ∈ v.node.waiters := by
  cases l with
  | lifecycle => exact mem_waiters.2 (.inl h)
  | pass => exact mem_waiters.2 (.inr (.inl h))

theorem View.mem_waiters_setLock {x : Node} {l : Lock} {s : LockState} (hs : ∀ y ∈ s.waiting, y ∈ (x.lock l).waiting)
    (h : t ∈ (x.setLock l s).waiters) : t ∈ x.waiters := by
  cases l with
  | lifecycle => exact mem_waiters.2 ((mem_waiters.1 h).imp_left (hs t))
  | pass => exact mem_waiters.2 ((mem_waiters.1 h).imp_right (·.imp_left (hs t)))

theorem View.mem_waiters_release {v : View} {l : Lock} (h : t ∈ (v.release l).node.waiters) : t ∈ v.node.waiters := by
  unfold View.release at h
  dsimp only at h
  cases hw : (v.node.lock l).waiting with
  | nil =>
    rw [hw] at h
    exact mem_waiters_setLock (fun y hy => absurd hy List.not_mem_nil) h
  | cons x rest =>
    rw [hw] at h
    refine mem_waiters_setLock (fun y hy => ?_) h
    rw [hw]
    exact List.mem_cons_of_mem _ hy

theorem View.mem_waiters_surrender {v : View} {x : Task} {l : Lock} (h : t ∈ (v.surrender x l).node.waiters) :
    t ∈ v.node.waiters := by
  unfold View.surrender at h
  split at h
  · exact mem_waiters_release h
  · exact h

namespace Becomes

theorem refl (c : Cluster) (n : Nat) : Becomes n c c (c.view n) c.next c.results := ⟨rfl, fun _ _ => rfl, rfl, rfl, rfl⟩

theorem trans (h : Becomes n c d v k rs) (h' : Becomes n d e w j rs') : Becomes n c e w j rs' :=
  ⟨h'.here, fun m hm => (h'.elsewhere m hm).trans (h.elsewhere m hm), h'.known.trans h.known, h'.next,
    h'.results⟩

theorem put (h : Becomes t.node c d v k rs) (hnodes : e.nodes = d.nodes) (hq : e.queued = t ::ₘ d.queued)
    (hnext : e.next = d.next) (hresults : e.results = d.results) : Becomes t.node c e (v.put t) k rs := by
  obtain ⟨hhere, helsewhere⟩ := view_of_queued hnodes hq
  exact h.trans ⟨hhere.trans (by rw [h.here]), helsewhere, by rw [hnodes], hnext.trans h.next, hresults.trans h.results⟩

theorem resume (h : Becomes t.node c d v k rs) (body : Operation Answer) :
    Becomes t.node c (d.resume t body) (v.resume t body) k rs :=
  put (t := { t with body, pause := .nothing }) h rfl (queued_resume d t body) rfl rfl

theorem enqueue (h : Becomes t.node c d v k rs) : Becomes t.node c (d.enqueue t) (v.put t) k rs :=
  h.put rfl (queued_enqueue d t) rfl rfl

theorem sleepUntil (h : Becomes t.node c d v k rs) (time : Nat) : Becomes t.node c (d.sleepUntil time t) (v.put t) k rs :=
  h.put rfl (queued_sleepUntil d time t) rfl rfl

theorem spawn (h : Becomes n c d v k rs) (role : Role) (body : Operation Answer) :
    Becomes n c (d.spawn n role body) (v.put { id := k, node := n, role, body }) (k + 1) rs := by
  rw [← h.next]
  have hcount : Becomes n d { d with next := d.next + 1 } (d.view n) (d.next + 1) d.results :=
    ⟨rfl, fun _ _ => rfl, rfl, rfl, rfl⟩
  have hspawn := hcount.enqueue (t := { id := d.next, node := n, role, body })
  exact h.trans (h.results ▸ h.here ▸ hspawn)

theorem modifyNode (h : Becomes n c d v k rs) (hn : n < c.nodes.length) (f : Node → Node) :
    Becomes n c (d.modifyNode n f) (v.set (f v.node)) k rs := by
  have hnode := node_modifyNode (by rw [h.known]; exact hn) f
  refine h.trans ⟨?_, fun m hm => ?_, length_modifyNode .., h.next, h.results⟩
  · rw [view, hnode, ← h.here]
    rfl
  · rw [view, node_modifyNode_of_ne hm]
    rfl

theorem setScheduler (h : Becomes n c d v k rs) (hn : n < c.nodes.length) (s : Option SchedulerState) :
    Becomes n c (d.setScheduler n s) (v.setScheduler s) k rs := h.modifyNode hn _

theorem node_eq (h : Becomes n c d v k rs) : d.node n = v.node := congrArg View.node h.here

theorem release (h : Becomes n c d v k rs) (hn : n < c.nodes.length) (hv : ∀ x ∈ v.node.waiters, x.node = n) (l : Lock) :
    Becomes n c (d.release n l) (v.release l) k rs := by
  unfold Cluster.release View.release
  rw [h.node_eq]
  dsimp only
  cases hw : (v.node.lock l).waiting with
  | nil => exact h.modifyNode hn _
  | cons t rest =>
    obtain rfl : t.node = n := hv t (View.mem_waiters_lock (hw ▸ List.mem_cons_self ..))
    exact (h.modifyNode hn _).enqueue

theorem acquire (h : Becomes t.node c d v k rs) (hn : t.node < c.nodes.length) (l : Lock) (body : Operation Answer) :
    Becomes t.node c (d.acquire t l body) (v.acquire t l body) k rs := by
  unfold Cluster.acquire View.acquire
  rw [h.node_eq]
  dsimp only
  cases (v.node.lock l).holder with
  | none => exact (h.modifyNode hn _).resume body
  | some i => exact h.modifyNode hn _

theorem surrender (h : Becomes t.node c d v k rs) (hn : t.node < c.nodes.length)
    (hv : ∀ x ∈ v.node.waiters, x.node = t.node) (l : Lock) :
    Becomes t.node c (d.surrender t l) (v.surrender t l) k rs := by
  unfold Cluster.surrender View.surrender
  rw [h.node_eq]
  split
  · exact h.release hn hv l
  · exact h

theorem endScheduler (h : Becomes n c d v k rs) (hn : n < c.nodes.length) (hv : ∀ x ∈ v.node.waiters, x.node = n)
    (phase : SchedulerPhase) : Becomes n c (d.endScheduler n phase) (v.endScheduler phase) k rs := by
  unfold Cluster.endScheduler View.endScheduler
  rw [h.node_eq]
  cases hs : v.node.scheduler with
  | none => exact h
  | some s =>
    dsimp only
    cases ht : s.waiting with
    | some t =>
      obtain rfl : t.node = n := hv t (mem_waiters.2 (.inr (.inr ⟨s, hs, ht⟩)))
      exact (h.setScheduler hn _).enqueue
    | none => exact h.setScheduler hn _

theorem crash (h : Becomes t.node c d v k rs) (hn : t.node < c.nodes.length)
    (hv : ∀ x ∈ v.node.waiters, x.node = t.node) :
    Becomes t.node c (d.crash t) (v.crash t) k ((t.noted .crashed).map (t.id, ·) ++ rs) := by
  have hlocks := (h.surrender hn hv .pass).surrender hn (fun x hx => hv x (View.mem_waiters_surrender hx)) .lifecycle
  unfold Cluster.crash View.crash Task.noted
  dsimp only
  cases t.role with
  | awaited => exact { hlocks with results := congrArg ((t.id, .crashed) :: ·) hlocks.results }
  | redelivery =>
    rw [hlocks.node_eq]
    exact hlocks.modifyNode hn _
  | scheduler =>
    exact hlocks.endScheduler hn (fun x hx => hv x (View.mem_waiters_surrender (View.mem_waiters_surrender hx))) _

theorem finish (h : Becomes t.node c d v k rs) (hn : t.node < c.nodes.length)
    (hv : ∀ x ∈ v.node.waiters, x.node = t.node) (result : Except RepositoryError Answer) :
    Becomes t.node c (d.finish t result) (v.finish t result) k ((t.noted (.ofExcept result)).map (t.id, ·) ++ rs) := by
  unfold Cluster.finish View.finish Task.noted
  cases t.role with
  | awaited => exact { h with results := congrArg ((t.id, .ofExcept result) :: ·) h.results }
  | redelivery => exact h
  | scheduler =>
    rw [h.node_eq]
    cases result with
    | error e => exact h.endScheduler hn hv _
    | ok a =>
      cases a with
      | flag again =>
        cases again with
        | true => exact h.resume _
        | false => exact h.endScheduler hn hv _
      | _ => exact h.endScheduler hn hv _

end Becomes

/-! ## Answers -/

section Answers

variable (h : Becomes t.node c d v k rs)
include h

theorem answered_store (call : Store.Call) (next : call.Result → Operation Answer) :
    (∃ w, v.Answered t k (.store call) next w k ∧ Becomes t.node c (d.answerStore t call next) w k rs) ∨
      call = .keys ∧ d.answerStore t call next = d.crash t := by
  have hnow (store : Store) (a : call.Result) : ∃ w, v.Answered t k (.store call) next w k ∧
      Becomes t.node c ({ d with store }.resume t (next a)) w k rs :=
    ⟨_, .called a, Becomes.resume (d := { d with store }) ⟨h.here, h.elsewhere, h.known, h.next, h.results⟩ (next a)⟩
  unfold answerStore
  split
  · rename_i hslow
    exact .inl ⟨_, .slow rfl hslow.1, h.sleepUntil (t := { t with body := asking (.store call) next, pause := .delay }) _⟩
  · split
    · split
      · exact .inr ⟨rfl, rfl⟩
      · exact .inl (hnow _ _)
    · exact .inl (hnow _ _)

theorem answered_forward (hn : t.node < c.nodes.length) (letter : DeadLetter)
    (next : Except DeadLetterError Unit → Operation Answer) :
    ∃ w, v.Answered t k (.forward letter) next w k ∧ Becomes t.node c (d.answerForward t letter next) w k rs := by
  have hback (a : Except DeadLetterError Unit) : ∃ w, v.Answered t k (.forward letter) next w k ∧
      Becomes t.node c (d.resume t (next a)) w k rs :=
    ⟨_, .forwarded v.node.letters v.node.failures (.pure a), h.resume (next a)⟩
  unfold answerForward
  rw [h.node_eq]
  dsimp only
  split
  · exact hback _
  · rename_i sink _
    split
    · exact hback _
    · split
      · exact ⟨_, .forwarded v.node.letters (v.node.failures - 1) (.pure _), (h.modifyNode hn _).resume _⟩
      · exact ⟨_, .forwarded (letter :: v.node.letters) v.node.failures (modest_react sink letter),
          (h.modifyNode hn _).resume _⟩

theorem answered_deliver (hn : t.node < c.nodes.length) (key : CorrelationKey) (e : Exchange)
    (next : Except RedeliveryError Unit → Operation Answer) :
    ∃ w, v.Answered t k (.deliver key e) next w k ∧ Becomes t.node c (d.answerDeliver t key e next) w k rs := by
  unfold answerDeliver
  rw [h.node_eq]
  dsimp only
  cases hengine : v.node.engine with
  | none => exact ⟨_, .undelivered hengine _, h.resume _⟩
  | some engine =>
    dsimp only
    split
    · rename_i hslow
      exact ⟨_, .slow rfl hslow.1, h.sleepUntil (t := { t with body := asking (.deliver key e) next, pause := .delay }) _⟩
    · exact ⟨_, .delivered (hengine ▸ rfl) (modest_engine_react engine key e), (h.modifyNode hn _).resume _⟩

theorem answered_halt (hn : t.node < c.nodes.length) (next : Except String Unit → Operation Answer) :
    ∃ w, v.Answered t k .halt next w k ∧ Becomes t.node c (d.answerHalt t next) w k rs := by
  unfold answerHalt
  rw [h.node_eq]
  cases hs : v.node.scheduler with
  | none =>
    have hjoin : v.node.join? = some (.ok ()) := by rw [Node.join?, hs]
    refine ⟨_, .joined hjoin, ?_⟩
    have hv : v.setScheduler none = v := by rw [View.setScheduler, View.set, ← hs]
    rw [hv]
    exact h.resume _
  | some s =>
    dsimp only
    split
    · rename_i hphase
      have hjoin : v.node.join? = some (.ok ()) := by simp only [Node.join?, hs, hphase]
      exact ⟨_, .joined hjoin, (h.setScheduler hn none).resume _⟩
    · rename_i detail hphase
      have hjoin : v.node.join? = some (.error detail) := by simp only [Node.join?, hs, hphase]
      exact ⟨_, .joined hjoin, (h.setScheduler hn none).resume _⟩
    · rename_i hphase
      obtain ⟨hhere, helsewhere, hknown, hnext, hresults⟩ := h.setScheduler hn (some { s with
        closing := true, waiting := some { t with body := asking .halt next, pause := .nothing } })
      have hview (m : Nat) (x : Cluster) : (x.wakeScheduler t.node).view m = x.view m := by
        rw [view, queued_wakeScheduler]
        rfl
      exact ⟨_, .closing hs hphase, (hview _ _).trans hhere, fun m hm => (hview _ _).trans (helsewhere m hm), hknown,
        hnext, hresults⟩

theorem answered_tick (hn : t.node < c.nodes.length) (next : Bool → Operation Answer) :
    ∃ w, v.Answered t k .tick next w k ∧ Becomes t.node c (d.answerTick t next) w k rs := by
  have hback (hs : v.node.scheduler = v.node.scheduler.map fun s => { s with ticker := id s.ticker }) :
      ∃ w, v.Answered t k .tick next w k ∧ Becomes t.node c (d.resume t (next false)) w k rs := by
    refine ⟨_, .ticked id false fun _ _ _ => rfl, ?_⟩
    have hv : v.setScheduler (v.node.scheduler.map fun s => { s with ticker := id s.ticker }) = v := by
      rw [← hs]
      rfl
    rw [hv]
    exact h.resume _
  unfold answerTick
  rw [h.node_eq]
  cases hs : v.node.scheduler with
  | none => exact hback (by rw [hs]; rfl)
  | some s =>
    dsimp only
    split
    · exact hback (by rw [hs]; rfl)
    · rename_i hopen
      split
      · refine ⟨_, .ticked (·.serve d.now) true fun s' hs' hc => ?_, ?_⟩
        · rw [hs] at hs'
          cases hs'
          exact absurd hc hopen
        · rw [hs]
          exact (h.setScheduler hn _).resume _
      · exact ⟨_, .dozing hs (Bool.eq_false_iff.2 hopen),
          h.sleepUntil (t := { t with body := asking .tick next, pause := .tick }) _⟩

/-- The request of a task is answered, or crashes. -/
theorem answered_answer (hn : t.node < c.nodes.length) (hv : ∀ x ∈ v.node.waiters, x.node = t.node) (q : Request)
    (next : q.Answer → Operation Answer) :
    (∃ w j, v.Answered t k q next w j ∧ Becomes t.node c (d.answer t q next) w j rs) ∨
      q = .store .keys ∧ d.answer t q next = d.crash t := by
  cases q with
  | store call =>
    rcases answered_store h call next with ⟨w, hw⟩ | ⟨rfl, hw⟩
    · exact .inl ⟨w, k, hw⟩
    · exact .inr ⟨rfl, hw⟩
  | forward letter => exact .inl ((answered_forward h hn letter next).imp fun w hw => ⟨k, hw⟩)
  | dispatch key e => exact .inl ⟨_, _, .dispatched, (h.spawn .redelivery (redelivery key e)).resume _⟩
  | deliver key e => exact .inl ((answered_deliver h hn key e next).imp fun w hw => ⟨k, hw⟩)
  | report e => exact .inl ⟨_, _, .reported, (h.modifyNode hn (·.noting e)).resume _⟩
  | acquire l => exact .inl ⟨_, _, .acquired, h.acquire hn l _⟩
  | release l => exact .inl ⟨_, _, .released, (h.release hn hv l).resume _⟩
  | launch interval =>
    have hsetup : (d.node t.node).setup = v.node.setup := by rw [h.node_eq]
    refine .inl ⟨_, _, .launched d.now, ?_⟩
    rw [← hsetup]
    exact ((h.setScheduler hn _).spawn .scheduler _).resume _
  | halt => exact .inl ((answered_halt h hn next).imp fun w hw => ⟨k, hw⟩)
  | tick => exact .inl ((answered_tick h hn next).imp fun w hw => ⟨k, hw⟩)
  | sleep time =>
    refine .inl ⟨_, _, .slept, ?_⟩
    unfold answer
    dsimp only
    split
    · exact h.resume _
    · exact h.sleepUntil (t := { t with body := next (), pause := .nothing }) _

end Answers

/-- A step is a turn of the task at the head of the queue, and concerns its node only. -/
theorem step_turn (hr : c.ready = t :: tail) (hn : t.node < c.nodes.length)
    (hwaiters : ∀ x ∈ (c.node t.node).waiters, x.node = t.node) :
    ∃ (v w : View) (k : Nat) (rs : List Result), c.view t.node = v.put t ∧ v.Turn t c.next w k rs ∧
      Becomes t.node c c.step w k (rs.map (t.id, ·) ++ c.results) := by
  have hqueued : c.queued = t ::ₘ queued { c with ready := tail } := by
    rw [queued, hr, ← Multiset.cons_coe, Multiset.cons_add]
    rfl
  obtain ⟨hhere, helsewhere⟩ := view_of_queued (c := { c with ready := tail }) (d := c) rfl hqueued
  let v : View := ⟨c.node t.node, Multiset.filter (·.node = t.node) (queued { c with ready := tail })⟩
  have hpop : Becomes t.node c { c with ready := tail } v c.next c.results :=
    ⟨rfl, fun m hm => (helsewhere m hm).symm, rfl, rfl, rfl⟩
  have hleft (r : Repository) : Becomes t.node c (c.taken tail t.node r) (v.leave r) c.next c.results :=
    hpop.modifyNode hn _
  cases hrun : t.body.run (c.node t.node).repository with
  | finished result r =>
    refine ⟨v, _, _, _, hhere, .finished hrun, ?_⟩
    rw [(step_finished hr hrun).1]
    exact (hleft r).finish hn hwaiters result
  | asking q r next =>
    have hstep := (step_asking hr (fun a => ExceptT.mk (next a)) hrun).1
    rcases answered_answer (hleft r) hn hwaiters q fun a => ExceptT.mk (next a) with ⟨w, j, hw, hd⟩ | ⟨rfl, hcrash⟩
    · exact ⟨v, w, j, [], hhere, .answered (f := fun a => ExceptT.mk (next a)) hrun hw, hstep ▸ hd⟩
    · refine ⟨v, _, _, _, hhere, .crashed hrun, ?_⟩
      rw [hstep, hcrash]
      exact (hleft r).crash hn hwaiters

end Cluster

end DurableAggregates
