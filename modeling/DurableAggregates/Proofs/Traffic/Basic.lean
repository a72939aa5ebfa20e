import DurableAggregates.Proofs.Execution.Plain
import DurableAggregates.Proofs.Execution.Runs

/-!
# Calls under way

Clients call one repository at the same time, and every request of a call is made, served and answered at moments of
their own. A call goes on until it makes a request. The world serves the request at any later time: that is when a call
of the store takes effect and its answer is made. At any time after that the call goes on with the answer. In between
everything else may happen, so an answer can be out of date when it is used. `Traffic.run` is one such course of
events, given turn by turn; only the locks of the repository keep requests waiting.
-/

namespace DurableAggregates

/-- Whether an action drops what the store does not list. -/
def Action.sweeps : Action → Bool
  | .pass => true
  | _ => false

/-- Whether a request with this answer has changed what is stored under the key. -/
def Request.changes (key : CorrelationKey) : (q : Request) → q.Answer → Bool
  | .store (.put k _), .ok _ => k = key
  | .store (.remove k), .ok _ => k = key
  | _, _ => false

/-- Whether an answer tells a call that the key is not stored, which only a pass takes from a list. -/
def Request.denies (a : Action) (key : CorrelationKey) : (q : Request) → q.Answer → Bool
  | .store (.remove k), .ok _ => k = key
  | .store (.get k), .ok none => k = key
  | .store .keys, .ok stored => a.sweeps && !stored.contains key
  | _, _ => false

namespace Traffic

open Cluster (Answer)

/-- Where a call stands. -/
inductive Stage where
  | asking (q : Request) (next : q.Answer → Repository → Run (Except RepositoryError Answer))
  /-- Its request was served, and the answer is on its way. -/
  | answered (q : Request) (a : q.Answer) (next : q.Answer → Repository → Run (Except RepositoryError Answer))
  | returned (x : Except RepositoryError Answer)

structure Call where
  action : Action
  stage : Stage

/-- What happens next. -/
inductive Turn where
  /-- A client makes a call. -/
  | call (a : Action)
  /-- The world serves the request of a call. -/
  | serve (i : Nat)
  /-- A call goes on with its answer. -/
  | resume (i : Nat)

end Traffic

/-- A repository with the world it works on and the calls that were made of it. -/
structure Traffic where
  repository : Repository := {}
  world : World := {}
  /-- The calls, the first first. -/
  calls : List Traffic.Call := []
  /-- The locks that are held. -/
  held : List Lock := []

namespace Traffic

open Cluster (Answer)

/-- The stage that a run has got to, and the repository it leaves. -/
def pause : Run (Except RepositoryError Answer) → Stage × Repository
  | .finished x r => (.returned x, r)
  | .asking q r next => (.asking q next, r)

/-- Whether a request has to wait for a lock. -/
def waits (t : Traffic) : Request → Bool
  | .acquire l => t.held.contains l
  | _ => false

/-- The locks that are held after a request was served. -/
def locks (held : List Lock) : Request → List Lock
  | .acquire l => l :: held
  | .release l => held.erase l
  | _ => held

def call (s : Setup) (t : Traffic) (a : Action) : Traffic :=
  let (stage, r) := pause ((a.task s).run t.repository)
  { t with repository := r, calls := t.calls ++ [{ action := a, stage }] }

def serve (env : Environment) (t : Traffic) (i : Nat) : Traffic :=
  match t.calls[i]? with
  | some ⟨action, .asking q next⟩ =>
    if t.waits q then t
    else
      let (a, w) := env.answer t.world q
      { t with world := w, calls := t.calls.set i ⟨action, .answered q a next⟩, held := locks t.held q }
  | _ => t

def resume (t : Traffic) (i : Nat) : Traffic :=
  match t.calls[i]? with
  | some ⟨action, .answered _ a next⟩ =>
    let (stage, r) := pause (next a t.repository)
    { t with repository := r, calls := t.calls.set i ⟨action, stage⟩ }
  | _ => t

def turn (env : Environment) (s : Setup) (t : Traffic) : Turn → Traffic
  | .call a => t.call s a
  | .serve i => t.serve env i
  | .resume i => t.resume i

def run (env : Environment) (s : Setup) (t : Traffic) (turns : List Turn) : Traffic := turns.foldl (turn env s) t

/-! ## Undisturbed calls -/

/-- Some requests of one call are served, one after another, and nothing comes between. -/
def alone (i : Nat) : Nat → List Turn
  | 0 => []
  | k + 1 => .serve i :: .resume i :: alone i k

section

variable {env : Environment} {s : Setup} {t : Traffic} {m : Nat} {a : Action} {q : Request} {w : World}
  {next : q.Answer → Repository → Run (Except RepositoryError Answer)}

theorem serve_eq (hc : t.calls[m]? = some ⟨a, .asking q next⟩) (hw : t.waits q = false) :
    t.serve env m = { t with
      world := (env.answer t.world q).2
      calls := t.calls.set m ⟨a, .answered q (env.answer t.world q).1 next⟩
      held := locks t.held q } := by
  unfold serve
  simp only [hc, hw]
  rfl

theorem resume_eq {x : q.Answer} (hc : t.calls[m]? = some ⟨a, .answered q x next⟩) :
    t.resume m = { t with
      repository := (pause (next x t.repository)).2
      calls := t.calls.set m ⟨a, (pause (next x t.repository)).1⟩ } := by
  unfold resume
  simp only [hc]

theorem waits_of_plain (t : Traffic) (hq : q.isPlain = true) : t.waits q = false := by
  cases q <;> first | rfl | cases hq

theorem locks_of_plain (held : List Lock) (hq : q.isPlain = true) : locks held q = held := by
  cases q <;> first | rfl | cases hq

/-- A call that waits for nobody comes to what it is executed to when nothing comes between. -/
theorem run_alone {x : Run (Except RepositoryError Answer)} {P : Except RepositoryError Answer → Prop}
    {p : Option Policy} (hx : x.Confined Request.isPlain P p) (w : World) (calls : List Call) (held : List Lock) :
    ∃ k, run env s ⟨(pause x).2, w, calls ++ [⟨a, (pause x).1⟩], held⟩ (alone calls.length k) =
      ⟨(x.exec env w).2.1, (x.exec env w).2.2, calls ++ [⟨a, .returned (x.exec env w).1⟩], held⟩ := by
  have set_last (c d : Call) : (calls ++ [c]).set calls.length d = calls ++ [d] := by simp
  induction hx generalizing w with
  | finished => exact ⟨0, rfl⟩
  | @asking p q hq r hr next _ ih =>
    obtain ⟨k, hk⟩ := ih (env.answer w q).1 r (env.answer w q).2
    refine ⟨k + 1, Eq.trans ?_ hk⟩
    show run env s (Traffic.resume (Traffic.serve env ⟨r, w, calls ++ [⟨a, .asking q next⟩], held⟩ calls.length)
      calls.length) (alone calls.length k) = _
    rw [serve_eq List.getElem?_concat_length (waits_of_plain _ hq), set_last, locks_of_plain held hq,
      resume_eq List.getElem?_concat_length, set_last]

/-- An action that waits for nobody is executed when nothing comes between. -/
theorem run_call_alone (env : Environment) (h : (a.task s).Within Request.isPlain) (t : Traffic) :
    let y := (a.task s).exec env t.repository t.world
    ∃ k, run env s t (.call a :: alone t.calls.length k) =
      ⟨y.2.1, y.2.2, t.calls ++ [⟨a, .returned y.1⟩], t.held⟩ :=
  run_alone (h t.repository) t.world t.calls t.held

end

/-! ## What concerns one key -/

/-- Whether a turn serves a request that changes what is stored under the key. -/
def changes (env : Environment) (key : CorrelationKey) (t : Traffic) : Turn → Bool
  | .serve i =>
    match t.calls[i]? with
    | some ⟨_, .asking q _⟩ => !t.waits q && q.changes key (env.answer t.world q).1
    | _ => false
  | _ => false

/-- No turn changes what is stored under the key. -/
def quiet (env : Environment) (s : Setup) (key : CorrelationKey) (t : Traffic) : List Turn → Bool
  | [] => true
  | x :: turns => !t.changes env key x && quiet env s key (turn env s t x) turns

/-- Whether serving a call puts the exchange that it adds, which has the id, under the key. -/
def adds (env : Environment) (key : CorrelationKey) (id : String) (t : Traffic) (i : Nat) : Bool :=
  match t.calls[i]? with
  | some ⟨.add k e _, .asking (.store (.put k' v)) _⟩ =>
    decide (k = key ∧ e.id = id) && (env.result t.world (.put k' v)).isOk
  | _ => false

/-- Whether a call has returned with success. -/
def succeeded (t : Traffic) (i : Nat) : Bool :=
  match t.calls[i]? with
  | some ⟨_, .returned (.ok _)⟩ => true
  | _ => false

/-- Whether the answer that is on its way to a call makes it take the key for one that is not stored. -/
def Call.denies (c : Call) (key : CorrelationKey) : Bool :=
  match c.stage with
  | .answered q a _ => q.denies c.action key a
  | _ => false

end Traffic

end DurableAggregates
