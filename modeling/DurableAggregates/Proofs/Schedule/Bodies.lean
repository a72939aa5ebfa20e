import DurableAggregates.Proofs.Execution.Plain

/-!
# What tasks may do to schedulers

Only a start launches a scheduler and only a stop ends one, and both do it while they hold the lifecycle lock. A run
is `Lawful` if it does so too: it takes the lock before, launches a scheduler only for a repository that was not
running and runs now, ends one only for a repository that runs no longer, and otherwise keeps the policy. Lawful runs
are closed under sequencing, and the tasks of all steps of scripts are lawful (`lawful_task`). The task of a scheduler
is in one of three stages: it waits for a tick (`Ticking`), it is in a pass (`Passing`), or it is to end (`Ending`).
-/

namespace DurableAggregates

open Cluster (Answer)

/-- Whether a request concerns neither the lifecycle lock nor a scheduler. -/
def Request.isFree : Request → Bool
  | .store _ | .forward _ | .dispatch _ _ | .deliver _ _ | .report _ | .sleep _ => true
  | .acquire l | .release l => l == .pass
  | .launch _ | .halt | .tick => false

theorem Request.isFree_of_isPlain (q : Request) (hq : q.isPlain = true) : q.isFree = true := by
  cases q <;> first | rfl | cases hq

/-- What becomes of a policy without a scheduler: a start `inside` the lock may set one that schedules no passes. -/
def Policy.Keeps (inside : Bool) (p q : Option Policy) : Prop :=
  q = p ∨ inside = true ∧ p = none ∧ ∃ o, q = some o ∧ o.schedulesPasses = false

variable {α β : Type} {s : Setup} {inside done last : Bool} {p : Option Policy} {P : α → Prop}

/--
A run of a repository with the policy `p` that is `inside` the lifecycle lock or not, launches and ends schedulers
inside only, and is inside at its end or not.
-/
inductive Run.Lawful (s : Setup) (done : Bool) : Bool → Option Policy → Run α → Prop where
  | finished {p : Option Policy} {a : α} {r : Repository} (hr : Policy.Keeps done p r.active) :
      Lawful s done done p (.finished a r)
  | free {inside : Bool} {p : Option Policy} {q : Request} (hq : q.isFree = true) {r : Repository}
      (hr : Policy.Keeps inside p r.active) {next : q.Answer → Repository → Run α}
      (h : ∀ a t, Lawful s done inside t.active (next a t)) : Lawful s done inside p (.asking q r next)
  | acquire {p : Option Policy} {r : Repository} (hr : r.active = p) {next : Unit → Repository → Run α}
      (h : ∀ t, Lawful s done true t.active (next () t)) : Lawful s done false p (.asking (.acquire .lifecycle) r next)
  | release {p : Option Policy} {r : Repository} (hr : Policy.Keeps true p r.active) {next : Unit → Repository → Run α}
      (h : ∀ t, Lawful s done false t.active (next () t)) : Lawful s done true p (.asking (.release .lifecycle) r next)
  | launch {o : Policy} (ho : s.policy? = .ok o) (hs : o.schedulesPasses = true) {r : Repository}
      (hr : r.active = some o) {next : Unit → Repository → Run α} (h : ∀ t, Lawful s done true t.active (next () t)) :
      Lawful s done true none (.asking (.launch o.interval) r next)
  | halt {p : Option Policy} {r : Repository} (hr : r.active = none)
      {next : Except String Unit → Repository → Run α} (h : ∀ a t, Lawful s done true t.active (next a t)) :
      Lawful s done true p (.asking .halt r next)

theorem Policy.Keeps.trans {q r : Option Policy} (h : Keeps inside p q) (h' : Keeps inside q r) : Keeps inside p r := by
  rcases h' with rfl | ⟨hi, rfl, ho⟩
  · exact h
  · rcases h with rfl | ⟨-, -, o, ho', -⟩
    · exact .inr ⟨hi, rfl, ho⟩
    · cases ho'

theorem Policy.Keeps.of_false {q : Option Policy} (h : Keeps false p q) : Keeps inside p q :=
  .inl (h.resolve_right fun h => nomatch h.1)

namespace Run

/-- Nothing is lost if the policy was kept before. -/
theorem Lawful.of_keeps {q : Option Policy} {x : Run α} (h : Policy.Keeps inside p q) (hx : x.Lawful s done inside q) :
    x.Lawful s done inside p := by
  rcases h with rfl | ⟨rfl, rfl, o, rfl, ho⟩
  · exact hx
  · have hk : Policy.Keeps true none (some o) := .inr ⟨rfl, rfl, o, rfl, ho⟩
    cases hx with
    | finished hr => exact .finished (hk.trans hr)
    | free hq hr h => exact .free hq (hk.trans hr) h
    | release hr h => exact .release (hk.trans hr) h
    | halt hr h => exact .halt hr h

theorem Lawful.bind {x : Run α} {f : α → Repository → Run β} (hx : x.Lawful s done inside p)
    (hf : ∀ a r, (f a r).Lawful s last done r.active) : (x.bind f).Lawful s last inside p := by
  induction hx with
  | finished hr => exact (hf _ _).of_keeps hr
  | free hq hr _ ih => exact .free hq hr ih
  | acquire hr _ ih => exact .acquire hr ih
  | release hr _ ih => exact .release hr ih
  | launch ho hs hr _ ih => exact .launch ho hs hr ih
  | halt hr _ ih => exact .halt hr ih

theorem Confined.lawful {x : Run α} (hx : x.Confined Request.isFree P p) : x.Lawful s inside inside p := by
  induction hx with
  | finished ha hr => exact .finished (.inl hr)
  | asking hq hr _ ih => exact .free hq (.inl hr) ih

end Run

/-! ## Lawful operations -/

def Procedure.Lawful (s : Setup) (inside done : Bool) (x : Procedure α) : Prop :=
  ∀ r, (x r).Lawful s done inside r.active

def Operation.Lawful (s : Setup) (inside done : Bool) (x : Operation α) : Prop := Procedure.Lawful s inside done x.run

theorem Procedure.Lawful.bind {x : Procedure α} {f : α → Procedure β} (hx : x.Lawful s inside done)
    (hf : ∀ a, (f a).Lawful s done last) : (x >>= f).Lawful s inside last :=
  fun r => (hx r).bind fun a t => hf a t

namespace Operation

theorem Within.lawful {x : Operation α} (h : x.Within Request.isFree) : x.Lawful s inside inside :=
  fun r => (h r).lawful

theorem Within.free {x : Operation α} (h : x.Within Request.isPlain) : x.Within Request.isFree :=
  h.mono Request.isFree_of_isPlain

theorem Lawful.bind {x : Operation α} {f : α → Operation β} (hx : x.Lawful s inside done)
    (hf : ∀ a, (f a).Lawful s done done) : (x >>= f).Lawful s inside done := by
  refine Procedure.Lawful.bind hx fun a => ?_
  cases a with
  | ok a => exact hf a
  | error e => exact (Within.fail e).lawful

/-- What is lawful inside may be done while holding the lock. -/
theorem Lawful.holding {x : Operation α} (hx : x.Lawful s true true) : (holding .lifecycle x).Lawful s false false := by
  have hacquire : (Procedure.ask (.acquire .lifecycle)).Lawful s false true :=
    fun _ => .acquire rfl fun _ => .finished (.inl rfl)
  have hrelease : (Procedure.ask (.release .lifecycle)).Lawful s true false :=
    fun _ => .release (.inl rfl) fun _ => .finished (.inl rfl)
  have hreturn (a : Except RepositoryError α) : (pure a : Procedure _).Lawful s false false :=
    fun _ => .finished (.inl rfl)
  exact hacquire.bind fun _ => Procedure.Lawful.bind hx fun a => hrelease.bind fun _ => hreturn a

theorem Within.holding_pass {x : Operation α} (h : x.Within Request.isFree) :
    (holding .pass x).Within Request.isFree :=
  Procedure.Within.bind (.ask rfl) fun _ => .bind h fun _ => .bind (.ask rfl) fun _ => .pure _

end Operation

/-! ## What a repository does -/

namespace Repository

open Request (isFree)

theorem free_pass (s : Setup) : (pass s).Within isFree :=
  .bind plain_runningPolicy.free fun p => (plain_passOver s p).free.holding_pass

theorem free_redelivery (key : CorrelationKey) (e : Exchange) : (redelivery key e).Within isFree := by
  refine .bind (.ask rfl) fun answer => ?_
  cases answer with
  | ok u => exact .modify fun _ => rfl
  | error f => exact .bind (.modify fun _ => rfl) fun _ => .modify fun _ => rfl

theorem free_drain (n : Nat) : (drain n).Within isFree := by
  induction n with
  | zero =>
    refine .bind .get fun r => ?_
    dsimp only
    split
    · exact .pure _
    · exact .bind (.lift (.bind (.modify fun _ => rfl) fun _ => .ask rfl)) fun _ => .fail _
  | succ n ih =>
    refine .bind .get fun r => ?_
    split
    · exact .pure _
    · exact .bind (.lift (.ask rfl)) fun _ => ih

theorem free_report (e : RouteError) : (Procedure.report e).Within isFree :=
  .bind (.modify fun _ => rfl) fun _ => .ask rfl

theorem active_eq_none {r : Repository} (h : ¬r.isRunning = true) : r.active = none := by
  unfold isRunning at h
  exact Option.not_isSome_iff_eq_none.1 h

theorem lawful_start (s : Setup) : (start s).Lawful s false false := by
  refine .holding fun t => ?_
  show Run.Lawful s true true t.active ((if t.isRunning then _ else _ : Operation Unit) t)
  split
  · exact .finished (.inl rfl)
  · rename_i hrun
    cases hp : s.policy? with
    | error e => exact Operation.Within.lawful (.bind (.lift (free_report _)) fun _ => .fail _) t
    | ok policy =>
      rw [active_eq_none hrun]
      show Run.Lawful s true true none ((if policy.schedulesPasses then _ else _ : Operation Unit) _)
      split
      · rename_i hs
        exact .launch hp hs rfl fun _ => .finished (.inl rfl)
      · rename_i hs
        exact .finished (.inr ⟨rfl, rfl, policy, rfl, Bool.eq_false_iff.2 hs⟩)

theorem lawful_halt (s : Setup) : halt.Lawful s true true := by
  rintro ⟨active⟩
  cases active with
  | none => exact .finished (.inl rfl)
  | some policy =>
    refine .halt rfl fun joined u => ?_
    cases joined with
    | ok a => exact .finished (.inl rfl)
    | error detail => exact Operation.Within.lawful (.bind (.lift (free_report _)) fun _ => .pure _) u

theorem lawful_stop (s : Setup) : stop.Lawful s false false := by
  refine .bind (.holding (lawful_halt s)) fun halted => ?_
  cases halted with
  | none => exact Operation.Within.lawful (.pure _)
  | some h =>
    refine Operation.Within.lawful (.bind (free_drain _) fun _ => ?_)
    cases h.crash with
    | none => exact .pure _
    | some detail => exact .fail _

end Repository

namespace Cluster

open Request (isFree)

theorem free_putDirectly (key : CorrelationKey) (e : Exchange) : (putDirectly key e).Within isFree := by
  unfold putDirectly
  cases e.capture true with
  | error fault => exact .fail _
  | ok snapshot => exact .bind (.lift (.ask rfl)) .ofStore

theorem free_react (k : Sink) (letter : DeadLetter) : (k.react letter).Within isFree := by
  unfold Sink.react
  refine Procedure.Within.bind ?_ fun _ => .pure _
  cases k.reaction with
  | none => exact .pure _
  | some reaction =>
    cases reaction with
    | add e => exact Operation.Within.bind (Repository.plain_add _ e).free fun _ => .pure _
    | put e => exact Operation.Within.bind (free_putDirectly _ e) fun _ => .pure _
    | remove => exact (Repository.plain_erase _).free

theorem free_engine_react (g : Engine) (key : CorrelationKey) (e : Exchange) : (g.react key e).Within isFree := by
  unfold Engine.react
  split
  · exact .pure _
  · cases g.reaction with
    | none => exact .pure _
    | some reaction =>
      cases reaction with
      | confirm => exact .bind (Repository.plain_confirm e.id).free fun _ => .pure _
      | remove => exact .bind (Repository.plain_remove key).free fun _ => .pure _

theorem NodeStep.lawful_task (s : Setup) (x : NodeStep) : (x.task s).Lawful s false false := by
  by_cases hstart : x = .start
  · subst hstart
    exact .bind (Repository.lawful_start s) fun _ => Operation.Within.lawful (.pure _)
  by_cases hstop : x = .stop
  · subst hstop
    exact .bind (Repository.lawful_stop s) fun _ => Operation.Within.lawful (.pure _)
  by_cases hpass : x = .pass
  · subst hpass
    exact Operation.Within.lawful (.bind (Repository.free_pass s) fun _ => .pure _)
  · exact (NodeStep.plain_task s hstart hstop hpass).free.lawful

theorem StoreStep.free_task (x : StoreStep) : x.task.Within isFree := by
  cases x with
  | put key e => exact .bind (free_putDirectly key e) fun _ => .pure _
  | get key => exact .bind (Repository.plain_fetch key).free fun _ => .pure _
  | remove key => exact .bind (Repository.plain_erase key).free fun _ => .pure _
  | keys => exact .bind Repository.plain_listed.free fun _ => .pure _

theorem free_redelivery (key : CorrelationKey) (e : Exchange) : (redelivery key e).Within isFree :=
  .bind (.lift (Repository.free_redelivery key e)) fun _ => .pure _

/-! ## Answered bodies -/

/-- What a task does when a free request has been answered, or is to be made again. -/
def Resumes (q : Request) (next : q.Answer → Operation Answer) (b : Operation Answer) : Prop :=
  ∃ y : Procedure q.Answer, y.Within isFree ∧ b = do next (← y)

variable {q : Request} {next : q.Answer → Operation Answer} {b : Operation Answer}

theorem Resumes.answered (a : q.Answer) : Resumes q next (next a) := ⟨pure a, .pure a, rfl⟩

theorem Resumes.asking (hq : q.isFree = true) : Resumes q next (asking q next) := ⟨Procedure.ask q, .ask hq, rfl⟩

theorem run_lift_bind (y : Procedure α) (f : α → Operation β) (r : Repository) :
    (do f (← y) : Operation β).run r = (y r).bind fun a => (f a).run :=
  Run.bind_bind (y r) _ _

theorem Resumes.lawful (h : Resumes q next b) {inside : Bool} (hn : ∀ a, (next a).Lawful s inside done) :
    b.Lawful s inside done := by
  obtain ⟨y, hy, rfl⟩ := h
  intro r
  rw [run_lift_bind]
  exact (hy r).lawful.bind hn

/-! ## Stages of a scheduler -/

/-- The body of a scheduler in a pass, which is followed by another round. -/
def Passing (b : Operation Answer) : Prop :=
  ∀ r, (b.run r).Confined isFree (· = .ok (.flag true)) r.active

/-- The body of a scheduler that has been told to end. -/
def Ending (b : Operation Answer) : Prop := ∀ r, b.run r = .finished (.ok (.flag false)) r

/-- The body of a scheduler that asks for a tick. -/
def Ticking (b : Operation Answer) : Prop :=
  ∃ next : Bool → Operation Answer,
    (∀ r, b.run r = .asking .tick r fun x => (next x).run) ∧ Ending (next false) ∧ Passing (next true)

/-- The body of a task that asks for the end of the scheduler. -/
def Halting (s : Setup) (b : Operation Answer) : Prop :=
  ∃ next : Except String Unit → Operation Answer,
    (∀ r, b.run r = .asking .halt r fun x => (next x).run) ∧ ∀ x, (next x).Lawful s true false

theorem Resumes.passing (h : Resumes q next b) (hn : ∀ a, Passing (next a)) : Passing b := by
  obtain ⟨y, hy, rfl⟩ := h
  intro r
  rw [run_lift_bind]
  exact (hy r).bind fun a t _ => hn a t

/-- What is left of a round after the tick. -/
def afterTick (s : Setup) (goes : Bool) : Procedure Bool := do
  if goes then
    let _ ← (Repository.pass s).run
  return goes

theorem ticking_round (s : Setup) : Ticking (round s) := by
  refine ⟨fun goes => do return .flag (← afterTick s goes), fun r => rfl, fun r => rfl, fun r => ?_⟩
  have hpass : (afterTick s true r).Confined isFree (· = true) r.active :=
    Run.Confined.bind (Repository.free_pass s r) fun _ t _ => .finished (P := (· = true)) rfl rfl
  rw [run_lift_bind]
  exact hpass.bind fun goes t hgoes => .finished (by rw [hgoes]) rfl

end Cluster

end DurableAggregates
