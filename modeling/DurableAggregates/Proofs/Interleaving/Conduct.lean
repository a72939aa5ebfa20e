import DurableAggregates.Proofs.Interleaving.Order

/-!
# How tasks conduct themselves

What a task that conducts itself as it may (`Task.Conducts`) can ask for, and what it conducts itself as when it goes
on: one lemma for each kind of request, each a case analysis over the roles of tasks. A lock is asked for outside of it
and given back inside; letters and redeliveries come from inside the lock of passes only; a scheduler is launched or
ended by an awaited task inside the lifecycle lock.
-/

namespace DurableAggregates.Cluster

variable {s : Setup} {n k j : Nat} {t x y : Task} {v w u : View} {l : Lock} {new : Multiset Task}
  {inside passing : Bool} {q : Request} {next : q.Answer → Operation Answer} {b : Operation Answer}
  {r r₀ : Repository}

/-! ## What tasks go on with -/

theorem run_lawful_free {p : Option Policy} {next : q.Answer → Repository → Run (Except RepositoryError Answer)}
    (h : (Run.asking q r next).Lawful s false inside p) (hq : q.isFree = true) :
    Policy.Keeps inside p r.active ∧ ∀ a t, (next a t).Lawful s false inside t.active := by
  cases h with
  | free _ hk h => exact ⟨hk, h⟩
  | _ => cases hq

theorem run_guarded_aside {engine : Bool} {k : Nat}
    {next : q.Answer → Repository → Run (Except RepositoryError Answer)}
    (h : (Run.asking q r next).Guarded engine false passing k) (hq : q.isAside = true) :
    r.inFlight = k ∧ ∀ a t, (next a t).Guarded engine false passing t.inFlight := by
  cases h with
  | aside _ hr h => exact ⟨hr, h⟩
  | _ => cases hq

/-- What a task does whose request is made again, or was answered. -/
def Continues (q : Request) (next : q.Answer → Operation Answer) (b : Operation Answer) : Prop :=
  b = asking q next ∨ ∃ y : Procedure q.Answer, y.Modest ∧ b = do next (← y)

namespace Continues

theorem answered (a : q.Answer) : Continues q next (next a) := .inr ⟨pure a, .pure a, rfl⟩

theorem lawful (h : Continues q next b) (hq : q.isFree = true) (hn : ∀ a, (next a).Lawful s inside false) :
    b.Lawful s inside false := by
  rcases h with rfl | ⟨y, hy, rfl⟩
  · exact fun r => .free hq (.inl rfl) hn
  · intro r
    rw [run_lift_bind]
    exact ((hy r).confined fun _ => rfl).lawful.bind hn

theorem guarded {engine : Bool} (h : Continues q next b) (hq : q.isAside = true)
    (hn : ∀ a, (next a).Guarded engine passing false) : b.Guarded engine passing false := by
  rcases h with rfl | ⟨y, hy, rfl⟩
  · exact fun r => .aside hq rfl hn
  · intro r
    rw [run_lift_bind]
    exact (hy r).guarded.bind hn

theorem round (h : Continues q next b) (hq : q.isRound = true) (hn : ∀ a, (next a).Within Request.isRound) :
    b.Within Request.isRound := by
  rcases h with rfl | ⟨y, hy, rfl⟩
  · exact fun r => .asking hq rfl hn
  · intro r
    rw [run_lift_bind]
    exact ((hy r).confined fun _ => rfl).bind fun a t _ => hn a t

end Continues

/-- How a repository with this standing may be left by a task that makes a request which is no dispatch. -/
def Leaves (inside : Bool) (r₀ r : Repository) : Prop :=
  Policy.Keeps inside r₀.active r.active ∧ r.inFlight = r₀.inFlight

theorem Leaves.of_standing (h : r.standing = r₀.standing) : Leaves inside r₀ r :=
  ⟨.inl (congrArg Prod.fst h), congrArg Prod.snd h⟩

/-- A task goes on after a request that concerns no lock and no scheduler. -/
theorem Task.Conducts.continues (h : t.Conducts s inside passing)
    (hrun : t.body.run r₀ = .asking q r fun a => (next a).run) (hfree : q.isFree = true)
    (haside : t.role ≠ .redelivery → q.isAside = true) : Leaves inside r₀ r ∧
      ∀ x : Task, x.role = t.role → Continues q next x.body → x.Conducts s inside passing := by
  cases h with
  | awaited hrole hlawful hguarded =>
    have hl := hlawful r₀
    have hg := hguarded r₀
    rw [hrun] at hl hg
    have haside := haside (by rw [hrole]; exact Role.noConfusion)
    obtain ⟨hk, hl⟩ := run_lawful_free hl hfree
    obtain ⟨hr, hg⟩ := run_guarded_aside hg haside
    exact ⟨⟨hk, hr⟩, fun x hx hb => .awaited (hx.trans hrole) (hb.lawful hfree hl) (hb.guarded haside hg)⟩
  | scheduler hrole hround hguarded =>
    have hl := hround r₀
    have hg := hguarded r₀
    rw [hrun] at hl hg
    have haside := haside (by rw [hrole]; exact Role.noConfusion)
    obtain ⟨hr, hg⟩ := run_guarded_aside hg haside
    cases hl with
    | asking hq hk h =>
      exact ⟨⟨.inl hk, hr⟩, fun x hx hb => .scheduler (hx.trans hrole) (hb.round hq h) (hb.guarded haside hg)⟩
  | redelivery hrole hbody =>
    rcases hbody with hbody | ⟨hengine, key, e, next', hrun', hnext'⟩
    · have hp := hbody r₀
      rw [hrun] at hp
      cases hp with
      | asking hr h =>
        refine ⟨.of_standing hr, fun x hx hb => .redelivery (hx.trans hrole) (.inl ?_)⟩
        rcases hb with hb | ⟨y, hy, hb⟩
        · rw [hb]
          exact fun r => .asking rfl h
        · rw [hb]
          intro r
          rw [run_lift_bind]
          exact (hy r).parting h
    · rw [hrun'] at hrun
      injection hrun with hq hr hnext
      subst hq hr
      obtain rfl : next' = next := funext fun a => congrFun (eq_of_heq hnext) a
      refine ⟨.of_standing rfl, fun x hx hb => .redelivery (hx.trans hrole) ?_⟩
      rcases hb with hb | ⟨y, hy, hb⟩
      · exact .inr ⟨hengine, key, e, next', fun r => by rw [hb]; rfl, hnext'⟩
      · refine .inl fun r => ?_
        rw [hb, run_lift_bind]
        exact (hy r).parting hnext'

/-! ### Locks -/

section Lifecycle

variable {p : Option Policy} {next : Unit → Repository → Run (Except RepositoryError Answer)}

theorem run_lawful_acquire (h : (Run.asking (.acquire .lifecycle) r next).Lawful s false inside p) :
    inside = false ∧ r.active = p ∧ ∀ t, (next () t).Lawful s false true t.active := by
  cases h with
  | free hq => cases hq
  | acquire ha h => exact ⟨rfl, ha, h⟩

theorem run_lawful_release (h : (Run.asking (.release .lifecycle) r next).Lawful s false inside p) :
    inside = true ∧ Policy.Keeps inside p r.active ∧ ∀ t, (next () t).Lawful s false false t.active := by
  cases h with
  | free hq => cases hq
  | release hk h => exact ⟨rfl, hk, h⟩

end Lifecycle

theorem run_lawful_launch {p : Option Policy} {interval : Nat} {next : Unit → Repository → Run (Except RepositoryError Answer)}
    (h : (Run.asking (.launch interval) r next).Lawful s false inside p) :
    inside = true ∧ p = none ∧ r.active ≠ none ∧ ∀ t, (next () t).Lawful s false true t.active := by
  cases h with
  | free hq => cases hq
  | launch _ _ ha h => exact ⟨rfl, rfl, by rw [ha]; exact Option.some_ne_none _, h⟩

theorem run_lawful_halt {p : Option Policy}
    {next : Except String Unit → Repository → Run (Except RepositoryError Answer)}
    (h : (Run.asking .halt r next).Lawful s false inside p) :
    inside = true ∧ r.active = none ∧ ∀ a t, (next a t).Lawful s false true t.active := by
  cases h with
  | free hq => cases hq
  | halt ha h => exact ⟨rfl, ha, h⟩

/-- Who conducts itself as it may does not ask for the end of a scheduler whatever the repository is. -/
theorem Task.Conducts.not_halting (h : t.Conducts s inside passing) : ¬Halting s t.body := by
  rintro ⟨next, hrun, -⟩
  let running : Repository := { active := some ⟨false, 0, 0, none, false, 0⟩ }
  cases h with
  | awaited _ hlawful =>
    have hl := hlawful running
    rw [hrun] at hl
    obtain ⟨-, ha, -⟩ := run_lawful_halt hl
    cases ha
  | scheduler _ hround =>
    have hl := hround running
    rw [hrun] at hl
    cases hl with
    | asking hq => cases hq
  | redelivery _ hbody =>
    rcases hbody with hbody | ⟨-, key, e, next', hrun', -⟩
    · have hp := hbody running
      rw [hrun] at hp
      cases hp
    · have he := (hrun running).symm.trans (hrun' running)
      injection he with hq
      cases hq

/-- Only awaited tasks are inside the lifecycle lock. -/
theorem Task.Stands.outside (h : t.Stands s inside passing) (hrole : t.role ≠ .awaited) : inside = false := by
  cases h with
  | conducts h =>
    cases h with
    | awaited hrole' => exact absurd hrole' hrole
    | scheduler => rfl
    | redelivery => rfl
  | halts _ hrole' => exact absurd hrole' hrole

/-- Whether a task is inside a lock, given for both. -/
def insideOf (inside passing : Bool) : Lock → Bool
  | .lifecycle => inside
  | .pass => passing

/-- A redelivery asks for store calls and hands its exchange over. -/
theorem Task.Conducts.role_ne_redelivery (h : t.Conducts s inside passing)
    {next : q.Answer → Repository → Run (Except RepositoryError Answer)} (hrun : t.body.run r₀ = .asking q r next)
    (hq : q.isSlow = false) : t.role ≠ .redelivery := by
  intro hrole
  cases h with
  | awaited hrole' => exact absurd (hrole.symm.trans hrole') Role.noConfusion
  | scheduler hrole' => exact absurd (hrole.symm.trans hrole') Role.noConfusion
  | redelivery _ hbody =>
    rcases hbody with hbody | ⟨-, key, e, next', hrun', -⟩
    · have hp := hbody r₀
      rw [hrun] at hp
      cases hp
      cases hq
    · rw [hrun'] at hrun
      injection hrun with hq'
      subst hq'
      cases hq

/-- Only a redelivery hands an exchange over, where there is an engine, and does nothing else until then. -/
theorem Task.Conducts.delivers {key : CorrelationKey} {e : Exchange} (h : t.Conducts s inside passing)
    {next : Except RedeliveryError Unit → Repository → Run (Except RepositoryError Answer)}
    (hrun : t.body.run r₀ = .asking (.deliver key e) r next) :
    t.role = .redelivery ∧ s.hasEngine = true ∧ Handing key e t.body := by
  cases h with
  | awaited _ _ hguarded =>
    have hg := hguarded r₀
    rw [hrun] at hg
    cases hg with
    | aside hq => cases hq
  | scheduler _ hround =>
    have hl := hround r₀
    rw [hrun] at hl
    cases hl with
    | asking hq => cases hq
  | redelivery hrole hbody =>
    rcases hbody with hbody | ⟨hengine, key', e', next', hrun', hnext'⟩
    · have hp := hbody r₀
      rw [hrun] at hp
      cases hp
    · have hsame := hrun
      rw [hrun'] at hsame
      injection hsame with hq
      injection hq with hkey he
      subst hkey he
      exact ⟨hrole, hengine, next', hrun', hnext'⟩

/-- A scheduler asks for what a round asks for. -/
theorem Task.Conducts.isRound (h : t.Conducts s inside passing)
    {next : q.Answer → Repository → Run (Except RepositoryError Answer)} (hrun : t.body.run r₀ = .asking q r next)
    (hrole : t.role = .scheduler) : q.isRound = true := by
  cases h with
  | awaited hrole' => exact absurd (hrole.symm.trans hrole') Role.noConfusion
  | redelivery hrole' => exact absurd (hrole.symm.trans hrole') Role.noConfusion
  | scheduler _ hround =>
    have hl := hround r₀
    rw [hrun] at hl
    cases hl with
    | asking hq => exact hq

/-- A task asks for a lock that it is outside of; for the lock of passes only if the repository runs. -/
theorem Task.Conducts.acquires {next : Unit → Operation Answer} (h : t.Conducts s inside passing)
    (hrun : t.body.run r₀ = .asking (.acquire l) r fun a => (next a).run) :
    insideOf inside passing l = false ∧ Leaves inside r₀ r ∧ (l = .pass → r.isRunning = true) ∧
      ∀ x : Task, x.role = t.role → x.body = next () →
        x.Conducts s (inside || l == .lifecycle) (passing || l == .pass) := by
  cases h with
  | awaited hrole hlawful hguarded =>
    have hl := hlawful r₀
    have hg := hguarded r₀
    rw [hrun] at hl hg
    cases l with
    | lifecycle =>
      obtain ⟨hr, hg⟩ := run_guarded_aside hg rfl
      obtain ⟨rfl, ha, hl⟩ := run_lawful_acquire hl
      refine ⟨rfl, ⟨.inl ha, hr⟩, fun hp => Lock.noConfusion hp, fun x hx hb => ?_⟩
      rw [show (passing || Lock.lifecycle == .pass) = passing from Bool.or_false passing]
      exact .awaited (hx.trans hrole) (hb ▸ hl) (hb ▸ hg ())
    | pass =>
      obtain ⟨hk, hl⟩ := run_lawful_free hl rfl
      cases hg with
      | aside hq => cases hq
      | acquire hr ha hg =>
        refine ⟨rfl, ⟨hk, hr⟩, fun _ => ha, fun x hx hb => ?_⟩
        rw [show (inside || Lock.pass == .lifecycle) = inside from Bool.or_false inside]
        exact .awaited (hx.trans hrole) (hb ▸ hl ()) (hb ▸ hg)
  | scheduler hrole hround hguarded =>
    have hl := hround r₀
    have hg := hguarded r₀
    rw [hrun] at hl hg
    cases l with
    | lifecycle =>
      cases hl with
      | asking hq => cases hq
    | pass =>
      cases hl with
      | asking hq hk hl =>
        cases hg with
        | aside hq => cases hq
        | acquire hr ha hg =>
          exact ⟨rfl, ⟨.inl hk, hr⟩, fun _ => ha, fun x hx hb => .scheduler (hx.trans hrole) (hb ▸ hl ()) (hb ▸ hg)⟩
  | redelivery hrole hbody => exact absurd hrole ((Task.Conducts.redelivery (s := s) hrole hbody).role_ne_redelivery hrun rfl)

/-- A task gives back a lock that it is inside of. -/
theorem Task.Conducts.releases {f : Unit → Operation Answer} (h : t.Conducts s inside passing)
    (hrun : t.body.run r₀ = .asking (.release l) r fun a => (f a).run) :
    insideOf inside passing l = true ∧ Leaves inside r₀ r ∧
      ∀ x : Task, x.role = t.role → x.body = f () →
        x.Conducts s (inside && l != .lifecycle) (passing && l != .pass) := by
  cases h with
  | awaited hrole hlawful hguarded =>
    have hl := hlawful r₀
    have hg := hguarded r₀
    rw [hrun] at hl hg
    cases l with
    | lifecycle =>
      obtain ⟨hr, hg⟩ := run_guarded_aside hg rfl
      obtain ⟨rfl, hk, hl⟩ := run_lawful_release hl
      refine ⟨rfl, ⟨hk, hr⟩, fun x hx hb => ?_⟩
      rw [show (passing && Lock.lifecycle != .pass) = passing from Bool.and_true passing]
      exact .awaited (hx.trans hrole) (hb ▸ hl) (hb ▸ hg ())
    | pass =>
      obtain ⟨hk, hl⟩ := run_lawful_free hl rfl
      cases hg with
      | aside hq => cases hq
      | release hr hg =>
        refine ⟨rfl, ⟨hk, hr⟩, fun x hx hb => ?_⟩
        rw [show (inside && Lock.pass != .lifecycle) = inside from Bool.and_true inside]
        exact .awaited (hx.trans hrole) (hb ▸ hl ()) (hb ▸ hg)
  | scheduler hrole hround hguarded =>
    have hl := hround r₀
    have hg := hguarded r₀
    rw [hrun] at hl hg
    cases l with
    | lifecycle =>
      cases hl with
      | asking hq => cases hq
    | pass =>
      cases hl with
      | asking hq hk hl =>
        cases hg with
        | aside hq => cases hq
        | release hr hg =>
          exact ⟨rfl, ⟨.inl hk, hr⟩, fun x hx hb => .scheduler (hx.trans hrole) (hb ▸ hl ()) (hb ▸ hg)⟩
  | redelivery hrole hbody => exact absurd hrole ((Task.Conducts.redelivery (s := s) hrole hbody).role_ne_redelivery hrun rfl)

/-! ### Passes and schedulers -/

/-- A task begins redeliveries inside the lock of passes only, where there is an engine, and counts them. -/
theorem Task.Conducts.dispatches {key : CorrelationKey} {e : Exchange} {f : Unit → Operation Answer}
    (h : t.Conducts s inside passing) (hrun : t.body.run r₀ = .asking (.dispatch key e) r fun a => (f a).run) :
    passing = true ∧ s.hasEngine = true ∧ Policy.Keeps inside r₀.active r.active ∧ r.inFlight = r₀.inFlight + 1 ∧
      ∀ x : Task, x.role = t.role → x.body = f () → x.Conducts s inside passing := by
  cases h with
  | awaited hrole hlawful hguarded =>
    have hl := hlawful r₀
    have hg := hguarded r₀
    rw [hrun] at hl hg
    obtain ⟨hk, hl⟩ := run_lawful_free hl rfl
    cases hg with
    | aside hq => cases hq
    | dispatch he hr hg => exact ⟨rfl, he, hk, hr, fun x hx hb => .awaited (hx.trans hrole) (hb ▸ hl ()) (hb ▸ hg)⟩
  | scheduler hrole hround hguarded =>
    have hl := hround r₀
    have hg := hguarded r₀
    rw [hrun] at hl hg
    cases hl with
    | asking hq hk hl =>
      cases hg with
      | aside hq => cases hq
      | dispatch he hr hg =>
        exact ⟨rfl, he, .inl hk, hr, fun x hx hb => .scheduler (hx.trans hrole) (hb ▸ hl ()) (hb ▸ hg)⟩
  | redelivery hrole hbody =>
    exact absurd hrole ((Task.Conducts.redelivery (s := s) hrole hbody).role_ne_redelivery hrun rfl)

/-- A task gives letters to the sink inside the lock of passes only. -/
theorem Task.Conducts.forwards {letter : DeadLetter} {f : Except DeadLetterError Unit → Operation Answer}
    (h : t.Conducts s inside passing) (hrun : t.body.run r₀ = .asking (.forward letter) r fun a => (f a).run) :
    passing = true ∧ Leaves inside r₀ r ∧
      ∀ x : Task, x.role = t.role → (∃ y : Procedure (Except DeadLetterError Unit), y.Modest ∧
        x.body = do f (← y)) → x.Conducts s inside passing := by
  have hbody {passing : Bool} {x : Task} {y : Procedure (Except DeadLetterError Unit)} (hy : y.Modest)
      (hb : x.body = do f (← y)) (hg : ∀ a, (f a).Guarded s.hasEngine passing false) :
      x.body.Guarded s.hasEngine passing false := by
    intro r
    rw [hb, run_lift_bind]
    exact (hy r).guarded.bind hg
  cases h with
  | awaited hrole hlawful hguarded =>
    have hl := hlawful r₀
    have hg := hguarded r₀
    rw [hrun] at hl hg
    obtain ⟨hk, hl⟩ := run_lawful_free hl rfl
    cases hg with
    | aside hq => cases hq
    | forward hr hg =>
      refine ⟨rfl, ⟨hk, hr⟩, fun x hx ⟨y, hy, hb⟩ => .awaited (hx.trans hrole) ?_ (hbody hy hb hg)⟩
      exact Continues.lawful (q := .forward letter) (.inr ⟨y, hy, hb⟩) rfl hl
  | scheduler hrole hround hguarded =>
    have hl := hround r₀
    have hg := hguarded r₀
    rw [hrun] at hl hg
    cases hl with
    | asking hq hk hl =>
      cases hg with
      | aside hq => cases hq
      | forward hr hg =>
        refine ⟨rfl, ⟨.inl hk, hr⟩, fun x hx ⟨y, hy, hb⟩ => .scheduler (hx.trans hrole) ?_ (hbody hy hb hg)⟩
        exact Continues.round (q := .forward letter) (.inr ⟨y, hy, hb⟩) rfl hl
  | redelivery hrole hbody =>
    exact absurd hrole ((Task.Conducts.redelivery (s := s) hrole hbody).role_ne_redelivery hrun rfl)

/-- A scheduler is launched by an awaited task inside the lifecycle lock, for a repository that begins to run. -/
theorem Task.Conducts.launches {interval : Nat} {next : Unit → Operation Answer} (h : t.Conducts s inside passing)
    (hrun : t.body.run r₀ = .asking (.launch interval) r fun a => (next a).run) :
    t.role = .awaited ∧ inside = true ∧ r₀.active = none ∧ r.active ≠ none ∧ r.inFlight = r₀.inFlight ∧
      ∀ x : Task, x.role = t.role → x.body = next () → x.Conducts s inside passing := by
  cases h with
  | awaited hrole hlawful hguarded =>
    have hl := hlawful r₀
    have hg := hguarded r₀
    rw [hrun] at hl hg
    obtain ⟨rfl, hp, ha, hl⟩ := run_lawful_launch hl
    obtain ⟨hr, hg⟩ := run_guarded_aside hg rfl
    exact ⟨hrole, rfl, hp, ha, hr, fun x hx hb => .awaited (hx.trans hrole) (hb ▸ hl) (hb ▸ hg ())⟩
  | scheduler hrole hround _ =>
    have hl := hround r₀
    rw [hrun] at hl
    cases hl with
    | asking hq => cases hq
  | redelivery hrole hbody =>
    exact absurd hrole ((Task.Conducts.redelivery (s := s) hrole hbody).role_ne_redelivery hrun rfl)

/-- The end of a scheduler is asked for by an awaited task inside the lifecycle lock, where the repository has ceased. -/
theorem Task.Conducts.halts {next : Except String Unit → Operation Answer} (h : t.Conducts s inside passing)
    (hrun : t.body.run r₀ = .asking .halt r fun a => (next a).run) :
    t.role = .awaited ∧ inside = true ∧ r.active = none ∧ r.inFlight = r₀.inFlight ∧
      ∀ x : Task, x.role = t.role →
        (x.body = asking .halt next → Halting s x.body ∧ x.Stands s inside passing) ∧
          ∀ a, x.body = next a → x.Conducts s inside passing := by
  cases h with
  | awaited hrole hlawful hguarded =>
    have hl := hlawful r₀
    have hg := hguarded r₀
    rw [hrun] at hl hg
    obtain ⟨rfl, ha, hl⟩ := run_lawful_halt hl
    obtain ⟨hr, hg⟩ := run_guarded_aside hg rfl
    refine ⟨hrole, rfl, ha, hr, fun x hx => ⟨fun hb => ?_, fun a hb => ?_⟩⟩
    · have hhalting : Halting s x.body := ⟨next, fun r => by rw [hb]; rfl, hl⟩
      exact ⟨hhalting, .halts rfl (hx.trans hrole) hhalting (hb ▸ fun r => .aside rfl rfl hg)⟩
    · exact .awaited (hx.trans hrole) (hb ▸ hl a) (hb ▸ hg a)
  | scheduler hrole hround _ =>
    have hl := hround r₀
    rw [hrun] at hl
    cases hl with
    | asking hq => cases hq
  | redelivery hrole hbody =>
    exact absurd hrole ((Task.Conducts.redelivery (s := s) hrole hbody).role_ne_redelivery hrun rfl)

theorem not_lawful_tick {p : Option Policy} {next : Bool → Repository → Run (Except RepositoryError Answer)} :
    ¬(Run.asking .tick r next).Lawful s false inside p := by
  intro h
  cases h with
  | free hq => cases hq

theorem run_lawful_finished {p : Option Policy} {result : Except RepositoryError Answer}
    (h : (Run.finished result r).Lawful s false inside p) : inside = false ∧ r.active = p := by
  cases h with
  | finished hk => exact ⟨rfl, hk.resolve_right fun hk => Bool.false_ne_true hk.1⟩

/-- Only schedulers ask for ticks. -/
theorem Task.Conducts.ticks {next : Bool → Operation Answer} (h : t.Conducts s inside passing)
    (hrun : t.body.run r₀ = .asking .tick r fun a => (next a).run) :
    Leaves inside r₀ r ∧ ∀ x : Task, x.role = t.role → (x.body = asking .tick next ∨ ∃ a, x.body = next a) →
      x.Conducts s inside passing := by
  cases h with
  | awaited _ hlawful =>
    have hl := hlawful r₀
    rw [hrun] at hl
    exact absurd hl not_lawful_tick
  | scheduler hrole hround hguarded =>
    have hl := hround r₀
    have hg := hguarded r₀
    rw [hrun] at hl hg
    obtain ⟨hr, hg⟩ := run_guarded_aside hg rfl
    cases hl with
    | asking hq hk hl =>
      refine ⟨⟨.inl hk, hr⟩, fun x hx hb => ?_⟩
      have hb : Continues .tick next x.body := hb.imp (fun hb => hb) fun ⟨a, ha⟩ => ⟨pure a, .pure a, ha⟩
      exact .scheduler (hx.trans hrole) (hb.round rfl hl) (hb.guarded rfl hg)
  | redelivery hrole hbody =>
    exact absurd hrole ((Task.Conducts.redelivery (s := s) hrole hbody).role_ne_redelivery hrun rfl)

/-- A task is outside all locks at its end, and a redelivery counts no longer. -/
theorem Task.Conducts.finishes {result : Except RepositoryError Answer} (h : t.Conducts s inside passing)
    (hrun : t.body.run r₀ = .finished result r) :
    inside = false ∧ passing = false ∧ r.active = r₀.active ∧
      r.inFlight = r₀.inFlight - if t.role = .redelivery then 1 else 0 := by
  cases h with
  | awaited hrole hlawful hguarded =>
    have hl := hlawful r₀
    have hg := hguarded r₀
    rw [hrun] at hl hg
    obtain ⟨rfl, ha⟩ := run_lawful_finished hl
    cases hg with
    | finished hr =>
      rw [if_neg fun hr => Role.noConfusion (hrole.symm.trans hr)]
      exact ⟨rfl, rfl, ha, hr⟩
  | scheduler hrole hround hguarded =>
    have hl := hround r₀
    have hg := hguarded r₀
    rw [hrun] at hl hg
    cases hl with
    | finished _ hk =>
      cases hg with
      | finished hr =>
        rw [if_neg fun hr => Role.noConfusion (hrole.symm.trans hr)]
        exact ⟨rfl, rfl, hk, hr⟩
  | redelivery hrole hbody =>
    rw [if_pos hrole]
    rcases hbody with hbody | ⟨-, key, e, next, hrun', -⟩
    · have hp := hbody r₀
      rw [hrun] at hp
      cases hp with
      | finished hr => exact ⟨rfl, rfl, congrArg Prod.fst hr, congrArg Prod.snd hr⟩
    · rw [hrun'] at hrun
      cases hrun

theorem not_halting {next : q.Answer → Repository → Run (Except RepositoryError Answer)}
    (hrun : t.body.run r₀ = .asking q r next) (hq : q ≠ .halt) : ¬Halting s t.body := by
  rintro ⟨next', hrun', -⟩
  rw [hrun'] at hrun
  injection hrun with hq'
  exact hq hq'.symm

/-- Only an awaited task asks for the end of a scheduler. -/
theorem Task.Stands.of_role (h : t.Stands s inside passing) (hrole : t.role ≠ .awaited) :
    t.Conducts s inside passing := by
  cases h with
  | conducts h => exact h
  | halts _ hrole' => exact absurd hrole' hrole

theorem Task.Stands.of_not_halting (h : t.Stands s inside passing) (ht : ¬Halting s t.body) :
    t.Conducts s inside passing := by
  cases h with
  | conducts h => exact h
  | halts _ _ hhalting => exact absurd hhalting ht

end DurableAggregates.Cluster
