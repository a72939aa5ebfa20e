import DurableAggregates.Proofs.Schedule.Windows

/-!
# A scheduler on a clock

The signs of a scheduler that is spawned, advanced and stopped make up one window, whatever its passes take, and the
stop goes on only when the last pass has ended; if the passes are quick the window is punctual (`signs_window`).
`Stepped` has the cases of a step. A run up to a time has enough fuel to do all that is to be done by then
(`runTo_induction`), since every serving of the ticker makes it due later.
-/

namespace DurableAggregates.Schedule

/-- The sign that an event is. -/
def Event.sign : Event → Nat × Sign
  | .start _ time => (time, .began)
  | .finish _ time => (time, .ended)

namespace Scheduler

/-- Lets time pass again and again. -/
def advances (s : Scheduler) : List Nat → Scheduler × List Event
  | [] => (s, [])
  | span :: spans =>
    let (t, events) := s.advance span
    let (u, more) := t.advances spans
    (u, events ++ more)

/-! ## Steps -/

/-- What may happen next up to a time. -/
inductive Stepped (s : Scheduler) (limit : Nat) : Scheduler → List Event → Prop where
  | ended (hp : s.phase = .waiting) (hc : s.closing = true) : Stepped s limit { s with phase := .ended } []
  | began (hp : s.phase = .waiting) (hc : s.closing = false) (time : Nat) (ht : time = max s.ticker.due s.now)
      (hl : time ≤ limit) : Stepped s limit
        { s with now := time, ticker := s.ticker.serve time, phase := .passing (time + s.plan.length s.pass) }
        [.start s.pass time]
  | crashed (finish : Nat) (hp : s.phase = .passing finish) (hl : finish ≤ limit)
      (hc : s.plan.crashing = some s.pass) : Stepped s limit { s with now := finish, phase := .crashed } []
  | finished (finish : Nat) (hp : s.phase = .passing finish) (hl : finish ≤ limit) :
      Stepped s limit { s with now := finish, phase := .waiting, pass := s.pass + 1 } [.finish s.pass finish]

/-- Why nothing happens up to a time. -/
inductive Idle (s : Scheduler) (limit : Nat) : Prop where
  | done (h : s.phase = .ended ∨ s.phase = .crashed)
  | early (hp : s.phase = .waiting) (hc : s.closing = false) (h : limit < max s.ticker.due s.now)
  | busy (finish : Nat) (hp : s.phase = .passing finish) (h : limit < finish)

variable {s t u : Scheduler} {limit : Nat} {events : List Event}

theorem step?_cases (s : Scheduler) (limit : Nat) :
    (∃ t events, s.step? limit = some (t, events) ∧ Stepped s limit t events) ∨
      (s.step? limit = none ∧ Idle s limit) := by
  unfold step?
  cases hp : s.phase with
  | waiting =>
    dsimp only
    by_cases hc : s.closing = true
    · rw [if_pos hc]
      exact .inl ⟨_, _, rfl, .ended hp hc⟩
    · rw [if_neg hc]
      by_cases hl : max s.ticker.due s.now ≤ limit
      · rw [if_pos hl]
        exact .inl ⟨_, _, rfl, .began hp (Bool.eq_false_iff.2 hc) _ rfl hl⟩
      · rw [if_neg hl]
        exact .inr ⟨rfl, .early hp (Bool.eq_false_iff.2 hc) (Nat.lt_of_not_le hl)⟩
  | passing finish =>
    dsimp only
    by_cases hl : finish ≤ limit
    · rw [if_pos hl]
      by_cases hc : s.plan.crashing = some s.pass
      · rw [if_pos hc]
        exact .inl ⟨_, _, rfl, .crashed finish hp hl hc⟩
      · rw [if_neg hc]
        exact .inl ⟨_, _, rfl, .finished finish hp hl⟩
    · rw [if_neg hl]
      exact .inr ⟨rfl, .busy finish hp (Nat.lt_of_not_le hl)⟩
  | ended => exact .inr ⟨rfl, .done (.inl hp)⟩
  | crashed => exact .inr ⟨rfl, .done (.inr hp)⟩

/-! ## Enough steps -/

/-- At least as many as the steps that are left up to a time. -/
def left (s : Scheduler) (limit : Nat) : Nat :=
  2 * (limit + 1 - s.ticker.due) + match s.phase with
    | .waiting => 1
    | .passing _ => 2
    | .ended | .crashed => 0

theorem Stepped.interval (h : Stepped s limit t events) : t.ticker.interval = s.ticker.interval := by
  cases h <;> rfl

theorem Stepped.left_lt (h : Stepped s limit t events) (hi : 0 < s.ticker.interval) : t.left limit < s.left limit := by
  unfold left
  cases h with
  | ended hp | crashed finish hp | finished finish hp => simp [hp]
  | began hp hc time ht hl =>
    have hdue := Ticker.due_lt_serve hi (show s.ticker.due ≤ time by omega)
    simp only [hp]
    omega

theorem Idle.of_left (h : s.left limit = 0) : Idle s limit := by
  unfold left at h
  cases hp : s.phase with
  | waiting | passing => simp [hp] at h
  | ended => exact .done (.inl hp)
  | crashed => exact .done (.inr hp)

/-- Something is kept by steps, and with enough of them nothing is left to be done. -/
theorem steps_induction {P : Scheduler → List Event → Prop} (hi : 0 < s.ticker.interval)
    (hstep : ∀ past s t events, 0 < s.ticker.interval → P s past → Stepped s limit t events → P t (past ++ events))
    {past : List Event} (h : P s past) {n : Nat} (hn : s.left limit ≤ n) :
    P (steps n s limit).1 (past ++ (steps n s limit).2) ∧ Idle (steps n s limit).1 limit := by
  induction n generalizing s past with
  | zero =>
    rw [steps, List.append_nil]
    exact ⟨h, .of_left (Nat.eq_zero_of_le_zero hn)⟩
  | succ n ih =>
    rcases step?_cases s limit with ⟨t, events, hs, ht⟩ | ⟨hs, hidle⟩
    · have hleft := ht.left_lt hi
      have hnext := ih (by rw [ht.interval]; exact hi) (hstep past s t events hi h ht) (by omega : t.left limit ≤ n)
      simp only [steps, hs]
      rw [← List.append_assoc]
      exact hnext
    · simp only [steps, hs, List.append_nil]
      exact ⟨h, hidle⟩

/-- A run up to a time does all that is to be done by then. -/
theorem runTo_induction (limit : Nat) (past : List Event) {P : Scheduler → List Event → Prop}
    (hi : 0 < s.ticker.interval)
    (hstep : ∀ past s t events, 0 < s.ticker.interval → P s past → Stepped s limit t events → P t (past ++ events))
    (h : P s past) :
    ∃ t, (s.runTo limit).1 = { t with now := max t.now limit } ∧ P t (past ++ (s.runTo limit).2) ∧ Idle t limit := by
  have hfuel : s.left limit ≤ 2 * (limit + 1 - s.ticker.due) + 4 := by
    unfold left
    cases s.phase <;> simp
  exact ⟨_, rfl, steps_induction hi hstep h hfuel⟩

/-! ## Windows -/

/-- How a scheduler with quick passes stands to its window. -/
structure Timed (s : Scheduler) (w : Window) : Prop where
  quick : w.Quick s.now
  paced : w.closed = none → ∃ k, w.Paced s.ticker.due s.now k
  punctual : w.closed ≠ none → w.Punctual s.now

/-- The passes of a window took what a plan gives them. -/
def Took (p : Plan) (w : Window) : Prop := ∀ j x, w.passes[j]? = some x → x.2 = x.1 + p.length j

theorem Took.ended {p : Plan} {w : Window} (h : Took p w) (begin : Nat) :
    Took p { w with running := none, passes := w.passes ++ [(begin, begin + p.length w.passes.length)] } := by
  intro j x hx
  have hx : (w.passes ++ [(begin, begin + p.length w.passes.length)])[j]? = some x := hx
  by_cases hj : j < w.passes.length
  · rw [List.getElem?_append_left hj] at hx
    exact h j x hx
  · rw [List.getElem?_append_right (Nat.le_of_not_lt hj), List.getElem?_singleton] at hx
    split at hx
    · rename_i hlast
      cases hx
      rw [Nat.le_antisymm (Nat.le_of_sub_eq_zero hlast) (Nat.le_of_not_lt hj)]
    · cases hx

/-- A scheduler that does not crash is in a window. -/
structure Shows (s : Scheduler) (w : Window) : Prop where
  interval : s.ticker.interval = w.interval
  pos : 0 < w.interval
  sound : s.plan.crashing = none
  alive : s.phase ≠ .crashed
  joined : w.joined = false
  closing : w.closed.isSome = s.closing
  waiting : s.phase = .waiting → w.running = none
  ended : s.phase = .ended → s.closing = true ∧ w.running = none
  passing : ∀ finish, s.phase = .passing finish →
    ∃ begin, w.running = some begin ∧ finish = begin + s.plan.length s.pass ∧ s.now ≤ finish
  pass : s.pass = w.passes.length
  took : Took s.plan w
  timed : (∀ j, s.plan.length j < w.interval) → Timed s w

variable {w : Window}

theorem Timed.began (h : Timed s w) (hi : s.ticker.interval = w.interval) (hpos : 0 < w.interval)
    (hr : w.running = none) (hc : w.closed = none) {time : Nat} (ht : time = max s.ticker.due s.now) (f : Nat) :
    Timed { s with now := time, ticker := s.ticker.serve time, phase := .passing f }
      { w with running := some time } := by
  obtain ⟨k, hp⟩ := h.paced hc
  have hnow := hp.le_due hr
  refine ⟨⟨h.quick.passes, fun begin hb => ?_⟩, fun _ => ⟨k + 1, ?_⟩, fun hn => absurd hc hn⟩
  · cases hb
    exact Nat.lt_add_of_pos_right hpos
  · have hwait : w.Paced s.ticker.due time k := hp.wait (by omega) fun _ => by omega
    exact hwait.served hi hr (by omega)

theorem Timed.finished (h : Timed s w) {begin finish : Nat} (hr : w.running = some begin) (hle : s.now ≤ finish)
    (hq : finish < begin + w.interval) (n : Nat) :
    Timed { s with now := finish, phase := .waiting, pass := n }
      { w with running := none, passes := w.passes ++ [(begin, finish)] } := by
  refine ⟨h.quick.ended hq, fun hc => ?_, fun hc => ?_⟩
  · obtain ⟨k, hp⟩ := h.paced hc
    exact ⟨k, (hp.wait hle fun hn => by rw [hr] at hn; cases hn).ended hr hq⟩
  · exact (Window.punctual_ended hr _ _).2 ((h.punctual hc).of_closed hc _)

/-- What passes leave alone. -/
def frame (w : Window) : Nat × Nat × Option Nat := (w.since, w.interval, w.closed)

/-- A step is seen in the window. -/
theorem Shows.step (h : Shows s w) (hs : Stepped s limit t events) :
    ∃ v, (events.map Event.sign).foldlM Window.see [w] = some [v] ∧ Shows t v ∧ frame v = frame w := by
  cases hs with
  | ended hp hc =>
    refine ⟨w, rfl, ⟨h.interval, h.pos, h.sound, ?_, h.joined, h.closing, ?_, fun _ => ⟨hc, h.waiting hp⟩, ?_, h.pass,
      h.took, ?_⟩, rfl⟩
    · intro hx; cases hx
    · intro hx; cases hx
    · intro f hx; cases hx
    · intro hlen
      have ht := h.timed hlen
      exact ⟨ht.quick, ht.paced, ht.punctual⟩
  | began hp hc time ht hl =>
    have hr := h.waiting hp
    have hopen : w.closed = none := by
      have hclosing := h.closing
      rw [hc] at hclosing
      exact Option.not_isSome_iff_eq_none.1 (Bool.eq_false_iff.1 hclosing)
    refine ⟨{ w with running := some time }, ?_, ?_, rfl⟩
    · show (Window.see [w] (time, .began)).bind some = _
      rw [Window.see, if_pos ⟨hr, hopen⟩]
      rfl
    · refine ⟨h.interval, h.pos, h.sound, ?_, h.joined, h.closing, ?_, ?_, ?_, h.pass, h.took, fun hlen => ?_⟩
      · intro hx; cases hx
      · intro hx; cases hx
      · intro hx; cases hx
      · intro f hx
        cases hx
        exact ⟨time, rfl, rfl, Nat.le_add_right _ _⟩
      · exact (h.timed hlen).began h.interval h.pos hr hopen ht _
  | crashed finish hp hl hc =>
    rw [h.sound] at hc
    cases hc
  | finished finish hp hl =>
    obtain ⟨begin, hr, hf, hle⟩ := h.passing finish hp
    refine ⟨{ w with running := none, passes := w.passes ++ [(begin, finish)] }, ?_, ?_, rfl⟩
    · show (Window.see [w] (finish, .ended)).bind some = _
      rw [Window.see, hr]
      rfl
    · refine ⟨h.interval, h.pos, h.sound, ?_, h.joined, h.closing, fun _ => rfl, ?_, ?_, ?_, ?_, fun hlen => ?_⟩
      · intro hx; cases hx
      · intro hx; cases hx
      · intro f hx; cases hx
      · rw [h.pass, List.length_append]
        rfl
      · rw [hf, h.pass]
        exact h.took.ended begin
      · have hlength := hlen s.pass
        exact (h.timed hlen).finished hr hle (by rw [hf]; exact Nat.add_lt_add_left hlength _) _

/-- A step happens no earlier than now, and its events with it. -/
theorem Shows.forward (h : Shows s w) (hs : Stepped s limit t events) :
    s.now ≤ t.now ∧ ∀ x ∈ events.map Event.sign, x.1 = t.now := by
  cases hs with
  | ended => exact ⟨Nat.le_refl _, fun x hx => absurd hx List.not_mem_nil⟩
  | began _ _ time ht =>
    refine ⟨ht ▸ Nat.le_max_right .., fun x hx => ?_⟩
    rw [List.mem_singleton.1 hx]
    rfl
  | crashed _ _ _ hc =>
    rw [h.sound] at hc
    cases hc
  | finished finish hp =>
    obtain ⟨begin, -, -, hle⟩ := h.passing finish hp
    refine ⟨hle, fun x hx => ?_⟩
    rw [List.mem_singleton.1 hx]
    rfl

/-- Time goes on where nothing is left to be done. -/
theorem Shows.wait (h : Shows s w) (hidle : Idle s limit) : Shows { s with now := max s.now limit } w := by
  have hpassing (f : Nat) (hf : s.phase = .passing f) : limit < f := by
    cases hidle with
    | done ho => rw [hf] at ho; simp at ho
    | early hp => rw [hf] at hp; cases hp
    | busy g hp hlt =>
      rw [hf] at hp
      cases hp
      exact hlt
  refine { h with passing := fun f hf => ?_, timed := fun hlen => ?_ }
  · obtain ⟨begin, hr, he, hle⟩ := h.passing f hf
    exact ⟨begin, hr, he, Nat.max_le.2 ⟨hle, Nat.le_of_lt (hpassing f hf)⟩⟩
  · have ht := h.timed hlen
    refine ⟨⟨ht.quick.passes, fun begin hb => ?_⟩, fun hc => ?_, fun hc => (ht.punctual hc).of_closed hc _⟩
    · cases hp : s.phase with
      | waiting => rw [h.waiting hp] at hb; cases hb
      | ended => rw [(h.ended hp).2] at hb; cases hb
      | crashed => exact absurd hp h.alive
      | passing f =>
        obtain ⟨begin', hr, he, hle⟩ := h.passing f hp
        rw [hb] at hr
        cases hr
        have hlt := hpassing f hp
        have hlength : s.plan.length s.pass < w.interval := hlen s.pass
        show max s.now limit < begin + w.interval
        omega
    · obtain ⟨k, hp⟩ := ht.paced hc
      refine ⟨k, hp.wait (Nat.le_max_left _ _) fun hr => ?_⟩
      have hnow := hp.le_due hr
      cases hidle with
      | done ho =>
        rcases ho with ho | ho
        · have hclosing := h.closing
          rw [hc, (h.ended ho).1] at hclosing
          cases hclosing
        · exact absurd ho h.alive
      | early _ _ hlt =>
        show max s.now limit ≤ s.ticker.due
        omega
      | busy f hf hlt =>
        obtain ⟨begin, hb, -⟩ := h.passing f hf
        rw [hr] at hb
        cases hb

/-! ## Runs -/

/-- After a log, the past events are seen as one window. -/
def Seen (base : List (Nat × Sign)) (f : Nat × Nat × Option Nat) (s : Scheduler) (past : List Event) : Prop :=
  Window.Chronological (base ++ past.map Event.sign) s.now ∧
    ∃ w, Window.read (base ++ past.map Event.sign) = some [w] ∧ Shows s w ∧ frame w = f

variable {base : List (Nat × Sign)} {f : Nat × Nat × Option Nat} {past : List Event}

theorem Seen.step (h : Seen base f s past) (hs : Stepped s limit t events) : Seen base f t (past ++ events) := by
  obtain ⟨hlog, w, hw, h, hf⟩ := h
  obtain ⟨hle, htime⟩ := h.forward hs
  obtain ⟨v, hv, h, hframe⟩ := h.step hs
  rw [Seen, List.map_append, ← List.append_assoc]
  refine ⟨hlog.append hle htime, v, ?_, h, hframe.trans hf⟩
  rw [Window.read_append, hw]
  exact hv

theorem Seen.interval_pos (h : Seen base f s past) : 0 < s.ticker.interval := by
  obtain ⟨-, w, -, h, -⟩ := h
  rw [h.interval]
  exact h.pos

theorem Seen.wait (h : Seen base f s past) (hidle : Idle s limit) :
    Seen base f { s with now := max s.now limit } past := by
  obtain ⟨hlog, w, hw, h, hf⟩ := h
  exact ⟨hlog.later (Nat.le_max_left ..), w, hw, h.wait hidle, hf⟩

theorem Seen.advance (h : Seen base f s past) (span : Nat) :
    Seen base f (s.advance span).1 (past ++ (s.advance span).2) := by
  obtain ⟨t, he, ht, hidle⟩ := runTo_induction (s.now + span) past h.interval_pos
    (P := Seen base f) (fun _ _ _ _ _ hp hs => hp.step hs) h
  show Seen base f (s.runTo (s.now + span)).1 _
  rw [he]
  exact ht.wait hidle

theorem Seen.advances (h : Seen base f s past) (spans : List Nat) :
    Seen base f (s.advances spans).1 (past ++ (s.advances spans).2) := by
  induction spans generalizing s past with
  | nil =>
    rw [Scheduler.advances, List.append_nil]
    exact h
  | cons span spans ih =>
    have hnext := ih (h.advance span)
    rw [List.append_assoc] at hnext
    exact hnext

/-- Nothing but time and passes changes while time passes. -/
theorem advance_frame (h : 0 < s.ticker.interval) (span : Nat) :
    (s.advance span).1.now = s.now + span ∧ (s.advance span).1.closing = s.closing ∧
      (s.advance span).1.plan = s.plan := by
  obtain ⟨t, he, ⟨hnow, hclosing, hplan⟩, -⟩ := runTo_induction (s := s) (s.now + span) [] h
    (P := fun t _ => t.now ≤ s.now + span ∧ t.closing = s.closing ∧ t.plan = s.plan) (fun _ r t _ _ hp hs => by
      cases hs with
      | ended => exact hp
      | began _ _ time _ hl | crashed time _ hl | finished time _ hl => exact ⟨hl, hp.2⟩)
    ⟨Nat.le_add_right _ _, rfl, rfl⟩
  show (s.runTo (s.now + span)).1.now = _ ∧ (s.runTo (s.now + span)).1.closing = _ ∧
    (s.runTo (s.now + span)).1.plan = _
  rw [he]
  exact ⟨Nat.max_eq_right hnow, hclosing, hplan⟩

theorem advances_frame (h : Seen base f s past) (spans : List Nat) :
    (s.advances spans).1.now = spans.foldl (· + ·) s.now ∧ (s.advances spans).1.closing = s.closing ∧
      (s.advances spans).1.plan = s.plan := by
  induction spans generalizing s past with
  | nil => exact ⟨rfl, rfl, rfl⟩
  | cons span spans ih =>
    obtain ⟨hnow, hclosing, hplan⟩ := ih (h.advance span)
    obtain ⟨hnow', hclosing', hplan'⟩ := advance_frame h.interval_pos span
    rw [hnow'] at hnow
    exact ⟨hnow, hclosing.trans hclosing', hplan.trans hplan'⟩

/-- A scheduler that is told to close closes its window. -/
theorem Shows.close (h : Shows s w) (hc : s.closing = false) :
    Window.see [w] (s.now, .closed) = some [{ w with closed := some s.now }] ∧
      Shows { s with closing := true } { w with closed := some s.now } := by
  have hopen : w.closed = none := by
    have hclosing := h.closing
    rw [hc] at hclosing
    exact Option.not_isSome_iff_eq_none.1 (Bool.eq_false_iff.1 hclosing)
  refine ⟨by rw [Window.see, if_pos hopen], h.interval, h.pos, h.sound, h.alive, h.joined, rfl, h.waiting,
    fun hp => ⟨rfl, (h.ended hp).2⟩, h.passing, h.pass, h.took, fun hlen => ?_⟩
  have ht := h.timed hlen
  refine ⟨⟨ht.quick.passes, ht.quick.running⟩, fun hn => absurd hn (Option.some_ne_none _), fun _ => ?_⟩
  obtain ⟨k, hp⟩ := ht.paced hopen
  exact (hp.punctual ht.quick (by rw [hopen]; rfl)).close hopen

/-- A stop lets a running pass come to its end. -/
theorem stop_eq (s : Scheduler) :
    ∃ limit, (∀ f, s.phase = .passing f → f ≤ limit) ∧ s.stop.2 = { s with closing := true }.runTo limit := by
  refine ⟨_, fun f hf => ?_, rfl⟩
  rw [hf]
  exact Nat.le_max_left _ _

/-- Whoever stops the scheduler waits for the running pass, and no other begins. -/
theorem Seen.stop (h : Seen base f s past) (hc : s.closing = false) :
    s.stop.2.1.phase = .ended ∧ s.stop.2.1.plan = s.plan ∧
    Seen (base ++ past.map Event.sign ++ [(s.now, .closed)]) (f.1, f.2.1, some s.now) s.stop.2.1 s.stop.2.2 := by
  obtain ⟨hlog, w, hw, h, rfl⟩ := h
  obtain ⟨hsee, hclose⟩ := h.close hc
  obtain ⟨limit, hpassing, hstop⟩ := s.stop_eq
  have hstart : Seen (base ++ past.map Event.sign ++ [(s.now, .closed)]) (w.since, w.interval, some s.now)
      { s with closing := true } [] := by
    rw [Seen, List.map_nil, List.append_nil]
    refine ⟨hlog.append (Nat.le_refl _) fun x hx => by rw [List.mem_singleton.1 hx], _, ?_, hclose, rfl⟩
    rw [Window.read_concat hw]
    exact hsee
  obtain ⟨t, he, ⟨hseen, hclosing, hplan, hbound⟩, hidle⟩ := runTo_induction limit [] hstart.interval_pos
    (P := fun t past => Seen (base ++ _ ++ [(s.now, .closed)]) _ t past ∧ t.closing = true ∧
      t.plan = s.plan ∧ ∀ f, t.phase = .passing f → f ≤ limit)
    (fun _ r t _ _ hp hs => by
      refine ⟨hp.1.step hs, ?_⟩
      cases hs with
      | ended | crashed | finished => exact ⟨hp.2.1, hp.2.2.1, fun f hf => by cases hf⟩
      | began _ hopen => rw [hp.2.1] at hopen; cases hopen)
    ⟨hstart, rfl, rfl, hpassing⟩
  -- Nothing but the end of the running pass was to be waited for, and it lies before the limit.
  have hend : t.phase = .ended := by
    cases hidle with
    | done ho =>
      obtain ⟨-, w, -, hw, -⟩ := hseen
      exact ho.resolve_right hw.alive
    | early _ hopen => rw [hclosing] at hopen; cases hopen
    | busy f hf hlt => exact absurd (hbound f hf) (Nat.not_le.2 hlt)
  rw [hstop, he]
  exact ⟨hend, hplan, hseen.wait hidle⟩

end Scheduler

namespace Scheduler

variable {interval : Nat} {plan : Plan}

/-- A scheduler begins with a window of its own. -/
theorem seen_spawn (hi : 0 < interval) (hc : plan.crashing = none) :
    Seen [(0, .launched interval)] (0, interval, none) (spawn interval plan) [] := by
  have hphase : (spawn interval plan).phase = .waiting := if_neg (Nat.ne_of_gt hi)
  have hlog : Window.Chronological [(0, .launched interval)] 0 :=
    ⟨List.pairwise_singleton .., fun x hx => Nat.le_of_eq (congrArg (·.1) (List.mem_singleton.1 hx))⟩
  refine ⟨hlog, { since := 0, interval }, rfl,
    ⟨rfl, hi, hc, ?_, rfl, rfl, fun _ => rfl, ?_, ?_, rfl, ?_, fun _ => ?_⟩, rfl⟩
  · rw [hphase]
    intro hx; cases hx
  · rw [hphase]
    intro hx; cases hx
  · rw [hphase]
    intro f hx; cases hx
  · intro j x hx; cases hx
  · exact ⟨⟨fun _ hp => absurd hp List.not_mem_nil, fun _ hb => by cases hb⟩, fun _ => ⟨0, .launched 0 interval⟩,
      fun hn => absurd rfl hn⟩

/-- The signs of a scheduler that is spawned, advanced and stopped. -/
def signs (interval : Nat) (plan : Plan) (spans : List Nat) : List (Nat × Sign) :=
  let x := (spawn interval plan).advances spans
  let y := x.1.stop
  ([(0, .launched interval)] ++ x.2.map Event.sign ++ [(x.1.now, .closed)] ++ y.2.2.map Event.sign) ++
    [(y.2.1.now, .joined)]

/--
The signs of a scheduler make up one window, whatever its passes take and whenever it is stopped. If all passes are
shorter than the interval the window is punctual.
-/
theorem signs_window (hi : 0 < interval) (hc : plan.crashing = none) (spans : List Nat) :
    ∃ w, Window.read (signs interval plan spans) = some [w] ∧ w.since = 0 ∧ w.interval = interval ∧
      w.closed = some (spans.foldl (· + ·) 0) ∧ w.joined = true ∧ (∃ now, w.Orderly now) ∧ Took plan w ∧
      ((∀ j, plan.length j < interval) → w.Punctual (spans.foldl (· + ·) 0)) := by
  have hstart := seen_spawn hi hc
  obtain ⟨hnow, hclosing, hplan⟩ := advances_frame hstart spans
  obtain ⟨hended, hplan', hlog, w, hw, h, hf⟩ := (hstart.advances spans).stop hclosing
  have hnow : ((spawn interval plan).advances spans).1.now = spans.foldl (· + ·) 0 := hnow
  have hclosed : w.closed = some (spans.foldl (· + ·) 0) := (congrArg (·.2.2) hf).trans (congrArg some hnow)
  have hinterval : w.interval = interval := congrArg (·.2.1) hf
  have hopen : w.closed ≠ none := by
    rw [hclosed]
    exact Option.some_ne_none _
  have hread : Window.read (signs interval plan spans) = some [{ w with joined := true }] := by
    refine (Window.read_concat hw _).trans ?_
    rw [Window.see, if_pos ⟨hopen, (h.ended hended).2, h.joined⟩]
  have horder := Window.inTurn_of_read
    (hlog.append (Nat.le_refl _) fun x hx => by rw [List.mem_singleton.1 hx]) hread
  refine ⟨{ w with joined := true }, hread, congrArg (·.1) hf, hinterval, hclosed, rfl,
    ⟨_, horder.orderly _ (List.mem_singleton_self _)⟩, ?_, fun hlen => ?_⟩
  · have htook := h.took
    rw [hplan', hplan] at htook
    exact htook
  have ht := h.timed fun j => by
    rw [hplan', hplan, hinterval]
    exact hlen j
  exact (ht.punctual hopen).of_closed hopen _

end Scheduler

end DurableAggregates.Schedule
