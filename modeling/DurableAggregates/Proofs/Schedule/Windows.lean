import DurableAggregates.Schedule.Scheduler

/-!
# What can be seen of schedulers

A scheduler lets `Sign`s of itself be seen: that it is launched, that a pass begins and ends, that it is told to close
and that whoever closed it goes on. `Window.read` takes a log of signs apart into the lives of single schedulers, and
fails unless there is one scheduler at a time, one pass at a time, no pass outside a life, and no end of a life before
its last pass has ended. A window is `Punctual` if passes began one interval after another, as many as fit in. That is
to be shown of windows whose passes are shorter than the interval (`Window.Quick`). `Window.Paced` says how such a
window stands to its ticker, and every sign keeps it.
-/

namespace DurableAggregates.Schedule

inductive Sign where
  /-- A scheduler is begun, with an interval in milliseconds. -/
  | launched (interval : Nat)
  /-- A pass begins. -/
  | began
  /-- The running pass ends. -/
  | ended
  /-- No further pass is to begin. -/
  | closed
  /-- Who closed the scheduler has waited for its end. -/
  | joined
  deriving DecidableEq, Repr

/-- The life of one scheduler. -/
structure Window where
  since : Nat
  interval : Nat
  /-- When the passes that have ended began and ended, the first first. -/
  passes : List (Nat × Nat) := []
  /-- When the running pass began. -/
  running : Option Nat := none
  /-- When it was closed. -/
  closed : Option Nat := none
  joined : Bool := false
  deriving DecidableEq, Repr

namespace Window

/-! ## Logs -/

/-- A sign that fits to the last scheduler, or begins another. The windows are in order, the last first. -/
def see : List Window → Nat × Sign → Option (List Window)
  | [], (time, .launched interval) => some [{ since := time, interval }]
  | w :: ws, (time, .launched interval) => if w.joined then some ({ since := time, interval } :: w :: ws) else none
  | w :: ws, (time, .began) =>
    if w.running = none ∧ w.closed = none then some ({ w with running := some time } :: ws) else none
  | w :: ws, (time, .ended) =>
    match w.running with
    | some begin => some ({ w with running := none, passes := w.passes ++ [(begin, time)] } :: ws)
    | none => none
  | w :: ws, (time, .closed) => if w.closed = none then some ({ w with closed := some time } :: ws) else none
  | w :: ws, (_, .joined) =>
    if w.closed ≠ none ∧ w.running = none ∧ w.joined = false then some ({ w with joined := true } :: ws) else none
  | [], _ => none

/-- The windows of a log, the last first; nothing if a sign does not fit to those before it. -/
def read (log : List (Nat × Sign)) : Option (List Window) := log.foldlM see []

theorem read_append (log more : List (Nat × Sign)) : read (log ++ more) = (read log).bind (more.foldlM see ·) :=
  List.foldlM_append

theorem read_concat {log : List (Nat × Sign)} {ws : List Window} (h : read log = some ws) (x : Nat × Sign) :
    read (log ++ [x]) = see ws x := by
  rw [read_append, h]
  show (see ws x).bind some = see ws x
  cases see ws x <;> rfl

theorem see_launched {ws : List Window} (h : ∀ w, ws.head? = some w → w.joined = true) (time interval : Nat) :
    see ws (time, .launched interval) = some ({ since := time, interval } :: ws) := by
  cases ws with
  | nil => rfl
  | cons w ws => rw [see, if_pos (h w rfl)]

theorem see_ne_nil (ws : List Window) (x : Nat × Sign) : see ws x ≠ some [] := by
  unfold see
  repeat' split
  all_goals exact fun h => nomatch h

/-- A log without windows is empty. -/
theorem eq_nil_of_read {log : List (Nat × Sign)} (h : read log = some []) : log = [] := by
  rcases log.eq_nil_or_concat with rfl | ⟨before, x, rfl⟩
  · rfl
  · rw [List.concat_eq_append, read_append] at h
    obtain ⟨ws, -, hsee⟩ := Option.bind_eq_some_iff.1 h
    refine absurd ?_ (see_ne_nil ws x)
    rw [List.foldlM_cons] at hsee
    obtain ⟨vs, hvs, hnil⟩ := Option.bind_eq_some_iff.1 hsee
    cases hnil
    exact hvs

/-- A log in the order of time, up to now. -/
def Chronological (log : List (Nat × Sign)) (now : Nat) : Prop := log.Pairwise (·.1 ≤ ·.1) ∧ ∀ x ∈ log, x.1 ≤ now

theorem Chronological.append {log more : List (Nat × Sign)} {now later : Nat} (h : Chronological log now)
    (hle : now ≤ later) (hmore : ∀ x ∈ more, x.1 = later) : Chronological (log ++ more) later := by
  refine ⟨List.pairwise_append.2 ⟨h.1, ?_, fun x hx y hy => ?_⟩, fun x hx => ?_⟩
  · exact List.pairwise_of_forall_mem_list fun x hx y hy => Nat.le_of_eq ((hmore x hx).trans (hmore y hy).symm)
  · rw [hmore y hy]
    exact Nat.le_trans (h.2 x hx) hle
  · rcases List.mem_append.1 hx with hx | hx
    · exact Nat.le_trans (h.2 x hx) hle
    · exact Nat.le_of_eq (hmore x hx)

theorem Chronological.later {log : List (Nat × Sign)} {now later : Nat} (h : Chronological log now)
    (hle : now ≤ later) : Chronological log later := ⟨h.1, fun x hx => Nat.le_trans (h.2 x hx) hle⟩

/-- When passes began. -/
def begun (w : Window) : List Nat := w.passes.map (·.1) ++ w.running.toList

/-- The passes of a window up to a time: one after another, begun before it was closed, and ended if it is joined. -/
structure Orderly (w : Window) (now : Nat) : Prop where
  since : w.since ≤ now
  apart : w.passes.Pairwise (·.2 ≤ ·.1)
  inside : ∀ p ∈ w.passes, w.since ≤ p.1 ∧ p.1 ≤ p.2 ∧ p.2 ≤ now
  running : ∀ b, w.running = some b → w.since ≤ b ∧ b ≤ now ∧ ∀ p ∈ w.passes, p.2 ≤ b
  closed : ∀ e, w.closed = some e → e ≤ now ∧ ∀ b ∈ w.begun, b ≤ e
  joined : w.joined = true → w.closed ≠ none ∧ w.running = none

theorem Orderly.later {w : Window} {now later : Nat} (h : w.Orderly now) (hle : now ≤ later) : w.Orderly later where
  since := Nat.le_trans h.since hle
  apart := h.apart
  inside p hp := ⟨(h.inside p hp).1, (h.inside p hp).2.1, Nat.le_trans (h.inside p hp).2.2 hle⟩
  running b hb := ⟨(h.running b hb).1, Nat.le_trans (h.running b hb).2.1 hle, (h.running b hb).2.2⟩
  closed e he := ⟨Nat.le_trans (h.closed e he).1 hle, (h.closed e he).2⟩
  joined := h.joined

/-- A window that began when another was over. -/
structure Follows (w v : Window) : Prop where
  closed : ∃ e, v.closed = some e ∧ e ≤ w.since
  passes : ∀ p ∈ v.passes, p.2 ≤ w.since

/-- Windows one after another, the last first, of which all but the last are joined. -/
structure InTurn (ws : List Window) (now : Nat) : Prop where
  orderly : ∀ w ∈ ws, w.Orderly now
  joined : ∀ w ∈ ws.tail, w.joined = true
  follows : ws.Pairwise Follows

section Order

variable {w : Window} {ws vs : List Window} {now : Nat}

theorem InTurn.later {time : Nat} (h : InTurn ws now) (hle : now ≤ time) : InTurn ws time :=
  ⟨fun w hw => (h.orderly w hw).later hle, h.joined, h.follows⟩

theorem InTurn.turn {v : Window} (h : InTurn (w :: ws) now) (hv : v.Orderly now) (hs : v.since = w.since) :
    InTurn (v :: ws) now := by
  obtain ⟨hfollows, hrest⟩ := List.pairwise_cons.1 h.follows
  refine ⟨fun u hu => ?_, h.joined, List.pairwise_cons.2 ⟨fun u hu => ?_, hrest⟩⟩
  · rcases List.mem_cons.1 hu with rfl | hu
    · exact hv
    · exact h.orderly u (List.mem_cons_of_mem _ hu)
  · have hu := hfollows u hu
    exact ⟨by rw [hs]; exact hu.closed, by rw [hs]; exact hu.passes⟩

theorem Orderly.launched (now interval : Nat) : Orderly { since := now, interval } now where
  since := Nat.le_refl _
  apart := .nil
  inside _ hp := nomatch hp
  running _ hb := nomatch hb
  closed _ he := nomatch he
  joined hj := nomatch hj

theorem Orderly.began (h : w.Orderly now) (hc : w.closed = none) : Orderly { w with running := some now } now where
  since := h.since
  apart := h.apart
  inside := h.inside
  running b hb := by
    cases hb
    exact ⟨h.since, Nat.le_refl _, fun p hp => (h.inside p hp).2.2⟩
  closed e he := by
    rw [hc] at he
    cases he
  joined hj := absurd hc (h.joined hj).1

theorem Orderly.ended (h : w.Orderly now) {begin : Nat} (hr : w.running = some begin) :
    Orderly { w with running := none, passes := w.passes ++ [(begin, now)] } now := by
  obtain ⟨hs, hn, hp⟩ := h.running begin hr
  refine ⟨h.since, List.pairwise_append.2 ⟨h.apart, List.pairwise_singleton .., fun p hp' q hq => ?_⟩, fun p hp' => ?_,
    (fun b hb => nomatch hb), fun e he => ⟨(h.closed e he).1, fun b hb => (h.closed e he).2 b ?_⟩, fun hj => ?_⟩
  · rw [List.mem_singleton.1 hq]
    exact hp p hp'
  · rcases List.mem_append.1 hp' with hp' | hp'
    · exact h.inside p hp'
    · rw [List.mem_singleton.1 hp']
      exact ⟨hs, hn, Nat.le_refl _⟩
  · simpa [begun, hr] using hb
  · exact ⟨(h.joined hj).1, rfl⟩

theorem Orderly.close (h : w.Orderly now) (hc : w.closed = none) : Orderly { w with closed := some now } now where
  since := h.since
  apart := h.apart
  inside := h.inside
  running := h.running
  closed e he := by
    cases he
    refine ⟨Nat.le_refl _, fun b hb => ?_⟩
    rcases List.mem_append.1 hb with hb | hb
    · obtain ⟨p, hp, rfl⟩ := List.mem_map.1 hb
      exact Nat.le_trans (h.inside p hp).2.1 (h.inside p hp).2.2
    · exact (h.running b (Option.mem_toList.1 hb)).2.1
  joined hj := absurd hc (h.joined hj).1

theorem Orderly.join (h : w.Orderly now) (hc : w.closed ≠ none) (hr : w.running = none) :
    Orderly { w with joined := true } now :=
  ⟨h.since, h.apart, h.inside, h.running, h.closed, fun _ => ⟨hc, hr⟩⟩

/-- The next window begins when the one before it is joined. -/
theorem InTurn.launch (h : InTurn (w :: ws) now) (hj : w.joined = true) (interval : Nat) :
    InTurn ({ since := now, interval } :: w :: ws) now := by
  have hjoined (v : Window) (hv : v ∈ w :: ws) : v.joined = true := by
    rcases List.mem_cons.1 hv with rfl | hv
    · exact hj
    · exact h.joined v hv
  refine ⟨fun v hv => ?_, hjoined, List.pairwise_cons.2 ⟨fun v hv => ?_, h.follows⟩⟩
  · rcases List.mem_cons.1 hv with rfl | hv
    · exact .launched now interval
    · exact h.orderly v hv
  · have hv' := h.orderly v hv
    obtain ⟨e, he⟩ := Option.ne_none_iff_exists'.1 (hv'.joined (hjoined v hv)).1
    exact ⟨⟨e, he, (hv'.closed e he).1⟩, fun p hp => (hv'.inside p hp).2.2⟩

/-- Every sign that fits keeps the order. -/
theorem InTurn.see (h : InTurn ws now) {sign : Sign} (hs : see ws (now, sign) = some vs) : InTurn vs now := by
  cases ws with
  | nil =>
    cases sign with
    | launched interval =>
      cases hs
      refine ⟨fun w hw => ?_, (fun w hw => nomatch hw), List.pairwise_singleton ..⟩
      rw [List.mem_singleton.1 hw]
      exact .launched now interval
    | began | ended | closed | joined => cases hs
  | cons w ws =>
    have hw := h.orderly w (List.mem_cons_self ..)
    cases sign with
    | launched interval =>
      rw [Window.see] at hs
      split at hs
      · rename_i hj
        cases hs
        exact h.launch hj interval
      · cases hs
    | began =>
      rw [Window.see] at hs
      split at hs
      · rename_i hc
        cases hs
        exact h.turn (hw.began hc.2) rfl
      · cases hs
    | ended =>
      rw [Window.see] at hs
      split at hs
      · rename_i begin hr
        cases hs
        exact h.turn (hw.ended hr) rfl
      · cases hs
    | closed =>
      rw [Window.see] at hs
      split at hs
      · rename_i hc
        cases hs
        exact h.turn (hw.close hc) rfl
      · cases hs
    | joined =>
      rw [Window.see] at hs
      split at hs
      · rename_i hc
        cases hs
        exact h.turn (hw.join hc.1 hc.2.1) rfl
      · cases hs

/-- Only the last window may not be joined. -/
theorem InTurn.eq_head (h : InTurn ws now) {v : Window} (hv : v ∈ ws) (hj : v.joined = false) : ws.head? = some v := by
  cases ws with
  | nil => cases hv
  | cons w ws =>
    rcases List.mem_cons.1 hv with rfl | hv
    · rfl
    · rw [h.joined v hv] at hj
      cases hj

theorem Orderly.open (h : w.Orderly now) (hc : w.closed = none) : w.joined = false :=
  Bool.eq_false_iff.2 fun hj => (h.joined hj).1 hc

theorem InTurn.foldlM {log : List (Nat × Sign)} {b : Nat} (h : InTurn ws b) (hb : ∀ x ∈ log, b ≤ x.1)
    (hle : b ≤ now) (hc : Chronological log now) (hr : log.foldlM Window.see ws = some vs) : InTurn vs now := by
  induction log generalizing ws b with
  | nil =>
    cases hr
    exact h.later hle
  | cons x log ih =>
    obtain ⟨hx, hlog⟩ := List.pairwise_cons.1 hc.1
    rw [List.foldlM_cons] at hr
    cases hs : Window.see ws x with
    | none =>
      rw [hs] at hr
      cases hr
    | some us =>
      rw [hs] at hr
      have hnext : InTurn us x.1 := (h.later (hb x (List.mem_cons_self ..))).see hs
      exact ih hnext hx (hc.2 x (List.mem_cons_self ..)) ⟨hlog, fun y hy => hc.2 y (List.mem_cons_of_mem _ hy)⟩ hr

/-- The windows of a log are in order. -/
theorem inTurn_of_read {log : List (Nat × Sign)} (hc : Chronological log now) (h : read log = some ws) :
    InTurn ws now := by
  have hnone : InTurn [] 0 := ⟨(fun w hw => nomatch hw), (fun w hw => nomatch hw), .nil⟩
  exact hnone.foldlM (fun _ _ => Nat.zero_le _) (Nat.zero_le _) hc h

end Order

/-! ## Punctuality -/

/-- The first times at which a pass is due. -/
def instants (w : Window) (k : Nat) : List Nat := (List.range k).map fun j => w.since + (j + 1) * w.interval

/-- Every pass has taken less than the interval so far. -/
structure Quick (w : Window) (now : Nat) : Prop where
  passes : ∀ p ∈ w.passes, p.2 < p.1 + w.interval
  running : ∀ begin, w.running = some begin → now < begin + w.interval

/-- Passes began whenever one was due inside the window, and never else. -/
def Punctual (w : Window) (now : Nat) : Prop :=
  ∃ k, w.begun = w.instants k ∧ w.since + k * w.interval ≤ w.closed.getD now ∧
    w.closed.getD now ≤ w.since + (k + 1) * w.interval

theorem Quick.of_le {w : Window} {now later : Nat} (h : w.Quick later) (hle : now ≤ later) : w.Quick now :=
  ⟨h.passes, fun begin hr => Nat.lt_of_le_of_lt hle (h.running begin hr)⟩

/-- A pass that has ended was quick if it was shorter than the interval. -/
theorem Quick.ended {w : Window} {now later begin : Nat} (h : w.Quick now) (hq : later < begin + w.interval) :
    Quick { w with running := none, passes := w.passes ++ [(begin, later)] } later := by
  refine ⟨fun p hp => ?_, fun _ hr => nomatch hr⟩
  rcases List.mem_append.1 hp with hp | hp
  · exact h.passes p hp
  · obtain rfl := List.mem_singleton.1 hp
    exact hq

theorem Quick.of_ended {w : Window} {now begin : Nat} (hr : w.running = some begin)
    (h : Quick { w with running := none, passes := w.passes ++ [(begin, now)] } now) : w.Quick now := by
  refine ⟨fun p hp => h.passes p (List.mem_append_left _ hp), fun b hb => ?_⟩
  rw [hr] at hb
  cases hb
  exact h.passes (begin, now) (List.mem_append_right _ (List.mem_singleton_self _))

/-- A window in which a pass ends is punctual if it was. -/
theorem punctual_ended {w : Window} {begin : Nat} (hr : w.running = some begin) (now later : Nat) :
    Punctual { w with running := none, passes := w.passes ++ [(begin, later)] } now ↔ w.Punctual now := by
  have hb : begun { w with running := none, passes := w.passes ++ [(begin, later)] } = w.begun := by
    simp [begun, hr]
  unfold Punctual
  rw [hb]
  rfl

/-- How long ago a window was closed does not matter. -/
theorem Punctual.of_closed {w : Window} {now : Nat} (h : w.Punctual now) (hc : w.closed ≠ none) (later : Nat) :
    w.Punctual later := by
  obtain ⟨time, ht⟩ := Option.ne_none_iff_exists'.1 hc
  simpa only [Punctual, ht, Option.getD_some] using h

theorem Punctual.close {w : Window} {now : Nat} (h : w.Punctual now) (hc : w.closed = none) :
    Punctual { w with closed := some now } now := by
  unfold Punctual at h
  rw [hc] at h
  exact h

theorem instants_succ (w : Window) (k : Nat) :
    w.instants (k + 1) = w.instants k ++ [w.since + (k + 1) * w.interval] := by
  simp [instants, List.range_succ]

/-! ## Windows and tickers -/

/-- How an open window with quick passes stands to its ticker. -/
structure Paced (w : Window) (due now k : Nat) : Prop where
  begun_eq : w.begun = w.instants k
  due_eq : due = w.since + (k + 1) * w.interval
  since_le : w.since + k * w.interval ≤ now
  le_due : w.running = none → now ≤ due
  running_add : ∀ begin, w.running = some begin → begin + w.interval = due

namespace Paced

variable {w : Window} {due now later k : Nat}

theorem launched (since interval : Nat) : Paced { since, interval } (since + interval) since 0 where
  begun_eq := rfl
  due_eq := by simp
  since_le := by simp
  le_due _ := Nat.le_add_right _ _
  running_add _ h := nomatch h

/-- A pass begins when it is due. -/
theorem began (h : w.Paced due now k) (hr : w.running = none) (hnow : due ≤ now) :
    Paced { w with running := some now } (due + w.interval) now (k + 1) := by
  have hd : now = due := Nat.le_antisymm (h.le_due hr) hnow
  have hb := h.begun_eq
  simp only [Window.begun, hr, Option.toList_none, List.append_nil] at hb
  refine ⟨?_, ?_, ?_, fun hn => ?_, fun begin hs => ?_⟩
  · show w.passes.map (·.1) ++ [now] = w.instants (k + 1)
    rw [hb, instants_succ, hd, h.due_eq]
  · rw [h.due_eq, Nat.add_mul (k + 1), Nat.one_mul, Nat.add_assoc]
  · show w.since + (k + 1) * w.interval ≤ now
    rw [← h.due_eq]
    exact hnow
  · cases hn
  · cases hs
    rw [hd]

/-- The ticker that is served when a pass begins keeps the rhythm. -/
theorem served {t : Ticker} (h : w.Paced t.due now k) (hi : t.interval = w.interval) (hr : w.running = none)
    (hnow : t.due ≤ now) : Paced { w with running := some now } (t.serve now).due now (k + 1) := by
  have hdue : now ≤ t.due := h.le_due hr
  have hserve : (t.serve now).due = t.due + w.interval := by
    rw [Ticker.serve, hi]
    exact if_pos (Nat.le_trans hdue (Nat.le_add_right _ _))
  rw [hserve]
  exact h.began hr hnow

/-- A quick pass ends before the next is due. -/
theorem ended (h : w.Paced due now k) {begin : Nat} (hr : w.running = some begin) (hq : now < begin + w.interval) :
    Paced { w with running := none, passes := w.passes ++ [(begin, now)] } due now k where
  begun_eq := by
    show (w.passes ++ [(begin, now)]).map (·.1) ++ [] = w.instants k
    rw [← h.begun_eq]
    simp [Window.begun, hr]
  due_eq := h.due_eq
  since_le := h.since_le
  le_due _ := by
    have := h.running_add begin hr
    omega
  running_add _ hs := nomatch hs

/-- Time passes. -/
theorem wait (h : w.Paced due now k) (hle : now ≤ later) (hdue : w.running = none → later ≤ due) :
    w.Paced due later k :=
  ⟨h.begun_eq, h.due_eq, Nat.le_trans h.since_le hle, hdue, h.running_add⟩

/-- A window that is paced is punctual, open or just closed. -/
theorem punctual (h : w.Paced due now k) (hq : w.Quick now) (hc : w.closed.getD now = now) : w.Punctual now := by
  refine ⟨k, h.begun_eq, ?_, ?_⟩
  · rw [hc]
    exact h.since_le
  · rw [hc, ← h.due_eq]
    cases hr : w.running with
    | none => exact h.le_due hr
    | some begin =>
      have := hq.running begin hr
      have := h.running_add begin hr
      omega

end Paced

end Window

end DurableAggregates.Schedule
