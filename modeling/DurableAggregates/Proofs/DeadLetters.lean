import DurableAggregates.Proofs.Execution.Steps

/-!
# Dead letters and how they are counted

The sink accepts a letter before the key is read again and removed, and the letter is counted after both. If one of
these calls fails, the pass lists the key as failed: the letter is out, but it is not counted, the key stays, and the
next pass sends another one. Such keys are the `unsettled` ones of a pass. They account for all that goes wrong
(`dead_letters_accounted`): between two adds the sink accepts one letter for each pass that left the key unsettled and
at most one more, and the count in the health lacks the letters of unsettled keys and no others. One removal that
fails is enough to get two letters for one key (`dead_letter_sent_twice`).
-/

namespace DurableAggregates

/-- How many letters for the key the sink has accepted. -/
def KeyView.accepted (b : KeyView) : Nat := b.letters.countP (·.2.isOk)

/-- The keys that are listed as failed although the sink has accepted their letters. -/
def Report.unsettled (rep : Report) (before after : CorrelationKey → KeyView) : List CorrelationKey :=
  rep.failed.filter fun key => (before key).accepted < (after key).accepted

namespace Moment

/-- The letters that the sink accepts meanwhile. -/
def letters (m : Moment) : List DeadLetter := m.after.world.accepted.drop m.before.world.accepted.length

/-- The keys that a pass lists as dead lettered. -/
def deadLettered (m : Moment) : List CorrelationKey := m.report?.elim [] Report.deadLettered

/-- The keys that a pass leaves unsettled. -/
def unsettled (m : Moment) : List CorrelationKey := m.report?.elim [] (·.unsettled m.before.view m.after.view)

/-- An exchange is added under the key, and the add succeeds. -/
def adds (m : Moment) (key : CorrelationKey) : Bool :=
  match m.action, m.answer with
  | .add k _ _, .ok _ => k = key
  | _, _ => false

end Moment

/-- What has happened since the last add under the key that succeeded, the first first. -/
def sinceAdd (key : CorrelationKey) (past : List Moment) : List Moment :=
  past.foldl (fun since m => if m.adds key then [] else since ++ [m]) []

theorem sinceAdd_concat (key : CorrelationKey) (past : List Moment) (m : Moment) :
    sinceAdd key (past ++ [m]) = if m.adds key then [] else sinceAdd key past ++ [m] := by
  rw [sinceAdd, List.foldl_append]
  rfl

/-! ## The letters of one key -/

theorem Repository.countP_accepted (s : Setup) (p : Policy) (key : CorrelationKey) (v : Snapshot) (n : Nat) :
    (accepted s p key v n).countP (·.2.isOk) = if lastListing s p = .deadLettered then 1 else 0 := by
  unfold accepted lastListing
  cases sinkAddress? s p <;> rfl

/-- The sink accepts a letter for a key that is listed as dead lettered, or for one that is listed as failed. -/
theorem KeyPass.accepted_eq {env : Environment} {s : Setup} {p : Policy} {key : CorrelationKey} {b c : KeyView}
    {l? : Option Listing} (h : KeyPass env s p key b l? c) :
    c.accepted = b.accepted + (if l? = some .deadLettered then 1 else 0) ∨
      (¬ env.Healthy ∧ l? = some .failed ∧ c.accepted = b.accepted + 1) := by
  have happend (v : Snapshot) : (b.letters ++ Repository.accepted s p key v b.next).countP (·.2.isOk) =
      b.accepted + if Repository.lastListing s p = .deadLettered then 1 else 0 := by
    rw [List.countP_append, Repository.countP_accepted]
    rfl
  cases h with
  | absent | unread | handed => exact .inl rfl
  | refused =>
    refine .inl ?_
    simp [KeyView.accepted, Except.isOk, Except.toBool]
  | kept bytes v he hv hn hf record hr =>
    by_cases hl : Repository.lastListing s p = .deadLettered
    · refine .inr ⟨hf, rfl, ?_⟩
      have := happend v
      rwa [if_pos hl] at this
    · refine .inl ?_
      have := happend v
      rwa [if_neg hl] at this
  | moved bytes v =>
    refine .inl ?_
    simp only [Option.some.injEq]
    exact happend v

namespace Repository

open Environment

variable {env : Environment} {s : Setup} {r t : Repository} {w u : World} {p : Policy} {key : CorrelationKey}
  {x : Except RepositoryError Outcome}

/-- The recovery of a key sends letters for no other key. -/
theorem Recovered.letters (h : Recovered env s p key r w x t u) :
    ∃ l, u.letters = w.letters ++ l ∧ ∀ y ∈ l, y.1.key = key := by
  have hescalating (v : Snapshot) (n : Nat) : ∃ l, (env.escalating (env.after w (.get key)) s (sinkAddress? s p) key
      v.restore n).letters = w.letters ++ l ∧ ∀ y ∈ l, y.1.key = key := by
    cases sinkAddress? s p with
    | none => exact ⟨[], by simp [escalating], by simp⟩
    | some uri => exact ⟨_, rfl, by simp [Setup.letter]⟩
  cases h with
  | unread | gone => exact ⟨[], by simp, by simp⟩
  | handed => exact ⟨[], by simp, by simp⟩
  | refused v hg hn uri => exact ⟨_, rfl, by simp [Setup.letter]⟩
  | kept hf v hg hn hv e u hu =>
    rw [hu.letters]
    exact hescalating v _
  | moved v hg hn hv u hd hl =>
    rw [hl]
    exact hescalating v _

theorem view_accepted (r : Repository) (w : World) (key : CorrelationKey) :
    (r.view w key).accepted = w.accepted.countP (·.key = key) := by
  rw [World.accepted, List.countP_map, List.countP_filter, KeyView.accepted, view, List.countP_filter]
  exact List.countP_congr fun y _ => by simp [and_comm]

theorem Recovered.accepted_prefix (h : Recovered env s p key r w x t u) : w.accepted <+: u.accepted := by
  obtain ⟨l, hl, -⟩ := h.letters
  exact ⟨(l.filter (·.2.isOk)).map (·.1), by simp [World.accepted, hl]⟩

/-- A key that leaves the store for the sink is counted. -/
theorem Recovered.deadLettered (h : Recovered env s p key r w x t u) :
    t.deadLettered = r.deadLettered + if listing? x = some .deadLettered then 1 else 0 := by
  cases h with
  | unread | gone | refused | kept => rfl
  | handed =>
    unfold handedBack
    split <;> rfl
  | moved =>
    rw [listing?_fate]
    unfold escalated lastListing
    cases sinkAddress? s p <;> rfl

/-- All letters that the sink accepts are counted, except for a key that it leaves unsettled. -/
theorem Recovered.accepted (h : Recovered env s p key r w x t u) :
    t.deadLettered + (if listing? x = some .failed ∧ (r.view w key).accepted < (t.view u key).accepted then 1 else 0) +
      w.accepted.length = r.deadLettered + u.accepted.length := by
  obtain ⟨l, hl, hkey⟩ := h.letters
  have hworld : u.accepted.length = w.accepted.length + l.countP (·.2.isOk) := by
    simp [World.accepted, hl, List.countP_eq_length_filter]
  have hview : (t.view u key).accepted = (r.view w key).accepted + l.countP (·.2.isOk) := by
    have hfilter : l.filter (·.1.key = key) = l := List.filter_eq_self.2 fun y hy => by simpa using hkey y hy
    simp [KeyView.accepted, view, hl, hfilter]
  rw [h.deadLettered, hworld]
  rcases h.keyPass.accepted_eq with hc | ⟨-, hf, hc⟩
  · have hn : ¬ (listing? x = some .failed ∧ (r.view w key).accepted < (t.view u key).accepted) := by
      rintro ⟨hf, hlt⟩
      rw [hf, if_neg (by simp)] at hc
      omega
    rw [if_neg hn]
    omega
  · have hlt : listing? x = some .failed ∧ (r.view w key).accepted < (t.view u key).accepted := ⟨hf, by omega⟩
    rw [if_pos hlt, if_neg (by rw [hf]; simp)]
    omega

end Repository

/-! ## The letters of a pass -/

theorem Report.failed_add (rep : Report) (key : CorrelationKey) (x : Except RepositoryError Outcome) :
    (rep.add key x).failed = rep.failed ++ if listing? x = some .failed then [key] else [] :=
  rep.list_add key x .failed

namespace Repository

open Environment

variable {env : Environment} {s : Setup} {r t : Repository} {w u : World} {p : Policy} {key : CorrelationKey}

/-- The letters for the keys that a pass has met are counted, except for those that it leaves unsettled. -/
structure Counts (r : Repository) (w : World) (done : List CorrelationKey) (rep : Report) (t : Repository)
    (u : World) : Prop where
  others : ∀ k ∉ done, k ∉ rep.failed ∧ (t.view u k).accepted = (r.view w k).accepted
  grows : w.accepted <+: u.accepted
  total : t.deadLettered + (rep.unsettled (r.view w) (t.view u)).length + w.accepted.length =
    r.deadLettered + u.accepted.length

theorem Counts.step {r₀ : Repository} {w₀ : World} {done : List CorrelationKey} {rep : Report} (hkey : key ∉ done)
    (h : Counts r₀ w₀ done rep r w) {x : Except RepositoryError Outcome} (hr : Recovered env s p key r w x t u) :
    Counts r₀ w₀ (done ++ [key]) (rep.add key x) (t.noting x) u := by
  obtain ⟨hfailed, hsame⟩ := h.others key hkey
  refine ⟨fun k hk => ?_, h.grows.trans hr.accepted_prefix, ?_⟩
  · obtain ⟨hdone, hne⟩ := not_or.1 (fun h => hk (List.mem_append.2 h))
    replace hne : k ≠ key := fun h => hne (List.mem_singleton.2 h)
    obtain ⟨hf, ha⟩ := h.others k hdone
    rw [Report.failed_add, view_noting, hr.frame hne]
    refine ⟨fun hmem => (List.mem_append.1 hmem).elim hf fun hmem => hne ?_, ha⟩
    split at hmem
    · exact List.mem_singleton.1 hmem
    · cases hmem
  · -- The keys met before have the letters that they had.
    have hbefore : rep.failed.filter (fun k => decide ((r₀.view w₀ k).accepted < ((t.noting x).view u k).accepted)) =
        rep.failed.filter (fun k => decide ((r₀.view w₀ k).accepted < (r.view w k).accepted)) := by
      refine List.filter_congr fun k hk => ?_
      have hne : k ≠ key := fun h => hfailed (h ▸ hk)
      rw [view_noting, hr.frame hne]
    have hunsettled : ((rep.add key x).unsettled (r₀.view w₀) ((t.noting x).view u)).length =
        (rep.unsettled (r₀.view w₀) (r.view w)).length +
          if listing? x = some .failed ∧ (r.view w key).accepted < (t.view u key).accepted then 1 else 0 := by
      rw [Report.unsettled, Report.failed_add, List.filter_append, List.length_append, hbefore, Report.unsettled]
      by_cases hx : listing? x = some .failed
      · rw [if_pos hx, List.filter_cons, List.filter_nil, view_noting, hsame]
        simp only [hx, true_and, decide_eq_true_eq]
        split <;> rfl
      · rw [if_neg hx, if_neg (fun h => hx h.1)]
        rfl
    have htotal := h.total
    have hstep := hr.accepted
    rw [hunsettled, deadLettered_noting]
    omega

/-- What a pass counts. -/
theorem pass_counts (env : Environment) (w : World) (ha : r.active = some p)
    (hs : p.useRecovery = s.config.useRecovery) :
    let y := (pass s).exec env r w
    w.accepted <+: y.2.2.accepted ∧
      y.2.1.deadLettered + (y.1.toOption.elim [] (·.unsettled (r.view w) (y.2.1.view y.2.2))).length +
        w.accepted.length = r.deadLettered + y.2.2.accepted.length := by
  have hpass := pass_induction env w ha hs (P := Counts r w)
    (fun done key rep r w x t u hkey h hrec => h.step hkey hrec)
    (fun stored hk => ⟨fun k _ => ⟨List.not_mem_nil, rfl⟩, List.prefix_rfl, rfl⟩)
  rcases hpass with ⟨e, -, he⟩ | ⟨-, n, he⟩ | ⟨-, stored, rep, t, u, -, he, h⟩
  · rw [he]
    exact ⟨List.prefix_rfl, rfl⟩
  · rw [he]
    exact ⟨List.prefix_rfl, rfl⟩
  · rw [he]
    exact ⟨h.grows, h.total⟩

end Repository

/-! ## The letters of an action -/

section

variable {env : Environment} {s : Setup} {key : CorrelationKey} {b c : KeyView} {rep? : Option Report}

/-- The sink accepts one letter for a key that is dead lettered or left unsettled, and otherwise none. -/
theorem KeyStep.accepted_eq (h : KeyStep env s key b rep? c) :
    (c.accepted = b.accepted + (if key ∈ rep?.elim [] Report.deadLettered then 1 else 0) ∧
      ¬ (key ∈ rep?.elim [] Report.failed ∧ b.accepted < c.accepted)) ∨
    (¬ env.Healthy ∧ key ∈ rep?.elim [] Report.failed ∧ key ∉ rep?.elim [] Report.deadLettered ∧
      c.accepted = b.accepted + 1) := by
  cases h with
  | kept | dropped | stored => exact .inl ⟨rfl, fun h => by cases h.1⟩
  | idle p hp hu rep hl =>
    have hd : key ∉ rep.deadLettered := hl .deadLettered
    refine .inl ⟨?_, fun h => hl .failed h.1⟩
    rw [Option.elim_some, if_neg hd]
    rfl
  | passed p hp hu rep l? c h hl =>
    have hd : key ∈ rep.deadLettered ↔ l? = some .deadLettered := hl .deadLettered
    have hf : key ∈ rep.failed ↔ l? = some .failed := hl .failed
    simp only [Option.elim_some, hd, hf]
    rcases h.accepted_eq with hc | ⟨hh, rfl, hc⟩
    · refine .inl ⟨hc, ?_⟩
      rintro ⟨rfl, hlt⟩
      rw [if_neg (by simp)] at hc
      omega
    · exact .inr ⟨hh, rfl, by simp, hc⟩

/-- Only a key that is stored can be dead lettered, and it leaves the store. -/
theorem KeyStep.entry_of_deadLettered (h : KeyStep env s key b rep? c)
    (hk : key ∈ rep?.elim [] Report.deadLettered) : b.entry ≠ none ∧ c.entry = none := by
  cases h with
  | kept | dropped | stored => cases hk
  | idle p hp hu rep hl => exact absurd hk (hl .deadLettered)
  | passed p hp hu rep l? c h hl =>
    have hlist := (hl .deadLettered).1 hk
    cases h with
    | absent | unread | handed | refused | kept => cases hlist
    | moved bytes v he =>
      rw [he]
      exact ⟨Option.some_ne_none bytes, rfl⟩

end

namespace Repository

open Environment

variable {env : Environment} {s : Setup} {r t : Repository} {w v : World} {key : CorrelationKey} {a : Action}
  {x : Except RepositoryError Cluster.Answer}

/-- A key is stored by an add that succeeds and by nothing else. -/
theorem Acted.absent (h : Acted env s r w a x t v) (hd : w.store.data[key]? = none)
    (hadd : ∀ e he y, a = .add key e he → x ≠ .ok y) : v.store.data[key]? = none := by
  have hremove {u : World} (k : CorrelationKey) (hu : u.store.data[key]? = none) :
      (env.after u (.remove k)).store.data[key]? = none := by
    cases hx : env.result u (.remove k) with
    | error e => rw [data_after_remove_error hx, hu]
    | ok y => simp [data_after_remove_ok hx, Std.ExtTreeMap.getElem?_erase, hu]
  cases h with
  | refused | uncaptured => exact hd
  | quiet _ ht hv => rw [hv.data, hd]
  | @added k e he p y old ha hc hp =>
    have hk : key ≠ k := by
      rintro rfl
      exact hadd e he _ rfl rfl
    rw [data_after_put_of_ne hk, hd]
  | @unstored k e he p y f ha hc hp =>
    by_cases hk : key = k
    · subst hk
      have hput := data_after_put env w key y
      cases hf : env.fault? w .put key with
      | some fault =>
        rw [hf] at hput
        rw [hput, hd]
      | none =>
        obtain ⟨bytes, g, hb, -⟩ := unreadable_of_result_put hp hf
        rw [hd] at hb
        cases hb
    · rw [data_after_put_of_ne hk, hd]
  | removed hx => exact hremove _ hd
  | confirmed hv hl hx => exact hremove _ (by rw [hv.data, hd])
  | unlocated hv hl | unconfirmed hv hl => rw [hv.data, hd]

theorem health_metadata (r : Repository) (s : Setup) :
    (r.health s).metadata = [("cache_name", s.config.cacheName), ("tracked_keys", toString r.records.size),
      ("dead_lettered", toString r.deadLettered)] := by
  unfold health
  cases r.lastError.filter (·.unhealthy) with
  | some e => rfl
  | none =>
    cases s.policy? with
    | error e => cases r.isRunning <;> rfl
    | ok p =>
      dsimp only
      split
      · rfl
      · cases r.isRunning <;> rfl

/-- The health tells how many letters were counted. -/
theorem health_deadLettered (r : Repository) (s : Setup) :
    (r.health s).metadata? "dead_lettered" = some (toString r.deadLettered) := by
  rw [HealthCheck.metadata?, health_metadata]
  rfl

/-- The health tells how many keys have a record. -/
theorem health_tracked (r : Repository) (s : Setup) :
    (r.health s).metadata? "tracked_keys" = some (toString r.records.size) := by
  rw [HealthCheck.metadata?, health_metadata]
  rfl

end Repository

namespace Site

variable {env : Environment} {s : Setup} {x : Site}

theorem entry_of_not_adds (hf : x.repository.Follows s) (env : Environment) (a : Action) (key : CorrelationKey)
    (hm : (x.moment env s a).adds key = false) (hd : (x.view key).entry = none) :
    ((x.act env s a).2.view key).entry = none := by
  by_cases ha : a = .pass
  · subst ha
    rw [act_pass]
    show ((Repository.pass s).exec env x.repository x.world).2.2.store.data[key]? = none
    rcases hf.pass_cases env x.world with ⟨-, he⟩ | ⟨p, y, t, u, -, -, he, h⟩
    · rw [he]
      exact hd
    · rw [he]
      exact (h.entry key).elim (fun h => h.trans hd) id
  · refine (Repository.action_exec env s x.repository x.world ha).absent hd fun e he y h hy => ?_
    subst h
    have hanswer : (x.act env s (.add key e he)).1 = .ok y := hy
    rw [moment, Moment.adds, hanswer] at hm
    simp at hm

/-- The letters that the sink accepts during an action are counted, except for keys that are left unsettled. -/
theorem act_counts (hf : x.repository.Follows s) (env : Environment) (a : Action) :
    x.world.accepted <+: (x.act env s a).2.world.accepted ∧
      (x.act env s a).2.repository.deadLettered + (x.moment env s a).unsettled.length + x.world.accepted.length =
        x.repository.deadLettered + (x.act env s a).2.world.accepted.length := by
  by_cases ha : a = .pass
  · subst ha
    have hu : (x.moment env s .pass).unsettled =
        ((Repository.pass s).exec env x.repository x.world).1.toOption.elim []
          fun rep => rep.unsettled x.view (x.act env s .pass).2.view := by
      rw [Moment.unsettled, report?_pass]
      rfl
    rw [hu, act_pass]
    cases hp : x.repository.active with
    | none =>
      rw [Repository.pass, Operation.exec_bind_error (Repository.runningPolicy_exec_none hp)]
      exact ⟨List.prefix_rfl, rfl⟩
    | some p => exact Repository.pass_counts env x.world hp (Setup.useRecovery_of_policy? (hf p hp))
  · have h := Repository.action_steady env s x.repository x.world ha
    have hl : (x.act env s a).2.world.accepted = x.world.accepted := by
      rw [World.accepted, World.accepted]
      exact congrArg (fun l => (l.filter (·.2.isOk)).map (·.1)) h.letters
    have hd : (x.act env s a).2.repository.deadLettered = x.repository.deadLettered := h.deadLettered
    rw [Moment.unsettled, report?_of_ne_pass ha, hl, hd]
    exact ⟨List.prefix_rfl, rfl⟩

/-- The letters that are accepted during an action come after those before. -/
theorem accepted_act (hf : x.repository.Follows s) (env : Environment) (a : Action) :
    (x.act env s a).2.world.accepted = x.world.accepted ++ (x.moment env s a).letters := by
  obtain ⟨l, hl⟩ := (act_counts hf env a).1
  have hletters : (x.moment env s a).letters = l := by
    show (x.act env s a).2.world.accepted.drop x.world.accepted.length = l
    rw [← hl, List.drop_left]
  rw [hletters, hl]

end Site

/-! ## Runs -/

theorem Moment.mem_unsettled {m : Moment} {key : CorrelationKey} : key ∈ m.unsettled ↔
    key ∈ m.report?.elim [] Report.failed ∧ (m.before.view key).accepted < (m.after.view key).accepted := by
  unfold unsettled
  cases m.report? with
  | none => simp
  | some rep => simp [Report.unsettled]

/-- The sink accepts letters for the keys that a pass lists as dead lettered or leaves unsettled. -/
theorem Site.letters_moment {s : Setup} {x : Site} (hf : x.repository.Follows s) (env : Environment) (a : Action)
    (key : CorrelationKey) :
    let m := x.moment env s a
    m.letters.countP (·.key = key) =
        (if key ∈ m.deadLettered then 1 else 0) + (if key ∈ m.unsettled then 1 else 0) ∧
      (key ∈ m.unsettled → ¬ env.Healthy) := by
  intro m
  have hcount : ((x.act env s a).2.view key).accepted = (x.view key).accepted + m.letters.countP (·.key = key) := by
    rw [view, view, Repository.view_accepted, Repository.view_accepted, accepted_act hf, List.countP_append]
  rcases (keyStep hf env a key).accepted_eq with ⟨hc, hn⟩ | ⟨hh, hfailed, hd, hc⟩
  · have hu : key ∉ m.unsettled := fun hu => hn (Moment.mem_unsettled.1 hu)
    refine ⟨?_, fun h => absurd h hu⟩
    rw [if_neg hu, Nat.add_zero]
    exact Nat.add_left_cancel (hcount.symm.trans hc)
  · have hu : key ∈ m.unsettled := Moment.mem_unsettled.2 ⟨hfailed, Nat.lt_of_lt_of_eq (Nat.lt_succ_self _) hc.symm⟩
    replace hd : key ∉ m.deadLettered := hd
    refine ⟨?_, fun _ => hh⟩
    rw [if_neg hd, if_pos hu, Nat.zero_add]
    exact Nat.add_left_cancel (hcount.symm.trans hc)

/-- What has become of a key since it was last added. -/
structure LettersOf (key : CorrelationKey) (since : List Moment) (b : KeyView) : Prop where
  sent : (since.flatMap (·.letters)).countP (·.key = key) =
    since.countP (key ∈ ·.deadLettered) + since.countP (key ∈ ·.unsettled)
  once : since.countP (key ∈ ·.deadLettered) ≤ 1
  stored : b.entry ≠ none → since.countP (key ∈ ·.deadLettered) = 0

namespace LettersOf

variable {env : Environment} {s : Setup} {x : Site} {key : CorrelationKey} {since : List Moment} {b : KeyView}

theorem nil (key : CorrelationKey) (b : KeyView) : LettersOf key [] b := ⟨rfl, Nat.zero_le 1, fun _ => rfl⟩

theorem step (h : LettersOf key since (x.view key)) (hf : x.repository.Follows s) (a : Action)
    (hadd : (x.moment env s a).adds key = false) :
    LettersOf key (since ++ [x.moment env s a]) ((x.act env s a).2.view key) := by
  have hdead (hk : key ∈ (x.moment env s a).deadLettered) :
      (x.view key).entry ≠ none ∧ ((x.act env s a).2.view key).entry = none :=
    (Site.keyStep hf env a key).entry_of_deadLettered hk
  obtain ⟨hletters, -⟩ := Site.letters_moment hf env a key
  refine ⟨?_, ?_, fun hs => ?_⟩
  · simp only [List.flatMap_append, List.flatMap_singleton, List.countP_append, List.countP_singleton,
      decide_eq_true_eq, h.sent, hletters]
    omega
  · rw [List.countP_append, List.countP_singleton]
    by_cases hk : key ∈ (x.moment env s a).deadLettered
    · have hzero := h.stored (hdead hk).1
      split <;> omega
    · rw [if_neg (by simpa using hk)]
      exact h.once
  · rw [List.countP_append, List.countP_singleton, if_neg (by simpa using fun hk => hs (hdead hk).2)]
    exact h.stored fun hb => hs (Site.entry_of_not_adds hf env a key hadd hb)

end LettersOf

/-- What all keys that a run leaves unsettled come to. -/
structure LettersCounted (env : Environment) (past : List Moment) (x : Site) : Prop where
  keys : ∀ key, LettersOf key (sinceAdd key past) (x.view key)
  total : x.repository.deadLettered + (past.flatMap (·.unsettled)).length = x.world.accepted.length
  healthy : env.Healthy → ∀ m ∈ past, m.unsettled = []

theorem LettersCounted.step {env : Environment} {s : Setup} {past : List Moment} {x : Site}
    (h : LettersCounted env past x) (hf : x.repository.Follows s) (a : Action) :
    LettersCounted env (past ++ [x.moment env s a]) (x.act env s a).2 := by
  refine ⟨fun key => ?_, ?_, fun hh m hm => ?_⟩
  · rw [sinceAdd_concat]
    cases hadd : (x.moment env s a).adds key with
    | true => exact .nil key _
    | false => exact (h.keys key).step hf a hadd
  · have htotal := h.total
    obtain ⟨-, hcounts⟩ := Site.act_counts hf env a
    rw [List.flatMap_append, List.flatMap_singleton, List.length_append]
    omega
  · rcases List.mem_append.1 hm with hm | hm
    · exact h.healthy hh m hm
    · obtain rfl := List.mem_singleton.1 hm
      exact List.eq_nil_iff_forall_not_mem.2 fun key hk => (Site.letters_moment hf env a key).2 hk hh

theorem letters_counted (env : Environment) (s : Setup) (m : Store) (actions : List Action) :
    LettersCounted env (Site.history env s { world := { store := m } } actions)
      (Site.run env s { world := { store := m } } actions) :=
  (Site.run_induction (x := { world := { store := m } })
    (P := fun past x => x.repository.Follows s ∧ LettersCounted env past x)
    ⟨Repository.follows_new s, fun key => .nil key _, rfl, fun _ m hm => by cases hm⟩
    (fun _ y a hy => ⟨hy.1.act env y.world a, hy.2.step hy.1 a⟩) actions).2

/--
The letters of every run, under any faults and any answers of the sink. Since the last add under a key that succeeded,
the sink has accepted one letter for every pass that listed the key as dead lettered and one for every pass that left
it unsettled; the former is at most one pass. The number of dead letters that the health tells lacks one letter for
each key that a pass left unsettled, and no others. Without faults no key is left unsettled.
-/
theorem dead_letters_accounted (env : Environment) (s : Setup) (m : Store) (actions : List Action) :
    let x := Site.run env s { world := { store := m } } actions
    let past := Site.history env s { world := { store := m } } actions
    (∀ key, ((sinceAdd key past).flatMap (·.letters)).countP (·.key = key) =
        (sinceAdd key past).countP (key ∈ ·.deadLettered) + (sinceAdd key past).countP (key ∈ ·.unsettled) ∧
      (sinceAdd key past).countP (key ∈ ·.deadLettered) ≤ 1) ∧
    (∃ counted, (x.repository.health s).metadata? "dead_lettered" = some (toString counted) ∧
      counted + (past.flatMap (·.unsettled)).length = x.world.accepted.length) ∧
    (env.Healthy → ∀ moment ∈ past, moment.unsettled = []) := by
  intro x past
  obtain ⟨hkeys, htotal, hhealthy⟩ := letters_counted env s m actions
  exact ⟨fun key => ⟨(hkeys key).sent, (hkeys key).once⟩, ⟨_, Repository.health_deadLettered _ s, htotal⟩, hhealthy⟩

/-- Without faults a key is dead lettered by one letter, and that is counted. -/
theorem dead_letter_of_healthy :
    let s : Setup := { config := { maximumRedeliveries := 0, deadLetterUri := some "direct:dead" }, hasSink := true }
    let actions : List Action :=
      [.start, .add ⟨"key"⟩ { id := "exchange" } (Exchange.fits_of_id (by decide)), .pass, .pass]
    let x := Site.run {} s {} actions
    let past := Site.history {} s {} actions
    ((sinceAdd ⟨"key"⟩ past).flatMap (·.letters)).countP (·.key = ⟨"key"⟩) = 1 ∧
      (x.repository.health s).metadata? "dead_lettered" = some "1" ∧ ∀ m ∈ past, m.unsettled = [] := by
  intro s actions x past
  obtain ⟨hkeys, ⟨counted, hhealth, htotal⟩, hsettled⟩ := dead_letters_accounted {} s {} actions
  have hone : (sinceAdd ⟨"key"⟩ past).countP (⟨"key"⟩ ∈ ·.deadLettered) = 1 := by decide +kernel
  have hnone : (sinceAdd ⟨"key"⟩ past).countP (⟨"key"⟩ ∈ ·.unsettled) = 0 := by decide +kernel
  have hcounted : counted = 1 := by
    have haccepted : x.world.accepted.length = 1 := by decide +kernel
    have hlength : (past.flatMap (·.unsettled)).length = 0 := by decide +kernel
    replace htotal : counted + (past.flatMap (·.unsettled)).length = x.world.accepted.length := htotal
    rw [hlength, haccepted] at htotal
    exact htotal
  refine ⟨?_, ?_, hsettled fun _ => rfl⟩
  · rw [(hkeys ⟨"key"⟩).1, hone, hnone]
  · rw [hhealth, hcounted]
    rfl

/-- A removal that fails after the letter was accepted: the letter is not counted, and the key gets another one. -/
theorem dead_letter_sent_twice :
    let s : Setup := { config := { maximumRedeliveries := 0, deadLetterUri := some "direct:dead" }, hasSink := true }
    let env : Environment := { faults := fun n => if n = 4 then { failing := [(.remove, ⟨"key"⟩)] } else {} }
    let actions : List Action :=
      [.start, .add ⟨"key"⟩ { id := "exchange" } (Exchange.fits_of_id (by decide)), .pass, .pass]
    let x := Site.run env s {} actions
    let past := Site.history env s {} actions
    ((sinceAdd ⟨"key"⟩ past).flatMap (·.letters)).countP (·.key = ⟨"key"⟩) = 2 ∧ x.world.accepted.length = 2 ∧
      (x.repository.health s).metadata? "dead_lettered" = some "1" := by
  decide +kernel

end DurableAggregates
