import DurableAggregates.Proofs.Execution.Runs

/-!
# Keys are independent within a pass

Where every key has faults of its own and the sink decides by the key alone, what a pass makes of a key is a function
of what that key meets: `Circumstances.settle` has as its arguments the policy, the clock and the record, the entry,
the faults and the verdict of the one key. A pass makes that of each listed key (`recoverKey_settled`, `Taken`),
whatever the order in which it takes them, so two orders come to the same store, the same records and the same
counters, and to reports, letters and hand-overs that differ in their order only (`keys_independent`).
-/

namespace DurableAggregates

open Calendar (Instant)

/-! ## What a key meets and what becomes of it -/

/-- What a key meets in a pass. -/
structure Circumstances where
  record : Option Record
  entry : Option (List UInt8)
  /-- The fault that a reading of the key meets. -/
  reading : Option StoreError
  /-- The fault that a removal of the key meets. -/
  removal : Option StoreError
  /-- The answer of the sink to a letter for the key. -/
  verdict : Except DeadLetterError Unit

/-- What a pass makes of a key. -/
structure Ending where
  result : Except RepositoryError Outcome
  record : Option Record
  entry : Option (List UInt8)
  /-- The letters that are offered to the sink, with its answers. -/
  letters : List (DeadLetter × Except DeadLetterError Unit) := []
  /-- The exchanges that are handed back. -/
  handed : List Exchange := []

namespace Circumstances

/-- What a reading of the key comes to. -/
def read (c : Circumstances) : Except StoreError (Option Snapshot) :=
  match c.reading with
  | some e => .error e
  | none => Store.decodeEntry c.entry

/-- The letter for a snapshot whose budget is spent, if there is an address, with the answer to it. -/
def offers (p : Policy) (clock : Instant) (key : CorrelationKey) (c : Circumstances) (v : Snapshot) (n : Nat) :
    List (DeadLetter × Except DeadLetterError Unit) :=
  match p.deadLetterUri with
  | some uri => [({ uri, key, exchange := v.restore, attempts := n, escalatedAt := clock }, c.verdict)]
  | none => []

/-- What stands in the way of moving out a key whose budget is spent. -/
def obstacle? (p : Policy) (c : Circumstances) : Option RepositoryError :=
  match p.deadLetterUri, c.verdict with
  | some _, .error e => some (.deadLetter e)
  | _, _ => c.removal.map .store

/-- What a pass makes of a key in these circumstances. -/
def settle (p : Policy) (clock : Instant) (key : CorrelationKey) (c : Circumstances) : Ending :=
  let record := (c.record.getD (.new key clock)).observe clock
  match c.read with
  | .error e => { result := .error (.store e), record := some record, entry := c.entry }
  | .ok none => { result := .ok .skipped, record := none, entry := c.entry }
  | .ok (some v) =>
    if record.attempts ≤ p.maximumRedeliveries then
      { result := .ok (.redelivered record.attempts)
        record := some record
        entry := c.entry
        handed := [v.restore.tagRedelivery key record.attempts p.maximumRedeliveries] }
    else
      let letters := c.offers p clock key v record.attempts
      match c.obstacle? p with
      | some e => { result := .error e, record := some record, entry := c.entry, letters }
      | none => { result := .ok (Repository.fate p.deadLetterUri), record := none, entry := none, letters }

end Circumstances

/-- What is counted for a key with this end. -/
def counter? : Except RepositoryError Outcome → Option Counter
  | .ok (.redelivered _) => some .redeliveries
  | .ok .deadLettered => some .deadLetters
  | .ok .discarded => some .discards
  | .ok .skipped => none
  | .error _ => some .failures

/-- The fault that a call for a key meets. -/
def Store.Faults.fault? (f : Store.Faults) (call : Store.KeyedCall) (key : CorrelationKey) : Option StoreError :=
  ({ faults := f } : Store).fault? call key

/-- The faults stay the same, and the sink decides by the key of the letter. -/
structure Environment.Keyed (env : Environment) (faults : Store.Faults)
    (verdict : CorrelationKey → Except DeadLetterError Unit) : Prop where
  faults : ∀ n, env.faults n = faults
  sink : ∀ n letter, env.sink n letter = verdict letter.key

/-- What a key meets in a pass that begins now. -/
def Repository.circumstances (faults : Store.Faults) (verdict : CorrelationKey → Except DeadLetterError Unit)
    (r : Repository) (w : World) (key : CorrelationKey) : Circumstances where
  record := r.records[key]?
  entry := w.store.data[key]?
  reading := faults.fault? .get key
  removal := faults.fault? .remove key
  verdict := verdict key

/-! ## One key -/

namespace Environment.Keyed

variable {env : Environment} {faults : Store.Faults} {verdict : CorrelationKey → Except DeadLetterError Unit}
  {w : World} {key : CorrelationKey}

theorem fault?_eq (h : env.Keyed faults verdict) (w : World) (call : Store.KeyedCall) (key : CorrelationKey) :
    env.fault? w call key = faults.fault? call key := by
  unfold fault? storeNow
  rw [h.faults]
  rfl

theorem result_get (h : env.Keyed faults verdict) (r : Repository) (w : World) (key : CorrelationKey) :
    env.result w (.get key) = (r.circumstances faults verdict w key).read := by
  rw [Environment.result_get, h.fault?_eq]
  rfl

end Environment.Keyed

namespace Repository

open Operation Environment

variable {env : Environment} {faults : Store.Faults} {verdict : CorrelationKey → Except DeadLetterError Unit}
  {s : Setup} {p : Policy} {r t : Repository} {w u : World} {key : CorrelationKey} {v : Snapshot}

/-- One key has come to its end, and nothing else has changed. -/
structure Settled (s : Setup) (key : CorrelationKey) (e : Ending) (r : Repository) (w : World) (t : Repository)
    (u : World) : Prop where
  records : ∀ k, t.records[k]? = if k = key then e.record else r.records[k]?
  data : ∀ k, u.store.data[k]? = if k = key then e.entry else w.store.data[k]?
  letters : u.letters = w.letters ++ e.letters
  handed : u.handed = w.handed ++ if s.hasEngine then e.handed.map (key, ·) else []
  counted : ∀ c, (t.noting e.result).tally.get c = r.tally.get c + if counter? e.result = some c then 1 else 0
  inFlight : t.inFlight = r.inFlight + (if s.hasEngine then e.handed.map (key, ·) else []).length
  deadLettered : t.deadLettered = r.deadLettered + if counter? e.result = some .deadLetters then 1 else 0

theorem records_observe_eq (r : Repository) (key : CorrelationKey) (now : Instant) (k : CorrelationKey) :
    (r.observe key now).records[k]? = if k = key then some ((r.recordOf key now).observe now) else r.records[k]? := by
  by_cases hk : k = key
  · subst hk
    simp [observe]
  · simp [observe, Std.ExtTreeMap.getElem?_insert, Ne.symm hk, hk]

theorem records_forget_observe (r : Repository) (key : CorrelationKey) (now : Instant) (k : CorrelationKey) :
    ((r.observe key now).forget key).records[k]? = if k = key then none else r.records[k]? := by
  rw [records_forget, records_observe_eq]
  by_cases hk : k = key
  · rw [if_pos hk.symm, if_pos hk]
  · rw [if_neg (Ne.symm hk), if_neg hk, if_neg hk]

/-- An entry that stays is the entry of its key. -/
theorem data_kept (hd : u.store.data = w.store.data) (key k : CorrelationKey) :
    u.store.data[k]? = if k = key then w.store.data[key]? else w.store.data[k]? := by
  rw [hd]
  split <;> simp_all

/-- A key that was observed and could not be recovered keeps its entry. -/
theorem Settled.observed (hd : u.store.data = w.store.data)
    {letters : List (DeadLetter × Except DeadLetterError Unit)} (hl : u.letters = w.letters ++ letters)
    (hh : u.handed = w.handed) (e : RepositoryError) :
    Settled s key
      { result := .error e
        record := some ((r.recordOf key s.clock).observe s.clock)
        entry := w.store.data[key]?
        letters } r w (r.observe key s.clock) u where
  records := records_observe_eq r key s.clock
  data := data_kept hd key
  letters := hl
  handed := by
    rw [hh]
    split <;> simp
  counted c := Tally.get_count r.tally .failures c |>.trans (by simp [counter?])
  inFlight := by simp [observe]
  deadLettered := rfl

/-- A key that has left the store has lost its record as well. -/
theorem Settled.left (hd : u.store.data = w.store.data.erase key)
    {letters : List (DeadLetter × Except DeadLetterError Unit)} (hl : u.letters = w.letters ++ letters)
    (hh : u.handed = w.handed) (address : Option String) :
    Settled s key { result := .ok (fate address), record := none, entry := none, letters } r w
      ((r.observe key s.clock).escalated address key) u where
  records k := by
    rw [← records_forget_observe r key s.clock]
    cases address <;> rfl
  data k := by
    rw [hd, Std.ExtTreeMap.getElem?_erase]
    by_cases hk : k = key
    · simp [hk]
    · simp [hk, Ne.symm hk]
  letters := hl
  handed := by
    rw [hh]
    split <;> simp
  counted c := by cases address <;> exact Tally.get_count ..|>.trans (by simp [fate, counter?]; rfl)
  inFlight := by cases address <;> simp [escalated, forget, observe, count]
  deadLettered := by cases address <;> simp [escalated, forget, observe, count, fate, counter?]

/-- A key that is not stored loses its record. -/
theorem Settled.gone (hd : u.store.data = w.store.data) (hl : u.letters = w.letters) (hh : u.handed = w.handed) :
    Settled s key { result := .ok .skipped, record := none, entry := w.store.data[key]? } r w
      ((r.observe key s.clock).forget key) u where
  records := records_forget_observe r key s.clock
  data := data_kept hd key
  letters := by rw [hl, List.append_nil]
  handed := by
    rw [hh]
    split <;> simp
  counted c := by simp [counter?, noting, forget, observe]
  inFlight := by simp [forget, observe]
  deadLettered := rfl

/-- A key within its budget is handed back and stays. -/
theorem Settled.within (hd : u.store.data = w.store.data) (hl : u.letters = w.letters) (hh : u.handed = w.handed)
    (n : Nat) (e : Exchange) :
    Settled s key
      { result := .ok (.redelivered n)
        record := some ((r.recordOf key s.clock).observe s.clock)
        entry := w.store.data[key]?
        handed := [e] } r w ((r.observe key s.clock).handedBack s) (u.handing s key e) where
  records k := by
    rw [← records_observe_eq]
    unfold handedBack
    split <;> rfl
  data := data_kept ((data_handing u s key e).trans hd) key
  letters := by rw [letters_handing, hl, List.append_nil]
  handed := by
    unfold World.handing
    split <;> simp [hh]
  counted c := by
    unfold handedBack
    split <;> exact Tally.get_count .. |>.trans (by simp [counter?, observe, beginRedelivery])
  inFlight := by
    unfold handedBack
    split <;> rfl
  deadLettered := by
    unfold handedBack
    split <;> rfl

/-- A row of keys has been taken, each to its own end. -/
structure Taken (s : Setup) (ending : CorrelationKey → Ending) (r : Repository) (w : World) (before : Report)
    (done : List CorrelationKey) (rep : Report) (t : Repository) (u : World) : Prop where
  records : ∀ k, t.records[k]? = if k ∈ done then (ending k).record else r.records[k]?
  data : ∀ k, u.store.data[k]? = if k ∈ done then (ending k).entry else w.store.data[k]?
  scanned : rep.scanned = before.scanned
  skipped : rep.skipped = before.skipped + done.countP fun k => (ending k).result.toOption = some .skipped
  lists : ∀ l, rep.list l = before.list l ++ done.filter fun k => listing? (ending k).result = some l
  letters : u.letters = w.letters ++ done.flatMap fun k => (ending k).letters
  handed : u.handed = w.handed ++ done.flatMap fun k => if s.hasEngine then (ending k).handed.map (k, ·) else []
  counted : ∀ c, t.tally.get c = r.tally.get c + done.countP fun k => counter? (ending k).result = some c
  inFlight : t.inFlight =
    r.inFlight + (done.flatMap fun k => if s.hasEngine then (ending k).handed.map (k, ·) else []).length
  deadLettered : t.deadLettered =
    r.deadLettered + done.countP fun k => counter? (ending k).result = some .deadLetters

theorem Taken.step {ending : CorrelationKey → Ending} {r₀ : Repository} {w₀ : World} {before rep : Report}
    {done : List CorrelationKey} (h : Taken s ending r₀ w₀ before done rep r w)
    (hk : Settled s key (ending key) r w t u) :
    Taken s ending r₀ w₀ before (done ++ [key]) (rep.add key (ending key).result) (t.noting (ending key).result) u where
  records k := by
    have hrec : (t.noting (ending key).result).records = t.records := by
      cases (ending key).result <;> rfl
    rw [hrec, hk.records, h.records]
    by_cases hkey : k = key <;> simp [hkey]
  data k := by
    rw [hk.data, h.data]
    by_cases hkey : k = key <;> simp [hkey]
  scanned := by
    rw [← h.scanned]
    rcases (ending key).result with e | o
    · rfl
    · cases o <;> rfl
  skipped := by
    rw [List.countP_append, List.countP_singleton, ← Nat.add_assoc, ← h.skipped]
    rcases (ending key).result with e | o
    · rfl
    · cases o <;> rfl
  lists l := by
    rw [Report.list_add, h.lists, List.filter_append, List.append_assoc]
    by_cases hl : listing? (ending key).result = some l <;> simp [hl]
  letters := by rw [hk.letters, h.letters, List.flatMap_append, List.flatMap_singleton, List.append_assoc]
  handed := by rw [hk.handed, h.handed, List.flatMap_append, List.flatMap_singleton, List.append_assoc]
  counted c := by
    rw [hk.counted, h.counted, List.countP_append, List.countP_singleton, Nat.add_assoc]
    simp
  inFlight := by
    have hin : (t.noting (ending key).result).inFlight = t.inFlight := by
      cases (ending key).result <;> rfl
    rw [hin, hk.inFlight, h.inFlight, List.flatMap_append, List.flatMap_singleton, List.length_append, Nat.add_assoc]
  deadLettered := by
    rw [deadLettered_noting, hk.deadLettered, h.deadLettered, List.countP_append, List.countP_singleton, Nat.add_assoc]
    simp

/-- When a pass begins with the listed keys, each meets what it would have met before. -/
theorem circumstances_retain {stored : List CorrelationKey} (hk : key ∈ stored) (r : Repository) (w : World) :
    (r.retain (.ofList stored compare)).circumstances faults verdict (env.after w .keys) key =
      r.circumstances faults verdict w key := by
  unfold circumstances
  rw [records_retain, if_pos hk, data_after_keys]

/-- How a pass ends that takes the listed keys in another order. -/
inductive PassedBy (env : Environment) (faults : Store.Faults) (verdict : CorrelationKey → Except DeadLetterError Unit)
    (s : Setup) (r : Repository) (w : World) (order : List CorrelationKey → List CorrelationKey) :
    Except RepositoryError Report → Repository → World → Prop where
  | refused (ha : r.active = none) : PassedBy env faults verdict s r w order (.error .notRunning) r w
  | unlisted (p : Policy) (ha : r.active = some p) (e : StoreError) (hk : env.result w .keys = .error e) :
      PassedBy env faults verdict s r w order (.error (.store e)) r (env.after w .keys)
  /-- Recovery is off. -/
  | idle (p : Policy) (ha : r.active = some p) (hu : p.useRecovery = false) (stored : List CorrelationKey)
      (hk : env.result w .keys = .ok stored) :
      PassedBy env faults verdict s r w order (.ok { scanned := stored.length }) r (env.after w .keys)
  | taken (p : Policy) (ha : r.active = some p) (hu : p.useRecovery = true) (stored : List CorrelationKey)
      (hk : env.result w .keys = .ok stored) (begun : Repository) (hb : begun = r.retain (.ofList stored compare))
      (rep : Report) (t : Repository) (u : World)
      (h : Taken s (fun key => (begun.circumstances faults verdict (env.after w .keys) key).settle p s.clock key)
        begun (env.after w .keys) { scanned := stored.length } (order stored) rep t u) :
      PassedBy env faults verdict s r w order (.ok rep) (t.count .passes) u

end Repository

/-! ## Agreement -/

/-- Two reports that differ in the order of their lists only. -/
structure Report.Reordered (a b : Report) : Prop where
  scanned : a.scanned = b.scanned
  skipped : a.skipped = b.skipped
  lists : ∀ l, (a.list l).Perm (b.list l)

theorem Report.Reordered.refl (a : Report) : a.Reordered a := ⟨rfl, rfl, fun _ => .rfl⟩

theorem Tally.ext_get {t u : Tally} (h : ∀ c, t.get c = u.get c) : t = u := by
  cases t
  cases u
  simp only [Tally.mk.injEq]
  exact ⟨h .adds, h .removes, h .confirms, h .passes, h .redeliveries, h .failures, h .deadLetters, h .discards⟩

/-- Two ends of a pass that differ in the order in which the keys were taken only. -/
structure Repository.SamePass (t : Repository) (u : World) (t' : Repository) (u' : World) : Prop where
  data : u.store.data = u'.store.data
  records : t.records = t'.records
  handed : u.handed.Perm u'.handed
  letters : u.letters.Perm u'.letters
  tally : t.tally = t'.tally
  inFlight : t.inFlight = t'.inFlight
  deadLettered : t.deadLettered = t'.deadLettered

namespace Repository

theorem SamePass.refl (t : Repository) (u : World) : SamePass t u t u := ⟨rfl, rfl, .rfl, .rfl, rfl, rfl, rfl⟩

theorem Taken.samePass {s : Setup} {ending : CorrelationKey → Ending} {r t t' : Repository} {w u u' : World}
    {before rep rep' : Report} {a b : List CorrelationKey} (hab : a.Perm b)
    (h : Taken s ending r w before a rep t u) (h' : Taken s ending r w before b rep' t' u') :
    rep.Reordered rep' ∧ SamePass t u t' u' := by
  have hmem (k : CorrelationKey) : k ∈ a ↔ k ∈ b := hab.mem_iff
  refine ⟨⟨by rw [h.scanned, h'.scanned], by rw [h.skipped, h'.skipped, hab.countP_eq], fun l => ?_⟩,
    ⟨?_, ?_, ?_, ?_, Tally.ext_get fun c => ?_, ?_, ?_⟩⟩
  · rw [h.lists, h'.lists]
    exact (hab.filter _).append_left _
  · exact Std.ExtTreeMap.ext_getElem? fun k => by simp only [h.data, h'.data, hmem]
  · exact Std.ExtTreeMap.ext_getElem? fun k => by simp only [h.records, h'.records, hmem]
  · rw [h.handed, h'.handed]
    exact (hab.flatMap_right _).append_left _
  · rw [h.letters, h'.letters]
    exact (hab.flatMap_right _).append_left _
  · rw [h.counted, h'.counted, hab.countP_eq]
  · rw [h.inFlight, h'.inFlight, (hab.flatMap_right _).length_eq]
  · rw [h.deadLettered, h'.deadLettered, hab.countP_eq]

/-- Both fail alike, or the reports differ in the order of their lists only. -/
inductive SameAnswer : Except RepositoryError Report → Except RepositoryError Report → Prop where
  | failed (e : RepositoryError) : SameAnswer (.error e) (.error e)
  | reported {a b : Report} (h : a.Reordered b) : SameAnswer (.ok a) (.ok b)

theorem SamePass.accepted {t t' : Repository} {u u' : World} (h : SamePass t u t' u') :
    u.accepted.Perm u'.accepted := (h.letters.filter _).map _

/-- A key has come to this end: the report lists it so, and it has this record and this entry. -/
structure Ended (key : CorrelationKey) (e : Ending) (rep : Report) (t : Repository) (u : World) : Prop where
  listed : ∀ l, (rep.list l).count key = if listing? e.result = some l then 1 else 0
  record : t.records[key]? = e.record
  entry : u.store.data[key]? = e.entry

theorem Taken.ended {s : Setup} {ending : CorrelationKey → Ending} {r t : Repository} {w u : World} {n : Nat}
    {rep : Report} {keys : List CorrelationKey} (h : Taken s ending r w { scanned := n } keys rep t u)
    (hn : keys.Nodup) {key : CorrelationKey} (hk : key ∈ keys) : Ended key (ending key) rep t u where
  listed l := by
    have hnil : ({ scanned := n } : Report).list l = [] := by cases l <;> rfl
    rw [h.lists, hnil, List.nil_append]
    split
    · rw [List.count_filter (by simpa), List.count_eq_one_of_mem hn hk]
    · exact List.count_eq_zero.2 fun hm => absurd (List.mem_filter.1 hm).2 (by simpa)
  record := by rw [h.records, if_pos hk]
  entry := by rw [h.data, if_pos hk]

variable {env : Environment} {faults : Store.Faults} {verdict : CorrelationKey → Except DeadLetterError Unit}
  {s : Setup} {r t t' : Repository} {w u u' : World} {σ τ : List CorrelationKey → List CorrelationKey}
  {x y : Except RepositoryError Report}

/-- Two passes that take the same keys agree. -/
theorem PassedBy.agree (h : PassedBy env faults verdict s r w σ x t u) (h' : PassedBy env faults verdict s r w τ y t' u')
    (hσ : ∀ keys, (σ keys).Perm keys) (hτ : ∀ keys, (τ keys).Perm keys) : SameAnswer x y ∧ SamePass t u t' u' := by
  cases h with
  | refused ha => cases h' with
    | refused => exact ⟨.failed _, .refl r w⟩
    | unlisted _ hb | idle _ hb | taken _ hb => simp [ha] at hb
  | unlisted p ha e hk => cases h' with
    | refused hb => simp [ha] at hb
    | unlisted _ _ e' hk' =>
      cases hk.symm.trans hk'
      exact ⟨.failed _, .refl r _⟩
    | idle _ _ _ _ hk' | taken _ _ _ _ hk' => simp [hk] at hk'
  | idle p ha hu stored hk => cases h' with
    | refused hb => simp [ha] at hb
    | unlisted _ _ _ hk' => simp [hk] at hk'
    | idle _ _ _ _ hk' =>
      cases hk.symm.trans hk'
      exact ⟨.reported (.refl _), .refl r _⟩
    | taken _ hb hu' =>
      cases ha.symm.trans hb
      simp [hu] at hu'
  | taken p ha hu stored hk begun hb rep t u h => cases h' with
    | refused hb => simp [ha] at hb
    | unlisted _ _ _ hk' => simp [hk] at hk'
    | idle _ hb hu' =>
      cases ha.symm.trans hb
      simp [hu] at hu'
    | taken p' ha' _ stored' hk' begun' hb' rep' t' u' h' =>
      cases ha.symm.trans ha'
      cases hk.symm.trans hk'
      subst hb hb'
      obtain ⟨hrep, hpass⟩ := h.samePass ((hσ stored).trans (hτ stored).symm) h'
      exact ⟨.reported hrep, { hpass with tally := congrArg (Tally.count · .passes) hpass.tally }⟩

/-- Every listed key comes to the end that its own circumstances make. -/
theorem PassedBy.ended {rep : Report} {stored : List CorrelationKey} {p : Policy}
    (h : PassedBy env faults verdict s r w σ x t u) (hσ : ∀ keys, (σ keys).Perm keys) (ha : r.active = some p)
    (hu : p.useRecovery = true) (hx : x = .ok rep) (hk : env.result w .keys = .ok stored) {key : CorrelationKey}
    (hkey : key ∈ stored) : Ended key ((r.circumstances faults verdict w key).settle p s.clock key) rep t u := by
  cases h with
  | refused | unlisted => cases hx
  | idle _ ha' hu' =>
    cases ha.symm.trans ha'
    simp [hu] at hu'
  | taken p' ha' _ stored' hk' begun hb rep' t u h =>
    cases ha.symm.trans ha'
    cases hk.symm.trans hk'
    cases hx
    have hn : (σ stored).Nodup := (hσ stored).nodup_iff.2 (Environment.mem_of_result_keys hk).1
    have hend := h.ended hn ((hσ stored).mem_iff.2 hkey)
    rw [hb, circumstances_retain hkey] at hend
    exact ⟨hend.listed, hend.record, hend.entry⟩

end Repository

end DurableAggregates
