import DurableAggregates.Proofs.Execution.Recovering

/-!
# What a pass does with every key

A `KeyView` is what concerns one key: its entry, its record, its letters and its hand-overs. Recovering a key leaves
the views of all others alone, and a pass meets every listed key once. So for every key a whole pass comes to a single
step between views, and `KeyPass` has the cases of that step (`pass_exec`). Where the report lists the key belongs to
the step.
-/

namespace DurableAggregates

structure KeyView where
  entry : Option (List UInt8)
  record : Option Record
  /-- The letters for the key with the answers to them. -/
  letters : List (DeadLetter × Except DeadLetterError Unit)
  handed : List (CorrelationKey × Exchange)

/-- What concerns the key. -/
def Repository.view (r : Repository) (w : World) (key : CorrelationKey) : KeyView where
  entry := w.store.data[key]?
  record := r.records[key]?
  letters := w.letters.filter (·.1.key = key)
  handed := w.handed.filter (·.1 = key)

/-- The number of the attempt that the next pass makes. -/
def KeyView.next (b : KeyView) : Nat := min (b.record.elim 0 Record.attempts + 1) Record.limit

/-! ## Where a report lists a key -/

inductive Listing where
  | redelivered
  | deadLettered
  | discarded
  | failed
  deriving DecidableEq

def Report.list (rep : Report) : Listing → List CorrelationKey
  | .redelivered => rep.redelivered
  | .deadLettered => rep.deadLettered
  | .discarded => rep.discarded
  | .failed => rep.failed

/-- Where a key with this end is listed. -/
def listing? : Except RepositoryError Outcome → Option Listing
  | .ok (.redelivered _) => some .redelivered
  | .ok .deadLettered => some .deadLettered
  | .ok .discarded => some .discarded
  | .ok .skipped => none
  | .error _ => some .failed

/-- The report with the end of one more key. -/
def Report.add (rep : Report) (key : CorrelationKey) : Except RepositoryError Outcome → Report
  | .ok o => rep.record key o
  | .error _ => rep.recordFailure key

theorem Report.list_add (rep : Report) (key : CorrelationKey) (x : Except RepositoryError Outcome) (l : Listing) :
    (rep.add key x).list l = rep.list l ++ if listing? x = some l then [key] else [] := by
  rcases x with e | o
  · cases l <;> simp [add, recordFailure, list, listing?]
  · cases o <;> cases l <;> simp [add, record, list, listing?]

theorem Report.count_add (rep : Report) (key k : CorrelationKey) (x : Except RepositoryError Outcome) (l : Listing) :
    ((rep.add key x).list l).count k = (rep.list l).count k + if key = k ∧ listing? x = some l then 1 else 0 := by
  rw [list_add, List.count_append]
  by_cases hl : listing? x = some l <;> simp [hl, List.count_singleton]

theorem Report.mem_list_add (rep : Report) {key : CorrelationKey} {l : Listing} (h : key ∈ rep.list l)
    (k : CorrelationKey) (x : Except RepositoryError Outcome) : key ∈ (rep.add k x).list l := by
  rw [← List.count_pos_iff] at h ⊢
  rw [count_add]
  omega

namespace Repository

open Operation Environment

variable {env : Environment} {s : Setup} {r : Repository} {w : World} {p : Policy} {key : CorrelationKey}

/-! ## Frames -/

theorem Recovered.active {x : Except RepositoryError Outcome} {t : Repository} {u : World}
    (h : Recovered env s p key r w x t u) : t.active = r.active := by
  cases h with
  | handed => unfold handedBack; split <;> rfl
  | moved => unfold escalated; split <;> rfl
  | unread | gone | refused | kept => rfl

theorem records_observe_of_ne {k : CorrelationKey} (hk : k ≠ key) :
    (r.observe key s.clock).records[k]? = r.records[k]? := by
  simp [observe, Std.ExtTreeMap.getElem?_insert, hk.symm]

theorem filter_letters_escalating_of_ne {k : CorrelationKey} (hk : k ≠ key) (address : Option String) (e : Exchange)
    (n : Nat) : (env.escalating w s address key e n).letters.filter (·.1.key = k) =
      w.letters.filter (·.1.key = k) := by
  cases address with
  | none => rfl
  | some uri => simp [escalating, offering, Setup.letter, hk.symm]

theorem data_escalating (address : Option String) (e : Exchange) (n : Nat) :
    (env.escalating w s address key e n).store.data = w.store.data := by
  cases address <;> rfl

theorem handed_escalating (address : Option String) (e : Exchange) (n : Nat) :
    (env.escalating w s address key e n).handed = w.handed := by
  cases address <;> rfl

@[simp] theorem data_handing (w : World) (s : Setup) (key : CorrelationKey) (e : Exchange) :
    (w.handing s key e).store.data = w.store.data := by
  unfold World.handing
  split <;> rfl

@[simp] theorem letters_handing (w : World) (s : Setup) (key : CorrelationKey) (e : Exchange) :
    (w.handing s key e).letters = w.letters := by
  unfold World.handing
  split <;> rfl

theorem filter_handed_handing_of_ne {k : CorrelationKey} (hk : k ≠ key) (e : Exchange) :
    (w.handing s key e).handed.filter (·.1 = k) = w.handed.filter (·.1 = k) := by
  unfold World.handing
  split
  · simp [hk.symm]
  · rfl

theorem view_eq {t : Repository} {u : World} {k : CorrelationKey} (hd : u.store.data[k]? = w.store.data[k]?)
    (hr : t.records[k]? = r.records[k]?) (hl : u.letters.filter (·.1.key = k) = w.letters.filter (·.1.key = k))
    (hh : u.handed.filter (·.1 = k) = w.handed.filter (·.1 = k)) : t.view u k = r.view w k := by
  rw [view, view, hd, hr, hl, hh]

/-- The recovery of a key does not concern the others. -/
theorem Recovered.frame {x : Except RepositoryError Outcome} {t : Repository} {u : World}
    (h : Recovered env s p key r w x t u) {k : CorrelationKey} (hk : k ≠ key) : t.view u k = r.view w k := by
  have hobs := records_observe_of_ne (r := r) (s := s) hk
  have hforget := (records_forget_of_ne (r := r.observe key s.clock) hk).trans hobs
  cases h with
  | unread e hg => exact view_eq (by rw [data_after_get]) hobs rfl rfl
  | gone hg => exact view_eq (by rw [data_after_get]) hforget rfl rfl
  | handed v hg hn =>
    refine view_eq (by rw [data_handing, data_after_get]) ?_ (by rw [letters_handing, letters_after])
      (filter_handed_handing_of_ne hk _)
    unfold handedBack
    split <;> exact hobs
  | refused v hg hn uri ha e hv =>
    exact view_eq (by show (env.after w (.get key)).store.data[k]? = _; rw [data_after_get]) hobs
      (filter_letters_escalating_of_ne hk (some uri) v.restore (r.nextAttempt key)) rfl
  | kept hf v hg hn hv e u hu =>
    refine view_eq ?_ hobs ?_ ?_
    · rw [hu.data, data_escalating, data_after_get]
    · rw [hu.letters, filter_letters_escalating_of_ne hk]
      rfl
    · rw [hu.handed, handed_escalating]
      rfl
  | moved v hg hn hv u hd hl hh =>
    refine view_eq ?_ ?_ ?_ (by rw [hh])
    · rw [hd]
      simp [Std.ExtTreeMap.getElem?_erase, hk.symm]
    · unfold escalated
      split <;> exact hforget
    · rw [hl, filter_letters_escalating_of_ne hk]
      rfl

/-! ## One key -/

/-- The letter that the sink accepts for a key, if there is an address. -/
def accepted (s : Setup) (p : Policy) (key : CorrelationKey) (v : Snapshot) (n : Nat) :
    List (DeadLetter × Except DeadLetterError Unit) :=
  match sinkAddress? s p with
  | some uri => [(s.letter uri key v.restore n, .ok ())]
  | none => []

/-- Where a key whose budget is spent is listed. -/
def lastListing (s : Setup) (p : Policy) : Listing :=
  match sinkAddress? s p with
  | some _ => .deadLettered
  | none => .discarded

/-- The exchange of a key as it is handed back. -/
def handBacks (s : Setup) (p : Policy) (key : CorrelationKey) (v : Snapshot) (n : Nat) :
    List (CorrelationKey × Exchange) :=
  if s.hasEngine then [(key, v.restore.tagRedelivery key n p.maximumRedeliveries)] else []

end Repository

open Repository in
/-- What a completed pass does with a key: where it lists the key and the view that it leaves. -/
inductive KeyPass (env : Environment) (s : Setup) (p : Policy) (key : CorrelationKey) (b : KeyView) :
    Option Listing → KeyView → Prop where
  /-- Nothing is stored. -/
  | absent (he : b.entry = none) : KeyPass env s p key b none { b with record := none }
  /-- The entry cannot be read; without faults it stands for no snapshot. -/
  | unread (hf : env.Healthy → ∃ bytes f, b.entry = some bytes ∧ Snapshot.decode bytes = .error f) (record : Record)
      (hr : record.attempts = b.next) : KeyPass env s p key b (some .failed) { b with record := some record }
  | handed (bytes : List UInt8) (v : Snapshot) (he : b.entry = some bytes) (hv : Snapshot.decode bytes = .ok v)
      (hn : b.next ≤ p.maximumRedeliveries) (record : Record) (hr : record.attempts = b.next) :
      KeyPass env s p key b (some .redelivered)
        { b with record := some record, handed := b.handed ++ handBacks s p key v b.next }
  | refused (bytes : List UInt8) (v : Snapshot) (he : b.entry = some bytes) (hv : Snapshot.decode bytes = .ok v)
      (hn : p.maximumRedeliveries < b.next) (hf : ¬ env.Accepting) (letter : DeadLetter) (e : DeadLetterError)
      (record : Record) (hr : record.attempts = b.next)
      (hl : ∃ uri, sinkAddress? s p = some uri ∧ letter = s.letter uri key v.restore b.next) :
      KeyPass env s p key b (some .failed)
        { b with record := some record, letters := b.letters ++ [(letter, .error e)] }
  /-- The letter was accepted, and then the entry could not be removed. -/
  | kept (bytes : List UInt8) (v : Snapshot) (he : b.entry = some bytes) (hv : Snapshot.decode bytes = .ok v)
      (hn : p.maximumRedeliveries < b.next) (hf : ¬ env.Healthy) (record : Record) (hr : record.attempts = b.next) :
      KeyPass env s p key b (some .failed)
        { b with record := some record, letters := b.letters ++ accepted s p key v b.next }
  | moved (bytes : List UInt8) (v : Snapshot) (he : b.entry = some bytes) (hv : Snapshot.decode bytes = .ok v)
      (hn : p.maximumRedeliveries < b.next) (hf : sinkAddress? s p ≠ none → ¬ env.Refusing) :
      KeyPass env s p key b (some (lastListing s p))
        { b with entry := none, record := none, letters := b.letters ++ accepted s p key v b.next }

namespace Repository

open Operation Environment

variable {env : Environment} {s : Setup} {r : Repository} {w : World} {p : Policy} {key : CorrelationKey}

theorem filter_letters_escalating (v : Snapshot) (n : Nat)
    (hv : ∀ uri, sinkAddress? s p = some uri → env.verdict w (s.letter uri key v.restore n) = .ok ()) :
    (env.escalating w s (sinkAddress? s p) key v.restore n).letters.filter (·.1.key = key) =
      w.letters.filter (·.1.key = key) ++ accepted s p key v n := by
  unfold accepted
  cases ha : sinkAddress? s p with
  | none => simp [escalating]
  | some uri => simp [escalating, offering, Setup.letter, ← hv uri ha]

theorem filter_handed_handing (v : Snapshot) (n : Nat) :
    (w.handing s key (v.restore.tagRedelivery key n p.maximumRedeliveries)).handed.filter (·.1 = key) =
      w.handed.filter (·.1 = key) ++ handBacks s p key v n := by
  unfold World.handing handBacks
  split <;> simp

theorem listing?_fate : listing? (.ok (fate (sinkAddress? s p))) = some (lastListing s p) := by
  unfold fate lastListing
  cases sinkAddress? s p <;> rfl

/-- The recovery of a key is a step of its view. -/
theorem Recovered.keyPass {x : Except RepositoryError Outcome} {t : Repository} {u : World}
    (h : Recovered env s p key r w x t u) : KeyPass env s p key (r.view w key) (listing? x) (t.view u key) := by
  let record := (r.recordOf key s.clock).observe s.clock
  have hr : record.attempts = (r.view w key).next := attempts_observe_recordOf
  have hobs : (r.observe key s.clock).records[key]? = some record := records_observe
  have hforget (t : Repository) : (t.forget key).records[key]? = none := by simp [forget]
  cases h with
  | unread e hg =>
    have he : (r.observe key s.clock).view (env.after w (.get key)) key =
        { r.view w key with record := some record } := by
      simp only [view, hobs, data_after_get, letters_after, handed_after]
    rw [he]
    exact .unread (fun h => decode_of_result_get h hg) record hr
  | gone hg =>
    have he : ((r.observe key s.clock).forget key).view (env.after w (.get key)) key =
        { r.view w key with record := none } := by
      simp only [view, hforget, data_after_get, letters_after, handed_after]
    rw [he]
    exact .absent (data_of_result_get_none hg)
  | handed v hg hn =>
    obtain ⟨bytes, hb, hv⟩ := Store.snapshot?_eq_some.1 (snapshot?_of_result_get hg)
    have he : ((r.observe key s.clock).handedBack s).view ((env.after w (.get key)).handing s key
        (v.restore.tagRedelivery key (r.nextAttempt key) p.maximumRedeliveries)) key =
        { r.view w key with
          record := some record
          handed := (r.view w key).handed ++ handBacks s p key v (r.view w key).next } := by
      have hrec : ((r.observe key s.clock).handedBack s).records = (r.observe key s.clock).records := by
        unfold handedBack
        split <;> rfl
      have hk := data_handing (env.after w (.get key)) s key
        (v.restore.tagRedelivery key (r.nextAttempt key) p.maximumRedeliveries)
      simp only [view, hrec, hobs, hk, data_after_get, letters_handing, letters_after, filter_handed_handing,
        handed_after]
      rfl
    rw [he]
    exact .handed bytes v hb hv (show (r.view w key).next ≤ p.maximumRedeliveries from hn) record hr
  | refused v hg hn uri ha e hv =>
    obtain ⟨bytes, hb, hd⟩ := Store.snapshot?_eq_some.1 (snapshot?_of_result_get hg)
    let letter := s.letter uri key v.restore (r.nextAttempt key)
    have he : (r.observe key s.clock).view (env.offering (env.after w (.get key)) letter) key =
        { r.view w key with
          record := some record
          letters := (r.view w key).letters ++ [(letter, .error e)] } := by
      have hl : (env.offering (env.after w (.get key)) letter).letters.filter (·.1.key = key) =
          w.letters.filter (·.1.key = key) ++ [(letter, .error e)] := by
        show (w.letters ++ [(letter, env.verdict (env.after w (.get key)) letter)]).filter _ = _
        rw [hv]
        simp [letter, Setup.letter]
      have hk : (env.offering (env.after w (.get key)) letter).store.data = w.store.data := data_after_get
      simp only [view, hobs, hk, hl]
      rfl
    rw [he]
    refine .refused bytes v hb hd (show _ < (r.view w key).next from hn) (fun h => ?_) letter e record hr
      ⟨uri, ha, rfl⟩
    rw [verdict, h] at hv
    cases hv
  | kept hf v hg hn hv e u hu =>
    obtain ⟨bytes, hb, hd⟩ := Store.snapshot?_eq_some.1 (snapshot?_of_result_get hg)
    have he : (r.observe key s.clock).view u key =
        { r.view w key with
          record := some record
          letters := (r.view w key).letters ++ accepted s p key v (r.view w key).next } := by
      simp only [view, hobs, hu.data, data_escalating, data_after_get, hu.letters, filter_letters_escalating v _ hv,
        hu.handed, handed_escalating, letters_after, handed_after]
      rfl
    rw [he]
    exact .kept bytes v hb hd (show _ < (r.view w key).next from hn) hf record hr
  | moved v hg hn hv u hd hl hh =>
    obtain ⟨bytes, hb, hdec⟩ := Store.snapshot?_eq_some.1 (snapshot?_of_result_get hg)
    have he : ((r.observe key s.clock).escalated (sinkAddress? s p) key).view u key =
        { r.view w key with
          entry := none
          record := none
          letters := (r.view w key).letters ++ accepted s p key v (r.view w key).next } := by
      have hrec : ((r.observe key s.clock).escalated (sinkAddress? s p) key).records[key]? = none := by
        unfold escalated
        split <;> exact hforget _
      have hdata : u.store.data[key]? = none := by
        rw [hd]
        simp
      simp only [view, hrec, hdata, hl, filter_letters_escalating v _ hv, hh, letters_after]
      rfl
    rw [he, listing?_fate]
    refine .moved bytes v hb hdec (show _ < (r.view w key).next from hn) fun ha h => ?_
    obtain ⟨uri, ha⟩ := Option.ne_none_iff_exists'.1 ha
    obtain ⟨e, hrefused⟩ := h (env.after w (.get key)).moment (s.letter uri key v.restore (r.nextAttempt key))
    have haccepted := hv uri ha
    rw [verdict, hrefused] at haccepted
    cases haccepted

/-! ## All keys -/

/-- The failure of a key is counted. -/
def noting (r : Repository) : Except RepositoryError Outcome → Repository
  | .ok _ => r
  | .error _ => r.count .failures

@[simp] theorem active_noting (r : Repository) (x : Except RepositoryError Outcome) :
    (r.noting x).active = r.active := by
  cases x <;> rfl

@[simp] theorem deadLettered_noting (r : Repository) (x : Except RepositoryError Outcome) :
    (r.noting x).deadLettered = r.deadLettered := by
  cases x <;> rfl

@[simp] theorem index_noting (r : Repository) (x : Except RepositoryError Outcome) : (r.noting x).index = r.index := by
  cases x <;> rfl

@[simp] theorem view_noting (r : Repository) (x : Except RepositoryError Outcome) (w : World) (k : CorrelationKey) :
    (r.noting x).view w k = r.view w k := by
  cases x <;> rfl

theorem recoverNext_exec (rep : Report) {x : Except RepositoryError Outcome} {t : Repository} {u : World}
    (h : (recoverKey s p key).exec env r w = (x, t, u)) :
    Procedure.exec (recoverNext s p rep key) env r w = (rep.add key x, t.noting x, u) := by
  have hp : Procedure.exec (recoverKey s p key).run env r w = (x, t, u) := h
  simp only [recoverNext, Procedure.exec_bind, hp]
  cases x with
  | ok o => rfl
  | error e => rfl

/-- What holds before the first of a row of keys and is kept by the recovery of each key holds after the last. -/
theorem foldlM_exec {P : List CorrelationKey → Report → Repository → World → Prop}
    (hstep : ∀ done key rep r w x t u, key ∉ done → P done rep r w → (recoverKey s p key).exec env r w = (x, t, u) →
      P (done ++ [key]) (rep.add key x) (t.noting x) u)
    {keys : List CorrelationKey} (hn : keys.Nodup) {rep : Report} (h : P [] rep r w) :
    ∃ rep' t u, Procedure.exec (keys.foldlM (recoverNext s p) rep) env r w = (rep', t, u) ∧ P keys rep' t u := by
  suffices hgo : ∀ done rep r w, (done ++ keys).Nodup → P done rep r w →
      ∃ rep' t u, Procedure.exec (keys.foldlM (recoverNext s p) rep) env r w = (rep', t, u) ∧
        P (done ++ keys) rep' t u from hgo [] rep r w hn h
  clear hn h
  induction keys with
  | nil =>
    intro done rep r w _ h
    exact ⟨rep, r, w, rfl, by rwa [List.append_nil]⟩
  | cons key keys ih =>
    intro done rep r w hn h
    obtain ⟨⟨x, t, u⟩, he⟩ : ∃ y, (recoverKey s p key).exec env r w = y := ⟨_, rfl⟩
    have hkey : key ∉ done := fun hk => (List.nodup_append.1 hn).2.2 key hk key List.mem_cons_self rfl
    rw [List.append_cons] at hn
    obtain ⟨rep', t', u', he', h'⟩ := ih (done ++ [key]) _ _ _ hn (hstep done key rep r w x t u hkey h he)
    refine ⟨rep', t', u', ?_, ?_⟩
    · rw [List.foldlM_cons, Procedure.exec_bind, recoverNext_exec rep he]
      exact he'
    · rwa [List.append_cons]

theorem foldlM_induction {P : List CorrelationKey → Report → Repository → World → Prop}
    (hs : s.config.useRecovery = true)
    (hstep : ∀ done key rep r w x t u, key ∉ done → P done rep r w → Recovered env s p key r w x t u →
      P (done ++ [key]) (rep.add key x) (t.noting x) u)
    {keys : List CorrelationKey} (hn : keys.Nodup) {rep : Report} (h : P [] rep r w) :
    ∃ rep' t u, Procedure.exec (keys.foldlM (recoverNext s p) rep) env r w = (rep', t, u) ∧ P keys rep' t u := by
  refine foldlM_exec (fun done key rep r w x t u hkey h he => ?_) hn h
  obtain ⟨x', t', u', he', hr⟩ := recoverKey_exec env p r w key hs
  rw [he] at he'
  cases he'
  exact hstep done key rep r w x t u hkey h hr

/--
A pass fails where the keys cannot be listed, it ends at once where recovery is off, and otherwise it drops what is
known of other keys and recovers those that are listed, each once.
-/
theorem pass_induction (env : Environment) (w : World)
    {P : List CorrelationKey → Report → Repository → World → Prop} (ha : r.active = some p)
    (hs : p.useRecovery = s.config.useRecovery)
    (hstep : ∀ done key rep r w x t u, key ∉ done → P done rep r w → Recovered env s p key r w x t u →
      P (done ++ [key]) (rep.add key x) (t.noting x) u)
    (h : ∀ stored, env.result w .keys = .ok stored →
      P [] { scanned := stored.length } (r.retain (.ofList stored compare)) (env.after w .keys)) :
    (∃ e, env.result w .keys = .error e ∧ (pass s).exec env r w = (.error (.store e), r, env.after w .keys)) ∨
    (p.useRecovery = false ∧ ∃ n, (pass s).exec env r w = (.ok { scanned := n }, r, env.after w .keys)) ∨
    (p.useRecovery = true ∧ ∃ stored rep t u, env.result w .keys = .ok stored ∧
      (pass s).exec env r w = (.ok rep, t.count .passes, u) ∧ P stored rep t u) := by
  simp only [pass, exec_bind, runningPolicy_exec ha, exec_holding, passOver, listed_exec]
  cases hk : env.result w .keys with
  | error e => exact .inl ⟨e, rfl, rfl⟩
  | ok stored =>
    simp only [mapError_ok]
    cases hp : p.useRecovery with
    | false => exact .inr (.inl ⟨rfl, stored.length, rfl⟩)
    | true =>
      rw [hp] at hs
      obtain ⟨rep, t, u, he, hP⟩ := foldlM_induction hs.symm hstep (mem_of_result_keys hk).1 (h stored hk)
      simp only [if_true, exec_bind, exec_modifyThe, exec_lift, he]
      exact .inr (.inr ⟨trivial, stored, rep, t, u, rfl, rfl, hP⟩)

/-- What listing the keys, pruning the index and recovering a key keep of the index is kept by a pass. -/
theorem pass_index {P : ExchangeIndex → World → Prop} (env : Environment) (w : World) (ha : r.active = some p)
    (hs : p.useRecovery = s.config.useRecovery) (hlist : P r.index (env.after w .keys))
    (hretain : ∀ stored, env.result w .keys = .ok stored →
      P (r.retain (.ofList stored compare)).index (env.after w .keys))
    (hstep : ∀ key r w x t u, Recovered env s p key r w x t u → P r.index w → P t.index u) :
    P ((pass s).exec env r w).2.1.index ((pass s).exec env r w).2.2 := by
  have hpass := pass_induction env w ha hs (P := fun _ _ t u => P t.index u)
    (fun _ key _ r w x t u _ h hrec => by
      rw [index_noting]
      exact hstep key r w x t u hrec h)
    hretain
  rcases hpass with ⟨e, -, he⟩ | ⟨-, n, he⟩ | ⟨-, stored, rep, t, u, -, he, h⟩
  · rw [he]
    exact hlist
  · rw [he]
    exact hlist
  · rw [he]
    exact h

/-- How a pass ends, with the repository and the world that it leaves. -/
inductive Passed (env : Environment) (s : Setup) (p : Policy) (r : Repository) (w : World) :
    Except RepositoryError Report → Repository → World → Prop where
  | unlisted (e : StoreError) (hf : ¬ env.Healthy) : Passed env s p r w (.error (.store e)) r (env.after w .keys)
  /-- Recovery is off. -/
  | idle (hp : p.useRecovery = false) (n : Nat) : Passed env s p r w (.ok { scanned := n }) r (env.after w .keys)
  | completed (hp : p.useRecovery = true) (rep : Report) (t : Repository) (u : World) (ha : t.active = r.active)
      (h : ∀ key, ∃ l?, KeyPass env s p key (r.view w key) l? (t.view u key) ∧
        ∀ l, (rep.list l).count key = if l? = some l then 1 else 0) : Passed env s p r w (.ok rep) t u

/-- A pass drops the records of all keys that are not listed. -/
theorem records_retain (stored : List CorrelationKey) (r : Repository) (k : CorrelationKey) :
    (r.retain (.ofList stored compare)).records[k]? = if k ∈ stored then r.records[k]? else none := by
  simp only [retain, Std.ExtTreeMap.getElem?_filter', Std.ExtTreeSet.contains_ofList]
  by_cases hk : k ∈ stored
  · rw [if_pos hk]
    cases r.records[k]? <;> simp [hk]
  · rw [if_neg hk]
    cases r.records[k]? <;> simp [hk]

theorem view_retain (stored : List CorrelationKey) (r : Repository) (w : World) (k : CorrelationKey) :
    (r.retain (.ofList stored compare)).view w k =
      if k ∈ stored then r.view w k else { r.view w k with record := none } := by
  by_cases hk : k ∈ stored
  · rw [view, records_retain, if_pos hk, if_pos hk]
    rfl
  · rw [view, records_retain, if_neg hk, if_neg hk]
    rfl

/-- Keys that are met once each come to a step of their view, and all other views stay. -/
structure Surveyed (env : Environment) (s : Setup) (p : Policy) (r : Repository) (w : World) (before : Report)
    (done : List CorrelationKey) (rep : Report) (t : Repository) (u : World) : Prop where
  active : t.active = r.active
  others : ∀ k ∉ done, t.view u k = r.view w k ∧ ∀ l, (rep.list l).count k = (before.list l).count k
  done : ∀ k ∈ done, ∃ l?, KeyPass env s p k (r.view w k) l? (t.view u k) ∧
    ∀ l, (rep.list l).count k = (before.list l).count k + if l? = some l then 1 else 0

theorem Surveyed.step {before rep : Report} {done : List CorrelationKey} {r₀ : Repository} {w₀ : World}
    (hkey : key ∉ done) (h : Surveyed env s p r₀ w₀ before done rep r w) {x : Except RepositoryError Outcome}
    {t : Repository} {u : World} (hr : Recovered env s p key r w x t u) :
    Surveyed env s p r₀ w₀ before (done ++ [key]) (rep.add key x) (t.noting x) u := by
  refine ⟨by rw [active_noting, hr.active, h.active], fun k hk => ?_, fun k hk => ?_⟩
  · obtain ⟨hdone, hne⟩ := not_or.1 (fun h => hk (List.mem_append.2 h))
    replace hne : k ≠ key := fun h => hne (List.mem_singleton.2 h)
    obtain ⟨hv, hc⟩ := h.others k hdone
    refine ⟨by rw [view_noting, hr.frame hne, hv], fun l => ?_⟩
    rw [Report.count_add, if_neg (fun hx => hne hx.1.symm), Nat.add_zero, hc]
  · by_cases hne : k = key
    · subst hne
      obtain ⟨hv, hc⟩ := h.others k hkey
      refine ⟨listing? x, by rw [view_noting, ← hv]; exact hr.keyPass, fun l => ?_⟩
      rw [Report.count_add, hc]
      simp
    · have hdone : k ∈ done := (List.mem_append.1 hk).resolve_right fun h => hne (List.mem_singleton.1 h)
      obtain ⟨l?, hkp, hc⟩ := h.done k hdone
      refine ⟨l?, by rw [view_noting, hr.frame hne]; exact hkp, fun l => ?_⟩
      rw [Report.count_add, if_neg (fun hx => hne hx.1.symm), Nat.add_zero, hc]

theorem pass_exec (env : Environment) (w : World) (ha : r.active = some p)
    (hs : p.useRecovery = s.config.useRecovery) :
    ∃ x t u, (pass s).exec env r w = (x, t, u) ∧ Passed env s p r w x t u := by
  have hsurvey := pass_induction env w ha hs
    (P := fun done rep t u => ∃ stored, env.result w .keys = .ok stored ∧
      Surveyed env s p (r.retain (.ofList stored compare)) (env.after w .keys) { scanned := stored.length }
        done rep t u)
    (fun done key rep r w x t u hkey ⟨stored, hk, h⟩ hr => ⟨stored, hk, h.step hkey hr⟩)
    (fun stored hk => ⟨stored, hk, rfl, fun k _ => ⟨rfl, fun l => rfl⟩, fun k hk => by cases hk⟩)
  rcases hsurvey with ⟨e, hk, he⟩ | ⟨hp, n, he⟩ | ⟨hp, stored, rep, t, u, hk, he, stored', hk', h⟩
  · exact ⟨_, _, _, he, .unlisted e (not_healthy_of_result_keys hk)⟩
  · exact ⟨_, _, _, he, .idle hp n⟩
  rw [hk] at hk'
  cases hk'
  refine ⟨_, _, _, he, .completed hp rep (t.count .passes) u h.active fun key => ?_⟩
  have hview : r.view (env.after w .keys) key = r.view w key := view_eq (by rw [data_after_keys]) rfl rfl rfl
  have hempty (l : Listing) : (({ scanned := stored.length } : Report).list l).count key = 0 := by cases l <;> rfl
  by_cases hmem : key ∈ stored
  · obtain ⟨l?, h, hc⟩ := h.done key hmem
    rw [view_retain, if_pos hmem, hview] at h
    exact ⟨l?, h, fun l => by rw [hc, hempty, Nat.zero_add]⟩
  · obtain ⟨hv, hc⟩ := h.others key hmem
    rw [view_retain, if_neg hmem, hview] at hv
    have hd : w.store.data[key]? = none := by
      rw [← Option.not_isSome_iff_eq_none, ← Std.ExtTreeMap.mem_iff_isSome_getElem?]
      exact fun hd => hmem (((mem_of_result_keys hk).2 key).2 (.inr hd))
    refine ⟨none, ?_, fun l => by rw [hc, hempty, if_neg (by simp)]⟩
    show KeyPass env s p key (r.view w key) none (t.view u key)
    rw [hv]
    exact .absent hd

end Repository

end DurableAggregates
