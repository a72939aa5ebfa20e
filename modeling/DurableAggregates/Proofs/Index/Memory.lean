import DurableAggregates.Proofs.Index.Completed
import DurableAggregates.Proofs.Index.Histories
import Mathlib.Data.List.Nodup
import Mathlib.Data.List.Perm.Subperm

/-!
# The memory of completed ids

The set of completed ids and the queue that gives their order say the same (`Matched`), and a change of the index does
one of four things to them (`Shifts`, `Matched.apply`). So the queue is a memory that is first in, first out: its ids
are in the order in which they were completed (`Queued`), where the number of the change that completed an id last is
read off the set alone (`entry`). What a history leaves in the memory is `Memory`, and `memory` says that every history
leaves that.
-/

namespace DurableAggregates.ExchangeIndex

variable {x y : ExchangeIndex} {key : CorrelationKey} {id i old : String} {rest : List String} {c : Change}
  {cs row : List Change} {e : Edit}

/-! ## The set and the queue -/

@[simp] theorem order_dropId (x : ExchangeIndex) (id : String) (key : CorrelationKey) :
    (x.dropId id key).order = x.order := by
  unfold dropId
  split <;> rfl

@[simp] theorem order_forgetId (x : ExchangeIndex) (id : String) : (x.forgetId id).order = x.order := by
  unfold forgetId
  split
  · unfold dropKey
    split <;> rfl
  · rfl

/-- The set and the queue have the same ids, which are not too many. -/
structure Matched (x : ExchangeIndex) : Prop where
  mem_iff : ∀ id, x.isCompleted id = true ↔ id ∈ x.order
  nodup : x.order.Nodup
  bounded : x.order.length ≤ capacity

theorem matched_empty : Matched {} := by
  refine ⟨fun id => ?_, List.nodup_nil, Nat.zero_le _⟩
  simp [isCompleted]

/-- Only the set and the queue matter. -/
theorem Matched.congr (h : x.Matched) (hc : y.completed = x.completed) (ho : y.order = x.order) : y.Matched := by
  refine ⟨fun id => ?_, ho ▸ h.nodup, ho ▸ h.bounded⟩
  rw [isCompleted, hc, ho]
  exact h.mem_iff id

theorem evict_of_le (h : x.order.length ≤ capacity) : x.evict = x := by
  unfold evict
  rw [Nat.sub_eq_zero_of_le h]
  rfl

theorem evict_of_cons (ho : x.order = old :: rest) (hl : rest.length = capacity) :
    x.evict = { x with completed := x.completed.erase old, order := rest } := by
  have hone : x.order.length - capacity = 1 := by rw [ho, List.length_cons, hl, Nat.add_sub_cancel_left]
  unfold evict
  rw [hone, ho]
  rfl

/-- What a change of the index does to the memory. -/
inductive Shifts (x : ExchangeIndex) : Change → ExchangeIndex → Prop where
  /-- An id that is noted is not in the memory. -/
  | noted {key : CorrelationKey} {id : String} {y : ExchangeIndex} (ho : y.order = x.order.filter (· ≠ id)) :
      Shifts x (.insert key id) y
  /-- What forgets a key with an id finds the id in the memory. -/
  | same {c : Change} {y : ExchangeIndex} (hc : ∀ key id, c ≠ .insert key id)
      (hold : ∀ key id, c = .forget key → x.byKey[key]? = some id → id ∈ x.order) (ho : y.order = x.order) :
      Shifts x c y
  | completed {key : CorrelationKey} {id : String} {y : ExchangeIndex} (hk : x.byKey[key]? = some id)
      (hid : id ∉ x.order) (ho : y.order = x.order ++ [id]) : Shifts x (.forget key) y
  /-- In a full memory the new id takes the place of the oldest. -/
  | evicted {key : CorrelationKey} {id old : String} {rest : List String} {y : ExchangeIndex}
      (hk : x.byKey[key]? = some id) (hid : id ∉ x.order) (hx : x.order = old :: rest)
      (hfull : x.order.length = capacity) (ho : y.order = rest ++ [id]) : Shifts x (.forget key) y

theorem Matched.insert (h : x.Matched) (key : CorrelationKey) (id : String) :
    (x.insert key id).Matched ∧ (x.insert key id).order = x.order.filter (· ≠ id) := by
  have hrevive (y : ExchangeIndex) (hc : y.completed = x.completed) (ho : y.order = x.order) :
      (y.revive id).order = x.order.filter (· ≠ id) := by
    unfold revive
    by_cases hid : y.isCompleted id = true
    · rw [if_pos hid, ho]
    · have hnot : id ∉ x.order := by
        rw [← h.mem_iff, isCompleted, ← hc]
        exact hid
      rw [if_neg hid, ho, eq_comm, List.filter_eq_self]
      intro i hi
      have hne : i ≠ id := fun hid => hnot (hid ▸ hi)
      simpa using hne
  have horder : (x.insert key id).order = x.order.filter (· ≠ id) := by
    unfold ExchangeIndex.insert
    dsimp only
    cases x.byKey[key]? with
    | none => exact hrevive _ rfl rfl
    | some previous =>
      dsimp only
      split
      · exact hrevive _ rfl rfl
      · exact hrevive _ (completed_dropId x previous key) (order_dropId x previous key)
  refine ⟨⟨fun i => ?_, horder ▸ h.nodup.filter _, ?_⟩, horder⟩
  · rw [isCompleted_insert, horder, Bool.and_eq_true, h.mem_iff, List.mem_filter, and_comm]
  · rw [horder]
    exact Nat.le_trans (List.length_filter_le ..) h.bounded

theorem Matched.forgetId (h : x.Matched) (id : String) : (x.forgetId id).Matched := by
  refine ⟨fun i => ?_, ?_, ?_⟩
  · rw [isCompleted_forgetId, order_forgetId]
    exact h.mem_iff i
  · rw [order_forgetId]
    exact h.nodup
  · rw [order_forgetId]
    exact h.bounded

/-- An id that is completed anew goes to the end of the queue. -/
theorem Matched.completeNew (h : x.Matched) (hid : id ∉ x.order) : (x.complete id).Matched ∧
    ((x.complete id).order = x.order ++ [id] ∨ ∃ old rest, x.order = old :: rest ∧ x.order.length = capacity ∧
      (x.complete id).order = rest ++ [id]) := by
  have hnew : x.isCompleted id ≠ true := fun hc => hid ((h.mem_iff id).1 hc)
  have hcomplete : x.complete id =
      evict { x with completed := x.completed.insert id, order := x.order ++ [id] } := if_neg hnew
  have hnodup : (x.order ++ [id]).Nodup := List.nodup_append.2
    ⟨h.nodup, List.nodup_singleton id, fun i hi j hj => by rw [List.mem_singleton.1 hj]; rintro rfl; exact hid hi⟩
  have hmem (i : String) : i ∈ x.completed.insert id ↔ i ∈ x.order ++ [id] := by
    rw [Std.ExtTreeSet.mem_insert, Std.LawfulEqCmp.compare_eq_iff_eq, List.mem_append, List.mem_singleton, or_comm,
      eq_comm, ← h.mem_iff, isCompleted, Std.ExtTreeSet.contains_iff_mem]
  rcases Nat.lt_or_eq_of_le h.bounded with hlt | hfull
  · have hbound : (x.order ++ [id]).length ≤ capacity := by
      rw [List.length_append]
      exact hlt
    rw [hcomplete, evict_of_le hbound]
    refine ⟨⟨fun i => ?_, hnodup, hbound⟩, .inl rfl⟩
    rw [isCompleted, Std.ExtTreeSet.contains_iff_mem]
    exact hmem i
  · cases hx : x.order with
    | nil =>
      rw [hx] at hfull
      cases hfull
    | cons old rest =>
      have hrest : (rest ++ [id]).length = capacity := by
        rw [← hfull, hx, List.length_append]
        rfl
      rw [hx, List.cons_append] at hnodup hmem
      have ho : ({ x with completed := x.completed.insert id, order := x.order ++ [id] } : ExchangeIndex).order =
          old :: (rest ++ [id]) := by
        rw [hx]
        rfl
      rw [hcomplete, evict_of_cons ho hrest]
      obtain ⟨hold, hnodup⟩ := List.nodup_cons.1 hnodup
      refine ⟨⟨fun i => ?_, hnodup, Nat.le_of_eq hrest⟩, .inr ⟨old, rest, rfl, hx ▸ hfull, rfl⟩⟩
      rw [isCompleted, Std.ExtTreeSet.contains_iff_mem, Std.ExtTreeSet.mem_erase, hmem, List.mem_cons,
        ne_eq, Std.LawfulEqCmp.compare_eq_iff_eq]
      constructor
      · rintro ⟨hne, rfl | hi⟩
        · exact absurd rfl hne
        · exact hi
      · intro hi
        exact ⟨fun he => hold (he ▸ hi), .inr hi⟩

/-- Every change keeps the set and the queue in step. -/
theorem Matched.apply (h : x.Matched) (c : Change) : (c.apply x).Matched ∧ Shifts x c (c.apply x) := by
  cases c with
  | insert key id =>
    obtain ⟨hm, ho⟩ := h.insert key id
    exact ⟨hm, .noted ho⟩
  | forgetId id =>
    exact ⟨h.forgetId id, .same (fun _ _ => Change.noConfusion) (fun _ _ => Change.noConfusion) (order_forgetId x id)⟩
  | forget key =>
    show (x.forget key).Matched ∧ Shifts x (.forget key) (x.forget key)
    unfold ExchangeIndex.forget
    cases hk : x.byKey[key]? with
    | none =>
      refine ⟨h, .same (fun _ _ => Change.noConfusion) (fun k i hc hi => ?_) rfl⟩
      cases hc
      cases hk.symm.trans hi
    | some id =>
      dsimp only
      have hd : (({ x with byKey := x.byKey.erase key } : ExchangeIndex).dropId id key).Matched :=
        h.congr (completed_dropId ..) (order_dropId ..)
      have ho : (({ x with byKey := x.byKey.erase key } : ExchangeIndex).dropId id key).order = x.order :=
        order_dropId ..
      generalize ({ x with byKey := x.byKey.erase key } : ExchangeIndex).dropId id key = y at hd ho
      by_cases hid : id ∈ x.order
      · have hold : y.complete id = y := if_pos ((hd.mem_iff id).2 (ho ▸ hid))
        rw [hold]
        refine ⟨hd, .same (fun _ _ => Change.noConfusion) (fun k i hc hi => ?_) ho⟩
        cases hc
        cases hk.symm.trans hi
        exact hid
      · obtain ⟨hm, hc⟩ := hd.completeNew (ho ▸ hid)
        rw [ho] at hc
        refine ⟨hm, ?_⟩
        rcases hc with hc | ⟨old, rest, hx, hfull, hc⟩
        · exact .completed hk hid hc
        · exact .evicted hk hid hx hfull hc

theorem matched_after (cs : List Change) : (after cs).Matched := by
  induction cs with
  | nil => exact matched_empty
  | cons c cs ih => exact (ih.apply c).1

theorem shifts_after (c : Change) (cs : List Change) : Shifts (after cs) c (after (c :: cs)) :=
  ((matched_after cs).apply c).2

/-! ## Entries into the memory -/

/-- The number of the change by which an id was completed last, counted from one; zero if none has completed it. -/
def entry : List Change → String → Nat
  | [], _ => 0
  | c :: cs, id =>
    if (after cs).isCompleted id = false ∧ (after (c :: cs)).isCompleted id = true then cs.length + 1
    else entry cs id

/-- As many ids as the memory can hold are remembered that were completed later than the given one. -/
def Crowded (cs : List Change) (id : String) : Prop :=
  ∃ ids : List String, ids.Nodup ∧ ids.length = capacity ∧
    ∀ i ∈ ids, (after cs).isCompleted i = true ∧ entry cs id < entry cs i

theorem entry_le (cs : List Change) (id : String) : entry cs id ≤ cs.length := by
  induction cs with
  | nil => exact Nat.le_refl 0
  | cons c cs ih =>
    rw [entry]
    split
    · exact Nat.le_refl _
    · exact Nat.le_succ_of_le ih

/-- An id that is remembered does not enter again. -/
theorem entry_of_mem (c : Change) (h : id ∈ (after cs).order) : entry (c :: cs) id = entry cs id := by
  refine if_neg fun hnew => ?_
  rw [((matched_after cs).mem_iff id).2 h] at hnew
  exact Bool.noConfusion hnew.1

theorem entry_of_new (h : id ∉ (after cs).order) (h' : id ∈ (after (c :: cs)).order) :
    entry (c :: cs) id = cs.length + 1 := by
  refine if_pos ⟨?_, ((matched_after _).mem_iff id).2 h'⟩
  rw [← Bool.not_eq_true, (matched_after cs).mem_iff]
  exact h

/-- The queue is in the order in which its ids were completed. -/
def Queued (cs : List Change) : Prop := (after cs).order.Pairwise fun i j => entry cs i < entry cs j

theorem Queued.of_sublist (h : Queued cs) {ids : List String} (hs : List.Sublist ids (after cs).order) (c : Change) :
    ids.Pairwise fun i j => entry (c :: cs) i < entry (c :: cs) j := by
  refine (h.sublist hs).imp_of_mem fun {i j} hi hj hij => ?_
  rw [entry_of_mem c (hs.subset hi), entry_of_mem c (hs.subset hj)]
  exact hij

theorem Queued.append (h : Queued cs) {ids : List String} (hs : List.Sublist ids (after cs).order)
    (hid : id ∉ (after cs).order) (ho : (after (c :: cs)).order = ids ++ [id]) : Queued (c :: cs) := by
  rw [Queued, ho, List.pairwise_append]
  refine ⟨h.of_sublist hs c, List.pairwise_singleton .., fun i hi j hj => ?_⟩
  rw [List.mem_singleton.1 hj, entry_of_mem c (hs.subset hi),
    entry_of_new hid (by rw [ho]; exact List.mem_append_right _ (List.mem_singleton_self id))]
  exact Nat.lt_succ_of_le (entry_le cs i)

theorem queued (cs : List Change) : Queued cs := by
  induction cs with
  | nil => exact List.Pairwise.nil
  | cons c cs ih =>
    generalize hy : after (c :: cs) = y
    have hs := shifts_after c cs
    rw [hy] at hs
    cases hs with
    | noted ho =>
      rw [Queued, hy, ho]
      exact ih.of_sublist List.filter_sublist _
    | same _ _ ho =>
      rw [Queued, hy, ho]
      exact ih.of_sublist (.refl _) c
    | completed _ hid ho => exact ih.append (.refl _) hid (hy ▸ ho)
    | evicted _ hid hx _ ho => exact ih.append (hx ▸ List.sublist_cons_self ..) hid (hy ▸ ho)

/-! ## How long an id is remembered -/

/-- In a crowded memory there is no room for the id. -/
theorem not_completed_of_crowded (h : Crowded cs id) : (after cs).isCompleted id = false := by
  obtain ⟨ids, hnodup, hlength, hids⟩ := h
  rw [← Bool.not_eq_true]
  intro hid
  have hnot : id ∉ ids := fun hmem => Nat.lt_irrefl _ (hids id hmem).2
  have hsub : (id :: ids).Subperm (after cs).order := by
    refine List.subperm_of_subset (List.nodup_cons.2 ⟨hnot, hnodup⟩) fun i hi => ?_
    rw [← (matched_after cs).mem_iff]
    rcases List.mem_cons.1 hi with rfl | hi
    · exact hid
    · exact (hids i hi).1
  have hle := Nat.le_trans hsub.length_le (matched_after cs).bounded
  rw [List.length_cons, hlength] at hle
  exact Nat.not_succ_le_self _ hle

/-- How a change takes an id out of the memory: it is noted anew, or it is the oldest of a full memory. -/
theorem leaves (hid : (after cs).isCompleted id = true) (hgone : (after (c :: cs)).isCompleted id = false) :
    (∃ key, c = .insert key id) ∨
      ∃ key i rest, c = .forget key ∧ (after cs).byKey[key]? = some i ∧ (after cs).order = id :: rest ∧
        (after cs).order.length = capacity ∧ (after (c :: cs)).order = rest ++ [i] := by
  have hmem := ((matched_after cs).mem_iff id).1 hid
  have hnot : id ∉ (after (c :: cs)).order := by
    rw [← (matched_after (c :: cs)).mem_iff, hgone]
    exact Bool.false_ne_true
  have hs := shifts_after c cs
  generalize after (c :: cs) = y at hs hnot
  cases hs with
  | @noted key i _ ho =>
    left
    refine ⟨key, ?_⟩
    by_cases hi : id = i
    · rw [hi]
    · refine absurd ?_ hnot
      rw [ho, List.mem_filter]
      exact ⟨hmem, by simpa using hi⟩
  | same _ _ ho => exact absurd (ho ▸ hmem) hnot
  | completed _ _ ho => exact absurd (ho ▸ List.mem_append_left _ hmem) hnot
  | @evicted key i old rest _ hk _ hx hfull ho =>
    right
    rw [hx] at hmem
    rcases List.mem_cons.1 hmem with rfl | hmem
    · exact ⟨key, i, rest, rfl, hk, hx, hfull, ho⟩
    · exact absurd (ho ▸ List.mem_append_left _ hmem) hnot

/-- An id that is evicted leaves a memory full of later ones. -/
theorem crowded_of_leaves (hid : (after cs).isCompleted id = true)
    (hgone : (after (c :: cs)).isCompleted id = false) (hnoted : ∀ key, c ≠ .insert key id) : Crowded (c :: cs) id := by
  obtain ⟨key, hc⟩ | ⟨key, new, rest, -, -, hx, hfull, ho⟩ := leaves hid hgone
  · exact absurd hc (hnoted key)
  have hmem := ((matched_after cs).mem_iff id).1 hid
  have hlater := queued cs
  rw [Queued, hx, List.pairwise_cons] at hlater
  have hnodup := (matched_after cs).nodup
  refine ⟨(after (c :: cs)).order, (matched_after _).nodup, ?_, fun i hi => ⟨((matched_after _).mem_iff i).2 hi, ?_⟩⟩
  · rw [ho, ← hfull, hx, List.length_append]
    rfl
  · rw [entry_of_mem c hmem]
    by_cases hold : i ∈ (after cs).order
    · rw [entry_of_mem c hold]
      rw [hx] at hold
      refine hlater.1 i ((List.mem_cons.1 hold).resolve_left ?_)
      rintro rfl
      rw [((matched_after _).mem_iff i).2 hi] at hgone
      cases hgone
    · rw [entry_of_new hold hi]
      exact Nat.lt_succ_of_le (entry_le cs id)

/-- An id stays in the memory until it is noted anew or the memory is crowded. -/
theorem stays_iff (hid : (after cs).isCompleted id = true) (row : List Change) :
    (∀ vs, vs <:+ row → (after (vs ++ cs)).isCompleted id = true) ↔
      (∀ key, .insert key id ∉ row) ∧ ∀ vs, vs <:+ row → ¬Crowded (vs ++ cs) id := by
  constructor
  · intro h
    constructor
    · intro key hmem
      obtain ⟨later, earlier, rfl⟩ := List.append_of_mem hmem
      have hnoted : (after (.insert key id :: (earlier ++ cs))).isCompleted id = true :=
        h (.insert key id :: earlier) (List.suffix_append ..)
      have hnot : ((after (earlier ++ cs)).insert key id).isCompleted id = true := hnoted
      rw [isCompleted_insert] at hnot
      simp at hnot
    · intro vs hvs hc
      have hin := h vs hvs
      rw [not_completed_of_crowded hc] at hin
      cases hin
  · rintro ⟨hnoted, hcrowded⟩
    induction row with
    | nil =>
      intro vs hvs
      rw [List.eq_nil_of_suffix_nil hvs]
      exact hid
    | cons c row ih =>
      have hrow := ih (fun key hmem => hnoted key (List.mem_cons_of_mem c hmem))
        fun vs hvs => hcrowded vs (hvs.trans (List.suffix_cons c row))
      intro vs hvs
      rcases List.suffix_cons_iff.1 hvs with rfl | hvs
      · by_cases hstays : (after (c :: (row ++ cs))).isCompleted id = true
        · exact hstays
        · refine absurd (crowded_of_leaves (hrow row List.suffix_rfl) (Bool.eq_false_iff.2 hstays) ?_) ?_
          · rintro key rfl
            exact hnoted key (List.mem_cons_self ..)
          · exact hcrowded (c :: row) List.suffix_rfl
      · exact hrow vs hvs

/-! ## How an id is completed -/

/-- Whether an operation drops a key. -/
def Edit.Drops (key : CorrelationKey) : Edit → Prop
  | .forget k => k = key
  | .retainKeys stored => key ∉ stored
  | _ => False

/-- The queue after an id is completed: a new one is last, and a full queue loses its first for it. -/
def withNewest (ids : List String) (id : String) : List String :=
  if id ∈ ids then ids else (if ids.length = capacity then ids.tail else ids) ++ [id]

/-- A key that is forgotten completes its id. -/
theorem order_after_forget (hk : (after cs).byKey[key]? = some id) :
    (after (.forget key :: cs)).order = withNewest (after cs).order id := by
  have hbound := (matched_after (.forget key :: cs)).bounded
  have hs := shifts_after (.forget key) cs
  generalize after (.forget key :: cs) = y at hs hbound
  unfold withNewest
  cases hs with
  | same _ hold ho => rw [ho, if_pos (hold key id rfl hk)]
  | completed hk' hid ho =>
    cases hk.symm.trans hk'
    rw [ho, List.length_append, List.length_singleton] at hbound
    rw [ho, if_neg hid, if_neg (Nat.ne_of_lt hbound)]
  | evicted hk' hid hx hfull ho =>
    cases hk.symm.trans hk'
    rw [ho, if_neg hid, if_pos hfull, hx, List.tail_cons]

theorem enters (hnot : (after cs).isCompleted id = false) (hid : (after (c :: cs)).isCompleted id = true) :
    ∃ key, c = .forget key ∧ (after cs).byKey[key]? = some id := by
  cases c with
  | insert key i =>
    have hid : ((after cs).insert key i).isCompleted id = true := hid
    rw [isCompleted_insert, hnot, Bool.and_false] at hid
    cases hid
  | forgetId i =>
    have hid : ((after cs).forgetId i).isCompleted id = true := hid
    rw [isCompleted_forgetId, hnot] at hid
    cases hid
  | forget key =>
    refine ⟨key, rfl, (isCompleted_of_forget hid).resolve_left ?_⟩
    rw [hnot]
    exact Bool.false_ne_true

/-- An operation completes an id by dropping a key that had the id before the operation. -/
theorem Edit.Makes.enters {vs : List Change} (h : e.Makes (after cs) row) (hvs : c :: vs <:+ row.reverse)
    (hnot : (after (vs ++ cs)).isCompleted id = false) (hid : (after (c :: (vs ++ cs))).isCompleted id = true) :
    ∃ key, (after cs).byKey[key]? = some id ∧ e.Drops key := by
  obtain ⟨key, rfl, hk⟩ := ExchangeIndex.enters hnot hid
  refine ⟨key, ?_⟩
  cases h with
  | insert k i =>
    rcases List.suffix_cons_iff.1 hvs with hc | hc
    · cases hc
    · cases List.eq_nil_of_suffix_nil hc
  | forgetId i =>
    rcases List.suffix_cons_iff.1 hvs with hc | hc
    · cases hc
    · cases List.eq_nil_of_suffix_nil hc
  | forget k =>
    rcases List.suffix_cons_iff.1 hvs with hc | hc
    · cases hc
      exact ⟨hk, rfl⟩
    · cases List.eq_nil_of_suffix_nil hc
  | @retainKeys stored gone hgone =>
    obtain ⟨later, hrow⟩ := hvs
    -- The changes so far have forgotten the first of the keys, so what is there now was there before.
    have hfirst : gone.map Change.forget = vs.reverse ++ .forget key :: later.reverse := by
      rw [← List.reverse_inj, ← hrow]
      simp
    obtain ⟨done, todo, hdone, hvs, htodo⟩ := List.map_eq_append_iff.1 hfirst
    obtain ⟨k, todo, rfl, hkey, -⟩ := List.map_eq_cons_iff.1 htodo
    cases hkey
    rw [← List.reverse_reverse vs, ← hvs, after_append, foldl_forget, byKey_foldl_forget] at hk
    split at hk
    · cases hk
    · refine ⟨hk, ((mem_gone hgone).1 ?_).2⟩
      rw [hdone]
      exact List.mem_append_right _ (List.mem_cons_self ..)

/-- An operation that drops a key forgets it while the key still has its id. -/
theorem Edit.Makes.forgets (h : e.Makes (after cs) row) (hk : (after cs).byKey[key]? = some id) (hd : e.Drops key) :
    ∃ vs, .forget key :: vs <:+ row.reverse ∧ (after (vs ++ cs)).byKey[key]? = some id := by
  cases h with
  | insert | forgetId => cases hd
  | forget k =>
    obtain rfl : k = key := hd
    exact ⟨[], List.suffix_rfl, hk⟩
  | @retainKeys stored gone hgone =>
    have hmem : key ∈ gone := (mem_gone hgone).2 ⟨⟨id, hk⟩, hd⟩
    obtain ⟨done, todo, rfl, hfirst⟩ := List.eq_append_cons_of_mem hmem
    refine ⟨(done.map .forget).reverse, ⟨(todo.map .forget).reverse, ?_⟩, ?_⟩
    · simp
    · rw [after_append, foldl_forget, byKey_foldl_forget, if_neg hfirst, hk]

/-! ## Histories -/

/-- What a history leaves in the memory. -/
structure Memory (cs : List Change) : Prop where
  completed_iff : ∀ id, (after cs).isCompleted id = true ↔ id ∈ (after cs).order
  nodup : (after cs).order.Nodup
  bounded : (after cs).order.length ≤ capacity
  inOrder : Queued cs
  /-- Only operations that drop a key complete an id, and it is the id that the key had. -/
  enters : ∀ (e : Edit) (row : List Change), e.Makes (after cs) row → ∀ c vs, c :: vs <:+ row.reverse → ∀ id,
    (after (vs ++ cs)).isCompleted id = false → (after (c :: (vs ++ cs))).isCompleted id = true →
      ∃ key, (after cs).byKey[key]? = some id ∧ e.Drops key
  /-- Every key that an operation drops completes the id that the key had. -/
  completes : ∀ (e : Edit) (row : List Change), e.Makes (after cs) row → ∀ key id,
    (after cs).byKey[key]? = some id → e.Drops key → ∃ vs, .forget key :: vs <:+ row.reverse ∧
      (after (.forget key :: (vs ++ cs))).order = withNewest (after (vs ++ cs)).order id
  /-- An id that is completed again while it is remembered keeps its place. -/
  again : ∀ key id, (after cs).byKey[key]? = some id → (after cs).isCompleted id = true →
    (after (.forget key :: cs)).order = (after cs).order ∧ entry (.forget key :: cs) id = entry cs id
  stays : ∀ id, (after cs).isCompleted id = true → ∀ row,
    ((∀ vs, vs <:+ row → (after (vs ++ cs)).isCompleted id = true) ↔
      (∀ key, .insert key id ∉ row) ∧ ∀ vs, vs <:+ row → ¬Crowded (vs ++ cs) id)
  /-- An id that leaves without being noted anew is the oldest of a full memory and makes room for a new one. -/
  oldest : ∀ c id, (after cs).isCompleted id = true → (after (c :: cs)).isCompleted id = false →
    (∀ key, c ≠ .insert key id) → ∃ rest i, (after cs).order = id :: rest ∧ (after cs).order.length = capacity ∧
      (after (c :: cs)).order = rest ++ [i]

/-- Every history leaves a memory of completed ids that is first in, first out, and bounded. -/
theorem memory (cs : List Change) : Memory cs where
  completed_iff := (matched_after cs).mem_iff
  nodup := (matched_after cs).nodup
  bounded := (matched_after cs).bounded
  inOrder := queued cs
  enters _ _ h _ _ hvs _ hnot hid := h.enters hvs hnot hid
  completes _ _ h _ _ hk hd := by
    obtain ⟨vs, hvs, hkey⟩ := h.forgets hk hd
    exact ⟨vs, hvs, order_after_forget hkey⟩
  again _ id hk hid := by
    have hmem := ((matched_after cs).mem_iff id).1 hid
    refine ⟨?_, entry_of_mem _ hmem⟩
    rw [order_after_forget hk, withNewest, if_pos hmem]
  stays _ hid row := stays_iff hid row
  oldest _ _ hid hgone hnoted := by
    obtain ⟨key, hc⟩ | ⟨-, i, rest, -, -, hx, hfull, ho⟩ := leaves hid hgone
    · exact absurd hc (hnoted key)
    · exact ⟨rest, i, hx, hfull, ho⟩

end DurableAggregates.ExchangeIndex
