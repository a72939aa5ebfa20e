import DurableAggregates.Proofs.Execution.Runs
import DurableAggregates.Proofs.Index.Memory

/-!
# Completed ids are remembered

The index of every repository that actions lead to has a history of operations (`Reachable.made_index`), so the memory
of its completed ids is first in, first out, and bounded. A confirmation of an id that is remembered and not indexed
makes no request at all and changes nothing (`completed_ids_remembered`).
-/

namespace DurableAggregates

/-- Operations have made the index. -/
def ExchangeIndex.Made (x : ExchangeIndex) : Prop := ∃ es cs, Edited es cs ∧ after cs = x

namespace ExchangeIndex

variable {x : ExchangeIndex}

theorem made_empty : Made {} := ⟨[], [], .nil, rfl⟩

theorem Made.edit (h : x.Made) (e : Edit) : (e.apply x).Made := by
  obtain ⟨es, cs, h, rfl⟩ := h
  exact ⟨e :: es, h.exists_edit e⟩

end ExchangeIndex

namespace Repository

variable {env : Environment} {s : Setup} {r t : Repository} {w u : World} {p : Policy} {key : CorrelationKey}
  {id : String} {a : Action}

/-! ## Actions -/

theorem Located.made {y : Except RepositoryError (Option CorrelationKey)} (h : Located env id r w y t)
    (hr : r.index.Made) : t.index.Made := by
  cases h with
  | hit | completed | unknown | failed => exact hr
  | absent => exact hr.edit (.forget _)
  | stale => exact hr.edit (.forgetId id)

theorem Acted.made {x : Except RepositoryError Cluster.Answer} (h : Acted env s r w a x t u) (hr : r.index.Made) :
    t.index.Made := by
  cases h with
  | refused | uncaptured | unstored => exact hr
  | quiet _ ht => exact ht.index ▸ hr
  | added => exact hr.edit (.insert _ _)
  | removed => exact hr.edit (.forget _)
  | confirmed _ hl => exact (hl.made hr).edit (.forget _)
  | unlocated _ hl | unconfirmed _ hl => exact hl.made hr

theorem Recovered.made {x : Except RepositoryError Outcome} (h : Recovered env s p key r w x t u)
    (hr : r.index.Made) : t.index.Made := by
  cases h with
  | unread | refused | kept => exact hr
  | gone => exact hr.edit (.forget key)
  | handed =>
    unfold handedBack
    split <;> exact hr
  | moved =>
    unfold escalated
    split <;> exact hr.edit (.forget key)

theorem pass_made (env : Environment) (w : World) (ha : r.active = some p)
    (hs : p.useRecovery = s.config.useRecovery) (hr : r.index.Made) : ((pass s).exec env r w).2.1.index.Made :=
  pass_index (P := fun i _ => i.Made) env w ha hs hr (fun _ _ => hr.edit (.retainKeys _))
    fun _ _ _ _ _ _ hrec h => hrec.made h

theorem Follows.made (hf : r.Follows s) (env : Environment) (w : World) (a : Action) (hr : r.index.Made) :
    ((a.task s).exec env r w).2.1.index.Made :=
  hf.act_cases (P := fun t _ => t.index.Made) hr
    (fun _ ha hp => pass_made env w ha (Setup.useRecovery_of_policy? hp) hr)
    fun ha => (action_exec env s r w ha).made hr

/-! ## Confirmations -/

theorem locate_completed (hi : r.index.keyFor? id = none) (hc : r.index.isCompleted id = true) :
    (locate id).run r = .finished (.ok none) r := by
  unfold locate
  have hget : (getThe Repository : Operation Repository).run r = .finished (.ok r) r := rfl
  rw [ExceptT.run_bind, Procedure.bind_apply, hget]
  dsimp only [Run.bind]
  rw [hi]
  dsimp only
  rw [if_pos hc]
  rfl

/-- Nobody is asked about an id that is remembered and not indexed. -/
theorem confirm_completed (ha : r.active = some p) (hi : r.index.keyFor? id = none)
    (hc : r.index.isCompleted id = true) : (confirm id).run r = .finished (.ok ()) r := by
  rw [confirm, run_running_bind ha]
  show ((locate id).run r).bind _ = _
  rw [locate_completed hi hc]
  rfl

end Repository

/-- The index of every repository that actions lead to has been made by operations. -/
theorem Reachable.made_index {s : Setup} {r : Repository} (h : Reachable s r) : r.index.Made := by
  induction h with
  | new => exact ExchangeIndex.made_empty
  | act h env w a ih => exact h.follows.made env w a ih

open ExchangeIndex Repository

/--
The completed ids are a memory that is first in, first out, and bounded, whatever operations are made on the index, and
the index of a repository is made by operations, whatever its actions meet with. A running repository confirms an id
that is remembered and not indexed at once: it asks nobody, not even a store that is not available, and stays as it is.
-/
theorem completed_ids_remembered :
    (∀ es cs, Edited es cs → Memory cs) ∧
    (∀ s r, Reachable s r → ∃ es cs, Edited es cs ∧ after cs = r.index) ∧
    ∀ (r : Repository) id, r.active ≠ none → r.index.keyFor? id = none → r.index.isCompleted id = true →
      (confirm id).run r = .finished (.ok ()) r ∧ ∀ env w, (confirm id).exec env r w = (.ok (), r, w) := by
  refine ⟨fun es cs _ => memory cs, fun s r h => h.made_index, fun r id ha hi hc => ?_⟩
  obtain ⟨p, hp⟩ := Option.ne_none_iff_exists'.1 ha
  have hrun := confirm_completed hp hi hc
  refine ⟨hrun, fun env w => ?_⟩
  show ((confirm id).run r).exec env w = _
  rw [hrun]
  rfl

/-- An exchange whose key was removed is confirmed without the store. -/
theorem completed_ids_remembered_removed :
    ∃ r es cs, Reachable {} r ∧ Edited es cs ∧ after cs = r.index ∧ Memory cs ∧
      (after cs).order = ["exchange"] ∧ (confirm "exchange").run r = .finished (.ok ()) r := by
  let act (r : Repository) (a : Action) : Repository := ((a.task {}).exec {} r {}).2.1
  let r := act (act (act {} .start) (.add ⟨"key"⟩ { id := "exchange" } (Exchange.fits_of_id (by decide))))
    (.remove ⟨"key"⟩)
  have hr : Reachable {} r := ((Reachable.new.act _ _ _).act _ _ _).act _ _ _
  obtain ⟨es, cs, h, hindex⟩ := completed_ids_remembered.2.1 {} r hr
  have hconfirm := completed_ids_remembered.2.2 r "exchange"
    (Option.ne_none_iff_isSome.2 (by decide +kernel)) (by decide +kernel) (by decide +kernel)
  refine ⟨r, es, cs, hr, h, hindex, completed_ids_remembered.1 es cs h, ?_, hconfirm.1⟩
  rw [hindex]
  decide +kernel

end DurableAggregates
