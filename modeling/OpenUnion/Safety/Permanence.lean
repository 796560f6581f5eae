import OpenUnion.Safety.Refunds

/-!
# What is recorded stays recorded

Support and audit rely on rows that are never taken back: a payout keeps the submission,
the worker and the amount it was created with, a dispute that has been decided is not
opened again, billing events are only appended.  No single request promises that; it
holds because each of them keeps it.

* `Dispute.final_step`: no step changes a dispute that is closed.
* `records_permanent`: from any state of any run on, rows and their identifying columns
  stay (`World.Grows`), and closed disputes stay as they are.
-/

namespace OpenUnion

open Interleave

/-- Closed disputes of `w` are unchanged in `w'`. -/
def DisputesFinal (w w' : World) : Prop :=
  ∀ d row, w.disputes d = some row → row.status ≠ .opened → w'.disputes d = some row

/-- The plan of all runs. -/
def recordsPlan (cfg : Config) : Plan (system cfg noNotes) :=
  systemPlan cfg noNotes anyStep (fun _ => True) (fun _ => True) (fun _ _ _ => True)
    fun _ _ _ => True

section Steps

variable {cfg : Config} {l : Step} {L : List Lock} {g g' : Glob World Unit} {d : Nat} {row : Dispute}

/-- A commit leaves closed disputes alone. -/
theorem Tag.Effect.dispute_final {hold : Lock → World → World → Prop} {w w' : World} {pid : Nat}
    {t : Tag} (h : t.Effect cfg hold pid L w w') (hrow : w.disputes d = some row)
    (hclosed : row.status ≠ .opened) : w'.disputes d = some row := by
  obtain ⟨row', hrow', -⟩ := h.grows.disputes d row hrow
  obtain ⟨old, hold', hcommit⟩ | ⟨-, -, hfree, -⟩ := h.dispute_of hrow'
  · obtain rfl : row = old := Option.some.inj (hrow.symm.trans hold')
    cases hcommit with
    | same => exact hrow'
    | cancelled _ hopen | upheld _ hopen | refunded _ hopen => exact absurd hopen hclosed
  · exact absurd (hfree.symm.trans hrow) (by simp)

/-- No step changes a dispute that is closed. -/
theorem Dispute.final_step (h : (recordsPlan cfg).Move l L g g') :
    DisputesFinal g.world g'.world := by
  intro d row hrow hclosed
  obtain ⟨-, -, hstep⟩ := h
  cases hstep with
  | stmt a s busy _ _ _ hout =>
      change (s.apply busy g.world).disputes d = some row
      rw [s.apply_disputes busy g.world]
      cases s with
      | dispute s => exact absurd hout.1 Request.executes_dispute
      | _ => exact hrow
  | inner a s busy v _ _ _ => exact (congrFun (Stmt.effect_disputes s busy _ _) d).trans hrow
  | commit a t L v _ _ hcom => exact hcom.2.dispute_final hrow hclosed
  | reply a x _ _ _ => exact hrow
  | env e _ => cases e <;> exact hrow

theorem recordsPlan_valid (cfg : Config) : (recordsPlan cfg).Valid :=
  systemPlan_valid (fun _ _ _ => trivial) (fun _ _ _ _ _ => trivial) (fun _ _ _ _ _ _ => trivial)
    fun _ _ _ _ _ _ _ => trivial

end Steps

/-- **Records are permanent.**  From every state `c` of every run on, whatever requests run
and however they are interleaved, cut off or fail: no row is deleted and no identifying
column of one is written again, billing events are only appended, accepted transactions
stay accepted, and a dispute that is closed in `c` is never changed again. -/
theorem records_permanent {cfg : Config} {w : World} {cs ds : List Pick} {c c' : State Unit}
    (hrun : (system cfg noNotes).exec anyStep cs (Sys.start w) = some c)
    (hrun' : (system cfg noNotes).exec anyStep ds c = some c') :
    c.glob.world.Grows c'.glob.world ∧ DisputesFinal c.glob.world c'.glob.world := by
  have hgrow : ∀ l L g g', (recordsPlan cfg).Move l L g g' → g.world.Grows g'.world :=
    fun l L g g' h => Conducted.grows (fun a g t L w
      (hcom : a.req.Ends t ∧ t.Effect cfg (fun _ _ _ => True) a.pid L g.world w) => hcom.2.grows)
      h.conducted
  refine ⟨?_, ?_⟩
  · exact (recordsPlan_valid cfg).exec_rel (r := fun g g' => g.world.Grows g'.world)
      (fun g => .refl g.world) (fun _ _ _ => World.Grows.trans) hgrow trivial hrun hrun'
  · refine (recordsPlan_valid cfg).exec_rel (r := fun g g' => DisputesFinal g.world g'.world)
      (fun _ _ _ hrow _ => hrow) (fun g g' g'' hfirst hsecond d row hrow hclosed => ?_)
      (fun _ _ _ _ h => Dispute.final_step h) trivial hrun hrun'
    exact hsecond d row (hfirst d row hrow hclosed) hclosed

/-- A dispute is opened, and decided by refunding its payout. -/
def disputeRefunded : List Pick := disputeAndRefund ++ ([.run 1] : List Pick)

/-- The payout of a decided dispute is disputed again. -/
def disputedAgain : List Pick :=
  .spawn (.createDispute 1 (some 1) none) :: @List.replicate Pick 12 (.run 2)

theorem records_permanent_dispute :
    ∃ c c' row, (system Config.default noNotes).exec anyStep disputeRefunded
        (Sys.start disputeWorld) = some c ∧
      (system Config.default noNotes).exec anyStep disputedAgain c = some c' ∧
      c.glob.world.disputes 5 = some row ∧ row.resolution = some .refund ∧
      c'.glob.world.disputes 5 = some row := by
  obtain ⟨c, hrun, h⟩ := runs Config.default noNotes anyStep disputeRefunded
    disputeWorld (fun c => ((system Config.default noNotes).exec anyStep disputedAgain c).isSome &&
      (c.glob.world.disputes 5).any fun row : Dispute =>
        decide (row.status = .resolved) && decide (row.resolution = some .refund)) (by decide)
  obtain ⟨hrun', hdispute⟩ := (Bool.and_eq_true _ _).mp h
  obtain ⟨c', hrun'⟩ := Option.isSome_iff_exists.mp hrun'
  obtain ⟨row, hrow, hresolved⟩ := (Option.any_eq_true _ _).mp hdispute
  obtain ⟨hstatus, hresolution⟩ := (Bool.and_eq_true _ _).mp hresolved
  refine ⟨c, c', row, hrun, hrun', hrow, of_decide_eq_true hresolution, ?_⟩
  refine (records_permanent hrun hrun').2 5 row hrow ?_
  simp [of_decide_eq_true hstatus]

end OpenUnion
