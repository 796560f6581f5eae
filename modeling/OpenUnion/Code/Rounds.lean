import OpenUnion.Code.Requests
import OpenUnion.Interleave.Settling

/-!
# A round of a runner settles what its handlers settle

What `runOutboxLoop` does besides calling handlers is claiming a batch of its topics and
completing its events.

* `runOutboxLoop_settles`: if none of that is noted, a round settles its debts as soon as
  the handlers of its topics do.
-/

namespace OpenUnion

open Interleave

/-- The statements of a round outside its handlers. -/
def RoundStmt : Stmt → Prop
  | .read .now => True
  | .outbox (.releaseStale _ _) | .outbox (.select _ _ _) | .outbox (.take _ _ _) => True
  | .outbox (.markSent _) | .outbox (.markDead _ _) | .outbox (.reschedule _ _ _) => True
  | _ => False

variable {H : Type} {cfg : Config} {note : Actor Request → Happening → World → List H}
  {a : Actor Request} {Open : List H → Prop} {d : Debts Stmt Stmt.Val H} {topics : List Topic}
  {ns : List H} {i : Nat}

/-- The rounds of process `a` are neither noted nor asked anything. -/
structure Unwatched (note : Actor Request → Happening → World → List H) (a : Actor Request)
    (d : Debts Stmt Stmt.Val H) : Prop where
  stmt : ∀ s r w, RoundStmt s → note a (.stmt s r) w = []
  commit : ∀ t w, note a (.commit t) w = []
  out : ∀ ns s, RoundStmt s → d.Out ns s

/-- The batch is one of events of the topics. -/
theorem select_topics {now limit : Nat} {busy : Lock → Bool} {seen : World} :
    ∀ row ∈ OutboxStmt.result (.select topics limit now) busy seen, row.1.topic ∈ topics := by
  intro row hrow
  have hdue : row.1 ∈ OutboxStmt.due topics limit now busy seen := by
    rw [← OutboxStmt.select_keys]
    exact List.mem_map_of_mem hrow
  obtain ⟨e, -, he⟩ := (Option.any_eq_true _ _).mp (OutboxStmt.mem_due hdue)
  exact (of_decide_eq_true he : _ ∧ _ ∧ _).2.2

section Rules

variable {α : Type} {F : α → List H → Prop} {G : Err → List H → Prop}
  (hround : Unwatched note a d)

include hround

theorem round_quiet {s : Stmt} {f : s.Val → Code α} (hs : RoundStmt s) (herr : G default ns)
    (hf : ∀ busy seen, (f (s.result busy seen)).Settles (system cfg note) a Open d F G ns) :
    ((run s).bind f).Settles (system cfg note) a Open d F G ns := by
  refine ⟨hround.out ns s hs, fun busy seen w _ => ?_, fun _ => herr⟩
  have hempty : (system cfg note).note a (.stmt s ((system cfg note).engine.result s busy seen)) w =
      [] := hround.stmt s _ w hs
  rw [hempty]
  exact hf busy seen

theorem round_run {s : Stmt} {F : s.Val → List H → Prop} (hs : RoundStmt s) (hF : ∀ r, F r ns)
    (hG : G default ns) : (run s).Settles (system cfg note) a Open d F G ns := by
  refine ⟨hround.out ns s hs, fun busy seen w _ => ?_, fun _ => hG⟩
  have hempty : (system cfg note).note a (.stmt s ((system cfg note).engine.result s busy seen)) w =
      [] := hround.stmt s _ w hs
  rw [hempty]
  exact hF _

variable (hclear : ¬ Open ns)

include hclear

/-- `claimOutboxBatch`. -/
theorem claimOutboxBatch_settles :
    (claimOutboxBatch cfg topics i).Settles (system cfg note) a Open d
      (fun batch ns => (∀ evt ∈ batch, evt.1.topic ∈ topics) ∧ ¬ Open ns) (fun _ ns => ¬ Open ns)
      ns := by
  refine settles_transaction (fun t w => hround.commit t w) (fun _ h => h) ?_
  refine round_quiet hround trivial hclear fun busy seen => ?_
  refine round_quiet hround trivial hclear fun _ _ => ?_
  refine round_quiet hround trivial hclear fun busy' seen' => ?_
  have hbatch : ∀ (now : Nat) (rows : List (OutboxKey × Nat)), (∀ row ∈ rows, row.1.topic ∈ topics) →
      ((onlyIf (rows ≠ []) (run (.outbox (.take (rows.map Prod.fst) i now)))).bind
          fun _ => (.ret (rows.map fun row => (row.1, row.2 + 1)) :
            Code (List (OutboxKey × Nat)))).Settles (system cfg note) a Open d
        (fun batch ns => (∀ evt ∈ batch, evt.1.topic ∈ topics) ∧ ¬ Open ns) (fun _ ns => ¬ Open ns)
        ns := by
    intro now rows hrows
    have hends : (∀ evt ∈ rows.map fun row => (row.1, row.2 + 1), evt.1.topic ∈ topics) ∧
        ¬ Open ns := by
      refine ⟨fun evt hevt => ?_, hclear⟩
      obtain ⟨row, hrow, rfl⟩ := List.mem_map.mp hevt
      exact hrows row hrow
    refine settles_bind.mpr ?_
    simp only [onlyIf]
    split_ifs
    · exact round_run hround trivial (fun _ => hends) hclear
    · exact hends
  exact hbatch _ _ select_topics

omit hclear in
/-- The delivery of an event whose handler settles its debts. -/
theorem deliver_settles {evt : OutboxKey × Nat}
    (hhandler : (handleEvent cfg i evt.1).Settles (system cfg note) a Open d
      (fun _ ns => ¬ Open ns) (fun _ ns => ¬ Open ns) ns) :
    (deliver cfg i evt).Settles (system cfg note) a Open d (fun _ ns => ¬ Open ns)
      (fun _ ns => ¬ Open ns) ns := by
  have hfailed : ∀ e ns, ¬ Open ns →
      (handlerFailed cfg evt.1 evt.2 e).Settles (system cfg note) a Open d (fun _ ns => ¬ Open ns)
        (fun _ ns => ¬ Open ns) ns := by
    intro e ns h
    simp only [handlerFailed]
    split_ifs <;> exact round_run hround trivial (fun _ => h) h
  refine settles_orElse.mpr (settles_bind.mpr (hhandler.mono (fun _ ns h => ?_) hfailed))
  exact round_run hround trivial (fun _ => h) (hfailed _ ns h)

/-- **A round settles its debts** if the handlers of its topics do. -/
theorem runOutboxLoop_settles
    (hhandler : ∀ key ns, key.topic ∈ topics → ¬ Open ns →
      (handleEvent cfg i key).Settles (system cfg note) a Open d (fun _ ns => ¬ Open ns)
        (fun _ ns => ¬ Open ns) ns) :
    (runOutboxLoop cfg topics i).Settles (system cfg note) a Open d (fun _ ns => ¬ Open ns)
      (fun _ ns => ¬ Open ns) ns := by
  refine settles_bind.mpr ((claimOutboxBatch_settles hround hclear).mono ?_ fun _ _ h => h)
  rintro batch ns ⟨hbatch, h⟩
  exact settles_forEach (I := fun ns => ¬ Open ns)
    (fun evt hevt ns h => deliver_settles hround (hhandler evt.1 ns (hbatch evt hevt) h)) h

end Rules

end OpenUnion
