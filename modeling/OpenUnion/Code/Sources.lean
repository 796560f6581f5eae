import OpenUnion.Code.Footprints
import OpenUnion.Code.PayoutTransactions

/-!
# Where payouts come from

A payout is written with the amount of its submission's bounty, and every later
split of it is a split of that amount.  The rows this rests on are read before
they are used, by statements of their own; what is used of them is fixed, so it
still holds when the payout is written.

* `Stmt.Grounded` says what holds of the database when a payout is created, split
  or sent to the provider.
* `verifierVerdict_keeps`, `overrideVerdictRoute_keeps` and
  `handlePayoutRequested_keeps` walk through the three functions that do so.
-/

namespace OpenUnion

open Interleave

/-- The submission is worker `workerId`'s, and its bounty pays `cents`. -/
def Source (submissionId workerId cents : Nat) (w : World) : Prop :=
  ∃ sub job bounty, w.submissions submissionId = some sub ∧ w.jobs sub.jobId = some job ∧
    w.bounties job.bountyId = some bounty ∧ sub.workerId = workerId ∧ bounty.payoutCents = cents

/-- A new payout pays what its submission's bounty pays, split under some fee
settings of the organisation. -/
structure Payout.Backed (cfg : Config) (w : World) (p : Payout) : Prop where
  source : Source p.submissionId p.workerId p.amountCents w
  split : ∃ bps wallet, splitFees cfg p.amountCents bps wallet = .ok p.fees

/-- What holds when a statement outside transactions creates, splits or sends a payout. -/
def Stmt.Grounded (cfg : Config) (w : World) : Stmt → Prop
  | .payout (.upsert _ p) => p.Backed cfg w
  | .payout (.setFees p fees) => SplitOf cfg p fees w
  | .outside (.createPayout _ p n) => ∃ fees, SplitOf cfg p fees w ∧ n = fees.netAmountCents
  | _ => True

/-- The statements of `handlePayoutRequested`. -/
def PayDoes (payoutId : Nat) : Stmt → Prop
  | .read _ => True
  | .payout (.setFees p _) | .payout (.blockMissingAddress p) => p = payoutId
  | .payout (.setStatus p st _ _) => p = payoutId ∧ (st = .paid ∨ st = .failed)
  | .outside (.createPayout _ p _) => p = payoutId
  | _ => False

section Facts

variable {w w' : World}

/-- The row of a submission that has been read. -/
def Submission.Row (submissionId : Nat) (submission : Submission) (w : World) : Prop :=
  ∃ sub, w.submissions submissionId = some sub ∧ sub.origin = submission.origin

/-- The row of a job that has been read. -/
def Job.Row (jobId : Nat) (job : Job) (w : World) : Prop :=
  ∃ row, w.jobs jobId = some row ∧ row.bountyId = job.bountyId

theorem World.Grows.submissionRow (h : w.Grows w') {i : Nat} {sub : Submission}
    (hrow : w.submissions i = some sub) : Submission.Row i sub w' := by
  obtain ⟨sub', hsub', horigin⟩ := h.submissions i sub hrow
  exact ⟨sub', hsub', horigin⟩

theorem World.Grows.jobRow (h : w.Grows w') {i : Nat} {job : Job} (hrow : w.jobs i = some job) :
    Job.Row i job w' := by
  obtain ⟨job', hjob', hbounty⟩ := h.jobs i job hrow
  exact ⟨job', hjob', hbounty⟩

/-- Submission, job and bounty, each read at some time, make a source. -/
theorem Source.of_rows {i : Nat} {submission : Submission} {job : Job} {bounty : Bounty}
    (hsub : Submission.Row i submission w) (hjob : Job.Row submission.jobId job w)
    (hbounty : ∃ b, w.bounties job.bountyId = some b ∧ b.terms = bounty.terms) :
    Source i submission.workerId bounty.payoutCents w := by
  obtain ⟨sub, hsub, horigin⟩ := hsub
  obtain ⟨row, hrow, hbountyId⟩ := hjob
  obtain ⟨b, hb, hterms⟩ := hbounty
  have hjobId : sub.jobId = submission.jobId := congrArg Prod.fst horigin
  have hworker : sub.workerId = submission.workerId := congrArg Prod.snd horigin
  have hcents : b.payoutCents = bounty.payoutCents := congrArg (fun t => t.2.2.1) hterms
  exact ⟨sub, row, b, hsub, hjobId ▸ hrow, hbountyId ▸ hb, hworker, hcents⟩

/-- The amount of a payout that has been read. -/
theorem World.Grows.payoutAmount (h : w.Grows w') {p : Nat} {payout : Payout}
    (hrow : w.payouts p = some payout) :
    ∃ row, w'.payouts p = some row ∧ row.amountCents = payout.amountCents := by
  obtain ⟨row, hrow', hterms⟩ := h.payouts p payout hrow
  exact ⟨row, hrow', congrArg (fun t => t.2.2) hterms⟩

end Facts

section Walks

variable {H : Type} {cfg : Config} {note : Actor Request → Happening → World → List H}
  {τ : Terms World Lock H} {a : Actor Request} {D : Conduct Stmt Tag World Lock H}
  {tags : Tag → Prop} {known : World → Prop} {Out : Stmt → Prop}

/-- `Out` is what the conduct allows of grounded statements. -/
def Permits (cfg : Config) (Out : Stmt → Prop) (D : Conduct Stmt Tag World Lock H) : Prop :=
  ∀ g s busy, Out s → s.Grounded cfg g.world → D.out g s busy

/-- A question and what follows it, which may rely on the answer. -/
theorem Lenient.learn {β : Type} {q : Query} {f : q.Val → Code β} (hD : Lenient cfg τ a.pid D tags)
    (hf : ∀ w r, q.eval w = r → (f r).Keeps (system cfg note) τ a D fun x => known x ∧ τ.grow w x) :
    ((ask q).bind f).Keeps (system cfg note) τ a D known :=
  Prog.keeps_learn fun g busy _ _ _ => ⟨hD.read g q busy, hf g.world _ rfl⟩

theorem getBounty_keeps {β : Type} {b : Nat} {f : Bounty → Code β} (hD : Lenient cfg τ a.pid D tags)
    (hf : ∀ w bounty, w.bounties b = some bounty →
      (f bounty).Keeps (system cfg note) τ a D fun x => known x ∧ τ.grow w x) :
    ((getBountyOrThrow b).bind f).Keeps (system cfg note) τ a D known := by
  simp only [getBountyOrThrow, bind_eq_bind, Prog.bind_assoc]
  refine hD.learn fun w r hrow => ?_
  cases r with
  | none => exact Prog.keeps_fail
  | some bounty => exact hf w bounty hrow

/-- `addPayout` and its event, for a submission whose bounty pays the amount. -/
theorem createPayout_keeps {submissionId workerId : Nat} {bounty : Bounty}
    (hD : Lenient cfg τ a.pid D tags)
    (hupsert : ∀ g id p busy, p.submissionId = submissionId → p.status = .pending →
      p.Backed cfg g.world → D.out g (.payout (.upsert id p)) busy)
    (henqueue : ∀ g p t now busy, D.out g (.outbox (.insertOrIgnore (.payout p) t now)) busy)
    (hsource : ∀ w, known w → Source submissionId workerId bounty.payoutCents w) :
    (createPayout cfg submissionId workerId bounty).Keeps (system cfg note) τ a D known := by
  simp only [createPayout, addPayout, bind_eq_bind, Prog.bind_assoc]
  refine Prog.keeps_perform_bind hD.nanoid fun id => ?_
  refine Prog.keeps_perform_bind (fun g _ => hD.read g _ _) fun ctx => ?_
  refine Prog.keeps_perform_bind (fun g _ => hD.read g _ _) fun now => ?_
  cases hsplit : splitFees cfg bounty.payoutCents
      ((ctx.map PayoutContext.platformFeeBps).getD 0)
      (ctx.bind PayoutContext.platformFeeWalletAddress) with
  | error e => exact Prog.keeps_fail
  | ok fees =>
      refine Prog.keeps_learn fun g busy _ hknown _ => ⟨?_, ?_⟩
      · exact hupsert g id _ busy rfl rfl ⟨hsource g.world hknown, _, _, hsplit⟩
      · generalize (system cfg note).engine.result _ busy g.world = r
        cases r with
        | none => exact Prog.keeps_fail
        | some payout =>
            refine Prog.keeps_perform_bind (fun g _ => hD.read g _ _) fun t => ?_
            refine Prog.keeps_perform_bind (fun g _ => hD.read g _ _) fun t' => ?_
            exact Prog.keeps_perform fun g busy => henqueue g _ _ _ busy

end Walks

section Verdicts

variable {H : Type} {cfg : Config} {note : Actor Request → Happening → World → List H}
  {τ : Terms World Lock H} {a : Actor Request} {D : Conduct Stmt Tag World Lock H}
  {tags : Tag → Prop} {known : World → Prop} {body : VerdictBody} {submission : Submission}
  {job : Job} {verificationId : Nat}

theorem completeJob_keeps (hD : Lenient cfg τ a.pid D tags)
    (hout : Permits cfg (VerdictDoes body) D)
    (hsub : ∀ w, known w → Submission.Row body.submissionId submission w)
    (hjob : ∀ w, known w → Job.Row submission.jobId job w) :
    (completeJob cfg body verificationId submission (job.judged body)).Keeps (system cfg note) τ a D
      known := by
  refine Prog.keeps_perform_bind (fun g _ => hD.read g _ _) fun doneAt => ?_
  refine Prog.keeps_perform_bind (fun g busy => hout g _ busy
    ⟨⟨job, Job.completed_rewrites body doneAt⟩, Or.inl rfl⟩ trivial) fun _ => ?_
  refine Prog.Keeps.bind (Prog.Keeps.ite (fun hpass => ?_) fun _ => Prog.keeps_ret)
    fun _ => Prog.keeps_ret
  refine getBounty_keeps hD fun w bounty hrow => Prog.Keeps.bind ?_ fun _ => ?_
  · refine createPayout_keeps hD
      (fun g id p busy hs hst hbacked => hout g _ busy ⟨hpass, hs, hst⟩ hbacked)
      (fun g p t now busy => hout g _ busy hpass trivial) fun x hx => ?_
    exact Source.of_rows (hsub x hx.1) (hjob x hx.1) ((hD.grow _ _ hx.2).bounties _ _ hrow)
  · exact Prog.keeps_perform fun g busy => hout g _ busy hpass trivial

theorem requeueOrComplete_keeps (hD : Lenient cfg τ a.pid D tags)
    (hout : Permits cfg (VerdictDoes body) D)
    (hsub : ∀ w, known w → Submission.Row body.submissionId submission w)
    (hjob : ∀ w, known w → Job.Row submission.jobId job w) :
    (requeueOrComplete cfg body verificationId submission (job.judged body)).Keeps
      (system cfg note) τ a D known := by
  have hcomplete : (completeJob cfg body verificationId submission (job.judged body)).Keeps
      (system cfg note) τ a D known := completeJob_keeps hD hout hsub hjob
  refine Prog.Keeps.ite (fun _ => ?_) fun _ => hcomplete
  refine Prog.keeps_perform_bind (fun g _ => hD.read g _ _) fun attempts => ?_
  refine Prog.Keeps.ite (fun _ => ?_) fun _ => hcomplete
  refine Prog.keeps_perform_bind hD.nanoid fun id => ?_
  refine Prog.Keeps.bind ?_ fun _ => Prog.Keeps.bind ?_ fun _ => ?_
  · refine Prog.keeps_perform_bind (fun g busy => hout g _ busy ⟨rfl, rfl⟩ trivial) fun free => ?_
    cases free <;> first | exact Prog.keeps_ret | exact Prog.keeps_fail
  · refine Prog.keeps_perform_bind (fun g _ => hD.read g _ _) fun now => ?_
    exact Prog.keeps_perform fun g busy => hout g _ busy rfl trivial
  · exact Prog.keeps_perform_bind (fun g busy => hout g _ busy
      ⟨⟨job, Job.requeued_rewrites body⟩, Or.inr rfl⟩ trivial) fun _ => Prog.keeps_ret

theorem registerOnPass_keeps (hD : Lenient cfg τ a.pid D tags)
    (hout : Permits cfg (VerdictDoes body) D) :
    (registerOnPass submission body.verdict).Keeps (system cfg note) τ a D known := by
  simp only [registerOnPass]
  cases submission.dedupeKey with
  | none => exact Prog.keeps_ret
  | some dedupeKey =>
      refine Prog.Keeps.ite (fun hpass => ?_) fun _ => Prog.keeps_ret
      refine Prog.keeps_perform_bind (fun g _ => hD.read g _ _) fun r => ?_
      cases r with
      | none => exact Prog.keeps_ret
      | some job =>
          refine getBounty_keeps hD fun _ _ _ => ?_
          exact Prog.keeps_perform fun g busy => hout g _ busy hpass trivial

theorem applyVerdict_keeps (hD : Lenient cfg τ a.pid D tags)
    (hout : Permits cfg (VerdictDoes body) D) :
    (applyVerdict cfg body verificationId).Keeps (system cfg note) τ a D known := by
  refine hD.learn fun w r hsub => ?_
  cases r with
  | none => exact Prog.keeps_ret
  | some submission =>
      refine Prog.keeps_perform_bind (fun g busy => hout g _ busy ⟨rfl, submission, rfl⟩ trivial)
        fun _ => Prog.Keeps.bind ?_ fun _ => (registerOnPass_keeps hD hout).bind fun _ => ?_
      · refine Prog.keeps_perform_bind (fun g _ => hD.read g _ _) fun row => ?_
        exact Prog.keeps_perform fun g busy => hout g _ busy trivial trivial
      · refine hD.learn fun w' r hjob => ?_
        cases r with
        | none => exact Prog.keeps_ret
        | some job =>
            exact requeueOrComplete_keeps hD hout
              (fun x hx => (hD.grow _ _ hx.1.2).submissionRow hsub)
              fun x hx => (hD.grow _ _ hx.2).jobRow hjob

/-- What the verdict route does. -/
theorem verifierVerdict_keeps (hD : Lenient cfg τ a.pid D tags)
    (hout : Permits cfg (VerdictDoes body) D) :
    (verifierVerdict cfg body).Keeps (system cfg note) τ a D known := by
  refine Prog.keeps_perform_bind (fun g _ => hD.read g _ _) fun r => ?_
  cases r with
  | none => exact Prog.keeps_ret
  | some verification =>
      refine Prog.Keeps.ite (fun _ => Prog.keeps_ret) fun _ => ?_
      refine Prog.Keeps.ite (fun _ => ?_) fun _ => ?_
      · refine Prog.keeps_perform_bind (fun g _ => hD.read g _ _) fun r => ?_
        cases r with
        | none => exact Prog.keeps_ret
        | some submission =>
            exact Prog.keeps_perform_bind (fun g _ => hD.read g _ _) fun _ => Prog.keeps_ret
      · refine Prog.keeps_perform_bind (fun g _ => hD.read g _ _) fun now => ?_
        refine Prog.Keeps.ite (fun _ => Prog.keeps_ret) fun _ => ?_
        exact Prog.keeps_perform_bind (fun g busy => hout g _ busy ⟨rfl, rfl, rfl⟩ trivial)
          fun _ => applyVerdict_keeps hD hout

/-- What the override route does. -/
theorem overrideVerdictRoute_keeps {submissionId : Nat} {verdict : Option Verdict}
    {score : Option Nat} (hD : Lenient cfg τ a.pid D tags)
    (hout : Permits cfg (OverrideDoes submissionId) D) :
    (overrideVerdictRoute cfg submissionId verdict score).Keeps (system cfg note) τ a D known := by
  refine hD.learn fun w r hrow => ?_
  cases r with
  | none => exact Prog.keeps_ret
  | some row =>
      cases verdict with
      | none => exact Prog.keeps_ret
      | some verdict =>
          refine Prog.keeps_perform_bind
            (fun g busy => hout g _ busy ⟨rfl, row, verdict, score, rfl⟩ trivial) fun _ => ?_
          refine hD.learn fun w' r hjob => ?_
          cases r with
          | none => exact Prog.Keeps.ite (fun _ => Prog.keeps_ret) fun _ => Prog.keeps_ret
          | some job =>
              refine Prog.keeps_perform_bind (fun g busy => hout g _ busy
                ⟨⟨job, Job.overridden_rewrites _ _⟩, rfl⟩ trivial) fun _ => ?_
              refine Prog.Keeps.bind (Prog.Keeps.ite (fun _ => ?_) fun _ => Prog.keeps_ret)
                fun _ => Prog.keeps_ret
              refine getBounty_keeps hD fun w'' bounty hbounty => Prog.Keeps.bind ?_ fun _ => ?_
              · refine createPayout_keeps hD
                  (fun g id p busy hs hst hbacked => hout g _ busy ⟨hs, hst⟩ hbacked)
                  (fun g p t now busy => hout g _ busy trivial trivial) fun x hx => ?_
                have hsub : Submission.Row submissionId row x :=
                  (hD.grow _ _ hx.1.1.2).submissionRow hrow
                exact Source.of_rows hsub ((hD.grow _ _ hx.1.2).jobRow hjob)
                  ((hD.grow _ _ hx.2).bounties _ _ hbounty)
              · cases (row.overridden verdict score).dedupeKey with
                | none => exact Prog.keeps_ret
                | some key => exact Prog.keeps_perform fun g busy => hout g _ busy trivial trivial

end Verdicts

section Payments

variable {H : Type} {cfg : Config} {note : Actor Request → Happening → World → List H}
  {τ : Terms World Lock H} {a : Actor Request} {D : Conduct Stmt Tag World Lock H}
  {tags : Tag → Prop} {known : World → Prop} {p : Nat} {fees : Fees}

theorem payProvider_keeps (hout : Permits cfg (PayDoes p) D)
    (hsplit : ∀ w, known w → SplitOf cfg p fees w) :
    (payProvider cfg p fees).Keeps (system cfg note) τ a D known := by
  have hstatus : ∀ st ref, st = PayoutStatus.paid ∨ st = .failed →
      ((markPayoutStatus p st (some (some cfg.paymentsProvider)) (some (some ref))).bind
        fun _ => (Prog.ret () : Code Unit)).Keeps (system cfg note) τ a D known := fun st ref hst =>
    Prog.keeps_perform_bind (fun g busy => hout g _ busy ⟨rfl, hst⟩ trivial) fun _ => Prog.keeps_ret
  refine Prog.Keeps.ite (fun _ => Prog.keeps_fail) fun _ => ?_
  refine Prog.Keeps.bind (Prog.keeps_known fun g busy _ hg => ?_) fun _ => ?_
  · exact hout g (.payout (.setFees p fees)) busy rfl (hsplit _ hg)
  refine Prog.Keeps.bind (Prog.keeps_known fun g busy _ hg => ?_) fun reply => ?_
  · exact hout g (.outside (.createPayout _ p fees.netAmountCents)) busy rfl
      ⟨fees, hsplit _ hg, rfl⟩
  cases reply with
  | paid ref => exact hstatus _ ref (Or.inl rfl)
  | failed ref => exact hstatus _ ref (Or.inr rfl)
  | httpError => exact Prog.keeps_fail
  | invalidResponse => exact Prog.keeps_fail
  | noReply => exact Prog.keeps_fail

theorem payCrypto_keeps {payout : Payout} (hD : Lenient cfg τ a.pid D tags)
    (htag : ∀ hash, tags (.broadcast p hash))
    (hblock : ∀ g busy, D.out g (.payout (.blockMissingAddress p)) busy)
    (hsplit : ∀ w, known w → SplitOf cfg p fees w) :
    (payCrypto cfg p payout fees).Keeps (system cfg note) τ a D known := by
  refine Prog.Keeps.ite (fun _ => Prog.keeps_fail) fun hwallet => ?_
  refine Prog.Keeps.ite (fun _ => Prog.keeps_fail) fun _ => ?_
  refine Prog.keeps_perform_bind (fun g _ => hD.read g _ _) fun worker => ?_
  refine Prog.Keeps.ite (fun _ => ?_) fun haddress => ?_
  · exact Prog.keeps_perform hblock
  · exact (broadcastPayout_keeps hD htag hsplit (fun h => haddress (Or.inl h)) hwallet).bind
      fun _ => Prog.keeps_ret

/-- The handler up to the payment, which may rely on the split. -/
theorem handlePayoutRequested_keeps_of (hD : Lenient cfg τ a.pid D tags)
    (hpay : ∀ payout fees known', (∀ w, known' w → SplitOf cfg p fees w) →
      (if cfg.paymentsProvider.isCrypto then payCrypto cfg p payout fees
        else payProvider cfg p fees).Keeps (system cfg note) τ a D known') :
    (handlePayoutRequested cfg p).Keeps (system cfg note) τ a D known := by
  refine hD.learn fun w₀ r hrow => ?_
  cases r with
  | none => exact Prog.keeps_fail
  | some payout =>
      refine Prog.keeps_perform_bind (fun g _ => hD.read g _ _) fun now => ?_
      refine Prog.Keeps.ite (fun _ => Prog.keeps_ret) fun _ => ?_
      refine Prog.keeps_perform_bind (fun g _ => hD.read g _ _) fun org => ?_
      refine Prog.Keeps.ite (fun _ => Prog.keeps_fail) fun _ => ?_
      refine Prog.Keeps.ite (fun _ => Prog.keeps_fail) fun hwallet => ?_
      cases hfees : splitFees cfg payout.amountCents ((org.map Org.platformFeeBps).getD 0)
          (org.bind Org.platformFeeWalletAddress) with
      | error e => exact Prog.keeps_fail
      | ok fees =>
          have hsplit : ∀ w, (known w ∧ τ.grow w₀ w) → SplitOf cfg p fees w := by
            intro w hw
            obtain ⟨row, hrow', hamount⟩ := (hD.grow _ _ hw.2).payoutAmount hrow
            exact ⟨row, _, _, hrow', fun hpos hnone => hwallet ⟨hpos, hnone⟩, hamount ▸ hfees⟩
          exact hpay payout fees _ hsplit

theorem handlePayoutRequested_keeps (hD : Lenient cfg τ a.pid D tags)
    (htag : ∀ hash, tags (.broadcast p hash)) (hout : Permits cfg (PayDoes p) D) :
    (handlePayoutRequested cfg p).Keeps (system cfg note) τ a D known := by
  refine handlePayoutRequested_keeps_of hD fun payout fees known' hsplit => ?_
  refine Prog.Keeps.ite (fun _ => payCrypto_keeps hD htag (fun g busy => ?_) hsplit)
    fun _ => payProvider_keeps hout hsplit
  exact hout g (.payout (.blockMissingAddress p)) busy rfl trivial

end Payments

end OpenUnion
