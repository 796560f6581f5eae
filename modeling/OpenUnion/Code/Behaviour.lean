import OpenUnion.Code.Sources

/-!
# What each request does

`Request.Executes` lists the statements a request executes outside transactions,
`Request.Ends` the transactions it commits.  Together with the effects of the
commits they are the request's conduct, and `Request.code_does` proves that every
request keeps to it.  A claim about runs of the system starts from there.
-/

namespace OpenUnion

open Interleave

/-- Reads and fresh identifiers. -/
def Reads : Stmt → Prop
  | .read _ | .nanoid => True
  | _ => False

/-- The statements of `handlePayoutConfirmRequested`. -/
def ConfirmDoes (payoutId : Nat) : Stmt → Prop
  | .read _ => True
  | .transfer (.setAll p st) => p = payoutId ∧ st ≠ .broadcast
  | .payout (.setStatus p st _ _) => p = payoutId ∧ (st = .paid ∨ st = .failed)
  | _ => False

/-- The statements of the handler of an event. -/
def HandlerDoes : OutboxKey → Stmt → Prop
  | .payout p, s => PayDoes p s
  | .payoutConfirm p, s => ConfirmDoes p s
  | .disputeAutoRefund _, _ => False
  | .verification i n, s =>
      ClaimDoes i n s ∨
        ∃ body : VerdictBody, body.submissionId = i ∧ body.attemptNo = n ∧
          VerdictDoes body s

/-- What the loop does with an event after its handler. -/
def FinalDoes (key : OutboxKey) : Stmt → Prop
  | .outbox (.markSent k) | .outbox (.reschedule k _ _) | .outbox (.markDead k _) => k = key
  | _ => False

/-- The statements of a round of the outbox loop. -/
def RoundDoes (topics : List Topic) (s : Stmt) : Prop :=
  ∃ key : OutboxKey, key.topic ∈ topics ∧ (HandlerDoes key s ∨ FinalDoes key s)

/-- The statements of the mark-duplicate route. -/
def MarkDuplicateDoes (submissionId : Nat) : Stmt → Prop
  | .read _ | .nanoid => True
  | .submission (.update i s) => i = submissionId ∧ s.status = .duplicate
  | .job (.update _ row) => (∃ job, row.Rewrites job) ∧ row.status = .done
  | _ => False

/-- The statements of the retry route. -/
def RetryDoes (payoutId : Nat) : Stmt → Prop
  | .read _ | .nanoid => True
  | .payout (.setStatus p st pr ref) =>
      p = payoutId ∧ st = .pending ∧ pr = some none ∧ ref = some none
  | .outbox (.reopen k _ _ _) | .outbox (.insert k _ _) => k = .payout payoutId
  | _ => False

/-- The statements of the mark route. -/
def MarkDoes (payoutId : Nat) (status : PayoutStatus) : Stmt → Prop
  | .read _ | .nanoid => True
  | .payout (.setStatus p st _ _) => p = payoutId ∧ st = status ∧ st ≠ .pending
  | .outbox (.stop k _) => k = .payout payoutId
  | .submission (.setPayoutStatus _ _) => True
  | _ => False

/-- The statements of the Stripe webhook outside its transaction. -/
def WebhookDoes : Stmt → Prop
  | .stripe _ => True
  | _ => False

/-- The statements of the admin top-up. -/
def TopupDoes (orgId amountCents : Nat) : Stmt → Prop
  | .read _ | .nanoid => True
  | .account (.insertOrIgnore o) => o = orgId
  | .account (.credit o n) => o = orgId ∧ n = amountCents
  | .billing e => e.account = orgId ∧ e.kind = .adminTopup ∧ e.amountCents = amountCents
  | _ => False

/-- The statements of the platform-fee route. -/
def FeeDoes (orgId platformFeeBps : Nat) : Stmt → Prop
  | .read _ | .nanoid => True
  | .platformFee o bps wallet => o = orgId ∧ bps = platformFeeBps ∧ (0 < bps → wallet ≠ none)
  | _ => False

/-- The statements a request executes outside transactions. -/
def Request.Executes : Request → Stmt → Prop
  | .publish _ _ _, s | .pause _ _, s | .close _ _, s | .claim _ _, s => Reads s
  | .createDispute _ _ _, s | .cancelDispute _ _, s | .resolveDispute _ _, s => Reads s
  | .release i j n, s => Reads s ∨ s = .job (.release j i n)
  | .reapLeases, s => Reads s ∨ ∃ t, s = .job (.reap t)
  | .submit i j _ _, s => SubmitDoes j i (fun job => job.leaseWorkerId = some i) s
  | .verifierClaim body, s => ClaimDoes body.submissionId body.attemptNo s
  | .verifierVerdict body, s => VerdictDoes body s
  | .markDuplicate i, s => MarkDuplicateDoes i s
  | .payoutAddress i a, s => Reads s ∨ ∃ t, s = .payoutAddress i a t
  | .retryPayout p, s => RetryDoes p s
  | .markPayout p st _ _ _, s => MarkDoes p st s
  | .stripeWebhook _, s => Reads s ∨ WebhookDoes s
  | .adminTopup o n, s => TopupDoes o n s
  | .requeueVerification i n, s => RequeueDoes i n s
  | .overrideVerdict i _ _, s => OverrideDoes i s
  | .platformFee o bps _, s => FeeDoes o bps s
  | .payoutRunner, s => Reads s ∨ RoundDoes payoutTopics s
  | .verificationRunner, s => Reads s ∨ RoundDoes verificationTopics s

/-- The transactions a request commits. -/
def Request.Ends : Request → Tag → Prop
  | .publish _ b _, t => t = .publishBounty b
  | .pause _ b, t => t = .setBountyStatus b .paused
  | .close _ b, t => ∃ r, t = statusTag b .closed r
  | .claim i j, t => t = .leaseJob j i
  | .createDispute _ _ _, t => ∃ d p, t = .createDispute d p
  | .cancelDispute _ d, t => t = .cancelDispute d
  | .resolveDispute d refund, t => t = .resolveDispute d refund
  | .payoutAddress i _, t => t = .unblockPayouts i
  | .stripeWebhook _, t => ∃ e, t = .stripeWebhook e
  | .payoutRunner, t =>
      t = .claimOutboxBatch ∨ (∃ p hash, t = .broadcast p hash) ∨ ∃ d, t = .resolveDispute d true
  | .verificationRunner, t => t = .claimOutboxBatch
  | _, _ => False

/-- The conduct of a request. -/
def Request.conduct {H : Type} (cfg : Config) (hold : Lock → World → World → Prop)
    (a : Actor Request) : Conduct Stmt Tag World Lock H where
  out g s _ := a.req.Executes s ∧ s.Grounded cfg g.world
  inside g s _ _ := s.Inner cfg g.world
  commit g t L w := a.req.Ends t ∧ t.Effect cfg hold a.pid L g.world w

section Routes

variable {cfg : Config}

theorem orThrow_every {Out : Stmt → Prop} {α : Type} {e : Except Err α} :
    (orThrow e).Every Out := by simp

theorem settleTransfers_every {p hash : Nat} {provider : Provider} {receipt : Receipt} :
    (settleTransfers cfg p hash provider receipt).Every (ConfirmDoes p) := by
  simp only [settleTransfers]
  split_ifs
  · simp [markPayoutStatus, ConfirmDoes]
  · simp only [bind_eq_bind, Prog.every_perform_bind]
    refine ⟨trivial, fun latest => ?_⟩
    split_ifs <;> simp [markPayoutStatus, ConfirmDoes]

theorem handlePayoutConfirmRequested_every {p : Nat} :
    (handlePayoutConfirmRequested cfg p).Every (ConfirmDoes p) := by
  simp only [handlePayoutConfirmRequested, bind_eq_bind, Prog.every_perform_bind]
  refine ⟨trivial, fun r => ?_⟩
  cases r with
  | none => simp
  | some payout =>
      dsimp only
      split_ifs
      · simp
      · simp only [Prog.every_perform_bind]
        refine ⟨trivial, fun transfers => ?_⟩
        cases transfers with
        | nil => simp
        | cons first rest =>
            dsimp only
            split_ifs
            · simp [markPayoutStatus, ConfirmDoes]
            · simp only [Prog.every_perform_bind]
              refine ⟨trivial, fun receipt => ?_⟩
              cases receipt with
              | none => simp
              | some receipt => exact settleTransfers_every

theorem markDuplicateRoute_every {i : Nat} :
    (markDuplicateRoute i).Every (MarkDuplicateDoes i) := by
  simp only [markDuplicateRoute, bind_eq_bind, Prog.every_perform_bind]
  refine ⟨trivial, fun r => ?_⟩
  cases r with
  | none => simp
  | some sub =>
      simp only [Prog.every_perform_bind]
      refine ⟨⟨rfl, rfl⟩, fun _ => ⟨trivial, fun r => ?_⟩⟩
      cases r with
      | none => simp
      | some job =>
          simp only [Prog.every_perform_bind]
          exact ⟨⟨⟨job, Job.markedDuplicate_rewrites⟩, rfl⟩, by simp⟩

theorem requeueRoute_every {i n : Nat} : (requeueRoute i n).Every (RequeueDoes i n) := by
  simp only [requeueRoute, bind_eq_bind, Prog.every_perform_bind]
  refine ⟨trivial, fun r => ?_⟩
  cases r <;> simp [RequeueDoes]

theorem platformFeeRoute_every {o bps : Nat} {wallet : WalletField} :
    (platformFeeRoute cfg o bps wallet).Every (FeeDoes o bps) := by
  have hstore : ∀ w : Option Nat, (0 < bps → w ≠ none) →
      (platformFeeRoute.store o bps w).Every (FeeDoes o bps) := by
    intro w hw
    simp only [platformFeeRoute.store, bind_eq_bind, Prog.every_perform_bind]
    exact ⟨⟨rfl, rfl, hw⟩, fun r => by cases r <;> simp⟩
  by_cases hmax : 10000 < cfg.maxOrgPlatformFeeBps
  · simp [platformFeeRoute, hmax]
  · by_cases hbps : cfg.maxOrgPlatformFeeBps < bps
    · simp [platformFeeRoute, hmax, hbps]
    · simp only [platformFeeRoute, if_neg hmax, if_neg hbps]
      cases wallet with
      | invalid => simp
      | absent =>
          by_cases hpos : 0 < bps
          · simp [hpos]
          · simpa only [if_neg hpos] using hstore none fun h => absurd h hpos
      | address w => exact hstore (some w) fun _ => by simp

theorem retryRoute_every {p : Nat} : (retryRoute p).Every (RetryDoes p) := by
  simp only [retryRoute, bind_eq_bind, Prog.every_perform_bind]
  refine ⟨trivial, fun r => ?_⟩
  cases r with
  | none => simp
  | some payout =>
      dsimp only
      split_ifs
      · simp
      · simp
      · cases payout.blockedReason with
        | some reason => simp
        | none =>
            simp only [markPayoutStatus, Prog.every_perform_bind]
            refine ⟨⟨rfl, rfl, rfl, rfl⟩, fun _ => ⟨trivial, fun now => ⟨trivial, fun e => ?_⟩⟩⟩
            cases e with
            | some e => simp [RetryDoes]
            | none =>
                dsimp only
                refine Prog.Every.bind ?_ fun _ => by simp
                simp [RetryDoes]

theorem markRoute_every {p : Nat} {st : PayoutStatus} {provider : Option Provider}
    {ref : Option Nat} {reason : String} :
    (markRoute p st provider ref reason).Every (MarkDoes p st) := by
  simp only [markRoute, bind_eq_bind, Prog.every_perform_bind]
  refine ⟨trivial, fun r => ?_⟩
  cases r with
  | none => simp
  | some payout =>
      dsimp only
      split_ifs with hpending
      · simp
      · simp
      · simp [markPayoutStatus, MarkDoes, hpending]

theorem adminTopup_every {o n : Nat} : (adminTopup o n).Every (TopupDoes o n) := by
  simp only [adminTopup]
  split_ifs
  · simp
  · simp only [bind_eq_bind, Prog.every_perform_bind]
    refine ⟨trivial, fun now => ⟨rfl, fun _ => ⟨trivial, fun r => ?_⟩⟩⟩
    cases r with
    | none => simp
    | some account =>
        simp only [Prog.every_perform_bind]
        refine ⟨⟨rfl, rfl⟩, fun _ => Prog.Every.bind ?_ fun _ => by simp⟩
        simp only [insertBillingEvent, bind_eq_bind, Prog.every_perform_bind]
        exact ⟨⟨rfl, rfl, rfl⟩, fun booked => by cases booked <;> simp⟩

end Routes

section Requests

variable {H : Type} {cfg : Config} {note : Actor Request → Happening → World → List H}
  {τ : Terms World Lock H} {a : Actor Request} {D : Conduct Stmt Tag World Lock H}
  {tags : Tag → Prop} {known : World → Prop}

theorem Lenient.reads (hD : Lenient cfg τ a.pid D tags) (g : Glob World H) (s : Stmt)
    (busy : Lock → Bool) (h : Reads s) : D.out g s busy := by
  cases s <;> first | exact hD.read g _ busy | exact hD.nanoid g busy | exact h.elim

/-- A program that creates, splits and sends no payout. -/
theorem Prog.Every.permitted {α : Type} {p : Code α} {Out : Stmt → Prop} (hp : p.Every Out)
    (hout : Permits cfg Out D) (hupsert : ∀ i row, ¬ Out (.payout (.upsert i row)))
    (hfees : ∀ i fees, ¬ Out (.payout (.setFees i fees)))
    (hcreate : ∀ mock i n, ¬ Out (.outside (.createPayout mock i n))) :
    p.Keeps (system cfg note) τ a D known := by
  refine hp.keeps fun g s busy hs => hout g s busy hs ?_
  cases s with
  | payout s =>
      cases s with
      | upsert i row => exact absurd hs (hupsert i row)
      | setFees i fees => exact absurd hs (hfees i fees)
      | _ => trivial
  | outside s =>
      cases s with
      | createPayout mock i n => exact absurd hs (hcreate mock i n)
      | sendRawTransaction i call n => trivial
  | _ => trivial

theorem handleVerificationRequested_keeps {i n : Nat} (hD : Lenient cfg τ a.pid D tags)
    (hout : Permits cfg (HandlerDoes (.verification i n)) D) :
    (handleVerificationRequested cfg a.pid i n).Keeps (system cfg note) τ a D known := by
  refine Prog.Keeps.bind ?_ fun r => ?_
  · exact Prog.Every.permitted (verifierClaim_every _) (fun g s busy h => hout g s busy (Or.inl h))
      (fun _ _ h => h) (fun _ _ h => h) fun _ _ _ h => h
  · cases r with
    | error status code message => exact Prog.keeps_fail
    | ok claim =>
        refine Prog.keeps_perform_bind (fun g _ => hD.read g _ _) fun answer => ?_
        refine (verifierVerdict_keeps hD fun g s busy h =>
          hout g s busy (Or.inr ⟨_, rfl, rfl, h⟩)).bind fun posted => ?_
        cases posted <;> first | exact Prog.keeps_ret | exact Prog.keeps_fail

theorem handleDisputeAutoRefund_keeps {d : Nat} (hD : Lenient cfg τ a.pid D tags)
    (htag : tags (.resolveDispute d true)) :
    (handleDisputeAutoRefundRequested d).Keeps (system cfg note) τ a D known := by
  refine ((resolveDispute_keeps hD htag).bind fun _ => Prog.keeps_ret).orElse fun e => ?_
  exact Prog.Keeps.ite (fun _ => Prog.keeps_ret) fun _ => Prog.keeps_fail

/-- The handler of an event. -/
theorem handleEvent_keeps (hD : Lenient cfg τ a.pid D tags) {key : OutboxKey}
    (hbroadcast : ∀ p hash, key = .payout p → tags (.broadcast p hash))
    (hrefund : ∀ d, key = .disputeAutoRefund d → tags (.resolveDispute d true))
    (hout : Permits cfg (HandlerDoes key) D) :
    (handleEvent cfg a.pid key).Keeps (system cfg note) τ a D known := by
  cases key with
  | payout p => exact handlePayoutRequested_keeps hD (fun hash => hbroadcast p hash rfl) hout
  | payoutConfirm p =>
      exact Prog.Every.permitted handlePayoutConfirmRequested_every hout (fun _ _ h => h)
        (fun _ _ h => h) fun _ _ _ h => h
  | disputeAutoRefund d => exact handleDisputeAutoRefund_keeps hD (hrefund d rfl)
  | verification i n => exact handleVerificationRequested_keeps hD hout

/-- The delivery of an event, from what its handler does. -/
theorem deliver_keeps_of {evt : OutboxKey × Nat}
    (hhandler : (handleEvent cfg a.pid evt.1).Keeps (system cfg note) τ a D known)
    (hfinal : ∀ s : OutboxStmt, FinalDoes evt.1 (.outbox s) → ∀ g busy, D.out g (.outbox s) busy) :
    (deliver cfg a.pid evt).Keeps (system cfg note) τ a D known := by
  refine (hhandler.bind fun _ => Prog.keeps_perform (hfinal (.markSent evt.1) rfl)).orElse
    fun e => ?_
  exact Prog.Keeps.ite (fun _ => Prog.keeps_perform (hfinal (.markDead evt.1 e) rfl))
    fun _ => Prog.keeps_perform (hfinal (.reschedule evt.1 e _) rfl)

/-- The delivery of an event. -/
theorem deliver_keeps (hD : Lenient cfg τ a.pid D tags) {evt : OutboxKey × Nat}
    (hbroadcast : ∀ p hash, evt.1 = .payout p → tags (.broadcast p hash))
    (hrefund : ∀ d, evt.1 = .disputeAutoRefund d → tags (.resolveDispute d true))
    (hout : Permits cfg (fun s => HandlerDoes evt.1 s ∨ FinalDoes evt.1 s) D) :
    (deliver cfg a.pid evt).Keeps (system cfg note) τ a D known := by
  have hhandler : (handleEvent cfg a.pid evt.1).Keeps (system cfg note) τ a D known :=
    handleEvent_keeps hD hbroadcast hrefund fun g s busy h => hout g s busy (Or.inl h)
  exact deliver_keeps_of hhandler fun s h g busy => hout g (.outbox s) busy (Or.inr h) trivial

/-- A round of the outbox loop, from what its deliveries do. -/
theorem runOutboxLoop_keeps_of (hD : Lenient cfg τ a.pid D tags) {topics : List Topic}
    (hclaim : tags .claimOutboxBatch)
    (hdeliver : ∀ evt : OutboxKey × Nat, evt.1.topic ∈ topics →
      (deliver cfg a.pid evt).Keeps (system cfg note) τ a D known) :
    (runOutboxLoop cfg topics a.pid).Keeps (system cfg note) τ a D known := by
  intro σ hσ
  refine does_bind.mpr ((claimOutboxBatch_does hD hclaim hσ).mono ?_ (fun _ _ h => h)
    (fun _ _ _ h => h) (fun _ _ _ _ h => h) fun _ _ _ _ h => h)
  rintro batch σ' ⟨hσ', hbatch, -⟩
  exact Prog.keeps_forEach (fun evt hevt => hdeliver evt (hbatch.topic evt hevt)) σ' hσ'

/-- A round of the outbox loop. -/
theorem runOutboxLoop_keeps (hD : Lenient cfg τ a.pid D tags) {topics : List Topic}
    (hclaim : tags .claimOutboxBatch)
    (hbroadcast : ∀ p hash, .payoutRequested ∈ topics → tags (.broadcast p hash))
    (hrefund : ∀ d, .disputeAutoRefundRequested ∈ topics → tags (.resolveDispute d true))
    (hout : Permits cfg (RoundDoes topics) D) :
    (runOutboxLoop cfg topics a.pid).Keeps (system cfg note) τ a D known := by
  refine runOutboxLoop_keeps_of hD hclaim fun evt htopic => ?_
  refine deliver_keeps hD ?_ ?_ fun g s busy h => hout g s busy ⟨evt.1, htopic, h⟩
  · rintro p hash hkey
    rw [hkey] at htopic
    exact hbroadcast p hash htopic
  · rintro d hkey
    rw [hkey] at htopic
    exact hrefund d htopic

theorem claimRoute_keeps {i j : Nat} (hD : Lenient cfg τ a.pid D tags) (htag : tags (.leaseJob j i)) :
    (claimRoute cfg i j).Keeps (system cfg note) τ a D known := by
  refine Prog.keeps_perform_bind (fun g _ => hD.read g _ _) fun existing => ?_
  refine Prog.Keeps.ite (fun _ => Prog.keeps_ret) fun _ => ?_
  refine Prog.keeps_perform_bind (fun g _ => hD.read g _ _) fun r => ?_
  cases r with
  | none => exact Prog.keeps_ret
  | some job =>
      refine Prog.keeps_perform_bind (fun g _ => hD.read g _ _) fun now => ?_
      refine Prog.Keeps.ite (fun _ => Prog.keeps_ret) fun _ => ?_
      refine Prog.Keeps.ite (fun _ => Prog.keeps_ret) fun _ => ?_
      refine (leaseJob_keeps hD htag).bind fun lease => ?_
      cases lease with
      | none => exact Prog.keeps_ret
      | some lease =>
          have hread : (getBountyOrThrow job.bountyId).Every Reads := getBountyOrThrow_every trivial
          exact (hread.keeps hD.reads).bind fun _ => Prog.keeps_ret

theorem allOrigins_every {check : Nat → Code Bool} (hcheck : ∀ o, (check o).Every Reads)
    (os : List Nat) : (allOrigins check os).Every Reads := by
  induction os with
  | nil => trivial
  | cons o os ih => exact (hcheck o).bind fun ok => ih.bind fun rest => by simp

theorem publishRoute_keeps {o b : Nat} {origins : List Nat} (hD : Lenient cfg τ a.pid D tags)
    (htag : tags (.publishBounty b)) :
    (publishRoute o b origins).Keeps (system cfg note) τ a D known := by
  refine Prog.keeps_perform_bind (fun g _ => hD.read g _ _) fun r => ?_
  cases r with
  | none => exact Prog.keeps_ret
  | some bounty =>
      refine Prog.Keeps.ite (fun _ => Prog.keeps_ret) fun _ => ?_
      refine Prog.Keeps.ite (fun _ => Prog.keeps_ret) fun _ => ?_
      refine Prog.Keeps.bind ?_ fun allVerified => ?_
      · exact (allOrigins_every (fun _ => by simp [Reads]) _).keeps hD.reads
      · refine Prog.Keeps.ite (fun _ => Prog.keeps_ret) fun _ => ?_
        refine Prog.Keeps.bind ?_ fun unblocked => ?_
        · exact (allOrigins_every (fun _ => by simp [Reads]) _).keeps hD.reads
        · refine Prog.Keeps.ite (fun _ => Prog.keeps_ret) fun _ => ?_
          refine ((publishBounty_keeps hD htag).bind fun _ => ?_).orElse fun e => ?_
          · exact Prog.keeps_perform_bind (fun g _ => hD.read g _ _) fun _ => Prog.keeps_ret
          · cases e <;> first | exact Prog.keeps_ret | exact Prog.keeps_fail

/-- A status that is set without releasing anything. -/
theorem statusTag_of_none {b : Nat} {status : BountyStatus} {r : Option (Bounty × Option Nat)}
    (h : r.bind Prod.snd = none) : statusTag b status r = .setBountyStatus b status := by
  rcases r with _ | ⟨bounty, _ | committed⟩
  · rfl
  · rfl
  · exact absurd h (by simp)

theorem statusRoute_keeps {o b : Nat} {status : BountyStatus} (hD : Lenient cfg τ a.pid D tags)
    (htag : ∀ r, (status ≠ .closed → r.bind Prod.snd = none) → tags (statusTag b status r)) :
    (statusRoute o b status).Keeps (system cfg note) τ a D known := by
  refine Prog.keeps_perform_bind (fun g _ => hD.read g _ _) fun r => ?_
  cases r with
  | none => exact Prog.keeps_ret
  | some bounty =>
      refine Prog.Keeps.ite (fun _ => Prog.keeps_ret) fun _ => ?_
      exact (setBountyStatus_keeps hD htag).bind fun _ => Prog.keeps_ret

theorem payoutAddressRoute_keeps {i address : Nat} (hD : Lenient cfg τ a.pid D tags)
    (htag : tags (.unblockPayouts i))
    (hout : ∀ g busy t, D.out g (.payoutAddress i address t) busy) :
    (payoutAddressRoute i address).Keeps (system cfg note) τ a D known := by
  refine Prog.keeps_perform_bind (fun g _ => hD.read g _ _) fun verifiedAt => ?_
  refine Prog.keeps_perform_bind (fun g busy => hout g busy _) fun _ => ?_
  refine Prog.keeps_perform_bind (fun g _ => hD.read g _ _) fun now => ?_
  exact (unblockPayouts_keeps hD htag).bind fun _ => Prog.keeps_ret

theorem stripeWebhook_keeps {event : Except String StripeEvent} (hD : Lenient cfg τ a.pid D tags)
    (htag : ∀ e, tags (.stripeWebhook e)) (hout : ∀ g s busy, D.out g (.stripe s) busy) :
    (stripeWebhook event).Keeps (system cfg note) τ a D known := by
  cases event with
  | error message => exact Prog.keeps_ret
  | ok evt =>
      refine Prog.keeps_perform_bind (fun g _ => hout g _ _) fun inserted => ?_
      cases inserted with
      | false => exact Prog.keeps_ret
      | true =>
          refine ((processStripeEvent_keeps hD (htag _)).bind fun _ => Prog.keeps_ret).orElse
            fun _ => ?_
          exact Prog.keeps_perform_bind (fun g _ => hout g _ _) fun _ => Prog.keeps_ret

/-- Every request keeps to a conduct that allows its statements and its
transactions. -/
theorem Request.code_keeps {q : Request} (hD : Lenient cfg τ a.pid D q.Ends)
    (hout : Permits cfg q.Executes D) :
    (q.code cfg a.pid).Keeps (system cfg note) τ a D known := by
  cases q with
  | publish o b origins => exact (publishRoute_keeps hD rfl).bind fun _ => Prog.keeps_ret
  | pause o b =>
      refine (statusRoute_keeps hD fun r hr => ?_).bind fun _ => Prog.keeps_ret
      exact statusTag_of_none (hr (by simp))
  | close o b => exact (statusRoute_keeps hD fun r _ => ⟨r, rfl⟩).bind fun _ => Prog.keeps_ret
  | claim i j => exact (claimRoute_keeps hD rfl).bind fun _ => Prog.keeps_ret
  | release i j n =>
      refine Prog.Keeps.bind ?_ fun _ => Prog.keeps_ret
      refine Prog.keeps_perform_bind (fun g busy => hout g _ busy (Or.inr rfl) trivial) fun r => ?_
      cases r with
      | some row => exact Prog.keeps_ret
      | none =>
          refine Prog.keeps_perform_bind (fun g _ => hD.read g _ _) fun job => ?_
          cases job with
          | none => exact Prog.keeps_ret
          | some job =>
              refine Prog.Keeps.ite (fun _ => Prog.keeps_ret) fun _ => ?_
              exact Prog.Keeps.ite (fun _ => Prog.keeps_ret) fun _ => Prog.keeps_ret
  | reapLeases =>
      refine Prog.Keeps.bind ?_ fun _ => Prog.keeps_ret
      refine Prog.keeps_perform_bind (fun g _ => hD.read g _ _) fun now => ?_
      exact Prog.keeps_perform_bind (fun g busy => hout g _ busy (Or.inr ⟨now, rfl⟩) trivial)
        fun _ => Prog.keeps_ret
  | submit i j key body =>
      exact (Prog.Every.permitted submitRoute_every hout (fun _ _ h => h) (fun _ _ h => h)
        fun _ _ _ h => h).bind fun _ => Prog.keeps_ret
  | verifierClaim body =>
      exact (Prog.Every.permitted (verifierClaim_every body) hout (fun _ _ h => h) (fun _ _ h => h)
        fun _ _ _ h => h).bind fun _ => Prog.keeps_ret
  | verifierVerdict body => exact (verifierVerdict_keeps hD hout).bind fun _ => Prog.keeps_ret
  | markDuplicate i =>
      exact (Prog.Every.permitted markDuplicateRoute_every hout (fun _ _ h => h) (fun _ _ h => h)
        fun _ _ _ h => h).bind fun _ => Prog.keeps_ret
  | requeueVerification i n =>
      exact (Prog.Every.permitted requeueRoute_every hout (fun _ _ h => h) (fun _ _ h => h)
        fun _ _ _ h => h).bind fun _ => Prog.keeps_ret
  | overrideVerdict i v score =>
      exact (overrideVerdictRoute_keeps hD hout).bind fun _ => Prog.keeps_ret
  | platformFee o bps wallet =>
      exact (Prog.Every.permitted platformFeeRoute_every hout (fun _ _ h => h) (fun _ _ h => h)
        fun _ _ _ h => h).bind fun _ => Prog.keeps_ret
  | createDispute o p s =>
      refine Prog.Keeps.bind ?_ fun _ => Prog.keeps_ret
      exact ((createDispute_keeps hD fun d p => ⟨d, p, rfl⟩).bind fun _ => Prog.keeps_ret).orElse
        fun _ => Prog.keeps_ret
  | cancelDispute o d =>
      refine Prog.Keeps.bind ?_ fun _ => Prog.keeps_ret
      exact ((cancelDispute_keeps hD rfl).bind fun _ => Prog.keeps_ret).orElse
        fun _ => Prog.keeps_ret
  | resolveDispute d refund =>
      refine Prog.Keeps.bind ?_ fun _ => Prog.keeps_ret
      exact ((resolveDispute_keeps hD rfl).bind fun _ => Prog.keeps_ret).orElse
        fun _ => Prog.keeps_ret
  | payoutAddress i address =>
      exact (payoutAddressRoute_keeps hD rfl fun g busy t =>
        hout g (.payoutAddress i address t) busy (Or.inr ⟨t, rfl⟩) trivial).bind
        fun _ => Prog.keeps_ret
  | retryPayout p =>
      exact (Prog.Every.permitted retryRoute_every hout (fun _ _ h => h) (fun _ _ h => h)
        fun _ _ _ h => h).bind fun _ => Prog.keeps_ret
  | markPayout p st provider ref reason =>
      exact (Prog.Every.permitted markRoute_every hout (fun _ _ h => h) (fun _ _ h => h)
        fun _ _ _ h => h).bind fun _ => Prog.keeps_ret
  | stripeWebhook event =>
      exact (stripeWebhook_keeps hD (fun e => ⟨e, rfl⟩)
        fun g s busy => hout g (.stripe s) busy (Or.inr trivial) trivial).bind fun _ => Prog.keeps_ret
  | adminTopup o n =>
      exact (Prog.Every.permitted adminTopup_every hout (fun _ _ h => h) (fun _ _ h => h)
        fun _ _ _ h => h).bind fun _ => Prog.keeps_ret
  | payoutRunner =>
      refine Prog.Keeps.bind ?_ fun _ => Prog.keeps_ret
      exact runOutboxLoop_keeps hD (Or.inl rfl) (fun p hash _ => Or.inr (Or.inl ⟨p, hash, rfl⟩))
        (fun d _ => Or.inr (Or.inr ⟨d, rfl⟩)) fun g s busy h => hout g s busy (Or.inr h)
  | verificationRunner =>
      refine Prog.Keeps.bind ?_ fun _ => Prog.keeps_ret
      exact runOutboxLoop_keeps hD rfl (fun _ _ h => absurd h (by simp [verificationTopics]))
        (fun _ h => absurd h (by simp [verificationTopics]))
        fun g s busy h => hout g s busy (Or.inr h)

/-- A request may read. -/
theorem Request.executes_reads (q : Request) {s : Stmt} (h : Reads s) : q.Executes s := by
  cases q <;> first
    | exact h
    | exact Or.inl h
    | (cases s <;> trivial)

/-- The function a write outside transactions comes from. -/
inductive Request.Source : Request → Stmt → Prop where
  | release (i j n : Nat) : Source (.release i j n) (.job (.release j i n))
  | reap (t : Nat) : Source .reapLeases (.job (.reap t))
  | payoutAddress (i a t : Nat) : Source (.payoutAddress i a) (.payoutAddress i a t)
  | submit (i j : Nat) (key : Option Nat) (body : SubmitBody) {s : Stmt} :
      SubmitDoes j i (fun job => job.leaseWorkerId = some i) s → Source (.submit i j key body) s
  | claim (q : Request) (i n : Nat) {s : Stmt} : ClaimDoes i n s → Source q s
  | verdict (q : Request) (body : VerdictBody) {s : Stmt} : VerdictDoes body s → Source q s
  | markDuplicate (i : Nat) {s : Stmt} : MarkDuplicateDoes i s → Source (.markDuplicate i) s
  | requeue (i n : Nat) {s : Stmt} : RequeueDoes i n s → Source (.requeueVerification i n) s
  | override (i : Nat) (v : Option Verdict) (score : Option Nat) {s : Stmt} :
      OverrideDoes i s → Source (.overrideVerdict i v score) s
  | retry (p : Nat) {s : Stmt} : RetryDoes p s → Source (.retryPayout p) s
  | mark (p : Nat) (st : PayoutStatus) (pr : Option Provider) (ref : Option Nat) (reason : String)
      {s : Stmt} : MarkDoes p st s → Source (.markPayout p st pr ref reason) s
  | webhook (event : Except String StripeEvent) {s : Stmt} :
      WebhookDoes s → Source (.stripeWebhook event) s
  | topup (o n : Nat) {s : Stmt} : TopupDoes o n s → Source (.adminTopup o n) s
  | fee (o bps : Nat) (wallet : WalletField) {s : Stmt} :
      FeeDoes o bps s → Source (.platformFee o bps wallet) s
  | pay (q : Request) (p : Nat) {s : Stmt} : PayDoes p s → Source q s
  | confirm (q : Request) (p : Nat) {s : Stmt} : ConfirmDoes p s → Source q s
  | final (q : Request) (key : OutboxKey) {s : Stmt} : FinalDoes key s → Source q s

/-- Every write outside transactions has a source. -/
theorem Request.Executes.source {q : Request} {s : Stmt} (h : q.Executes s) (hs : ¬ Reads s) :
    q.Source s := by
  have hround : ∀ topics, RoundDoes topics s → q.Source s := by
    rintro topics ⟨key, -, hhandler | hfinal⟩
    · cases key with
      | payout p => exact .pay q p hhandler
      | payoutConfirm p => exact .confirm q p hhandler
      | disputeAutoRefund d => exact hhandler.elim
      | verification i n =>
          obtain h | ⟨body, -, -, h⟩ := hhandler
          · exact .claim q i n h
          · exact .verdict q body h
    · exact .final q key hfinal
  cases q with
  | release i j n =>
      obtain h | rfl := h
      · exact absurd h hs
      · exact .release i j n
  | reapLeases =>
      obtain h | ⟨t, rfl⟩ := h
      · exact absurd h hs
      · exact .reap t
  | payoutAddress i a =>
      obtain h | ⟨t, rfl⟩ := h
      · exact absurd h hs
      · exact .payoutAddress i a t
  | submit i j key body => exact .submit i j key body h
  | verifierClaim body => exact .claim _ _ _ h
  | verifierVerdict body => exact .verdict _ body h
  | markDuplicate i => exact .markDuplicate i h
  | requeueVerification i n => exact .requeue i n h
  | overrideVerdict i v score => exact .override i v score h
  | retryPayout p => exact .retry p h
  | markPayout p st pr ref reason => exact .mark p st pr ref reason h
  | stripeWebhook event => exact h.elim (fun h => absurd h hs) fun h => .webhook event h
  | adminTopup o n => exact .topup o n h
  | platformFee o bps wallet => exact .fee o bps wallet h
  | payoutRunner => exact h.elim (fun h => absurd h hs) (hround _)
  | verificationRunner => exact h.elim (fun h => absurd h hs) (hround _)
  | publish o b origins | pause o b | close o b | claim i j | createDispute o p k
  | cancelDispute o d | resolveDispute d refund => exact absurd h hs

/-- Every request keeps to its conduct. -/
theorem Request.code_does (hgrow : ∀ w w', τ.grow w w' → w.Grows w') (pid : Nat) (q : Request) :
    (q.code cfg pid).Does (system cfg note) τ ⟨pid, q⟩ (Request.conduct cfg τ.hold ⟨pid, q⟩)
      (fun _ _ => True) (fun _ _ => True) .start := by
  have hD : Lenient cfg τ pid (Request.conduct cfg τ.hold ⟨pid, q⟩) q.Ends :=
    { grow := hgrow
      read := fun _ _ _ => ⟨q.executes_reads trivial, trivial⟩
      nanoid := fun _ _ => ⟨q.executes_reads trivial, trivial⟩
      inside := fun _ _ _ _ h => h
      commit := fun _ _ _ _ ht h => ⟨ht, h⟩ }
  have hkeeps : (q.code cfg pid).Keeps (system cfg note) τ ⟨pid, q⟩
      (Request.conduct cfg τ.hold ⟨pid, q⟩) fun _ => True :=
    Request.code_keeps (a := ⟨pid, q⟩) hD fun _ _ _ h hground => ⟨h, hground⟩
  exact (hkeeps .start ⟨⟨rfl, rfl⟩, fun _ _ _ => trivial⟩).mono (fun _ _ _ => trivial) (fun _ _ _ => trivial) (fun _ _ _ h => h) (fun _ _ _ _ h => h)
    fun _ _ _ _ h => h

end Requests

end OpenUnion
