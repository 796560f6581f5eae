import OpenUnion.Code.Basic

/-!
# Creating and executing a payout

`addPayout` creates the row, `handlePayoutRequested` pays it (through a payment
provider, or by broadcasting one splitter transaction for all legs) and
`handlePayoutConfirmRequested` follows a broadcast up.  `payoutAddressRoute`,
`retryRoute` and `markRoute` are the server's ways back into the cycle.
-/

namespace OpenUnion

open Interleave

/-- `computePayoutSplitCents`. -/
def computePayoutSplitCents (grossCents platformFeeBps proofworkFeeBps : Nat) :
    Except Err (Nat × Nat × Nat) :=
  if 10000 < platformFeeBps then .error .invalidPlatformFeeBps
  else if 10000 < proofworkFeeBps then .error .invalidProofworkFeeBps
  else if 10000 < platformFeeBps + proofworkFeeBps then .error .feeBpsSumExceeds100pct
  else
    let platformFeeCents := grossCents * platformFeeBps / 10000
    let workerGrossCents := grossCents - platformFeeCents
    let proofworkFeeCents := workerGrossCents * proofworkFeeBps / 10000
    .ok (platformFeeCents, proofworkFeeCents, workerGrossCents - proofworkFeeCents)

/-- `proofworkFeeBps`. -/
def proofworkFeeBps (cfg : Config) : Except Err Nat :=
  if 10000 < cfg.proofworkFeeBps then .error .invalidProofworkFeeBps
  else if 10000 < cfg.maxProofworkFeeBps then .error .invalidMaxProofworkFeeBps
  else if cfg.maxProofworkFeeBps < cfg.proofworkFeeBps then .error .proofworkFeeBpsExceedsMax
  else .ok cfg.proofworkFeeBps

/-- `centsToUsdcBaseUnits`. -/
def centsToUsdcBaseUnits (cents : Nat) : Nat := cents * 10000

/-- The fee columns of a payout of `amountCents`. -/
def splitFees (cfg : Config) (amountCents platformFeeBps : Nat) (platformFeeWallet : Option Nat) :
    Except Err Fees :=
  match proofworkFeeBps cfg with
  | .error e => .error e
  | .ok pwBps =>
      match computePayoutSplitCents amountCents platformFeeBps pwBps with
      | .error e => .error e
      | .ok (platformFeeCents, proofworkFeeCents, netCents) =>
          .ok
            { netAmountCents := netCents
              platformFeeCents := platformFeeCents
              platformFeeBps := platformFeeBps
              platformFeeWalletAddress := platformFeeWallet
              proofworkFeeCents := proofworkFeeCents
              proofworkFeeBps := pwBps
              proofworkFeeWalletAddress := cfg.proofworkFeeWallet }

/-- `addPayout`: the id and the row of the submission's payout. -/
def addPayout (cfg : Config) (submissionId workerId amountCents : Nat) : Code (Nat × Payout) := do
  let id ← nanoid
  let ctx ← ask (.payoutContext submissionId)
  let now ← dateNow
  let window := (ctx.map PayoutContext.disputeWindowSec).getD 0
  let holdUntil := if 0 < window then some (now + window * 1000) else none
  let fees ← orThrow (splitFees cfg amountCents ((ctx.map PayoutContext.platformFeeBps).getD 0)
    (ctx.bind PayoutContext.platformFeeWalletAddress))
  match ← run (.payout (.upsert id
      { submissionId := submissionId
        workerId := workerId
        amountCents := amountCents
        status := .pending
        provider := none
        providerRef := none
        payoutChainIsBase := false
        fees := fees
        holdUntil := holdUntil
        blockedReason := none })) with
  | none => throw .uniqueViolation
  | some payout => return payout

/-- `addPayout` and the `payout.requested` event, as the verdict route does it. -/
def createPayout (cfg : Config) (submissionId workerId : Nat) (bounty : Bounty) : Code Unit := do
  let (payoutId, _) ← addPayout cfg submissionId workerId bounty.payoutCents
  let now ← dateNow
  let availableAt :=
    if 0 < bounty.disputeWindowSec then some (now + bounty.disputeWindowSec * 1000) else none
  enqueueOutbox (.payout payoutId) availableAt

/-- The legs of a payout that carry money, the net leg always. -/
def Fees.legs (f : Fees) : List TransferKind :=
  .net :: ((if 0 < f.platformFeeCents then [.platformFee] else []) ++
    if 0 < f.proofworkFeeCents then [.proofworkFee] else [])

/-- The row of a leg that has just been broadcast. -/
def Fees.transfer (f : Fees) (workerAddress : Option Nat) (txHash txNonce : Nat) :
    TransferKind → Transfer
  | .net => ⟨workerAddress, centsToUsdcBaseUnits f.netAmountCents, txHash, txNonce, .broadcast⟩
  | .platformFee =>
      ⟨f.platformFeeWalletAddress, centsToUsdcBaseUnits f.platformFeeCents, txHash, txNonce,
        .broadcast⟩
  | .proofworkFee =>
      ⟨f.proofworkFeeWalletAddress, centsToUsdcBaseUnits f.proofworkFeeCents, txHash, txNonce,
        .broadcast⟩

/-- The nonce to use: the chain's, whatever is stored. -/
def reconcileNonce (stored : Option Nat) (chainPending : Nat) : Nat :=
  match stored with
  | none => chainPending
  | some stored =>
      if chainPending < stored then chainPending
      else if stored < chainPending then chainPending
      else stored

/-- Persist next nonce. -/
def storeNonce (nonceRow : Option Nat) (next : Nat) : Code Unit :=
  match nonceRow with
  | some _ => run (.nonce (.update next))
  | none => (run (.nonce (.insert next))).bind orUniqueViolation

/-- The arguments of the splitter call of a payout. -/
def splitterCall (cfg : Config) (fees : Fees) (workerAddress : Option Nat) : SplitterCall where
  token := cfg.baseUsdcAddress
  worker := workerAddress.getD 0
  platform := if 0 < fees.platformFeeCents then fees.platformFeeWalletAddress.getD 0 else 0
  proofwork := cfg.proofworkFeeWallet.getD 0
  net := centsToUsdcBaseUnits fees.netAmountCents
  platformFee := centsToUsdcBaseUnits fees.platformFeeCents
  proofworkFee := centsToUsdcBaseUnits fees.proofworkFeeCents

/-- Broadcast transaction and persist transfer legs atomically. -/
def broadcastPayout (cfg : Config) (payoutId : Nat) (fees : Fees) (workerAddress : Option Nat) :
    Code Nat :=
  transaction (fun txHash => .broadcast payoutId txHash) do
    let nonceRow ← run (.nonce .lock)
    let chainPending ← ask .pendingNonce
    let nonce := reconcileNonce nonceRow chainPending
    match ← run (.outside (.sendRawTransaction payoutId (splitterCall cfg fees workerAddress) nonce)) with
    | none => throw .rpcCallFailed
    | some txHash =>
        storeNonce nonceRow (nonce + 1)
        let now ← dateNow
        run (.payout (.setBroadcast payoutId cfg.paymentsProvider txHash fees))
        forEach (fun kind => run (.transfer
          (.upsert (payoutId, kind) (fees.transfer workerAddress txHash nonce kind)))) fees.legs
        let later ← dateNow
        -- Enqueue confirmation check (idempotent)
        run (.outbox (.insertOrIgnore (.payoutConfirm payoutId) (later + 30000) now))
        return txHash

/-- The crypto branch of `handlePayoutRequested`. -/
def payCrypto (cfg : Config) (payoutId : Nat) (payout : Payout) (fees : Fees) : Code Unit := do
  if cfg.proofworkFeeWallet = none then throw .proofworkFeeWalletNotConfigured
  else if cfg.paymentsProvider = .cryptoBaseUsdc ∧ ¬ cfg.kmsPayoutKeyConfigured then
    throw .kmsKeyNotConfigured
  else
    let workerRow ← ask (.worker payout.workerId)
    let address := workerRow.bind Worker.payoutAddress
    let onBase := (workerRow.map Worker.payoutChainIsBase).getD false
    let verifiedAt := workerRow.bind Worker.payoutAddressVerifiedAt
    if address = none ∨ ¬ onBase ∨ verifiedAt = none then
      run (.payout (.blockMissingAddress payoutId))
    else
      let _ ← broadcastPayout cfg payoutId fees address
      return

/-- The provider branch of `handlePayoutRequested`. -/
def payProvider (cfg : Config) (payoutId : Nat) (fees : Fees) : Code Unit := do
  if cfg.paymentsProvider = .manual then throw .unsupportedPaymentsProvider
  else
    run (.payout (.setFees payoutId fees))
    match ← run (.outside (.createPayout (cfg.paymentsProvider = .mock) payoutId
        fees.netAmountCents)) with
    | .paid ref =>
        let _ ← markPayoutStatus payoutId .paid (some (some cfg.paymentsProvider)) (some (some ref))
        return
    | .failed ref =>
        let _ ← markPayoutStatus payoutId .failed (some (some cfg.paymentsProvider)) (some (some ref))
        return
    | .httpError => throw .paymentProviderFailed
    | .invalidResponse => throw .paymentProviderInvalidResponse
    | .noReply => throw .fetchFailed

/-- `PAYMENTS_PROVIDER` names a chain. -/
def Provider.isCrypto : Provider → Bool
  | .cryptoBaseUsdc | .cryptoEvmLocal => true
  | .mock | .http | .manual => false

/-- `handlePayoutRequested` has nothing to do now. -/
def Payout.notYet (p : Payout) (now : Nat) : Bool :=
  decide (p.status = .paid) || p.blockedReason.isSome || p.holdUntil.any fun t => decide (now < t)

/-- `handlePayoutRequested`. -/
def handlePayoutRequested (cfg : Config) (payoutId : Nat) : Code Unit := do
  match ← getPayout payoutId with
  | none => throw .payoutNotFound
  | some payout =>
      let now ← dateNow
      if payout.notYet now then return
      else
        let org ← ask (.payoutOrg payoutId)
        let platformFeeBps := (org.map Org.platformFeeBps).getD 0
        let platformFeeWallet := org.bind Org.platformFeeWalletAddress
        if 10000 < platformFeeBps then throw .invalidPlatformFeeBps
        else if 0 < platformFeeBps ∧ platformFeeWallet = none then throw .platformFeeWalletMissing
        else
          let fees ← orThrow (splitFees cfg payout.amountCents platformFeeBps platformFeeWallet)
          if cfg.paymentsProvider.isCrypto then payCrypto cfg payoutId payout fees
          else payProvider cfg payoutId fees

/-- The number of confirmations of a block. -/
def confirmations (latest block : Nat) : Nat := if block ≤ latest then latest - block + 1 else 0

/-- The end of `handlePayoutConfirmRequested`, once a receipt is there. -/
def settleTransfers (cfg : Config) (payoutId txHash : Nat) (provider : Provider)
    (receipt : Receipt) : Code Unit := do
  if receipt.reverted then
    run (.transfer (.setAll payoutId .failed))
    let _ ← markPayoutStatus payoutId .failed (some (some provider)) (some (some txHash))
    return
  else
    let latest ← ask .latestBlockNumber
    if confirmations latest receipt.blockNumber < cfg.baseConfirmationsRequired then
      throw .txNotEnoughConfirmations
    else
      run (.transfer (.setAll payoutId .confirmed))
      let _ ← markPayoutStatus payoutId .paid (some (some provider)) (some (some txHash))
      return

/-- `handlePayoutConfirmRequested`. -/
def handlePayoutConfirmRequested (cfg : Config) (payoutId : Nat) : Code Unit := do
  match ← getPayout payoutId with
  | none => throw .payoutNotFound
  | some payout =>
      if payout.status = .paid ∨ payout.status = .failed then return
      else
        let provider := payout.provider.getD .cryptoBaseUsdc
        match ← ask (.transfers payoutId) with
        | [] => throw .payoutTransfersMissing
        | first :: rest =>
            if (first :: rest).all fun t => decide (t.status = .confirmed) then
              let _ ← markPayoutStatus payoutId .paid (some (some provider))
                (some (some first.txHash))
              return
            else
              match ← ask (.transactionReceipt first.txHash) with
              | none => throw .txReceiptPending
              | some receipt => settleTransfers cfg payoutId first.txHash provider receipt

/-- Available at the end of the hold window, or now. -/
def nextAt (holdUntil : Option Nat) (now : Nat) : Nat :=
  match holdUntil with
  | some hold => if now < hold then hold else now
  | none => now

/-- The unblocking transaction of the payout-address route. -/
def unblockPayouts (workerId now : Nat) : Code Nat :=
  transaction (fun _ => .unblockPayouts workerId) do
    let rows ← run (.payout (.unblockWorker workerId))
    forEach (fun row => run (.outbox (.upsert (.payout row.1) (nextAt row.2 now) now))) rows
    return rows.length

/-- `POST /api/worker/payout-address`, once the signature is verified. -/
def payoutAddressRoute (workerId address : Nat) : Code (Http Nat) := do
  let verifiedAt ← dateNow
  run (.payoutAddress workerId address verifiedAt)
  let now ← dateNow
  let unblocked ← unblockPayouts workerId now
  return .ok unblocked

/-- `POST /api/admin/payouts/:payoutId/retry`. -/
def retryRoute (payoutId : Nat) : Code (Http Unit) := do
  match ← getPayout payoutId with
  | none => return .error 404 "not_found" "payout not found"
  | some payout =>
      if payout.status = .paid then return .error 409 "conflict" "payout already paid"
      else if payout.status = .refunded then return .error 409 "conflict" "payout refunded"
      else
        match payout.blockedReason with
        | some reason => return .error 409 "conflict" s!"payout blocked: {reason.text}"
        | none =>
            let _ ← markPayoutStatus payoutId .pending (some none) (some none)
            let now ← dateNow
            match ← ask (.outboxEvent (.payout payoutId)) with
            | some _ =>
                run (.outbox (.reopen (.payout payoutId) (nextAt payout.holdUntil now) true true))
                return .ok ()
            | none =>
                (run (.outbox (.insert (.payout payoutId) (nextAt payout.holdUntil now) now))).bind
                  orUniqueViolation
                return .ok ()

/-- `platformFeeWalletAddress` in the body of `PUT /api/org/platform-fee`. -/
inductive WalletField where
  /-- Missing, `null` or blank. -/
  | absent
  /-- Rejected by `getAddress`. -/
  | invalid
  | address (wallet : Nat)

/-- `PUT /api/org/platform-fee`. -/
def platformFeeRoute (cfg : Config) (orgId platformFeeBps : Nat) (walletRaw : WalletField) :
    Code (Http (Nat × Option Nat)) := do
  if 10000 < cfg.maxOrgPlatformFeeBps then
    return .error 500 "misconfigured" "MAX_ORG_PLATFORM_FEE_BPS invalid"
  else if cfg.maxOrgPlatformFeeBps < platformFeeBps then
    return .error 400 "invalid" s!"platformFeeBps must be 0..{cfg.maxOrgPlatformFeeBps}"
  else
    match walletRaw with
    | .invalid =>
        return .error 400 "invalid" "platformFeeWalletAddress must be a valid EVM address"
    | .absent =>
        if 0 < platformFeeBps then
          return .error 400 "invalid" "platformFeeWalletAddress is required when platformFeeBps > 0"
        else store none
    | .address wallet => store (some wallet)
where
  store (wallet : Option Nat) : Code (Http (Nat × Option Nat)) := do
    match ← run (.platformFee orgId platformFeeBps wallet) with
    | none => return .error 404 "not_found" "org not found"
    | some org => return .ok (org.platformFeeBps, org.platformFeeWalletAddress)

/-- The submission's view of a payout status set by an admin. -/
def PayoutStatus.mirror : PayoutStatus → SubmissionPayoutStatus
  | .paid => .paid
  | .failed => .failed
  | .refunded | .pending => .reversed

/-- `POST /api/admin/payouts/:payoutId/mark`; `provider` is `none` when the body has none. -/
def markRoute (payoutId : Nat) (status : PayoutStatus) (provider : Option Provider)
    (providerRef : Option Nat) (reason : String) : Code (Http Unit) := do
  match ← getPayout payoutId with
  | none => return .error 404 "not_found" "payout not found"
  | some payout =>
      if status = .pending then return .error 400 "invalid" "status must be paid|failed|refunded"
      else if reason.isEmpty then return .error 400 "invalid" "reason required"
      else
        let now ← dateNow
        let _ ← markPayoutStatus payoutId status (some (some (provider.getD .manual)))
          (some providerRef)
        run (.outbox (.stop (.payout payoutId) now))
        run (.submission (.setPayoutStatus payout.submissionId status.mirror))
        return .ok ()

end OpenUnion
