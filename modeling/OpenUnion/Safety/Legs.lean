import OpenUnion.Interleave.Traces
import OpenUnion.Safety.Splits

/-!
# The legs of a payout

`payout_transfers` has a row for each leg of a payout, written when a transaction is
broadcast for the payout and settled when a delivery has followed the transaction up.

* `Recorded`: the rows of a payout are exactly the legs of a transaction.
* `Broadcast.recorded_iff`: a broadcast leaves the legs of its own transaction if and only
  if the rows it finds fit, since a row that is there keeps its destination and amount, and
  one that is no longer needed stays.
* `handlePayoutConfirmRequested_follows`: a delivery settles legs by what it has just read.
* `Request.transfers_does`: on the crypto path nobody else settles them.
-/

namespace OpenUnion

open Interleave

/-- The row found for a leg is one a broadcast of the call can keep: a leg with money
has no row yet, or one with its destination and amount; a leg without money has none,
and is not the net leg. -/
def SplitterCall.fitsLeg (call : SplitterCall) (kind : TransferKind) (old : Option Transfer) : Bool :=
  if 0 < call.amount kind then
    old.all fun row => decide (row.toAddress = some (call.destination kind) ∧
      row.amountBaseUnits = call.amount kind)
  else decide (kind ≠ .net) && old.isNone

/-- The rows a broadcast of the call finds are ones it can keep. -/
def SplitterCall.fitsRows (call : SplitterCall) (payoutId : Nat) (w : World) : Bool :=
  TransferStmt.kinds.all fun kind => call.fitsLeg kind (w.transfers (payoutId, kind))

/-- The row of a leg of a transaction: where it goes, what it carries, and in which
transaction. -/
def ChainTx.leg (tx : ChainTx) (kind : TransferKind) : Option (Option Nat × Nat × Nat) :=
  if 0 < tx.call.amount kind then some (some (tx.call.destination kind), tx.call.amount kind, tx.hash)
  else none

/-- What the row of a leg says. -/
def Transfer.said (row : Transfer) : Option Nat × Nat × Nat :=
  (row.toAddress, row.amountBaseUnits, row.txHash)

/-- The rows of a payout are exactly the legs of the transaction, and add up to the
amount of the payout. -/
structure Recorded (payoutId : Nat) (tx : ChainTx) (w : World) : Prop where
  legs : ∀ kind, (w.transfers (payoutId, kind)).map Transfer.said = tx.leg kind
  total : ∃ row, w.payouts payoutId = some row ∧
    ((Query.eval (.transfers payoutId) w).map Transfer.amountBaseUnits).sum =
      centsToUsdcBaseUnits row.amountCents

section Broadcasts

variable {cfg : Config} {w w' : World} {p hash : Nat} {fees : Fees} {address : Option Nat}

theorem TransferStmt.mem_kinds (kind : TransferKind) : kind ∈ TransferStmt.kinds := by
  cases kind <;> simp [TransferStmt.kinds]

theorem SplitterCall.fitsRows_iff {call : SplitterCall} :
    call.fitsRows p w = true ↔ ∀ kind, call.fitsLeg kind (w.transfers (p, kind)) = true := by
  simp only [SplitterCall.fitsRows, List.all_eq_true]
  exact ⟨fun h kind => h kind (TransferStmt.mem_kinds kind), fun h kind _ => h kind⟩

/-- The net leg is always written, the others when they carry money. -/
theorem Fees.mem_legs {kind : TransferKind} :
    kind ∈ fees.legs ↔ kind = .net ∨ 0 < (splitterCall cfg fees address).amount kind := by
  cases kind with
  | net => simp [Fees.legs]
  | platformFee =>
      simp [Fees.legs, SplitterCall.amount, splitterCall, centsToUsdcBaseUnits]
  | proofworkFee =>
      simp [Fees.legs, SplitterCall.amount, splitterCall, centsToUsdcBaseUnits]

/-- The row written for a leg with money is the leg of the call. -/
theorem Fees.transfer_said {kind : TransferKind} {nonce : Nat} (hsplit : SplitOf cfg p fees w)
    (haddress : address ≠ none) (hwallet : cfg.proofworkFeeWallet ≠ none)
    (hpositive : 0 < (splitterCall cfg fees address).amount kind) :
    (fees.transfer address hash nonce kind).said =
      (some ((splitterCall cfg fees address).destination kind),
        (splitterCall cfg fees address).amount kind, hash) := by
  obtain ⟨row, bps, wallet, -, hplatform, hfees⟩ := hsplit
  obtain ⟨hcents, hplatformWallet, hproofworkWallet⟩ := splitFees_columns hfees
  cases kind with
  | net =>
      obtain ⟨x, rfl⟩ := Option.ne_none_iff_exists'.mp haddress
      rfl
  | platformFee =>
      have hpos : 0 < fees.platformFeeCents := Nat.pos_of_mul_pos_right hpositive
      have hbps : 0 < bps := by
        rw [hcents] at hpos
        refine Nat.pos_of_ne_zero fun h => ?_
        simp [h] at hpos
      obtain ⟨x, rfl⟩ := Option.ne_none_iff_exists'.mp (hplatform hbps)
      simp [Transfer.said, Fees.transfer, SplitterCall.destination, SplitterCall.amount,
        splitterCall, hpos, hplatformWallet]
  | proofworkFee =>
      obtain ⟨x, hx⟩ := Option.ne_none_iff_exists'.mp hwallet
      simp [Transfer.said, Fees.transfer, SplitterCall.destination, SplitterCall.amount,
        splitterCall, hproofworkWallet, hx]

/-- A leg is recorded as sent if and only if the row found for it fits. -/
theorem sentLegs_said_iff {tx : ChainTx} {kind : TransferKind} (nonce : Nat) (hsplit : SplitOf cfg p fees w)
    (haddress : address ≠ none) (hwallet : cfg.proofworkFeeWallet ≠ none)
    (hcall : tx.call = splitterCall cfg fees address) (old : Nat × TransferKind → Option Transfer) :
    (sentLegs old p fees.legs (fees.transfer address tx.hash nonce) (p, kind)).map Transfer.said =
      tx.leg kind ↔ tx.call.fitsLeg kind (old (p, kind)) = true := by
  have hlegs : kind ∈ fees.legs ↔ kind = .net ∨ 0 < tx.call.amount kind := by
    rw [hcall]
    exact Fees.mem_legs
  by_cases hpositive : 0 < tx.call.amount kind
  · have hsaid : (fees.transfer address tx.hash nonce kind).said =
        (some (tx.call.destination kind), tx.call.amount kind, tx.hash) := by
      rw [hcall] at hpositive ⊢
      exact Fees.transfer_said hsplit haddress hwallet hpositive
    have hwritten : sentLegs old p fees.legs (fees.transfer address tx.hash nonce) (p, kind) =
        some (TransferStmt.upserted (fees.transfer address tx.hash nonce kind) (old (p, kind))) := by
      simp [sentLegs, hlegs.mpr (Or.inr hpositive)]
    have hhash : (fees.transfer address tx.hash nonce kind).txHash = tx.hash :=
      congrArg (fun t => t.2.2) hsaid
    rw [hwritten, ChainTx.leg, SplitterCall.fitsLeg, if_pos hpositive, if_pos hpositive]
    cases old (p, kind) with
    | none => simp [TransferStmt.upserted, hsaid]
    | some row => simp [TransferStmt.upserted, Transfer.said, hhash]
  · rw [ChainTx.leg, SplitterCall.fitsLeg, if_neg hpositive, if_neg hpositive]
    by_cases hnet : kind = .net
    · subst hnet
      have hwritten : .net ∈ fees.legs := hlegs.mpr (Or.inl rfl)
      simp [sentLegs, hwritten]
    · have hnot : kind ∉ fees.legs := fun h => (hlegs.mp h).elim hnet hpositive
      cases hold : old (p, kind) <;> simp [sentLegs, hnot, hnet, hold]

/-- Rows that are the legs of a transaction add up to what its call carries. -/
theorem sum_of_legs {tx : ChainTx}
    (hlegs : ∀ kind, (w.transfers (p, kind)).map Transfer.said = tx.leg kind) :
    ((Query.eval (.transfers p) w).map Transfer.amountBaseUnits).sum = tx.call.total := by
  have hleg : ∀ kind, ((w.transfers (p, kind)).map Transfer.amountBaseUnits).getD 0 =
      tx.call.amount kind := by
    intro kind
    have h := congrArg (fun said => (said.map fun t => t.2.1).getD 0) (hlegs kind)
    simp only [Option.map_map, ChainTx.leg] at h
    by_cases hpositive : 0 < tx.call.amount kind
    · rw [if_pos hpositive] at h
      exact h
    · rw [if_neg hpositive] at h
      exact h.trans (Nat.eq_zero_of_not_pos hpositive).symm
  have hsum : ∀ kinds : List TransferKind,
      ((kinds.filterMap fun kind => w.transfers (p, kind)).map Transfer.amountBaseUnits).sum =
        (kinds.map tx.call.amount).sum := by
    intro kinds
    induction kinds with
    | nil => rfl
    | cons kind kinds ih =>
        rw [List.map_cons, List.sum_cons, ← ih, ← hleg kind]
        cases hrow : w.transfers (p, kind) <;> simp [hrow]
  exact (hsum _).trans (by simp [SplitterCall.amount, SplitterCall.total, Nat.add_assoc])

/-- What a broadcast leaves in `payout_transfers`: the legs of the transaction it has
sent, if and only if the rows it found fit. -/
theorem Broadcast.recorded_iff (h : Broadcast cfg p hash w w') :
    ∃ tx ∈ w.outside.chain, tx.hash = hash ∧ tx.payoutId = p ∧
      (Recorded p tx w' ↔ tx.call.fitsRows p w = true) := by
  obtain ⟨fees, address, nonce, outbox, keys, hsplit, haddress, hwallet,
    ⟨tx, htx, rfl, -, hpayout, hcall⟩, -, rfl⟩ := h
  refine ⟨tx, htx, rfl, hpayout, ?_⟩
  rw [SplitterCall.fitsRows_iff]
  constructor
  · intro hrecorded kind
    exact (sentLegs_said_iff nonce hsplit haddress hwallet hcall w.transfers).mp (hrecorded.legs kind)
  · intro hfits
    have hlegs := fun kind =>
      (sentLegs_said_iff nonce hsplit haddress hwallet hcall w.transfers).mpr (hfits kind)
    refine ⟨hlegs, ?_⟩
    obtain ⟨row, bps, wallet, hrow, -, hfees⟩ := hsplit
    refine ⟨_, modify_row hrow, ?_⟩
    rw [sum_of_legs hlegs, hcall, (splitterCall_carries cfg fees address).total,
      splitFees_total hfees, centsToUsdcBaseUnits]

/-- A broadcast leaves the legs of other payouts alone, and those it writes are not
confirmed. -/
theorem Broadcast.rows (h : Broadcast cfg p hash w w') :
    (∀ q kind, q ≠ p → w'.transfers (q, kind) = w.transfers (q, kind)) ∧
    ∀ kind row, w'.transfers (p, kind) = some row → row.status = .confirmed →
      w.transfers (p, kind) = some row := by
  obtain ⟨fees, address, nonce, outbox, keys, -, -, -, -, -, rfl⟩ := h
  constructor
  · intro q kind hq
    simp [sentLegs, hq]
  · intro kind row hrow hconfirmed
    by_cases hleg : kind ∈ fees.legs
    · have hwritten : TransferStmt.upserted (fees.transfer address hash nonce kind)
          (w.transfers (p, kind)) = row := by simpa [sentLegs, hleg] using hrow
      have hstatus : (fees.transfer address hash nonce kind).status = .broadcast := by
        cases kind <;> rfl
      rw [← hwritten] at hconfirmed
      cases hold : w.transfers (p, kind) <;>
        simp [hold, TransferStmt.upserted, hstatus] at hconfirmed
    · simpa [sentLegs, hleg] using hrow

end Broadcasts

/-- What the legs of payouts are settled by: a committed broadcast, the legs a
delivery has read, and what it was told about a transaction and the chain. -/
inductive TransferNote where
  | sent (payoutId txHash : Nat)
  | legs (payoutId : Nat) (rows : List Transfer)
  | receipt (txHash : Nat) (receipt : Receipt)
  | latest (blockNumber : Nat)

/-- Note broadcasts, the committed legs that are read, receipts and block numbers. -/
def transferNotes : Actor Request → Happening → World → List TransferNote
  | _, .commit (.broadcast p h), _ => [.sent p h]
  | _, .stmt (.read (.transfers p)) rows, w =>
      if rows = Query.eval (.transfers p) w then [.legs p rows] else []
  | _, .stmt (.read (.transactionReceipt h)) (some r), _ => [.receipt h r]
  | _, .stmt (.read .latestBlockNumber) n, _ => [.latest n]
  | _, _, _ => []

section Deliveries

variable (cfg : Config) (payoutId : Nat) (ns : List TransferNote)

/-- The delivery has just read legs that are all confirmed. -/
def AllConfirmed : Prop :=
  ∃ rows rest, ns = .legs payoutId rows :: rest ∧ rows ≠ [] ∧
    ∀ t ∈ rows, t.status = .confirmed

/-- A receipt that confirms its transaction once `n` is the latest block. -/
def Receipt.Final (r : Receipt) (n : Nat) : Prop :=
  r.reverted = false ∧ cfg.baseConfirmationsRequired ≤ confirmations n r.blockNumber

/-- The delivery has just read legs, and then that the transaction of one of them is
confirmed. -/
def Sighted : Prop :=
  ∃ rows t r n rest, ns = .latest n :: .receipt t.txHash r :: .legs payoutId rows :: rest ∧
    t ∈ rows ∧ r.Final cfg n

/-- What a delivery needs to confirm the legs of a payout or to mark it paid. -/
def Warrants : Stmt → Prop
  | .transfer (.setAll p .confirmed) | .payout (.setStatus p .paid _ _) =>
      AllConfirmed p ns ∨ Sighted cfg p ns
  | _ => True

end Deliveries

section Walks

variable {cfg : Config} {a : Actor Request} {p : Nat}

theorem settleTransfers_follows {provider : Provider} {rows : List Transfer} {t : Transfer}
    {r : Receipt} {ns : List TransferNote} (ht : t ∈ rows) :
    (settleTransfers cfg p t.txHash provider r).Follows (system cfg transferNotes) a (Warrants cfg)
      (.receipt t.txHash r :: .legs p rows :: ns) := by
  simp only [settleTransfers, bind_eq_bind]
  by_cases hreverted : r.reverted = true
  · rw [if_pos hreverted]
    exact ⟨trivial, fun busy w => ⟨trivial, fun busy w => trivial, trivial⟩, trivial⟩
  · rw [if_neg hreverted]
    refine Prog.follows_perform_bind.mpr ⟨trivial, fun busy w => ?_⟩
    change Prog.Follows _ _ _ (if confirmations w.outside.nextLatestBlock r.blockNumber <
      cfg.baseConfirmationsRequired then _ else _) (TransferNote.latest w.outside.nextLatestBlock :: _)
    by_cases hfew : confirmations w.outside.nextLatestBlock r.blockNumber <
        cfg.baseConfirmationsRequired
    · rw [if_pos hfew]
      trivial
    · rw [if_neg hfew]
      have hsighted : Sighted cfg p (.latest w.outside.nextLatestBlock ::
          .receipt t.txHash r :: .legs p rows :: ns) :=
        ⟨rows, t, r, _, ns, rfl, ht, by simpa using hreverted, Nat.not_lt.mp hfew⟩
      exact ⟨Or.inr hsighted, fun busy w => ⟨Or.inr hsighted, fun busy w => trivial, trivial⟩,
        trivial⟩

/-- The handler of a confirmation event reads before it settles. -/
theorem handlePayoutConfirmRequested_follows (ns : List TransferNote) :
    (handlePayoutConfirmRequested cfg p).Follows (system cfg transferNotes) a (Warrants cfg) ns := by
  simp only [handlePayoutConfirmRequested, bind_eq_bind]
  refine Prog.follows_perform_bind.mpr ⟨trivial, fun busy w => ?_⟩
  generalize (system cfg transferNotes).engine.result (.read (.payout p)) busy w = payout
  cases payout with
  | none => trivial
  | some payout =>
      dsimp only
      by_cases hover : payout.status = .paid ∨ payout.status = .failed
      · rw [if_pos hover]
        trivial
      · rw [if_neg hover]
        refine Prog.follows_perform_bind.mpr ⟨trivial, fun busy w => ?_⟩
        have hnote : transferNotes a (.stmt (.read (.transfers p)) (Query.eval (.transfers p) w)) w =
            [.legs p (Query.eval (.transfers p) w)] := if_pos rfl
        have hread : (system cfg transferNotes).engine.result (.read (.transfers p)) busy w =
            Query.eval (.transfers p) w := rfl
        have hnotes : (system cfg transferNotes).note a
            (.stmt (.read (.transfers p)) (Query.eval (.transfers p) w)) w =
              [.legs p (Query.eval (.transfers p) w)] := hnote
        rw [hread, hnotes]
        generalize Query.eval (.transfers p) w = rows
        cases rows with
        | nil => trivial
        | cons first rest =>
            dsimp only
            by_cases hall : ((first :: rest).all fun t => decide (t.status = .confirmed)) = true
            · rw [if_pos hall]
              have hconfirmed : ∀ t ∈ first :: rest, t.status = .confirmed := fun t ht =>
                of_decide_eq_true (List.all_eq_true.mp hall t ht)
              exact ⟨Or.inl ⟨first :: rest, ns, rfl, by simp, hconfirmed⟩,
                fun busy w => trivial, trivial⟩
            · rw [if_neg hall]
              refine Prog.follows_perform_bind.mpr ⟨trivial, fun busy w => ?_⟩
              generalize (system cfg transferNotes).engine.result
                (.read (.transactionReceipt first.txHash)) busy w = receipt
              cases receipt with
              | none => trivial
              | some receipt => exact settleTransfers_follows (by simp)

/-- What a process may do about the legs of payouts: a delivery settles them by what it
has read. -/
def transferConduct (cfg : Config) (a : Actor Request) : Conduct Stmt Tag World Lock TransferNote where
  out g s _ :=
    match s with
    | .transfer _ => Warrants cfg (own a.pid g.hist) s
    | _ => a.req = .payoutRunner → Warrants cfg (own a.pid g.hist) s
  inside _ _ _ _ := True
  commit _ _ _ _ := True

theorem transferConduct_lenient {τ : Terms World Lock TransferNote} {tags : Tag → Prop}
    (hgrow : ∀ w w', τ.grow w w' → w.Grows w') :
    Lenient cfg τ a.pid (transferConduct cfg a) tags where
  grow := hgrow
  read _ _ _ _ := trivial
  nanoid _ _ _ := trivial
  inside _ _ _ _ _ := trivial
  commit _ _ _ _ _ _ := trivial

/-- Outside transactions only the payout runner writes legs, and only their status. -/
theorem Request.executes_transfer {q : Request} {s : TransferStmt} (h : q.Executes (.transfer s)) :
    q = .payoutRunner ∧ ∃ p status, s = .setAll p status := by
  have hround : ∀ topics, RoundDoes topics (.transfer s) →
      .payoutConfirmRequested ∈ topics ∧ ∃ p status, s = .setAll p status := by
    rintro topics ⟨key, htopic, hhandler | hfinal⟩
    · cases key with
      | payout p => exact hhandler.elim
      | payoutConfirm p =>
          cases s with
          | upsert k row => exact hhandler.elim
          | setAll q status => exact ⟨htopic, q, status, rfl⟩
      | disputeAutoRefund d => exact hhandler.elim
      | verification i n =>
          obtain h | ⟨body, -, -, h⟩ := hhandler
          · exact h.elim
          · exact h.elim
    · exact hfinal.elim
  cases q with
  | payoutRunner =>
      obtain h | h := h
      · exact h.elim
      · exact ⟨rfl, (hround _ h).2⟩
  | verificationRunner =>
      obtain h | h := h
      · exact h.elim
      · exact absurd (hround _ h).1 (by simp [verificationTopics])
  | release i j n | reapLeases | payoutAddress i x | stripeWebhook e =>
      obtain h | h := h
      · exact h.elim
      · first | exact absurd h (by simp) | exact h.elim
  | _ => exact h.elim

/-- A round of the payout runner on the crypto path settles legs by what it has read. -/
theorem payoutRunner_keeps {τ : Terms World Lock TransferNote} {known : World → Prop} {pid : Nat}
    (hgrow : ∀ w w', τ.grow w w' → w.Grows w') (hcrypto : cfg.paymentsProvider.isCrypto = true) :
    (runOutboxLoop cfg payoutTopics pid).Keeps (system cfg transferNotes) τ ⟨pid, .payoutRunner⟩
      (transferConduct cfg ⟨pid, .payoutRunner⟩) known := by
  have hD : Lenient cfg τ pid (transferConduct cfg ⟨pid, .payoutRunner⟩) fun _ => True :=
    transferConduct_lenient (a := ⟨pid, .payoutRunner⟩) hgrow
  refine runOutboxLoop_keeps_of (a := ⟨pid, .payoutRunner⟩) hD trivial fun evt htopic => ?_
  refine deliver_keeps_of (a := ⟨pid, .payoutRunner⟩) ?_ fun s _ _ _ _ => by trivial
  obtain ⟨key, n⟩ := evt
  cases key with
  | payout p =>
      refine handlePayoutRequested_keeps_of (a := ⟨pid, .payoutRunner⟩) hD
        fun payout fees known' hsplit => ?_
      rw [if_pos hcrypto]
      exact payCrypto_keeps hD (fun _ => trivial) (fun _ _ _ => trivial) hsplit
  | payoutConfirm p =>
      refine Prog.Follows.keeps handlePayoutConfirmRequested_follows fun g s busy h => ?_
      cases s <;> first | exact h | exact fun _ => h
  | disputeAutoRefund d => exact handleDisputeAutoRefund_keeps hD trivial
  | verification i n => exact absurd htopic (by simp [payoutTopics, OutboxKey.topic])

/-- On the crypto path every request settles legs by what it has read. -/
theorem Request.transfers_does {τ : Terms World Lock TransferNote} {pid : Nat} (q : Request)
    (hgrow : ∀ w w', τ.grow w w' → w.Grows w') (hcrypto : cfg.paymentsProvider.isCrypto = true) :
    (q.code cfg pid).Does (system cfg transferNotes) τ ⟨pid, q⟩ (transferConduct cfg ⟨pid, q⟩)
      (fun _ _ => True) (fun _ _ => True) .start := by
  have hkeeps : (q.code cfg pid).Keeps (system cfg transferNotes) τ ⟨pid, q⟩
      (transferConduct cfg ⟨pid, q⟩) fun _ => True := by
    by_cases hrunner : q = .payoutRunner
    · subst hrunner
      exact (payoutRunner_keeps hgrow hcrypto).bind fun _ => Prog.keeps_ret
    · refine Request.code_keeps (a := ⟨pid, q⟩) (transferConduct_lenient hgrow) fun g s busy h _ => ?_
      cases s with
      | transfer s => exact absurd (Request.executes_transfer h).1 hrunner
      | _ => exact fun hq => absurd hq hrunner
  exact (hkeeps .start ⟨⟨rfl, rfl⟩, fun _ _ _ => trivial⟩).mono (fun _ _ _ => trivial)
    (fun _ _ _ => trivial) (fun _ _ _ h => h) (fun _ _ _ _ h => h) fun _ _ _ _ h => h

end Walks

end OpenUnion
