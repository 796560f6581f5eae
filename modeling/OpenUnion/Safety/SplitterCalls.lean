import OpenUnion.Code.Calldata
import OpenUnion.Safety.Splits

/-!
# The splitter executes what the worker encodes

The worker encodes a payout's split by hand and the contract checks it again, so the
encoder, the contract and the settings route have to agree on the layout, on zero fees
and on zero addresses.

* `payoutV2_transfers`: a call that passes the contract's checks moves its positive legs.
* `payoutV2_reverts_on_platform`: a platform fee for the zero address reverts.
* `splitter_call_agrees`: the contract reads the input of the encoder; and for settings the
  route accepts, the calldata of a payout moves exactly the split *if and only if* it is
  not a payout with a platform fee whose stored wallet is the zero address.
* `zero_wallet_reverts`: the route accepts that wallet, and the payout reverts.
-/

namespace OpenUnion

/-- The legs of a call that carry money, as transfers. -/
def SplitterCall.transfers (c : SplitterCall) (sender : Nat) : List TransferFrom :=
  [⟨c.token, sender, c.worker, c.net⟩, ⟨c.token, sender, c.platform, c.platformFee⟩,
    ⟨c.token, sender, c.proofwork, c.proofworkFee⟩].filter fun t => decide (0 < t.amount)

theorem SplitterCall.transfers_sum (c : SplitterCall) (sender : Nat) :
    ((c.transfers sender).map TransferFrom.amount).sum = c.total := by
  have hfilter : ∀ legs : List TransferFrom,
      ((legs.filter fun t => decide (0 < t.amount)).map TransferFrom.amount).sum =
        (legs.map TransferFrom.amount).sum := by
    intro legs
    induction legs with
    | nil => rfl
    | cons leg legs ih =>
        by_cases hleg : 0 < leg.amount
        · simp [hleg, ih]
        · simp [ih, Nat.eq_zero_of_not_pos hleg]
  rw [SplitterCall.transfers, hfilter]
  simp [SplitterCall.total, Nat.add_assoc]

section Contract

variable {transferFrom : TransferFrom → Bool} {c : SplitterCall}

theorem transferLeg_eq (htoken : ∀ t, transferFrom t = true) (leg : TransferFrom)
    (reason : String) :
    transferLeg transferFrom leg reason =
      .ok ([leg].filter fun t => decide (0 < t.amount)) := by
  by_cases hleg : 0 < leg.amount
  · simp [transferLeg, require, htoken, hleg, bind, Except.bind, pure, Except.pure]
  · simp [transferLeg, hleg, pure, Except.pure]

/-- **A call that passes the checks** moves its positive legs. -/
theorem payoutV2_transfers (htoken : ∀ t, transferFrom t = true) (sender : Nat)
    (hworker : c.worker ≠ 0) (hproofwork : c.proofwork ≠ 0)
    (hplatform : 0 < c.platformFee → c.platform ≠ 0) :
    payoutV2 false transferFrom sender c = .ok (c.transfers sender) := by
  have hlegs : c.transfers sender =
      ([⟨c.token, sender, c.worker, c.net⟩].filter fun t => decide (0 < t.amount)) ++
        ([⟨c.token, sender, c.platform, c.platformFee⟩].filter fun t => decide (0 < t.amount)) ++
        ([⟨c.token, sender, c.proofwork, c.proofworkFee⟩].filter fun t => decide (0 < t.amount)) := by
    simp [SplitterCall.transfers, ← List.filter_append]
  have haddress : require (decide (c.worker ≠ 0 ∧ c.proofwork ≠ 0)) "bad_address" = .ok () := by
    simp [require, hworker, hproofwork]
  have hcheck : (if 0 < c.platformFee then
      require (decide (c.platform ≠ 0)) "bad_platform" else .ok ()) = .ok () := by
    split_ifs with hfee
    · simp [require, hplatform hfee]
    · rfl
  rw [payoutV2, haddress, hcheck, transferLeg_eq htoken, transferLeg_eq htoken,
    transferLeg_eq htoken, hlegs]
  rfl

/-- **A platform fee for the zero address** reverts. -/
theorem payoutV2_reverts_on_platform (sender : Nat)
    (hworker : c.worker ≠ 0) (hproofwork : c.proofwork ≠ 0)
    (hfee : 0 < c.platformFee) (hplatform : c.platform = 0) :
    payoutV2 false transferFrom sender c = .error "bad_platform" := by
  have haddress : require (decide (c.worker ≠ 0 ∧ c.proofwork ≠ 0)) "bad_address" = .ok () := by
    simp [require, hworker, hproofwork]
  have hcheck : require (decide (c.platform ≠ 0)) "bad_platform" = .error "bad_platform" := by
    simp [require, hplatform]
  rw [payoutV2, haddress, if_pos hfee, hcheck]
  rfl

end Contract

/-! ## Settings -/

/-- The route stores these settings. -/
def OrgFeeAccepted (cfg : Config) (platformFeeBps : Nat) (wallet : Option Nat) : Prop :=
  ∃ orgId walletRaw, platformFeeRoute cfg orgId platformFeeBps walletRaw =
    platformFeeRoute.store orgId platformFeeBps wallet

/-- A fee comes with a wallet. -/
theorem OrgFeeAccepted.wallet {cfg : Config} {bps : Nat} {wallet : Option Nat}
    (h : OrgFeeAccepted cfg bps wallet) (hbps : 0 < bps) : ∃ a, wallet = some a := by
  obtain ⟨orgId, raw, hroute⟩ := h
  cases wallet with
  | some a => exact ⟨a, rfl⟩
  | none =>
      simp only [platformFeeRoute] at hroute
      split_ifs at hroute with hmax hlimit
      · exact absurd hroute (by simp [platformFeeRoute.store])
      · exact absurd hroute (by simp [platformFeeRoute.store])
      · cases raw with
        | absent => exact absurd hroute (by simp [platformFeeRoute.store])
        | invalid => exact absurd hroute (by simp [platformFeeRoute.store])
        | address a => exact absurd hroute (by simp [platformFeeRoute.store])

/-- What a split of a payout moves. -/
def Fees.moves (fees : Fees) (token sender worker proofwork : Nat) (wallet : Option Nat) :
    List TransferFrom :=
  [⟨token, sender, worker, fees.netAmountCents * 10000⟩,
    ⟨token, sender, wallet.getD 0, fees.platformFeeCents * 10000⟩,
    ⟨token, sender, proofwork, fees.proofworkFeeCents * 10000⟩].filter
      fun t => decide (0 < t.amount)

/-- The legs of a split fit into 256 bits. -/
theorem splitterCall_fits {cfg : Config} {fees : Fees} {address : Option Nat} {amountCents : Nat}
    (htotal : fees.total = amountCents) (hamount : amountCents < 2 ^ 31) :
    (splitterCall cfg fees address).Fits := by
  have hpart : ∀ cents, cents ≤ amountCents → centsToUsdcBaseUnits cents < 2 ^ 256 := by
    intro cents hle
    have hbound : (2 : Nat) ^ 31 * 10000 ≤ 2 ^ 256 := by norm_num
    have hcents : cents * 10000 < 2 ^ 31 * 10000 := by omega
    exact hcents.trans_le hbound
  simp only [Fees.total] at htotal
  exact ⟨hpart _ (by omega), hpart _ (by omega), hpart _ (by omega)⟩

/-- **The contract executes what the worker encodes.**  It reads back the input of the
encoder, whatever the addresses and amounts.  And for a payout with settings that the
route accepts, it moves exactly the split, unless there is a platform fee to pay and the
stored wallet is the zero address. -/
theorem splitter_call_agrees (k : Keccak) :
    (∀ (input : EncodeInput) (c : SplitterCall), input.Names c → c.Fits →
      (calldata (encodePayoutSplitterCallV2 k input)).bind (decodeCall k) = some c) ∧
    ∀ (cfg : Config) (bps amountCents worker proofwork sender : Nat) (wallet : Option Nat)
      (fees : Fees) (input : EncodeInput) (transferFrom : TransferFrom → Bool),
      OrgFeeAccepted cfg bps wallet → amountCents < 2 ^ 31 →
      splitFees cfg amountCents bps wallet = .ok fees →
      worker ≠ 0 → cfg.proofworkFeeWallet = some proofwork → proofwork ≠ 0 →
      input.Names (splitterCall cfg fees (some worker)) →
      (∀ t, transferFrom t = true) →
      ((∃ moves, executeSplitter k false transferFrom sender (encodePayoutSplitterCallV2 k input) =
          .ok moves ∧
        moves = fees.moves cfg.baseUsdcAddress sender worker proofwork wallet ∧
        (moves.map TransferFrom.amount).sum = amountCents * 10000) ↔
      ¬ (0 < amountCents * bps / 10000 ∧ wallet = some 0)) := by
  refine ⟨fun input c hnames hfits => decode_encode k hnames hfits, ?_⟩
  intro cfg bps amountCents worker proofwork sender wallet fees input transferFrom haccepted
    hamount hsplit hworker hpw hproofwork hnames htoken
  obtain ⟨hfee, hwallet, -⟩ := splitFees_columns hsplit
  have htotal : fees.total = amountCents := splitFees_total hsplit
  have hdecoded := decode_encode k hnames (splitterCall_fits htotal hamount)
  have hexecute : executeSplitter k false transferFrom sender (encodePayoutSplitterCallV2 k input) =
      payoutV2 false transferFrom sender (splitterCall cfg fees (some worker)) := by
    rw [executeSplitter, hdecoded]
  have hworker' : (splitterCall cfg fees (some worker)).worker ≠ 0 := hworker
  have hproofwork' : (splitterCall cfg fees (some worker)).proofwork ≠ 0 := by
    simpa [splitterCall, hpw] using hproofwork
  rw [hexecute, ← hfee]
  constructor
  · rintro ⟨moves, hmoves, -, -⟩ ⟨hpositive, hzero⟩
    have hunits : 0 < (splitterCall cfg fees (some worker)).platformFee :=
      Nat.mul_pos hpositive (by decide)
    have hplatform : (splitterCall cfg fees (some worker)).platform = 0 := by
      simp [splitterCall, hpositive, hwallet, hzero]
    rw [payoutV2_reverts_on_platform sender hworker' hproofwork' hunits hplatform] at hmoves
    exact absurd hmoves (by simp)
  · intro hgood
    have hplatform : 0 < (splitterCall cfg fees (some worker)).platformFee →
        (splitterCall cfg fees (some worker)).platform ≠ 0 := by
      intro hunits
      have hpositive : 0 < fees.platformFeeCents := Nat.pos_of_mul_pos_right hunits
      have hbps : 0 < bps := by
        rw [hfee] at hpositive
        refine Nat.pos_of_ne_zero fun h => ?_
        simp [h] at hpositive
      obtain ⟨a, rfl⟩ := haccepted.wallet hbps
      have ha : a ≠ 0 := fun h => hgood ⟨hpositive, by rw [h]⟩
      simpa [splitterCall, hpositive, hwallet] using ha
    refine ⟨_, payoutV2_transfers htoken sender hworker' hproofwork' hplatform, ?_, ?_⟩
    · by_cases hpositive : 0 < fees.platformFeeCents
      · simp [SplitterCall.transfers, Fees.moves, splitterCall, centsToUsdcBaseUnits, hpositive,
          hwallet, hpw]
      · have hnone : fees.platformFeeCents = 0 := Nat.eq_zero_of_not_pos hpositive
        simp [SplitterCall.transfers, Fees.moves, splitterCall, centsToUsdcBaseUnits, hnone, hpw,
          List.filter_cons]
    · rw [SplitterCall.transfers_sum, (splitterCall_carries cfg fees _).total, htotal]

/-- The hash of the signature of `payoutV2`; other texts are not hashed here. -/
def signatureHash : Keccak where
  keccak256 _ := [0xb0, 0xe7, 0x9a, 0x6e, 0x04, 0x44, 0x68, 0x42, 0x86, 0x74, 0xda, 0x0c, 0xd2,
    0xc8, 0x05, 0x26, 0x7b, 0x2a, 0x0c, 0xfb, 0xbe, 0x28, 0x30, 0x98, 0x2c, 0x1e, 0xaf, 0xd2, 0x1c,
    0x91, 0xb0, 0xff]
  id _ := "0xb0e79a6e044468428674da0cd2c805267b2a0cfbbe2830982c1eafd21c91b0ff".toList
  size _ := rfl
  prints _ := ⟨"b0e79a6e044468428674da0cd2c805267b2a0cfbbe2830982c1eafd21c91b0ff".toList,
    by decide, by decide, by decide⟩

/-- A text of an address. -/
def addressText (a : Nat) : List Char := '0' :: 'x' :: (Nat.toDigits 16 a).leftpad 40 '0'

theorem addressText_names {a : Nat} (h : IsAddress a) : AddressText (addressText a) a := by
  have hlen : (Nat.toDigits 16 a).length ≤ 40 :=
    (Nat.length_toDigits_le_iff (by decide) (by decide)).mpr (h.trans_eq (by norm_num))
  exact ⟨_, rfl, by rw [List.length_leftpad, max_eq_left hlen], (Abi.spells_toDigits a).leftpad 40⟩

/-- The input of the encoder for a call. -/
def SplitterCall.input (c : SplitterCall) : EncodeInput where
  token := addressText c.token
  worker := addressText c.worker
  platform := addressText c.platform
  proofwork := addressText c.proofwork
  net := c.net
  platformFee := c.platformFee
  proofworkFee := c.proofworkFee

theorem SplitterCall.input_names {c : SplitterCall} (h : IsAddress c.token ∧ IsAddress c.worker ∧
    IsAddress c.platform ∧ IsAddress c.proofwork) : c.input.Names c where
  token := addressText_names h.1
  worker := addressText_names h.2.1
  platform := addressText_names h.2.2.1
  proofwork := addressText_names h.2.2.2
  net := rfl
  platformFee := rfl
  proofworkFee := rfl

/-- 5% and 1% of 10 dollars; the organisation's wallet is `wallet`. -/
def tenDollarFees (wallet : Nat) : Fees := ⟨941, 50, 500, some wallet, 9, 100, some 9⟩

theorem tenDollarFees_accepted (wallet : Nat) :
    OrgFeeAccepted Config.crypto 500 (some wallet) ∧
      splitFees Config.crypto 1000 500 (some wallet) = .ok (tenDollarFees wallet) :=
  ⟨⟨1, .address wallet, rfl⟩, rfl⟩

theorem splitter_call_agrees_wallet :
    let c := splitterCall Config.crypto (tenDollarFees 8) (some 7)
    (calldata (encodePayoutSplitterCallV2 signatureHash c.input)).bind (decodeCall signatureHash) =
        some c ∧
      ∃ moves, executeSplitter signatureHash false (fun _ => true) 5
          (encodePayoutSplitterCallV2 signatureHash c.input) = .ok moves ∧
        moves = (tenDollarFees 8).moves Config.crypto.baseUsdcAddress 5 7 9 (some 8) ∧
        (moves.map TransferFrom.amount).sum = 1000 * 10000 := by
  have hnames := SplitterCall.input_names
    (c := splitterCall Config.crypto (tenDollarFees 8) (some 7)) (by decide)
  have hfits : (splitterCall Config.crypto (tenDollarFees 8) (some 7)).Fits :=
    ⟨by decide, by decide, by decide⟩
  refine ⟨(splitter_call_agrees signatureHash).1 _ _ hnames hfits, ?_⟩
  exact ((splitter_call_agrees signatureHash).2 Config.crypto 500 1000 7 9 5 (some 8)
    (tenDollarFees 8) _ (fun _ => true) (tenDollarFees_accepted 8).1 (by decide)
    (tenDollarFees_accepted 8).2 (by decide) rfl (by decide) hnames fun _ => rfl).mpr (by decide)

/-- **The zero address is accepted as a wallet**, and then every payout with a platform
fee reverts. -/
theorem zero_wallet_reverts :
    let c := splitterCall Config.crypto (tenDollarFees 0) (some 7)
    OrgFeeAccepted Config.crypto 500 (some 0) ∧
      splitFees Config.crypto 1000 500 (some 0) = .ok (tenDollarFees 0) ∧
      c.input.Names c ∧
      executeSplitter signatureHash false (fun _ => true) 5
        (encodePayoutSplitterCallV2 signatureHash c.input) = .error "bad_platform" := by
  refine ⟨(tenDollarFees_accepted 0).1, (tenDollarFees_accepted 0).2,
    SplitterCall.input_names (by decide), ?_⟩
  decide +kernel

end OpenUnion
