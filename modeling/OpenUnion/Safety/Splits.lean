import OpenUnion.Safety.Basic

/-!
# A split adds up to the amount

A payout is split when it is created and again when it is executed, each time with
the fee settings of that moment, by two floor divisions in a row.  Nothing is lost
or made up by that: the proofwork fee is taken of what the platform fee has left,
and the worker gets the rest.

* `computePayoutSplitCents_total`: one split.
* `splits_conserved`: in every reachable state the stored split of a payout adds up
  to its amount, the legs of every transaction the chain has accepted add up to the
  amount of its payout in base units, and so do the legs of a payout that is sent to
  a payment provider.
-/

namespace OpenUnion

open Interleave

/-- The cents of a split. -/
def Fees.total (f : Fees) : Nat := f.netAmountCents + f.platformFeeCents + f.proofworkFeeCents

/-- The base units of the legs of a call. -/
def SplitterCall.total (c : SplitterCall) : Nat := c.net + c.platformFee + c.proofworkFee

/-- A split adds up to the gross amount. -/
theorem computePayoutSplitCents_total {gross platformBps proofworkBps platform proofwork net : Nat}
    (h : computePayoutSplitCents gross platformBps proofworkBps = .ok (platform, proofwork, net)) :
    net + platform + proofwork = gross := by
  simp only [computePayoutSplitCents] at h
  split_ifs at h with hplatform hproofwork hsum
  simp only [Except.ok.injEq, Prod.mk.injEq] at h
  obtain ⟨hp, hq, hn⟩ := h
  have hplatform_le : gross * platformBps / 10000 ≤ gross := by
    refine Nat.div_le_of_le_mul ?_
    rw [Nat.mul_comm]
    exact Nat.mul_le_mul_right _ (by omega)
  have hproofwork_le : (gross - gross * platformBps / 10000) * proofworkBps / 10000 ≤
      gross - gross * platformBps / 10000 := by
    refine Nat.div_le_of_le_mul ?_
    rw [Nat.mul_comm]
    exact Nat.mul_le_mul_right _ (by omega)
  omega

theorem splitFees_total {cfg : Config} {amount bps : Nat} {wallet : Option Nat} {fees : Fees}
    (h : splitFees cfg amount bps wallet = .ok fees) : fees.total = amount := by
  simp only [splitFees] at h
  cases hbps : proofworkFeeBps cfg with
  | error e => simp [hbps] at h
  | ok pwBps =>
      cases hsplit : computePayoutSplitCents amount bps pwBps with
      | error e => simp [hbps, hsplit] at h
      | ok split =>
          obtain ⟨platform, proofwork, net⟩ := split
          have htotal := computePayoutSplitCents_total hsplit
          simp only [hbps, hsplit, Except.ok.injEq] at h
          rw [← h]
          exact htotal

/-- The fee columns of a split that say whom a fee is paid to. -/
theorem splitFees_columns {cfg : Config} {amountCents bps : Nat} {wallet : Option Nat}
    {fees : Fees} (h : splitFees cfg amountCents bps wallet = .ok fees) :
    fees.platformFeeCents = amountCents * bps / 10000 ∧ fees.platformFeeWalletAddress = wallet ∧
      fees.proofworkFeeWalletAddress = cfg.proofworkFeeWallet := by
  simp only [splitFees] at h
  cases hbps : proofworkFeeBps cfg with
  | error e => simp [hbps] at h
  | ok pwBps =>
      simp only [hbps, computePayoutSplitCents] at h
      split_ifs at h with hplatform hproofwork hsum
      obtain rfl := Except.ok.inj h
      exact ⟨rfl, rfl, rfl⟩

/-- The legs of a call carry a split in base units. -/
structure SplitterCall.Carries (c : SplitterCall) (f : Fees) : Prop where
  net : c.net = centsToUsdcBaseUnits f.netAmountCents
  platformFee : c.platformFee = centsToUsdcBaseUnits f.platformFeeCents
  proofworkFee : c.proofworkFee = centsToUsdcBaseUnits f.proofworkFeeCents

theorem splitterCall_carries (cfg : Config) (fees : Fees) (address : Option Nat) :
    (splitterCall cfg fees address).Carries fees := ⟨rfl, rfl, rfl⟩

theorem SplitterCall.Carries.total {c : SplitterCall} {f : Fees} (h : c.Carries f) :
    c.total = f.total * 10000 := by
  have hnet := h.net
  have hplatform := h.platformFee
  have hproofwork := h.proofworkFee
  simp only [centsToUsdcBaseUnits] at hnet hplatform hproofwork
  simp only [SplitterCall.total, Fees.total]
  omega

/-- The transaction carries a split of the amount of its payout. -/
def ChainTx.Exact (w : World) (tx : ChainTx) : Prop :=
  ∃ row fees, w.payouts tx.payoutId = some row ∧ tx.call.Carries fees ∧
    fees.total = row.amountCents

/-- Payouts and transactions add up. -/
structure Conserved (w : World) : Prop where
  rows : AllRows (fun _ p => Source p.submissionId p.workerId p.amountCents w ∧
    p.fees.total = p.amountCents) w.payouts
  index : ∀ s i, w.payoutOf s = some i → ∃ p, w.payouts i = some p ∧ p.submissionId = s
  chain : ∀ tx ∈ w.outside.chain, tx.Exact w

section Steps

variable {cfg : Config} {w w' : World} {busy : Lock → Bool}

/-- A source stays one. -/
theorem Source.grows {s i n : Nat} (h : Source s i n w) (hgrow : w.Grows w') : Source s i n w' := by
  obtain ⟨sub, job, bounty, hsub, hjob, hbounty, hworker, hcents⟩ := h
  obtain ⟨sub', hsub', horigin⟩ := hgrow.submissions _ sub hsub
  obtain ⟨job', hjob', hbountyId⟩ := hgrow.jobs _ job hjob
  obtain ⟨bounty', hbounty', hterms⟩ := hgrow.bounties _ bounty hbounty
  have hjobId : sub'.jobId = sub.jobId := congrArg Prod.fst horigin
  have hworker' : sub'.workerId = sub.workerId := congrArg Prod.snd horigin
  have hcents' : bounty'.payoutCents = bounty.payoutCents := congrArg (fun t => t.2.2.1) hterms
  refine ⟨sub', job', bounty', hsub', ?_, ?_, hworker'.trans hworker, hcents'.trans hcents⟩
  · rw [hjobId, hjob']
  · rw [hbountyId, hbounty']

/-- A submission has one source. -/
theorem Source.unique {s i n i' n' : Nat} (h : Source s i n w) (h' : Source s i' n' w) : n = n' := by
  obtain ⟨sub, job, bounty, hsub, hjob, hbounty, -, hcents⟩ := h
  obtain ⟨sub', job', bounty', hsub', hjob', hbounty', -, hcents'⟩ := h'
  obtain rfl : sub = sub' := Option.some.inj (hsub.symm.trans hsub')
  obtain rfl : job = job' := Option.some.inj (hjob.symm.trans hjob')
  obtain rfl : bounty = bounty' := Option.some.inj (hbounty.symm.trans hbounty')
  exact hcents.symm.trans hcents'

theorem SplitOf.total {p : Nat} {fees : Fees} {row : Payout} (h : SplitOf cfg p fees w)
    (hrow : w.payouts p = some row) : fees.total = row.amountCents := by
  obtain ⟨row', bps, wallet, hrow', -, hsplit⟩ := h
  obtain rfl : row = row' := Option.some.inj (hrow.symm.trans hrow')
  exact splitFees_total hsplit

theorem ChainTx.Exact.grows {tx tx' : ChainTx} (h : tx.Exact w) (hgrow : w.Grows w')
    (hpayout : tx'.payoutId = tx.payoutId) (hcall : tx'.call = tx.call) : tx'.Exact w' := by
  obtain ⟨row, fees, hrow, hcarries, htotal⟩ := h
  obtain ⟨row', hrow', hterms⟩ := hgrow.payouts _ row hrow
  have hamount : row'.amountCents = row.amountCents := congrArg (fun t => t.2.2) hterms
  exact ⟨row', fees, hpayout ▸ hrow', hcall ▸ hcarries, htotal.trans hamount.symm⟩

/-- A grounded statement on `payouts` keeps the rows exact. -/
theorem Conserved.payout {q : Request} {s : PayoutStmt} (h : Conserved w)
    (hexec : q.Executes (.payout s)) (hground : (Stmt.payout s).Grounded cfg w) :
    AllRows (fun _ p => Source p.submissionId p.workerId p.amountCents w ∧
      p.fees.total = p.amountCents) (s.write w w.payouts) ∧
    ∀ i k, s.writeIndex w w.payoutOf i = some k →
      ∃ p, s.write w w.payouts k = some p ∧ p.submissionId = i := by
  obtain ⟨id, new, rfl, -⟩ | ⟨i, fees, rfl⟩ | ⟨i, st, pr, ref, rfl⟩ | ⟨i, rfl⟩ :=
    Request.executes_payout hexec
  · obtain ⟨hsource, bps, wallet, hsplit⟩ := hground
    have htotal : new.fees.total = new.amountCents := splitFees_total hsplit
    simp only [PayoutStmt.write, PayoutStmt.writeIndex]
    split_ifs with hclash
    · exact ⟨h.rows, h.index⟩
    cases hindex : w.payoutOf new.submissionId with
    | some k =>
        obtain ⟨old, hold, hsubmission⟩ := h.index _ k hindex
        have htarget : PayoutStmt.target id new w = k := by simp [PayoutStmt.target, hindex]
        obtain ⟨hsource', htotal'⟩ := h.rows k old hold
        have hamount : new.amountCents = old.amountCents :=
          hsource.unique (hsubmission ▸ hsource')
        rw [htarget, hold]
        refine ⟨h.rows.update ⟨hsource', htotal.trans hamount⟩, fun i k' hk' => ?_⟩
        by_cases hi : i = new.submissionId
        · subst hi
          obtain rfl : k = k' := by simpa using hk'
          exact ⟨_, Function.update_self .., hsubmission⟩
        · obtain ⟨p, hp, hsub⟩ := h.index i k' (by simpa [hi] using hk')
          by_cases hkk : k' = k
          · subst hkk
            obtain rfl : p = old := Option.some.inj (hp.symm.trans hold)
            exact ⟨_, Function.update_self .., hsub⟩
          · exact ⟨p, by simpa [hkk] using hp, hsub⟩
    | none =>
        have htarget : PayoutStmt.target id new w = id := by simp [PayoutStmt.target, hindex]
        have hfree : w.payouts id = none := by
          simpa [PayoutStmt.clash, hindex] using hclash
        rw [htarget, hfree]
        refine ⟨h.rows.update ⟨hsource, htotal⟩, fun i k' hk' => ?_⟩
        by_cases hi : i = new.submissionId
        · subst hi
          obtain rfl : id = k' := by simpa using hk'
          exact ⟨_, Function.update_self .., rfl⟩
        · obtain ⟨p, hp, hsub⟩ := h.index i k' (by simpa [hi] using hk')
          have hkk : k' ≠ id := by
            rintro rfl
            exact absurd (hfree.symm.trans hp) (by simp)
          exact ⟨p, by simpa [hkk] using hp, hsub⟩
  · refine ⟨h.rows.modify fun p hp hexact => ⟨hexact.1, (SplitOf.total hground hp :)⟩, ?_⟩
    intro j k hk
    obtain ⟨p, hp, hsub⟩ := h.index j k hk
    exact ⟨_, modify_eq_some hp, by split_ifs <;> exact hsub⟩
  · refine ⟨h.rows.modify fun p _ hexact => hexact, fun j k hk => ?_⟩
    obtain ⟨p, hp, hsub⟩ := h.index j k hk
    exact ⟨_, modify_eq_some hp, by split_ifs <;> exact hsub⟩
  · refine ⟨h.rows.modify fun p _ hexact => ?_, fun j k hk => ?_⟩
    · split_ifs <;> exact hexact
    · obtain ⟨p, hp, hsub⟩ := h.index j k hk
      exact ⟨_, modify_eq_some hp, by split_ifs <;> exact hsub⟩

/-- A commit rewrites a payout without changing what it pays. -/
theorem PayoutCommit.exact {i : Nat} {p p' : Payout} {t : Tag} (h : PayoutCommit cfg w i p t p')
    (hrow : w.payouts i = some p) (htotal : p.fees.total = p.amountCents) :
    p'.fees.total = p'.amountCents := by
  cases h with
  | sent hash fees hsplit => exact (hsplit.total hrow :)
  | _ => exact htotal

end Steps

/-- The plan: payouts and transactions add up. -/
def splitPlan (cfg : Config) : Plan (system cfg noNotes) :=
  systemPlan cfg noNotes anyStep (fun _ => True) (fun g => Conserved g.world) (fun _ _ _ => True)
    fun _ _ _ => True

/-- A state with payouts as they were and transactions as they were. -/
theorem Conserved.still {w w' : World} (h : Conserved w) (hgrow : w.Grows w')
    (hpayouts : w'.payouts = w.payouts) (hindex : w'.payoutOf = w.payoutOf)
    (hchain : ∀ tx' ∈ w'.outside.chain, ∃ tx ∈ w.outside.chain,
      tx'.payoutId = tx.payoutId ∧ tx'.call = tx.call) : Conserved w' where
  rows i p hp := by
    obtain ⟨hsource, htotal⟩ := h.rows i p (hpayouts ▸ hp)
    exact ⟨hsource.grows hgrow, htotal⟩
  index i k hk := by
    rw [hpayouts]
    exact h.index i k (hindex ▸ hk)
  chain tx' htx' := by
    obtain ⟨tx, htx, hpayout, hcall⟩ := hchain tx' htx'
    exact (h.chain tx htx).grows hgrow hpayout hcall

theorem splitPlan_valid (cfg : Config) : (splitPlan cfg).Valid := by
  refine systemPlan_valid (fun _ _ _ => trivial) ?_ (fun _ _ _ _ _ _ => trivial)
    (fun _ _ _ _ _ _ _ => trivial)
  intro l L g g' h
  have hgrown := Conducted.grows (fun a g t L w
    (hcom : a.req.Ends t ∧ t.Effect cfg (fun _ _ _ => True) a.pid L g.world w) => hcom.2.grows)
    h.conducted
  obtain ⟨hinv, -, hstep⟩ := h
  have hinv : Conserved g.world := hinv
  cases hstep with
  | stmt a s busy _ _ _ hout =>
      obtain ⟨hexec, hground⟩ := hout
      have hpayouts := s.apply_payouts busy g.world
      have hindex := s.apply_payoutOf busy g.world
      have houtside := s.apply_outside busy g.world
      have hquiet : (s.apply busy g.world).payouts = g.world.payouts →
          (s.apply busy g.world).payoutOf = g.world.payoutOf →
          (s.apply busy g.world).outside.chain = g.world.outside.chain →
          Conserved (s.apply busy g.world) := fun hp hi hc =>
        hinv.still hgrown hp hi fun tx htx => ⟨tx, hc ▸ htx, rfl, rfl⟩
      cases s with
      | payout s =>
          change ((Stmt.payout s).apply busy g.world).payouts = s.write g.world g.world.payouts
            at hpayouts
          change ((Stmt.payout s).apply busy g.world).payoutOf =
            s.writeIndex g.world g.world.payoutOf at hindex
          obtain ⟨hrows, hnew⟩ := hinv.payout hexec hground
          refine ⟨fun i p hp => ?_, fun i k hk => ?_, fun tx htx => ?_⟩
          · obtain ⟨hsource, htotal⟩ := hrows i p (hpayouts ▸ hp)
            exact ⟨hsource.grows hgrown, htotal⟩
          · obtain ⟨p, hp, hsub⟩ := hnew i k (hindex ▸ hk)
            exact ⟨p, hpayouts.symm ▸ hp, hsub⟩
          · exact (hinv.chain tx (houtside ▸ htx)).grows hgrown rfl rfl
      | outside s =>
          obtain ⟨mock, p, n, rfl⟩ := Request.executes_outside hexec
          refine hquiet hpayouts hindex ?_
          rw [houtside]
          simp only [Stmt.effect, OutsideStmt.effect]
          split_ifs <;> rfl
      | _ => exact hquiet hpayouts hindex (congrArg Outside.chain houtside)
  | inner a s busy v _ _ hinner =>
      have hpayouts := Stmt.effect_payouts s busy (v g.world) g.world
      have hindex := Stmt.effect_payoutOf s busy (v g.world) g.world
      cases s with
      | outside s =>
          cases s with
          | createPayout mock p n => exact (hinner : False).elim
          | sendRawTransaction p call n =>
              obtain ⟨fees, address, hsplit, -, -, hcall⟩ := hinner
              obtain ⟨row, bps, wallet, hrow, -, hfees⟩ := id hsplit
              refine ⟨fun i p hp => ?_, fun i k hk => ?_, fun tx htx => ?_⟩
              · obtain ⟨hsource, htotal⟩ := hinv.rows i p (hpayouts ▸ hp)
                exact ⟨hsource.grows hgrown, htotal⟩
              · obtain ⟨p, hp, hsub⟩ := hinv.index i k (hindex ▸ hk)
                exact ⟨p, hpayouts.symm ▸ hp, hsub⟩
              · have hcases : tx ∈ g.world.outside.chain ∨
                    tx = ⟨g.world.nextId, n, p, call, false⟩ := by
                  change tx ∈ (OutsideStmt.effect (.sendRawTransaction p call n) g.world).outside.chain
                    at htx
                  simp only [OutsideStmt.effect] at htx
                  split_ifs at htx with haccepts
                  · exact (List.mem_cons.mp htx).symm
                  · exact Or.inl htx
                obtain hold | rfl := hcases
                · exact (hinv.chain tx hold).grows hgrown rfl rfl
                · refine ⟨row, fees, hpayouts.symm ▸ hrow, ?_, splitFees_total hfees⟩
                  change call.Carries fees
                  rw [hcall]
                  exact splitterCall_carries cfg fees address
      | _ => exact hinv.still hgrown hpayouts hindex fun tx htx => ⟨tx, htx, rfl, rfl⟩
  | commit a t L v _ _ hcom =>
      obtain ⟨-, heffect⟩ := hcom
      obtain ⟨hindex, houtside, -⟩ := heffect.frame
      refine ⟨fun i p' hp' => ?_, fun i k hk => ?_, fun tx htx => ?_⟩
      · obtain ⟨p, hrow, hcommit⟩ := heffect.payout_of hp'
        obtain ⟨hsource, htotal⟩ := hinv.rows i p hrow
        obtain ⟨p'', hp'', hterms⟩ := hgrown.payouts i p hrow
        obtain rfl : p' = p'' := Option.some.inj (hp'.symm.trans hp'')
        refine ⟨?_, hcommit.exact hrow htotal⟩
        simp only [Payout.terms, Prod.mk.injEq] at hterms
        rw [hterms.1, hterms.2.1, hterms.2.2]
        exact hsource.grows hgrown
      · obtain ⟨p, hp, hsub⟩ := hinv.index i k (hindex ▸ hk)
        obtain ⟨p', hp', hterms⟩ := hgrown.payouts k p hp
        exact ⟨p', hp', (congrArg Prod.fst hterms).trans hsub⟩
      · exact (hinv.chain tx (houtside ▸ htx)).grows hgrown rfl rfl
  | reply a x _ _ => exact hinv
  | env e _ =>
      refine hinv.still hgrown ?_ ?_ ?_
      · cases e <;> rfl
      · cases e <;> rfl
      · intro tx htx
        cases e with
        | tick ms => exact ⟨tx, htx, rfl, rfl⟩
        | answers o => exact ⟨tx, htx, rfl, rfl⟩
        | revert hash =>
            obtain ⟨tx₀, htx₀, rfl⟩ := List.mem_map.mp htx
            exact ⟨tx₀, htx₀, by split_ifs <;> rfl, by split_ifs <;> rfl⟩

/-- Payouts through a splitter contract on a local chain. -/
def Config.crypto : Config :=
  { Config.default with paymentsProvider := .cryptoEvmLocal, proofworkFeeWallet := some 9 }

/-- A pending payout of 10 dollars with its event; the organisation takes 5% and the
worker has an address. -/
def cryptoWorld : World :=
  { World.empty with
    nextId := 5
    orgs := Function.update World.empty.orgs 1 (some ⟨none, none, none, 500, some 8⟩)
    workers := Function.update World.empty.workers 1 (some ⟨some 7, true, some 0⟩)
    bounties := Function.update World.empty.bounties 1
      (some ⟨1, .published, [], [0], 1000, 0, 0, some 0⟩)
    jobs := Function.update World.empty.jobs 1 (some (.fresh 1 0 0 0))
    submissions := Function.update World.empty.submissions 1
      (some ⟨1, 1, none, none, ⟨1, 0, .absent, 0⟩, .accepted, none, some .pass, none, none, none,
        0⟩)
    payouts := Function.update World.empty.payouts 1
      (some ⟨1, 1, 1000, .pending, none, none, false, ⟨941, 50, 500, some 8, 9, 100, some 9⟩, none,
        none⟩)
    payoutOf := Function.update World.empty.payoutOf 1 (some 1)
    outbox := Function.update World.empty.outbox (.payout 1) (some (.fresh 0 0))
    outboxKeys := [.payout 1] }

theorem cryptoWorld_conserved : Conserved cryptoWorld where
  rows := AllRows.update (fun _ _ h => absurd h (by simp [World.empty]))
    ⟨⟨_, _, _, rfl, rfl, rfl, rfl, rfl⟩, rfl⟩
  index s i h := by
    by_cases hs : s = 1
    · subst hs
      obtain rfl : 1 = i := by simpa [cryptoWorld] using h
      exact ⟨_, rfl, rfl⟩
    · exact absurd h (by simp [cryptoWorld, World.empty, hs])
  chain tx htx := absurd htx (by simp [cryptoWorld, World.empty])

/-- The event is delivered: one transaction is sent. -/
def broadcastRound : List Pick := .spawn .payoutRunner :: List.replicate 25 (.run 0)

end OpenUnion
