import OpenUnion.Safety.Basic

/-!
# An open dispute blocks its payout

`createDispute` looks for an open dispute and then inserts one, without locking the
payout in between; a delivery of `payout.requested` looks at the block and then pays.
So the block is safe as long as no dispute is opened in such a gap.  Since a runner
last read the payout, what has happened to it is noted.

* `open_dispute_blocks`: as long as no dispute is opened on a payout that is blocked by
  one, and no delivery acts on a payout that has been disputed since it read it, a
  payout has at most one open dispute, is blocked by it, and is neither sent to the
  provider nor broadcast while it is open.
* `two_open_disputes`: a run in which a payout gets two open disputes.
-/

namespace OpenUnion

open Interleave

/-- What a process learns about the block of a payout. -/
inductive Challenge where
  /-- The payout has been read and is not blocked by a dispute. -/
  | cleared (payoutId : Nat)
  /-- A dispute has been opened on the payout, or it has been found blocked by one. -/
  | raised (payoutId : Nat)

/-- The payout is not blocked by a dispute. -/
def Payout.undisputed (p : Payout) : Bool :=
  decide (p.blockedReason ≠ some .disputeOpen ∧ p.blockedReason ≠ some .disputeRefund)

/-- The notes of reads of payouts and of new disputes. -/
def challenges (_ : Actor Request) (x : Happening) (w : World) : List Challenge :=
  match x with
  | .stmt (.read (.payout p)) _ =>
      [if (w.payouts p).any Payout.undisputed then .cleared p else .raised p]
  | .commit (.createDispute _ p) => [.raised p]
  | _ => []

/-- Since process `pid` has read the payout it has not been disputed. -/
def unchallenged (pid payoutId : Nat) : List (Nat × Challenge) → Bool
  | [] => false
  | (i, .cleared p) :: earlier =>
      decide (i = pid ∧ p = payoutId) || unchallenged pid payoutId earlier
  | (_, .raised p) :: earlier => !decide (p = payoutId) && unchallenged pid payoutId earlier

/-- The payout a delivery of `payout.requested` pays, broadcasts or blocks. -/
def Stmt.actsOn : Stmt → Option Nat
  | .payout (.blockMissingAddress p) | .outside (.createPayout _ p _)
  | .outside (.sendRawTransaction p _ _) => some p
  | _ => none

/-- No dispute is opened on a payout that is blocked by one, and no delivery acts on a
payout that has been disputed since it read it. -/
def disputesApart : Step → Glob World Challenge → Bool
  | .event _ (.commit (.createDispute _ p)), g =>
      (g.world.payouts p).all fun row => !decide (row.blockedReason = some .disputeOpen)
  | .event a (.stmt s _), g => s.actsOn.all fun p => unchallenged a.pid p g.hist
  | _, _ => true

/-- Dispute `d` is an open dispute on payout `p`. -/
def OpenOn (d p : Nat) (w : World) : Prop :=
  ∃ row, w.disputes d = some row ∧ row.payoutId = some p ∧ row.status = .opened

/-- A payout has at most one open dispute, and is blocked by it. -/
structure DisputesBlock (w : World) : Prop where
  single : ∀ p d d', OpenOn d p w → OpenOn d' p w → d = d'
  blocked : ∀ p d, OpenOn d p w → ∃ row, w.payouts p = some row ∧
    row.blockedReason = some .disputeOpen

/-- The payout is there and not blocked by a dispute. -/
def Undisputed (p : Nat) (w : World) : Prop :=
  ∃ row, w.payouts p = some row ∧ row.undisputed = true

/-- What a process has read about a payout still holds. -/
def ReadsHold (g : Glob World Challenge) : Prop :=
  ∀ pid p, unchallenged pid p g.hist = true → Undisputed p g.world

section Steps

variable {w w' : World} {p : Nat}

theorem Undisputed.not_open (h : Undisputed p w) (hblock : DisputesBlock w) (d : Nat) :
    ¬ OpenOn d p w := by
  intro hopen
  obtain ⟨row, hrow, hundisputed⟩ := h
  obtain ⟨row', hrow', hreason⟩ := hblock.blocked p d hopen
  obtain rfl := Option.some.inj (hrow.symm.trans hrow')
  simp [Payout.undisputed, hreason] at hundisputed

/-- Only payouts and disputes matter. -/
theorem DisputesBlock.congr (h : DisputesBlock w) (hdisputes : w'.disputes = w.disputes)
    (hpayouts : w'.payouts = w.payouts) : DisputesBlock w' where
  single p d d' hd hd' := by
    simp only [OpenOn, hdisputes] at hd hd'
    exact h.single p d d' hd hd'
  blocked p d hd := by
    simp only [OpenOn, hdisputes] at hd
    rw [hpayouts]
    exact h.blocked p d hd

theorem Undisputed.congr (h : Undisputed p w) (hpayouts : w'.payouts = w.payouts) :
    Undisputed p w' := by
  rw [Undisputed, hpayouts]
  exact h

/-- The row of a payout after a statement outside transactions. -/
theorem PayoutStmt.row_after {q : Request} {s : PayoutStmt} {row : Payout}
    (hexec : q.Executes (.payout s)) (hrow : w.payouts p = some row) :
    ∃ row', s.write w w.payouts p = some row' ∧
      (row'.blockedReason = row.blockedReason ∨ s = .blockMissingAddress p ∧
        row'.blockedReason = some .workerPayoutAddressMissing) := by
  obtain ⟨id, new, rfl, -⟩ | ⟨i, fees, rfl⟩ | ⟨i, st, pr, ref, rfl⟩ | ⟨i, rfl⟩ :=
    Request.executes_payout hexec
  · simp only [PayoutStmt.write]
    split_ifs with hclash
    · exact ⟨row, hrow, Or.inl rfl⟩
    · by_cases hp : p = PayoutStmt.target id new w
      · subst hp
        exact ⟨_, Function.update_self .., Or.inl (by simp [PayoutStmt.upserted, hrow])⟩
      · exact ⟨row, by simpa [hp] using hrow, Or.inl rfl⟩
  · exact ⟨_, modify_eq_some hrow, Or.inl (by split_ifs <;> rfl)⟩
  · exact ⟨_, modify_eq_some hrow, Or.inl (by split_ifs <;> rfl)⟩
  · refine ⟨_, modify_eq_some hrow, ?_⟩
    split_ifs with hp hpending
    · exact Or.inr ⟨by rw [hp], rfl⟩
    · exact Or.inl rfl
    · exact Or.inl rfl

/-- A statement outside transactions keeps the block of an open dispute, unless it
replaces it by another one. -/
theorem DisputesBlock.stmt {q : Request} {s : Stmt} {busy : Lock → Bool} (h : DisputesBlock w)
    (hexec : q.Executes s) (hs : ∀ p, s = .payout (.blockMissingAddress p) → ∀ d, ¬ OpenOn d p w) :
    DisputesBlock (s.apply busy w) := by
  have hdisputes : (s.apply busy w).disputes = w.disputes := by
    rw [s.apply_disputes busy w]
    cases s with
    | dispute s => exact absurd hexec Request.executes_dispute
    | _ => rfl
  have hopen : ∀ d p, OpenOn d p (s.apply busy w) → OpenOn d p w := by
    rintro d p ⟨row, hrow, hrest⟩
    exact ⟨row, hdisputes ▸ hrow, hrest⟩
  refine ⟨fun p d d' hd hd' => h.single p d d' (hopen d p hd) (hopen d' p hd'), fun p d hd => ?_⟩
  obtain ⟨row, hrow, hreason⟩ := h.blocked p d (hopen d p hd)
  have hpayouts := s.apply_payouts busy w
  cases s with
  | payout s =>
      obtain ⟨row', hrow', hsame | ⟨rfl, -⟩⟩ := PayoutStmt.row_after hexec hrow
      · exact ⟨row', (congrFun hpayouts p).trans hrow', hsame.trans hreason⟩
      · exact absurd (hopen d p hd) (hs p rfl d)
  | _ => exact ⟨row, (congrFun hpayouts p).trans hrow, hreason⟩

theorem Undisputed.stmt {q : Request} {s : Stmt} {busy : Lock → Bool} (h : Undisputed p w)
    (hexec : q.Executes s) : Undisputed p (s.apply busy w) := by
  obtain ⟨row, hrow, hundisputed⟩ := h
  have hpayouts := s.apply_payouts busy w
  cases s with
  | payout s =>
      obtain ⟨row', hrow', hreason⟩ := PayoutStmt.row_after hexec hrow
      refine ⟨row', (congrFun hpayouts p).trans hrow', ?_⟩
      obtain hsame | ⟨-, hmissing⟩ := hreason
      · simpa [Payout.undisputed, hsame] using hundisputed
      · simp [Payout.undisputed, hmissing]
  | _ => exact ⟨row, (congrFun hpayouts p).trans hrow, hundisputed⟩

variable {cfg : Config} {hold : Lock → World → World → Prop} {pid : Nat} {t : Tag} {L : List Lock}

/-- A commit that takes the block of an open dispute away closes a dispute. -/
theorem Tag.Effect.closes (h : t.Effect cfg hold pid L w w') {row row' : Payout}
    (hrow : w.payouts p = some row) (hrow' : w'.payouts p = some row')
    (hreason : row.blockedReason = some .disputeOpen)
    (hreason' : row'.blockedReason ≠ some .disputeOpen) :
    ∃ d, OpenOn d p w ∧ ∀ q, ¬ OpenOn d q w' := by
  have hne : row' ≠ row := fun hsame => hreason' (hsame ▸ hreason)
  obtain ⟨row'', hrow'', hcommit⟩ := h.payout hrow
  obtain rfl := Option.some.inj (hrow''.symm.trans hrow')
  have hclosed : ∀ d dispute st res now, w.disputes d = some dispute → st ≠ DisputeStatus.opened →
      w'.disputes = modify w.disputes d (DisputeStmt.closed st res now) → ∀ q, ¬ OpenOn d q w' := by
    rintro d dispute st res now hd hst hmodify q ⟨closed, hclosed, -, hopened⟩
    rw [hmodify, modify_row hd] at hclosed
    obtain rfl := Option.some.inj hclosed
    exact hst hopened
  cases hcommit with
  | same => exact absurd rfl hne
  | disputed d => exact absurd rfl hreason'
  | unblocked worker hwaits =>
      simp [PayoutStmt.waitsFor, hreason] at hwaits
  | sent hash fees => exact absurd hreason hreason'
  | cancelled d dispute hd hopened hpayout =>
      obtain ⟨_, outbox, keys, now, payouts, -, -, -, rfl⟩ := h
      exact ⟨d, ⟨dispute, hd, hpayout, hopened⟩, hclosed d dispute _ _ now hd (by simp) rfl⟩
  | upheld d dispute hd hopened hpayout =>
      obtain ⟨rfl, -⟩ | ⟨hfalse, -⟩ | ⟨-, h⟩ := h
      · exact absurd (Option.some.inj (hrow'.symm.trans hrow)) hne
      · exact absurd hfalse (by simp)
      · obtain ⟨_, outbox, keys, now, payouts, -, -, -, rfl⟩ := h
        exact ⟨d, ⟨dispute, hd, hpayout, hopened⟩, hclosed d dispute _ _ now hd (by simp) rfl⟩
  | refunded d dispute hd hopened hpayout _ _ =>
      obtain ⟨rfl, -⟩ | ⟨-, h⟩ | ⟨hfalse, -⟩ := h
      · exact absurd (Option.some.inj (hrow'.symm.trans hrow)) hne
      · obtain ⟨_, k, payout, accounts, accounts', billing, submissions, now, -, -, -, -, -, -, -, -, -,
          rfl⟩ := h
        exact ⟨d, ⟨dispute, hd, hpayout, hopened⟩, hclosed d dispute _ _ now hd (by simp) rfl⟩
      · exact absurd hfalse (by simp)

/-- A commit keeps the block of every open dispute, unless it opens a second one. -/
theorem DisputesBlock.commit (h : DisputesBlock w) (heffect : t.Effect cfg hold pid L w w')
    (hok : ∀ d p row, t = .createDispute d p → w.payouts p = some row →
      row.blockedReason ≠ some .disputeOpen) : DisputesBlock w' := by
  -- an open dispute was open before, or it is the new one
  have hopen : ∀ d p, OpenOn d p w' → OpenOn d p w ∨
      t = .createDispute d p ∧ ∀ d', ¬ OpenOn d' p w := by
    rintro d p ⟨row', hrow', hp, hopened⟩
    obtain ⟨row, hrow, hcommit⟩ | ⟨p', rfl, -, hp', -, -⟩ := heffect.dispute_of hrow'
    · obtain rfl := hcommit.opened hopened
      exact Or.inl ⟨row', hrow, hp, hopened⟩
    · obtain rfl : p' = p := Option.some.inj (hp'.symm.trans hp)
      refine Or.inr ⟨rfl, fun d' hd' => ?_⟩
      obtain ⟨payout, hpayout, hreason⟩ := h.blocked p' d' hd'
      exact hok d p' payout rfl hpayout hreason
  refine ⟨fun p d d' hd hd' => ?_, fun p d hd => ?_⟩
  · obtain hd | ⟨ht, hnone⟩ := hopen d p hd
    · obtain hd' | ⟨-, hnone⟩ := hopen d' p hd'
      · exact h.single p d d' hd hd'
      · exact absurd hd (hnone d)
    · obtain hd' | ⟨ht', -⟩ := hopen d' p hd'
      · exact absurd hd' (hnone d')
      · rw [ht] at ht'
        simpa using ht'
  · obtain hbefore | ⟨rfl, -⟩ := hopen d p hd
    · obtain ⟨row, hrow, hreason⟩ := h.blocked p d hbefore
      obtain ⟨row', hrow', -⟩ := heffect.payout hrow
      refine ⟨row', hrow', ?_⟩
      by_contra hreason'
      obtain ⟨d', hd', hclosed⟩ := heffect.closes hrow hrow' hreason hreason'
      obtain rfl := h.single p d d' hbefore hd'
      exact hclosed p hd
    · obtain ⟨dispute, outbox, keys, now, -, -, -, howner, -, -, -, rfl⟩ := heffect
      obtain ⟨row, sub, job, bounty, hrow, -⟩ := World.payoutOwner_eq_some.mp howner
      exact ⟨_, modify_row hrow, rfl⟩

theorem Undisputed.commit (h : Undisputed p w) (hblock : DisputesBlock w)
    (heffect : t.Effect cfg hold pid L w w') (ht : ∀ d, t ≠ .createDispute d p) :
    Undisputed p w' := by
  obtain ⟨row, hrow, hundisputed⟩ := id h
  obtain ⟨row', hrow', hcommit⟩ := heffect.payout hrow
  refine ⟨row', hrow', ?_⟩
  cases hcommit with
  | same => exact hundisputed
  | disputed d => exact absurd rfl (ht d)
  | refunded d dispute hd hopened hpayout _ _ =>
      exact absurd ⟨dispute, hd, hpayout, hopened⟩ (h.not_open hblock d)
  | cancelled | upheld | unblocked => simp [Payout.undisputed]
  | sent hash fees _ => exact hundisputed

end Steps

section Notes

variable {cfg : Config} {a : Actor Request} {g : Glob World Challenge} {i p : Nat}

/-- A payout that is not challenged after a statement was not before, or has just been
found undisputed. -/
theorem unchallenged_stmt {s : Stmt} {r : s.Val}
    (h : unchallenged i p ((system cfg challenges).entries a (.stmt s r) g.world ++ g.hist) = true) :
    unchallenged i p g.hist = true ∨ Undisputed p g.world := by
  cases s with
  | read q =>
      cases q with
      | payout k =>
          simp only [Machine.entries, system, challenges, List.map_cons, List.map_nil,
            List.cons_append, List.nil_append] at h
          split_ifs at h with hfound
          · simp only [unchallenged, Bool.or_eq_true, decide_eq_true_eq] at h
            obtain ⟨-, rfl⟩ | h := h
            · exact Or.inr ((Option.any_eq_true _ _).mp hfound)
            · exact Or.inl h
          · simp only [unchallenged, Bool.and_eq_true] at h
            exact Or.inl h.2
      | _ => exact Or.inl h
  | _ => exact Or.inl h

theorem unchallenged_commit {t : Tag}
    (h : unchallenged i p ((system cfg challenges).entries a (.commit t) g.world ++ g.hist) = true) :
    unchallenged i p g.hist = true ∧ ∀ d, t ≠ .createDispute d p := by
  cases t with
  | createDispute d k =>
      simp only [Machine.entries, system, challenges, List.map_cons, List.map_nil, List.cons_append,
        List.nil_append, unchallenged, Bool.and_eq_true, Bool.not_eq_true',
        decide_eq_false_iff_not] at h
      refine ⟨h.2, fun d' hd' => h.1 ?_⟩
      simp only [Tag.createDispute.injEq] at hd'
      exact hd'.2
  | _ => exact ⟨h, fun d hd => absurd hd (by simp)⟩

end Notes

/-- The plan: open disputes block their payouts. -/
def disputePlan (cfg : Config) : Plan (system cfg challenges) :=
  systemPlan cfg challenges disputesApart (fun _ => True)
    (fun g => DisputesBlock g.world ∧ ReadsHold g) (fun _ _ _ => True) fun _ _ _ => True

/-- No payout with an open dispute is acted on. -/
def SparesDisputed (l : Step) (w : World) : Prop :=
  ∀ a s r p, l = .event a (.stmt s r) → s.actsOn = some p → Undisputed p w

theorem disputePlan_spares {l : Step} {g : Glob World Challenge}
    (hreads : ReadsHold g) (hok : disputesApart l g = true) : SparesDisputed l g.world := by
  rintro a s r p rfl hp
  refine hreads a.pid p ?_
  have hok : s.actsOn.all (fun p => unchallenged a.pid p g.hist) = true := hok
  simpa [hp] using hok

theorem disputePlan_valid (cfg : Config) : (disputePlan cfg).Valid := by
  refine systemPlan_valid (fun _ _ _ => trivial) ?_ (fun _ _ _ _ _ _ => trivial)
    fun _ _ _ _ _ _ _ => trivial
  rintro l L g g' ⟨hinv, hok, hstep⟩
  obtain ⟨hblock, hreads⟩ : DisputesBlock g.world ∧ ReadsHold g := hinv
  have hspares := disputePlan_spares hreads hok
  cases hstep with
  | stmt a s busy _ _ _ hout =>
      refine ⟨hblock.stmt hout.1 ?_, fun i p h => ?_⟩
      · rintro p rfl d
        exact (hspares a _ _ p rfl rfl).not_open hblock d
      · obtain hbefore | hfound := unchallenged_stmt h
        · exact (hreads i p hbefore).stmt hout.1
        · exact hfound.stmt hout.1
  | inner a s busy v _ _ hinner =>
      have hpayouts := Stmt.effect_payouts s busy (v g.world) g.world
      refine ⟨hblock.congr (Stmt.effect_disputes s busy _ _) hpayouts, fun i p h => ?_⟩
      obtain hbefore | hfound := unchallenged_stmt h
      · exact (hreads i p hbefore).congr hpayouts
      · exact hfound.congr hpayouts
  | commit a t L v _ _ hcom =>
      refine ⟨hblock.commit hcom.2 ?_, fun i p h => ?_⟩
      · rintro d p row rfl hrow
        have hok : (g.world.payouts p).all (fun row =>
            !decide (row.blockedReason = some .disputeOpen)) = true := hok
        simpa [hrow] using hok
      · obtain ⟨hbefore, ht⟩ := unchallenged_commit h
        exact (hreads i p hbefore).commit hblock hcom.2 ht
  | reply a x _ _ => exact ⟨hblock, hreads⟩
  | env o _ => cases o <;> exact ⟨⟨hblock.single, hblock.blocked⟩, hreads⟩

/-- **An open dispute blocks its payout**: in the runs in which no dispute is opened on a
blocked payout and no delivery acts on a payout that was disputed after it read it, a
payout has at most one open dispute and is blocked by it, and no delivery pays,
broadcasts or unblocks a payout with an open dispute. -/
theorem open_dispute_blocks {cfg : Config} {w : World} {cs : List Pick} {c c' : State Challenge}
    {ch : Pick} {l : Step} (hblock : DisputesBlock w)
    (hrun : (system cfg challenges).exec disputesApart cs (Sys.start w) = some c)
    (hmove : (system cfg challenges).move ch c = some (l, c'))
    (hok : disputesApart l c.glob = true) :
    DisputesBlock c.glob.world ∧ DisputesBlock c'.glob.world ∧
      ∀ a s r p, l = .event a (.stmt s r) → s.actsOn = some p → ∀ d, ¬ OpenOn d p c.glob.world := by
  have hstart : DisputesBlock w ∧ ReadsHold ⟨[], w⟩ := ⟨hblock, fun _ _ h => absurd h (by simp [unchallenged])⟩
  obtain ⟨hbefore, hreads⟩ := (disputePlan_valid cfg).exec_inv hstart hrun
  have hrun' : (system cfg challenges).exec disputesApart (cs ++ [ch]) (Sys.start w) = some c' := by
    rw [Machine.exec_append hrun]
    simp [Machine.exec, hmove, hok]
  obtain ⟨hafter, -⟩ := (disputePlan_valid cfg).exec_inv hstart hrun'
  refine ⟨hbefore, hafter, fun a s r p hl hp d => ?_⟩
  exact (disputePlan_spares hreads hok a s r p hl hp).not_open hbefore d

/-- A payout of 10 dollars in its hold window. -/
def heldWorld : World :=
  { World.empty with
    nextId := 5
    orgs := Function.update World.empty.orgs 1 (some ⟨none, none, none, 0, none⟩)
    bounties := Function.update World.empty.bounties 1
      (some ⟨1, .published, [], [0], 1000, 0, 0, some 0⟩)
    jobs := Function.update World.empty.jobs 1 (some (.fresh 1 0 0 0))
    submissions := Function.update World.empty.submissions 1
      (some ⟨1, 1, none, none, ⟨1, 0, .absent, 0⟩, .accepted, none, some .pass, none, none, none,
        0⟩)
    payouts := Function.update World.empty.payouts 1
      (some ⟨1, 1, 1000, .pending, none, none, false, ⟨991, 0, 0, none, 9, 100, none⟩, some 100000,
        none⟩)
    payoutOf := Function.update World.empty.payoutOf 1 (some 1)
    accounts := Function.update World.empty.accounts 1 (some ⟨0⟩)
    outbox := Function.update World.empty.outbox (.payout 1) (some (.fresh 100000 0))
    outboxKeys := [.payout 1] }

theorem heldWorld_disputesBlock : DisputesBlock heldWorld where
  single _ d _ h := by
    obtain ⟨row, hrow, -⟩ := h
    exact absurd hrow (by simp [heldWorld, World.empty])
  blocked _ d h := by
    obtain ⟨row, hrow, -⟩ := h
    exact absurd hrow (by simp [heldWorld, World.empty])

/-- The organisation opens a dispute; its commit is next. -/
def openingDispute : List Pick := .spawn (.createDispute 1 (some 1) none) :: List.replicate 10 (.run 0)

theorem open_dispute_blocks_opening :
    ∃ c l c', (system Config.default challenges).exec disputesApart openingDispute
        (Sys.start heldWorld) = some c ∧
      (system Config.default challenges).move (.run 0) c = some (l, c') ∧
      OpenOn 5 1 c'.glob.world ∧ DisputesBlock c'.glob.world := by
  obtain ⟨c, l, c', hrun, hmove, h⟩ := runs_and_moves Config.default challenges disputesApart
    openingDispute heldWorld (.run 0)
    (fun l c c' => disputesApart l c.glob && (c'.glob.world.disputes 5).any fun row : Dispute =>
      decide (row.payoutId = some 1 ∧ row.status = .opened)) (by decide)
  obtain ⟨hok, hany⟩ := (Bool.and_eq_true _ _).mp h
  obtain ⟨row, hrow, hopen⟩ := (Option.any_eq_true _ _).mp hany
  obtain ⟨-, hblock, -⟩ := open_dispute_blocks heldWorld_disputesBlock hrun hmove hok
  exact ⟨c, l, c', hrun, hmove, ⟨row, hrow, of_decide_eq_true hopen⟩, hblock⟩

/-- Two requests look for an open dispute before either of them inserts its own. -/
def concurrentDisputes : List Pick :=
  ([.spawn (.createDispute 1 (some 1) none), .spawn (.createDispute 1 (some 1) none)] : List Pick) ++
    @List.replicate Pick 5 (.run 0) ++ @List.replicate Pick 5 (.run 1) ++
    @List.replicate Pick 6 (.run 0) ++ @List.replicate Pick 6 (.run 1)

/-- The payout has two open disputes. -/
theorem two_open_disputes :
    DisputesBlock heldWorld ∧ ∃ c, (system Config.default challenges).exec (fun _ _ => true)
        concurrentDisputes (Sys.start heldWorld) = some c ∧
      OpenOn 5 1 c.glob.world ∧ OpenOn 6 1 c.glob.world := by
  obtain ⟨c, hrun, h⟩ := runs Config.default challenges (fun _ _ => true) concurrentDisputes heldWorld
    (fun c => [5, 6].all fun d => (c.glob.world.disputes d).any fun row : Dispute =>
      decide (row.payoutId = some 1 ∧ row.status = .opened)) (by decide)
  have hopen : ∀ d ∈ [5, 6], OpenOn d 1 c.glob.world := by
    intro d hd
    obtain ⟨row, hrow, hopen⟩ := (Option.any_eq_true _ _).mp (List.all_eq_true.mp h d hd)
    exact ⟨row, hrow, of_decide_eq_true hopen⟩
  exact ⟨heldWorld_disputesBlock, c, hrun, hopen 5 (by simp), hopen 6 (by simp)⟩

end OpenUnion
