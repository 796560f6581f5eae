import OpenUnion.Interleave.Progress
import OpenUnion.Safety.Legs

/-!
# The legs of a payout describe its last broadcast

The rows of a payout are upserted one at a time and never removed, so after a failed run
they are what the earlier broadcasts have left.  The confirmation handler reads them, asks
for the receipt of one of them, and settles whatever rows there are by then.

* `LegsHold`: the legs are those of the last broadcast, they name one transaction, and a
  confirmed leg names a confirmed one.
* `LegsHold.sent`, `LegsHold.kept`: a broadcast that finds rows that fit, and any other step.
* `LegsHold.warranted`: a delivery that was not overtaken settles legs of a confirmed
  transaction.
* `legs_describe_broadcast`: when the rows describe the last broadcast, and when the payout
  becomes paid.
* `stale_leg_stays`: a fee that is no longer taken leaves its row behind.
-/

namespace OpenUnion

open Interleave

/-- The last broadcast for a payout. -/
def lastSent (payoutId : Nat) (hist : List (Nat × TransferNote)) : Option Nat :=
  hist.findSome? fun e =>
    match e.2 with
    | .sent p h => if p = payoutId then some h else none
    | _ => none

/-- A broadcast for the payout. -/
def TransferNote.isSent (payoutId : Nat) : TransferNote → Bool
  | .sent p _ => decide (p = payoutId)
  | _ => false

/-- The legs of the payout were read. -/
def TransferNote.isLegs (payoutId : Nat) : TransferNote → Bool
  | .legs p _ => decide (p = payoutId)
  | _ => false

/-- No broadcast for the payout has been committed since process `pid` last read its legs. -/
def unsentSinceRead (pid payoutId : Nat) (hist : List (Nat × TransferNote)) : Bool :=
  (since pid (TransferNote.isLegs payoutId) hist).all fun e => ! e.2.isSent payoutId

/-- The condition: a broadcast finds rows that fit its call, and a delivery that settles
legs is not overtaken by a broadcast since it has read them. -/
def legsFit : Step → Glob World TransferNote → Bool
  | .event _ (.commit (.broadcast p h)), g =>
      g.world.outside.chain.all fun tx => ! (decide (tx.hash = h ∧ tx.payoutId = p)) ||
        tx.call.fitsRows p g.world
  | .event a (.stmt (.transfer (.setAll p .confirmed)) _), g => unsentSinceRead a.pid p g.hist
  | .event ⟨pid, .payoutRunner⟩ (.stmt (.payout (.setStatus p .paid _ _)) _), g =>
      unsentSinceRead pid p g.hist
  | _, _ => true

/-- The legs of a payout name one transaction. -/
def OneTransaction (w : World) : Prop :=
  ∀ p kind kind' row row', w.transfers (p, kind) = some row → w.transfers (p, kind') = some row' →
    row.txHash = row'.txHash

section Invariant

variable (cfg : Config) (opening : World)

/-- The transaction is confirmed: it was when the run began, or a delivery was told so. -/
def TxConfirmed (hist : List (Nat × TransferNote)) (hash : Nat) : Prop :=
  (∃ k row, opening.transfers k = some row ∧ row.status = .confirmed ∧ row.txHash = hash) ∨
    ∃ pid r n, [TransferNote.latest n, .receipt hash r] <:+: own pid hist ∧ r.Final cfg n

/-- Legs that were read are those that are there. -/
structure ReadNow (g : Glob World TransferNote) (payoutId : Nat) (rows : List Transfer) : Prop where
  hash : ∀ kind row, g.world.transfers (payoutId, kind) = some row → ∀ t ∈ rows,
    t.txHash = row.txHash
  settled : ∀ t ∈ rows, t.status = .confirmed → TxConfirmed cfg opening g.hist t.txHash

/-- The legs of the payouts: they are those of the last broadcast, they name one
transaction, a confirmed leg names a confirmed one, and what was read of them holds
until the next broadcast. -/
structure LegsHold (g : Glob World TransferNote) : Prop where
  recorded : ∀ p h, lastSent p g.hist = some h →
    ∃ tx ∈ g.world.outside.chain, tx.hash = h ∧ tx.payoutId = p ∧ Recorded p tx g.world
  shared : OneTransaction g.world
  settled : ∀ k row, g.world.transfers k = some row → row.status = .confirmed →
    TxConfirmed cfg opening g.hist row.txHash
  read : ∀ later i p rows earlier, g.hist = later ++ (i, .legs p rows) :: earlier →
    (∀ e ∈ later, e.2.isSent p = false) → ReadNow cfg opening g p rows

end Invariant

section Keeping

variable {cfg : Config} {opening : World} {g g' : Glob World TransferNote}
  {new : List (Nat × TransferNote)} {p hash : Nat}

theorem TxConfirmed.append (h : TxConfirmed cfg opening g.hist hash) (new : List (Nat × TransferNote)) :
    TxConfirmed cfg opening (new ++ g.hist) hash := by
  obtain h | ⟨pid, r, n, hnoted, hfinal⟩ := h
  · exact Or.inl h
  · refine Or.inr ⟨pid, r, n, ?_, hfinal⟩
    rw [own_append]
    exact hnoted.trans (List.suffix_append _ _).isInfix

/-- **A delivery that settles legs** without having been overtaken: every leg names a
confirmed transaction. -/
theorem LegsHold.warranted {pid : Nat} (h : LegsHold cfg opening g)
    (hunsent : unsentSinceRead pid p g.hist = true)
    (hread : AllConfirmed p (own pid g.hist) ∨ Sighted cfg p (own pid g.hist)) :
    ∀ kind row, g.world.transfers (p, kind) = some row →
      TxConfirmed cfg opening g.hist row.txHash := by
  have hquiet : ∀ e ∈ since pid (TransferNote.isLegs p) g.hist, e.2.isSent p = false := by
    intro e he
    simpa using List.all_eq_true.mp hunsent e he
  intro kind row hrow
  obtain ⟨rows, rest, hown, hsome, hall⟩ | ⟨rows, t, r, n, rest, hown, ht, hfinal⟩ := hread
  · obtain ⟨t, ht⟩ := List.exists_mem_of_ne_nil rows hsome
    have hown : own pid g.hist = [] ++ .legs p rows :: rest := hown
    obtain ⟨earlier, hhist⟩ := since_of_own (p := TransferNote.isLegs p) hown
      (by simp [TransferNote.isLegs]) (by simp)
    have hnow := h.read _ _ _ _ _ hhist hquiet
    rw [← hnow.hash kind row hrow t ht]
    exact hnow.settled t ht (hall t ht)
  · have hown : own pid g.hist = [TransferNote.latest n, .receipt t.txHash r] ++ .legs p rows :: rest := hown
    obtain ⟨earlier, hhist⟩ := since_of_own (p := TransferNote.isLegs p) hown
      (by simp [TransferNote.isLegs]) (by simp [TransferNote.isLegs])
    have hnow := h.read _ _ _ _ _ hhist hquiet
    rw [← hnow.hash kind row hrow t ht]
    exact Or.inr ⟨pid, r, n, ⟨[], .legs p rows :: rest, by simp [hown]⟩, hfinal⟩

/-- A recorded transaction stays recorded while its legs say the same. -/
theorem Recorded.kept {tx tx' : ChainTx} {w w' : World} (h : Recorded p tx w) (hgrow : w.Grows w')
    (hcontent : tx'.content = tx.content)
    (hrows : ∀ kind, (w'.transfers (p, kind)).map Transfer.said =
      (w.transfers (p, kind)).map Transfer.said) : Recorded p tx' w' := by
  simp only [ChainTx.content, Prod.mk.injEq] at hcontent
  obtain ⟨hhash, -, -, hcall⟩ := hcontent
  have hleg : ∀ kind, tx'.leg kind = tx.leg kind := by
    intro kind
    rw [ChainTx.leg, ChainTx.leg, hhash, hcall]
  have hlegs : ∀ kind, (w'.transfers (p, kind)).map Transfer.said = tx'.leg kind := by
    intro kind
    rw [hrows, hleg, h.legs]
  obtain ⟨row, hrow, htotal⟩ := h.total
  obtain ⟨row', hrow', hamount⟩ := hgrow.payoutAmount hrow
  refine ⟨hlegs, row', hrow', ?_⟩
  rw [sum_of_legs hlegs, hcall, ← sum_of_legs h.legs, htotal, hamount]

/-- Rows that say the same name the same transactions. -/
theorem exists_said {old new : Option Transfer} {row' : Transfer}
    (h : new.map Transfer.said = old.map Transfer.said) (hrow : new = some row') :
    ∃ row, old = some row ∧ row.txHash = row'.txHash := by
  rw [hrow, Option.map_some, eq_comm, Option.map_eq_some_iff] at h
  obtain ⟨row, hold, hsaid⟩ := h
  exact ⟨row, hold, congrArg (fun t => t.2.2) hsaid⟩

/-- What was read of legs that still say the same. -/
theorem ReadNow.kept {rows : List Transfer} (h : ReadNow cfg opening g p rows)
    (hhist : g'.hist = new ++ g.hist)
    (hrows : ∀ kind, (g'.world.transfers (p, kind)).map Transfer.said =
      (g.world.transfers (p, kind)).map Transfer.said) : ReadNow cfg opening g' p rows := by
  constructor
  · intro kind row' hrow' t ht
    obtain ⟨row, hrow, hhash⟩ := exists_said (hrows kind) hrow'
    rw [← hhash]
    exact h.hash kind row hrow t ht
  · intro t ht hconfirmed
    rw [hhist]
    exact (h.settled t ht hconfirmed).append new

theorem lastSent_append (hnew : ∀ e ∈ new, e.2.isSent p = false) (hist : List (Nat × TransferNote)) :
    lastSent p (new ++ hist) = lastSent p hist := by
  have hnone : lastSent p new = none := by
    rw [lastSent, List.findSome?_eq_none_iff]
    rintro ⟨i, n⟩ he
    have hn := hnew _ he
    cases n with
    | sent q h => simpa [TransferNote.isSent] using hn
    | _ => rfl
  rw [lastSent, List.findSome?_append]
  exact (congrArg (Option.or · _) hnone).trans Option.none_or

/-- A step without a broadcast, which leaves what the rows say alone. -/
theorem LegsHold.kept (h : LegsHold cfg opening g) (hhist : g'.hist = new ++ g.hist)
    (hgrow : g.world.Grows g'.world) (hsent : ∀ e ∈ new, ∀ p, e.2.isSent p = false)
    (hread : ∀ i p rows, (i, .legs p rows) ∈ new → rows = Query.eval (.transfers p) g.world)
    (hrows : ∀ k, (g'.world.transfers k).map Transfer.said = (g.world.transfers k).map Transfer.said)
    (hconfirmed : ∀ k row', g'.world.transfers k = some row' → row'.status = .confirmed →
      TxConfirmed cfg opening g.hist row'.txHash) : LegsHold cfg opening g' := by
  constructor
  · intro p hash hlast
    rw [hhist, lastSent_append fun e he => hsent e he p] at hlast
    obtain ⟨tx, htx, hhash, hpayout, hrecorded⟩ := h.recorded p hash hlast
    obtain ⟨tx', htx', hcontent, -⟩ := hgrow.chain tx htx
    have hsame := hcontent
    simp only [ChainTx.content, Prod.mk.injEq] at hsame
    exact ⟨tx', htx', hsame.1.trans hhash, hsame.2.2.1.trans hpayout,
      hrecorded.kept hgrow hcontent fun kind => hrows (p, kind)⟩
  · intro p kind kind' row row' hrow hrow'
    obtain ⟨old, hold, hhash⟩ := exists_said (hrows (p, kind)) hrow
    obtain ⟨old', hold', hhash'⟩ := exists_said (hrows (p, kind')) hrow'
    rw [← hhash, ← hhash']
    exact h.shared p kind kind' old old' hold hold'
  · intro k row' hrow' hstatus
    rw [hhist]
    exact (hconfirmed k row' hrow' hstatus).append new
  · intro later i p rows earlier hsplit hquiet
    obtain hnew | ⟨later', hold, rfl⟩ := mem_or_split (hsplit.symm.trans hhist)
    · obtain rfl := hread i p rows hnew
      have hnow : ReadNow cfg opening g p (Query.eval (.transfers p) g.world) := by
        constructor
        · intro kind row hrow t ht
          obtain ⟨kind', -, hkind'⟩ := List.mem_filterMap.mp ht
          exact h.shared p kind' kind t row hkind' hrow
        · intro t ht hstatus
          obtain ⟨kind, -, hkind⟩ := List.mem_filterMap.mp ht
          exact h.settled (p, kind) t hkind hstatus
      exact hnow.kept hhist fun kind => hrows (p, kind)
    · have hquiet' : ∀ e ∈ later', e.2.isSent p = false := fun e he => hquiet e (by simp [he])
      exact (h.read later' i p rows earlier hold hquiet').kept hhist fun kind => hrows (p, kind)

/-- A broadcast that finds rows that fit. -/
theorem LegsHold.sent {i : Nat} (h : LegsHold cfg opening g)
    (hsent : Broadcast cfg p hash g.world g'.world) (hhist : g'.hist = (i, TransferNote.sent p hash) :: g.hist)
    (hfits : ∀ tx ∈ g.world.outside.chain, tx.hash = hash → tx.payoutId = p →
      tx.call.fitsRows p g.world = true) : LegsHold cfg opening g' := by
  obtain ⟨tx, htx, hhash, hpayout, hiff⟩ := hsent.recorded_iff
  have hrecorded : Recorded p tx g'.world := hiff.mpr (hfits tx htx hhash hpayout)
  obtain ⟨hothers, hconfirmed⟩ := hsent.rows
  have hgrow := hsent.grows
  have hnew : ∀ {row : Transfer} {kind : TransferKind}, g'.world.transfers (p, kind) = some row →
      row.txHash = tx.hash := by
    intro row kind hrow
    have hleg := hrecorded.legs kind
    rw [hrow, Option.map_some, ChainTx.leg] at hleg
    split_ifs at hleg with hpositive
    exact congrArg (fun t => t.2.2) (Option.some.inj hleg)
  constructor
  · intro q hash' hlast
    rw [hhist] at hlast
    by_cases hq : q = p
    · subst hq
      obtain rfl : hash = hash' := by simpa [lastSent] using hlast
      obtain ⟨tx', htx', hcontent, -⟩ := hgrow.chain tx htx
      have hsame := hcontent
      simp only [ChainTx.content, Prod.mk.injEq] at hsame
      exact ⟨tx', htx', hsame.1.trans hhash, hsame.2.2.1.trans hpayout,
        hrecorded.kept (.refl _) hcontent fun _ => rfl⟩
    · have hother : ∀ e ∈ [(i, TransferNote.sent p hash)], e.2.isSent q = false := by
        simpa [TransferNote.isSent] using Ne.symm hq
      have hold : lastSent q g.hist = some hash' := (lastSent_append hother g.hist).symm.trans hlast
      obtain ⟨tx₀, htx₀, hhash₀, hpayout₀, hrecorded₀⟩ := h.recorded q hash' hold
      obtain ⟨tx', htx', hcontent, -⟩ := hgrow.chain tx₀ htx₀
      have hsame := hcontent
      simp only [ChainTx.content, Prod.mk.injEq] at hsame
      refine ⟨tx', htx', hsame.1.trans hhash₀, hsame.2.2.1.trans hpayout₀,
        hrecorded₀.kept hgrow hcontent fun kind => ?_⟩
      rw [hothers q kind hq]
  · intro q kind kind' row row' hrow hrow'
    by_cases hq : q = p
    · subst hq
      rw [hnew hrow, hnew hrow']
    · rw [hothers q kind hq] at hrow
      rw [hothers q kind' hq] at hrow'
      exact h.shared q kind kind' row row' hrow hrow'
  · rintro ⟨q, kind⟩ row hrow hstatus
    rw [hhist]
    refine TxConfirmed.append ?_ [(i, TransferNote.sent p hash)]
    by_cases hq : q = p
    · subst hq
      exact h.settled _ row (hconfirmed kind row hrow hstatus) hstatus
    · rw [hothers q kind hq] at hrow
      exact h.settled _ row hrow hstatus
  · intro later j q rows earlier hsplit hquiet
    have hhist' : g'.hist = [(i, TransferNote.sent p hash)] ++ g.hist := hhist
    obtain hin | ⟨later', hold, rfl⟩ := mem_or_split (hsplit.symm.trans hhist')
    · exact absurd hin (by simp)
    · have hq : q ≠ p := by
        rintro rfl
        exact absurd (hquiet (i, .sent q hash) (by simp)) (by simp [TransferNote.isSent])
      have hquiet' : ∀ e ∈ later', e.2.isSent q = false := fun e he => hquiet e (by simp [he])
      refine (h.read later' j q rows earlier hold hquiet').kept hhist' fun kind => ?_
      rw [hothers q kind hq]

/-- A transaction that is no broadcast leaves the legs of payouts alone. -/
theorem Tag.Effect.transfers {hold : Lock → World → World → Prop} {pid : Nat} {t : Tag}
    {L : List Lock} {w w' : World} (h : t.Effect cfg hold pid L w w')
    (ht : ∀ p hash, t ≠ .broadcast p hash) : w'.transfers = w.transfers := by
  cases t with
  | leaseJob j k =>
      obtain rfl | ⟨-, e, n, t, w₀, -, -, -, -, -, rfl⟩ := h
      · rfl
      · rfl
  | publishBounty b =>
      obtain ⟨-, bounty, accounts, accounts', billing, reservations, jobs, t, -, -, -, -, rfl⟩ := h
      rfl
  | setBountyStatus b st =>
      obtain rfl := h
      rfl
  | closeBounty b c =>
      obtain ⟨-, res, accounts, billing, w₀, -, -, -, -, -, rfl⟩ := h
      rfl
  | createDispute d k =>
      obtain ⟨row, outbox, keys, now, -, -, -, -, -, -, -, rfl⟩ := h
      rfl
  | cancelDispute d =>
      obtain ⟨row, outbox, keys, now, payouts, -, -, -, rfl⟩ := h
      rfl
  | resolveDispute d refund =>
      obtain ⟨rfl, -⟩ | ⟨-, h⟩ | ⟨-, h⟩ := h
      · rfl
      · obtain ⟨row, k, payout, accounts, accounts', billing, submissions, now, -, -, -, -, -, -,
          -, -, -, rfl⟩ := h
        rfl
      · obtain ⟨row, outbox, keys, now, payouts, -, -, -, rfl⟩ := h
        rfl
  | unblockPayouts worker =>
      obtain ⟨ps, outbox, keys, -, -, rfl⟩ := h
      rfl
  | claimOutboxBatch =>
      obtain ⟨outbox, -, rfl⟩ := h
      rfl
  | broadcast p hash => exact absurd rfl (ht p hash)
  | stripeWebhook e =>
      obtain ⟨accounts, billing, intents, status, -, rfl⟩ := h
      rfl

end Keeping

section Plan

variable {cfg : Config} {opening : World}

/-- The plan: the legs of payouts hold. -/
def transferPlan (cfg : Config) (opening : World) : Plan (system cfg transferNotes) :=
  { systemPlan cfg transferNotes legsFit (fun _ => True) (LegsHold cfg opening) (fun _ _ _ => True)
      (fun _ _ _ => True) with
    conduct := fun a => (Request.conduct cfg (fun _ _ _ => True) a).and (transferConduct cfg a) }

/-- A process notes legs as they are. -/
theorem legs_noted {a : Actor Request} {x : Happening} {w : World} {i p : Nat}
    {rows : List Transfer} (h : (i, .legs p rows) ∈ (system cfg transferNotes).entries a x w) :
    rows = Query.eval (.transfers p) w := by
  obtain ⟨n, hn, hpair⟩ := List.mem_map.mp h
  obtain ⟨-, rfl⟩ := Prod.mk.inj hpair
  change _ ∈ transferNotes a x w at hn
  unfold transferNotes at hn
  split at hn
  · simp at hn
  · split_ifs at hn with hrows
    · obtain ⟨rfl, rfl⟩ : p = _ ∧ rows = _ := by simpa using hn
      exact hrows
    · simp at hn
  · simp at hn
  · simp at hn
  · simp at hn

/-- Only a commit notes a broadcast. -/
theorem sent_noted {a : Actor Request} {x : Happening} {w : World}
    (hx : ∀ p hash, x ≠ .commit (.broadcast p hash)) :
    ∀ e ∈ (system cfg transferNotes).entries a x w, ∀ p, e.2.isSent p = false := by
  intro e he p
  obtain ⟨n, hn, rfl⟩ := List.mem_map.mp he
  change n ∈ transferNotes a x w at hn
  unfold transferNotes at hn
  split at hn
  · exact absurd rfl (hx _ _)
  · split_ifs at hn
    · obtain rfl := List.mem_singleton.mp hn
      rfl
    · simp at hn
  · obtain rfl := List.mem_singleton.mp hn
    rfl
  · obtain rfl := List.mem_singleton.mp hn
    rfl
  · simp at hn

theorem transferPlan_inv_step {l : Step} {L : List Lock} {g g' : Glob World TransferNote}
    (h : (transferPlan cfg opening).Move l L g g') : LegsHold cfg opening g' := by
  have hgrow : g.world.Grows g'.world := Conducted.grows
    (fun a g t L w (hcom : (a.req.Ends t ∧ t.Effect cfg (fun _ _ _ => True) a.pid L g.world w) ∧ _) =>
      hcom.1.2.grows) h.conducted
  obtain ⟨hinv, hok, hstep⟩ := h
  have hinv : LegsHold cfg opening g := hinv
  cases hstep with
  | stmt a s busy _ _ _ hout =>
      have hrows := s.apply_transfers busy g.world
      refine hinv.kept rfl hgrow (sent_noted (by simp)) (fun _ _ _ => legs_noted) ?_ ?_
      · intro k
        change ((s.apply busy g.world).transfers k).map _ = _
        rw [hrows]
        cases s with
        | transfer s =>
            obtain ⟨-, p, status, rfl⟩ := Request.executes_transfer hout.1.1
            simp only [TransferStmt.write]
            split_ifs
            · rw [Option.map_map]
              rfl
            · rfl
        | _ => rfl
      · intro k row' hrow' hstatus
        change (s.apply busy g.world).transfers k = some row' at hrow'
        rw [hrows] at hrow'
        cases s with
        | transfer s =>
            obtain ⟨-, p, status, rfl⟩ := Request.executes_transfer hout.1.1
            simp only [TransferStmt.write] at hrow'
            split_ifs at hrow' with hk
            · obtain ⟨row, hrow, rfl⟩ := Option.map_eq_some_iff.mp hrow'
              obtain rfl : status = .confirmed := hstatus
              obtain ⟨q, kind⟩ := k
              obtain rfl : q = p := hk
              exact hinv.warranted hok hout.2 kind row hrow
            · exact hinv.settled k row' hrow' hstatus
        | _ => exact hinv.settled k row' hrow' hstatus
  | inner a s busy v _ _ _ =>
      have hrows := Stmt.effect_transfers s busy (v g.world) g.world
      refine hinv.kept rfl hgrow (sent_noted (by simp)) (fun _ _ _ => legs_noted) ?_ ?_
      · exact fun k => congrArg (fun t => (t k).map Transfer.said) hrows
      · exact fun k row' hrow' => hinv.settled k row' ((congrFun hrows k).symm.trans hrow')
  | commit a t L v _ _ hcom =>
      by_cases hsent : ∃ p hash, t = .broadcast p hash
      · obtain ⟨p, hash, rfl⟩ := hsent
        refine hinv.sent hcom.1.2 rfl fun tx htx hhash hpayout => ?_
        have hfits := List.all_eq_true.mp hok tx htx
        simpa [hhash, hpayout] using hfits
      · have ht : ∀ p hash, t ≠ .broadcast p hash := fun p hash ht => hsent ⟨p, hash, ht⟩
        have hrows := hcom.1.2.transfers ht
        refine hinv.kept rfl hgrow (sent_noted fun p hash hx => ht p hash (by simpa using hx))
          (fun _ _ _ => legs_noted) ?_ ?_
        · exact fun k => congrArg (fun t => (t k).map Transfer.said) hrows
        · exact fun k row' hrow' => hinv.settled k row' ((congrFun hrows k).symm.trans hrow')
  | reply a x _ _ _ =>
      exact hinv.kept rfl hgrow (sent_noted (by simp)) (fun _ _ _ => legs_noted) (fun _ => rfl)
        hinv.settled
  | env e _ =>
      have hrows : (e.apply g.world).transfers = g.world.transfers := by cases e <;> rfl
      refine hinv.kept (List.nil_append _).symm hgrow (by simp) (by simp) ?_ ?_
      · exact fun k => congrArg (fun t => (t k).map Transfer.said) hrows
      · exact fun k row' hrow' => hinv.settled k row' ((congrFun hrows k).symm.trans hrow')

theorem transferPlan_valid (opening : World) (hcrypto : cfg.paymentsProvider.isCrypto = true) :
    (transferPlan cfg opening).Valid where
  grow_trans _ _ _ := World.Grows.trans
  grow_refl := World.Grows.refl
  hold_trans _ _ _ _ _ _ := trivial
  drift_refl _ _ := trivial
  drift_trans _ _ _ _ _ _ := trivial
  spawn _ _ _ := trivial
  does i q _ := ((Request.code_does (fun _ _ h => h) i q).and
    (q.transfers_does (fun _ _ h => h) hcrypto)).mono (fun _ _ _ _ _ _ => trivial)
    (fun _ _ _ => trivial) (fun _ _ _ h => h) (fun _ _ _ _ h => h) fun _ _ _ _ h => h
  inv_step _ _ _ _ := transferPlan_inv_step
  grow_step _ _ _ _ h := Conducted.grows
    (fun a g t L w (hcom : (a.req.Ends t ∧ t.Effect cfg (fun _ _ _ => True) a.pid L g.world w) ∧ _) =>
      hcom.1.2.grows) h.conducted
  hold_step _ _ _ _ _ _ _ := trivial
  drift_step _ _ _ _ _ _ _ := trivial

/-- Only the payout runner and an admin's mark make a payout paid. -/
theorem Request.executes_paid {q : Request} {p : Nat} {pr : Option (Option Provider)}
    {ref : Option (Option Nat)} (h : q.Executes (.payout (.setStatus p .paid pr ref))) :
    q = .payoutRunner ∨ ∃ provider providerRef reason,
      q = .markPayout p .paid provider providerRef reason := by
  cases q with
  | payoutRunner => exact Or.inl rfl
  | markPayout i st provider providerRef reason =>
      obtain ⟨rfl, rfl, -⟩ := h
      exact Or.inr ⟨provider, providerRef, reason, rfl⟩
  | retryPayout i => exact absurd h.2.1 (by simp)
  | verificationRunner =>
      obtain h | ⟨key, htopic, hhandler | hfinal⟩ := h
      · exact h.elim
      · cases key with
        | payout i => exact absurd htopic (by simp [verificationTopics, OutboxKey.topic])
        | payoutConfirm i => exact absurd htopic (by simp [verificationTopics, OutboxKey.topic])
        | disputeAutoRefund d => exact hhandler.elim
        | verification i n =>
            obtain h | ⟨body, -, -, h⟩ := hhandler
            · exact h.elim
            · exact h.elim
      · exact hfinal.elim
  | release i j n | reapLeases | payoutAddress i x | stripeWebhook e =>
      obtain h | h := h
      · exact h.elim
      · first | exact absurd h (by simp) | exact h.elim
  | _ => exact h.elim

/-- A statement that leaves a payout paid found it so, or sets its status. -/
theorem Request.writes_paid {q : Request} {s : PayoutStmt} {w : World} {i : Nat} {row' : Payout}
    (hexec : q.Executes (.payout s)) (hrow' : s.write w w.payouts i = some row')
    (hpaid : row'.status = .paid) :
    (∃ row, w.payouts i = some row ∧ row.status = .paid) ∨
      ∃ pr ref, s = .setStatus i .paid pr ref := by
  have hmodify : ∀ (k : Nat) (f : Payout → Payout), (∀ r, (f r).status = r.status) →
      modify w.payouts k f i = some row' → ∃ row, w.payouts i = some row ∧ row.status = .paid := by
    intro k f hf hmod
    obtain ⟨row, hrow⟩ := exists_of_modify hmod
    rw [modify_eq_some hrow, Option.some.injEq] at hmod
    refine ⟨row, hrow, ?_⟩
    rw [← hpaid, ← hmod]
    split_ifs
    · exact (hf row).symm
    · rfl
  obtain ⟨id, new, rfl, hpending⟩ | ⟨k, fees, rfl⟩ | ⟨k, st, pr, ref, rfl⟩ | ⟨k, rfl⟩ :=
    Request.executes_payout hexec
  · left
    simp only [PayoutStmt.write] at hrow'
    split_ifs at hrow' with hclash
    · exact ⟨row', hrow', hpaid⟩
    · by_cases hi : i = PayoutStmt.target id new w
      · subst hi
        rw [Function.update_self, Option.some.injEq] at hrow'
        cases hold : w.payouts (PayoutStmt.target id new w) with
        | none =>
            simp only [hold, PayoutStmt.upserted] at hrow'
            rw [← hrow', hpending] at hpaid
            exact absurd hpaid (by simp)
        | some old =>
            refine ⟨old, rfl, ?_⟩
            simp only [hold, PayoutStmt.upserted] at hrow'
            rw [← hpaid, ← hrow']
      · exact ⟨row', by simpa [hi] using hrow', hpaid⟩
  · exact Or.inl (hmodify k (fun r => { r with fees := fees }) (fun _ => rfl) hrow')
  · by_cases hi : i = k
    · subst hi
      obtain ⟨row, -, rfl⟩ := Option.map_eq_some_iff.mp (modify_self.symm.trans hrow')
      obtain rfl : st = .paid := hpaid
      exact Or.inr ⟨pr, ref, rfl⟩
    · exact Or.inl ⟨row', (modify_of_ne hi).symm.trans hrow', hpaid⟩
  · refine Or.inl (hmodify k _ (fun r => ?_) hrow')
    split_ifs <;> rfl

/-- A commit that leaves a payout paid found it so. -/
theorem Tag.Effect.found_paid {hold : Lock → World → World → Prop} {pid i : Nat} {t : Tag}
    {L : List Lock} {w w' : World} {row' : Payout} (h : t.Effect cfg hold pid L w w')
    (hrow' : w'.payouts i = some row') (hpaid : row'.status = .paid) :
    ∃ row, w.payouts i = some row ∧ row.status = .paid := by
  obtain ⟨row, hrow, hcommit⟩ := h.payout_of hrow'
  refine ⟨row, hrow, ?_⟩
  cases hcommit with
  | refunded d dispute _ _ _ _ _ => exact absurd hpaid (by simp)
  | _ => exact hpaid

/-- **A payout becomes paid** by an admin's mark, or when all its legs name confirmed
transactions. -/
theorem paid_confirmed {a : Actor Request} {x : Happening} {L : List Lock}
    {g g' : Glob World TransferNote} (h : (transferPlan cfg opening).Move (.event a x) L g g')
    {p : Nat} {row' : Payout} (hrow' : g'.world.payouts p = some row') (hpaid : row'.status = .paid)
    (hnew : ∀ row, g.world.payouts p = some row → row.status ≠ .paid) :
    (∃ provider providerRef reason, a.req = .markPayout p .paid provider providerRef reason) ∨
      ∀ kind leg, g.world.transfers (p, kind) = some leg →
        TxConfirmed cfg opening g.hist leg.txHash := by
  have hsame : ∀ row, g.world.payouts p = some row → row.status = .paid → False := hnew
  obtain ⟨hinv, hok, hstep⟩ := h
  have hinv : LegsHold cfg opening g := hinv
  cases hstep with
  | stmt _ s busy _ _ _ hout =>
      have hpayouts := s.apply_payouts busy g.world
      change (s.apply busy g.world).payouts p = some row' at hrow'
      rw [hpayouts] at hrow'
      cases s with
      | payout s =>
          obtain ⟨row, hrow, hstatus⟩ | ⟨pr, ref, rfl⟩ := Request.writes_paid hout.1.1 hrow' hpaid
          · exact (hsame row hrow hstatus).elim
          · obtain hrunner | hmark := Request.executes_paid hout.1.1
            · refine Or.inr (hinv.warranted ?_ (hout.2 hrunner))
              obtain ⟨pid, req⟩ := a
              obtain rfl : req = .payoutRunner := hrunner
              exact hok
            · exact Or.inl hmark
      | _ => exact (hsame row' hrow' hpaid).elim
  | inner _ s busy v _ _ _ =>
      have hpayouts := Stmt.effect_payouts s busy (v g.world) g.world
      exact (hsame row' ((congrFun hpayouts p).symm.trans hrow') hpaid).elim
  | commit _ t L v _ _ hcom =>
      obtain ⟨row, hrow, hstatus⟩ := hcom.1.2.found_paid hrow' hpaid
      exact (hsame row hrow hstatus).elim
  | reply _ x _ _ _ => exact (hsame row' hrow' hpaid).elim

end Plan

/-- **The legs of a payout describe the last broadcast.**  A broadcast leaves exactly its
own legs in `payout_transfers`, adding up to the amount of the payout, if and only if the
rows it finds fit its call.  In the runs in which every broadcast finds such rows, and no
delivery that settles legs is overtaken by a broadcast since it has read them, the legs of
a payout are always those of its last broadcast, and it becomes paid by an admin's mark or
when all its legs name confirmed transactions. -/
theorem legs_describe_broadcast {cfg : Config} {w : World} {cs : List Pick}
    {c c' : State TransferNote} {ch : Pick} {l : Step}
    (hcrypto : cfg.paymentsProvider.isCrypto = true) (hone : OneTransaction w)
    (hrun : (system cfg transferNotes).exec (fun _ _ => true) cs (Sys.start w) = some c)
    (hmove : (system cfg transferNotes).move ch c = some (l, c')) :
    (∀ a p hash, l = .event a (.commit (.broadcast p hash)) →
      ∃ tx ∈ c.glob.world.outside.chain, tx.hash = hash ∧ tx.payoutId = p ∧
        (Recorded p tx c'.glob.world ↔ tx.call.fitsRows p c.glob.world = true)) ∧
    ((system cfg transferNotes).exec legsFit cs (Sys.start w) = some c →
      legsFit l c.glob = true →
      (∀ p hash, lastSent p c'.glob.hist = some hash →
        ∃ tx ∈ c'.glob.world.outside.chain, tx.hash = hash ∧ tx.payoutId = p ∧
          Recorded p tx c'.glob.world) ∧
      ∀ p row', c'.glob.world.payouts p = some row' → row'.status = .paid →
        (∀ row, c.glob.world.payouts p = some row → row.status ≠ .paid) →
        (∃ a x provider providerRef reason, l = .event a x ∧
          a.req = .markPayout p .paid provider providerRef reason) ∨
        ∀ kind leg, c.glob.world.transfers (p, kind) = some leg →
          TxConfirmed cfg w c.glob.hist leg.txHash) := by
  refine ⟨?_, fun hfits hok => ?_⟩
  · rintro a p hash rfl
    have hvalid : (systemPlan cfg transferNotes (fun _ _ => true) (fun _ => True) (fun _ => True)
        (fun _ _ _ => True) fun _ _ _ => True).Valid :=
      systemPlan_valid (fun _ _ _ => trivial) (fun _ _ _ _ _ => trivial)
        (fun _ _ _ _ _ _ => trivial) fun _ _ _ _ _ _ _ => trivial
    obtain ⟨-, hquiet⟩ | ⟨a', x, L, hl, -, -, hstep⟩ | ⟨e, hl, -⟩ :=
      hvalid.exec_step trivial hrun hmove rfl
    · exact absurd rfl (hquiet a _)
    · rw [← hl] at hstep
      generalize c.glob = g at hstep ⊢
      generalize c'.glob = g' at hstep ⊢
      cases hstep with
      | commit _ t L v _ _ hcom => exact Broadcast.recorded_iff hcom.2
    · exact absurd hl (by simp)
  · have hopening : LegsHold cfg w ⟨[], w⟩ :=
      { recorded := fun p hash h => absurd h (by simp [lastSent])
        shared := hone
        settled := fun k row hrow hstatus => Or.inl ⟨k, row, hrow, hstatus, rfl⟩
        read := fun later i p rows earlier h => absurd h (by simp) }
    have hvalid := transferPlan_valid w hcrypto
    have hinv : LegsHold cfg w c.glob := hvalid.exec_inv hopening hfits
    obtain ⟨hsame, -⟩ | ⟨a, x, L, rfl, hstep⟩ | ⟨e, rfl, hstep⟩ :=
      hvalid.exec_step hopening hfits hmove hok
    · rw [hsame]
      exact ⟨hinv.recorded, fun p row' hrow' hpaid hnew => absurd hpaid (hnew row' hrow')⟩
    · refine ⟨(transferPlan_inv_step hstep).recorded, fun p row' hrow' hpaid hnew => ?_⟩
      obtain ⟨provider, providerRef, reason, hmark⟩ | hconfirmed :=
        paid_confirmed hstep hrow' hpaid hnew
      · exact Or.inl ⟨a, x, provider, providerRef, reason, rfl, hmark⟩
      · exact Or.inr hconfirmed
    · refine ⟨(transferPlan_inv_step hstep).recorded, fun p row' hrow' hpaid hnew => ?_⟩
      obtain ⟨-, -, hstep⟩ := hstep
      generalize c.glob = g at *
      generalize c'.glob = g' at *
      cases hstep with
      | env e _ => exact absurd hpaid (hnew row' (by cases e <;> exact hrow'))

/-- The broadcast is followed up: its receipt, and block 10 is the latest. -/
def followUp (receipt : Receipt) : List Pick :=
  [.env (.tick 40000),
    .env (.answers { World.empty.outside with
      nextPendingNonce := 1, nextReceipt := some receipt, nextLatestBlock := 10 }),
    .spawn .payoutRunner]

/-- A step of the payout runner. -/
def byRunner : Step → Bool
  | .event ⟨_, .payoutRunner⟩ _ => true
  | _ => false

theorem byRunner_event {a : Actor Request} {x : Happening} (h : byRunner (.event a x) = true) :
    a.req = .payoutRunner := by
  obtain ⟨pid, req⟩ := a
  cases req <;> first | rfl | exact absurd h (by simp [byRunner])

theorem cryptoWorld_oneTransaction : OneTransaction cryptoWorld :=
  fun _ _ _ _ _ h => absurd h (by simp [cryptoWorld, World.empty])

/-- The transaction is confirmed in block 3 and the payout is marked paid. -/
theorem legs_describe_broadcast_paid :
    ∃ c l c' row leg, (system Config.crypto transferNotes).exec legsFit
        (broadcastRound ++ followUp ⟨false, 3⟩ ++ List.replicate 11 (.run 1))
        (Sys.start cryptoWorld) = some c ∧
      (system Config.crypto transferNotes).move (.run 1) c = some (l, c') ∧
      c'.glob.world.payouts 1 = some row ∧ row.status = .paid ∧
      c.glob.world.transfers (1, .platformFee) = some leg ∧
      TxConfirmed Config.crypto cryptoWorld c.glob.hist leg.txHash := by
  obtain ⟨c, l, c', hrun, hmove, h⟩ := runs_and_moves Config.crypto transferNotes legsFit
    (broadcastRound ++ followUp ⟨false, 3⟩ ++ List.replicate 11 (.run 1)) cryptoWorld (.run 1)
    (fun l c c' => legsFit l c.glob && byRunner l &&
      ((c.glob.world.payouts 1).any fun row : Payout => decide (row.status ≠ .paid)) &&
      ((c'.glob.world.payouts 1).any fun row : Payout => decide (row.status = .paid)) &&
      (c.glob.world.transfers (1, .platformFee)).isSome) (by decide)
  simp only [Bool.and_eq_true] at h
  obtain ⟨⟨⟨⟨hok, hrunner⟩, hbefore⟩, hafter⟩, hleg⟩ := h
  obtain ⟨old, hold, hunpaid⟩ := (Option.any_eq_true _ _).mp hbefore
  obtain ⟨row, hrow, hpaid⟩ := (Option.any_eq_true _ _).mp hafter
  obtain ⟨leg, hleg⟩ := Option.isSome_iff_exists.mp hleg
  rw [decide_eq_true_eq] at hunpaid hpaid
  have hall : (system Config.crypto transferNotes).exec (fun _ _ => true)
      (broadcastRound ++ followUp ⟨false, 3⟩ ++ List.replicate 11 (.run 1))
      (Sys.start cryptoWorld) = some c := Machine.exec_mono (fun _ _ _ => rfl) hrun
  refine ⟨c, l, c', row, leg, hrun, hmove, hrow, hpaid, hleg, ?_⟩
  obtain ⟨a, x, provider, providerRef, reason, rfl, hmark⟩ | hconfirmed :=
    ((legs_describe_broadcast rfl cryptoWorld_oneTransaction hall hmove).2 hrun hok).2 1 row hrow
      hpaid fun row' hrow' => Option.some.inj (hold.symm.trans hrow') ▸ hunpaid
  · exact absurd ((byRunner_event hrunner).symm.trans hmark) (by simp)
  · exact hconfirmed .platformFee leg hleg

/-- The transaction is reverted, the payout is retried, and by then the organisation takes
no fee any more. -/
def changedSplit : List Pick :=
  broadcastRound ++ followUp ⟨true, 3⟩ ++ @List.replicate Pick 13 (.run 1) ++
    .spawn (.retryPayout 1) :: @List.replicate Pick 6 (.run 2) ++
    .spawn (.platformFee 1 0 .absent) :: @List.replicate Pick 2 (.run 3) ++
    .spawn .payoutRunner :: @List.replicate Pick 21 (.run 4)

/-- The transaction whose broadcast a step commits. -/
def Step.sent : Step → Option (Nat × Nat)
  | .event _ (.commit (.broadcast p hash)) => some (p, hash)
  | _ => none

theorem Step.eq_of_sent {l : Step} {p hash : Nat} (h : Step.sent l = some (p, hash)) :
    ∃ a, l = .event a (.commit (.broadcast p hash)) := by
  unfold Step.sent at h
  split at h
  · obtain ⟨rfl, rfl⟩ := Prod.mk.inj (Option.some.inj h)
    exact ⟨_, rfl⟩
  · exact absurd h (by simp)

/-- **A leg of the first run stays**: the last broadcast carries no platform fee, the
payout has a row for one, and its rows are not what was sent. -/
theorem stale_leg_stays :
    ∃ c a c' hash, (system Config.crypto transferNotes).exec (fun _ _ => true) changedSplit
        (Sys.start cryptoWorld) = some c ∧
      (system Config.crypto transferNotes).move (.run 4) c =
        some (.event a (.commit (.broadcast 1 hash)), c') ∧
      (∃ tx ∈ c'.glob.world.outside.chain, tx.hash = hash ∧ tx.call.platformFee = 0) ∧
      (c'.glob.world.transfers (1, .platformFee)).isSome ∧
      ∀ tx ∈ c'.glob.world.outside.chain, tx.hash = hash → ¬ Recorded 1 tx c'.glob.world := by
  obtain ⟨c, l, c', hrun, hmove, h⟩ := runs_and_moves Config.crypto transferNotes (fun _ _ => true)
    changedSplit cryptoWorld (.run 4)
    (fun l _ c' => (Step.sent l).any fun s : Nat × Nat => decide (s.1 = 1) &&
      (c'.glob.world.outside.chain.any fun tx => decide (tx.hash = s.2)) &&
      (c'.glob.world.outside.chain.all fun tx => decide (tx.hash = s.2 → tx.call.platformFee = 0)) &&
      (c'.glob.world.transfers (1, .platformFee)).isSome) (by decide)
  obtain ⟨⟨p, hash⟩, hsent, h⟩ := (Option.any_eq_true _ _).mp h
  simp only [Bool.and_eq_true, decide_eq_true_eq] at h
  obtain ⟨⟨⟨rfl, hsome⟩, hall⟩, hleg⟩ := h
  obtain ⟨a, rfl⟩ := Step.eq_of_sent hsent
  have hzero : ∀ tx ∈ c'.glob.world.outside.chain, tx.hash = hash → tx.call.platformFee = 0 :=
    fun tx htx => of_decide_eq_true (List.all_eq_true.mp hall tx htx)
  obtain ⟨tx, htx, hhash⟩ := List.any_eq_true.mp hsome
  rw [decide_eq_true_eq] at hhash
  refine ⟨c, a, c', hash, hrun, hmove, ⟨tx, htx, hhash, hzero tx htx hhash⟩, hleg, ?_⟩
  intro tx htx hhash hrecorded
  have hnone := hrecorded.legs .platformFee
  rw [ChainTx.leg, if_neg (by simp [SplitterCall.amount, hzero tx htx hhash]),
    Option.map_eq_none_iff] at hnone
  rw [hnone] at hleg
  exact absurd hleg (by simp)

end OpenUnion
