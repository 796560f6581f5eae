import OpenUnion.Interleave.Progress
import OpenUnion.Safety.ActiveJobs

/-!
# Publishing a draft bounty

Any number of publish requests for one draft bounty, and pauses of it, run
interleaved.  A publication debits the budget and creates the jobs only when it
finds neither, under the bounty's row lock, so nothing happens twice.

* `DraftsUntouched` is what it means to be a draft: no budget is reserved yet and
  there are no jobs.  `drafts_untouched` proves it of every reachable state.
* `PublishedOnce` is what the first committed publication has done; no later one
  changes anything but the bounty's status.
* `published_once` is the run result, together with what holds of the publications
  that fail: all their steps leave balances, events, reservations, bounty and jobs
  alone (`SameBooks`).
-/

namespace OpenUnion

open Interleave

/-- The bounty has no jobs. -/
def NoJobs (bountyId : Nat) (w : World) : Prop :=
  AllRows (fun _ row => row.bountyId ≠ bountyId) w.jobs

/-- Accounts, events, reservations, bounties and jobs are the same. -/
structure SameBooks (w w' : World) : Prop where
  accounts : w'.accounts = w.accounts
  billing : w'.billing = w.billing
  reservations : w'.reservations = w.reservations
  bounties : w'.bounties = w.bounties
  jobs : w'.jobs = w.jobs

theorem SameBooks.refl (w : World) : SameBooks w w := ⟨rfl, rfl, rfl, rfl, rfl⟩

section Drafts

/-- No budget is reserved for a draft bounty, and it has no jobs. -/
def DraftsUntouched (w : World) : Prop :=
  ∀ b bounty, w.bounties b = some bounty → bounty.status = .draft →
    w.reservations b = none ∧ NoJobs b w

/-- Whatever is a draft was one, and new reservations and jobs belong to no draft. -/
structure LeavesDrafts (w w' : World) : Prop where
  bounties : ∀ b row, w'.bounties b = some row → row.status = .draft → w.bounties b = some row
  reservations : ∀ b row, w'.bounties b = some row → row.status = .draft →
    w.reservations b = none → w'.reservations b = none
  jobs : ∀ b row, w'.bounties b = some row → row.status = .draft → NoJobs b w → NoJobs b w'

variable {w w' : World}

theorem DraftsUntouched.kept (h : DraftsUntouched w) (hleaves : LeavesDrafts w w') :
    DraftsUntouched w' := by
  intro b row hrow hdraft
  obtain ⟨hreservation, hjobs⟩ := h b row (hleaves.bounties b row hrow hdraft) hdraft
  exact ⟨hleaves.reservations b row hrow hdraft hreservation, hleaves.jobs b row hrow hdraft hjobs⟩

/-- Jobs that stay in their bounties. -/
theorem NoJobs.kept {b : Nat} (h : NoJobs b w)
    (hjobs : ∀ k row', w'.jobs k = some row' → ∃ row, w.jobs k = some row ∧
      row'.bountyId = row.bountyId) : NoJobs b w' := by
  intro k row' hrow'
  obtain ⟨row, hrow, hbounty⟩ := hjobs k row' hrow'
  rw [hbounty]
  exact h k row hrow

/-- Neither bounties nor reservations are written, and no job is added. -/
theorem LeavesDrafts.of_same (hbounties : w'.bounties = w.bounties)
    (hreservations : w'.reservations = w.reservations)
    (hjobs : ∀ k row', w'.jobs k = some row' → ∃ row, w.jobs k = some row ∧
      row'.bountyId = row.bountyId) : LeavesDrafts w w' := by
  refine ⟨fun b row hrow _ => by rwa [hbounties] at hrow, fun b row _ _ h => ?_,
    fun b row _ _ h => h.kept hjobs⟩
  rwa [hreservations]

section DraftRuns

variable {cfg : Config} {hold : Lock → World → World → Prop} {L : List Lock} {pid : Nat} {t : Tag}

/-- A row that has been given another status than `draft` is no draft. -/
theorem BountyStmt.not_draft {st : BountyStatus} {published : Option Nat} {row : Bounty}
    (hst : st ≠ .draft) : (BountyStmt.apply st published row).status ≠ .draft := by
  simpa [BountyStmt.apply] using hst

theorem draft_of_modify {tbl : Nat → Option Bounty} {b k : Nat} {st : BountyStatus}
    {published : Option Nat} {row : Bounty} (hst : st ≠ .draft)
    (hrow : modify tbl b (BountyStmt.apply st published) k = some row)
    (hdraft : row.status = .draft) : k ≠ b ∧ tbl k = some row := by
  obtain ⟨old, hold⟩ := exists_of_modify hrow
  rw [modify_eq_some hold] at hrow
  by_cases hk : k = b
  · rw [if_pos hk] at hrow
    obtain rfl := Option.some.inj hrow
    exact absurd hdraft (BountyStmt.not_draft hst)
  · rw [if_neg hk] at hrow
    exact ⟨hk, hold.trans hrow⟩

/-- A commit leaves drafts untouched. -/
theorem Tag.Effect.leavesDrafts (h : t.Effect cfg hold pid L w w')
    (hstatus : ∀ b st, t = .setBountyStatus b st → st ≠ .draft) : LeavesDrafts w w' := by
  cases t with
  | publishBounty b =>
      obtain ⟨-, bounty, accounts, accounts', billing, reservations, jobs, t, -, -, hfunds, hjobs,
        rfl⟩ := h
      refine ⟨fun k row hrow hdraft => (draft_of_modify (by simp) hrow hdraft).2, ?_, ?_⟩
      · intro k row hrow hdraft hnone
        have hk : k ≠ b := (draft_of_modify (by simp) hrow hdraft).1
        obtain ⟨-, -, -, rfl⟩ | ⟨t', -, -, -, -, -, rfl⟩ := hfunds
        · exact hnone
        · simpa [hk] using hnone
      · intro k row hrow hdraft hnone j job hjob
        have hk : k ≠ b := (draft_of_modify (by simp) hrow hdraft).1
        obtain ⟨-, rfl⟩ | ⟨w₀, -, -, hadds⟩ := hjobs
        · exact hnone j job hjob
        · cases hold : w.jobs j with
          | none =>
              obtain ⟨-, fp, sla, now, rfl⟩ := hadds.new hold hjob
              exact Ne.symm hk
          | some old =>
              obtain rfl : old = job := Option.some.inj ((hadds.kept hold).symm.trans hjob)
              exact hnone j old hold
  | setBountyStatus b st =>
      obtain rfl := h
      have hst := hstatus b st rfl
      exact ⟨fun k row hrow hdraft => (draft_of_modify hst hrow hdraft).2, fun _ _ _ _ h => h,
        fun _ _ _ _ h => h⟩
  | closeBounty b c =>
      obtain ⟨-, res, accounts, billing, w₀, -, -, -, -, -, rfl⟩ := h
      refine ⟨fun k row hrow hdraft => (draft_of_modify (by simp) hrow hdraft).2, ?_,
        fun _ _ _ _ h => h⟩
      intro k row hrow hdraft hnone
      have hk : k ≠ b := (draft_of_modify (by simp) hrow hdraft).1
      simpa [hk] using hnone
  | leaseJob j i =>
      obtain ⟨hbounties, hreservations⟩ := h.bounties_reservations (by simp) (by simp) (by simp)
      refine .of_same hbounties hreservations fun k row' hrow' => ?_
      cases h.jobsCommit with
      | same _ hsame => exact ⟨row', hsame ▸ hrow', rfl⟩
      | leased _ _ _ hleased =>
          obtain ⟨e, n, t, w₀, -, -, -, -, -, rfl⟩ := hleased
          obtain ⟨row, hrow⟩ := exists_of_modify hrow'
          obtain ⟨row'', hrow'', hbounty⟩ :=
            (Persists.modify (f := Job.bountyId) (g := JobStmt.lease' i e n) fun _ => rfl) k row hrow
          obtain rfl := Option.some.inj (hrow''.symm.trans hrow')
          exact ⟨row, hrow, hbounty⟩
  | _ =>
      obtain ⟨hbounties, hreservations⟩ := h.bounties_reservations (by simp) (by simp) (by simp)
      refine .of_same hbounties hreservations fun k row' hrow' => ?_
      cases h.jobsCommit with
      | same _ hsame => exact ⟨row', hsame ▸ hrow', rfl⟩

/-- No request makes a draft of a bounty. -/
theorem Request.ends_status {q : Request} {b : Nat} {st : BountyStatus}
    (h : q.Ends (.setBountyStatus b st)) : st ≠ .draft := by
  cases q with
  | pause o b' =>
      obtain ⟨-, rfl⟩ := Tag.setBountyStatus.inj h
      simp
  | close o b' =>
      obtain ⟨r, hr⟩ := h
      rcases r with _ | ⟨bounty, _ | committed⟩
      · obtain ⟨-, rfl⟩ := Tag.setBountyStatus.inj hr
        simp
      · obtain ⟨-, rfl⟩ := Tag.setBountyStatus.inj hr
        simp
      · exact absurd hr (by simp [statusTag])
  | publish o b' origins | claim i j | cancelDispute o d | resolveDispute d refund
  | payoutAddress i a => exact absurd h (by simp [Request.Ends])
  | createDispute o p s =>
      obtain ⟨d, p, hr⟩ := h
      cases hr
  | stripeWebhook event =>
      obtain ⟨e, hr⟩ := h
      cases hr
  | payoutRunner =>
      obtain hr | ⟨p, hash, hr⟩ | ⟨d, hr⟩ := h <;> cases hr
  | verificationRunner => cases h
  | _ => exact h.elim

/-- The plan: drafts are untouched. -/
def draftPlan (cfg : Config) : Plan (system cfg noNotes) :=
  systemPlan cfg noNotes anyStep (fun _ => True) (fun g => DraftsUntouched g.world)
    (fun _ _ _ => True) fun _ _ _ => True

theorem draftPlan_valid (cfg : Config) : (draftPlan cfg).Valid := by
  refine systemPlan_valid (fun _ _ _ => trivial) ?_ (fun _ _ _ _ _ _ => trivial)
    (fun _ _ _ _ _ _ _ => trivial)
  rintro l L g g' ⟨hinv, -, hstep⟩
  have hinv : DraftsUntouched g.world := hinv
  refine hinv.kept ?_
  cases hstep with
  | stmt a s busy _ _ _ hexec =>
      have hbounties := s.apply_bounties busy g.world
      have hreservations := s.apply_reservations busy g.world
      have hjobs := s.apply_jobs busy g.world
      cases s with
      | bounty s => exact absurd hexec.1 Request.executes_bounty
      | reservation s => exact absurd hexec.1 Request.executes_reservation
      | job s =>
          refine .of_same hbounties hreservations fun k row' hrow' => ?_
          change (Stmt.apply (.job s) busy g.world).jobs k = some row' at hrow'
          rw [hjobs] at hrow'
          exact (Request.writes_job hexec.1).bounty hrow'
      | _ =>
          refine .of_same hbounties hreservations fun k row' hrow' => ⟨row', ?_, rfl⟩
          exact (congrFun hjobs k).symm.trans hrow'
  | inner a s busy v _ _ _ =>
      refine .of_same (Stmt.effect_bounties s busy _ _) (Stmt.effect_reservations s busy _ _)
        fun k row' hrow' => ⟨row', ?_, rfl⟩
      rw [← Stmt.effect_jobs s busy (v g.world) g.world]
      exact hrow'
  | commit a t L v _ _ hcom =>
      obtain ⟨hends, heffect⟩ := hcom
      refine heffect.leavesDrafts ?_
      rintro b st rfl
      exact Request.ends_status hends
  | reply a x _ _ => exact .of_same rfl rfl fun k row' hrow' => ⟨row', hrow', rfl⟩
  | env e _ => cases e <;> exact .of_same rfl rfl fun k row' hrow' => ⟨row', hrow', rfl⟩

/-- No request makes a draft of a bounty, and none touches the budget or the jobs of
one: in every reachable state drafts are untouched. -/
theorem drafts_untouched {cfg : Config} {w : World} {cs : List Pick} {c : State Unit}
    (hw : DraftsUntouched w) (hrun : (system cfg noNotes).exec anyStep cs (Sys.start w) = some c) :
    DraftsUntouched c.glob.world :=
  (draftPlan_valid cfg).exec_inv hw hrun

end DraftRuns

end Drafts

/-- Every commit is noted with its tag. -/
def commitNotes : Actor Request → Happening → World → List Tag
  | _, .commit t, _ => [t]
  | _, _, _ => []

/-- Nothing has been reserved, booked or created. -/
structure Unspent (w₀ w : World) : Prop where
  accounts : w.accounts = w₀.accounts
  billing : w.billing = w₀.billing
  reservations : w.reservations = w₀.reservations
  jobs : w.jobs = w₀.jobs

/-- One publication: the organisation is debited once, by the amount of the one
reservation, and there is one new job for each fingerprint class. -/
structure PublishedOnce (b : Nat) (bounty : Bounty) (w₀ w : World) : Prop where
  reservations : w.reservations =
    Function.update w₀.reservations b (some ⟨bounty.orgId, bounty.reserveCents, .active⟩)
  balance : ∀ o, balanceIn w.accounts o =
    balanceIn w₀.accounts o + if o = bounty.orgId then -(bounty.reserveCents : Int) else 0
  billing : ∃ t, w.billing =
    ⟨bounty.orgId, .bountyBudgetReserve b, -(bounty.reserveCents : Int), t⟩ :: w₀.billing
  jobs : ∃ rows : List (Nat × Nat), rows.map Prod.snd = bounty.fingerprintClasses ∧
    (rows.map Prod.fst).Nodup ∧
    (∀ row ∈ rows, ∃ job, w.jobs row.1 = some job ∧ job.bountyId = b ∧
      job.fingerprintClass = row.2 ∧ job.status = .opened) ∧
    ∀ k, k ∉ rows.map Prod.fst → w.jobs k = w₀.jobs k

section Counting

variable {w w' : World} {b : Nat}

/-- A bounty without jobs counts none, and conversely. -/
theorem countJobs_eq_zero (h : NoJobs b w) : (Query.countJobs b).eval w = 0 := by
  by_contra hne
  obtain ⟨k, row, hrow, hbounty⟩ := exists_of_countJobs hne
  exact h k row hrow hbounty

theorem NoJobs.of_count (hnumbered : JobsNumbered w) (h : (Query.countJobs b).eval w = 0) :
    NoJobs b w := by
  intro k row hrow hbounty
  have hmem : k ∈ w.ids.filter fun j => (w.jobs j).any fun r => decide (r.bountyId = b) :=
    List.mem_filter.mpr ⟨by simpa [World.ids] using hnumbered k row hrow, by simp [hrow, hbounty]⟩
  exact absurd (List.eq_nil_of_length_eq_zero h) (List.ne_nil_of_mem hmem)

/-- What a bounty's row lock protects: where no jobs are counted there will be none. -/
def jobsHold : Lock → World → World → Prop
  | .bounty b, w, w' => (Query.countJobs b).eval w = 0 → NoJobs b w'
  | _, _, _ => True

theorem jobsHold_trans (k : Lock) (u v w : World) (huv : jobsHold k u v) (hvw : jobsHold k v w) :
    jobsHold k u w := by
  cases k with
  | bounty b => exact fun hzero => hvw (countJobs_eq_zero (huv hzero))
  | _ => trivial

/-- New jobs are numbered and belong to the bounty that is published. -/
theorem Populates.jobs {bounty : Bounty} {hold : Lock → World → World → Prop}
    {jobs : Nat → Option Job} (h : Populates hold b bounty w jobs) {k : Nat} {row : Job}
    (hrow : jobs k = some row) :
    w.jobs k = some row ∨ (k < w.nextId ∧ row.bountyId = b) := by
  obtain ⟨-, rfl⟩ | ⟨w₀, -, -, hadds⟩ := h
  · exact Or.inl hrow
  · cases hold : w.jobs k with
    | none =>
        obtain ⟨hlt, fp, sla, now, rfl⟩ := hadds.new hold hrow
        exact Or.inr ⟨hlt, rfl⟩
    | some old => exact Or.inl ((hadds.kept hold).symm.trans hrow)

end Counting

/-- The publish requests for one bounty, and the pauses of it. -/
def Request.publishes (b : Nat) : Request → Bool
  | .publish _ b' _ | .pause _ b' => decide (b' = b)
  | _ => false

theorem Request.publishes_cases {b : Nat} {q : Request} (h : q.publishes b = true) :
    (∃ o origins, q = .publish o b origins) ∨ ∃ o, q = .pause o b := by
  cases q with
  | publish o b' origins =>
      obtain rfl : b' = b := by simpa [Request.publishes] using h
      exact Or.inl ⟨o, origins, rfl⟩
  | pause o b' =>
      obtain rfl : b' = b := by simpa [Request.publishes] using h
      exact Or.inr ⟨o, rfl⟩
  | _ => simp [Request.publishes] at h

/-- Only such requests arrive. -/
def publishesOnly (b : Nat) : Step → Glob World Tag → Bool
  | .spawn q, _ => q.publishes b
  | _, _ => true

/-- The runs of publications and pauses of one bounty. -/
structure PublishRun (b : Nat) (bounty : Bounty) (w₀ : World) (g : Glob World Tag) : Prop where
  numbered : JobsNumbered g.world
  terms : ∃ row, g.world.bounties b = some row ∧ row.terms = bounty.terms
  spent : (Unspent w₀ g.world ∧ ∀ e ∈ g.hist, e.2 ≠ .publishBounty b) ∨
    PublishedOnce b bounty w₀ g.world

/-- The plan: what one publication does is done at most once. -/
def publishPlan (cfg : Config) (b : Nat) (bounty : Bounty) (w₀ : World) :
    Plan (system cfg commitNotes) :=
  systemPlan cfg commitNotes (publishesOnly b) (fun q => q.publishes b = true)
    (PublishRun b bounty w₀) jobsHold fun _ _ _ => True

/-- What a step of such a run does: nothing, one publication, or one pause. -/
inductive PublishStep (b : Nat) (l : Step) (L : List Lock) (g g' : Glob World Tag) : Prop where
  | same : SameBooks g.world g'.world → g.world.nextId ≤ g'.world.nextId → g'.hist = g.hist →
      PublishStep b l L g g'
  | published (a : Actor Request) : l = .event a (.commit (.publishBounty b)) →
      .bounty b ∈ L → Published jobsHold b g.world g'.world →
      g'.hist = (a.pid, .publishBounty b) :: g.hist → PublishStep b l L g g'
  | paused (a : Actor Request) : l = .event a (.commit (.setBountyStatus b .paused)) →
      StatusSet b .paused g.world g'.world →
      g'.hist = (a.pid, .setBountyStatus b .paused) :: g.hist → PublishStep b l L g g'

section Steps

variable {cfg : Config} {b : Nat} {bounty : Bounty} {w₀ : World} {l : Step} {L : List Lock}
  {g g' : Glob World Tag}

theorem publishPlan_step (h : (publishPlan cfg b bounty w₀).Move l L g g') :
    PublishStep b l L g g' := by
  obtain ⟨-, -, hstep⟩ := h
  cases hstep with
  | stmt a s busy _ hasked _ hexec =>
      obtain ⟨pid, q⟩ := a
      have hreads : Reads s := by
        obtain ⟨o, origins, rfl⟩ | ⟨o, rfl⟩ := Request.publishes_cases hasked
        · exact hexec.1
        · exact hexec.1
      cases s with
      | read q => exact .same (.refl _) (Nat.le_refl _) rfl
      | nanoid => exact .same ⟨rfl, rfl, rfl, rfl, rfl⟩ (Nat.le_succ _) rfl
      | _ => exact hreads.elim
  | inner a s busy v _ hasked _ =>
      refine .same ⟨?_, ?_, ?_, ?_, ?_⟩ ?_ rfl
      · exact Stmt.effect_accounts s busy _ _
      · exact Stmt.effect_billing s busy _ _
      · exact Stmt.effect_reservations s busy _ _
      · exact Stmt.effect_bounties s busy _ _
      · exact Stmt.effect_jobs s busy _ _
      · exact (Stmt.effect_grows s (v g.world)).nextId
  | commit a t L v _ hasked hcom =>
      obtain ⟨pid, q⟩ := a
      obtain ⟨hends, heffect⟩ := hcom
      obtain ⟨o, origins, rfl⟩ | ⟨o, rfl⟩ := Request.publishes_cases hasked
      · obtain rfl := hends
        exact .published _ rfl heffect.1 heffect.2 rfl
      · obtain rfl := hends
        exact .paused _ rfl heffect rfl
  | reply a x _ _ => exact .same (.refl _) (Nat.le_refl _) rfl
  | env e _ => cases e <;> exact .same ⟨rfl, rfl, rfl, rfl, rfl⟩ (Nat.le_refl _) rfl

/-- A publication after none debits the budget and creates the jobs. -/
theorem Published.first {w w' : World} (h : Published jobsHold b w w') (hspent : Unspent w₀ w)
    (hrow : ∃ row, w.bounties b = some row ∧ row.terms = bounty.terms)
    (hfree : w₀.reservations b = none) (hjobs₀ : NoJobs b w₀) (hcents : 0 < bounty.payoutCents) :
    PublishedOnce b bounty w₀ w' := by
  obtain ⟨published, accounts, accounts', billing, reservations, jobs, t, hpublished, hensures,
    hfunds, hjobs, rfl⟩ := h
  obtain ⟨row, hrow, hterms⟩ := hrow
  obtain rfl : row = published := Option.some.inj (hrow.symm.trans hpublished)
  obtain ⟨horg, hclasses, hpayout, -⟩ : row.orgId = bounty.orgId ∧
      row.fingerprintClasses = bounty.fingerprintClasses ∧ row.payoutCents = bounty.payoutCents ∧
      row.disputeWindowSec = bounty.disputeWindowSec := by
    simpa [Bounty.terms] using hterms
  have hreserve : row.reserveCents = bounty.reserveCents := by
    simp [Bounty.reserveCents, hpayout, hclasses]
  have hpos : 0 < bounty.reserveCents := by
    simp only [Bounty.reserveCents]
    exact Nat.mul_pos hcents (by omega)
  rw [Funds, horg, hreserve] at hfunds
  obtain ⟨hnone | hzero, -⟩ | ⟨t', -, -, hcovers, rfl, rfl, rfl⟩ := hfunds
  · exact absurd (by rw [hspent.reservations, hfree]) hnone
  · omega
  refine ⟨by rw [hspent.reservations], ?_, ⟨t', by rw [hspent.billing]⟩, ?_⟩
  · intro o
    obtain ⟨account, haccount, -⟩ := (Option.any_eq_true _ _).mp hcovers
    have hmoved := balanceIn_modify (t := accounts) (o := bounty.orgId)
      (f := fun a => ⟨a.balanceCents - bounty.reserveCents⟩) (n := -(bounty.reserveCents : Int))
      (by simp [haccount]) (fun _ => rfl) o
    rw [horg] at hensures
    rw [hmoved, hensures.balance, hspent.accounts]
  · obtain ⟨⟨k, job, hjob, hbounty⟩ | hempty, rfl⟩ | ⟨w₁, -, -, rows, sla, now, hrows, hnew⟩ := hjobs
    · rw [hspent.jobs] at hjob
      exact absurd hbounty (hjobs₀ k job hjob)
    · refine ⟨[], by rw [← hclasses, hempty]; rfl, List.nodup_nil, by simp, fun k _ => ?_⟩
      rw [hspent.jobs]
    · refine ⟨rows, hrows.trans hclasses, hnew.nodup, fun pair hpair => ?_, fun k hk => ?_⟩
      · exact ⟨_, (hnew.fresh pair hpair).2.2, rfl, rfl, rfl⟩
      · rw [← hspent.jobs]
        exact hnew.others k hk

/-- A publication after another changes nothing. -/
theorem Published.again {w w' : World} (h : Published jobsHold b w w')
    (honce : PublishedOnce b bounty w₀ w)
    (hrow : ∃ row, w.bounties b = some row ∧ row.terms = bounty.terms) :
    PublishedOnce b bounty w₀ w' := by
  obtain ⟨published, accounts, accounts', billing, reservations, jobs, t, hpublished, hensures,
    hfunds, hjobs, rfl⟩ := h
  obtain ⟨row, hrow, hterms⟩ := hrow
  obtain rfl : row = published := Option.some.inj (hrow.symm.trans hpublished)
  have hclasses : row.fingerprintClasses = bounty.fingerprintClasses :=
    congrArg (fun t => t.2.1) hterms
  have hreserved : w.reservations b ≠ none := by simp [honce.reservations]
  obtain ⟨-, rfl, rfl, rfl⟩ | ⟨t', -, hnone, -⟩ := hfunds
  · refine ⟨honce.reservations, fun o => ?_, honce.billing, ?_⟩
    · change balanceIn accounts' o = _
      rw [hensures.balance]
      exact honce.balance o
    · obtain ⟨-, rfl⟩ | ⟨w₁, hhold, hzero, hadds⟩ := hjobs
      · exact honce.jobs
      · -- the lock was held since no jobs were counted, so there are none: no class is asked for
        obtain ⟨rows, hrows, hnodup, hrow', hothers⟩ := honce.jobs
        have hempty : rows = [] := by
          cases rows with
          | nil => rfl
          | cons pair rest =>
              obtain ⟨job, hjob, hbounty, -⟩ := hrow' pair (by simp)
              exact absurd hbounty (hhold hzero pair.1 job hjob)
        subst hempty
        have hnone : row.fingerprintClasses = [] := by rw [hclasses, ← hrows]; rfl
        obtain ⟨rows', sla, now, hrows', hnew⟩ := hadds
        have hempty' : rows' = [] := List.map_eq_nil_iff.mp (hrows'.trans hnone)
        subst hempty'
        refine ⟨[], hrows, hnodup, by simp, fun k hk => ?_⟩
        exact (hnew.others k hk).trans (hothers k hk)
  · exact absurd hnone hreserved

/-- Jobs stay numbered. -/
theorem PublishStep.numbered (h : PublishStep b l L g g') (hnumbered : JobsNumbered g.world) :
    JobsNumbered g'.world := by
  cases h with
  | same hbooks hid _ =>
      intro k row hrow
      rw [hbooks.jobs] at hrow
      exact Nat.lt_of_lt_of_le (hnumbered k row hrow) hid
  | published a _ _ hpublished _ =>
      obtain ⟨row, accounts, accounts', billing, reservations, jobs, t, -, -, -, hjobs, hw⟩ :=
        hpublished
      intro k job hjob
      rw [hw] at hjob ⊢
      obtain hold | ⟨hlt, -⟩ := hjobs.jobs hjob
      · exact hnumbered k job hold
      · exact hlt
  | paused a _ hset _ =>
      rw [hset]
      exact hnumbered

/-- Only a publication adds jobs, and only to its own bounty. -/
theorem PublishStep.hold (h : PublishStep b l L g g') (hnumbered : JobsNumbered g.world) (k : Lock)
    (hk : k ∉ L) : jobsHold k g.world g'.world := by
  cases k with
  | bounty b' =>
      intro hzero
      have hnone : NoJobs b' g.world := .of_count hnumbered hzero
      cases h with
      | same hbooks _ _ =>
          intro j job hjob
          rw [hbooks.jobs] at hjob
          exact hnone j job hjob
      | published a _ hlock hpublished _ =>
          obtain ⟨row, accounts, accounts', billing, reservations, jobs, t, -, -, -, hjobs, hw⟩ :=
            hpublished
          intro j job hjob
          rw [hw] at hjob
          obtain hold | ⟨-, hbounty⟩ := hjobs.jobs hjob
          · exact hnone j job hold
          · rintro rfl
            exact hk (hbounty ▸ hlock)
      | paused a _ hset _ =>
          rw [hset]
          exact hnone
  | _ => trivial

theorem publishPlan_valid (cfg : Config) (hfree : w₀.reservations b = none) (hjobs : NoJobs b w₀)
    (hcents : 0 < bounty.payoutCents) : (publishPlan cfg b bounty w₀).Valid := by
  refine systemPlan_valid (fun q g h => h) ?_ jobsHold_trans ?_
  · intro l L g g' h
    obtain ⟨hnumbered, hrow, hspent⟩ : PublishRun b bounty w₀ g := h.inv
    have hstep := publishPlan_step h
    have hgrown := Conducted.grows (fun a g t L w
      (hcom : a.req.Ends t ∧ t.Effect cfg jobsHold a.pid L g.world w) => hcom.2.grows) h.conducted
    refine ⟨hstep.numbered hnumbered, ?_, ?_⟩
    · obtain ⟨row, hrow, hterms⟩ := hrow
      obtain ⟨row', hrow', hterms'⟩ := hgrown.bounties b row hrow
      exact ⟨row', hrow', hterms'.trans hterms⟩
    · cases hstep with
      | same hbooks _ hhist =>
          obtain ⟨haccounts, hbilling, hreservations, -, hjobs⟩ := hbooks
          obtain ⟨hunspent, hnone⟩ | honce := hspent
          · refine Or.inl ⟨⟨?_, ?_, ?_, ?_⟩, hhist ▸ hnone⟩
            · rw [haccounts, hunspent.accounts]
            · rw [hbilling, hunspent.billing]
            · rw [hreservations, hunspent.reservations]
            · rw [hjobs, hunspent.jobs]
          · refine Or.inr ⟨?_, ?_, ?_, ?_⟩
            · rw [hreservations, honce.reservations]
            · rw [haccounts]
              exact honce.balance
            · rw [hbilling]
              exact honce.billing
            · rw [hjobs]
              exact honce.jobs
      | published a _ _ hpublished _ =>
          obtain ⟨hunspent, -⟩ | honce := hspent
          · exact Or.inr (hpublished.first hunspent hrow hfree hjobs hcents)
          · exact Or.inr (hpublished.again honce hrow)
      | paused a _ hset hhist =>
          obtain ⟨hunspent, hnone⟩ | honce := hspent
          · rw [hset, hhist]
            refine Or.inl ⟨⟨hunspent.accounts, hunspent.billing, hunspent.reservations,
              hunspent.jobs⟩, fun e he => ?_⟩
            obtain rfl | hmem := List.mem_cons.mp he
            · simp
            · exact hnone e hmem
          · rw [hset]
            exact Or.inr ⟨honce.reservations, honce.balance, honce.billing, honce.jobs⟩
  · intro l L g g' h k hk
    exact (publishPlan_step h).hold h.inv.numbered k hk

end Steps

section Failures

variable {cfg : Config} {o b : Nat}

/-- The body of `publishBounty` opens no transaction of its own. -/
theorem reserveBudget_every {n now : Nat} {org : Option Org} :
    (reserveBudget b o n now org).Every fun _ => True := by
  have hlimit : ∀ limit since err, (checkSpendLimit o limit since n err).Every fun _ => True := by
    intro limit since err
    cases limit with
    | none => trivial
    | some limit =>
        simp only [checkSpendLimit, bind_eq_bind, Prog.every_perform_bind]
        refine ⟨trivial, fun sum => ?_⟩
        split_ifs <;> trivial
  refine (hlimit _ _ _).bind fun _ => (hlimit _ _ _).bind fun _ => ?_
  refine Prog.every_perform_bind.mpr ⟨trivial, fun covered => ?_⟩
  cases covered with
  | false => trivial
  | true =>
      refine Prog.Every.bind ?_ fun _ => by simp
      exact Prog.every_perform_bind.mpr ⟨trivial, fun booked => by cases booked <;> trivial⟩

theorem insertJobs_every {bounty : Bounty} {org : Option Org} {now : Nat} :
    (insertJobs b bounty org now).Every fun _ => True := by
  have hjobs : (forEach (insertJobs.insertJob b bounty now) bounty.fingerprintClasses).Every
      fun _ => True := by
    refine Prog.every_forEach fun fp => ?_
    simp [insertJobs.insertJob]
  simp only [insertJobs]
  cases org.bind Org.maxOpenJobs with
  | none => exact hjobs
  | some maxOpen =>
      refine Prog.every_perform_bind.mpr ⟨trivial, fun openJobs => ?_⟩
      split_ifs
      · trivial
      · exact hjobs

theorem ensureAccount_every : (ensureAccount o).Every fun _ => True := by
  refine Prog.every_perform_bind.mpr ⟨trivial, fun account => ?_⟩
  cases account with
  | some account => trivial
  | none =>
      refine Prog.every_perform_bind.mpr ⟨trivial, fun inserted => ?_⟩
      cases inserted with
      | some account => trivial
      | none => exact Prog.every_perform_bind.mpr ⟨trivial, fun found => by cases found <;> trivial⟩

theorem publishBounty_afterCommit {F : Bounty → Prop} {G : Err → Prop} (hF : ∀ x, F x) :
    (publishBounty b).AfterCommit F G := by
  refine afterCommit_transaction (?_ : Prog.Every (fun _ => True) _) hF
  refine Prog.every_perform_bind.mpr ⟨trivial, fun existing => ?_⟩
  cases existing with
  | none => trivial
  | some existing =>
      refine Prog.every_perform_bind.mpr ⟨trivial, fun org => ?_⟩
      refine Prog.every_perform_bind.mpr ⟨trivial, fun now => ensureAccount_every.bind fun _ => ?_⟩
      refine Prog.every_perform_bind.mpr ⟨trivial, fun existingRes => ?_⟩
      refine Prog.Every.bind (every_onlyIf.mpr fun _ => reserveBudget_every) fun _ => ?_
      refine Prog.every_perform_bind.mpr ⟨trivial, fun updated => ?_⟩
      cases updated with
      | none => trivial
      | some updated =>
          refine Prog.every_perform_bind.mpr ⟨trivial, fun existingJobs => ?_⟩
          exact (every_onlyIf.mpr fun _ => insertJobs_every).bind fun _ => trivial

/-- A publish request that has committed answers with the bounty, unless the statement
that reads it back fails. -/
theorem publishRoute_afterCommit {origins : List Nat} :
    (publishRoute o b origins).AfterCommit (fun r => ∃ bounty, r = .ok bounty)
      fun e => e = default := by
  refine Prog.afterCommit_perform_bind.mpr fun r => ?_
  cases r with
  | none => trivial
  | some bounty =>
      dsimp only
      split_ifs
      · trivial
      · trivial
      · refine Prog.AfterCommit.bind (allOrigins_every (fun _ => by simp [Reads]) _).afterCommit
          fun allVerified => ?_
        split_ifs
        · refine Prog.AfterCommit.bind (allOrigins_every (fun _ => by simp [Reads]) _).afterCommit
            fun unblocked => ?_
          split_ifs
          · refine Prog.AfterCommit.orElse (Prog.AfterCommit.bind ?_ fun _ => ⟨fun _ => trivial, trivial⟩)
              fun e => by cases e <;> trivial
            exact publishBounty_afterCommit fun _ => ⟨fun bounty => ⟨bounty, rfl⟩, rfl⟩
          · trivial
        · trivial

/-- What a request answers and throws once it has committed. -/
theorem Request.code_afterCommit (pid : Nat) (q : Request) :
    (q.code cfg pid).AfterCommit
      (fun r => (∃ o b origins, q = .publish o b origins) → ∃ bounty, r = .bounty (.ok bounty))
      fun e => (∃ o b origins, q = .publish o b origins) → e = default := by
  by_cases hq : ∃ o b origins, q = .publish o b origins
  · obtain ⟨o, b, origins, rfl⟩ := hq
    refine Prog.AfterCommit.bind ?_ fun _ => trivial
    refine publishRoute_afterCommit.mono ?_ fun e he _ => he
    rintro r ⟨bounty, rfl⟩ -
    exact ⟨bounty, rfl⟩
  · exact (Prog.afterCommit_true _).mono (fun _ _ h => absurd h hq) fun _ _ h => absurd h hq

/-- The publish request of process `i` is about to fail: it answers with an error, or
throws one that is not just a failed statement. -/
def Refused (c : State Tag) (i : Nat) : Prop :=
  ∃ o b origins p, c.program i = some (.publish o b origins, p) ∧
    ((∃ status code message, p = .ret (.bounty (.error status code message))) ∨
      ∃ e, e ≠ default ∧ p = .fail e)

/-- A publish request that fails has committed nothing. -/
theorem Refused.uncommitted {ok : Step → Glob World Tag → Bool} {cs : List Pick} {w : World}
    {c : State Tag} {i : Nat} (h : Refused c i)
    (hrun : (system cfg commitNotes).exec ok cs (Sys.start w) = some c) :
    own i c.glob.hist = [] := by
  obtain ⟨o, b, origins, p, hprogram, hfails⟩ := h
  have hnote : ∀ (a : Actor Request) (x : Happening) (w : World), (∀ t, x ≠ .commit t) →
      (system cfg commitNotes).note a x w = [] := by
    intro a x w hx
    cases x with
    | commit t => exact absurd rfl (hx t)
    | _ => rfl
  obtain hnil | hleaves := Machine.exec_uncommitted hnote (fun i q => q.code_afterCommit i) hrun i _ p
    hprogram
  · exact hnil
  · obtain ⟨status, code, message, rfl⟩ | ⟨e, he, rfl⟩ := hfails
    · obtain ⟨bounty, hok⟩ := hleaves ⟨o, b, origins, rfl⟩
      cases hok
    · exact absurd (hleaves ⟨o, b, origins, rfl⟩) he

end Failures

/-- **Publishing a draft happens once.**  In every run of publications and pauses of a
draft bounty, as long as no publication has committed nothing is reserved, booked or
created; afterwards there is the one reservation, its one debit, and one job for each
fingerprint class.  No step of a publication that fails has touched any of it. -/
theorem published_once {cfg : Config} {b : Nat} {bounty : Bounty} {w : World} {cs : List Pick}
    {c : State Tag} (hnumbered : JobsNumbered w) (hdrafts : DraftsUntouched w)
    (hrow : w.bounties b = some bounty) (hdraft : bounty.status = .draft)
    (hcents : 0 < bounty.payoutCents)
    (hrun : (system cfg commitNotes).exec (publishesOnly b) cs (Sys.start w) = some c) :
    ((Unspent w c.glob.world ∧ ∀ e ∈ c.glob.hist, e.2 ≠ .publishBounty b) ∨
      PublishedOnce b bounty w c.glob.world) ∧
    ∀ i, Refused c i → ∀ before ch after d a x d', cs = before ++ ch :: after →
      (system cfg commitNotes).exec (publishesOnly b) before (Sys.start w) = some d →
      (system cfg commitNotes).move ch d = some (.event a x, d') → a.pid = i →
      SameBooks d.glob.world d'.glob.world := by
  obtain ⟨hfree, hjobs⟩ := hdrafts b bounty hrow hdraft
  have hvalid : (publishPlan cfg b bounty w).Valid := publishPlan_valid cfg hfree hjobs hcents
  have hinv : PublishRun b bounty w ⟨[], w⟩ :=
    ⟨hnumbered, ⟨bounty, hrow, rfl⟩, Or.inl ⟨⟨rfl, rfl, rfl, rfl⟩, by simp⟩⟩
  refine ⟨(hvalid.exec_inv hinv hrun).spent, ?_⟩
  rintro i hrefused before ch after d a x d' rfl hbefore hmove rfl
  have hnil := hrefused.uncommitted hrun
  rw [Machine.exec_append hbefore] at hrun
  obtain ⟨l, e, hmove', hok, hrest⟩ := Machine.exec_cons hrun
  obtain ⟨rfl, rfl⟩ : .event a x = l ∧ d' = e := by simpa using hmove.symm.trans hmove'
  have hnil' : own a.pid d'.glob.hist = [] := own_nil_of_suffix (Machine.exec_hist hrest) hnil
  obtain ⟨hsame, -⟩ | ⟨a', x', L, hl, hstep⟩ | ⟨e, he, -⟩ := hvalid.exec_step hinv hbefore hmove hok
  · rw [hsame]
    exact .refl _
  · have hcommit : ∀ t, d'.glob.hist ≠ (a.pid, t) :: d.glob.hist := by
      intro t hhist
      rw [hhist] at hnil'
      exact absurd hnil' (by simp [own])
    cases publishPlan_step hstep with
    | same hbooks _ _ => exact hbooks
    | published a'' ha'' _ _ hhist =>
        obtain ⟨rfl, -⟩ : a' = a'' ∧ x' = _ := by simpa using ha''
        obtain ⟨rfl, -⟩ : a = a' ∧ x = x' := by simpa using hl
        exact absurd hhist (hcommit _)
    | paused a'' ha'' _ hhist =>
        obtain ⟨rfl, -⟩ : a' = a'' ∧ x' = _ := by simpa using ha''
        obtain ⟨rfl, -⟩ : a = a' ∧ x = x' := by simpa using hl
        exact absurd hhist (hcommit _)
  · exact absurd he (by simp)

/-- A draft bounty with two fingerprint classes, of an organisation with money. -/
def draftBounty : Bounty := ⟨9, .draft, [], [7, 8], 100, 0, 0, none⟩

def draftWorld : World :=
  { World.empty with
    nextId := 5
    accounts := Function.update World.empty.accounts 9 (some ⟨1000⟩)
    bounties := Function.update World.empty.bounties 1 (some draftBounty) }

/-- Two publications both find no reservation; one commits, and the insert of the other
meets its reservation. -/
def publishTwice : List Pick :=
  ([.spawn (.publish 9 1 []), .spawn (.publish 9 1 [])] : List Pick) ++
    @List.replicate Pick 7 (.run 0) ++ @List.replicate Pick 7 (.run 1) ++
    @List.replicate Pick 12 (.run 0) ++ @List.replicate Pick 4 (.run 1)

/-- The commit of a publication of a bounty. -/
def publishesBounty (b : Nat) : Tag → Bool
  | .publishBounty i => i == b
  | _ => false

/-- The request that publishes has met a row of the same key. -/
def publicationRefused : Option (Request × Code Reply) → Bool
  | some (.publish _ _ _, .fail .uniqueViolation) => true
  | _ => false

theorem published_once_twice :
    ∃ c, (system Config.default commitNotes).exec (publishesOnly 1) publishTwice
        (Sys.start draftWorld) = some c ∧
      PublishedOnce 1 draftBounty draftWorld c.glob.world ∧ Refused c 1 ∧
      ∀ before ch after d a x d', publishTwice = before ++ ch :: after →
        (system Config.default commitNotes).exec (publishesOnly 1) before (Sys.start draftWorld) =
          some d →
        (system Config.default commitNotes).move ch d = some (.event a x, d') → a.pid = 1 →
        SameBooks d.glob.world d'.glob.world := by
  obtain ⟨c, hrun, h⟩ := runs Config.default commitNotes (publishesOnly 1) publishTwice draftWorld
    (fun c => c.glob.hist.any (fun e => publishesBounty 1 e.2) &&
      publicationRefused (c.program 1)) (by decide)
  rw [Bool.and_eq_true] at h
  obtain ⟨hcommitted, hprogram⟩ := h
  have hrefused : Refused c 1 := by
    unfold publicationRefused at hprogram
    split at hprogram
    · rename_i o b origins hc
      exact ⟨o, b, origins, _, hc, Or.inr ⟨.uniqueViolation, by decide, rfl⟩⟩
    · exact absurd hprogram (by simp)
  have hdrafts : DraftsUntouched draftWorld :=
    fun b bounty _ _ => ⟨rfl, fun k row hrow => absurd hrow (by simp [draftWorld, World.empty])⟩
  have hnumbered : JobsNumbered draftWorld :=
    fun k row hrow => absurd hrow (by simp [draftWorld, World.empty])
  have hrow : draftWorld.bounties 1 = some draftBounty := rfl
  obtain ⟨hspent, hsame⟩ := published_once hnumbered hdrafts hrow rfl (by decide) hrun
  refine ⟨c, hrun, ?_, hrefused, hsame 1 hrefused⟩
  obtain ⟨-, hnone⟩ | honce := hspent
  · obtain ⟨e, he, htag⟩ := List.any_eq_true.mp hcommitted
    refine absurd ?_ (hnone e he)
    unfold publishesBounty at htag
    split at htag
    · rename_i b hb
      rw [hb, eq_of_beq htag]
    · exact absurd htag (by simp)
  · exact honce

end OpenUnion
