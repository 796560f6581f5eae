import OpenUnion.Interleave.Traces
import OpenUnion.Safety.Outbox

/-!
# How often an event is delivered

Every claim of an event counts one attempt, and the loop deadletters an event
whose handler throws on its last attempt.  Nothing else looks at the number: an
event whose runner is gone is pending again after the lock timeout however often
it has been tried, and a runner that comes back late reschedules it by the number
it has claimed it with.

* `EventChange`: what one step does to an event, apart from claims and from what
  makes an event pending again.
* `Counted`: the attempts column counts the claims, and only an event with attempts
  left is pending.
* `attempts_bounded`: so the claims of an event never exceed the limit, as long as
  no event is made pending again after its last attempt.
* `crashing_handler_retried`: an event whose handler kills its runner every time is
  claimed once more than the limit.
-/

namespace OpenUnion

open Interleave

/-- What a runner notes of its claims. -/
inductive AttemptNote where
  /-- These events were selected and are being taken. -/
  | taken (keys : List OutboxKey)
  /-- The batch is committed. -/
  | claimed

/-- The notes of a runner that takes a batch. -/
def attemptNotes (_ : Actor Request) (x : Happening) (_ : World) : List AttemptNote :=
  match x with
  | .stmt (.outbox (.take keys _ _)) _ => [.taken keys]
  | .commit .claimOutboxBatch => [.claimed]
  | _ => []

/-- The batch a runner has taken. -/
def batchOf : List AttemptNote → List OutboxKey
  | [] => []
  | .taken keys :: _ => keys
  | .claimed :: earlier => batchOf earlier

/-- How many batches with the event have been claimed. -/
def claims (key : OutboxKey) : List (Nat × AttemptNote) → Nat
  | [] => 0
  | (i, .claimed) :: earlier => claims key earlier + if key ∈ batchOf (own i earlier) then 1 else 0
  | (_, .taken _) :: earlier => claims key earlier

/-- The attempts of an event so far. -/
def attempts (e : Option OutboxEvent) : Nat := e.elim 0 OutboxEvent.attempts

/-- The statement makes the event pending again if it is there. -/
def OutboxStmt.reopens (key : OutboxKey) : OutboxStmt → Bool
  | .reopen k _ _ _ | .upsert k _ _ => decide (k = key)
  | _ => false

/-- The transaction makes the event pending again if it is there. -/
def Tag.reopens (key : OutboxKey) (w : World) : Tag → Bool
  | .cancelDispute d | .resolveDispute d false =>
      ((w.disputes d).bind Dispute.payoutId).any fun p => decide (key = .payout p)
  | .unblockPayouts i =>
      match key with
      | .payout p => (w.payouts p).any (PayoutStmt.waitsFor i)
      | _ => false
  | _ => false

/-- No request reopens the event; and once its attempts are used up, no runner finds
its lock older than the timeout, and none reschedules it without holding the lock. -/
def withinAttempts (cfg : Config) (key : OutboxKey) : Step → Glob World AttemptNote → Bool
  | .event a (.stmt (.outbox (.reschedule k _ _)) _), g =>
      !decide (k = key) || (g.world.outbox key).all fun e =>
        decide (e.status = .processing ∧ e.lockedBy = some a.pid) ||
          decide (e.attempts < cfg.maxAttempts)
  | .event _ (.stmt (.outbox s) _), g => !s.reopens key || (g.world.outbox key).isNone
  | .event _ (.commit .claimOutboxBatch), g => (g.world.outbox key).all fun e =>
      !OutboxStmt.isStale g.world.now cfg.outboxLockTimeoutMs e || decide (e.attempts < cfg.maxAttempts)
  | .event _ (.commit t), g => !t.reopens key g.world || (g.world.outbox key).isNone
  | _, _ => true

section Events

variable {e e' : Option OutboxEvent} {max base n i : Nat}

/-- What a step does to an event that it neither takes nor makes pending again. -/
inductive EventChange : Option OutboxEvent → Option OutboxEvent → Prop where
  | same (e : Option OutboxEvent) : EventChange e e
  | created {r : OutboxEvent} : r.New → EventChange none (some r)
  | settled {r r' : OutboxEvent} : r'.attempts = r.attempts → r'.status ≠ .pending →
      r'.status ≠ .processing → EventChange (some r) (some r')

/-- The attempts of an event count its claims, `base` at the start and `n` since; it
is pending only with attempts left. -/
structure Counted (max base n : Nat) (e : Option OutboxEvent) : Prop where
  count : attempts e = base + n
  within : ∀ r, e = some r → r.attempts ≤ max
  waiting : ∀ r, e = some r → r.status = .pending → r.attempts < max

/-- While runner `i` holds the event, it has `n` attempts. -/
def Numbered (i n : Nat) (e : Option OutboxEvent) : Prop :=
  ∀ r, e = some r → r.status = .processing → r.lockedBy = some i → r.attempts = n

theorem EventChange.counted (h : EventChange e e') (hmax : 0 < max) (hcounted : Counted max base n e) :
    Counted max base n e' := by
  cases h with
  | same => exact hcounted
  | created hnew =>
      refine ⟨?_, ?_, ?_⟩
      · have hcount : 0 = base + n := hcounted.count
        exact hnew.attempts.trans hcount
      · rintro _ ⟨⟩
        rw [hnew.attempts]
        exact Nat.zero_le max
      · rintro _ ⟨⟩ -
        rwa [hnew.attempts]
  | settled hattempts hpending _ =>
      refine ⟨?_, ?_, ?_⟩
      · exact hattempts.trans hcounted.count
      · rintro _ ⟨⟩
        rw [hattempts]
        exact hcounted.within _ rfl
      · rintro _ ⟨⟩ h
        exact absurd h hpending

theorem EventChange.numbered (h : EventChange e e') (hnumbered : Numbered i n e) : Numbered i n e' := by
  cases h with
  | same => exact hnumbered
  | created hnew =>
      rintro _ ⟨⟩ h
      exact absurd (hnew.status.symm.trans h) (by simp)
  | settled _ _ hprocessing =>
      rintro _ ⟨⟩ h
      exact absurd h hprocessing

/-- An event with attempts left is made pending again. -/
theorem Counted.again {r r' : OutboxEvent} (h : Counted max base n (some r))
    (hattempts : r'.attempts = r.attempts) (hleft : r.attempts < max) :
    Counted max base n (some r') := by
  refine ⟨hattempts.trans h.count, ?_, ?_⟩
  · rintro _ ⟨⟩
    rw [hattempts]
    exact h.within _ rfl
  · rintro _ ⟨⟩ -
    rwa [hattempts]

/-- What a claim does to an event with attempts left, if it finds its lock stale. -/
theorem Counted.takenIn {timeout pid now : Nat} {keys : List OutboxKey} {k : OutboxKey}
    (h : Counted max base n e) (htaken : TakenIn timeout pid now keys k e e')
    (hleft : ∀ r, e = some r → OutboxStmt.isStale now timeout r = true → r.attempts < max) :
    Counted max base (n + if k ∈ keys then 1 else 0) e' := by
  obtain ⟨hk, rfl⟩ | ⟨r, t, rfl, ht, ⟨hk, hstale, rfl⟩ | ⟨hk, -, hstatus, rfl⟩⟩ := htaken
  · simpa [hk] using h
  · have hless := hleft r rfl (OutboxStmt.isStale_mono ht hstale)
    simpa [hk] using h.again (show (OutboxStmt.released r).attempts = r.attempts from rfl) hless
  · have hless : r.attempts < max := by
      obtain hpending | hstale := hstatus
      · exact h.waiting r rfl hpending
      · exact hleft r rfl (OutboxStmt.isStale_mono ht hstale)
    have hcount : r.attempts = base + n := h.count
    refine ⟨?_, ?_, ?_⟩
    · simp only [attempts, Option.elim_some, OutboxStmt.taken, hk, if_true]
      omega
    · rintro _ ⟨⟩
      exact hless
    · rintro _ ⟨⟩ hpending
      exact absurd hpending (by simp [OutboxStmt.taken])

/-- A claim of another runner. -/
theorem Numbered.takenIn {timeout pid now : Nat} {keys : List OutboxKey} {k : OutboxKey}
    (h : Numbered i n e) (htaken : TakenIn timeout pid now keys k e e') (hne : pid ≠ i) :
    Numbered i n e' := by
  obtain ⟨-, rfl⟩ | ⟨r, t, rfl, -, ⟨-, -, rfl⟩ | ⟨-, -, -, rfl⟩⟩ := htaken
  · exact h
  · rintro _ ⟨⟩ hprocessing
    exact absurd hprocessing (by simp [OutboxStmt.released])
  · rintro _ ⟨⟩ - hlocked
    exact absurd (Option.some.inj hlocked) hne

end Events

section Statements

variable {w : World} {busy : Lock → Bool} {key : OutboxKey} {q : Request} {s : OutboxStmt}

/-- Requests insert events, stop them or reopen them; runners complete them. -/
inductive OutboxStmt.Plain : OutboxStmt → Prop where
  | insert (k : OutboxKey) (a c : Nat) : Plain (.insert k a c)
  | insertOrIgnore (k : OutboxKey) (a c : Nat) : Plain (.insertOrIgnore k a c)
  | stop (k : OutboxKey) (now : Nat) : Plain (.stop k now)
  | reopen (k : OutboxKey) (a : Nat) (reset clear : Bool) : Plain (.reopen k a reset clear)

theorem Request.Executes.outbox (h : q.Executes (.outbox s)) :
    s.Plain ∨ ∃ k, FinalDoes k (.outbox s) := by
  cases h.source (fun h => h) with
  | submit i j k body h | claim _ i n h | verdict _ body h | requeue i n h | override i v score h
  | retry p h | mark p st pr ref reason h =>
      left
      cases s <;> first | constructor | exact h.elim
  | markDuplicate i h | topup o n h | fee o bps wallet h | webhook event h
  | pay _ p h | confirm _ p h => exact h.elim
  | final _ k h => exact Or.inr ⟨k, h⟩

/-- A new event where there was none. -/
theorem inserted_change {k : OutboxKey} {t : OutboxKey → Option OutboxEvent} (a c : Nat) :
    EventChange (t key)
      ((if (t k).isNone then Function.update t k (some (.fresh a c)) else t) key) := by
  split_ifs with hfree
  · by_cases hk : key = k
    · subst hk
      rw [Option.isNone_iff_eq_none.mp hfree, Function.update_self]
      exact .created ⟨rfl, rfl⟩
    · rw [Function.update_of_ne hk]
      exact .same _
  · exact .same _

/-- An event that is rewritten for good, or one that is not there. -/
theorem modified_change {k : OutboxKey} {t : OutboxKey → Option OutboxEvent}
    {f : OutboxEvent → OutboxEvent}
    (hf : key = k → ∀ r, t key = some r → EventChange (some r) (some (f r))) :
    EventChange (t key) (modify t k f key) := by
  by_cases hk : key = k
  · subst hk
    cases hrow : t key with
    | none =>
        rw [modify_self, hrow]
        exact .same _
    | some r =>
        rw [modify_self, hrow]
        exact hf rfl r hrow
  · rw [modify_of_ne hk]
    exact .same _

theorem stopped_change (now : Nat) (r : OutboxEvent) :
    EventChange (some r) (some (OutboxStmt.stopped now r)) :=
  .settled rfl (by simp [OutboxStmt.stopped]) (by simp [OutboxStmt.stopped])

theorem sent_change (now : Nat) (r : OutboxEvent) :
    EventChange (some r) (some (OutboxStmt.sent now r)) :=
  .settled rfl (by simp [OutboxStmt.sent]) (by simp [OutboxStmt.sent])

theorem dead_change (err : Err) (r : OutboxEvent) :
    EventChange (some r) (some (OutboxStmt.dead err r)) :=
  .settled rfl (by simp [OutboxStmt.dead]) (by simp [OutboxStmt.dead])

/-- What a statement outside transactions does to an event. -/
theorem executes_event (h : q.Executes (.outbox s))
    (hreopens : s.reopens key = false ∨ w.outbox key = none) :
    EventChange (w.outbox key) (((Stmt.outbox s).apply busy w).outbox key) ∨
      ∃ err d r, s = .reschedule key err d ∧ w.outbox key = some r ∧
        ((Stmt.outbox s).apply busy w).outbox key =
          some (OutboxStmt.rescheduled err (w.now + d) r) := by
  rw [Stmt.apply_outbox]
  dsimp only
  obtain hplain | ⟨k, hfinal⟩ := h.outbox
  · left
    cases hplain with
    | insert k a c => exact inserted_change a c
    | insertOrIgnore k a c => exact inserted_change a c
    | stop k now => exact modified_change fun _ r _ => stopped_change now r
    | reopen k a reset clear =>
        refine modified_change fun hk r hrow => ?_
        obtain hreopens | hnone := hreopens
        · exact absurd hk.symm (by simpa [OutboxStmt.reopens] using hreopens)
        · exact absurd (hnone.symm.trans hrow) (by simp)
  · cases s with
    | markSent k => exact Or.inl (modified_change fun _ r _ => sent_change w.now r)
    | markDead k err => exact Or.inl (modified_change fun _ r _ => dead_change err r)
    | reschedule k err d =>
        by_cases hk : key = k
        · subst hk
          cases hrow : w.outbox key with
          | none =>
              left
              simp only [OutboxStmt.write, modify_self, hrow]
              exact .same _
          | some r => exact Or.inr ⟨err, d, r, rfl, rfl, by simp [OutboxStmt.write, hrow]⟩
        · left
          simp only [OutboxStmt.write]
          rw [modify_of_ne hk]
          exact .same _
    | _ => exact hfinal.elim

end Statements

section Commits

variable {cfg : Config} {hold : Lock → World → World → Prop} {w w' : World} {L : List Lock}
  {pid : Nat} {t : Tag} {key : OutboxKey}

theorem Present.change {e e' : Option OutboxEvent} (h : Present e e') : EventChange e e' := by
  obtain ⟨rfl, -⟩ | ⟨rfl, r, rfl, hnew⟩ := h
  · exact .same _
  · exact .created hnew

theorem Confirms.change {p : Nat} {outbox : OutboxKey → Option OutboxEvent} {keys : List OutboxKey}
    (h : Confirms p w outbox keys) : EventChange (w.outbox key) (outbox key) := by
  by_cases hk : key = .payoutConfirm p
  · subst hk
    obtain ⟨hsame, -⟩ | ⟨hnone, -, r, hr, hnew⟩ := h.event
    · rw [hsame]
      exact .same _
    · rw [hnone, hr]
      exact .created hnew
  · rw [h.others key hk]
    exact .same _

/-- The payout event, when it is missing, is inserted. -/
theorem Reschedules.change {p : Nat} {outbox : OutboxKey → Option OutboxEvent}
    (h : Reschedules p w outbox) (hnone : key = .payout p → w.outbox key = none) :
    EventChange (w.outbox key) (outbox key) := by
  by_cases hk : key = .payout p
  · obtain ⟨row, r, -, hr, hscheduled, hfresh⟩ := h.event
    have hnone := hnone hk
    subst hk
    rw [hnone, hr]
    exact .created ⟨hscheduled.status, hfresh hnone⟩
  · rw [h.others key hk]
    exact .same _

theorem DisputeReleased.change {d : Nat} {st : DisputeStatus} {r : Resolution}
    (h : DisputeReleased d st r w w')
    (hnone : ∀ p, (w.disputes d).bind Dispute.payoutId = some p → key = .payout p →
      w.outbox key = none) : EventChange (w.outbox key) (w'.outbox key) := by
  obtain ⟨row, outbox, keys, now, payouts, hrow, -, hpayout, rfl⟩ := h
  obtain ⟨-, -, hsame⟩ | ⟨p, hp, hevent, -⟩ := hpayout
  · change EventChange (w.outbox key) (outbox key)
    rw [hsame]
    exact .same _
  · exact hevent.change fun hk => hnone p (by simp [hrow, hp]) hk

/-- What a commit that claims no batch does to an event. -/
theorem effect_event (h : t.Effect cfg hold pid L w w') (ht : t ≠ .claimOutboxBatch)
    (hreopens : t.reopens key w = false ∨ w.outbox key = none) :
    EventChange (w.outbox key) (w'.outbox key) := by
  have hreleased : ∀ (d : Nat) (p : Nat), (w.disputes d).bind Dispute.payoutId = some p →
      key = .payout p →
      (((w.disputes d).bind Dispute.payoutId).any fun p => decide (key = .payout p)) = true := by
    intro d p hp hk
    simp [hp, hk]
  cases t with
  | leaseJob j i =>
      obtain rfl | ⟨-, e, n, t, w₀, -, -, -, -, -, rfl⟩ := h <;> exact .same _
  | publishBounty b =>
      obtain ⟨-, bounty, accounts, accounts', billing, reservations, jobs, t, -, -, -, -, rfl⟩ := h
      exact .same _
  | setBountyStatus b st =>
      obtain rfl := h
      exact .same _
  | closeBounty b c =>
      obtain ⟨-, res, accounts, billing, w₀, -, -, -, -, -, rfl⟩ := h
      exact .same _
  | createDispute d p =>
      obtain ⟨row, outbox, keys, now, -, -, -, -, hothers, hstop, hpresent, rfl⟩ := h
      change EventChange (w.outbox key) (outbox key)
      by_cases hrefund : key = .disputeAutoRefund d
      · exact hrefund ▸ hpresent.change
      · by_cases hpayout : key = .payout p
        · subst hpayout
          rw [hstop]
          cases w.outbox (.payout p) with
          | none => exact .same _
          | some r => exact stopped_change now r
        · rw [hothers key hpayout hrefund]
          exact .same _
  | cancelDispute d =>
      refine DisputeReleased.change h fun p hp hk => ?_
      obtain hreopens | hnone := hreopens
      · exact absurd (hreleased d p hp hk) (by simpa [Tag.reopens] using hreopens)
      · exact hnone
  | resolveDispute d refund =>
      obtain ⟨rfl, -⟩ | ⟨-, hrefunded⟩ | ⟨rfl, hreleased'⟩ := h
      · exact .same _
      · obtain ⟨row, p, payout, accounts, accounts', billing, submissions, now, -, -, -, -, -, -,
          -, -, -, rfl⟩ := hrefunded
        exact modified_change fun _ r _ => stopped_change now r
      · refine DisputeReleased.change hreleased' fun p hp hk => ?_
        obtain hreopens | hnone := hreopens
        · exact absurd (hreleased d p hp hk) (by simpa [Tag.reopens] using hreopens)
        · exact hnone
  | unblockPayouts i =>
      obtain ⟨ps, outbox, keys, hps, hothers, rfl⟩ := h
      change EventChange (w.outbox key) (outbox key)
      by_cases hk : ∃ p ∈ ps, key = .payout p
      · obtain ⟨p, hp, rfl⟩ := hk
        obtain ⟨row, r, hrow, hwaits, hr, hscheduled, hzero⟩ := hps p hp
        obtain hreopens | hnone := hreopens
        · exact absurd hwaits (by simpa [Tag.reopens, hrow] using hreopens)
        · rw [hnone, hr]
          exact .created ⟨hscheduled.status, hzero⟩
      · push Not at hk
        rw [hothers key hk]
        exact .same _
  | claimOutboxBatch => exact absurd rfl ht
  | broadcast p hash =>
      obtain ⟨fees, address, nonce, outbox, keys, -, -, -, -, hconfirms, rfl⟩ := h
      exact hconfirms.change
  | stripeWebhook e =>
      obtain ⟨accounts, billing, intents, status, -, rfl⟩ := h
      exact .same _

end Commits

section Runs

variable {cfg : Config} {key : OutboxKey} {base : Nat} {a : Actor Request}
  {g : Glob World AttemptNote}

/-- Runner `i` has the attempts it claimed the event with. -/
def Tracks (key : OutboxKey) (batch : List (OutboxKey × Nat)) (i : Nat) (g : Glob World AttemptNote) :
    Prop :=
  ∀ n, (key, n) ∈ batch → Numbered i n (g.world.outbox key)

/-- A rescheduled event has attempts left, if the runner still holds it. -/
def MayReschedule (cfg : Config) (key : OutboxKey) (i : Nat) (w : World) (s : Stmt) : Prop :=
  ∀ err d, s = .outbox (.reschedule key err d) → ∀ r, w.outbox key = some r →
    r.status = .processing → r.lockedBy = some i → r.attempts < cfg.maxAttempts

/-- The plan: the attempts of an event count its claims. -/
def attemptPlan (cfg : Config) (key : OutboxKey) (base : Nat) : Plan (system cfg attemptNotes) :=
  { systemPlan cfg attemptNotes (withinAttempts cfg key) (fun _ => True)
      (fun g => Counted cfg.maxAttempts base (claims key g.hist) (g.world.outbox key))
      (fun _ _ _ => True)
      fun i g g' => ∀ n, Numbered i n (g.world.outbox key) → Numbered i n (g'.world.outbox key) with
    conduct := fun a =>
      { Request.conduct cfg (fun _ _ _ => True) a with
        out := fun g s busy => (Request.conduct cfg (fun _ _ _ => True) a).out g s busy ∧
          MayReschedule cfg key a.pid g.world s
        commit := fun g t L w => (Request.conduct cfg (fun _ _ _ => True) a).commit g t L w ∧
          (t = .claimOutboxBatch → ∃ batch : List (OutboxKey × Nat),
            batchOf (own a.pid g.hist) = batch.map Prod.fst ∧
              Deliveries cfg.outboxLockTimeoutMs a.pid batch g.world w) } }

theorem withinAttempts_stmt {s : OutboxStmt} {r : s.Val}
    (h : withinAttempts cfg key (.event a (.stmt (.outbox s) r)) g = true) :
    s.reopens key = false ∨ g.world.outbox key = none := by
  cases s with
  | reschedule k err d => exact Or.inl rfl
  | _ => simpa [withinAttempts] using h

theorem withinAttempts_commit {t : Tag} (ht : t ≠ .claimOutboxBatch)
    (h : withinAttempts cfg key (.event a (.commit t)) g = true) :
    t.reopens key g.world = false ∨ g.world.outbox key = none := by
  cases t with
  | claimOutboxBatch => exact absurd rfl ht
  | _ => simpa [withinAttempts] using h

theorem Request.reschedules {q : Request} {k : OutboxKey} {err : Err} {d : Nat}
    (h : q.Executes (.outbox (.reschedule k err d))) : q.isRunner = true := by
  cases q with
  | payoutRunner | verificationRunner => rfl
  | release i j n => exact h.elim (fun h => h.elim) fun h => by cases h
  | reapLeases => exact h.elim (fun h => h.elim) fun ⟨_, h⟩ => by cases h
  | payoutAddress i address => exact h.elim (fun h => h.elim) fun ⟨_, h⟩ => by cases h
  | stripeWebhook event => exact h.elim (fun h => h.elim) fun h => h.elim
  | _ => exact h.elim

theorem statusTag_ne_claim {b : Nat} {st : BountyStatus} {r : Option (Bounty × Option Nat)} :
    statusTag b st r ≠ .claimOutboxBatch := by
  rcases r with _ | ⟨bounty, _ | committed⟩ <;> simp [statusTag]

theorem Request.claims_batch {q : Request} (h : q.Ends .claimOutboxBatch) : q.isRunner = true := by
  cases q with
  | payoutRunner | verificationRunner => rfl
  | close o b =>
      obtain ⟨r, hr⟩ := h
      exact absurd hr.symm statusTag_ne_claim
  | createDispute o p s =>
      obtain ⟨d, p, h⟩ := h
      cases h
  | stripeWebhook event =>
      obtain ⟨e, h⟩ := h
      cases h
  | _ => first | exact h.elim | cases h

/-- The batch taken is noted. -/
theorem takeBatch_notes {rows : List (OutboxKey × Nat)} {i t : Nat} {ns : List AttemptNote}
    (hns : batchOf ns = []) :
    ((onlyIf (rows ≠ []) (run (.outbox (.take (rows.map Prod.fst) i t)))).bind fun _ =>
      (.ret (rows.map fun row => (row.1, row.2 + 1)) : Code (List (OutboxKey × Nat)))).Notes
      (system cfg attemptNotes) a (fun batch ns => batchOf ns = batch.map Prod.fst) ns := by
  by_cases hempty : rows = []
  · subst hempty
    exact hns
  · simp only [onlyIf, if_pos (show rows ≠ [] from hempty)]
    refine ⟨fun _ _ _ => ?_, trivial⟩
    change rows.map Prod.fst = (rows.map fun row => (row.1, row.2 + 1)).map Prod.fst
    simp

/-- A claimed batch is what the runner has noted. -/
theorem claimOutboxBatch_notes {topics : List Topic} {i : Nat} :
    (claimOutboxBatch.body cfg topics i).Notes (system cfg attemptNotes) a
      (fun batch ns => batchOf ns = batch.map Prod.fst) [] :=
  notes_perform_bind.mpr fun _ _ _ => notes_perform_bind.mpr fun _ _ _ =>
    notes_perform_bind.mpr fun _ _ _ => takeBatch_notes rfl

/-- The conduct of a runner that has claimed its batch. -/
def delivering (cfg : Config) (key : OutboxKey) (base : Nat) (a : Actor Request) :
    Conduct Stmt Tag World Lock AttemptNote :=
  { (attemptPlan cfg key base).conduct a with
    commit := fun g t L w => t ≠ .claimOutboxBatch ∧
      ((attemptPlan cfg key base).conduct a).commit g t L w }

/-- A runner keeps to the attempts it has claimed the event with, whatever it does after
its claim. -/
theorem tracks_carries (ha : a.req.isRunner = true) (batch : List (OutboxKey × Nat)) :
    Carried (system cfg attemptNotes) (attemptPlan cfg key base).toTerms a
      (delivering cfg key base a) (Tracks key batch a.pid) where
  others g g' _ hdrift _ h n hn := hdrift n (h n hn)
  out g s busy _ hout _ h n hn := by
    obtain ⟨⟨hexec, -⟩, -⟩ := hout
    change Numbered a.pid n ((s.apply busy g.world).outbox key)
    cases s with
    | outbox s =>
        have hreopens : s.reopens key = false := by
          obtain ⟨k, t, c, rfl⟩ | ⟨k, hk⟩ := Request.executes_outbox ha hexec
          · rfl
          · cases s <;> first | rfl | exact absurd hk (by simp [OutboxStmt.completes])
        obtain hchange | ⟨err, d, r, -, -, hnew⟩ := executes_event hexec (Or.inl hreopens)
        · exact hchange.numbered (h n hn)
        · rw [hnew]
          rintro _ ⟨⟩ hprocessing
          exact absurd hprocessing (by simp [OutboxStmt.rescheduled])
    | _ =>
        rw [Stmt.apply_outbox]
        exact h n hn
  inside g s busy v _ _ h n hn := by
    change Numbered a.pid n ((s.effect busy (v g.world) g.world).outbox key)
    rw [Stmt.effect_outbox]
    exact h n hn
  commit g t L v _ hcom h n hn := by
    obtain ⟨ht, ⟨hends, heffect⟩, -⟩ := hcom
    have hreopens : t.reopens key g.world = false := by
      obtain rfl | ⟨p, hash, rfl⟩ | ⟨d, rfl⟩ := Request.ends_runner ha hends <;> rfl
    exact (effect_event heffect ht (Or.inl hreopens)).numbered (h n hn)

variable {σ : Stage World Lock AttemptNote} {topics : List Topic} {known : World → Prop}
  {batch : List (OutboxKey × Nat)} {evt : OutboxKey × Nat}

/-- What a handler relies on and what it may do. -/
theorem delivering_lenient (hserves : a.req.Serves topics) :
    Lenient cfg (attemptPlan cfg key base).toTerms a.pid (delivering cfg key base a)
      fun t => a.req.Ends t ∧ t ≠ .claimOutboxBatch where
  grow _ _ h := h
  read g q busy := ⟨⟨hserves.reads _ trivial, trivial⟩, fun _ _ h => absurd h (by simp)⟩
  nanoid g busy := ⟨⟨hserves.reads _ trivial, trivial⟩, fun _ _ h => absurd h (by simp)⟩
  inside _ _ _ _ h := h
  commit _ _ _ _ ht h := ⟨ht.2, ⟨ht.1, h⟩, fun hclaim => absurd hclaim ht.2⟩

/-- The handler of an event keeps to the attempts. -/
theorem handleEvent_tracks (ha : a.req.isRunner = true) (hserves : a.req.Serves topics)
    (htopic : evt.1.topic ∈ topics) (hσ : σ.Knows (attemptPlan cfg key base).toTerms known)
    (hheld : σ.Entails (attemptPlan cfg key base).toTerms a.pid (Tracks key batch a.pid)) :
    (handleEvent cfg a.pid evt.1).Does (system cfg attemptNotes) (attemptPlan cfg key base).toTerms a
      (delivering cfg key base a)
      (fun _ σ => σ.Knows (attemptPlan cfg key base).toTerms known ∧
        σ.Entails (attemptPlan cfg key base).toTerms a.pid (Tracks key batch a.pid))
      (fun _ σ => σ.Knows (attemptPlan cfg key base).toTerms known ∧
        σ.Entails (attemptPlan cfg key base).toTerms a.pid (Tracks key batch a.pid)) σ := by
  have hkeeps : (handleEvent cfg a.pid evt.1).Keeps (system cfg attemptNotes)
      (attemptPlan cfg key base).toTerms a (delivering cfg key base a) known := by
    refine handleEvent_keeps (delivering_lenient hserves) ?_ ?_ fun g s busy hs hground => ?_
    · intro p hash hkey
      rw [hkey] at htopic
      exact ⟨hserves.broadcasts p hash htopic, by simp⟩
    · intro d hkey
      rw [hkey] at htopic
      exact ⟨hserves.refunds d htopic, by simp⟩
    · refine ⟨⟨hserves.round s ⟨evt.1, htopic, Or.inl hs⟩, hground⟩, ?_⟩
      rintro err d rfl
      obtain ⟨k, t, c, h⟩ := hs.outbox
      exact absurd h (by simp)
  exact (hkeeps σ hσ).carry (tracks_carries ha batch) hheld

/-- The delivery of an event of the batch keeps to the attempts. -/
theorem deliver_tracks (ha : a.req.isRunner = true) (hserves : a.req.Serves topics)
    (hevt : evt ∈ batch) (htopic : evt.1.topic ∈ topics)
    (hσ : σ.Knows (attemptPlan cfg key base).toTerms known)
    (hheld : σ.Entails (attemptPlan cfg key base).toTerms a.pid (Tracks key batch a.pid)) :
    (deliver cfg a.pid evt).Does (system cfg attemptNotes) (attemptPlan cfg key base).toTerms a
      (delivering cfg key base a)
      (fun _ σ => σ.Knows (attemptPlan cfg key base).toTerms known ∧
        σ.Entails (attemptPlan cfg key base).toTerms a.pid (Tracks key batch a.pid))
      (fun _ σ => σ.Knows (attemptPlan cfg key base).toTerms known ∧
        σ.Entails (attemptPlan cfg key base).toTerms a.pid (Tracks key batch a.pid)) σ := by
  have hround : ∀ s : OutboxStmt, FinalDoes evt.1 (.outbox s) → a.req.Executes (.outbox s) :=
    fun s hs => hserves.round _ ⟨evt.1, htopic, Or.inr hs⟩
  have hcarries : Carried (system cfg attemptNotes) (attemptPlan cfg key base).toTerms a
      (delivering cfg key base a) (Tracks key batch a.pid) := tracks_carries ha batch
  have hfailed : ∀ err (σ' : Stage World Lock AttemptNote),
      σ'.Knows (attemptPlan cfg key base).toTerms known ∧
        σ'.Entails (attemptPlan cfg key base).toTerms a.pid (Tracks key batch a.pid) →
      (handlerFailed cfg evt.1 evt.2 err).Does (system cfg attemptNotes)
        (attemptPlan cfg key base).toTerms a (delivering cfg key base a)
        (fun _ σ => σ.Knows (attemptPlan cfg key base).toTerms known ∧
          σ.Entails (attemptPlan cfg key base).toTerms a.pid (Tracks key batch a.pid))
        (fun _ σ => σ.Knows (attemptPlan cfg key base).toTerms known ∧
          σ.Entails (attemptPlan cfg key base).toTerms a.pid (Tracks key batch a.pid)) σ' := by
    rintro err σ' ⟨hσ', hheld'⟩
    by_cases hattempts : cfg.maxAttempts ≤ evt.2
    · simp only [handlerFailed, if_pos hattempts]
      refine hσ'.does_perform hcarries hheld' fun g busy _ _ => ?_
      exact ⟨⟨hround (.markDead evt.1 err) rfl, trivial⟩, fun _ _ h => absurd h (by simp)⟩
    · -- the attempts of the event are those it was claimed with, so there are some left
      simp only [handlerFailed, if_neg hattempts]
      refine hσ'.does_perform hcarries hheld' fun g busy _ htracks => ?_
      refine ⟨⟨hround (.reschedule evt.1 err _) rfl, trivial⟩, ?_⟩
      rintro err' d heq r hrow hprocessing hlocked
      obtain ⟨hkey, -, -⟩ : evt.1 = key ∧ _ := by simpa using heq
      have hevt : (key, evt.2) ∈ batch := hkey ▸ hevt
      rw [htracks evt.2 hevt r hrow hprocessing hlocked]
      exact Nat.lt_of_not_le hattempts
  refine does_orElse.mpr (does_bind.mpr
    ((handleEvent_tracks ha hserves htopic hσ hheld).mono ?_ hfailed
      (fun _ _ _ h => h) (fun _ _ _ _ h => h) fun _ _ _ _ h => h))
  rintro _ σ' ⟨hσ', hheld'⟩
  refine (hσ'.does_perform hcarries hheld' fun g busy _ _ => ?_).mono (fun _ _ h => h) hfailed
    (fun _ _ _ h => h) (fun _ _ _ _ h => h) fun _ _ _ _ h => h
  exact ⟨⟨hround (.markSent evt.1) rfl, trivial⟩, fun _ _ h => absurd h (by simp)⟩

/-- The deliveries of a batch. -/
theorem deliverAll_tracks (ha : a.req.isRunner = true) (hserves : a.req.Serves topics)
    (evts : List (OutboxKey × Nat)) (hevts : ∀ evt ∈ evts, evt ∈ batch ∧ evt.1.topic ∈ topics)
    (hσ : σ.Knows (attemptPlan cfg key base).toTerms known)
    (hheld : σ.Entails (attemptPlan cfg key base).toTerms a.pid (Tracks key batch a.pid)) :
    (forEach (deliver cfg a.pid) evts).Does (system cfg attemptNotes)
      (attemptPlan cfg key base).toTerms a (delivering cfg key base a)
      (fun _ _ => True) (fun _ _ => True) σ := by
  induction evts generalizing σ with
  | nil => trivial
  | cons evt evts ih =>
      obtain ⟨hevt, htopic⟩ := hevts evt (by simp)
      refine does_bind.mpr ((deliver_tracks ha hserves hevt htopic hσ hheld).mono ?_
        (fun _ _ _ => trivial) (fun _ _ _ h => h) (fun _ _ _ _ h => h) fun _ _ _ _ h => h)
      rintro _ σ' ⟨hσ', hheld'⟩
      exact ih (fun evt' hevt' => hevts evt' (by simp [hevt'])) hσ' hheld'

/-- **A round of a runner** counts what it claims, and reschedules an event it holds only
with attempts left. -/
theorem runOutboxLoop_tracks (ha : a.req.isRunner = true) (hserves : a.req.Serves topics) :
    (runOutboxLoop cfg topics a.pid).Does (system cfg attemptNotes)
      (attemptPlan cfg key base).toTerms a ((attemptPlan cfg key base).conduct a)
      (fun _ _ => True) (fun _ _ => True) .start := by
  have hstart : (Stage.start : Stage World Lock AttemptNote).Knows
      (attemptPlan cfg key base).toTerms fun _ => True := ⟨⟨rfl, rfl⟩, fun _ _ _ => trivial⟩
  have hclaim := Prog.Body.does_noted (a := a) (D := (attemptPlan cfg key base).conduct a)
    (fun _ => Tag.claimOutboxBatch) (Batch topics fun _ => True)
    (fun batch ns => batchOf ns = batch.map Prod.fst)
    (fun batch (_ : List Lock) w w' => Deliveries cfg.outboxLockTimeoutMs a.pid batch w w')
    (claimOutboxBatch_body fun _ _ h => h) claimOutboxBatch_notes hstart (fun _ _ _ _ h => h)
    fun g batch L w _ hnotes hdeliveries =>
      ⟨⟨hserves.claims, hdeliveries.batched⟩, fun _ => ⟨batch, hnotes, hdeliveries⟩⟩
  refine does_bind.mpr (hclaim.mono ?_ (fun _ _ _ => trivial) (fun _ _ _ h => h)
    (fun _ _ _ _ h => h) fun _ _ _ _ h => h)
  rintro batch σ ⟨hσ, hbatch, g, v, -, -, hdeliveries, hfollows⟩
  have htracks : Tracks key batch a.pid ((system cfg attemptNotes).afterCommit a
      .claimOutboxBatch (some v) g) := by
    intro n hn r hrow _ _
    obtain ⟨e, he, -, -, hattempts⟩ := hdeliveries.taken (key, n) hn
    obtain rfl : r = e := Option.some.inj (hrow.symm.trans he)
    exact hattempts
  refine (deliverAll_tracks ha hserves batch (fun evt hevt => ⟨hevt, hbatch.topic evt hevt⟩) hσ
    (hfollows.entails (tracks_carries ha batch) htracks)).mono (fun _ _ h => h) (fun _ _ h => h)
    (fun _ _ _ h => h) (fun _ _ _ _ h => h) fun _ _ _ _ h => h.2

/-- What every request does. -/
theorem code_counts (i : Nat) (q : Request) :
    (q.code cfg i).Does (system cfg attemptNotes) (attemptPlan cfg key base).toTerms ⟨i, q⟩
      ((attemptPlan cfg key base).conduct ⟨i, q⟩) (fun _ _ => True) (fun _ _ => True) .start := by
  by_cases hq : q.isRunner = true
  · obtain ⟨topics, hserves⟩ := Request.serves hq
    rw [hserves.code]
    exact does_bind.mpr ((runOutboxLoop_tracks (a := ⟨i, q⟩) hq hserves).mono
      (fun _ _ _ => trivial) (fun _ _ h => h) (fun _ _ _ h => h) (fun _ _ _ _ h => h)
      fun _ _ _ _ h => h)
  · -- only runners claim batches and reschedule events
    have hD : Lenient cfg (attemptPlan cfg key base).toTerms i
        ((attemptPlan cfg key base).conduct ⟨i, q⟩) q.Ends :=
      { grow := fun _ _ h => h
        read := fun _ _ _ => ⟨⟨q.executes_reads trivial, trivial⟩, fun _ _ h => absurd h (by simp)⟩
        nanoid := fun _ _ => ⟨⟨q.executes_reads trivial, trivial⟩, fun _ _ h => absurd h (by simp)⟩
        inside := fun _ _ _ _ h => h
        commit := fun _ _ _ _ ht h => ⟨⟨ht, h⟩, fun hclaim =>
          absurd (Request.claims_batch (hclaim ▸ ht)) hq⟩ }
    have hkeeps : (q.code cfg i).Keeps (system cfg attemptNotes) _ ⟨i, q⟩ _ fun _ => True :=
      Request.code_keeps hD fun g s busy hs hground => ⟨⟨hs, hground⟩, by
        rintro err d rfl
        exact absurd (Request.reschedules hs) hq⟩
    exact (hkeeps .start ⟨⟨rfl, rfl⟩, fun _ _ _ => trivial⟩).mono (fun _ _ _ => trivial)
      (fun _ _ _ => trivial) (fun _ _ _ h => h) (fun _ _ _ _ h => h) fun _ _ _ _ h => h

/-- A statement outside transactions keeps the count. -/
theorem Counted.stmt {s : Stmt} {busy : Lock → Bool} {n : Nat} {r : s.Val}
    (h : Counted cfg.maxAttempts base n (g.world.outbox key)) (hexec : a.req.Executes s)
    (hmay : MayReschedule cfg key a.pid g.world s)
    (hok : withinAttempts cfg key (.event a (.stmt s r)) g = true) :
    Counted cfg.maxAttempts base n ((s.apply busy g.world).outbox key) := by
  have hmax : 0 < cfg.maxAttempts := Nat.lt_of_lt_of_le Nat.zero_lt_one (Nat.le_max_left 1 _)
  cases s with
  | outbox s =>
      obtain hchange | ⟨err, d, e, rfl, hrow, hnew⟩ := executes_event hexec (withinAttempts_stmt hok)
      · exact hchange.counted hmax h
      · rw [hnew]
        rw [hrow] at h
        refine h.again
          (show (OutboxStmt.rescheduled err (g.world.now + d) e).attempts = e.attempts from rfl) ?_
        simp only [withinAttempts, hrow, Option.all_some, decide_true, Bool.not_true,
          Bool.false_or, Bool.or_eq_true, decide_eq_true_eq] at hok
        obtain ⟨hprocessing, hlocked⟩ | hless := hok
        · exact hmay err d rfl e hrow hprocessing hlocked
        · exact hless
  | _ =>
      rw [Stmt.apply_outbox]
      exact h

/-- The batch a runner has noted is claimed by its commit. -/
theorem claims_claim (v : World → World) :
    claims key ((system cfg attemptNotes).afterCommit a .claimOutboxBatch (some v) g).hist =
      claims key g.hist + if key ∈ batchOf (own a.pid g.hist) then 1 else 0 := by
  simp [Machine.afterCommit, Machine.entries, system, attemptNotes, claims]

/-- Other commits claim nothing. -/
theorem claims_commit {t : Tag} (ht : t ≠ .claimOutboxBatch) (v : World → World) :
    claims key ((system cfg attemptNotes).afterCommit a t (some v) g).hist = claims key g.hist := by
  cases t with
  | claimOutboxBatch => exact absurd rfl ht
  | _ => simp [Machine.afterCommit, Machine.entries, system, attemptNotes]

/-- A statement is no claim. -/
theorem claims_stmt (s : Stmt) (busy : Lock → Bool) (view : Option (World → World)) :
    claims key ((system cfg attemptNotes).afterStmt a s busy view g).hist = claims key g.hist := by
  cases s with
  | outbox s =>
      cases s <;> simp [Machine.afterStmt, Machine.entries, system, attemptNotes, claims]
  | _ => simp [Machine.afterStmt, Machine.entries, system, attemptNotes]

/-- A commit keeps the count. -/
theorem Counted.commit {hold : Lock → World → World → Prop} {L : List Lock} {t : Tag}
    {v : World → World} (h : Counted cfg.maxAttempts base (claims key g.hist) (g.world.outbox key))
    (heffect : t.Effect cfg hold a.pid L g.world (v g.world))
    (hclaim : t = .claimOutboxBatch → ∃ batch : List (OutboxKey × Nat),
      batchOf (own a.pid g.hist) = batch.map Prod.fst ∧
        Deliveries cfg.outboxLockTimeoutMs a.pid batch g.world (v g.world))
    (hok : withinAttempts cfg key (.event a (.commit t)) g = true) :
    Counted cfg.maxAttempts base
      (claims key ((system cfg attemptNotes).afterCommit a t (some v) g).hist)
      ((v g.world).outbox key) := by
  have hmax : 0 < cfg.maxAttempts := Nat.lt_of_lt_of_le Nat.zero_lt_one (Nat.le_max_left 1 _)
  by_cases ht : t = .claimOutboxBatch
  · obtain ⟨batch, hbatch, hdeliveries⟩ := hclaim ht
    subst ht
    rw [claims_claim, hbatch]
    exact h.takenIn (hdeliveries.events key) fun r hr hstale => by
      simpa [withinAttempts, hr, hstale] using hok
  · rw [claims_commit ht]
    exact (effect_event heffect ht (withinAttempts_commit ht hok)).counted hmax h

theorem attemptPlan_valid (cfg : Config) (key : OutboxKey) (base : Nat) :
    (attemptPlan cfg key base).Valid where
  grow_trans _ _ _ := World.Grows.trans
  grow_refl := World.Grows.refl
  hold_trans _ _ _ _ _ _ := trivial
  drift_refl _ _ _ h := h
  drift_trans _ _ _ _ h h' n hn := h' n (h n hn)
  spawn _ _ _ := trivial
  does i q _ := (code_counts i q).mono (fun _ _ _ _ _ _ => trivial) (fun _ _ h => h)
    (fun _ _ _ h => h) (fun _ _ _ _ h => h) fun _ _ _ _ h => h
  inv_step := by
    rintro l L g g' ⟨hinv, hok, hstep⟩
    have hinv : Counted cfg.maxAttempts base (claims key g.hist) (g.world.outbox key) := hinv
    cases hstep with
    | stmt a s busy _ _ _ hout =>
        change Counted _ _ (claims key _) ((s.apply busy g.world).outbox key)
        rw [claims_stmt]
        exact hinv.stmt hout.1.1 hout.2 hok
    | inner a s busy v _ _ _ =>
        change Counted _ _ (claims key _) ((s.effect busy (v g.world) g.world).outbox key)
        rw [claims_stmt, Stmt.effect_outbox]
        exact hinv
    | commit a t L v _ _ hcom => exact hinv.commit hcom.1.2 hcom.2 hok
    | reply a x _ _ => exact hinv
    | env e _ => cases e <;> exact hinv
  grow_step _ _ _ _ h := Conducted.grows
    (fun a g t L w
      (hcom : (a.req.Ends t ∧ t.Effect cfg (fun _ _ _ => True) a.pid L g.world w) ∧ _) =>
      hcom.1.2.grows) h.conducted
  hold_step _ _ _ _ _ _ _ := trivial
  drift_step := by
    rintro l L g g' ⟨-, hok, hstep⟩ i hactor n hn
    cases hstep with
    | stmt a s busy _ _ _ hout =>
        change Numbered i n ((s.apply busy g.world).outbox key)
        cases s with
        | outbox s =>
            obtain hchange | ⟨err, d, r, -, -, hnew⟩ :=
              executes_event hout.1.1 (withinAttempts_stmt hok)
            · exact hchange.numbered hn
            · rw [hnew]
              rintro _ ⟨⟩ hprocessing
              exact absurd hprocessing (by simp [OutboxStmt.rescheduled])
        | _ =>
            rw [Stmt.apply_outbox]
            exact hn
    | inner a s busy v _ _ _ =>
        change Numbered i n ((s.effect busy (v g.world) g.world).outbox key)
        rwa [Stmt.effect_outbox]
    | commit a t L v _ _ hcom =>
        change Numbered i n ((v g.world).outbox key)
        by_cases ht : t = .claimOutboxBatch
        · obtain ⟨batch, -, hdeliveries⟩ := hcom.2 ht
          exact hn.takenIn (hdeliveries.events key) (hactor a rfl)
        · exact (effect_event hcom.1.2 ht (withinAttempts_commit ht hok)).numbered hn
    | reply a x _ _ => exact hn
    | env e _ => cases e <;> exact hn

end Runs

/-- At the start the attempts of the event are within the limit, and it is pending only
with attempts left. -/
def OpensWithin (cfg : Config) (key : OutboxKey) (w : World) : Prop :=
  ∀ e, w.outbox key = some e →
    e.attempts ≤ cfg.maxAttempts ∧ (e.status = .pending → e.attempts < cfg.maxAttempts)

theorem payoutWorld_opensWithin : OpensWithin Config.default (.payout 1) payoutWorld := by
  intro e he
  obtain rfl : OutboxEvent.fresh 0 0 = e := by simpa [payoutWorld] using he
  exact ⟨by decide, fun _ => by decide⟩

/-- Only runners run. -/
def onlyRunners : Step → Glob World AttemptNote → Bool
  | .spawn q, _ => q.isRunner
  | _, _ => true

/-- Runner `i` claims the event, and its handler kills it; the lock times out. -/
def crashingRound (i : Nat) : List Pick :=
  .spawn .payoutRunner :: @List.replicate Pick 7 (.run i) ++
    ([.crash i, .env (.tick 600001)] : List Pick)

end OpenUnion
