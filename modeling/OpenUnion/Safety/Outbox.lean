import OpenUnion.Safety.Basic

/-!
# Who may change the status of an outbox event

A runner claims a batch of events and marks each sent, rescheduled or dead when
its handler is done.  The completion updates name the event only, not the runner
that claimed it, so they are right only as long as nobody has taken the event
over in between.  Who could have is noted: a runner that claims a batch while the
lock is older than the timeout, and a dispute resolution that stops the event.

* `claimed_event_held`: until one of the two happens, the event stays locked by
  the runner that claimed it.
* `only_holder_changes_status`: so as long as every completion update comes before
  both, a step that changes the status of an event is a claim, a dispute
  resolution, or a completion update of the runner that holds the lock.
* `stale_runner_marks_sent`: a run in which a completion update comes too late.
-/

namespace OpenUnion

open Interleave

/-- The rounds of the outbox runners. -/
def Request.isRunner : Request → Bool
  | .payoutRunner | .verificationRunner => true
  | _ => false

/-- What can take an event away from the runner that has claimed it. -/
inductive Takeover where
  /-- A runner claims a batch and finds these locks older than the timeout. -/
  | claimed (stale : List OutboxKey)
  /-- A dispute resolution stops the event. -/
  | stopped (key : OutboxKey)

/-- The takeovers of a commit. -/
def takeovers (cfg : Config) (_ : Actor Request) (x : Happening) (w : World) : List Takeover :=
  match x with
  | .commit .claimOutboxBatch => [.claimed (OutboxStmt.stale w.now cfg.outboxLockTimeoutMs w)]
  | .commit (.resolveDispute d _) =>
      match (w.disputes d).bind Dispute.payoutId with
      | some p => [.stopped (.payout p)]
      | none => []
  | _ => []

/-- Since runner `pid` claimed its last batch nothing has taken the event from it. -/
def untouched (pid : Nat) (key : OutboxKey) : List (Nat × Takeover) → Bool
  | [] => false
  | (i, .claimed stale) :: earlier =>
      decide (i = pid) || (!decide (key ∈ stale) && untouched pid key earlier)
  | (_, .stopped k) :: earlier => !decide (k = key) && untouched pid key earlier

/-- The event a completion update is about. -/
def OutboxStmt.completes : OutboxStmt → Option OutboxKey
  | .markSent k | .reschedule k _ _ | .markDead k _ => some k
  | _ => none

/-- Only runners run, and each completes only events that nothing has taken from it. -/
def completesUntouched : Step → Glob World Takeover → Bool
  | .spawn q, _ => q.isRunner
  | .event a (.stmt (.outbox s) _), g => s.completes.all fun k => untouched a.pid k g.hist
  | _, _ => true

/-- The event is being processed by runner `pid`. -/
def Locked (pid : Nat) (key : OutboxKey) (w : World) : Prop :=
  ∃ e, w.outbox key = some e ∧ e.status = .processing ∧ e.lockedBy = some pid

/-- Unless something has taken the event from it, runner `pid` holds its lock. -/
def Held (pid : Nat) (key : OutboxKey) (g : Glob World Takeover) : Prop :=
  untouched pid key g.hist = true → Locked pid key g.world

/-- The events of the table are listed once each. -/
structure OutboxIndexed (w : World) : Prop where
  nodup : w.outboxKeys.Nodup
  listed : ∀ k, k ∈ w.outboxKeys ↔ ∃ e, w.outbox k = some e

section Statements

variable {w : World} {busy : Lock → Bool} {k : OutboxKey} {e : OutboxEvent}

/-- Handlers only add events. -/
theorem HandlerDoes.outbox {key : OutboxKey} {s : OutboxStmt} (h : HandlerDoes key (.outbox s)) :
    ∃ k t c, s = .insertOrIgnore k t c := by
  cases key with
  | payout p => exact h.elim
  | payoutConfirm p => exact h.elim
  | disputeAutoRefund d => exact h.elim
  | verification i n =>
      obtain h | ⟨body, -, -, h⟩ := h
      · exact h.elim
      · cases s with
        | insertOrIgnore k t c => exact ⟨k, t, c, rfl⟩
        | _ => exact h.elim

theorem FinalDoes.completes {key : OutboxKey} {s : OutboxStmt} (h : FinalDoes key (.outbox s)) :
    s.completes = some key := by
  cases s <;> first | exact congrArg some h | exact h.elim

theorem Request.executes_outbox {q : Request} {s : OutboxStmt} (hq : q.isRunner = true)
    (h : q.Executes (.outbox s)) :
    (∃ k t c, s = .insertOrIgnore k t c) ∨ ∃ k, s.completes = some k := by
  have hround : ∀ topics, RoundDoes topics (.outbox s) →
      (∃ k t c, s = .insertOrIgnore k t c) ∨ ∃ k, s.completes = some k := by
    rintro topics ⟨key, -, hhandler | hfinal⟩
    · exact Or.inl hhandler.outbox
    · exact Or.inr ⟨key, hfinal.completes⟩
  cases q with
  | payoutRunner => exact h.elim (fun h => h.elim) (hround _)
  | verificationRunner => exact h.elim (fun h => h.elim) (hround _)
  | _ => simp [Request.isRunner] at hq

theorem insertOrIgnore_keeps (t c : Nat) {key : OutboxKey} (hrow : w.outbox k = some e) :
    OutboxStmt.write (.insertOrIgnore key t c) busy w w.outbox k = some e := by
  simp only [OutboxStmt.write]
  split_ifs with hfree
  · have hne : k ≠ key := by
      rintro rfl
      simp [hrow] at hfree
    simpa [hne] using hrow
  · exact hrow

/-- A completion update rewrites its event. -/
theorem OutboxStmt.completes_rewrites (busy : Lock → Bool) {s : OutboxStmt} {key : OutboxKey}
    (h : s.completes = some key) :
    (∃ f, s.write busy w w.outbox = modify w.outbox key f) ∧
      s.writeKeys w w.outboxKeys = w.outboxKeys := by
  cases s with
  | markSent k | reschedule k error delay | markDead k error =>
      obtain rfl : k = key := Option.some.inj h
      exact ⟨⟨_, rfl⟩, rfl⟩
  | _ => exact absurd h (by simp [OutboxStmt.completes])

/-- A statement of a runner keeps every event it does not complete. -/
theorem runner_stmt_keeps (busy : Lock → Bool) {q : Request} {s : Stmt} (hq : q.isRunner = true) (h : q.Executes s)
    (hrow : w.outbox k = some e) (hs : ∀ o, s = .outbox o → o.completes ≠ some k) :
    (s.apply busy w).outbox k = some e := by
  rw [Stmt.apply_outbox]
  cases s with
  | outbox s =>
      obtain ⟨key, t, c, rfl⟩ | ⟨key, hkey⟩ := Request.executes_outbox hq h
      · exact insertOrIgnore_keeps t c hrow
      · obtain ⟨⟨f, hwrite⟩, -⟩ := OutboxStmt.completes_rewrites busy (w := w) hkey
        have hne : k ≠ key := by
          rintro rfl
          exact hs s rfl hkey
        simpa [hwrite, hne] using hrow
  | _ => exact hrow

/-- Events are rewritten. -/
theorem OutboxIndexed.rewrite {w' : World} (h : OutboxIndexed w)
    (hrows : ∀ k, (w'.outbox k).isSome = (w.outbox k).isSome) (hkeys : w'.outboxKeys = w.outboxKeys) :
    OutboxIndexed w' where
  nodup := hkeys ▸ h.nodup
  listed k := by
    rw [hkeys, h.listed k, ← Option.isSome_iff_exists, ← Option.isSome_iff_exists, hrows k]

/-- An event is added. -/
theorem OutboxIndexed.add {w' : World} (h : OutboxIndexed w) (hfree : w.outbox k = none)
    (hnew : w'.outbox k = some e) (hrows : ∀ k', k' ≠ k → w'.outbox k' = w.outbox k')
    (hkeys : w'.outboxKeys = w.outboxKeys ++ [k]) : OutboxIndexed w' where
  nodup := by
    have hk : k ∉ w.outboxKeys := by
      rw [h.listed k, hfree]
      simp
    rw [hkeys]
    exact List.nodup_append.mpr ⟨h.nodup, List.nodup_singleton k, by
      rintro x hx y hy rfl
      exact hk (List.mem_singleton.mp hy ▸ hx)⟩
  listed k' := by
    rw [hkeys, List.mem_append, List.mem_singleton, h.listed k']
    by_cases hk : k' = k
    · subst hk
      simp [hnew]
    · simp [hk, hrows k' hk]

/-- A statement of a runner keeps the list of events. -/
theorem OutboxIndexed.stmt {q : Request} {s : Stmt} (h : OutboxIndexed w) (hq : q.isRunner = true)
    (hs : q.Executes s) : OutboxIndexed (s.apply busy w) := by
  have houtbox := s.apply_outbox busy w
  have hkeys := s.apply_outboxKeys busy w
  cases s with
  | outbox s =>
      obtain ⟨key, t, c, rfl⟩ | ⟨key, hkey⟩ := Request.executes_outbox hq hs
      · by_cases hfree : w.outbox key = none
        · refine h.add (e := .fresh t c) hfree ?_ (fun k' hk' => ?_) ?_
          · simp [houtbox, OutboxStmt.write, hfree]
          · simp [houtbox, OutboxStmt.write, hfree, hk']
          · simp [hkeys, OutboxStmt.writeKeys, hfree]
        · have hsome : (w.outbox key).isNone = false := by
            simpa [Option.isNone_eq_false_iff, Option.isSome_iff_ne_none] using hfree
          refine h.rewrite (fun k' => ?_) ?_
          · simp [houtbox, OutboxStmt.write, hsome]
          · simp [hkeys, OutboxStmt.writeKeys, hsome]
      · obtain ⟨⟨f, hwrite⟩, hsame⟩ := OutboxStmt.completes_rewrites busy (w := w) hkey
        refine h.rewrite (fun k' => ?_) (hkeys.trans hsame)
        change ((Stmt.outbox s).apply busy w).outbox = s.write busy w w.outbox at houtbox
        rw [houtbox, hwrite]
        by_cases hk : k' = key
        · simp [hk]
        · rw [modify_of_ne hk]
  | _ => exact h.rewrite (fun k' => by rw [houtbox]) hkeys

end Statements

section Commits

variable {cfg : Config} {hold : Lock → World → World → Prop} {w w' : World} {L : List Lock}
  {pid : Nat} {t : Tag} {k : OutboxKey} {e : OutboxEvent}

/-- The transactions of the runners. -/
theorem Request.ends_runner {q : Request} (hq : q.isRunner = true) (h : q.Ends t) :
    t = .claimOutboxBatch ∨ (∃ p hash, t = .broadcast p hash) ∨ ∃ d, t = .resolveDispute d true := by
  cases q with
  | payoutRunner => exact h
  | verificationRunner => exact Or.inl h
  | _ => simp [Request.isRunner] at hq

theorem OutboxStmt.isStale_mono {now now' timeout : Nat} (hnow : now ≤ now')
    (h : OutboxStmt.isStale now timeout e = true) : OutboxStmt.isStale now' timeout e = true := by
  simp only [OutboxStmt.isStale, Bool.and_eq_true, decide_eq_true_eq] at h ⊢
  refine ⟨h.1, ?_⟩
  obtain ⟨t, ht, hlt⟩ := (Option.any_eq_true _ _).mp h.2
  rw [decide_eq_true_eq] at hlt
  rw [ht, Option.any_some, decide_eq_true_eq]
  omega

/-- A claim rewrites pending events and events with a stale lock. -/
theorem Taken.changes {timeout now : Nat} {e' : Option OutboxEvent}
    (h : Taken timeout pid now (some e) e') :
    e' = some e ∨ OutboxStmt.isStale now timeout e = true ∨
      (e.status = .pending ∧ ∃ t, e' = some (OutboxStmt.taken pid t e)) := by
  obtain hsame | ⟨r, t, hr, ht, ⟨hstale, -⟩ | ⟨-, hstatus, hnew⟩⟩ := h
  · exact Or.inl hsame
  · obtain rfl := Option.some.inj hr
    exact Or.inr (Or.inl (OutboxStmt.isStale_mono ht hstale))
  · obtain rfl := Option.some.inj hr
    obtain hpending | hstale := hstatus
    · exact Or.inr (Or.inr ⟨hpending, t, hnew⟩)
    · exact Or.inr (Or.inl (OutboxStmt.isStale_mono ht hstale))

/-- The event is one a dispute resolution stops. -/
def StoppedBy (d : Nat) (key : OutboxKey) (w : World) : Prop :=
  ∃ row p, w.disputes d = some row ∧ row.payoutId = some p ∧ key = .payout p

/-- What a commit of a runner does to an event. -/
theorem runner_commit_event (ht : t = .claimOutboxBatch ∨ (∃ p hash, t = .broadcast p hash) ∨
      ∃ d, t = .resolveDispute d true) (h : t.Effect cfg hold pid L w w')
    (hrow : w.outbox k = some e) :
    w'.outbox k = some e ∨
      (t = .claimOutboxBatch ∧ Taken cfg.outboxLockTimeoutMs pid w.now (some e) (w'.outbox k)) ∨
      ∃ d, t = .resolveDispute d true ∧ StoppedBy d k w := by
  obtain rfl | ⟨p, hash, rfl⟩ | ⟨d, rfl⟩ := ht
  · obtain ⟨outbox, htaken, rfl⟩ := h
    exact Or.inr (Or.inl ⟨rfl, hrow ▸ htaken k⟩)
  · obtain ⟨fees, address, nonce, outbox, keys, -, -, -, -, hconfirms, rfl⟩ := h
    left
    by_cases hk : k = .payoutConfirm p
    · subst hk
      obtain ⟨hsame, -, -⟩ | ⟨hnone, -⟩ := hconfirms.event
      · exact hsame.trans hrow
      · exact absurd (hnone.symm.trans hrow) (by simp)
    · exact (hconfirms.others k hk).trans hrow
  · obtain ⟨rfl, -⟩ | ⟨-, hrefunded⟩ | ⟨hfalse, -⟩ := h
    · exact Or.inl hrow
    · obtain ⟨row, p, payout, accounts, accounts', billing, submissions, now, hdispute, -, hp, -, -,
        -, -, -, -, rfl⟩ := hrefunded
      by_cases hk : k = .payout p
      · exact Or.inr (Or.inr ⟨d, rfl, row, p, hdispute, hp, hk⟩)
      · left
        change modify w.outbox (.payout p) (OutboxStmt.stopped now) k = some e
        rw [modify_of_ne hk, hrow]
    · exact absurd hfalse (by simp)

/-- A commit of a runner keeps the list of events. -/
theorem OutboxIndexed.commit (hindexed : OutboxIndexed w)
    (ht : t = .claimOutboxBatch ∨ (∃ p hash, t = .broadcast p hash) ∨
      ∃ d, t = .resolveDispute d true) (h : t.Effect cfg hold pid L w w') : OutboxIndexed w' := by
  obtain rfl | ⟨p, hash, rfl⟩ | ⟨d, rfl⟩ := ht
  · obtain ⟨outbox, htaken, rfl⟩ := h
    refine hindexed.rewrite (fun k => ?_) rfl
    change (outbox k).isSome = (w.outbox k).isSome
    obtain hsame | ⟨r, t, hr, -, ⟨-, hnew⟩ | ⟨-, -, hnew⟩⟩ := htaken k
    · rw [hsame]
    · rw [hnew, hr, Option.isSome_some, Option.isSome_some]
    · rw [hnew, hr, Option.isSome_some, Option.isSome_some]
  · obtain ⟨fees, address, nonce, outbox, keys, -, -, -, -, hconfirms, rfl⟩ := h
    obtain ⟨hsame, -, hkeys⟩ | ⟨hnone, hkeys, e, he, -⟩ := hconfirms.event
    · refine hindexed.rewrite (fun k => ?_) hkeys
      change (outbox k).isSome = (w.outbox k).isSome
      by_cases hk : k = .payoutConfirm p
      · rw [hk, hsame]
      · rw [hconfirms.others k hk]
    · exact hindexed.add hnone he hconfirms.others hkeys
  · obtain ⟨rfl, -⟩ | ⟨-, hrefunded⟩ | ⟨hfalse, -⟩ := h
    · exact hindexed
    · obtain ⟨row, p, payout, accounts, accounts', billing, submissions, now, -, -, -, -, -,
        -, -, -, -, rfl⟩ := hrefunded
      refine hindexed.rewrite (fun k => ?_) rfl
      change (modify w.outbox (.payout p) (OutboxStmt.stopped now) k).isSome = _
      by_cases hk : k = .payout p
      · simp [hk]
      · rw [modify_of_ne hk]
    · exact absurd hfalse (by simp)

end Commits

section Ownership

variable {cfg : Config} {hold : Lock → World → World → Prop} {L : List Lock}
  {g : Glob World Takeover} {i : Nat} {k : OutboxKey}

/-- What is noted at a commit of a runner. -/
theorem Held.commit {a : Actor Request} {t : Tag} {v : World → World} (h : Held i k g)
    (hindexed : OutboxIndexed g.world) (ha : a.req.isRunner = true) (hends : a.req.Ends t)
    (heffect : t.Effect cfg hold a.pid L g.world (v g.world))
    (hother : t = .claimOutboxBatch → a.pid ≠ i) :
    Held i k ((system cfg (takeovers cfg)).afterCommit a t (some v) g) := by
  intro huntouched
  have hearlier : untouched i k g.hist = true ∧
      (t = .claimOutboxBatch → k ∉ OutboxStmt.stale g.world.now cfg.outboxLockTimeoutMs g.world) ∧
      ∀ d, t = .resolveDispute d true → ¬ StoppedBy d k g.world := by
    change untouched i k (((system cfg (takeovers cfg)).entries a (.commit t) g.world) ++ g.hist) =
      true at huntouched
    obtain rfl | ⟨p, hash, rfl⟩ | ⟨d, rfl⟩ := Request.ends_runner ha hends
    · simp only [Machine.entries, system, takeovers, List.map_cons, List.map_nil, List.cons_append,
        List.nil_append, untouched, Bool.or_eq_true, Bool.and_eq_true, decide_eq_true_eq,
        Bool.not_eq_true', decide_eq_false_iff_not, hother rfl, false_or] at huntouched
      exact ⟨huntouched.2, fun _ => huntouched.1, fun d h => absurd h (by simp)⟩
    · exact ⟨huntouched, fun h => absurd h (by simp), fun d h => absurd h (by simp)⟩
    · cases hpayout : (g.world.disputes d).bind Dispute.payoutId with
      | none =>
          simp only [Machine.entries, system, takeovers, hpayout, List.map_nil,
            List.nil_append] at huntouched
          refine ⟨huntouched, fun h => absurd h (by simp), fun d' hd' => ?_⟩
          rintro ⟨row, p, hrow, hp, -⟩
          obtain rfl : d = d' := by simpa using hd'
          simp [hrow, hp] at hpayout
      | some p =>
          simp only [Machine.entries, system, takeovers, hpayout, List.map_cons, List.map_nil,
            List.cons_append, List.nil_append, untouched, Bool.and_eq_true, Bool.not_eq_true',
            decide_eq_false_iff_not] at huntouched
          refine ⟨huntouched.2, fun h => absurd h (by simp), fun d' hd' => ?_⟩
          rintro ⟨row, p', hrow, hp', hk⟩
          obtain rfl : d = d' := by simpa using hd'
          obtain rfl : p' = p := by simpa [hrow, hp'] using hpayout
          exact huntouched.1 hk.symm
  obtain ⟨hbefore, hstale, hstopped⟩ := hearlier
  obtain ⟨e, hrow, hstatus, hlocked⟩ := h hbefore
  refine ⟨e, ?_, hstatus, hlocked⟩
  change (v g.world).outbox k = some e
  obtain hsame | ⟨rfl, htaken⟩ | ⟨d, rfl, hstop⟩ :=
    runner_commit_event (Request.ends_runner ha hends) heffect hrow
  · exact hsame
  · obtain hsame | hisStale | ⟨hpending, -⟩ := htaken.changes
    · exact hsame
    · refine absurd ?_ (hstale rfl)
      exact List.mem_filter.mpr ⟨(hindexed.listed k).mpr ⟨e, hrow⟩, by simpa [hrow] using hisStale⟩
    · exact absurd (hpending.symm.trans hstatus) (by simp)
  · exact absurd hstop (hstopped d rfl)

/-- A statement of a runner that completes another event. -/
theorem Held.stmt {a : Actor Request} {s : Stmt} {busy : Lock → Bool} (h : Held i k g)
    (ha : a.req.isRunner = true) (hs : a.req.Executes s)
    (hother : ∀ o, s = .outbox o → o.completes ≠ some k) :
    Held i k ((system cfg (takeovers cfg)).afterStmt a s busy none g) := by
  intro huntouched
  obtain ⟨e, hrow, hstatus, hlocked⟩ := h huntouched
  exact ⟨e, runner_stmt_keeps _ ha hs hrow hother, hstatus, hlocked⟩

theorem Held.inner {a : Actor Request} {s : Stmt} {busy : Lock → Bool} {v : World → World}
    (h : Held i k g) : Held i k ((system cfg (takeovers cfg)).afterStmt a s busy (some v) g) := by
  intro huntouched
  obtain ⟨e, hrow, hstatus, hlocked⟩ := h huntouched
  refine ⟨e, ?_, hstatus, hlocked⟩
  change (s.effect busy (v g.world) g.world).outbox k = some e
  rwa [Stmt.effect_outbox]

end Ownership

/-- The plan: a runner completes the events it holds. -/
def outboxPlan (cfg : Config) : Plan (system cfg (takeovers cfg)) :=
  { systemPlan cfg (takeovers cfg) completesUntouched (fun q => q.isRunner = true)
      (fun g => OutboxIndexed g.world) (fun _ _ _ => True)
      fun i g g' => ∀ k, Held i k g → Held i k g' with
    conduct := fun a =>
      { Request.conduct cfg (fun _ _ _ => True) a with
        out := fun g s busy => (Request.conduct cfg (fun _ _ _ => True) a).out g s busy ∧
          ∀ o k, s = .outbox o → o.completes = some k → Held a.pid k g } }

/-- A runner and the topics it serves. -/
structure Request.Serves (q : Request) (topics : List Topic) : Prop where
  code : ∀ cfg pid, q.code cfg pid = (runOutboxLoop cfg topics pid).bind fun _ => .ret .roundDone
  reads : ∀ s, Reads s → q.Executes s
  round : ∀ s, RoundDoes topics s → q.Executes s
  claims : q.Ends .claimOutboxBatch
  broadcasts : ∀ p hash, .payoutRequested ∈ topics → q.Ends (.broadcast p hash)
  refunds : ∀ d, .disputeAutoRefundRequested ∈ topics → q.Ends (.resolveDispute d true)

theorem Request.serves {q : Request} (hq : q.isRunner = true) : ∃ topics, q.Serves topics := by
  cases q with
  | payoutRunner =>
      exact ⟨payoutTopics, fun _ _ => rfl, fun _ h => Or.inl h, fun _ h => Or.inr h, Or.inl rfl,
        fun p hash _ => Or.inr (Or.inl ⟨p, hash, rfl⟩), fun d _ => Or.inr (Or.inr ⟨d, rfl⟩)⟩
  | verificationRunner =>
      refine ⟨verificationTopics, fun _ _ => rfl, fun _ h => Or.inl h, fun _ h => Or.inr h, rfl,
        ?_, ?_⟩
      · exact fun p hash h => absurd h (by simp [verificationTopics])
      · exact fun d h => absurd h (by simp [verificationTopics])
  | _ => simp [Request.isRunner] at hq

section Delivery

variable {cfg : Config} {a : Actor Request} {σ : Stage World Lock Takeover} {topics : List Topic}

/-- The conduct of a runner in a handler. -/
def handling (cfg : Config) (a : Actor Request) : Conduct Stmt Tag World Lock Takeover where
  out g s busy := ((outboxPlan cfg).conduct a).out g s busy ∧ ∀ o, s = .outbox o → o.completes = none
  inside := ((outboxPlan cfg).conduct a).inside
  commit g t L w := t ≠ .claimOutboxBatch ∧ ((outboxPlan cfg).conduct a).commit g t L w

/-- The events `keys` are held. -/
def Holding (pid : Nat) (keys : List OutboxKey) (g : Glob World Takeover) : Prop :=
  ∀ k ∈ keys, Held pid k g

theorem handling_carries (ha : a.req.isRunner = true) (keys : List OutboxKey) :
    Carried (system cfg (takeovers cfg)) (outboxPlan cfg).toTerms a (handling cfg a)
      (Holding a.pid keys) where
  others g g' _ hdrift _ h k hk := hdrift k (h k hk)
  out g s busy _ hout _ h k hk := by
    obtain ⟨⟨⟨hexec, -⟩, -⟩, hnone⟩ := hout
    exact (h k hk).stmt ha hexec fun o ho => by simp [hnone o ho]
  inside g s busy v _ _ h k hk := (h k hk).inner
  commit g t L v hinv hcom h k hk := by
    obtain ⟨ht, hends, heffect⟩ := hcom
    exact (h k hk).commit hinv ha hends heffect fun h => absurd h ht

/-- What a handler relies on and what it may do. -/
theorem handling_lenient (hserves : a.req.Serves topics) :
    Lenient cfg (outboxPlan cfg).toTerms a.pid (handling cfg a)
      fun t => a.req.Ends t ∧ t ≠ .claimOutboxBatch where
  grow _ _ h := h
  read g q busy :=
    ⟨⟨⟨hserves.reads _ trivial, trivial⟩, fun o k h => absurd h (by simp)⟩, fun o h => absurd h (by simp)⟩
  nanoid g busy :=
    ⟨⟨⟨hserves.reads _ trivial, trivial⟩, fun o k h => absurd h (by simp)⟩, fun o h => absurd h (by simp)⟩
  inside _ _ _ _ h := h
  commit _ _ _ _ ht h := ⟨ht.2, ht.1, h⟩

/-- The handler of an event holds on to what the runner holds. -/
theorem handleEvent_holds {key : OutboxKey} {keys : List OutboxKey} {known : World → Prop}
    (ha : a.req.isRunner = true) (hserves : a.req.Serves topics) (htopic : key.topic ∈ topics)
    (hσ : σ.Knows (outboxPlan cfg).toTerms known)
    (hheld : σ.Entails (outboxPlan cfg).toTerms a.pid (Holding a.pid keys)) :
    (handleEvent cfg a.pid key).Does (system cfg (takeovers cfg)) (outboxPlan cfg).toTerms a
      ((outboxPlan cfg).conduct a)
      (fun _ σ => σ.Knows (outboxPlan cfg).toTerms known ∧
        σ.Entails (outboxPlan cfg).toTerms a.pid (Holding a.pid keys))
      (fun _ σ => σ.Knows (outboxPlan cfg).toTerms known ∧
        σ.Entails (outboxPlan cfg).toTerms a.pid (Holding a.pid keys)) σ := by
  have hkeeps : (handleEvent cfg a.pid key).Keeps (system cfg (takeovers cfg))
      (outboxPlan cfg).toTerms a (handling cfg a) known := by
    refine handleEvent_keeps (handling_lenient hserves) ?_ ?_ fun g s busy hs hground => ?_
    · rintro p hash rfl
      exact ⟨hserves.broadcasts p hash htopic, by simp⟩
    · rintro d rfl
      exact ⟨hserves.refunds d htopic, by simp⟩
    · have hnone : ∀ o, s = .outbox o → o.completes = none := by
        rintro o rfl
        obtain ⟨k, t, c, rfl⟩ := hs.outbox
        rfl
      exact ⟨⟨⟨hserves.round s ⟨key, htopic, Or.inl hs⟩, hground⟩,
        fun o k ho hk => absurd ((hnone o ho).symm.trans hk) (by simp)⟩, hnone⟩
  exact ((hkeeps σ hσ).carry (handling_carries ha keys) hheld).mono (fun _ _ h => h)
    (fun _ _ h => h) (fun _ _ _ h => h.1) (fun _ _ _ _ h => h) fun _ _ _ _ h => h.2

/-- A completion update lets go of its event only. -/
theorem complete_does {s : OutboxStmt} {key : OutboxKey} {rest : List OutboxKey}
    {known : World → Prop} (ha : a.req.isRunner = true) (hserves : a.req.Serves topics)
    (htopic : key.topic ∈ topics) (hs : FinalDoes key (.outbox s)) (hfresh : key ∉ rest)
    (hσ : σ.Knows (outboxPlan cfg).toTerms known)
    (hheld : σ.Entails (outboxPlan cfg).toTerms a.pid (Holding a.pid (key :: rest))) :
    (run (.outbox s)).Does (system cfg (takeovers cfg)) (outboxPlan cfg).toTerms a
      ((outboxPlan cfg).conduct a)
      (fun _ σ => σ.Knows (outboxPlan cfg).toTerms known ∧
        σ.Entails (outboxPlan cfg).toTerms a.pid (Holding a.pid rest))
      (fun _ σ => σ.Knows (outboxPlan cfg).toTerms known ∧
        σ.Entails (outboxPlan cfg).toTerms a.pid (Holding a.pid (key :: rest))) σ := by
  refine ⟨⟨hσ, hheld⟩, fun g busy hinv hg hfree => ?_⟩
  have hnow := hheld g hinv hg.ended
  have hexec : a.req.Executes (.outbox s) := hserves.round _ ⟨key, htopic, Or.inr hs⟩
  rw [hσ.outside.1]
  refine ⟨⟨⟨hexec, trivial⟩, fun o k ho hk => ?_⟩, (hσ.after _ busy g).mono fun _ h => h.1, ?_⟩
  · obtain rfl : s = o := Stmt.outbox.inj ho
    obtain rfl : key = k := Option.some.inj (hs.completes.symm.trans hk)
    exact hnow key (by simp)
  · have hrest : Holding a.pid rest ((system cfg (takeovers cfg)).afterStmt a (Stmt.outbox s) busy
        σ.view g) := by
      rw [hσ.outside.1]
      intro k hk
      refine (hnow k (by simp [hk])).stmt ha hexec fun o ho => ?_
      obtain rfl : s = o := Stmt.outbox.inj ho
      rw [hs.completes]
      rintro h
      obtain rfl : key = k := Option.some.inj h
      exact hfresh hk
    intro x _ hx
    obtain ⟨-, hdrift, -⟩ := σ.after_follows _ _ a (Stmt.outbox s) busy g x hx
    exact fun k hk => hdrift k (hrest k hk)

/-- The delivery of an event. -/
theorem deliver_does {evt : OutboxKey × Nat} {rest : List OutboxKey} {known : World → Prop}
    (ha : a.req.isRunner = true) (hserves : a.req.Serves topics) (htopic : evt.1.topic ∈ topics)
    (hfresh : evt.1 ∉ rest) (hσ : σ.Knows (outboxPlan cfg).toTerms known)
    (hheld : σ.Entails (outboxPlan cfg).toTerms a.pid (Holding a.pid (evt.1 :: rest))) :
    (deliver cfg a.pid evt).Does (system cfg (takeovers cfg)) (outboxPlan cfg).toTerms a
      ((outboxPlan cfg).conduct a)
      (fun _ σ => σ.Knows (outboxPlan cfg).toTerms known ∧
        σ.Entails (outboxPlan cfg).toTerms a.pid (Holding a.pid rest)) (fun _ _ => True) σ := by
  have hfailed : ∀ err (σ' : Stage World Lock Takeover), σ'.Knows (outboxPlan cfg).toTerms known →
      σ'.Entails (outboxPlan cfg).toTerms a.pid (Holding a.pid (evt.1 :: rest)) →
      (handlerFailed cfg evt.1 evt.2 err).Does (system cfg (takeovers cfg)) (outboxPlan cfg).toTerms
        a ((outboxPlan cfg).conduct a)
        (fun _ σ => σ.Knows (outboxPlan cfg).toTerms known ∧
          σ.Entails (outboxPlan cfg).toTerms a.pid (Holding a.pid rest)) (fun _ _ => True) σ' := by
    intro err σ' hσ' hheld'
    by_cases hattempts : cfg.maxAttempts ≤ evt.2
    · simp only [handlerFailed, if_pos hattempts]
      exact (complete_does (s := .markDead evt.1 err) ha hserves htopic rfl hfresh hσ' hheld').mono
        (fun _ _ h => h) (fun _ _ _ => trivial) (fun _ _ _ h => h) (fun _ _ _ _ h => h)
        fun _ _ _ _ h => h
    · simp only [handlerFailed, if_neg hattempts]
      exact (complete_does (s := .reschedule evt.1 err _) ha hserves htopic rfl hfresh hσ'
        hheld').mono (fun _ _ h => h) (fun _ _ _ => trivial) (fun _ _ _ h => h)
        (fun _ _ _ _ h => h) fun _ _ _ _ h => h
  refine does_orElse.mpr (does_bind.mpr ((handleEvent_holds ha hserves htopic hσ hheld).mono
    ?_ ?_ (fun _ _ _ h => h) (fun _ _ _ _ h => h) fun _ _ _ _ h => h))
  · rintro _ σ' ⟨hσ', hheld'⟩
    exact (complete_does (s := .markSent evt.1) ha hserves htopic rfl hfresh hσ' hheld').mono
      (fun _ _ h => h) (fun err σ'' h => hfailed err σ'' h.1 h.2) (fun _ _ _ h => h)
      (fun _ _ _ _ h => h) fun _ _ _ _ h => h
  · rintro err σ' ⟨hσ', hheld'⟩
    exact hfailed err σ' hσ' hheld'

/-- The deliveries of a batch, each event of which is in it once. -/
theorem deliverAll_does {known : World → Prop} (ha : a.req.isRunner = true)
    (hserves : a.req.Serves topics) (batch : List (OutboxKey × Nat))
    (htopic : ∀ evt ∈ batch, evt.1.topic ∈ topics) (hnodup : (batch.map Prod.fst).Nodup)
    (hσ : σ.Knows (outboxPlan cfg).toTerms known)
    (hheld : σ.Entails (outboxPlan cfg).toTerms a.pid (Holding a.pid (batch.map Prod.fst))) :
    (forEach (deliver cfg a.pid) batch).Does (system cfg (takeovers cfg)) (outboxPlan cfg).toTerms a
      ((outboxPlan cfg).conduct a) (fun _ _ => True) (fun _ _ => True) σ := by
  induction batch generalizing σ with
  | nil => trivial
  | cons evt batch ih =>
      obtain ⟨hfresh, hnodup⟩ := List.nodup_cons.mp hnodup
      refine does_bind.mpr ((deliver_does ha hserves (htopic evt (by simp)) hfresh hσ hheld).mono
        ?_ (fun _ _ h => h) (fun _ _ _ h => h) (fun _ _ _ _ h => h) fun _ _ _ _ h => h)
      rintro _ σ' ⟨hσ', hheld'⟩
      exact ih (fun evt' hevt' => htopic evt' (by simp [hevt'])) hnodup hσ' hheld'

/-- **A runner completes only events it holds**, unless something has taken them from it. -/
theorem claimed_event_held (hserves : a.req.Serves topics) (ha : a.req.isRunner = true) :
    (runOutboxLoop cfg topics a.pid).Does (system cfg (takeovers cfg)) (outboxPlan cfg).toTerms a
      ((outboxPlan cfg).conduct a) (fun _ _ => True) (fun _ _ => True) .start := by
  have hD : Lenient cfg (outboxPlan cfg).toTerms a.pid ((outboxPlan cfg).conduct a) a.req.Ends :=
    { grow := fun _ _ h => h
      read := fun g q busy => ⟨⟨hserves.reads _ trivial, trivial⟩, fun o k h => absurd h (by simp)⟩
      nanoid := fun g busy => ⟨⟨hserves.reads _ trivial, trivial⟩, fun o k h => absurd h (by simp)⟩
      inside := fun _ _ _ _ h => h
      commit := fun _ _ _ _ ht h => ⟨ht, h⟩ }
  have hstart : (Stage.start : Stage World Lock Takeover).Knows (outboxPlan cfg).toTerms
      fun w => w.outboxKeys.Nodup :=
    ⟨⟨rfl, rfl⟩, fun g (hinv : OutboxIndexed g.world) _ => hinv.nodup⟩
  refine does_bind.mpr ((claimOutboxBatch_does hD hserves.claims hstart).mono ?_
    (fun _ _ _ => trivial) (fun _ _ _ h => h) (fun _ _ _ _ h => h) fun _ _ _ _ h => h)
  rintro batch σ ⟨hσ, hbatch, g, v, -, -, hdeliveries, hfollows⟩
  refine deliverAll_does ha hserves batch hbatch.topic (hbatch.nodup fun _ h => h) hσ ?_
  intro x _ hx k hk
  obtain ⟨-, hdrift, -⟩ := hfollows x hx
  obtain ⟨row, hrow, rfl⟩ := List.mem_map.mp hk
  obtain ⟨e, he, hprocessing, hlocked, -⟩ := hdeliveries.taken row hrow
  exact hdrift row.1 fun _ => ⟨e, he, hprocessing, hlocked⟩

end Delivery

theorem outboxPlan_valid (cfg : Config) : (outboxPlan cfg).Valid where
  grow_trans _ _ _ := World.Grows.trans
  grow_refl := World.Grows.refl
  hold_trans _ _ _ _ _ _ := trivial
  drift_refl _ _ _ h := h
  drift_trans _ _ _ _ h h' k hk := h' k (h k hk)
  spawn _ _ h := h
  does i q hq := by
    obtain ⟨topics, hserves⟩ := Request.serves hq
    rw [show (system cfg (takeovers cfg)).code i q = q.code cfg i from rfl, hserves.code]
    exact does_bind.mpr ((claimed_event_held (a := ⟨i, q⟩) hserves hq).mono
      (fun _ _ _ _ _ _ => trivial) (fun _ _ h => h) (fun _ _ _ h => h) (fun _ _ _ _ h => h)
      fun _ _ _ _ h => h)
  inv_step := by
    rintro l L g g' ⟨hinv, -, hstep⟩
    have hinv : OutboxIndexed g.world := hinv
    cases hstep with
    | stmt a s busy _ hasked _ hout => exact hinv.stmt hasked hout.1.1
    | inner a s busy v _ _ _ =>
        refine hinv.rewrite (fun k => ?_) (Stmt.effect_outboxKeys s busy _ _)
        exact congrArg (fun t => (t k).isSome) (Stmt.effect_outbox s busy (v g.world) g.world)
    | commit a t L v _ hasked hcom => exact hinv.commit (Request.ends_runner hasked hcom.1) hcom.2
    | reply a x _ _ => exact hinv
    | env e _ => cases e <;> exact ⟨hinv.nodup, hinv.listed⟩
  grow_step _ _ _ _ h := Conducted.grows
    (fun a g t L w (hcom : a.req.Ends t ∧ t.Effect cfg (fun _ _ _ => True) a.pid L g.world w) =>
      hcom.2.grows) h.conducted
  hold_step _ _ _ _ _ _ _ := trivial
  drift_step := by
    rintro l L g g' ⟨hinv, hok, hstep⟩ i hactor k hheld
    have hinv : OutboxIndexed g.world := hinv
    cases hstep with
    | stmt a s busy _ hasked _ hout =>
        have hne : a.pid ≠ i := hactor a rfl
        by_cases hcompletes : ∃ o, s = .outbox o ∧ o.completes = some k
        · -- the other runner holds the event, so this one does not
          obtain ⟨o, rfl, ho⟩ := hcompletes
          intro huntouched
          have hmine : Locked i k g.world := hheld huntouched
          have huntouched' : untouched a.pid k g.hist = true := by
            have hok : o.completes.all (fun k => untouched a.pid k g.hist) = true := hok
            simpa [ho] using hok
          have htheirs : Locked a.pid k g.world := hout.2 o k rfl ho huntouched'
          obtain ⟨e, hrow, -, hlocked⟩ := hmine
          obtain ⟨e', hrow', -, hlocked'⟩ := htheirs
          obtain rfl : e = e' := Option.some.inj (hrow.symm.trans hrow')
          exact absurd (Option.some.inj (hlocked'.symm.trans hlocked)) hne
        · exact hheld.stmt hasked hout.1.1 fun o ho hk => hcompletes ⟨o, ho, hk⟩
    | inner a s busy v _ _ _ => exact hheld.inner
    | commit a t L v _ hasked hcom =>
        exact hheld.commit hinv hasked hcom.1 hcom.2 fun _ => hactor a rfl
    | reply a x _ _ => exact hheld
    | env e _ => cases e <;> exact hheld

/-- Who may change the status of an event `e` of the state `w` to that of `e'`. -/
inductive StatusChange (cfg : Config) (key : OutboxKey) (e e' : OutboxEvent) (w : World) :
    Step → Prop where
  /-- A runner claims the pending event, or finds its lock older than the timeout. -/
  | claim (a : Actor Request) :
      (OutboxStmt.isStale w.now cfg.outboxLockTimeoutMs e = true ∨
        (e.status = .pending ∧ e'.status = .processing ∧ e'.lockedBy = some a.pid)) →
      StatusChange cfg key e e' w (.event a (.commit .claimOutboxBatch))
  /-- The runner that holds the lock is done with the event. -/
  | complete (a : Actor Request) (s : OutboxStmt) (r : s.Val) :
      s.completes = some key → Locked a.pid key w →
      StatusChange cfg key e e' w (.event a (.stmt (.outbox s) r))
  /-- The handler of an auto-refund resolves the dispute of the event's payout. -/
  | stop (a : Actor Request) (d : Nat) : StoppedBy d key w →
      StatusChange cfg key e e' w (.event a (.commit (.resolveDispute d true)))

/-- **Only the runner that holds the lock of an event changes its status**, apart from
the claims and the dispute resolutions, in any run in which every completion update
comes before either of them has taken the event from its runner. -/
theorem only_holder_changes_status {cfg : Config} {w : World} {cs : List Pick}
    {c c' : State Takeover} {ch : Pick} {l : Step} {key : OutboxKey} {e e' : OutboxEvent}
    (hindexed : OutboxIndexed w)
    (hrun : (system cfg (takeovers cfg)).exec completesUntouched cs (Sys.start w) = some c)
    (hmove : (system cfg (takeovers cfg)).move ch c = some (l, c'))
    (hok : completesUntouched l c.glob = true) (hrow : c.glob.world.outbox key = some e)
    (hrow' : c'.glob.world.outbox key = some e') (hchange : e'.status ≠ e.status) :
    StatusChange cfg key e e' c.glob.world l := by
  have hsame : c'.glob.world.outbox key = some e → False := fun h =>
    hchange (congrArg OutboxEvent.status (Option.some.inj (hrow'.symm.trans h)))
  obtain ⟨hglob, -⟩ | ⟨a, x, L, rfl, h⟩ | ⟨o, rfl, h⟩ :=
    (outboxPlan_valid cfg).exec_step hindexed hrun hmove hok
  · exact (hsame (hglob ▸ hrow)).elim
  · obtain ⟨-, -, hstep⟩ := h
    generalize c.glob = g at hok hrow hstep ⊢
    generalize c'.glob = g' at hrow' hstep hsame
    cases hstep with
    | stmt _ s busy _ hasked _ hout =>
        by_cases hcompletes : ∃ o, s = .outbox o ∧ o.completes = some key
        · obtain ⟨o, rfl, ho⟩ := hcompletes
          have huntouched : untouched a.pid key g.hist = true := by
            have hok : o.completes.all (fun k => untouched a.pid k g.hist) = true := hok
            simpa [ho] using hok
          exact .complete a o _ ho (hout.2 o key rfl ho huntouched)
        · have hkept := runner_stmt_keeps busy hasked hout.1.1 hrow
            fun o ho hk => hcompletes ⟨o, ho, hk⟩
          exact (hsame hkept).elim
    | inner _ s busy v _ _ _ =>
        refine (hsame ?_).elim
        change (s.effect busy (v g.world) g.world).outbox key = some e
        rwa [Stmt.effect_outbox]
    | commit _ t L v _ hasked hcom =>
        obtain hkept | ⟨rfl, htaken⟩ | ⟨d, rfl, hstop⟩ :=
          runner_commit_event (Request.ends_runner hasked hcom.1) hcom.2 hrow
        · exact (hsame hkept).elim
        · obtain hkept | hstale | ⟨hpending, t, hnew⟩ := htaken.changes
          · exact (hsame hkept).elim
          · exact .claim a (Or.inl hstale)
          · obtain rfl : e' = OutboxStmt.taken a.pid t e := Option.some.inj (hrow'.symm.trans hnew)
            exact .claim a (Or.inr ⟨hpending, rfl, rfl⟩)
        · exact .stop a d hstop
    | reply _ x _ _ => exact (hsame hrow).elim
  · obtain ⟨-, -, hstep⟩ := h
    generalize c.glob = g at hrow hstep
    generalize c'.glob = g' at hstep hsame
    cases hstep
    cases o <;> exact (hsame hrow).elim

theorem payoutWorld_indexed : OutboxIndexed payoutWorld where
  nodup := List.nodup_singleton _
  listed k := by
    by_cases hk : k = .payout 1 <;> simp [payoutWorld, World.empty, hk]

/-- A runner claims the event and pays; the completion update is next. -/
def paidRound : List Pick := .spawn .payoutRunner :: List.replicate 12 (.run 0)

theorem only_holder_changes_status_paidRound :
    ∃ c l c' e e', (system Config.default (takeovers Config.default)).exec completesUntouched
        paidRound (Sys.start payoutWorld) = some c ∧
      (system Config.default (takeovers Config.default)).move (.run 0) c = some (l, c') ∧
      c.glob.world.outbox (.payout 1) = some e ∧ c'.glob.world.outbox (.payout 1) = some e' ∧
      e'.status = .sent ∧ StatusChange Config.default (.payout 1) e e' c.glob.world l := by
  obtain ⟨c, l, c', hrun, hmove, h⟩ := runs_and_moves Config.default (takeovers Config.default)
    completesUntouched paidRound payoutWorld (.run 0)
    (fun l c c' => completesUntouched l c.glob &&
      (c.glob.world.outbox (.payout 1)).any fun e : OutboxEvent => decide (e.status = .processing) &&
        (c'.glob.world.outbox (.payout 1)).any fun e' : OutboxEvent => decide (e'.status = .sent))
    (by decide)
  simp only [Bool.and_eq_true] at h
  obtain ⟨hok, hany⟩ := h
  obtain ⟨e, hrow, hrest⟩ := (Option.any_eq_true _ _).mp hany
  simp only [Bool.and_eq_true, decide_eq_true_eq] at hrest
  obtain ⟨hprocessing, hany'⟩ := hrest
  obtain ⟨e', hrow', hsent⟩ := (Option.any_eq_true _ _).mp hany'
  rw [decide_eq_true_eq] at hsent
  exact ⟨c, l, c', e, e', hrun, hmove, hrow, hrow', hsent, only_holder_changes_status
    payoutWorld_indexed hrun hmove hok hrow hrow' (by rw [hprocessing, hsent]; decide)⟩

/-- Only runners run. -/
def runnersOnly : Step → Glob World Takeover → Bool
  | .spawn q, _ => q.isRunner
  | _, _ => true

/-- Runner 0 is slow; its lock gets older than the timeout, and runner 1 claims the
event before runner 0 is done with it. -/
def slowRound : List Pick :=
  .spawn .payoutRunner :: @List.replicate Pick 12 (.run 0) ++
    .env (.tick 600001) :: .spawn .payoutRunner :: @List.replicate Pick 6 (.run 1)

/-- A statement of runner 0 on the outbox. -/
def slowOutbox : Step → Bool
  | .event a (.stmt (.outbox _) _) => decide (a.pid = 0)
  | _ => false

/-- Runner 0 marks the event sent that runner 1 is processing. -/
theorem stale_runner_marks_sent :
    OutboxIndexed payoutWorld ∧ ∃ c l c' e e',
      (system Config.default (takeovers Config.default)).exec runnersOnly slowRound
        (Sys.start payoutWorld) = some c ∧
      (system Config.default (takeovers Config.default)).move (.run 0) c = some (l, c') ∧
      runnersOnly l c.glob = true ∧
      c.glob.world.outbox (.payout 1) = some e ∧ c'.glob.world.outbox (.payout 1) = some e' ∧
      e.lockedBy = some 1 ∧ e.status = .processing ∧ e'.status = .sent ∧
      ¬ StatusChange Config.default (.payout 1) e e' c.glob.world l := by
  refine ⟨payoutWorld_indexed, ?_⟩
  obtain ⟨c, l, c', hrun, hmove, h⟩ := runs_and_moves Config.default (takeovers Config.default)
    runnersOnly slowRound payoutWorld (.run 0)
    (fun l c c' => slowOutbox l &&
      (c.glob.world.outbox (.payout 1)).any fun e : OutboxEvent =>
        decide (e.lockedBy = some 1 ∧ e.status = .processing) &&
        (c'.glob.world.outbox (.payout 1)).any fun e' : OutboxEvent => decide (e'.status = .sent))
    (by decide)
  simp only [Bool.and_eq_true] at h
  obtain ⟨hlabel, hany⟩ := h
  obtain ⟨e, hrow, hrest⟩ := (Option.any_eq_true _ _).mp hany
  simp only [Bool.and_eq_true, decide_eq_true_eq] at hrest
  obtain ⟨⟨hlocked, hprocessing⟩, hany'⟩ := hrest
  obtain ⟨e', hrow', hsent⟩ := (Option.any_eq_true _ _).mp hany'
  rw [decide_eq_true_eq] at hsent
  refine ⟨c, l, c', e, e', hrun, hmove, ?_, hrow, hrow', hlocked, hprocessing, hsent, ?_⟩
  · cases l <;> first | rfl | exact absurd hlabel (by simp [slowOutbox])
  · intro h
    cases h with
    | claim a _ => exact absurd hlabel (by simp [slowOutbox])
    | stop a d _ => exact absurd hlabel (by simp [slowOutbox])
    | complete a s r _ hheld =>
        obtain ⟨e₀, hrow₀, -, hlocked₀⟩ := hheld
        obtain rfl : e = e₀ := Option.some.inj (hrow.symm.trans hrow₀)
        have hpid : a.pid = 0 := by simpa [slowOutbox] using hlabel
        rw [hlocked, hpid] at hlocked₀
        exact absurd hlocked₀ (by simp)

end OpenUnion
