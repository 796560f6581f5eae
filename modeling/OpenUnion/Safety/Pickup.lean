import OpenUnion.Code.SubmissionRows
import OpenUnion.Safety.Dedupe
import OpenUnion.Safety.Pairing

/-!
# Queued verifications get picked up

* `Paired`: in the runs that meet `paired`, an event that has been sent is one of a finished
  verification, and a verification without event is one its request has just added.
* `pickups_hold`: so when nothing is in flight, every waiting verification has an event that
  is not sent.
* `requeued_after_sent`: an admin requeues a verification whose event has been sent.
-/

namespace OpenUnion

open Interleave

section Statements

variable {q : Request} {st : Stmt} {so : OutboxStmt} {s n : Nat} {w : World} {busy : Lock → Bool}
  {e' : OutboxEvent}

/-- The statement stores a verification or the event of one. -/
def Stmt.Pairs (st : Stmt) : Prop :=
  (∃ k v, st = .verification (.insert k v)) ∨
    ∃ s n t now, st = .outbox (.insertOrIgnore (.verification s n) t now)

/-- Only the requests that look after pairs store verifications and their events. -/
theorem Request.Executes.pairs (h : q.Executes st) (hst : st.Pairs) : q.pairs = true := by
  obtain ⟨k, v, rfl⟩ | ⟨s, n, t, now, rfl⟩ := hst
  all_goals
    cases q with
    | submit i j key body => rfl
    | verifierClaim body => rfl
    | verifierVerdict body => rfl
    | verificationRunner => rfl
    | payoutRunner =>
        obtain h | ⟨key, htopic, hhandler | hfinal⟩ := h
        · exact h.elim
        · cases key with
          | verification i n => exact absurd htopic (by simp [payoutTopics, OutboxKey.topic])
          | _ => exact hhandler.elim
        · exact hfinal.elim
    | release i j n | reapLeases | payoutAddress i x | stripeWebhook e =>
        obtain h | h := h
        · exact h.elim
        · first | exact absurd h (by simp) | exact h.elim
    | _ => exact h.elim

/-- What is stopped is the event of a payout. -/
theorem Request.stops_payout {k : OutboxKey} {now : Nat} (h : q.Executes (.outbox (.stop k now))) :
    ∃ p, k = .payout p := by
  cases h.source (fun h => h) with
  | mark p st pr ref reason h => exact ⟨p, h⟩
  | _ =>
      rename_i h
      exact h.elim

/-- What is stored without a conflict clause is the event of a payout. -/
theorem Request.inserts_payout {k : OutboxKey} {t now : Nat}
    (h : q.Executes (.outbox (.insert k t now))) : ∃ p, k = .payout p := by
  cases h.source (fun h => h) with
  | retry p h => exact ⟨p, h⟩
  | _ =>
      rename_i h
      exact h.elim

theorem inserted_row {t : OutboxKey → Option OutboxEvent} {k key : OutboxKey} {a c : Nat}
    (h : (if (t k).isNone then Function.update t k (some (.fresh a c)) else t) key = some e') :
    t key = some e' ∨ (key = k ∧ e' = .fresh a c) := by
  split_ifs at h
  · by_cases hk : key = k
    · subst hk
      rw [Function.update_self] at h
      exact Or.inr ⟨rfl, (Option.some.inj h).symm⟩
    · rw [Function.update_of_ne hk] at h
      exact Or.inl h
  · exact Or.inl h

theorem modified_row {t : OutboxKey → Option OutboxEvent} {k key : OutboxKey}
    {f : OutboxEvent → OutboxEvent} (h : modify t k f key = some e') :
    ∃ e, t key = some e ∧ (e' = e ∨ (key = k ∧ e' = f e)) := by
  obtain ⟨e, he⟩ := exists_of_modify h
  obtain rfl := Option.some.inj ((modify_eq_some he).symm.trans h)
  refine ⟨e, he, ?_⟩
  split_ifs with hk
  · exact Or.inr ⟨hk, rfl⟩
  · exact Or.inl rfl

/-- An event of a verification was there before the statement, and sent if it is sent now,
unless the statement marks it sent or stores it. -/
theorem Request.Executes.verificationEvent (h : q.Executes (.outbox so))
    (he' : ((Stmt.outbox so).apply busy w).outbox (.verification s n) = some e') :
    (∃ e, w.outbox (.verification s n) = some e ∧
      (e'.status = .sent → e.status = .sent ∨ so = .markSent (.verification s n))) ∨
    (e'.status ≠ .sent ∧ ∃ t now, so = .insertOrIgnore (.verification s n) t now) := by
  rw [Stmt.apply_outbox] at he'
  dsimp only at he'
  have hmodified : ∀ (k : OutboxKey) (f : OutboxEvent → OutboxEvent),
      (∀ e, .verification s n = k → (f e).status = .sent → so = .markSent (.verification s n)) →
      modify w.outbox k f (.verification s n) = some e' →
      ∃ e, w.outbox (.verification s n) = some e ∧
        (e'.status = .sent → e.status = .sent ∨ so = .markSent (.verification s n)) := by
    intro k f hf he'
    obtain ⟨e, he, rfl | ⟨hk, rfl⟩⟩ := modified_row he'
    · exact ⟨_, he, Or.inl⟩
    · exact ⟨e, he, fun hsent => Or.inr (hf e hk hsent)⟩
  obtain hplain | ⟨k, hfinal⟩ := h.outbox
  · cases hplain with
    | insert k a c =>
        obtain ⟨p, rfl⟩ := Request.inserts_payout h
        obtain he | ⟨hk, -⟩ := inserted_row he'
        · exact Or.inl ⟨e', he, Or.inl⟩
        · exact absurd hk (by simp)
    | insertOrIgnore k a c =>
        obtain he | ⟨rfl, rfl⟩ := inserted_row he'
        · exact Or.inl ⟨e', he, Or.inl⟩
        · exact Or.inr ⟨by simp [OutboxEvent.fresh], a, c, rfl⟩
    | stop k now =>
        obtain ⟨p, rfl⟩ := Request.stops_payout h
        exact Or.inl (hmodified _ _ (fun e hk => absurd hk (by simp)) he')
    | reopen k a reset clear =>
        exact Or.inl (hmodified k _ (fun e _ hsent => absurd hsent (by simp [OutboxStmt.reopened])) he')
  · cases so with
    | markSent k' => exact Or.inl (hmodified k' _ (fun e hk _ => by rw [hk]) he')
    | markDead k' err =>
        exact Or.inl (hmodified k' _ (fun e _ hsent => absurd hsent (by simp [OutboxStmt.dead])) he')
    | reschedule k' err d =>
        exact Or.inl (hmodified k' _
          (fun e _ hsent => absurd hsent (by simp [OutboxStmt.rescheduled])) he')
    | _ => exact hfinal.elim

end Statements

section Commits

variable {cfg : Config} {hold : Lock → World → World → Prop} {w w' : World} {L : List Lock}
  {pid s n : Nat} {t : Tag}

/-- Commits leave the events of verifications alone, or make them pending or processing. -/
theorem Tag.Effect.verificationEvent (h : t.Effect cfg hold pid L w w') (s n : Nat) :
    w'.outbox (.verification s n) = w.outbox (.verification s n) ∨
      ∃ e e', w.outbox (.verification s n) = some e ∧ w'.outbox (.verification s n) = some e' ∧
        e'.status ≠ .sent := by
  have hreleased : ∀ d st r, DisputeReleased d st r w w' →
      w'.outbox (.verification s n) = w.outbox (.verification s n) := by
    rintro d st r ⟨row, outbox, keys, now, payouts, -, -, hpayout, rfl⟩
    obtain ⟨-, -, rfl⟩ | ⟨p, -, hevent, -⟩ := hpayout
    · rfl
    · exact hevent.others _ (by simp)
  cases t with
  | claimOutboxBatch =>
      obtain ⟨outbox, htaken, rfl⟩ := h
      obtain hsame | ⟨e, t, he, -, ⟨-, he'⟩ | ⟨-, -, he'⟩⟩ := htaken (.verification s n)
      · exact Or.inl hsame
      · exact Or.inr ⟨e, _, he, he', by simp [OutboxStmt.released]⟩
      · exact Or.inr ⟨e, _, he, he', by simp [OutboxStmt.taken]⟩
  | leaseJob j i =>
      left
      obtain rfl | ⟨-, e, n, t, w₀, -, -, -, -, -, rfl⟩ := h <;> rfl
  | publishBounty b =>
      left
      obtain ⟨-, bounty, accounts, accounts', billing, reservations, jobs, t, -, -, -, -, rfl⟩ := h
      rfl
  | setBountyStatus b st =>
      left
      obtain rfl := h
      rfl
  | closeBounty b c =>
      left
      obtain ⟨-, res, accounts, billing, w₀, -, -, -, -, -, rfl⟩ := h
      rfl
  | createDispute d p =>
      left
      obtain ⟨row, outbox, keys, now, -, -, -, -, hothers, -, -, rfl⟩ := h
      exact hothers _ (by simp) (by simp)
  | cancelDispute d => exact Or.inl (hreleased _ _ _ h)
  | resolveDispute d refund =>
      left
      obtain ⟨rfl, -⟩ | ⟨-, h⟩ | ⟨-, h⟩ := h
      · rfl
      · obtain ⟨row, p, payout, accounts, accounts', billing, submissions, now, -, -, -, -, -, -,
          -, -, -, rfl⟩ := h
        change modify w.outbox (.payout p) (OutboxStmt.stopped now) (.verification s n) = _
        exact modify_of_ne (by simp)
      · exact hreleased _ _ _ h
  | unblockPayouts worker =>
      left
      obtain ⟨ps, outbox, keys, -, hothers, rfl⟩ := h
      exact hothers _ fun p _ => by simp
  | broadcast p hash =>
      left
      obtain ⟨fees, address, nonce, outbox, keys, -, -, -, -, hconfirms, rfl⟩ := h
      exact hconfirms.others _ (by simp)
  | stripeWebhook e =>
      left
      obtain ⟨accounts, billing, intents, status, -, rfl⟩ := h
      rfl

end Commits

section States

variable {cfg : Config} {k : Nat × Nat} {i : Nat} {ns earlier : List PairNote}
  {hist : List (Nat × PairNote)} {g g' : Glob World PairNote} {a : Actor Request}

/-- What is owed stays owed until its event is inserted. -/
theorem owed_append (h : k ∈ owed earlier) (hne : .enqueued k ∉ ns) : k ∈ owed (ns ++ earlier) := by
  induction ns with
  | nil => exact h
  | cons note ns ih =>
      have hrest : k ∈ owed (ns ++ earlier) := ih fun hmem => hne (List.mem_cons_of_mem _ hmem)
      cases note with
      | found k' => exact hrest
      | added k' => exact List.mem_cons_of_mem _ hrest
      | enqueued k' =>
          have hk : k ≠ k' := fun hk => hne (hk ▸ List.mem_cons_self)
          exact List.mem_filter.mpr ⟨hrest, by simpa using hk⟩

/-- The rows, the events and the notes of a run. -/
structure Paired (g : Glob World PairNote) : Prop where
  settled : ∀ s n v e, g.world.verifications (s, n) = some v →
    g.world.outbox (.verification s n) = some e → e.status = .sent → v.status = .finished
  owing : ∀ s n v, g.world.verifications (s, n) = some v →
    g.world.outbox (.verification s n) = none → ∃ i, (s, n) ∈ owed (own i g.hist)
  row : ∀ s n e, g.world.outbox (.verification s n) = some e →
    ∃ v, g.world.verifications (s, n) = some v
  noted : ∀ i k, .found k ∈ own i g.hist ∨ .added k ∈ own i g.hist →
    ∃ v, g.world.verifications k = some v

/-- A step that notes `ns` and keeps what is owed. -/
theorem owed_kept {i' : Nat} (hhist : g'.hist = ns.map (fun note => (i, note)) ++ g.hist)
    (h : k ∈ owed (own i' g.hist)) (hne : .enqueued k ∉ ns) : k ∈ owed (own i' g'.hist) := by
  rw [hhist, own_append]
  by_cases hi : i' = i
  · subst hi
    rw [own_map_self]
    exact owed_append h hne
  · rwa [own_map_of_ne hi]

/-- What a process has noted after a step that notes `ns`. -/
theorem noted_kept {i' : Nat} {note : PairNote}
    (hhist : g'.hist = ns.map (fun note => (i, note)) ++ g.hist) (h : note ∈ own i' g'.hist) :
    note ∈ ns ∨ note ∈ own i' g.hist := by
  rw [hhist, own_append, List.mem_append] at h
  refine h.imp_left fun hnote => ?_
  obtain ⟨note', hnote', heq⟩ := List.mem_map.mp (mem_own.mp hnote)
  obtain ⟨-, rfl⟩ := Prod.mk.inj heq
  exact hnote'

/-- A step that stores and changes no verification. -/
theorem Paired.kept (h : Paired g) (hhist : g'.hist = ns.map (fun note => (i, note)) ++ g.hist)
    (hver : g'.world.verifications = g.world.verifications)
    (hevents : ∀ s n e', g'.world.outbox (.verification s n) = some e' →
      (∃ e, g.world.outbox (.verification s n) = some e ∧ (e'.status = .sent → e.status = .sent ∨
        ∀ v, g.world.verifications (s, n) = some v → v.status = .finished)) ∨
      (e'.status ≠ .sent ∧ ∃ v, g.world.verifications (s, n) = some v))
    (hmissing : ∀ s n, g'.world.outbox (.verification s n) = none →
      g.world.outbox (.verification s n) = none ∧ .enqueued (s, n) ∉ ns)
    (hnoted : ∀ k, .found k ∈ ns ∨ .added k ∈ ns → ∃ v, g.world.verifications k = some v) :
    Paired g' := by
  refine ⟨fun s n v e' hv he' hsent => ?_, fun s n v hv hnone => ?_, fun s n e' he' => ?_,
    fun i' k hk => ?_⟩
  · rw [hver] at hv
    obtain ⟨e, he, hstatus⟩ | ⟨hne, -⟩ := hevents s n e' he'
    · exact (hstatus hsent).elim (h.settled s n v e hv he) fun hfinished => hfinished v hv
    · exact absurd hsent hne
  · rw [hver] at hv
    obtain ⟨hnone, hne⟩ := hmissing s n hnone
    obtain ⟨i', howed⟩ := h.owing s n v hv hnone
    exact ⟨i', owed_kept hhist howed hne⟩
  · rw [hver]
    obtain ⟨e, he, -⟩ | ⟨-, hv⟩ := hevents s n e' he'
    · exact h.row s n e he
    · exact hv
  · rw [hver]
    obtain hk | hk := hk
    · exact (noted_kept hhist hk).elim (fun hk => hnoted k (Or.inl hk)) fun hk => h.noted i' k (Or.inl hk)
    · exact (noted_kept hhist hk).elim (fun hk => hnoted k (Or.inr hk)) fun hk => h.noted i' k (Or.inr hk)

/-- A step that leaves verifications and their events alone. -/
theorem Paired.same (h : Paired g) (hhist : g'.hist = ns.map (fun note => (i, note)) ++ g.hist)
    (hver : g'.world.verifications = g.world.verifications)
    (houtbox : g'.world.outbox = g.world.outbox) (hne : ∀ k, .enqueued k ∉ ns)
    (hnoted : ∀ k, .found k ∈ ns ∨ .added k ∈ ns → ∃ v, g.world.verifications k = some v) :
    Paired g' := by
  refine h.kept hhist hver (fun s n e' he' => ?_) (fun s n hnone => ?_) hnoted
  · rw [houtbox] at he'
    exact Or.inl ⟨e', he', Or.inl⟩
  · rw [houtbox] at hnone
    exact ⟨hnone, hne _⟩

/-- A step that leaves them alone and notes nothing. -/
theorem Paired.quiet (h : Paired g) (hhist : g'.hist = g.hist)
    (hver : g'.world.verifications = g.world.verifications)
    (houtbox : g'.world.outbox = g.world.outbox) : Paired g' := by
  have hhist : g'.hist = [].map (fun note => (0, note)) ++ g.hist := hhist
  exact h.same hhist hver houtbox (by simp) (by simp)

/-- A new verification, whose event is now owed. -/
theorem Paired.added {v : Verification} (h : Paired g) (hfree : g.world.verifications k = none)
    (hhist : g'.hist = (i, .added k) :: g.hist)
    (hver : g'.world.verifications = Function.update g.world.verifications k (some v))
    (houtbox : g'.world.outbox = g.world.outbox) : Paired g' := by
  have hhist' : g'.hist = [PairNote.added k].map (fun note => (i, note)) ++ g.hist := hhist
  have hkept : ∀ k', (∃ v', g.world.verifications k' = some v') →
      ∃ v', g'.world.verifications k' = some v' := by
    rintro k' ⟨v', hv'⟩
    by_cases hk : k' = k
    · subst hk
      exact absurd (hfree.symm.trans hv') (by simp)
    · exact ⟨v', by rw [hver, Function.update_of_ne hk, hv']⟩
  have hnew : ∃ v', g'.world.verifications k = some v' := ⟨v, by rw [hver, Function.update_self]⟩
  refine ⟨fun s n v' e hv' he hsent => ?_, fun s n v' hv' hnone => ?_, fun s n e he => ?_,
    fun i' k' hk' => ?_⟩
  · rw [houtbox] at he
    by_cases hk : (s, n) = k
    · obtain ⟨v₀, hv₀⟩ := h.row s n e he
      rw [hk, hfree] at hv₀
      exact absurd hv₀ (by simp)
    · rw [hver, Function.update_of_ne hk] at hv'
      exact h.settled s n v' e hv' he hsent
  · rw [houtbox] at hnone
    by_cases hk : (s, n) = k
    · refine ⟨i, ?_⟩
      have hown : own i g'.hist = .added k :: own i g.hist := by simp [hhist, own]
      rw [hown, hk]
      exact List.mem_cons_self
    · rw [hver, Function.update_of_ne hk] at hv'
      obtain ⟨i', howed⟩ := h.owing s n v' hv' hnone
      exact ⟨i', owed_kept hhist' howed (by simp)⟩
  · rw [houtbox] at he
    exact hkept _ (h.row s n e he)
  · obtain hk' | hk' := hk'
    · obtain hnote | hnote := noted_kept hhist' hk'
      · exact absurd hnote (by simp)
      · exact hkept k' (h.noted i' k' (Or.inl hnote))
    · obtain hnote | hnote := noted_kept hhist' hk'
      · obtain rfl : k' = k := by simpa using hnote
        exact hnew
      · exact hkept k' (h.noted i' k' (Or.inr hnote))

/-- A verification is rewritten: it is finished, or its event is not sent. -/
theorem Paired.updated {new : Verification} (h : Paired g) (hhist : g'.hist = g.hist)
    (hver : g'.world.verifications = modify g.world.verifications k fun old => { new with id := old.id })
    (houtbox : g'.world.outbox = g.world.outbox)
    (hok : new.status = .finished ∨
      ∀ e, g.world.outbox (.verification k.1 k.2) = some e → e.status ≠ .sent) : Paired g' := by
  have hkept : ∀ k', (∃ v', g.world.verifications k' = some v') →
      ∃ v', g'.world.verifications k' = some v' := by
    rintro k' ⟨v', hv'⟩
    rw [hver]
    exact ⟨_, modify_eq_some hv'⟩
  refine ⟨fun s n v' e hv' he hsent => ?_, fun s n v' hv' hnone => ?_, fun s n e he => ?_,
    fun i' k' hk' => ?_⟩
  · rw [houtbox] at he
    rw [hver] at hv'
    obtain ⟨v₀, hv₀⟩ := exists_of_modify hv'
    obtain rfl := Option.some.inj ((modify_eq_some hv₀).symm.trans hv')
    split_ifs with hk
    · subst hk
      obtain hfinished | hunsent := hok
      · exact hfinished
      · exact absurd hsent (hunsent e he)
    · exact h.settled s n _ e hv₀ he hsent
  · rw [houtbox] at hnone
    rw [hver] at hv'
    obtain ⟨v₀, hv₀⟩ := exists_of_modify hv'
    rw [hhist]
    exact h.owing s n v₀ hv₀ hnone
  · rw [houtbox] at he
    exact hkept _ (h.row s n e he)
  · rw [hhist] at hk'
    exact hkept k' (h.noted i' k' hk')

end States

section Steps

variable {cfg : Config} {l : Step} {L : List Lock} {g : Glob World PairNote} {a : Actor Request}
  {st : Stmt} {busy : Lock → Bool}

/-- What is noted of a statement on events. -/
theorem noted_outbox {so : OutboxStmt} {r : so.Val} {w : World} {note : PairNote}
    (h : note ∈ pairNotes a (.stmt (.outbox so) r) w) :
    ∃ s n t now, so = .insertOrIgnore (.verification s n) t now ∧ note = .enqueued (s, n) := by
  cases so with
  | insertOrIgnore key t now =>
      cases key with
      | verification s n =>
          refine ⟨s, n, t, now, rfl, ?_⟩
          simp only [pairNotes, PairNote.of] at h
          split_ifs at h
          · exact List.mem_singleton.mp h
          · exact absurd h (by simp)
      | _ => exact absurd h (by simp [pairNotes, PairNote.of])
  | _ => exact absurd h (by simp [pairNotes, PairNote.of])

/-- A statement on events keeps rows and events paired. -/
theorem Paired.outbox_stmt {so : OutboxStmt} (h : Paired g) (hexec : a.req.Executes (.outbox so))
    (hout : a.req.pairs = true → EnqueueOut (own a.pid g.hist) (.outbox so))
    (hok : paired (.event a (.stmt (.outbox so) (so.result busy g.world))) g = true) :
    Paired ((system cfg pairNotes).afterStmt a (.outbox so) busy none g) := by
  have hver := Stmt.apply_verifications (.outbox so) busy g.world
  have hgrow : g.world.Grows (Stmt.apply (.outbox so) busy g.world) := Stmt.grows _
  have hrow : ∀ s n t now, so = .insertOrIgnore (.verification s n) t now →
      ∃ v, g.world.verifications (s, n) = some v := by
    rintro s n t now rfl
    have hpairs : a.req.pairs = true := hexec.pairs (Or.inr ⟨s, n, t, now, rfl⟩)
    have hnoted : .added (s, n) ∈ own a.pid g.hist ∨ .found (s, n) ∈ own a.pid g.hist := hout hpairs
    exact h.noted a.pid (s, n) hnoted.symm
  have hhist : ((system cfg pairNotes).afterStmt a (.outbox so) busy none g).hist =
      (pairNotes a (.stmt (.outbox so) (so.result busy g.world)) g.world).map
        (fun note => (a.pid, note)) ++ g.hist := rfl
  refine h.kept hhist hver (fun s n e' he' => ?_) (fun s n hnone => ?_) fun k hk => ?_
  · obtain ⟨e, he, hsent⟩ | ⟨hunsent, t, now, hso⟩ := hexec.verificationEvent he'
    · refine Or.inl ⟨e, he, fun hstatus => (hsent hstatus).imp_right ?_⟩
      rintro rfl v hv
      simpa [paired, hv] using hok
    · exact Or.inr ⟨hunsent, hrow s n t now hso⟩
  · cases hrow' : g.world.outbox (.verification s n) with
    | some e =>
        obtain ⟨e', he', -⟩ := hgrow.outbox _ e hrow'
        exact absurd (hnone.symm.trans he') (by simp)
    | none =>
        refine ⟨rfl, fun hnote => ?_⟩
        obtain ⟨s', n', t, now, rfl, heq⟩ := noted_outbox hnote
        obtain ⟨rfl, rfl⟩ : s = s' ∧ n = n' := by simpa using heq
        have hnew : (Stmt.apply (.outbox (.insertOrIgnore (.verification s n) t now)) busy
            g.world).outbox (.verification s n) = some (.fresh t now) := by
          rw [Stmt.apply_outbox]
          simp [OutboxStmt.write, hrow']
        exact absurd (hnone.symm.trans hnew) (by simp)
  · obtain hk | hk := hk
    · obtain ⟨s', n', t, now, -, heq⟩ := noted_outbox hk
      exact absurd heq (by simp)
    · obtain ⟨s', n', t, now, -, heq⟩ := noted_outbox hk
      exact absurd heq (by simp)

/-- A statement outside transactions keeps rows and events paired. -/
theorem Paired.stmt (h : Paired g) (hexec : a.req.Executes st)
    (hout : a.req.pairs = true → EnqueueOut (own a.pid g.hist) st)
    (hok : paired (.event a (.stmt st (st.result busy g.world))) g = true) :
    Paired ((system cfg pairNotes).afterStmt a st busy none g) := by
  have hver := Stmt.apply_verifications st busy g.world
  have houtbox := Stmt.apply_outbox st busy g.world
  have hhist : ((system cfg pairNotes).afterStmt a st busy none g).hist =
      (pairNotes a (.stmt st (st.result busy g.world)) g.world).map (fun note => (a.pid, note)) ++
        g.hist := rfl
  have hquiet : Unpaired st → (st.apply busy g.world).verifications = g.world.verifications →
      (st.apply busy g.world).outbox = g.world.outbox →
      Paired ((system cfg pairNotes).afterStmt a st busy none g) := by
    intro hunpaired hver houtbox
    rw [hunpaired.note] at hhist
    exact h.same hhist hver houtbox (by simp) (by simp)
  cases st with
  | verification vs =>
      cases vs with
      | insert k v =>
          have hpairs : a.req.pairs = true := hexec.pairs (Or.inl ⟨k, v, rfl⟩)
          cases hrow : g.world.verifications k with
          | none =>
              refine h.added (i := a.pid) (v := v) hrow ?_ ?_ houtbox
              · rw [hhist]
                simp [pairNotes, hpairs, PairNote.of, Stmt.result, VerificationStmt.result, hrow]
              · refine hver.trans ?_
                simp [VerificationStmt.write, hrow]
          | some old =>
              refine h.same hhist (hver.trans ?_) houtbox ?_ ?_
              · simp [VerificationStmt.write, hrow]
              · simp [pairNotes, PairNote.of, Stmt.result, VerificationStmt.result, hrow]
              · simp [pairNotes, PairNote.of, Stmt.result, VerificationStmt.result, hrow]
      | update k new =>
          refine h.updated ?_ hver houtbox ?_
          · rw [hhist, Unpaired.note (by trivial)]
            rfl
          · simpa [paired, Option.all_eq_true] using hok
  | outbox so => exact h.outbox_stmt hexec hout hok
  | read q =>
      cases q with
      | verification s n =>
          have hnotes : pairNotes a (.stmt (.read (.verification s n))
              (g.world.verifications (s, n))) g.world =
              if a.req.pairs then
                if Option.isSome (g.world.verifications (s, n)) then [.found (s, n)] else []
              else [] := rfl
          have hnote : ∀ note ∈ pairNotes a (.stmt (.read (.verification s n))
              (g.world.verifications (s, n))) g.world,
              note = .found (s, n) ∧ Option.isSome (g.world.verifications (s, n)) = true := by
            intro note hnote
            rw [hnotes] at hnote
            split_ifs at hnote with hpairs hrow
            · exact ⟨List.mem_singleton.mp hnote, hrow⟩
            · exact absurd hnote (by simp)
            · exact absurd hnote (by simp)
          refine h.same hhist hver houtbox (fun k hk => ?_) fun k hk => ?_
          · exact absurd (hnote _ hk).1 (by simp)
          · obtain hk | hk := hk
            · obtain ⟨heq, hrow⟩ := hnote _ hk
              obtain rfl : k = (s, n) := by simpa using heq
              exact Option.isSome_iff_exists.mp hrow
            · exact absurd (hnote _ hk).1 (by simp)
      | _ => exact hquiet trivial hver houtbox
  | _ => exact hquiet trivial hver houtbox

/-- The plan: the requests keep to their conduct. -/
def pairPlan (cfg : Config) : Plan (system cfg pairNotes) :=
  systemPlan cfg pairNotes paired (fun _ => True) (fun _ => True) (fun _ _ _ => True)
    fun _ _ _ => True

theorem pairPlan_valid (cfg : Config) : (pairPlan cfg).Valid :=
  systemPlan_valid (fun _ _ _ => trivial) (fun _ _ _ _ _ => trivial)
    (fun _ _ _ _ _ _ => trivial) fun _ _ _ _ _ _ _ => trivial

/-- A step keeps rows and events paired, if it inserts events of what its process has found
or added. -/
theorem Paired.move {g' : Glob World PairNote} (h : Paired g) (hmove : (pairPlan cfg).Move l L g g')
    (hout : ∀ a st r, l = .event a (.stmt st r) → a.req.pairs = true →
      EnqueueOut (own a.pid g.hist) st) : Paired g' := by
  obtain ⟨-, hok, hstep⟩ := hmove
  cases hstep with
  | stmt a st busy _ _ _ hexec => exact h.stmt hexec.1 (hout a st _ rfl) hok
  | inner a st busy v _ _ hinner =>
      have hunpaired : Unpaired st := by
        have hinner : st.Inner cfg g.world := hinner
        unfold Unpaired
        split <;> first | exact hinner | trivial
      refine h.quiet ?_ (st.effect_verifications busy (v g.world) g.world)
        (st.effect_outbox busy (v g.world) g.world)
      change (pairNotes a (.stmt st _) g.world).map _ ++ g.hist = _
      rw [hunpaired.note]
      rfl
  | commit a t L v _ _ hcommit =>
      have heffect : t.Effect cfg (fun _ _ _ => True) a.pid L g.world (v g.world) := hcommit.2
      have hhist : ((system cfg pairNotes).afterCommit a t (some v) g).hist =
          [].map (fun note => (a.pid, note)) ++ g.hist := by
        change (pairNotes a (.commit t) g.world).map _ ++ g.hist = _
        simp [pairNotes, PairNote.of]
      refine h.kept hhist heffect.submissions.2.2 (fun s n e' he' => ?_) (fun s n hnone => ?_)
        (by simp)
      · obtain hsame | ⟨e, e'', he, he'', hunsent⟩ := heffect.verificationEvent s n
        · exact Or.inl ⟨e', hsame.symm.trans he', Or.inl⟩
        · obtain rfl : e'' = e' := Option.some.inj (he''.symm.trans he')
          exact Or.inl ⟨e, he, fun hsent => absurd hsent hunsent⟩
      · obtain hsame | ⟨e, e'', -, he'', -⟩ := heffect.verificationEvent s n
        · exact ⟨hsame.symm.trans hnone, by simp⟩
        · exact absurd (he''.symm.trans hnone) (by simp)
  | reply a x _ _ _ =>
      refine h.quiet ?_ rfl rfl
      change (pairNotes a (.reply x) g.world).map _ ++ g.hist = _
      simp [pairNotes, PairNote.of]
  | env e _ =>
      have hsame : (e.apply g.world).verifications = g.world.verifications ∧
          (e.apply g.world).outbox = g.world.outbox := by
        cases e <;> exact ⟨rfl, rfl⟩
      exact h.quiet rfl hsame.1 hsame.2

end Steps

section Runs

variable {cfg : Config} {w : World} {cs : List Pick} {c : State PairNote}

/-- In an allowed run every request settles what it owes. -/
theorem exec_settles (hrun : (system cfg pairNotes).exec paired cs (Sys.start w) = some c) :
    Settled (system cfg pairNotes) Owes pairDebts c := by
  refine Machine.exec_settled (fun i q => q.code_pays cfg i) (fun h => h rfl)
    (fun a x w => by simp [system, pairNotes, PairNote.of]) (fun a st r g hok hclaims => ?_)
    (fun a l g hok hl => ?_) hrun
  · cases st with
    | read q =>
        cases q with
        | verification s n => simpa [paired, hclaims, LooksUp] using hok
        | _ => trivial
    | _ => trivial
  · obtain rfl | rfl := hl
    · simpa [paired] using hok
    · simpa [paired] using hok

/-- Every verification has its event, sent only when the verification is finished, and every
event its verification. -/
structure World.Paired (w : World) : Prop where
  event : ∀ s n v, w.verifications (s, n) = some v →
    ∃ e, w.outbox (.verification s n) = some e ∧ (e.status = .sent → v.status = .finished)
  row : ∀ s n e, w.outbox (.verification s n) = some e → ∃ v, w.verifications (s, n) = some v

/-- In an allowed run rows and events stay paired. -/
theorem exec_paired (hw : w.Paired)
    (hrun : (system cfg pairNotes).exec paired cs (Sys.start w) = some c) : Paired c.glob := by
  have hstart : Paired (Sys.start (S := Stmt) (R := Stmt.Val) (T := Tag) (ε := Err) (α := Reply)
      (Q := Request) (K := Lock) (H := PairNote) w).glob := by
    refine ⟨fun s n v e hv he => ?_, fun s n v hv hnone => ?_, hw.row, fun i k hk => ?_⟩
    · obtain ⟨e', he', hsent⟩ := hw.event s n v hv
      obtain rfl : e = e' := Option.some.inj (he.symm.trans he')
      exact hsent
    · obtain ⟨e, he, -⟩ := hw.event s n v hv
      exact absurd (he.symm.trans hnone) (by simp)
    · exact absurd hk (by simp [Sys.start])
  refine Machine.exec_induction (I := fun c => Paired c.glob) hstart ?_ hrun
  intro cs c ch l c' hpre hpaired hmove hok
  have hout : ∀ a st r, l = .event a (.stmt st r) → a.req.pairs = true →
      EnqueueOut (own a.pid c.glob.hist) st := by
    rintro a st r rfl
    obtain ⟨p, rest, hp, hadvances⟩ := Machine.move_actor hmove
    have hsettles := (exec_settles hpre).live a.pid a.req p hp
    cases hadvances with
    | stmt _ next err _ => exact hsettles.1
  obtain ⟨hsame, -⟩ | ⟨a, x, L, rfl, hstep⟩ | ⟨e, rfl, hstep⟩ :=
    (pairPlan_valid cfg).exec_step (π := pairPlan cfg) trivial hpre hmove hok
  · rw [hsame]
    exact hpaired
  · exact hpaired.move hstep hout
  · exact hpaired.move hstep hout

/-- **Queued verifications get picked up**: when no request is in flight, every waiting
verification has an event that is pending, in processing or given up, in every run in which
requests do not fail between a verification and its event, claims find their verification,
what waits again has an event that is not sent, and what is marked sent is finished. -/
theorem pickups_hold (hw : w.Paired)
    (hrun : (system cfg pairNotes).exec paired cs (Sys.start w) = some c)
    (hidle : ∀ i, c.program i = none) : PickedUp c.glob.world := by
  have hpaired := exec_paired hw hrun
  intro s n v hv hwaiting
  have hunfinished : v.status ≠ .finished := by
    simp only [Verification.waiting, Bool.and_eq_true, decide_eq_true_eq] at hwaiting
    exact hwaiting.1
  cases hevent : c.glob.world.outbox (.verification s n) with
  | none =>
      obtain ⟨i, howed⟩ := hpaired.owing s n v hv hevent
      have hclear := not_not.mp ((exec_settles hrun).ended i (hidle i))
      rw [hclear] at howed
      exact absurd howed (by simp)
  | some e =>
      refine ⟨e, rfl, ?_⟩
      cases hstatus : e.status with
      | pending => exact Or.inl rfl
      | processing => exact Or.inr (Or.inl rfl)
      | deadletter => exact Or.inr (Or.inr rfl)
      | sent => exact absurd (hpaired.settled s n v e hv hevent hstatus) hunfinished

end Runs

/-- No request is in flight. -/
def idle (c : State PairNote) : Bool := (List.range c.nextPid).all fun i => (c.program i).isNone

theorem program_of_idle {cfg : Config} {ok : Step → Glob World PairNote → Bool} {w : World}
    {cs : List Pick} {c : State PairNote} (h : idle c = true)
    (hrun : (system cfg pairNotes).exec ok cs (Sys.start w) = some c) (i : Nat) :
    c.program i = none := by
  by_cases hi : i < c.nextPid
  · exact Option.isNone_iff_eq_none.mp (List.all_eq_true.mp h i (List.mem_range.mpr hi))
  · exact (Machine.exec_unused hrun i (Nat.le_of_not_lt hi)).1

/-- Worker 3 submits on job 2, and a round of the runner has the submission verified. -/
def verifiedOnce : List Pick :=
  ([.spawn (.submit 3 2 none ⟨⟨1, 6, .absent, 0⟩, [], none⟩)] : List Pick) ++
    @List.replicate Pick 14 (.run 0) ++ ([.spawn .verificationRunner] : List Pick) ++
    @List.replicate Pick 39 (.run 1)

/-- Verification `n` of submission `s` has this status, and its event that one. -/
def World.pairIs (w : World) (s n : Nat) (v : VerificationStatus) (e : OutboxStatus) : Bool :=
  ((w.verifications (s, n)).any fun row => decide (row.status = v)) &&
    (w.outbox (.verification s n)).any fun row => decide (row.status = e)

theorem twoJobs_paired : twoJobs.Paired :=
  ⟨fun s n v h => absurd h (by simp [twoJobs, World.empty]),
    fun s n e h => absurd h (by simp [twoJobs, World.empty])⟩

theorem pickups_hold_verifiedOnce :
    ∃ c, (system Config.default pairNotes).exec paired verifiedOnce (Sys.start twoJobs) = some c ∧
      c.glob.world.pairIs 5 1 .finished .sent = true ∧ PickedUp c.glob.world := by
  obtain ⟨c, hrun, h⟩ := runs Config.default pairNotes paired verifiedOnce twoJobs
    (fun c => c.glob.world.pairIs 5 1 .finished .sent && idle c) (by decide)
  rw [Bool.and_eq_true] at h
  exact ⟨c, hrun, h.1, pickups_hold twoJobs_paired hrun (program_of_idle h.2 hrun)⟩

/-- An admin requeues the verification: it is queued, and its event stays sent. -/
theorem requeued_after_sent :
    twoJobs.Paired ∧
    ∃ c, (system Config.default pairNotes).exec (fun _ _ => true)
        (verifiedOnce ++ .spawn (.requeueVerification 5 1) :: List.replicate 3 (.run 2))
        (Sys.start twoJobs) = some c ∧
      (∀ i, c.program i = none) ∧ ¬ PickedUp c.glob.world := by
  refine ⟨twoJobs_paired, ?_⟩
  obtain ⟨c, hrun, h⟩ := runs Config.default pairNotes (fun _ _ => true)
    (verifiedOnce ++ .spawn (.requeueVerification 5 1) :: List.replicate 3 (.run 2)) twoJobs
    (fun c => c.glob.world.pairIs 5 1 .queued .sent && idle c) (by decide)
  rw [Bool.and_eq_true] at h
  refine ⟨c, hrun, program_of_idle h.2 hrun, fun hpicked => ?_⟩
  obtain ⟨hv, he⟩ := Bool.and_eq_true_iff.mp h.1
  obtain ⟨v, hv, hqueued⟩ := (Option.any_eq_true _ _).mp hv
  obtain ⟨e, he, hsent⟩ := (Option.any_eq_true _ _).mp he
  have hwaiting : v.waiting c.glob.world.now = true := by
    simp [Verification.waiting, Verification.isClaimed, of_decide_eq_true hqueued]
  obtain ⟨e', he', hunsent⟩ := hpicked 5 1 v hv hwaiting
  obtain rfl : e' = e := Option.some.inj (he'.symm.trans he)
  rw [of_decide_eq_true hsent] at hunsent
  exact absurd hunsent (by simp)

end OpenUnion
