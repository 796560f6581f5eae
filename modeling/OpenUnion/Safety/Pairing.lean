import OpenUnion.Code.JobRows
import OpenUnion.Code.Rounds
import OpenUnion.Safety.Attempts

/-!
# Verifications and their events

A verification and the event that has it picked up are written by two statements, and a
verification that is made to wait again keeps the event it has.  What a request notes of
the two tells what it still has to insert.

* `PickedUp`: what waits has an event that is not sent.
* `paired`: the runs in which no request fails between the two statements, claims find
  their verification, and what waits again has an event that is not sent.
* `Request.code_pays`: in those runs every request inserts the event of a verification it
  has added, and no event but of one it has added or found.
-/

namespace OpenUnion

open Interleave

/-- Waiting for a verifier: queued, or claimed by one whose claim has run out. -/
def Verification.waiting (v : Verification) (now : Nat) : Bool :=
  decide (v.status ≠ .finished) && ! v.isClaimed now

/-- Every waiting verification has an event that a runner will deliver, has in hand, or has
given up. -/
def PickedUp (w : World) : Prop :=
  ∀ s n v, w.verifications (s, n) = some v → v.waiting w.now = true →
    ∃ e, w.outbox (.verification s n) = some e ∧
      (e.status = .pending ∨ e.status = .processing ∨ e.status = .deadletter)

/-- What a process has found and stored of verifications and their events. -/
inductive PairNote where
  | found (key : Nat × Nat)
  | added (key : Nat × Nat)
  | enqueued (key : Nat × Nat)

/-- The request may add verifications. -/
def Request.pairs : Request → Bool
  | .submit _ _ _ _ | .verifierClaim _ | .verifierVerdict _ | .verificationRunner => true
  | _ => false

/-- The request is a verifier's claim, or makes one. -/
def Request.claims : Request → Bool
  | .verifierClaim _ | .verificationRunner => true
  | _ => false

/-- The note of an event. -/
def PairNote.of : Happening → List PairNote
  | .stmt (.read (.verification s n)) r => if Option.isSome r then [.found (s, n)] else []
  | .stmt (.verification (.insert k _)) inserted => if inserted then [.added k] else []
  | .stmt (.outbox (.insertOrIgnore (.verification s n) _ _)) _ => [.enqueued (s, n)]
  | _ => []

/-- Note what the requests that add verifications find and store of them. -/
def pairNotes (a : Actor Request) (x : Happening) (_ : World) : List PairNote :=
  if a.req.pairs then PairNote.of x else []

/-- The verifications whose event is still to be inserted. -/
def owed : List PairNote → List (Nat × Nat)
  | [] => []
  | .found _ :: earlier => owed earlier
  | .added k :: earlier => k :: owed earlier
  | .enqueued k :: earlier => (owed earlier).filter fun k' => decide (k' ≠ k)

/-- Something is still to be inserted. -/
abbrev Owes (ns : List PairNote) : Prop := owed ns ≠ []

/-- No request fails, or is killed, between inserting a verification and inserting its event;
claims find their verification; what is made to wait again has an event that is not sent;
and an event is marked sent when its verification is finished. -/
def paired : Step → Glob World PairNote → Bool
  | .fault a, g | .crash a, g => (owed (own a.pid g.hist)).isEmpty
  | .event a (.stmt (.read (.verification _ _)) r), _ => ! a.req.claims || Option.isSome r
  | .event _ (.stmt (.verification (.update k v)) _), g =>
      decide (v.status = .finished) ||
        (g.world.outbox (.verification k.1 k.2)).all fun e => decide (e.status ≠ .sent)
  | .event _ (.stmt (.outbox (.markSent (.verification s n))) _), g =>
      (g.world.verifications (s, n)).all fun v => decide (v.status = .finished)
  | _, _ => true

/-- An event is inserted for a verification that has been found or added. -/
def EnqueueOut (ns : List PairNote) : Stmt → Prop
  | .outbox (.insertOrIgnore (.verification s n) _ _) => .added (s, n) ∈ ns ∨ .found (s, n) ∈ ns
  | _ => True

/-- A claim's look-up finds what it looks for. -/
def LooksUp : (s : Stmt) → s.Val → Prop
  | .read (.verification _ _), r => Option.isSome r = true
  | _, _ => True

/-- What is asked of the programs. -/
def pairDebts (a : Actor Request) : Debts Stmt Stmt.Val PairNote where
  Out ns s := a.req.pairs = true → EnqueueOut ns s
  Gets _ s r := a.req.claims = true → LooksUp s r

section Rules

variable {cfg : Config} {a : Actor Request} {ns : List PairNote} {α : Type}
  {F : α → List PairNote → Prop} {G : Err → List PairNote → Prop}

/-- A program that settles what it owes. -/
abbrev Pays (cfg : Config) (a : Actor Request) (p : Code α) (F : α → List PairNote → Prop)
    (G : Err → List PairNote → Prop) (ns : List PairNote) : Prop :=
  p.Settles (system cfg pairNotes) a Owes (pairDebts a) F G ns

/-- Nothing is owed at the end. -/
abbrev Clear {α : Type} : α → List PairNote → Prop := fun _ ns => ¬ Owes ns

/-- A statement that is neither noted nor asked anything. -/
def Unpaired : Stmt → Prop
  | .read (.verification _ _) | .verification (.insert _ _) => False
  | .outbox (.insertOrIgnore (.verification _ _) _ _) => False
  | _ => True

theorem Unpaired.out {s : Stmt} (h : Unpaired s) : EnqueueOut ns s := by
  unfold EnqueueOut
  split
  · exact h.elim
  · trivial

theorem Unpaired.unnoted {s : Stmt} (h : Unpaired s) (r : s.Val) : PairNote.of (.stmt s r) = [] := by
  unfold PairNote.of
  split
  · rename_i heq
    obtain ⟨rfl, -⟩ := Event.stmt.inj heq
    exact h.elim
  · rename_i heq
    obtain ⟨rfl, -⟩ := Event.stmt.inj heq
    exact h.elim
  · rename_i heq
    obtain ⟨rfl, -⟩ := Event.stmt.inj heq
    exact h.elim
  · rfl

theorem unpaired_of_round {s : Stmt} (h : RoundStmt s) : Unpaired s := by
  unfold Unpaired
  split <;> first | exact h | trivial

theorem Unpaired.note {s : Stmt} (h : Unpaired s) (r : s.Val) (w : World) :
    pairNotes a (.stmt s r) w = [] := by
  simp [pairNotes, h.unnoted]

/-- A piece without transactions that neither adds verifications nor looks for them. -/
theorem pays_of_every {p : Code α} (h : p.Every Unpaired) (hF : ∀ x, F x ns) (hG : ∀ e, G e ns) :
    Pays cfg a p F G ns :=
  h.settles (fun _ hs => ⟨fun _ => hs.out, fun r w => hs.note r w⟩) hF hG

/-- A statement that is not noted. -/
theorem pays_quiet {s : Stmt} {f : s.Val → Code α} (hs : Unpaired s) (herr : G default ns)
    (hf : ∀ r, Pays cfg a (f r) F G ns) : Pays cfg a ((run s).bind f) F G ns := by
  refine ⟨fun _ => hs.out, fun busy seen w _ => ?_, fun _ => herr⟩
  have hempty : (system cfg pairNotes).note a
      (.stmt s ((system cfg pairNotes).engine.result s busy seen)) w = [] := hs.note _ w
  rw [hempty]
  exact hf _

/-- The last statement. -/
theorem pays_run {s : Stmt} {F : s.Val → List PairNote → Prop} (hs : Unpaired s)
    (hF : ∀ r, F r ns) (hG : G default ns) : Pays cfg a (run s) F G ns := by
  refine ⟨fun _ => hs.out, fun busy seen w _ => ?_, fun _ => hG⟩
  have hempty : (system cfg pairNotes).note a
      (.stmt s ((system cfg pairNotes).engine.result s busy seen)) w = [] := hs.note _ w
  rw [hempty]
  exact hF _

/-- A look-up; that of a claim finds the row. -/
theorem pays_find {s n : Nat} {f : Option Verification → Code α} (hreq : a.req.pairs = true)
    (herr : G default ns)
    (hnone : a.req.claims = false → Pays cfg a (f none) F G ns)
    (hsome : ∀ v, Pays cfg a (f (some v)) F G (.found (s, n) :: ns)) :
    Pays cfg a ((findVerificationBySubmission s n).bind f) F G ns := by
  refine ⟨fun _ => trivial, fun busy seen w hgets => ?_, fun _ => herr⟩
  have hgets : a.req.claims = true → Option.isSome (seen.verifications (s, n)) = true := hgets
  change Pays cfg a (f (seen.verifications (s, n))) F G
    (pairNotes a (.stmt (.read (.verification s n)) (seen.verifications (s, n))) w ++ ns)
  cases hrow : seen.verifications (s, n) with
  | none =>
      have hclaims : a.req.claims = false := by
        cases hclaims : a.req.claims with
        | false => rfl
        | true => exact absurd (hgets hclaims) (by simp [hrow])
      simpa [pairNotes, PairNote.of] using hnone hclaims
  | some v => simpa [pairNotes, PairNote.of, hreq] using hsome v

theorem clear_enqueued {k : Nat × Nat} (h : ¬ Owes ns) : ¬ Owes (.enqueued k :: ns) := by
  rw [not_not] at h ⊢
  simp [owed, h]

theorem clear_pair {k : Nat × Nat} (h : ¬ Owes ns) : ¬ Owes (.enqueued k :: .added k :: ns) := by
  rw [not_not] at h ⊢
  simp [owed, h]

/-- An event for a verification that is there. -/
theorem pays_enqueue {s n : Nat} {t : Option Nat} {F : Unit → List PairNote → Prop}
    (hreq : a.req.pairs = true) (hout : .added (s, n) ∈ ns ∨ .found (s, n) ∈ ns)
    (herr : ¬ Owes ns → ∀ e, G e ns) (hF : F () (.enqueued (s, n) :: ns)) :
    Pays cfg a (enqueueOutbox (.verification s n) t) F G ns := by
  have hnoted : ∀ (t now : Nat) (w : World),
      pairNotes a (.stmt (.outbox (.insertOrIgnore (.verification s n) t now)) ()) w =
        [.enqueued (s, n)] := by
    intro t now w
    simp [pairNotes, PairNote.of, hreq]
  refine ⟨fun _ => trivial, fun busy seen w _ => ?_, fun hopen => herr hopen _⟩
  have hempty : pairNotes a (.stmt (.read .now) seen.now) w = [] := by
    simp [pairNotes, PairNote.of]
  change Pays cfg a (run (.outbox (.insertOrIgnore (.verification s n) (t.getD seen.now) seen.now)))
    F G (pairNotes a (.stmt (.read .now) seen.now) w ++ ns)
  rw [hempty]
  refine ⟨fun _ => hout, fun busy seen w _ => ?_, fun hopen => herr hopen _⟩
  change F () (pairNotes a (.stmt (.outbox (.insertOrIgnore (.verification s n) _ _)) ()) w ++ ns)
  rw [hnoted]
  exact hF

/-- A verification and its event. -/
theorem pays_add_enqueue {s n id : Nat} {t : Option Nat} {f : Unit → Code α}
    (hreq : a.req.pairs = true) (hclear : ¬ Owes ns) (hG : ∀ e ns, ¬ Owes ns → G e ns)
    (hf : ∀ ns, ¬ Owes ns → Pays cfg a (f ()) F G ns) :
    Pays cfg a ((addVerification s n (.queued id)).bind fun _ =>
      (enqueueOutbox (.verification s n) t).bind f) F G ns := by
  refine ⟨fun _ => trivial, fun busy seen w _ => ?_, fun _ => hG _ _ hclear⟩
  change Pays cfg a ((orUniqueViolation (seen.verifications (s, n)).isNone).bind _) F G
    (pairNotes a (.stmt (.verification (.insert (s, n) (.queued id)))
      (seen.verifications (s, n)).isNone) w ++ ns)
  cases (seen.verifications (s, n)).isNone with
  | false =>
      have hnoted : pairNotes a (.stmt (.verification (.insert (s, n) (.queued id))) false) w = [] := by
        simp [pairNotes, PairNote.of]
      rw [hnoted]
      exact hG _ _ hclear
  | true =>
      have hnoted : pairNotes a (.stmt (.verification (.insert (s, n) (.queued id))) true) w =
          [.added (s, n)] := by
        simp [pairNotes, PairNote.of, hreq]
      rw [hnoted]
      change Pays cfg a ((enqueueOutbox (.verification s n) t).bind f) F G (.added (s, n) :: ns)
      refine settles_bind.mpr (pays_enqueue hreq (Or.inl List.mem_cons_self) ?_ ?_)
      · exact fun hopen => absurd (List.cons_ne_nil _ _) hopen
      · exact hf _ (clear_pair hclear)

end Rules

section Submit

variable {cfg : Config} {a : Actor Request} {ns : List PairNote} {i j : Nat} {key : Option Nat}
  {body : SubmitBody} {row : Job}

theorem attach_unpaired {s : Nat} {refs : List ArtifactRef} :
    (attachOrReject s j i refs).Every Unpaired := by
  refine Prog.Every.orElse (Prog.Every.bind (Prog.every_forEach fun art => ?_) ?_) ?_
  · refine Prog.every_perform_bind.mpr ⟨trivial, fun r => ?_⟩
    cases r with
    | none => trivial
    | some art =>
        dsimp only
        split_ifs <;> first | trivial | exact ⟨trivial, fun _ => trivial, trivial⟩
  · exact fun _ => trivial
  · exact fun _ => trivial

theorem respond_unpaired {s : Nat} : (respondWithExistingSubmission j row s).Every Unpaired := by
  refine Prog.Every.bind (every_onlyIf.mpr fun _ => ?_) fun _ => ?_
  · exact ⟨trivial, fun _ => trivial, trivial⟩
  · exact ⟨trivial, fun _ => trivial, trivial⟩

theorem heal_unpaired {s : Nat} : (resumeSubmission.heal j row s).Every Unpaired := by
  simp only [resumeSubmission.heal]
  split_ifs
  · exact Prog.every_perform_bind.mpr ⟨trivial, fun _ => respond_unpaired⟩
  · exact respond_unpaired

variable (hreq : a.req.pairs = true) (hclear : ¬ Owes ns)

include hreq hclear

theorem requestVerification_pays {s : Nat} :
    Pays cfg a (requestVerification s) Clear Clear ns := by
  refine pays_quiet trivial hclear fun id => ?_
  exact pays_add_enqueue hreq hclear (fun _ _ h => h) fun _ h => h

theorem resume_pays {s : Nat} {refs : List ArtifactRef} :
    Pays cfg a (resumeSubmission j i row s refs) Clear Clear ns := by
  have hheal : ∀ ns, ¬ Owes ns → Pays cfg a (resumeSubmission.heal j row s) Clear Clear ns :=
    fun ns h => pays_of_every heal_unpaired (fun _ => h) fun _ => h
  refine settles_bind.mpr (pays_of_every attach_unpaired (fun r => ?_) fun _ => hclear)
  cases r with
  | some message => exact hclear
  | none =>
      refine pays_find hreq hclear (fun _ => ?_) fun v => ?_
      · exact settles_bind.mpr ((requestVerification_pays hreq hclear).mono
          (fun _ ns h => hheal ns h) fun _ _ h => h)
      · refine settles_bind.mpr ?_
        simp only [onlyIf]
        split_ifs
        · refine pays_enqueue hreq (Or.inr (by simp)) (fun h _ => h) ?_
          exact hheal _ (clear_enqueued hclear)
        · exact hheal _ hclear

theorem create_pays : Pays cfg a (createSubmission cfg j i row key body) Clear Clear ns := by
  refine pays_quiet trivial hclear fun duplicate => ?_
  refine pays_quiet trivial hclear fun sid => ?_
  refine pays_quiet trivial hclear fun now => ?_
  refine settles_bind.mpr (pays_of_every ?_ (fun _ => ?_) fun _ => hclear)
  · exact Prog.every_perform_bind.mpr ⟨trivial, fun r => every_orUniqueViolation⟩
  refine settles_bind.mpr (pays_of_every attach_unpaired (fun r => ?_) fun _ => hclear)
  cases r with
  | some message => exact hclear
  | none =>
      dsimp only
      split_ifs
      · exact pays_quiet trivial hclear fun _ => hclear
      · refine settles_bind.mpr ((requestVerification_pays hreq hclear).mono
          (fun vid ns h => ?_) fun _ _ h => h)
        exact pays_quiet trivial h fun _ => h

theorem checkAndCreate_pays : Pays cfg a (checkAndCreate cfg j i row key body) Clear Clear ns := by
  refine pays_quiet trivial hclear fun now => ?_
  split_ifs
  · exact hclear
  · refine settles_bind.mpr (pays_of_every (getBountyOrThrow_every trivial) (fun bounty => ?_)
      fun _ => hclear)
    cases body.manifest.finalUrl with
    | malformed => exact hclear
    | absent => exact create_pays hreq hclear
    | origin o =>
        dsimp only
        split_ifs
        · exact create_pays hreq hclear
        · exact hclear

theorem submitByKey_pays : Pays cfg a (submitByKey cfg j i row key body) Clear Clear ns := by
  cases key with
  | none => exact checkAndCreate_pays hreq hclear
  | some k =>
      refine pays_quiet trivial hclear fun r => ?_
      cases r with
      | none => exact checkAndCreate_pays hreq hclear
      | some found =>
          dsimp only
          split_ifs
          · exact hclear
          · exact resume_pays hreq hclear

theorem submitRoute_pays : Pays cfg a (submitRoute cfg i j key body) Clear Clear ns := by
  refine pays_quiet trivial hclear fun r => ?_
  cases r with
  | none => exact hclear
  | some row =>
      dsimp only [submitJob]
      split_ifs
      · exact hclear
      · refine pays_quiet trivial hclear fun now => ?_
        split_ifs
        · exact hclear
        · cases row.currentSubmissionId with
          | none => exact submitByKey_pays hreq hclear
          | some current =>
              refine pays_quiet trivial hclear fun existing => ?_
              cases existing with
              | none => exact submitByKey_pays hreq hclear
              | some existing =>
                  dsimp only
                  split_ifs
                  · exact pays_of_every respond_unpaired (fun _ => hclear) fun _ => hclear
                  · exact submitByKey_pays hreq hclear

end Submit

section Verdicts

variable {cfg : Config} {a : Actor Request} {ns : List PairNote} {body : VerdictBody}
  {submission : Submission} {row : Job} {verificationId : Nat}

theorem CompletesDoes.unpaired {s : Stmt} (h : CompletesDoes s) : Unpaired s := by
  cases s with
  | read q => cases q <;> first | exact h.elim | trivial
  | verification s => exact h.elim
  | outbox s =>
      cases s with
      | insertOrIgnore key t now => cases key <;> first | exact h.elim | trivial
      | _ => trivial
  | _ => trivial

variable (hreq : a.req.pairs = true) (hclear : ¬ Owes ns)

include hreq hclear

theorem requeueOrComplete_pays :
    Pays cfg a (requeueOrComplete cfg body verificationId submission row) Clear Clear ns := by
  have hcomplete : Pays cfg a (completeJob cfg body verificationId submission row) Clear Clear ns :=
    pays_of_every (completeJob_every.mono fun _ hs => hs.unpaired) (fun _ => hclear) fun _ => hclear
  simp only [requeueOrComplete]
  split_ifs
  · refine pays_quiet trivial hclear fun attempts => ?_
    split_ifs
    · refine pays_quiet trivial hclear fun id => ?_
      refine pays_add_enqueue hreq hclear (fun _ _ h => h) fun ns h => ?_
      exact pays_quiet trivial h fun _ => h
    · exact hcomplete
  · exact hcomplete

theorem applyVerdict_pays :
    Pays cfg a (applyVerdict cfg body verificationId) Clear Clear ns := by
  refine pays_quiet trivial hclear fun submission => ?_
  cases submission with
  | none => exact hclear
  | some submission =>
      refine pays_quiet trivial hclear fun _ => ?_
      refine settles_bind.mpr (pays_of_every
        (recordReputation_every.mono fun _ hs => hs.unpaired) (fun _ => ?_) fun _ => hclear)
      refine settles_bind.mpr (pays_of_every
        (registerOnPass_every.mono fun _ hs => hs.unpaired) (fun _ => ?_) fun _ => hclear)
      refine pays_quiet trivial hclear fun job => ?_
      cases job with
      | none => exact hclear
      | some job => exact requeueOrComplete_pays hreq hclear

theorem verifierVerdict_pays : Pays cfg a (verifierVerdict cfg body) Clear Clear ns := by
  refine pays_find hreq hclear (fun _ => hclear) fun v => ?_
  have hfound : ¬ Owes (.found (body.submissionId, body.attemptNo) :: ns) := hclear
  dsimp only
  split_ifs
  · exact hfound
  · refine pays_quiet trivial hfound fun submission => ?_
    cases submission with
    | none => exact hfound
    | some submission => exact pays_quiet trivial hfound fun _ => hfound
  · refine pays_quiet trivial hfound fun now => ?_
    split_ifs
    · exact hfound
    · exact pays_quiet trivial hfound fun _ => applyVerdict_pays hreq hfound

/-- A claim finds its verification. -/
theorem verifierClaim_pays {c : ClaimBody} (hclaims : a.req.claims = true) :
    Pays cfg a (verifierClaim c) Clear Clear ns := by
  refine pays_quiet trivial hclear fun submission => ?_
  cases submission with
  | none => exact hclear
  | some submission =>
      refine settles_bind.mpr (pays_find hreq hclear (fun h => ?_) fun v => ?_)
      · exact absurd hclaims (by simp [h])
      · have hfound : ¬ Owes (.found (c.submissionId, c.attemptNo) :: ns) := hclear
        refine pays_quiet trivial hfound fun now => ?_
        split_ifs
        · exact hfound
        · refine pays_quiet trivial hfound fun token => ?_
          refine pays_quiet trivial hfound fun t => ?_
          refine pays_quiet trivial hfound fun _ => ?_
          refine pays_quiet trivial hfound fun job => ?_
          cases job with
          | none => exact hfound
          | some job =>
              refine settles_bind.mpr (pays_of_every (getBountyOrThrow_every trivial) (fun _ => ?_)
                fun _ => hfound)
              exact hfound

theorem handleVerificationRequested_pays {i s n : Nat} (hclaims : a.req.claims = true) :
    Pays cfg a (handleVerificationRequested cfg i s n) Clear Clear ns := by
  refine settles_bind.mpr ((verifierClaim_pays hreq hclear hclaims).mono (fun r ns h => ?_)
    fun _ _ h => h)
  cases r with
  | error status code message => exact h
  | ok claim =>
      refine pays_quiet trivial h fun answer => ?_
      refine settles_bind.mpr ((verifierVerdict_pays hreq h).mono (fun r ns h => ?_) fun _ _ h => h)
      cases r with
      | error status code message => exact h
      | ok posted => exact h

end Verdicts

/-- Every program settles what it owes. -/
theorem Request.code_pays (cfg : Config) (i : Nat) (q : Request) :
    (q.code cfg i).Settles (system cfg pairNotes) ⟨i, q⟩ Owes (pairDebts ⟨i, q⟩) Clear Clear [] := by
  have hclear : ¬ Owes [] := fun h => h rfl
  have hends : ∀ {α : Type} {p : Code α} {f : α → Code Reply} (a : Actor Request),
      Pays cfg a p Clear Clear [] → (∀ x ns, ¬ Owes ns → Pays cfg a (f x) Clear Clear ns) →
      Pays cfg a (p.bind f) Clear Clear [] :=
    fun a hp hf => settles_bind.mpr (hp.mono hf fun _ _ h => h)
  cases hpairs : q.pairs with
  | false =>
      refine Prog.settles_silent _ (fun x w => ?_) (fun s h => ?_) (fun _ => hclear) fun _ => hclear
      · simp [system, pairNotes, hpairs]
      · exact absurd (hpairs.symm.trans h) (by simp)
  | true =>
      cases q with
      | submit w j key body =>
          exact hends ⟨i, _⟩ (submitRoute_pays rfl hclear) fun _ _ h => h
      | verifierClaim body =>
          exact hends ⟨i, _⟩ (verifierClaim_pays rfl hclear rfl) fun _ _ h => h
      | verifierVerdict body =>
          exact hends ⟨i, _⟩ (verifierVerdict_pays rfl hclear) fun _ _ h => h
      | verificationRunner =>
          have hround : Unwatched pairNotes ⟨i, .verificationRunner⟩
              (pairDebts ⟨i, .verificationRunner⟩) := by
            refine ⟨fun s r w hs => ?_, fun t w => by simp [pairNotes, PairNote.of],
              fun ns s hs _ => (unpaired_of_round hs).out⟩
            exact (unpaired_of_round hs).note r w
          refine hends ⟨i, _⟩ (runOutboxLoop_settles hround hclear fun key ns htopic h => ?_)
            fun _ _ h => h
          cases key with
          | verification s k => exact handleVerificationRequested_pays rfl h rfl
          | _ => exact absurd htopic (by simp [verificationTopics, OutboxKey.topic])
      | _ => exact absurd hpairs (by simp [Request.pairs])

end OpenUnion
