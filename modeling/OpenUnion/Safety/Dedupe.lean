import OpenUnion.Code.SubmissionRows
import OpenUnion.Safety.Basic

/-!
# Duplicate suppression

A submission is compared with what its bounty has accepted when it comes in, and its key
is registered when it has passed.  The key is made from the bounty the manifest names,
and between the two any number of submissions can be under way.

* `accepted_distinct`: as long as manifests name the bounty of their job, and a pass finds
  its key neither registered nor noted by an earlier pass, no two accepted submissions of a
  bounty have observed the same.
* `other_bounty_accepted`: the same result, submitted under the name of another bounty.
-/

namespace OpenUnion

open Interleave

/-- The bounty of a submission. -/
def World.bountyOf (w : World) (sub : Submission) : Option Nat :=
  (w.jobs sub.jobId).map Job.bountyId

/-- The bounty of submission `s` and the key under which it is compared there. -/
def World.keyOf (w : World) (s : Nat) : Option (Nat × Nat) :=
  (w.submissions s).bind fun sub =>
    (w.bountyOf sub).bind fun b => sub.dedupeKey.map fun key => (b, key)

/-- What never changes of a submission and decides its key. -/
def Submission.keyed (sub : Submission) : Nat × Manifest × Option Nat :=
  (sub.jobId, sub.manifest, sub.dedupeKey)

/-- No two accepted submissions of a bounty have observed the same. -/
def Distinct (w : World) : Prop :=
  ∀ b s₁ s₂ sub₁ sub₂, w.submissions s₁ = some sub₁ → w.submissions s₂ = some sub₂ →
    sub₁.status = .accepted → sub₂.status = .accepted →
    w.bountyOf sub₁ = some b → w.bountyOf sub₂ = some b →
    sub₁.manifest.observed = sub₂.manifest.observed → s₁ = s₂

/-- A submission with the key of its manifest, which names the bounty of its job. -/
structure Submission.Keyed (cfg : Config) (w : World) (sub : Submission) : Prop where
  key : sub.dedupeKey = some (sub.manifest.dedupeKey cfg)
  bounty : w.bountyOf sub = some sub.manifest.bountyId

/-- The key of a submission within the bounty its manifest names. -/
def Manifest.entry (cfg : Config) (m : Manifest) : Nat × Nat := (m.bountyId, m.dedupeKey cfg)

/-- A database in which what is accepted is registered, and distinct. -/
structure Registered (cfg : Config) (w : World) : Prop where
  keyed : ∀ s sub, w.submissions s = some sub → sub.Keyed cfg w
  registered : ∀ s sub, w.submissions s = some sub → sub.status = .accepted →
    w.acceptedDedupe (sub.manifest.entry cfg) = true
  distinct : Distinct w

/-- Note what passes. -/
def passNotes : Actor Request → Happening → World → List (Nat × Nat)
  | _, .stmt (.submission (.update s new)) _, w =>
      if new.status = .accepted then (w.keyOf s).toList else []
  | _, _, _ => []

/-- No admin overrides a verdict, manifests name the bounty of their job, and a submission
that passes has passed before, or has a key that is not registered and that no earlier
pass is still to register. -/
def keysFresh : Step → Glob World (Nat × Nat) → Bool
  | .spawn (.overrideVerdict _ _ _), _ => false
  | .event _ (.stmt (.submission (.insert _ row)) _), g =>
      decide (g.world.bountyOf row = some row.manifest.bountyId)
  | .event _ (.stmt (.submission (.update s new)) _), g =>
      decide (new.status ≠ .accepted) ||
        ((g.world.submissions s).any fun sub => decide (sub.status = .accepted)) ||
        (g.world.keyOf s).all fun entry =>
          ! g.world.acceptedDedupe entry && g.hist.all fun e => decide (e.2 ≠ entry)
  | _, _ => true

/-- What a request writes of submissions: the one it makes carries the key of its manifest,
and one it rewrites keeps its key. -/
def KeyOut (cfg : Config) (w : World) : Stmt → Prop
  | .submission (.insert _ row) =>
      row.dedupeKey = some (row.manifest.dedupeKey cfg) ∧ row.status ≠ .accepted
  | .submission (.update s new) => ∃ row, w.submissions s = some row ∧ new.dedupeKey = row.dedupeKey
  | _ => True

/-- The conduct of a request in what it writes of submissions. -/
def keyConduct (cfg : Config) : Conduct Stmt Tag World Lock (Nat × Nat) where
  out g s _ := KeyOut cfg g.world s
  inside _ _ _ _ := True
  commit _ _ _ _ := True

section Walks

variable {cfg : Config} {τ : Terms World Lock (Nat × Nat)} {a : Actor Request} {known : World → Prop}

theorem SubmitWrites.keyOut {jobId workerId : Nat} {key : Option Nat} {body : SubmitBody}
    {K : Job → Prop} {s : Stmt} {w : World} (h : SubmitWrites cfg jobId workerId key body K s) :
    KeyOut cfg w s := by
  cases s with
  | submission s =>
      cases s with
      | insert i row =>
          obtain ⟨duplicate, now, rfl⟩ := h
          refine ⟨rfl, ?_⟩
          cases duplicate <;> simp [Submission.new]
      | update i row => exact h.elim
      | setPayoutStatus i st => trivial
  | _ => trivial

theorem JudgedDoes.keyOut {s : Stmt} {w : World} (h : JudgedDoes s) : KeyOut cfg w s := by
  cases s with
  | submission s => exact h.elim
  | _ => trivial

theorem ClaimDoes.keyOut {i n : Nat} {s : Stmt} {w : World} (h : ClaimDoes i n s) :
    KeyOut cfg w s := by
  cases s with
  | submission s => exact h.elim
  | _ => trivial

/-- Rewriting a submission that has been read, with its key. -/
theorem updateSubmission_keeps {s : Nat} {row new : Submission}
    (hgrow : ∀ w w', τ.grow w w' → Persists Submission.keyed w.submissions w'.submissions)
    (hnew : new.dedupeKey = row.dedupeKey)
    (hknown : ∀ w, known w → ∃ w₀, w₀.submissions s = some row ∧ τ.grow w₀ w) :
    (updateSubmission s new).Keeps (system cfg passNotes) τ a (keyConduct cfg) known := by
  refine Prog.keeps_known fun g busy _ hg => ?_
  obtain ⟨w₀, hrow, hsince⟩ := hknown _ hg
  obtain ⟨row', hrow', hsame⟩ := hgrow _ _ hsince s row hrow
  have hkey : row'.dedupeKey = row.dedupeKey := congrArg (fun k => k.2.2) hsame
  exact ⟨row', hrow', hnew.trans hkey.symm⟩

variable {tags : Tag → Prop} (hD : Lenient cfg τ a.pid (keyConduct cfg) tags)
  (hgrow : ∀ w w', τ.grow w w' → Persists Submission.keyed w.submissions w'.submissions)

include hD hgrow

theorem applyVerdict_keyed {body : VerdictBody} {verificationId : Nat} :
    (applyVerdict cfg body verificationId).Keeps (system cfg passNotes) τ a (keyConduct cfg)
      known := by
  refine hD.learn fun w r hrow => ?_
  cases r with
  | none => exact Prog.keeps_ret
  | some submission =>
      refine Prog.Keeps.bind (updateSubmission_keeps hgrow
        (rfl : _ = submission.dedupeKey) fun x hx => ⟨w, hrow, hx.2⟩) fun _ => ?_
      refine Prog.Every.keeps (?_ : Prog.Every JudgedDoes _) fun _ _ _ hs => hs.keyOut
      refine (recordReputation_every.mono fun _ hs => hs.judged).bind fun _ => ?_
      refine (registerOnPass_every.mono fun _ hs => hs.judged).bind fun _ => ?_
      refine Prog.every_perform_bind.mpr ⟨trivial, fun job => ?_⟩
      cases job with
      | none => trivial
      | some job => exact requeueOrComplete_every

theorem verifierVerdict_keyed {body : VerdictBody} :
    (verifierVerdict cfg body).Keeps (system cfg passNotes) τ a (keyConduct cfg) known := by
  have hread : ∀ g busy q, (keyConduct cfg).out g (.read q) busy := fun _ _ _ => trivial
  refine Prog.keeps_perform_bind (fun g busy => hread g busy _) fun v => ?_
  cases v with
  | none => exact Prog.keeps_ret
  | some v =>
      refine Prog.Keeps.ite (fun _ => Prog.keeps_ret) fun _ => ?_
      refine Prog.Keeps.ite (fun _ => ?_) fun _ => ?_
      · refine Prog.keeps_perform_bind (fun g busy => hread g busy _) fun submission => ?_
        cases submission with
        | none => exact Prog.keeps_ret
        | some submission =>
            exact Prog.keeps_perform_bind (fun g busy => hread g busy _) fun _ => Prog.keeps_ret
      · refine Prog.keeps_perform_bind (fun g busy => hread g busy _) fun now => ?_
        refine Prog.Keeps.ite (fun _ => Prog.keeps_ret) fun _ => ?_
        exact Prog.keeps_perform_bind (fun _ _ => trivial) fun _ => applyVerdict_keyed hD hgrow

theorem handleVerificationRequested_keyed {i s n : Nat} :
    (handleVerificationRequested cfg i s n).Keeps (system cfg passNotes) τ a (keyConduct cfg)
      known := by
  refine Prog.Keeps.bind ((verifierClaim_every _).keeps fun _ _ _ hs => hs.keyOut) fun r => ?_
  cases r with
  | error status code message => exact Prog.keeps_fail
  | ok claim =>
      refine Prog.keeps_perform_bind (fun _ _ => trivial) fun answer => ?_
      refine (verifierVerdict_keyed hD hgrow).bind fun posted => ?_
      cases posted with
      | error status code message => exact Prog.keeps_fail
      | ok posted => exact Prog.keeps_ret

theorem markDuplicateRoute_keyed {s : Nat} :
    (markDuplicateRoute s).Keeps (system cfg passNotes) τ a (keyConduct cfg) known := by
  refine hD.learn fun w r hrow => ?_
  cases r with
  | none => exact Prog.keeps_ret
  | some sub =>
      refine Prog.Keeps.bind (updateSubmission_keeps hgrow
        (rfl : _ = sub.dedupeKey) fun x hx => ⟨w, hrow, hx.2⟩) fun _ => ?_
      refine Prog.keeps_perform_bind (fun _ _ => trivial) fun job => ?_
      cases job with
      | none => exact Prog.keeps_ret
      | some job => exact Prog.keeps_perform_bind (fun _ _ => trivial) fun _ => Prog.keeps_ret

end Walks

/-- Every request but the override keeps to the conduct. -/
theorem Request.keys_does {cfg : Config} {τ : Terms World Lock (Nat × Nat)} {pid : Nat}
    (q : Request) (hq : ∀ s v score, q ≠ .overrideVerdict s v score)
    (hgrows : ∀ w w', τ.grow w w' → w.Grows w')
    (hgrow : ∀ w w', τ.grow w w' → Persists Submission.keyed w.submissions w'.submissions) :
    (q.code cfg pid).Does (system cfg passNotes) τ ⟨pid, q⟩ (keyConduct cfg)
      (fun _ _ => True) (fun _ _ => True) .start := by
  have hD : ∀ tags, Lenient cfg τ pid (keyConduct cfg) tags := fun tags =>
    { grow := hgrows
      read := fun _ _ _ => trivial
      nanoid := fun _ _ => trivial
      inside := fun _ _ _ _ _ => trivial
      commit := fun _ _ _ _ _ _ => trivial }
  have hkeeps : (q.code cfg pid).Keeps (system cfg passNotes) τ ⟨pid, q⟩ (keyConduct cfg)
      fun _ => True := by
    cases q with
    | submit i j key body =>
        exact (submitRoute_writes.keeps fun _ _ _ hs => hs.keyOut).bind fun _ => Prog.keeps_ret
    | verifierVerdict body =>
        exact (verifierVerdict_keyed (a := ⟨pid, _⟩) (hD fun _ => True) hgrow).bind
          fun _ => Prog.keeps_ret
    | markDuplicate s =>
        exact (markDuplicateRoute_keyed (a := ⟨pid, _⟩) (hD fun _ => True) hgrow).bind
          fun _ => Prog.keeps_ret
    | overrideVerdict s v score => exact absurd rfl (hq s v score)
    | verificationRunner =>
        refine Prog.Keeps.bind ?_ fun _ => Prog.keeps_ret
        refine runOutboxLoop_keeps_of (a := ⟨pid, .verificationRunner⟩) (hD fun _ => True) trivial
          fun evt htopic => ?_
        refine deliver_keeps_of (a := ⟨pid, .verificationRunner⟩) ?_ fun s _ _ _ => trivial
        obtain ⟨key, n⟩ := evt
        cases key with
        | verification s n =>
            exact handleVerificationRequested_keyed (a := ⟨pid, _⟩) (hD fun _ => True) hgrow
        | _ => exact absurd htopic (by simp [verificationTopics, OutboxKey.topic])
    | _ =>
        refine Request.code_keeps (a := ⟨pid, _⟩) (hD _) fun g s busy h _ => ?_
        cases s with
        | submission s =>
            cases s with
            | insert i row => exact absurd (Request.inserts_submission h) (by simp)
            | update i row => exact absurd (Request.updates_submission h) (by simp)
            | setPayoutStatus i st => trivial
        | _ => trivial
  exact (hkeeps .start ⟨⟨rfl, rfl⟩, fun _ _ _ => trivial⟩).mono (fun _ _ _ => trivial)
    (fun _ _ _ => trivial) (fun _ _ _ h => h) (fun _ _ _ _ h => h) fun _ _ _ _ h => h

section States

variable {cfg : Config} {w w' : World} {sub sub' : Submission}

theorem bountyOf_grows {b : Nat} (h : w.bountyOf sub = some b) (hgrow : w.Grows w') :
    w'.bountyOf sub = some b := by
  obtain ⟨job, hjob, rfl⟩ := Option.map_eq_some_iff.mp h
  obtain ⟨job', hjob', hsame⟩ := hgrow.jobs _ job hjob
  exact Option.map_eq_some_iff.mpr ⟨job', hjob', hsame⟩

theorem Submission.Keyed.kept (h : sub.Keyed cfg w) (hgrow : w.Grows w')
    (hsame : sub'.keyed = sub.keyed) : sub'.Keyed cfg w' := by
  obtain ⟨hjob, hmanifest, hkey⟩ : sub'.jobId = sub.jobId ∧ sub'.manifest = sub.manifest ∧
      sub'.dedupeKey = sub.dedupeKey := by
    simpa [Submission.keyed] using hsame
  refine ⟨by rw [hkey, hmanifest, h.key], ?_⟩
  have hbounty : w'.bountyOf sub = some sub.manifest.bountyId := bountyOf_grows h.bounty hgrow
  rw [hmanifest, ← hbounty, World.bountyOf, World.bountyOf, hjob]

/-- What its bounty compares a submission under. -/
theorem Submission.Keyed.keyOf {s : Nat} (h : sub.Keyed cfg w) (hsub : w.submissions s = some sub) :
    w.keyOf s = some (sub.manifest.entry cfg) := by
  simp [World.keyOf, hsub, h.bounty, h.key, Manifest.entry]

/-- What has been accepted is registered, or a verdict is still to register it, and no two
accepted submissions of a bounty have observed the same. -/
structure KeysHold (cfg : Config) (g : Glob World (Nat × Nat)) : Prop where
  keyed : ∀ s sub, g.world.submissions s = some sub → sub.Keyed cfg g.world
  marked : ∀ s sub, g.world.submissions s = some sub → sub.status = .accepted →
    g.world.acceptedDedupe (sub.manifest.entry cfg) = true ∨
      ∃ e ∈ g.hist, e.2 = sub.manifest.entry cfg
  distinct : Distinct g.world

variable {g g' : Glob World (Nat × Nat)}

/-- What a step that accepts nothing does to the submissions. -/
structure AcceptsNone (cfg : Config) (g g' : Glob World (Nat × Nat)) : Prop where
  grows : g.world.Grows g'.world
  registered : ∀ k, g.world.acceptedDedupe k = true → g'.world.acceptedDedupe k = true
  hist : g.hist ⊆ g'.hist
  rows : ∀ s sub', g'.world.submissions s = some sub' →
    (sub'.Keyed cfg g.world ∧ sub'.status ≠ .accepted) ∨
      ∃ sub, g.world.submissions s = some sub ∧ sub'.keyed = sub.keyed ∧
        (sub'.status = .accepted → sub.status = .accepted)

theorem Submission.manifest_of_keyed (h : sub'.keyed = sub.keyed) :
    sub'.jobId = sub.jobId ∧ sub'.manifest = sub.manifest := by
  simp only [Submission.keyed, Prod.mk.injEq] at h
  exact ⟨h.1, h.2.1⟩

theorem KeysHold.acceptsNone (h : KeysHold cfg g) (hstep : AcceptsNone cfg g g') :
    KeysHold cfg g' := by
  have haccepted : ∀ s sub', g'.world.submissions s = some sub' → sub'.status = .accepted →
      ∃ sub, g.world.submissions s = some sub ∧ sub.status = .accepted ∧ sub'.keyed = sub.keyed := by
    intro s sub' hsub' hstatus
    obtain ⟨-, hnot⟩ | ⟨sub, hsub, hsame, hback⟩ := hstep.rows s sub' hsub'
    · exact absurd hstatus hnot
    · exact ⟨sub, hsub, hback hstatus, hsame⟩
  have hbounty : ∀ b s sub', g'.world.submissions s = some sub' → sub'.status = .accepted →
      g'.world.bountyOf sub' = some b →
      ∃ sub, g.world.submissions s = some sub ∧ sub.status = .accepted ∧
        sub'.manifest = sub.manifest ∧ g.world.bountyOf sub = some b := by
    intro b s sub' hsub' hstatus hb
    obtain ⟨sub, hsub, hstatus, hsame⟩ := haccepted s sub' hsub' hstatus
    obtain ⟨hjob, hmanifest⟩ := Submission.manifest_of_keyed hsame
    have hold := (h.keyed s sub hsub).bounty
    have hnew : g'.world.bountyOf sub' = some sub.manifest.bountyId := by
      rw [World.bountyOf, hjob]
      exact bountyOf_grows hold hstep.grows
    exact ⟨sub, hsub, hstatus, hmanifest, hold.trans (hnew.symm.trans hb)⟩
  refine ⟨fun s sub' hsub' => ?_, fun s sub' hsub' hstatus => ?_, ?_⟩
  · obtain ⟨hkeyed, -⟩ | ⟨sub, hsub, hsame, -⟩ := hstep.rows s sub' hsub'
    · exact hkeyed.kept hstep.grows rfl
    · exact (h.keyed s sub hsub).kept hstep.grows hsame
  · obtain ⟨sub, hsub, hstatus, hsame⟩ := haccepted s sub' hsub' hstatus
    rw [(Submission.manifest_of_keyed hsame).2]
    obtain hregistered | ⟨e, he, hentry⟩ := h.marked s sub hsub hstatus
    · exact Or.inl (hstep.registered _ hregistered)
    · exact Or.inr ⟨e, hstep.hist he, hentry⟩
  · intro b s₁ s₂ sub₁' sub₂' hsub₁ hsub₂ hstatus₁ hstatus₂ hb₁ hb₂ hobserved
    obtain ⟨sub₁, hsub₁, hstatus₁, hmanifest₁, hb₁⟩ := hbounty b s₁ sub₁' hsub₁ hstatus₁ hb₁
    obtain ⟨sub₂, hsub₂, hstatus₂, hmanifest₂, hb₂⟩ := hbounty b s₂ sub₂' hsub₂ hstatus₂ hb₂
    rw [hmanifest₁, hmanifest₂] at hobserved
    exact h.distinct b s₁ s₂ sub₁ sub₂ hsub₁ hsub₂ hstatus₁ hstatus₂ hb₁ hb₂ hobserved

/-- A pass that finds its key neither registered nor noted. -/
theorem KeysHold.accepts (h : KeysHold cfg g) {s : Nat} {new row : Submission}
    (hrow : g.world.submissions s = some row) (hkey : new.dedupeKey = row.dedupeKey)
    (hregistered : g.world.acceptedDedupe (row.manifest.entry cfg) = false)
    (hnoted : ∀ e ∈ g.hist, e.2 ≠ row.manifest.entry cfg)
    (hjobs : g'.world.jobs = g.world.jobs)
    (hdedupe : g'.world.acceptedDedupe = g.world.acceptedDedupe)
    (hsubmissions : g'.world.submissions = modify g.world.submissions s (SubmissionStmt.assign new))
    (hsubset : g.hist ⊆ g'.hist) (hnote : ∃ e ∈ g'.hist, e.2 = row.manifest.entry cfg) :
    KeysHold cfg g' := by
  have hbountyOf : g'.world.bountyOf = g.world.bountyOf := by
    funext sub
    rw [World.bountyOf, World.bountyOf, hjobs]
  have hself : g'.world.submissions s = some (SubmissionStmt.assign new row) := by
    rw [hsubmissions, modify_self, hrow]
    rfl
  have hothers : ∀ s', s' ≠ s → g'.world.submissions s' = g.world.submissions s' := by
    intro s' hne
    rw [hsubmissions, modify_of_ne hne]
  have hkeyed : ∀ sub : Submission, sub.Keyed cfg g.world → sub.Keyed cfg g'.world := fun _ hsub =>
    ⟨hsub.key, hbountyOf ▸ hsub.bounty⟩
  have hclash : ∀ b s' sub, s' ≠ s → g'.world.submissions s' = some sub → sub.status = .accepted →
      g'.world.bountyOf sub = some b → g'.world.bountyOf row = some b →
      sub.manifest.observed ≠ row.manifest.observed := by
    intro b s' sub hne hsub hstatus hb hbrow hobserved
    rw [hothers s' hne] at hsub
    rw [hbountyOf] at hb hbrow
    have hsubBounty : sub.manifest.bountyId = b :=
      Option.some.inj ((h.keyed s' sub hsub).bounty.symm.trans hb)
    have hrowBounty : row.manifest.bountyId = b :=
      Option.some.inj ((h.keyed s row hrow).bounty.symm.trans hbrow)
    have hentry : sub.manifest.entry cfg = row.manifest.entry cfg := by
      rw [Manifest.entry, Manifest.entry, Manifest.dedupeKey, Manifest.dedupeKey, hsubBounty,
        hrowBounty, hobserved]
    obtain hreg | ⟨e, he, hnote⟩ := h.marked s' sub hsub hstatus
    · rw [hentry, hregistered] at hreg
      exact absurd hreg (by simp)
    · exact hnoted e he (hnote.trans hentry)
  refine ⟨fun s' sub hsub => ?_, fun s' sub hsub hstatus => ?_, ?_⟩
  · by_cases hs : s' = s
    · subst hs
      obtain rfl : SubmissionStmt.assign new row = sub := Option.some.inj (hself.symm.trans hsub)
      have hold := hkeyed row (h.keyed s' row hrow)
      exact ⟨hkey.trans hold.key, hold.bounty⟩
    · rw [hothers s' hs] at hsub
      exact hkeyed sub (h.keyed s' sub hsub)
  · by_cases hs : s' = s
    · subst hs
      obtain rfl : SubmissionStmt.assign new row = sub := Option.some.inj (hself.symm.trans hsub)
      exact Or.inr hnote
    · rw [hothers s' hs] at hsub
      rw [hdedupe]
      exact (h.marked s' sub hsub hstatus).imp_right fun ⟨e, he, hentry⟩ => ⟨e, hsubset he, hentry⟩
  · intro b s₁ s₂ sub₁ sub₂ hsub₁ hsub₂ hstatus₁ hstatus₂ hb₁ hb₂ hobserved
    by_cases hs₁ : s₁ = s
    · subst hs₁
      obtain rfl : SubmissionStmt.assign new row = sub₁ := Option.some.inj (hself.symm.trans hsub₁)
      by_contra hne
      exact hclash b s₂ sub₂ (Ne.symm hne) hsub₂ hstatus₂ hb₂ hb₁ hobserved.symm
    · by_cases hs₂ : s₂ = s
      · subst hs₂
        obtain rfl : SubmissionStmt.assign new row = sub₂ := Option.some.inj (hself.symm.trans hsub₂)
        exact absurd hobserved (hclash b s₁ sub₁ hs₁ hsub₁ hstatus₁ hb₁ hb₂)
      · rw [hothers s₁ hs₁] at hsub₁
        rw [hothers s₂ hs₂] at hsub₂
        rw [hbountyOf] at hb₁ hb₂
        exact h.distinct b s₁ s₂ sub₁ sub₂ hsub₁ hsub₂ hstatus₁ hstatus₂ hb₁ hb₂ hobserved

end States

/-- The plan: what is accepted is distinct. -/
def keysPlan (cfg : Config) : Plan (system cfg passNotes) :=
  { systemPlan cfg passNotes keysFresh (fun q => ∀ s v score, q ≠ .overrideVerdict s v score)
      (KeysHold cfg) (fun _ _ _ => True) (fun _ _ _ => True) with
    grow := fun w w' => w.Grows w' ∧ Persists Submission.keyed w.submissions w'.submissions
    conduct := fun a => (Request.conduct cfg (fun _ _ _ => True) a).and (keyConduct cfg) }

section Steps

variable {cfg : Config} {l : Step} {L : List Lock} {g g' : Glob World (Nat × Nat)}

/-- A step keeps the keys of the submissions. -/
theorem keysPlan_grow_step (h : (keysPlan cfg).Move l L g g') :
    g.world.Grows g'.world ∧ Persists Submission.keyed g.world.submissions g'.world.submissions := by
  refine ⟨Conducted.grows
    (fun a g t L w (hcom : (a.req.Ends t ∧ t.Effect cfg (fun _ _ _ => True) a.pid L g.world w) ∧ _) =>
      hcom.1.2.grows) h.conducted, ?_⟩
  obtain ⟨-, -, hstep⟩ := h
  cases hstep with
  | stmt a s busy _ _ _ hout =>
      change Persists Submission.keyed _ (s.apply busy g.world).submissions
      rw [Stmt.apply_submissions]
      cases s with
      | submission s =>
          cases s with
          | insert i row =>
              refine Persists.ite fun hfree => .insert ?_
              simp only [SubmissionStmt.free, Bool.and_eq_true] at hfree
              exact Option.isNone_iff_eq_none.mp hfree.1
          | update i new =>
              obtain ⟨row, hrow, hkey⟩ : KeyOut cfg g.world (.submission (.update i new)) := hout.2
              intro k r hr
              refine ⟨_, modify_eq_some hr, ?_⟩
              split_ifs with hk
              · subst hk
                obtain rfl : row = r := Option.some.inj (hrow.symm.trans hr)
                simp [Submission.keyed, SubmissionStmt.assign, hkey]
              · rfl
          | setPayoutStatus i st => exact .modify fun _ => rfl
      | _ => exact .refl
  | inner a s busy v _ _ _ =>
      change Persists Submission.keyed _ (s.effect busy _ g.world).submissions
      rw [Stmt.effect_submissions]
      exact .refl
  | commit a t L v _ _ hcom => exact hcom.1.2.submissions.1.persists fun _ _ => rfl
  | reply a x _ _ _ => exact .refl
  | env e _ =>
      have hsame : (e.apply g.world).submissions = g.world.submissions := by cases e <;> rfl
      change Persists Submission.keyed _ (e.apply g.world).submissions
      rw [hsame]
      exact .refl

/-- Rows that have changed in their payout status only. -/
theorem rows_reversed {t t' : Nat → Option Submission} (h : Reversed t t') {w : World} :
    ∀ s sub', t' s = some sub' → (sub'.Keyed cfg w ∧ sub'.status ≠ .accepted) ∨
      ∃ sub, t s = some sub ∧ sub'.keyed = sub.keyed ∧
        (sub'.status = .accepted → sub.status = .accepted) := by
  intro s sub' hsub'
  obtain ⟨sub, st, hsub, rfl⟩ := h.row hsub'
  exact Or.inr ⟨sub, hsub, rfl, id⟩

/-- What a statement on submissions keeps, if those that pass are fresh. -/
theorem KeysHold.submission_step (h : KeysHold cfg g) {a : Actor Request} {s : SubmissionStmt}
    {busy : Lock → Bool} {r : s.Val}
    (hgrow : g.world.Grows (Stmt.apply (.submission s) busy g.world))
    (hok : keysFresh (.event a (.stmt (.submission s) r)) g = true)
    (hout : KeyOut cfg g.world (.submission s)) :
    KeysHold cfg ((system cfg passNotes).afterStmt a (.submission s) busy none g) := by
  have hsubmissions := Stmt.apply_submissions (.submission s) busy g.world
  have hregistered := Stmt.apply_acceptedDedupe (.submission s) busy g.world
  have hnone : (∀ s' sub', (Stmt.apply (.submission s) busy g.world).submissions s' = some sub' →
      (sub'.Keyed cfg g.world ∧ sub'.status ≠ .accepted) ∨
        ∃ sub, g.world.submissions s' = some sub ∧ sub'.keyed = sub.keyed ∧
          (sub'.status = .accepted → sub.status = .accepted)) →
      KeysHold cfg ((system cfg passNotes).afterStmt a (.submission s) busy none g) := fun hrows =>
    h.acceptsNone ⟨hgrow, fun k hk => (congrFun hregistered k).trans hk,
      List.subset_append_right _ _, hrows⟩
  cases s with
  | insert i row =>
      obtain ⟨hkey, hstatus⟩ := hout
      have hbounty : g.world.bountyOf row = some row.manifest.bountyId := of_decide_eq_true hok
      refine hnone fun s' sub' hsub' => ?_
      rw [hsubmissions] at hsub'
      simp only [SubmissionStmt.write] at hsub'
      split_ifs at hsub' with hfree
      · by_cases hs : s' = i
        · subst hs
          obtain rfl : row = sub' := by simpa using hsub'
          exact Or.inl ⟨⟨hkey, hbounty⟩, hstatus⟩
        · exact Or.inr ⟨sub', by simpa [hs] using hsub', rfl, id⟩
      · exact Or.inr ⟨sub', hsub', rfl, id⟩
  | update i new =>
      obtain ⟨row, hrow, hkey⟩ := hout
      by_cases hold : new.status = .accepted → row.status = .accepted
      · refine hnone fun s' sub' hsub' => ?_
        rw [hsubmissions] at hsub'
        obtain ⟨sub, hsub⟩ := exists_of_modify hsub'
        obtain rfl := Option.some.inj ((modify_eq_some hsub).symm.trans hsub')
        refine Or.inr ⟨sub, hsub, ?_⟩
        split_ifs with hs
        · subst hs
          obtain rfl : row = sub := Option.some.inj (hrow.symm.trans hsub)
          exact ⟨by simp [Submission.keyed, SubmissionStmt.assign, hkey], hold⟩
        · exact ⟨rfl, id⟩
      · obtain ⟨hstatus, hnew⟩ := Classical.not_imp.mp hold
        have hentry := (h.keyed i row hrow).keyOf hrow
        have hfresh : g.world.acceptedDedupe (row.manifest.entry cfg) = false ∧
            ∀ e ∈ g.hist, e.2 ≠ row.manifest.entry cfg := by
          simpa [keysFresh, hstatus, hrow, hnew, hentry] using hok
        refine h.accepts hrow hkey hfresh.1 hfresh.2
          (Stmt.apply_jobs (.submission (.update i new)) busy g.world) hregistered hsubmissions
          (List.subset_append_right _ _) ?_
        refine ⟨(a.pid, row.manifest.entry cfg), List.mem_append_left _ ?_, rfl⟩
        refine List.mem_map.mpr ⟨_, ?_, rfl⟩
        change row.manifest.entry cfg ∈
          if new.status = .accepted then (g.world.keyOf i).toList else []
        rw [if_pos hstatus, hentry]
        exact List.mem_singleton_self _
  | setPayoutStatus i st => exact hnone (rows_reversed (hsubmissions ▸ .status i st))

/-- A step keeps what holds of the keys. -/
theorem keysPlan_inv_step (h : (keysPlan cfg).Move l L g g') : KeysHold cfg g' := by
  have hgrow := (keysPlan_grow_step h).1
  obtain ⟨hinv, hok, hstep⟩ := h
  have hinv : KeysHold cfg g := hinv
  cases hstep with
  | stmt a s busy _ _ _ hout =>
      have hregistered := s.apply_acceptedDedupe busy g.world
      have hsubmissions := s.apply_submissions busy g.world
      cases s with
      | submission s => exact hinv.submission_step hgrow hok hout.2
      | acceptedDedupe b key =>
          refine hinv.acceptsNone ⟨hgrow, fun k hk => (congrFun hregistered k).trans ?_,
            List.subset_append_right _ _, rows_reversed (hsubmissions ▸ .same)⟩
          by_cases heq : k = (b, key)
          · simp [heq]
          · simpa [heq] using hk
      | _ =>
          exact hinv.acceptsNone ⟨hgrow, fun k hk => (congrFun hregistered k).trans hk,
            List.subset_append_right _ _, rows_reversed (hsubmissions ▸ .same)⟩
  | inner a s busy v _ _ _ =>
      have hsame := s.effect_submissions busy (v g.world) g.world
      refine hinv.acceptsNone ⟨hgrow, fun k hk => ?_, List.subset_append_right _ _, ?_⟩
      · exact (congrFun (s.effect_acceptedDedupe busy (v g.world) g.world) k).trans hk
      · have hreversed : Reversed g.world.submissions
            (s.effect busy (v g.world) g.world).submissions := hsame ▸ .same
        exact rows_reversed hreversed
  | commit a t L v _ _ hcom =>
      obtain ⟨hrows, hdedupe, -⟩ := hcom.1.2.submissions
      exact hinv.acceptsNone ⟨hgrow, fun k hk => (congrFun hdedupe k).trans hk,
        List.subset_append_right _ _, rows_reversed hrows⟩
  | reply a x _ _ _ =>
      exact hinv.acceptsNone ⟨hgrow, fun _ hk => hk, List.subset_append_right _ _,
        rows_reversed .same⟩
  | env e _ =>
      have hsame : (e.apply g.world).submissions = g.world.submissions ∧
          (e.apply g.world).acceptedDedupe = g.world.acceptedDedupe := by
        cases e <;> exact ⟨rfl, rfl⟩
      have hreversed : Reversed g.world.submissions (e.apply g.world).submissions :=
        hsame.1 ▸ .same
      exact hinv.acceptsNone ⟨hgrow, fun k hk => (congrFun hsame.2 k).trans hk,
        fun _ he => he, rows_reversed hreversed⟩

theorem keysPlan_valid (cfg : Config) : (keysPlan cfg).Valid where
  grow_trans _ _ _ h h' := ⟨h.1.trans h'.1, h.2.trans h'.2⟩
  grow_refl w := ⟨.refl w, .refl⟩
  hold_trans _ _ _ _ _ _ := trivial
  drift_refl _ _ := trivial
  drift_trans _ _ _ _ _ _ := trivial
  spawn q g hok := by
    rintro s v score rfl
    exact absurd hok (by simp [keysPlan, systemPlan, keysFresh])
  does i q hasked := ((Request.code_does (τ := (keysPlan cfg).toTerms) (fun _ _ h => h.1) i q).and
    (q.keys_does hasked (fun _ _ h => h.1) fun _ _ h => h.2)).mono
    (fun _ _ _ _ _ _ => trivial) (fun _ _ _ => trivial) (fun _ _ _ h => h) (fun _ _ _ _ h => h)
    fun _ _ _ _ h => h
  inv_step _ _ _ _ := keysPlan_inv_step
  grow_step _ _ _ _ := keysPlan_grow_step
  hold_step _ _ _ _ _ _ _ := trivial
  drift_step _ _ _ _ _ _ _ := trivial

end Steps

/-- Two jobs of one bounty, held by workers 3 and 4. -/
def twoJobs : World :=
  { World.empty with
    nextId := 5
    orgs := Function.update World.empty.orgs 9 (some ⟨none, none, none, 0, none⟩)
    bounties := Function.update World.empty.bounties 1
      (some ⟨9, .published, [], [7, 8], 100, 0, 0, some 0⟩)
    jobs := fun j => if j = 2 ∨ j = 3 then
        some { Job.fresh 1 7 0 0 with
          status := .claimed
          leaseWorkerId := some (j + 1)
          leaseExpiresAt := some 100
          leaseNonce := some 4 }
      else none }

theorem twoJobs_registered : Registered Config.default twoJobs := by
  have hnone : ∀ s sub, twoJobs.submissions s ≠ some sub := fun s sub hsub =>
    absurd hsub (by simp [twoJobs, World.empty])
  exact ⟨fun s sub hsub => absurd hsub (hnone s sub), fun s sub hsub => absurd hsub (hnone s sub),
    fun b s₁ s₂ sub₁ sub₂ hsub₁ => absurd hsub₁ (hnone s₁ sub₁)⟩

/-- Worker 3 submits the result 6 on job 2 and passes; worker 4 submits `second` on job 3
and passes too. -/
def passTwice (second : Manifest) : List Pick :=
  ([.spawn (.submit 3 2 none ⟨⟨1, 6, .absent, 0⟩, [], none⟩)] : List Pick) ++
    @List.replicate Pick 14 (.run 0) ++ ([.spawn (.verifierClaim ⟨5, 1, 7, 600⟩)] : List Pick) ++
    @List.replicate Pick 8 (.run 1) ++
    ([.spawn (.verifierVerdict ⟨5, 1, 7, .pass, "ok", 1⟩)] : List Pick) ++
    @List.replicate Pick 22 (.run 2) ++
    ([.spawn (.submit 4 3 none ⟨second, [], none⟩)] : List Pick) ++
    @List.replicate Pick 14 (.run 3) ++ ([.spawn (.verifierClaim ⟨9, 1, 7, 600⟩)] : List Pick) ++
    @List.replicate Pick 8 (.run 4) ++
    ([.spawn (.verifierVerdict ⟨9, 1, 11, .pass, "ok", 1⟩)] : List Pick) ++
    @List.replicate Pick 22 (.run 5)

/-- Submission `s` is accepted. -/
def World.accepted (w : World) (s : Nat) : Bool :=
  (w.submissions s).any fun sub => decide (sub.status = .accepted)

end OpenUnion
