import OpenUnion.Interleave.Settling
import OpenUnion.Safety.Artifacts

/-!
# Uploads that wait for a scan

With S3 the completion of an upload marks the artifact uploaded and enqueues a scan under a key
that is taken for ever, so a second completion enqueues nothing.  A round of the scanner marks
the event sent once the scan has found the artifact settled.

* `uploads_wait_for_scan`: when a completion takes up no artifact that is scanned or accepted,
  enqueues while no scan of the artifact is sent, and is not cut off in between, and a scanner
  writes and marks only while its event and the row are as it has seen them, every artifact
  that waits for a scan has an event that is not sent.
* `completed_twice`: a second completion after the scan takes the artifact back for ever.
-/

namespace OpenUnion.Storage

open Interleave

/-- The row waits for a scan. -/
def Artifact.waiting (a : Artifact) : Bool := decide (a.status = .uploaded ∨ a.status = .scanFailed)

/-- The artifact waits for a scan. -/
def World.waits (w : World) (id : String) : Bool := (w.artifacts id).any Artifact.waiting

/-- The artifact has a scan event that is not sent. -/
def World.unsent (w : World) (id : String) : Bool :=
  (w.events id).any fun e => decide (e.status ≠ .sent)

/-- The artifact is scanned or accepted. -/
def World.finished (w : World) (id : String) : Bool := (w.artifacts id).any Artifact.servable

/-- The note lets the artifact wait for a scan. -/
def Executed.waits (id : String) : Executed → Bool
  | ⟨_, .update id' u, _⟩ =>
      decide (id' = id ∧ (u.status = some .uploaded ∨ u.status = some .scanFailed))
  | _ => false

/-- The note marks the scan of the artifact sent. -/
def Executed.sends (id : String) : Executed → Bool
  | ⟨_, .markSent id', _⟩ => decide (id' = id)
  | _ => false

/-- The note has scanned or accepted the artifact. -/
def Executed.finishes (id : String) : Executed → Bool
  | ⟨_, .update id' u, _⟩ => decide (id' = id ∧ u.status = some .scanned)
  | ⟨_, .acceptAll _, ids⟩ => decide (id ∈ ids)
  | _ => false

/-- The request has marked the artifact uploaded, and has not enqueued a scan yet. -/
def owesScan (id : String) : List Executed → Bool
  | [] => false
  | ⟨_, .update id' (.completed _ _), _⟩ :: ns => decide (id' = id) || owesScan id ns
  | ⟨_, .enqueueScan id', _⟩ :: ns => if id' = id then false else owesScan id ns
  | _ :: ns => owesScan id ns

/-- The request has marked some artifact uploaded, and has not enqueued a scan yet. -/
def owesScans (ns : List Executed) : Bool :=
  ns.any fun n => match n with
    | ⟨_, .update id (.completed _ _), _⟩ => owesScan id ns
    | _ => false

/-- The requests of the flow from a completed upload to a scan. -/
def Request.ofScans : Request → Bool
  | .complete .. | .verifierComplete .. | .scannerRound | .submit .. | .accept _ | .quarantine ..
  | .download .. => true
  | .upload .. | .verifierUpload .. | .deliverDelete _ | .adminDelete _ => false

/-- What holds of a statement of this flow when every upload that waits gets scanned. -/
def keepsScanned (a : Actor Request) (g : Glob World Executed) : Stmt → Bool
  | .update id (.completed _ _) =>
      (lastRow (own a.pid g.hist) id).all (fun row => !row.servable) &&
        !Ever (Executed.finishes id) (since a.pid (Executed.reads id) g.hist)
  | .update id (.scanStarted _ _) | .update id (.scanFailed _ _ _) =>
      !Ever (Executed.sends id) (since a.pid (Executed.claims id) g.hist)
  | .enqueueScan id => (g.world.events id).all fun e => decide (e.status ≠ .sent)
  | .markSent id => !Ever (Executed.waits id) (since a.pid (Executed.settles id) g.hist)
  | _ => true

/-- When every upload that waits gets scanned, in the runs of completions, scans, submissions,
verdicts, quarantines and downloads: a completion marks only an artifact it has read neither
scanned nor accepted, and that has become neither since, and enqueues only while no scan of the
artifact is sent; it does not fail and is not killed in between; a scanner marks a row uploaded
or failed only if nobody has marked the event sent since it took it; and it marks the event sent
only if nothing has let the artifact wait again since it found it settled. -/
def getsScanned : Step → Glob World Executed → Bool
  | .event a (.stmt s _), g => a.req.ofScans && keepsScanned a g s
  | .fault a, g | .crash a, g => !owesScans (own a.pid g.hist)
  | _, _ => true

section Notes

variable {id : String} {n : Executed} {ns : List Executed}

/-- A completion that owes a scan owes one of an artifact it has completed. -/
theorem owesScans_of_owesScan (h : owesScan id ns = true) : owesScans ns = true := by
  have hmem : ∀ ns, owesScan id ns = true → ∃ q sha256 sizeBytes v,
      (⟨q, .update id (.completed sha256 sizeBytes), v⟩ : Executed) ∈ ns := by
    intro ns h
    induction ns with
    | nil => exact absurd h (by simp [owesScan])
    | cons n ns ih =>
        have hlater : owesScan id ns = true → ∃ q sha256 sizeBytes v,
            (⟨q, .update id (.completed sha256 sizeBytes), v⟩ : Executed) ∈ n :: ns := by
          intro h
          obtain ⟨q, sha256, sizeBytes, v, hn⟩ := ih h
          exact ⟨q, sha256, sizeBytes, v, List.mem_cons_of_mem _ hn⟩
        unfold owesScan at h
        split at h
        · exact absurd h (by simp)
        · rename_i heq
          obtain ⟨rfl, rfl⟩ := List.cons.inj heq
          obtain hid | h := Bool.or_eq_true_iff.mp h
          · obtain rfl := of_decide_eq_true hid
            exact ⟨_, _, _, _, List.mem_cons_self⟩
          · exact hlater h
        · rename_i heq
          obtain ⟨rfl, rfl⟩ := List.cons.inj heq
          split at h
          · exact absurd h (by simp)
          · exact hlater h
        · rename_i heq
          obtain ⟨rfl, rfl⟩ := List.cons.inj heq
          exact hlater h
  obtain ⟨q, sha256, sizeBytes, v, hn⟩ := hmem ns h
  exact List.any_eq_true.mpr ⟨_, hn, h⟩

/-- Only a completion makes a request owe a scan. -/
theorem owesScan_cons_of (h : owesScan id (n :: ns) = true)
    (hn : ∀ q sha256 sizeBytes v, n ≠ ⟨q, .update id (.completed sha256 sizeBytes), v⟩) :
    owesScan id ns = true := by
  unfold owesScan at h
  split at h
  · rename_i heq
    exact absurd heq (by simp)
  · rename_i heq
    obtain ⟨rfl, rfl⟩ := List.cons.inj heq
    obtain hid | h := Bool.or_eq_true_iff.mp h
    · obtain rfl := of_decide_eq_true hid
      exact absurd rfl (hn _ _ _ _)
    · exact h
  · rename_i heq
    obtain ⟨rfl, rfl⟩ := List.cons.inj heq
    split at h
    · exact absurd h (by simp)
    · exact h
  · rename_i heq
    obtain ⟨rfl, rfl⟩ := List.cons.inj heq
    exact h

/-- Only enqueueing settles what a request owes. -/
theorem owesScan_cons (h : owesScan id ns = true)
    (hn : ∀ q v, n ≠ ⟨q, .enqueueScan id, v⟩) : owesScan id (n :: ns) = true := by
  unfold owesScan
  split
  · rename_i heq
    exact absurd heq (by simp)
  · rename_i heq
    obtain ⟨rfl, rfl⟩ := List.cons.inj heq
    rw [h, Bool.or_true]
  · rename_i id' u rest heq
    obtain ⟨rfl, rfl⟩ := List.cons.inj heq
    by_cases hid : id' = id
    · subst hid
      exact absurd rfl (hn _ _)
    · rw [if_neg hid]
      exact h
  · rename_i heq
    obtain ⟨rfl, rfl⟩ := List.cons.inj heq
    exact h

theorem owesScans_iff : owesScans ns = true ↔ ∃ id, owesScan id ns = true := by
  refine ⟨fun h => ?_, fun ⟨id, h⟩ => owesScans_of_owesScan h⟩
  obtain ⟨n, -, h⟩ := List.any_eq_true.mp h
  split at h
  · exact ⟨_, h⟩
  · exact absurd h (by simp)

/-- Statements other than a completion make a request owe nothing new. -/
theorem owesScans_cons_of (h : owesScans (n :: ns) = true)
    (hn : ∀ q id sha256 sizeBytes v, n ≠ ⟨q, .update id (.completed sha256 sizeBytes), v⟩) :
    owesScans ns = true := by
  obtain ⟨id, h⟩ := owesScans_iff.mp h
  exact owesScans_of_owesScan (owesScan_cons_of h fun q => hn q id)

/-- A completion that enqueues at once owes nothing more than before. -/
theorem owesScans_of_enqueued {q : Request} {sha256 : Option String} {sizeBytes : Option Nat}
    {u v : Unit} (h : owesScans (⟨q, .enqueueScan id, v⟩ ::
      ⟨q, .update id (.completed sha256 sizeBytes), u⟩ :: ns) = true) : owesScans ns = true := by
  obtain ⟨id', h⟩ := owesScans_iff.mp h
  by_cases hid : id = id'
  · subst hid
    exact absurd h (by simp [owesScan])
  · exact owesScans_of_owesScan (by simpa [owesScan, hid] using h)

end Notes

section Completions

/-- Nothing is asked of a statement. -/
def freely : Debts Stmt Stmt.Val Executed := ⟨fun _ _ => True, fun _ _ _ => True⟩

/-- The request owes a scan. -/
def Owing (ns : List Executed) : Prop := owesScans ns = true

variable {env : StorageEnv} {a : Actor Request} {ns : List Executed} {id : String}
  {sha256 : Option String} {sizeBytes : Option Nat} {f : Reply → Code Reply}

/-- A statement and what follows it. -/
theorem settles_run {β : Type} {s : Stmt} {f : s.Val → Code β} {F : β → List Executed → Prop}
    {G : String → List Executed → Prop}
    (hnext : ∀ v, (f v).Settles (storage env) a Owing freely F G (⟨a.req, s, v⟩ :: ns))
    (herr : ¬ Owing ns → G "" ns) :
    ((run s).bind f).Settles (storage env) a Owing freely F G ns :=
  ⟨trivial, fun _ seen _ _ => hnext (s.result env seen), herr⟩

/-- What a completion owes it settles, unless it fails in between. -/
def SettlesAll (env : StorageEnv) (a : Actor Request) (p : Code Reply) (ns : List Executed) :
    Prop :=
  p.Settles (storage env) a Owing freely (fun _ ns => ¬ Owing ns) (fun _ ns => ¬ Owing ns) ns

/-- A statement that owes nothing and what follows it. -/
theorem settles_other {s : Stmt} {f : s.Val → Code Reply} (hns : ¬ Owing ns)
    (hs : ∀ id sha256 sizeBytes, s ≠ .update id (.completed sha256 sizeBytes))
    (hnext : ∀ v ns, ¬ Owing ns → SettlesAll env a (f v) ns) :
    SettlesAll env a ((run s).bind f) ns := by
  refine settles_run (fun v => hnext v _ fun howing => hns ?_) fun h => h
  refine owesScans_cons_of howing fun q id sha256 sizeBytes v heq => ?_
  obtain ⟨-, rfl, -⟩ := Executed.mk.inj heq
  exact hs id sha256 sizeBytes rfl

/-- The end of a completion. -/
theorem markComplete_settles {art : Artifact} (hns : ¬ Owing ns) :
    SettlesAll env a (markComplete env id sha256 sizeBytes art) ns := by
  unfold markComplete
  by_cases hbackend : env.backend ≠ .s3
  · rw [if_pos hbackend]
    exact hns
  · rw [if_neg hbackend]
    refine settles_run (fun u => ?_) fun h => h
    exact settles_run (fun v howing => hns (owesScans_of_enqueued howing)) fun h => h

/-- The worker's completion. -/
theorem completeRoute_settles {workerId : Nat} (hns : ¬ Owing ns) :
    SettlesAll env a (completeRoute env id workerId sha256 sizeBytes) ns := by
  refine settles_other hns (by simp) fun found ns hns => ?_
  cases found with
  | none => exact hns
  | some art =>
      dsimp only
      by_cases hdeleted : art.deletedAt.isSome = true
      · rw [if_pos hdeleted]
        exact hns
      rw [if_neg hdeleted]
      by_cases hworker : (art.workerId.any fun w => decide (w ≠ workerId)) = true
      · rw [if_pos hworker]
        exact hns
      rw [if_neg hworker]
      cases hjob : art.jobId with
      | none => exact hns
      | some jobId =>
          refine settles_other hns (by simp) fun job ns hns => ?_
          cases job with
          | none => exact hns
          | some job =>
              dsimp only
              by_cases hlease : job.leaseWorkerId ≠ some workerId
              · rw [if_pos hlease]
                exact hns
              rw [if_neg hlease]
              refine settles_other hns (by simp) fun now ns hns => ?_
              by_cases hexpired : isLeaseExpired job.leaseExpiresAt now = true
              · rw [if_pos hexpired]
                exact hns
              rw [if_neg hexpired]
              exact markComplete_settles hns

/-- The verifier's completion. -/
theorem verifierCompleteRoute_settles (hns : ¬ Owing ns) :
    SettlesAll env a (verifierCompleteRoute env id sha256 sizeBytes) ns := by
  refine settles_other hns (by simp) fun found ns hns => ?_
  cases found with
  | none => exact hns
  | some art =>
      dsimp only
      by_cases hdeleted : art.deletedAt.isSome = true
      · rw [if_pos hdeleted]
        exact hns
      rw [if_neg hdeleted]
      by_cases hworker : art.workerId.isSome = true
      · rw [if_pos hworker]
        exact hns
      rw [if_neg hworker]
      by_cases hsubmission : art.submissionId.isNone = true
      · rw [if_pos hsubmission]
        exact hns
      rw [if_neg hsubmission]
      exact markComplete_settles hns

/-- Every request settles what it owes. -/
theorem Request.code_settles (env : StorageEnv) (i : Nat) (q : Request) :
    SettlesAll env ⟨i, q⟩ (q.code env) [] := by
  have hnil : ¬ Owing [] := by simp [Owing, owesScans]
  by_cases hcompletes : ∃ id, q.completes id
  · obtain ⟨id, hcompletes⟩ := hcompletes
    cases q with
    | complete id' workerId sha256 sizeBytes => exact completeRoute_settles hnil
    | verifierComplete id' sha256 sizeBytes => exact verifierCompleteRoute_settles hnil
    | _ => exact hcompletes.elim
  · -- no other request completes an upload
    refine (Request.code_tells env i q).settles hnil (fun _ _ => trivial) (fun _ _ _ _ => rfl) ?_
    intro ns s r w hout hns howing
    refine hns (owesScans_cons_of howing fun q' id sha256 sizeBytes v heq => ?_)
    obtain ⟨-, rfl, -⟩ := Executed.mk.inj heq
    obtain ⟨row, -, hlawful⟩ := hout
    exact hcompletes ⟨id, hlawful.1⟩

end Completions

section Steps

variable {env : StorageEnv} {a : Actor Request} {g : Glob World Executed} {w w₀ : World} {s : Stmt}
  {id : String}

/-- Only an update to such a status lets an artifact wait. -/
theorem waits_after (h : (s.write env w).waits id = true) :
    w.waits id = true ∨
      ∃ u, s = .update id u ∧ (u.status = some .uploaded ∨ u.status = some .scanFailed) := by
  obtain ⟨b, hb, hwaits⟩ := (Option.any_eq_true _ _).mp h
  have hold : ∀ b₀, w.artifacts id = some b₀ → b₀.waiting = true → w.waits id = true := by
    intro b₀ hb₀ hwaiting
    rw [World.waits, hb₀]
    exact hwaiting
  obtain ⟨-, heq⟩ | ⟨u, rfl, heq⟩ | ⟨n, -, -, heq⟩ := row_after env s w id
  · exact Or.inl (hold b (heq.symm.trans hb) hwaits)
  · obtain ⟨b₀, hb₀, rfl⟩ := Option.map_eq_some_iff.mp (heq.symm.trans hb)
    have hstatus := of_decide_eq_true hwaits
    rw [Artifact.set_status] at hstatus
    cases hu : u.status with
    | none =>
        rw [hu] at hstatus
        exact Or.inl (hold b₀ hb₀ (decide_eq_true hstatus))
    | some st =>
        rw [hu] at hstatus
        exact Or.inr ⟨u, rfl, hstatus.imp (hu.trans <| congrArg some ·) (hu.trans <| congrArg some ·)⟩
  · obtain ⟨b₀, -, rfl⟩ := Option.map_eq_some_iff.mp (heq.symm.trans hb)
    exact absurd hwaits (by simp [Artifact.waiting])

/-- Only a mark of the scan makes the event of an artifact sent. -/
theorem unsent_after (h : w.unsent id = true) : (s.write env w).unsent id = true ∨ s = .markSent id := by
  obtain ⟨e, he, hstatus⟩ := (Option.any_eq_true _ _).mp h
  have hunsent : e.status ≠ .sent := of_decide_eq_true hstatus
  have hmodify : ∀ id' f, (id' = id → (f e).status ≠ .sent) →
      (w.modifyEvent id' f).unsent id = true := by
    intro id' f hf
    by_cases hid : id' = id
    · subst hid
      simp [World.unsent, World.modifyEvent, he, hf rfl]
    · simp [World.unsent, World.modifyEvent, he, Function.update_of_ne (Ne.symm hid), hunsent]
  cases s with
  | markSent id' =>
      by_cases hid : id' = id
      · exact Or.inr (by rw [hid])
      · exact Or.inl (hmodify id' _ fun heq => absurd heq hid)
  | reschedule id' error delayMs => exact Or.inl (hmodify id' _ fun _ => by simp)
  | markDead id' error => exact Or.inl (hmodify id' _ fun _ => by simp)
  | claimScans =>
      refine Or.inl ?_
      have hreleased : ∃ e', w.released env id = some e' ∧ e'.status ≠ .sent := by
        rw [World.released, he, Option.map_some]
        refine ⟨_, rfl, ?_⟩
        split
        · simp
        · exact hunsent
      obtain ⟨e', he', hunsent'⟩ := hreleased
      change (w.claimed env id).any _ = true
      rw [World.claimed, he', Option.map_some, Option.any_some]
      split
      · simp
      · exact decide_eq_true hunsent'
  | enqueueScan id' =>
      refine Or.inl ?_
      unfold Stmt.write
      by_cases hevent : (w.events id').isSome = true
      · simpa [hevent] using h
      · have hid : id ≠ id' := by
          rintro rfl
          rw [he] at hevent
          exact hevent rfl
        simp [hevent, World.unsent, Function.update_of_ne hid, he, hunsent]
  | copyObject bucket key target =>
      refine Or.inl ?_
      unfold Stmt.write
      cases hobject : w.objects bucket key with
      | none => simpa [hobject] using h
      | some bytes => simpa [hobject, World.putObject, World.unsent] using h
  | _ => exact Or.inl h

/-- Enqueueing leaves an event that is not sent, unless the artifact has had one that is. -/
theorem unsent_of_enqueue (h : ((w.events id).all fun e => decide (e.status ≠ .sent)) = true) :
    ((Stmt.enqueueScan id).write env w).unsent id = true := by
  unfold Stmt.write
  cases he : w.events id with
  | none => simp [he, World.unsent]
  | some e =>
      rw [he, Option.all_some] at h
      simpa [he, World.unsent] using h

/-- The events a round has taken are not sent. -/
theorem unsent_of_claims {q : Request}
    (h : Executed.claims id ⟨q, s, s.result env w⟩ = true) : (s.write env w).unsent id = true := by
  cases s with
  | claimScans =>
      have hmem : id ∈ (w.dueScans env).map Prod.fst := of_decide_eq_true h
      obtain ⟨⟨id', attempt⟩, hdue, rfl⟩ := List.mem_map.mp hmem
      obtain ⟨id'', -, hbind⟩ := List.mem_filterMap.mp (List.mem_of_mem_take hdue)
      obtain ⟨e, he, hif⟩ := Option.bind_eq_some_iff.mp hbind
      have hid : id'' = id' := by
        split at hif
        · exact (Prod.mk.inj (Option.some.inj hif)).1
        · exact absurd hif (by simp)
      subst hid
      change (w.claimed env id'').any _ = true
      rw [World.claimed, he, Option.map_some, Option.any_some, if_pos hmem]
      simp
  | _ => exact absurd h (by simp [Executed.claims])

/-- Only a scan and a verdict finish an artifact. -/
theorem finished_after (h : (s.write env w).finished id = true) (q : Request) :
    w.finished id = true ∨ Executed.finishes id ⟨q, s, s.result env w⟩ = true := by
  obtain ⟨b, hb, hfinished⟩ := (Option.any_eq_true _ _).mp h
  have hold : ∀ b₀, w.artifacts id = some b₀ → b₀.servable = true → w.finished id = true := by
    intro b₀ hb₀ hservable
    rw [World.finished, hb₀]
    exact hservable
  obtain ⟨-, heq⟩ | ⟨u, rfl, heq⟩ | ⟨n, rfl, hattached, heq⟩ := row_after env s w id
  · exact Or.inl (hold b (heq.symm.trans hb) hfinished)
  · obtain ⟨b₀, hb₀, rfl⟩ := Option.map_eq_some_iff.mp (heq.symm.trans hb)
    have hstatus := of_decide_eq_true hfinished
    rw [Artifact.set_status] at hstatus
    cases hu : u.status with
    | none =>
        rw [hu] at hstatus
        exact Or.inl (hold b₀ hb₀ (decide_eq_true hstatus))
    | some st =>
        rw [hu] at hstatus
        obtain hst | hst := hstatus
        · exact Or.inr (decide_eq_true ⟨rfl, hu.trans (congrArg some hst)⟩)
        · cases u <;> simp_all [ArtifactUpdate.status]
  · exact Or.inr (decide_eq_true hattached)

/-- What holds of the rows, the events and the history. -/
structure ScansKept (g : Glob World Executed) : Prop where
  undeleted : ∀ id a, g.world.artifacts id = some a → a.deletedAt = none
  waits : ∀ id, g.world.waits id = true →
    g.world.unsent id = true ∨ ∃ i, owesScan id (own i g.hist) = true
  taken : ∀ id, HoldsSince (fun n => n.claims id = true) (fun n => n.sends id = true)
    (g.world.unsent id = true) g.hist
  settled : ∀ id, HoldsSince (fun n => n.settles id = true) (fun n => n.waits id = true)
    (g.world.waits id = false) g.hist
  unfinished : ∀ id, HoldsSince
    (fun n => ∃ row, n.row? id = some (some row) ∧ row.servable = false)
    (fun n => n.finishes id = true) (g.world.finished id = false) g.hist

/-- What a note establishes since which nothing has undone it. -/
theorem holds_now {kind bad : Executed → Bool} {P : Prop} {hist : Hist} {i : Nat}
    (h : HoldsSince (fun n => kind n = true) (fun n => bad n = true) P hist)
    (hkind : ∃ n ∈ own i hist, kind n = true) (hsince : Ever bad (since i kind hist) = false) :
    P := by
  obtain ⟨n, earlier, hsplit, hn⟩ := since_of_exists hkind
  obtain hP | ⟨n', hn', hbad⟩ := h _ _ _ hsplit hn
  · exact hP
  · exact absurd hbad (List.any_eq_false.mp hsince n' hn')

/-- An artifact that a scan lets wait has an event that is not sent. -/
theorem ScansKept.unsent_of_update (h : ScansKept g) {u : ArtifactUpdate}
    (hout : Lawful env a.req (own a.pid g.hist) (.update id u)) (hscans : a.req.ofScans = true)
    (hok : keepsScanned a g (.update id u) = true)
    (hu : u.status = some .uploaded ∨ u.status = some .scanFailed) :
    g.world.unsent id = true ∨ ∃ sha256 sizeBytes, u = .completed sha256 sizeBytes := by
  obtain ⟨row, -, hlawful⟩ := hout
  cases u with
  | uploaded _ _ =>
      obtain ⟨i, q⟩ := a
      cases q with
      | upload _ _ _ _ => exact absurd hscans (by simp [Request.ofScans])
      | verifierUpload _ _ _ => exact absurd hscans (by simp [Request.ofScans])
      | _ => exact hlawful.1.elim
  | completed sha256 sizeBytes => exact Or.inr ⟨sha256, sizeBytes, rfl⟩
  | scanStarted _ _ =>
      have hsince : Ever (Executed.sends id) (since a.pid (Executed.claims id) g.hist) = false := by
        simpa [keepsScanned] using hok
      exact Or.inl (holds_now (h.taken id) hlawful.2.2 hsince)
  | scanFailed _ _ _ =>
      have hsince : Ever (Executed.sends id) (since a.pid (Executed.claims id) g.hist) = false := by
        simpa [keepsScanned] using hok
      exact Or.inl (holds_now (h.taken id) hlawful.2.2 hsince)
  | _ => simp [ArtifactUpdate.status] at hu

/-- The notes of a request after a statement of some request. -/
theorem own_after (i : Nat) : own i (Executed.after env a s g).hist =
    if i = a.pid then ⟨a.req, s, s.result env g.world⟩ :: own i g.hist else own i g.hist := by
  by_cases hi : i = a.pid
  · subst hi
    simp [Executed.after, own]
  · simp [Executed.after, own, hi, Ne.symm hi]

/-- What a request owes it owes after a statement, unless it enqueues the scan. -/
theorem owes_after {i : Nat} (h : owesScan id (own i g.hist) = true)
    (hs : i = a.pid → s ≠ .enqueueScan id) :
    owesScan id (own i (Executed.after env a s g).hist) = true := by
  rw [own_after]
  by_cases hi : i = a.pid
  · rw [if_pos hi]
    refine owesScan_cons h fun q v heq => ?_
    obtain ⟨-, rfl, -⟩ := Executed.mk.inj heq
    exact hs hi rfl
  · rw [if_neg hi]
    exact h

/-- An artifact that waits after an allowed statement has an event that is not sent, or a
completion that is going to enqueue one. -/
theorem ScansKept.waits_after (h : ScansKept g) (hout : Lawful env a.req (own a.pid g.hist) s)
    (hscans : a.req.ofScans = true) (hok : keepsScanned a g s = true)
    (hwaits : (s.write env g.world).waits id = true) :
    (s.write env g.world).unsent id = true ∨
      ∃ i, owesScan id (own i (Executed.after env a s g).hist) = true := by
  have hunsent : g.world.unsent id = true → s ≠ .markSent id →
      (s.write env g.world).unsent id = true :=
    fun h hs => (unsent_after h).resolve_right hs
  obtain hold | ⟨u, rfl, hu⟩ := Storage.waits_after hwaits
  · obtain hevent | ⟨i, howes⟩ := h.waits id hold
    · by_cases hs : s = .markSent id
      · -- the mark is allowed only while the artifact does not wait
        subst hs
        have hnot : g.world.waits id = false :=
          holds_now (h.settled id) hout.2 (by simpa [keepsScanned] using hok)
        rw [hold] at hnot
        exact absurd hnot (by simp)
      · exact Or.inl (hunsent hevent hs)
    · by_cases hs : s = .enqueueScan id
      · subst hs
        exact Or.inl (unsent_of_enqueue hok)
      · exact Or.inr ⟨i, owes_after howes fun _ => hs⟩
  · obtain hevent | ⟨sha256, sizeBytes, rfl⟩ := h.unsent_of_update hout hscans hok hu
    · exact Or.inl (hunsent hevent (by simp))
    · refine Or.inr ⟨a.pid, ?_⟩
      rw [own_after, if_pos rfl]
      simp [owesScan]

/-- A row that is read settled does not wait, since no row is deleted. -/
theorem ScansKept.waits_of_settles (h : ScansKept g)
    (hsettles : Executed.settles id ⟨a.req, s, s.result env g.world⟩ = true) :
    (s.write env g.world).waits id = false := by
  cases s with
  | select id' =>
      obtain ⟨hid, hrow⟩ := Bool.and_eq_true_iff.mp hsettles
      obtain rfl := of_decide_eq_true hid
      have hrow : ((g.world.artifacts id').all fun a => a.deletedAt.isSome ||
        decide (a.status ∈ [.scanned, .accepted, .blocked, .deleted])) = true := hrow
      change g.world.waits id' = false
      cases ha : g.world.artifacts id' with
      | none => simp [World.waits, ha]
      | some row =>
          rw [ha, Option.all_some, h.undeleted id' row ha] at hrow
          have hmem : row.status ∈ [ArtifactStatus.scanned, .accepted, .blocked, .deleted] := by
            simpa using hrow
          rw [World.waits, ha, Option.any_some, Artifact.waiting]
          refine decide_eq_false fun hwaiting => ?_
          obtain hst | hst := hwaiting
          · simp [hst] at hmem
          · simp [hst] at hmem
  | update id' u =>
      obtain ⟨rfl, hu⟩ := of_decide_eq_true hsettles
      rw [← Bool.not_eq_true]
      intro hwaits
      change (g.world.modify id' (Artifact.set u)).waits id' = true at hwaits
      rw [World.waits, World.modify_self, Option.any_map] at hwaits
      obtain ⟨a₀, -, hwaiting⟩ := (Option.any_eq_true _ _).mp hwaits
      have hstatus := of_decide_eq_true hwaiting
      rw [Artifact.set_status, hu] at hstatus
      simp at hstatus
  | _ => exact absurd hsettles (by simp [Executed.settles])

/-- A row stays undeleted when no request deletes. -/
theorem ScansKept.undeleted_after (h : ScansKept g) (hout : Lawful env a.req (own a.pid g.hist) s)
    (hscans : a.req.ofScans = true) {b : Artifact}
    (hb : (s.write env g.world).artifacts id = some b) : b.deletedAt = none := by
  obtain ⟨-, heq⟩ | ⟨u, rfl, heq⟩ | ⟨n, -, -, heq⟩ := row_after env s g.world id
  · exact h.undeleted id b (heq.symm.trans hb)
  · obtain ⟨b₀, hb₀, rfl⟩ := Option.map_eq_some_iff.mp (heq.symm.trans hb)
    have hkept := Artifact.set_deletedAt u b₀
    have hu : u.status ≠ some .deleted := by
      intro hu
      obtain ⟨row, -, hlawful⟩ := hout
      cases u with
      | deleted _ =>
          obtain ⟨i, q⟩ := a
          cases q with
          | deliverDelete _ => exact absurd hscans (by simp [Request.ofScans])
          | adminDelete _ => exact absurd hscans (by simp [Request.ofScans])
          | _ => exact hlawful.1.elim
      | _ => simp [ArtifactUpdate.status] at hu
    rw [h.undeleted id b₀ hb₀] at hkept
    simpa [hu] using hkept
  · obtain ⟨b₀, hb₀, rfl⟩ := Option.map_eq_some_iff.mp (heq.symm.trans hb)
    exact h.undeleted id b₀ hb₀

/-- What every allowed step keeps. -/
theorem exec_scans (hopen : ∀ id a, w.artifacts id = some a →
      a.waiting = false ∧ a.deletedAt = none) {cs : List Pick} {c : State}
    (hrun : (storage env).exec getsScanned cs (Sys.start w) = some c) : ScansKept c.glob := by
  refine (exec_artifacts (I := ScansKept) ?_ ?_ (fun e g h => ?_) hrun).2
  · refine ⟨fun id a ha => (hopen id a ha).2, fun id hwaits => ?_, fun _ => HoldsSince.nil,
      fun _ => HoldsSince.nil, fun _ => HoldsSince.nil⟩
    obtain ⟨a, ha, hwaiting⟩ := (Option.any_eq_true _ _).mp hwaits
    rw [(hopen id a ha).1] at hwaiting
    exact absurd hwaiting (by simp)
  · intro a s g _ h hout hok
    obtain ⟨hscans, hok⟩ := Bool.and_eq_true_iff.mp hok
    refine ⟨fun id b hb => h.undeleted_after hout hscans hb,
      fun id hwaits => h.waits_after hout hscans hok hwaits, fun id => ?_, fun id => ?_,
      fun id => ?_⟩
    · refine (h.taken id).cons unsent_of_claims fun hunsent => ?_
      have hafter : (s.write env g.world).unsent id = true ∨ s = .markSent id := unsent_after hunsent
      obtain hunsent' | rfl := hafter
      · exact Or.inl hunsent'
      · exact Or.inr (decide_eq_true rfl)
    · refine (h.settled id).cons h.waits_of_settles fun hnot => ?_
      by_cases hwaits : (s.write env g.world).waits id = true
      · obtain hold | ⟨u, rfl, hu⟩ := Storage.waits_after hwaits
        · rw [hnot] at hold
          exact absurd hold (by simp)
        · exact Or.inr (decide_eq_true ⟨rfl, hu⟩)
      · exact Or.inl (eq_false_of_ne_true hwaits)
    · refine (h.unfinished id).cons ?_ fun hnot => ?_
      · rintro ⟨row, hrow, hservable⟩
        have hread := row_of_read hrow
        cases s with
        | select id' =>
            change g.world.finished id = false
            rw [World.finished, hread]
            exact hservable
        | _ => exact absurd hrow (by simp [Executed.row?])
      · by_cases hfinished : (s.write env g.world).finished id = true
        · obtain hold | hnew := finished_after hfinished a.req
          · rw [hnot] at hold
            exact absurd hold (by simp)
          · exact Or.inr hnew
        · exact Or.inl (eq_false_of_ne_true hfinished)
  · cases e <;> exact ⟨h.undeleted, h.waits, h.taken, h.settled, h.unfinished⟩

/-- A completion that marks an artifact finds it neither scanned nor accepted. -/
theorem ScansKept.unfinished_now (h : ScansKept g) {sha256 : Option String} {sizeBytes : Option Nat}
    (hout : Lawful env a.req (own a.pid g.hist) (.update id (.completed sha256 sizeBytes)))
    (hok : keepsScanned a g (.update id (.completed sha256 sizeBytes)) = true) :
    g.world.finished id = false := by
  obtain ⟨row, hrow, -⟩ := hout
  obtain ⟨hservable, hsince⟩ := Bool.and_eq_true_iff.mp hok
  rw [hrow, Option.all_some] at hservable
  obtain ⟨n, earlier, hsplit, hn⟩ := reads_split hrow
  obtain hnow | ⟨e, he, hfinishes⟩ :=
    h.unfinished id _ _ _ hsplit ⟨row, hn, by simpa using hservable⟩
  · exact hnow
  · have hnone : Ever (Executed.finishes id) (since a.pid (Executed.reads id) g.hist) = false := by
      simpa using hsince
    exact absurd hfinishes (List.any_eq_false.mp hnone e he)

end Steps

section Runs

variable {env : StorageEnv} {w : World} {cs : List Pick} {c : State}

/-- **Every uploaded artifact gets scanned**: in the runs in which a completion takes up no
artifact that is scanned or accepted, enqueues while no scan of it is sent and is not cut off in
between, and a scanner writes and marks only while nothing has overtaken it, every artifact that
waits for a scan when no request is in flight has a scan event that is not sent, and no
completion takes back an artifact that is scanned or accepted. -/
theorem uploads_wait_for_scan (hopen : ∀ id a, w.artifacts id = some a →
      a.waiting = false ∧ a.deletedAt = none)
    (hrun : (storage env).exec getsScanned cs (Sys.start w) = some c) :
    ((∀ i, c.program i = none) → ∀ id row, c.glob.world.artifacts id = some row →
      row.status = .uploaded ∨ row.status = .scanFailed →
      ∃ e, c.glob.world.events id = some e ∧
        e.status ∈ [OutboxStatus.pending, .processing, .deadletter]) ∧
    ∀ ch a id sha256 sizeBytes v d row,
      (storage env).move ch c =
        some (.event a (.stmt (.update id (.completed sha256 sizeBytes)) v), d) →
      getsScanned (.event a (.stmt (.update id (.completed sha256 sizeBytes)) v)) c.glob = true →
      c.glob.world.artifacts id = some row → row.status ∉ [ArtifactStatus.scanned, .accepted] := by
  have hkept := exec_scans hopen hrun
  refine ⟨fun hended id row hrow hstatus => ?_, ?_⟩
  · have hwaits : c.glob.world.waits id = true := by
      rw [World.waits, hrow]
      exact decide_eq_true hstatus
    have hsettled : Interleave.Settled (storage env) Owing (fun _ => freely) c :=
      Machine.exec_settled (Request.code_settles env) (by simp [Owing, owesScans])
        (fun _ _ _ => rfl) (fun _ _ _ _ _ => trivial) (fun a l g hok hl howing => by
          obtain rfl | rfl := hl
          · have hnot : (!owesScans (own a.pid g.hist)) = true := hok
            exact absurd howing (by simpa [Owing] using hnot)
          · have hnot : (!owesScans (own a.pid g.hist)) = true := hok
            exact absurd howing (by simpa [Owing] using hnot)) hrun
    obtain hunsent | ⟨i, howes⟩ := hkept.waits id hwaits
    · obtain ⟨e, he, hnot⟩ := (Option.any_eq_true _ _).mp hunsent
      have hne : e.status ≠ .sent := of_decide_eq_true hnot
      refine ⟨e, he, ?_⟩
      cases hst : e.status <;> simp_all
    · exact absurd (owesScans_of_owesScan howes) (hsettled.ended i (hended i))
  · intro ch a id sha256 sizeBytes v d row hmove hok hrow hmem
    obtain ⟨-, hkeeps⟩ := Bool.and_eq_true_iff.mp hok
    have hout : Lawful env a.req (own a.pid c.glob.hist) (.update id (.completed sha256 sizeBytes)) :=
      exec_lawful hrun hmove
    have hnot := hkept.unfinished_now hout hkeeps
    rw [World.finished, hrow, Option.any_some] at hnot
    obtain hscanned | haccepted := by simpa using hmem
    · simp [Artifact.servable, hscanned] at hnot
    · simp [Artifact.servable, haccepted] at hnot

end Runs

/-- A server that stores objects in buckets. -/
def StorageEnv.buckets : StorageEnv := { StorageEnv.disk with backend := .s3 }

/-- The artifact with its object in the staging bucket. -/
def stagedWorld : World :=
  artifactWorld.putObject "staging" "artifacts/a/a.bin" (some [1, 2, 3])

theorem stagedWorld_opening (id : String) (a : Artifact) (h : stagedWorld.artifacts id = some a) :
    a.waiting = false ∧ a.deletedAt = none := by
  obtain ⟨-, rfl⟩ := artifactWorld_row h
  decide

/-- Worker 1 completes its upload. -/
def completeOnce : List Pick :=
  ([.spawn (.complete "a" 1 none none)] : List Pick) ++ @List.replicate Pick 6 (.run 0)

/-- A round of the scanner, to its end. -/
def thenScanned : List Pick :=
  ([.spawn .scannerRound] : List Pick) ++ @List.replicate Pick 10 (.run 1)

/-- Worker 1 completes the same upload again. -/
def thenCompletedAgain : List Pick :=
  ([.spawn (.complete "a" 1 none none)] : List Pick) ++ @List.replicate Pick 6 (.run 2)

theorem uploads_wait_for_scan_completed :
    ∃ c e, (storage .buckets).exec getsScanned completeOnce (Sys.start stagedWorld) = some c ∧
      hasStatus "a" .uploaded c = true ∧ c.glob.world.events "a" = some e ∧
      e.status ∈ [OutboxStatus.pending, .processing, .deadletter] := by
  obtain ⟨c, hrun, h⟩ := stores .buckets getsScanned completeOnce stagedWorld
    (fun c => hasStatus "a" .uploaded c && allEnded c) (by decide)
  obtain ⟨huploaded, hended⟩ := Bool.and_eq_true_iff.mp h
  obtain ⟨row, hrow, hstatus⟩ := hasStatus_iff huploaded
  obtain ⟨e, he, hmem⟩ := (uploads_wait_for_scan stagedWorld_opening hrun).1
    (ended_of_allEnded hrun hended) "a" row hrow (Or.inl hstatus)
  exact ⟨c, e, hrun, huploaded, he, hmem⟩

/-- A second completion takes the scanned artifact back to uploaded, with the event sent. -/
theorem completed_twice :
    (∀ id a, stagedWorld.artifacts id = some a → a.waiting = false ∧ a.deletedAt = none) ∧
    ∃ c d e, (storage .buckets).exec (fun _ _ => true) (completeOnce ++ thenScanned)
        (Sys.start stagedWorld) = some c ∧ hasStatus "a" .scanned c = true ∧
      (storage .buckets).exec (fun _ _ => true) thenCompletedAgain c = some d ∧
      (∀ i, d.program i = none) ∧ hasStatus "a" .uploaded d = true ∧
      d.glob.world.events "a" = some e ∧ e.status = .sent := by
  refine ⟨stagedWorld_opening, ?_⟩
  obtain ⟨c, hrun, h⟩ := stores .buckets (fun _ _ => true) (completeOnce ++ thenScanned) stagedWorld
    (fun c => hasStatus "a" .scanned c &&
      ((storage .buckets).exec (fun _ _ => true) thenCompletedAgain c).any fun d =>
        allEnded d && hasStatus "a" .uploaded d &&
        (d.glob.world.events "a").any fun (e : ScanEvent) =>
          decide (e.status = OutboxStatus.sent)) (by decide)
  obtain ⟨hscanned, h⟩ := Bool.and_eq_true_iff.mp h
  obtain ⟨d, hlater, h⟩ := (Option.any_eq_true _ _).mp h
  obtain ⟨h, hsent⟩ := Bool.and_eq_true_iff.mp h
  obtain ⟨hended, huploaded⟩ := Bool.and_eq_true_iff.mp h
  obtain ⟨e, he, hstatus⟩ := (Option.any_eq_true _ _).mp hsent
  have hboth : (storage .buckets).exec (fun _ _ => true)
      ((completeOnce ++ thenScanned) ++ thenCompletedAgain) (Sys.start stagedWorld) = some d := by
    rw [Machine.exec_append hrun, hlater]
  exact ⟨c, d, e, hrun, hscanned, hlater, ended_of_allEnded hboth hended, huploaded, he,
    of_decide_eq_true hstatus⟩

end OpenUnion.Storage
