import OpenUnion.Safety.Artifacts

/-!
# Blocked artifacts

A scan and the admin quarantine block an artifact.  Uploads do not look at the status at all,
and a completion, a scan and a pass verdict do not look again before they write it.

* `blocked_stays_blocked`: when no upload or completion takes up an artifact that has been
  blocked, nothing blocks one between the read and the write of a scan or a download, and no
  submission with a blocked artifact passes, a blocked artifact is never uploaded, scanned or
  accepted again and never served.
* `quarantined_served_again`: an upload after the quarantine brings it back.
-/

namespace OpenUnion.Storage

open Interleave

/-- The answer serves the artifact. -/
def Reply.serves : Reply → Bool
  | .file _ _ | .redirect _ _ => true
  | .ok | .error _ _ _ _ => false

/-- The step is a download of the artifact that is served. -/
def servesArtifact (id : String) : Step → Bool
  | .event ⟨_, .download _ id'⟩ (.reply x) => decide (id' = id) && x.serves
  | _ => false

theorem servesArtifact_iff {id : String} {l : Step} (h : servesArtifact id l = true) :
    ∃ i reader x, l = .event ⟨i, .download reader id⟩ (.reply x) ∧ x.serves = true := by
  unfold servesArtifact at h
  split at h
  · obtain ⟨rfl, hserves⟩ := by simpa using h
    exact ⟨_, _, _, rfl, hserves⟩
  · exact absurd h (by simp)

/-- The artifact has been blocked. -/
def everBlocked (id : String) (hist : Hist) : Bool := Ever (Executed.marks id .blocked) hist

/-- Something has blocked the artifact since the request's own read of the row. -/
def blockedSince (i : Nat) (id : String) (hist : Hist) : Bool :=
  everBlocked id (since i (Executed.reads id) hist)

/-- When a blocked artifact stays blocked: an upload and a completion mark only artifacts that
have never been blocked, a scan and a download end only if nothing has blocked the artifact
since they read its row, and a submission passes only if none of its artifacts has been
blocked. -/
def keepsBlocked : Step → Glob World Executed → Bool
  | .event a (.stmt (.update id u) _), g =>
      if u.status ∉ [some .uploaded, some .scanned, some .scanFailed] then true
      else if a.req.uploads id ∨ a.req.completes id then !everBlocked id g.hist
      else !blockedSince a.pid id g.hist
  | .event _ (.stmt (.acceptAll submissionId) _), g =>
      (g.world.attached submissionId).all fun id => !everBlocked id g.hist
  | .event a (.reply x), g =>
      match a.req with
      | .download _ id => !x.serves || !blockedSince a.pid id g.hist
      | _ => true
  | _, _ => true

section Steps

variable {env : StorageEnv} {a : Actor Request} {g : Glob World Executed} {w : World}

/-- An update to a status that is not final finds an artifact that has never been blocked. -/
theorem unblocked_of_update (h : Stays .blocked [.blocked, .deleted] g) {id : String}
    {u : ArtifactUpdate} {st : ArtifactStatus}
    (hout : Lawful env a.req (own a.pid g.hist) (.update id u)) (hu : u.status = some st)
    (hst : st ∉ [ArtifactStatus.blocked, .deleted])
    (hok : keepsBlocked (.event a (.stmt (.update id u) ())) g = true) :
    everBlocked id g.hist = false := by
  obtain ⟨row, hrow, hlawful⟩ := hout
  have hmem : u.status ∈ [some .uploaded, some .scanned, some .scanFailed] := by
    cases u <;> simp_all [ArtifactUpdate.status]
  change (if u.status ∉ [some .uploaded, some .scanned, some .scanFailed] then true
      else if a.req.uploads id ∨ a.req.completes id then !everBlocked id g.hist
      else !blockedSince a.pid id g.hist) = true at hok
  rw [if_neg (not_not_intro hmem)] at hok
  by_cases htakes : a.req.uploads id ∨ a.req.completes id
  · rw [if_pos htakes] at hok
    simpa using hok
  rw [if_neg htakes] at hok
  have hunscanned : row.unscanned := by
    cases u with
    | uploaded _ _ => exact absurd (Or.inl hlawful.1) htakes
    | completed _ _ => exact absurd (Or.inr hlawful.1) htakes
    | scanStarted _ _ => exact hlawful.2.1
    | scanFailed _ _ _ => exact hlawful.2.1
    | scanned _ _ => exact (hlawful.1.resolve_left fun h => htakes (Or.inl h)).2
    | _ => simp [ArtifactUpdate.status] at hmem
  have hstatus : row.status ∉ [ArtifactStatus.blocked, .deleted] := by
    intro hrow
    refine hunscanned.2 ?_
    obtain hblocked | hdeleted := by simpa using hrow
    · simp [hblocked]
    · simp [hdeleted]
  have hsince : blockedSince a.pid id g.hist = false := by simpa using hok
  exact unmarked_since h.read hrow hstatus hsince

/-- What every allowed step keeps. -/
theorem exec_blocked (hopen : ∀ id a, w.artifacts id = some a → a.status ≠ .blocked)
    {cs : List Pick} {c : State}
    (hrun : (storage env).exec keepsBlocked cs (Sys.start w) = some c) :
    Stays .blocked [.blocked, .deleted] c.glob := by
  refine (exec_artifacts (I := Stays .blocked [.blocked, .deleted]) (Stays.start hopen) ?_
    (fun e g h => ?_) hrun).2
  · intro a s g _ h hout hok
    refine h.after (by simp) (by simp) (fun id u st hs hu hst => ?_) fun n hs id hid => ?_
    · subst hs
      exact unblocked_of_update h hout hu hst hok
    · subst hs
      have hall : ((g.world.attached n).all fun id => !everBlocked id g.hist) = true := hok
      have hnever : everBlocked id g.hist = false := by simpa using List.all_eq_true.mp hall id hid
      exact hnever
  · cases e <;> exact ⟨h.noted, h.kept, h.read⟩

/-- A download that is allowed to serve an artifact serves one that has never been blocked. -/
theorem unblocked_of_served (h : Stays .blocked [.blocked, .deleted] g) {x : Reply}
    {reader : Reader} {id : String} (hreq : a.req = .download reader id)
    (hanswers : Answers env a.req x (own a.pid g.hist)) (hserves : x.serves = true)
    (hok : keepsBlocked (.event a (.reply x)) g = true) : everBlocked id g.hist = false := by
  obtain ⟨i, q⟩ := a
  obtain rfl : q = .download reader id := hreq
  have hsince : blockedSince i id g.hist = false := by
    have hor : (!x.serves || !blockedSince i id g.hist) = true := hok
    simpa [hserves] using hor
  obtain ⟨row, hrow, hservable⟩ : ∃ row, lastRow (own i g.hist) id = some row ∧
      row.servable = true := by
    cases x with
    | file contentType bytes =>
        obtain ⟨_, _, row, _, heq, hrow, _, hservable, _⟩ := hanswers
        cases heq
        exact ⟨row, hrow, hservable⟩
    | redirect bucket key =>
        obtain ⟨_, _, row, heq, hrow, hservable⟩ := hanswers
        cases heq
        exact ⟨row, hrow, hservable⟩
    | ok => exact absurd hserves (by simp [Reply.serves])
    | error _ _ _ _ => exact absurd hserves (by simp [Reply.serves])
  have hstatus : row.status ∉ [ArtifactStatus.blocked, .deleted] := by
    obtain hscanned | haccepted := of_decide_eq_true hservable
    · simp [hscanned]
    · simp [haccepted]
  exact unmarked_since h.read hrow hstatus hsince

end Steps

section Runs

variable {env : StorageEnv} {w : World} {cs cs' : List Pick} {c d : State} {id : String}
  {row : Artifact}

/-- **Blocked artifacts stay blocked**: in the runs in which no upload or completion takes up an
artifact that has been blocked, nothing blocks an artifact between the read and the end of a
scan or a download, and no submission with a blocked artifact passes, an artifact that has
been blocked is never uploaded, scanned or accepted again, and no download serves it. -/
theorem blocked_stays_blocked (hopen : ∀ id a, w.artifacts id = some a → a.status ≠ .blocked)
    (hrun : (storage env).exec keepsBlocked cs (Sys.start w) = some c)
    (hrow : c.glob.world.artifacts id = some row) (hblocked : row.status = .blocked)
    (hlater : (storage env).exec keepsBlocked cs' c = some d) :
    (∀ row', d.glob.world.artifacts id = some row' →
      row'.status ∉ [ArtifactStatus.uploaded, .scanned, .accepted]) ∧
    ∀ ch l d', (storage env).move ch d = some (l, d') → keepsBlocked l d.glob = true →
      servesArtifact id l = false := by
  have hboth : (storage env).exec keepsBlocked (cs ++ cs') (Sys.start w) = some d := by
    rw [Machine.exec_append hrun, hlater]
  have hstays := exec_blocked hopen hboth
  have hever : everBlocked id d.glob.hist = true :=
    Ever.mono ((exec_blocked hopen hrun).noted id row hrow hblocked) (Machine.exec_hist hlater)
  refine ⟨fun row' hrow' hstatus => ?_, fun ch l d' hmove hok => ?_⟩
  · have hfinal := hstays.kept id row' hrow' hever
    obtain hrow' | hrow' := by simpa using hfinal
    · simp [hrow'] at hstatus
    · simp [hrow'] at hstatus
  · by_contra hserved
    obtain ⟨i, reader, x, rfl, hserves⟩ := servesArtifact_iff (by simpa using hserved)
    have hnever := unblocked_of_served hstays rfl (exec_answers hboth hmove) hserves hok
    rw [hever] at hnever
    exact absurd hnever (by simp)

end Runs

/-- Worker 1 uploads the artifact, and an admin puts it in quarantine. -/
def uploadAndQuarantine : List Pick :=
  ([.spawn (.upload "a" 1 (some [1, 2, 3]) none)] : List Pick) ++ @List.replicate Pick 6 (.run 0) ++
    ([.spawn (.quarantine "a" "malware")] : List Pick) ++ @List.replicate Pick 3 (.run 1)

/-- Worker 1 uploads the artifact again, and an admin asks for it. -/
def uploadAgainAndDownload : List Pick :=
  ([.spawn (.upload "a" 1 (some [4, 5]) none)] : List Pick) ++ @List.replicate Pick 6 (.run 2) ++
    ([.spawn (.download .admin "a")] : List Pick) ++ @List.replicate Pick 3 (.run 3)

/-- The artifact is deleted, and an admin asks for it. -/
def deleteAndDownload : List Pick :=
  ([.spawn (.adminDelete "a")] : List Pick) ++ @List.replicate Pick 7 (.run 2) ++
    ([.spawn (.download .admin "a")] : List Pick) ++ @List.replicate Pick 2 (.run 3)

theorem artifactWorld_unblocked (id : String) (a : Artifact)
    (h : artifactWorld.artifacts id = some a) : a.status ≠ .blocked := by
  obtain ⟨-, rfl⟩ := artifactWorld_row h
  decide

theorem blocked_stays_blocked_deleted :
    ∃ c d l d', (storage .disk).exec keepsBlocked uploadAndQuarantine (Sys.start artifactWorld) =
        some c ∧ hasStatus "a" .blocked c = true ∧
      (storage .disk).exec keepsBlocked deleteAndDownload c = some d ∧
      hasStatus "a" .deleted d = true ∧ (storage .disk).move (.run 3) d = some (l, d') ∧
      servesArtifact "a" l = false := by
  obtain ⟨c, d, l, d', hrun, hlater, hmove, h⟩ := stores_and_moves .disk keepsBlocked
    uploadAndQuarantine artifactWorld deleteAndDownload (.run 3)
    (fun c d l => hasStatus "a" .blocked c && hasStatus "a" .deleted d && keepsBlocked l d.glob)
    (by decide)
  obtain ⟨h, hok⟩ := Bool.and_eq_true_iff.mp h
  obtain ⟨hblocked, hdeleted⟩ := Bool.and_eq_true_iff.mp h
  obtain ⟨row, hrow, hstatus⟩ := hasStatus_iff hblocked
  have hstays := blocked_stays_blocked artifactWorld_unblocked hrun hrow hstatus hlater
  exact ⟨c, d, l, d', hrun, hblocked, hlater, hdeleted, hmove, hstays.2 _ l d' hmove hok⟩

/-- Once quarantined, the artifact is uploaded, scanned and served again. -/
theorem quarantined_served_again :
    (∀ id a, artifactWorld.artifacts id = some a → a.status ≠ .blocked) ∧
    ∃ c d l d', (storage .disk).exec (fun _ _ => true) uploadAndQuarantine
        (Sys.start artifactWorld) = some c ∧ hasStatus "a" .blocked c = true ∧
      (storage .disk).exec (fun _ _ => true) uploadAgainAndDownload c = some d ∧
      hasStatus "a" .scanned d = true ∧ (storage .disk).move (.run 3) d = some (l, d') ∧
      servesArtifact "a" l = true := by
  refine ⟨artifactWorld_unblocked, ?_⟩
  obtain ⟨c, d, l, d', hrun, hlater, hmove, h⟩ := stores_and_moves .disk (fun _ _ => true)
    uploadAndQuarantine artifactWorld uploadAgainAndDownload (.run 3)
    (fun c d l => hasStatus "a" .blocked c && hasStatus "a" .scanned d && servesArtifact "a" l)
    (by decide)
  obtain ⟨h, hserves⟩ := Bool.and_eq_true_iff.mp h
  obtain ⟨hblocked, hscanned⟩ := Bool.and_eq_true_iff.mp h
  exact ⟨c, d, l, d', hrun, hblocked, hlater, hscanned, hmove, hserves⟩

end OpenUnion.Storage
