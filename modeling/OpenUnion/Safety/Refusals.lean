import Mathlib.Data.List.Dedup
import OpenUnion.Code.Refusals
import OpenUnion.Safety.Search

/-!
# Refusals and claims

A refused job is not to be claimed while its refusal lasts.  The loop does not look into its cache
before a claim: what keeps a refused job away is the list of ids sent with `jobs/next`, which has
the first 50 of the cache.

* `refusals_hold`: in every run in which a refused job that the server could offer is among
  these, and so in every run in which at most 50 jobs are refused at each poll, no job is claimed
  while a refusal of it lasts.
* `refused_job_claimed`: the 51st refused job is offered and claimed again.
-/

namespace OpenUnion.Refusals

open Ranking

/-- A refusal of the job still lasts. -/
def Lasts (notes : List Note) (now : Nat) (jobId : String) : Prop :=
  ∃ t ttlMs, .refused jobId t ttlMs ∈ notes ∧ now < t + ttlMs

/-- No job was claimed while a refusal of it lasted. -/
def Held : List Note → Prop
  | [] => True
  | .refused _ _ _ :: notes => Held notes
  | .claimed jobId t :: notes => ¬ Lasts notes t jobId ∧ Held notes

/-- The server could offer the job, but for the ids to exclude. -/
def Server.CouldOffer (server : Server) (workerId jobId : Nat) : Prop :=
  server.board.Eligible workerId { server.filters with excludeJobIds := [] } jobId

/-- When the server answers, each refused job that it could offer is among the first 50 of the
cache. -/
def Listed (worker : Worker) (s : LoopState) : Event → Prop
  | .answer (some server) => ∀ j, server.CouldOffer worker.workerId j →
      Lasts s.notes s.now (worker.ids.text j) → worker.ids.text j ∈ s.cache.keys.take 50
  | _ => True

/-- The job of a note, if it is a refusal that still lasts. -/
def Note.lasting (now : Nat) : Note → Option String
  | .refused jobId t ttlMs => if now < t + ttlMs then some jobId else none
  | .claimed _ _ => none

/-- The jobs of which a refusal still lasts. -/
def refusedJobs (notes : List Note) (now : Nat) : List String :=
  (notes.filterMap (Note.lasting now)).dedup

/-- When the loop polls, at most 50 jobs are refused. -/
def Few (s : LoopState) : Event → Prop
  | .poll => (refusedJobs s.notes s.now).length ≤ 50
  | _ => True

section Exclusion

variable {ids : JobIds} {cache : RefuseCache}

theorem excludeJobIds_joined {texts : List String} (hne : texts ≠ [])
    (hplain : ∀ t ∈ texts, t ≠ "" ∧ ∀ c ∈ t.toList, c ≠ ',' ∧ isWhiteSpace c = false) :
    excludeJobIds (some (joinedByComma texts)) = texts.take 50 := by
  have hsplit : (joinedByComma texts).toList.splitOn ',' = texts.map String.toList := by
    rw [joinedByComma, String.toList_ofList]
    refine List.splitOn_intercalate ',' ?_ (by simpa using hne)
    intro l hl hcomma
    obtain ⟨t, ht, rfl⟩ := List.mem_map.mp hl
    exact ((hplain t ht).2 ',' hcomma).1 rfl
  have hback : ((texts.map String.toList).map String.ofList).map trimmed = texts := by
    rw [List.map_map, List.map_map]
    refine (List.map_congr_left fun t ht => ?_).trans (List.map_id texts)
    simp only [Function.comp_apply, String.ofList_toList]
    exact trimmed_of_plain fun c hc => ((hplain t ht).2 c hc).2
  have hfilter : texts.filter (· ≠ "") = texts := by
    refine List.filter_eq_self.mpr fun t ht => ?_
    simpa using (hplain t ht).1
  simp only [excludeJobIds, hsplit, hback]
  rw [hfilter]

/-- The server reads the ids that were sent, if they are ids of jobs. -/
theorem excludeJobIds_csv (hkeys : ∀ k ∈ cache.keys, ∃ j, k = ids.text j) :
    excludeJobIds (excludeJobIdsCsv cache) = cache.keys.take 50 := by
  rw [excludeJobIdsCsv]
  by_cases hne : cache.keys.take 50 = []
  · rw [if_pos hne, hne]
    rfl
  · have hplain : ∀ t ∈ cache.keys.take 50,
        t ≠ "" ∧ ∀ c ∈ t.toList, c ≠ ',' ∧ isWhiteSpace c = false := by
      intro t ht
      obtain ⟨i, rfl⟩ := hkeys t (List.mem_of_mem_take ht)
      exact ⟨ids.nonempty i, ids.plain i⟩
    rw [if_neg hne, excludeJobIds_joined hne hplain, List.take_take, Nat.min_self]

/-- A job among the first 50 of the cache is excluded. -/
theorem mem_excluded {server : Server} {j : Nat} (hkeys : ∀ k ∈ cache.keys, ∃ j, k = ids.text j)
    (hj : j ∈ server.board.world.ids) (hmem : ids.text j ∈ cache.keys.take 50) :
    j ∈ server.excluded ids (excludeJobIdsCsv cache) := by
  refine List.mem_filter.mpr ⟨hj, ?_⟩
  rw [excludeJobIds_csv hkeys]
  exact decide_eq_true hmem

/-- What `jobs/next` offers has passed the search. -/
theorem nextRoute_claimable {b : Board} {q : Intake} {i : Nat} {opts : Filters} {c : Candidate}
    (h : nextRoute b q i opts = .claimable c) : b.findClaimableJob i opts = some c := by
  unfold nextRoute at h
  cases hactive : getActiveJobForWorker b.world i with
  | some row => simp [hactive] at h
  | none =>
      simp only [hactive] at h
      split_ifs at h
      cases hfind : b.findClaimableJob i opts with
      | none => simp [hfind] at h
      | some d => simpa [hfind] using h

/-- What the search finds is a row of the query that passes. -/
theorem found_candidate {b : Board} {i : Nat} {opts : Filters} {c : Candidate}
    (h : b.findClaimableJob i opts = some c) :
    b.candidate c.jobId = some c ∧ c.jobId ∈ b.world.ids ∧ b.wanted opts c = true ∧
      b.offerable i opts c = true := by
  have hmem : c ∈ b.passing i opts := (findClaimableJob_iff.mp h).mem
  obtain ⟨hcandidate, hpass⟩ := List.mem_filter.mp hmem
  have hrow : c ∈ b.rows opts := List.mem_of_mem_take (candidates_eq ▸ hcandidate)
  rw [Board.rows, List.mem_insertionSort, List.mem_filter, List.mem_filterMap] at hrow
  obtain ⟨⟨j, hj, hc⟩, hwanted⟩ := hrow
  obtain ⟨rfl, -⟩ := candidate_jobId hc
  exact ⟨hc, hj, hwanted, hpass⟩

/-- What the server offers is not excluded, and could be offered. -/
theorem next_claimable {server : Server} {worker : Worker} {exclude : Option String}
    {c : Candidate} (h : server.next worker exclude = .claimable c) :
    server.CouldOffer worker.workerId c.jobId ∧ c.jobId ∈ server.board.world.ids ∧
      c.jobId ∉ server.excluded worker.ids exclude := by
  obtain ⟨hc, hj, hwanted, hpass⟩ := found_candidate (nextRoute_claimable h)
  have hnot : c.jobId ∉ server.excluded worker.ids exclude := by
    simp only [Board.offerable, Bool.and_eq_true, decide_eq_true_eq] at hpass
    exact hpass.1.1.1.1.1
  refine ⟨⟨c, hc, ?_, ?_⟩, hj, hnot⟩
  · simp only [Board.wanted, Bool.and_eq_true] at hwanted ⊢
    exact ⟨hwanted.1, by simp⟩
  · simp only [Board.offerable, Bool.and_eq_true] at hpass ⊢
    exact ⟨⟨⟨⟨⟨by simp, hpass.1.1.1.1.2⟩, hpass.1.1.1.2⟩, hpass.1.1.2⟩, hpass.1.2⟩, hpass.2⟩

end Exclusion

section Moves

/-- The job the loop is busy with. -/
def Phase.job : Phase → Option String
  | .offered jobId _ | .claiming jobId | .working jobId => some jobId
  | .polling | .asking _ | .stopped => none

/-- What a step can do. -/
inductive Move (worker : Worker) (s : LoopState) : Event → LoopState → Prop where
  | tick (ms : Nat) : Move worker s (.tick ms) { s with now := s.now + ms }
  | poll (h : s.phase = .polling) : Move worker s .poll
      { s with
        cache := pruneRefuseCache s.cache s.now
        phase := .asking (excludeJobIdsCsv (pruneRefuseCache s.cache s.now)) }
  | offer {server : Server} {exclude : Option String} {c : Candidate} {bountyId : String}
      (h : s.phase = .asking exclude) (hnext : server.next worker exclude = .claimable c) :
      Move worker s (.answer (some server))
        { s with phase := .offered (worker.ids.text c.jobId) bountyId }
  | refuse (e : Event) {jobId reason : String} {ttlMs : Nat} (h : s.phase.job = some jobId)
      (httl : 5000 ≤ ttlMs) : Move worker s e (s.refuse jobId reason ttlMs)
  | claim (e : Event) {jobId : String} (h : s.phase.job = some jobId) : Move worker s e
      { s with phase := .claiming jobId, notes := .claimed jobId s.now :: s.notes }
  | work (e : Event) {jobId : String} (h : s.phase.job = some jobId) :
      Move worker s e { s with phase := .working jobId }
  | rest (e : Event) {phase : Phase} (h : phase = .polling ∨ phase = .stopped) :
      Move worker s e { s with phase := phase }

variable {worker : Worker} {s s' : LoopState} {e : Event}

/-- The refusals before a claim hold for two minutes at least. -/
theorem refusal_ttl {jobId bountyId reason : String} {preflight : Option String} {ttlMs : Nat}
    (h : worker.refusal jobId bountyId preflight = some (reason, ttlMs)) : 5000 ≤ ttlMs := by
  unfold Worker.refusal at h
  split_ifs at h
  · obtain ⟨-, rfl⟩ := Prod.mk.inj (Option.some.inj h)
    omega
  · obtain ⟨-, rfl⟩ := Prod.mk.inj (Option.some.inj h)
    omega
  · obtain ⟨-, rfl⟩ := Prod.mk.inj (Option.some.inj h)
    omega
  · obtain ⟨message, -, hpair⟩ := Option.map_eq_some_iff.mp h
    obtain ⟨-, rfl⟩ := Prod.mk.inj hpair
    omega

theorem roundEnd_rests : worker.roundEnd = .polling ∨ worker.roundEnd = .stopped := by
  unfold Worker.roundEnd
  split_ifs
  · exact Or.inr rfl
  · exact Or.inl rfl

/-- Every step is one of these moves. -/
theorem move_of_step (h : worker.step s e = some s') : Move worker s e s' := by
  unfold Worker.step at h
  split at h
  · obtain rfl := Option.some.inj h
    exact .tick _
  · rename_i hphase
    obtain rfl := Option.some.inj h
    exact .poll hphase
  · obtain rfl := Option.some.inj h
    exact .rest _ (Or.inl rfl)
  · rename_i server exclude hphase
    split at h
    · rename_i c hnext
      dsimp only at h
      rw [if_neg (worker.ids.nonempty _)] at h
      obtain rfl := Option.some.inj h
      exact .offer hphase hnext
    · obtain rfl := Option.some.inj h
      exact .rest _ roundEnd_rests
  · rename_i preflight jobId bountyId hphase
    split at h
    · rename_i reason ttlMs hrefusal
      obtain rfl := Option.some.inj h
      exact .refuse _ (by rw [hphase]; rfl) (refusal_ttl hrefusal)
    · obtain rfl := Option.some.inj h
      exact .claim _ (by rw [hphase]; rfl)
  · rename_i jobId hphase
    obtain rfl := Option.some.inj h
    exact .work _ (by rw [hphase]; rfl)
  · rename_i status jobId hphase
    obtain rfl := Option.some.inj h
    exact .refuse _ (by rw [hphase]; rfl) (by omega)
  · obtain rfl := Option.some.inj h
    exact .rest _ roundEnd_rests
  · rename_i message jobId hphase
    obtain rfl := Option.some.inj h
    exact .refuse _ (by rw [hphase]; rfl) (by omega)
  · obtain rfl := Option.some.inj h
    exact .rest _ (Or.inr rfl)
  · cases h

end Moves

section Lasting

variable {notes : List Note} {now later t ttlMs : Nat} {jobId other : String}

theorem lasts_claimed : Lasts (.claimed other t :: notes) now jobId ↔ Lasts notes now jobId := by
  simp [Lasts]

/-- What lasts later lasts now. -/
theorem Lasts.earlier (h : Lasts notes later jobId) (hle : now ≤ later) : Lasts notes now jobId := by
  obtain ⟨t, ttlMs, hmem, hlt⟩ := h
  exact ⟨t, ttlMs, hmem, by omega⟩

end Lasting

section Soundness

variable {worker : Worker} {s s' : LoopState} {e : Event}

/-- What a run keeps: the cache has ids of jobs, the list that was sent is that of the cache, and
no refusal of the job the loop is busy with lasts. -/
structure Sound (worker : Worker) (s : LoopState) : Prop where
  keys : ∀ k ∈ s.cache.keys, ∃ j, k = worker.ids.text j
  sent : ∀ exclude, s.phase = .asking exclude → exclude = excludeJobIdsCsv s.cache
  job : ∀ jobId, s.phase.job = some jobId → (∃ j, jobId = worker.ids.text j) ∧
    ¬ Lasts s.notes s.now jobId
  held : Held s.notes

theorem prune_keys {cache : RefuseCache} {now : Nat} {k : String}
    (h : k ∈ (pruneRefuseCache cache now).keys) : k ∈ cache.keys := by
  obtain ⟨v, hmem⟩ := InsertionMap.mem_keys.mp h
  exact InsertionMap.mem_keys.mpr
    ⟨v, (InsertionMap.mem_filter.mp (InsertionMap.newest_subset hmem)).1⟩

theorem addRefusal_keys {cache : RefuseCache} {now ttlMs : Nat} {jobId reason k : String}
    (h : k ∈ (addRefusal cache now jobId reason ttlMs).keys) : k = jobId ∨ k ∈ cache.keys := by
  unfold addRefusal at h
  split_ifs at h
  · exact Or.inr h
  · obtain ⟨v, hmem⟩ := InsertionMap.mem_keys.mp (prune_keys h)
    rcases InsertionMap.mem_set.mp hmem with heq | hmem
    · exact Or.inl (Prod.mk.inj heq).1
    · exact Or.inr (InsertionMap.mem_keys.mpr ⟨v, hmem.1⟩)

/-- A step that meets the condition keeps it. -/
theorem Sound.step (h : Sound worker s) (hok : Listed worker s e)
    (hstep : worker.step s e = some s') : Sound worker s' := by
  cases move_of_step hstep with
  | tick ms =>
      refine ⟨h.keys, h.sent, fun jobId hjob => ⟨(h.job jobId hjob).1, fun hlasts => ?_⟩, h.held⟩
      exact (h.job jobId hjob).2 (hlasts.earlier (by simp))
  | poll hphase =>
      refine ⟨fun k hk => h.keys k (prune_keys hk), fun exclude hsent => ?_, fun jobId hjob => ?_,
        h.held⟩
      · exact (Phase.asking.inj hsent).symm
      · cases hjob
  | @offer server exclude c bountyId hphase hnext =>
      obtain ⟨hcould, hids, hnot⟩ := next_claimable hnext
      obtain rfl := h.sent exclude hphase
      refine ⟨h.keys, fun exclude hsent => (by cases hsent), fun jobId hjob => ?_, h.held⟩
      obtain rfl := Option.some.inj hjob
      refine ⟨⟨c.jobId, rfl⟩, fun hlasts => hnot ?_⟩
      exact mem_excluded h.keys hids (hok c.jobId hcould hlasts)
  | @refuse _ jobId reason ttlMs hjob httl =>
      refine ⟨fun k hk => ?_, fun exclude hsent => (by cases hsent), fun jobId hjob => (by cases hjob),
        h.held⟩
      rcases addRefusal_keys hk with rfl | hk
      · exact (h.job k hjob).1
      · exact h.keys k hk
  | @claim _ jobId hjob =>
      refine ⟨h.keys, fun exclude hsent => (by cases hsent), fun jobId' hjob' => ?_,
        (h.job jobId hjob).2, h.held⟩
      obtain rfl := Option.some.inj hjob'
      exact ⟨(h.job jobId hjob).1, fun hlasts => (h.job jobId hjob).2 (lasts_claimed.mp hlasts)⟩
  | @work _ jobId hjob =>
      refine ⟨h.keys, fun exclude hsent => (by cases hsent), fun jobId' hjob' => ?_, h.held⟩
      obtain rfl := Option.some.inj hjob'
      exact h.job jobId hjob
  | @rest _ phase hrest =>
      rcases hrest with rfl | rfl
      · exact ⟨h.keys, fun exclude hsent => (by cases hsent), fun jobId hjob => (by cases hjob), h.held⟩
      · exact ⟨h.keys, fun exclude hsent => (by cases hsent), fun jobId hjob => (by cases hjob), h.held⟩

theorem sound_start (now : Nat) : Sound worker (.start now) :=
  ⟨fun k hk => (by cases hk), fun exclude hsent => (by cases hsent), fun jobId hjob => (by cases hjob),
    trivial⟩

/-- Every run that meets the condition keeps it. -/
theorem sound_of_listed (h : worker.Reaches (Listed worker) s) : Sound worker s := by
  induction h with
  | start now => exact sound_start now
  | step _ hok hstep ih => exact ih.step hok hstep

end Soundness

section Few

variable {worker : Worker} {s s' : LoopState} {e : Event}

/-- What a run with few refusals keeps: the cache has the refusals that last, and has not grown
beyond what is sent. -/
structure Kept (s : LoopState) : Prop where
  backed : ∀ k v, (k, v) ∈ s.cache.entries →
    ∃ t ttlMs, .refused k t ttlMs ∈ s.notes ∧ v.expiresAtMs = t + ttlMs
  kept : ∀ k t ttlMs, .refused k t ttlMs ∈ s.notes → s.now < t + ttlMs →
    ∃ v, (k, v) ∈ s.cache.entries ∧ t + ttlMs ≤ v.expiresAtMs
  small : (∃ exclude, s.phase = .asking exclude) ∨ (∃ jobId, s.phase.job = some jobId) →
    s.cache.entries.length ≤ 50

theorem mem_refusedJobs {notes : List Note} {now : Nat} {k : String} :
    k ∈ refusedJobs notes now ↔ Lasts notes now k := by
  rw [refusedJobs, List.mem_dedup, List.mem_filterMap]
  constructor
  · rintro ⟨note, hmem, hnote⟩
    cases note with
    | claimed jobId t => cases hnote
    | refused jobId t ttlMs =>
        simp only [Note.lasting] at hnote
        split_ifs at hnote with hlt
        obtain rfl := Option.some.inj hnote
        exact ⟨t, ttlMs, hmem, hlt⟩
  · rintro ⟨t, ttlMs, hmem, hlt⟩
    exact ⟨_, hmem, if_pos hlt⟩

/-- A cache of at most 200 entries that have not expired loses none. -/
theorem prune_entries {cache : RefuseCache} {now : Nat}
    (h : (cache.filter fun e => decide (now < e.2.expiresAtMs)).entries.length ≤ 200) :
    pruneRefuseCache cache now = cache.filter fun e => decide (now < e.2.expiresAtMs) :=
  InsertionMap.newest_of_le h

/-- What has not expired is what lasts. -/
theorem Kept.unexpired_length (h : Kept s) :
    (s.cache.filter fun e => decide (s.now < e.2.expiresAtMs)).entries.length ≤
      (refusedJobs s.notes s.now).length := by
  refine InsertionMap.length_le fun k hk => ?_
  obtain ⟨v, hmem⟩ := InsertionMap.mem_keys.mp hk
  obtain ⟨hentry, hlive⟩ := InsertionMap.mem_filter.mp hmem
  obtain ⟨t, ttlMs, hnote, hexpires⟩ := h.backed k v hentry
  have hlt : s.now < t + ttlMs := hexpires ▸ of_decide_eq_true hlive
  exact mem_refusedJobs.mpr ⟨t, ttlMs, hnote, hlt⟩

/-- The poll drops what has expired, and nothing else. -/
theorem Kept.poll (h : Kept s) (hfew : (refusedJobs s.notes s.now).length ≤ 50) :
    Kept { s with
      cache := pruneRefuseCache s.cache s.now
      phase := .asking (excludeJobIdsCsv (pruneRefuseCache s.cache s.now)) } := by
  have hlength := h.unexpired_length.trans hfew
  have hprune := prune_entries (hlength.trans (by omega))
  refine ⟨fun k v hmem => ?_, fun k t ttlMs hnote hlt => ?_, fun _ => ?_⟩
  · rw [hprune] at hmem
    exact h.backed k v (InsertionMap.mem_filter.mp hmem).1
  · obtain ⟨v, hmem, hle⟩ := h.kept k t ttlMs hnote hlt
    rw [hprune]
    have hlive : s.now < v.expiresAtMs := hlt.trans_le hle
    exact ⟨v, InsertionMap.mem_filter.mpr ⟨hmem, decide_eq_true hlive⟩, hle⟩
  · rw [hprune]
    exact hlength

/-- A refusal of a job that is not refused drops no other refusal. -/
theorem Kept.refuse {jobId reason : String} {ttlMs : Nat} (h : Kept s) (hne : jobId ≠ "")
    (hjob : s.phase.job = some jobId) (hnot : ¬ Lasts s.notes s.now jobId) (httl : 5000 ≤ ttlMs) :
    Kept (s.refuse jobId reason ttlMs) := by
  have hmax : max 5000 ttlMs = ttlMs := max_eq_right httl
  have hlength : ((s.cache.set jobId ⟨s.now + ttlMs, reason⟩).filter
      fun e => decide (s.now < e.2.expiresAtMs)).entries.length ≤ 200 := by
    have hset := InsertionMap.length_set (m := s.cache) (k := jobId)
      (v := (⟨s.now + ttlMs, reason⟩ : Refusal))
    have hsmall := h.small (Or.inr ⟨jobId, hjob⟩)
    have hfilter := List.length_filter_le (fun e : String × Refusal =>
      decide (s.now < e.2.expiresAtMs)) (s.cache.set jobId ⟨s.now + ttlMs, reason⟩).entries
    exact hfilter.trans (by omega)
  have hcache : (s.refuse jobId reason ttlMs).cache =
      (s.cache.set jobId ⟨s.now + ttlMs, reason⟩).filter
        fun e => decide (s.now < e.2.expiresAtMs) := by
    simp only [LoopState.refuse, addRefusal, if_neg hne, hmax]
    exact prune_entries hlength
  refine ⟨fun k v hmem => ?_, fun k t ttl hnote hlt => ?_, fun hbusy => ?_⟩
  · rw [hcache] at hmem
    rcases InsertionMap.mem_set.mp (InsertionMap.mem_filter.mp hmem).1 with heq | ⟨hold, -⟩
    · obtain ⟨rfl, rfl⟩ := Prod.mk.inj heq
      exact ⟨s.now, ttlMs, List.mem_cons_self, rfl⟩
    · obtain ⟨t, ttl, hnote, hexpires⟩ := h.backed k v hold
      exact ⟨t, ttl, List.mem_cons_of_mem _ hnote, hexpires⟩
  · rw [hcache]
    rcases List.mem_cons.mp hnote with heq | hold
    · obtain ⟨rfl, rfl, rfl⟩ := Note.refused.inj heq
      refine ⟨⟨s.now + ttl, reason⟩, InsertionMap.mem_filter.mpr
        ⟨InsertionMap.mem_set.mpr (Or.inl rfl), ?_⟩, le_rfl⟩
      exact decide_eq_true hlt
    · have hother : k ≠ jobId := by
        rintro rfl
        exact hnot ⟨t, ttl, hold, hlt⟩
      obtain ⟨v, hmem, hle⟩ := h.kept k t ttl hold hlt
      have hlive : s.now < v.expiresAtMs := lt_of_lt_of_le hlt hle
      exact ⟨v, InsertionMap.mem_filter.mpr
        ⟨InsertionMap.mem_set.mpr (Or.inr ⟨hmem, hother⟩), decide_eq_true hlive⟩, hle⟩
  · rcases hbusy with ⟨exclude, hphase⟩ | ⟨k, hphase⟩
    · cases hphase
    · cases hphase

/-- A step that changes neither the refusals nor the cache. -/
theorem Kept.same (h : Kept s) (hcache : s'.cache = s.cache) (hnow : s.now ≤ s'.now)
    (hnotes : ∀ k t ttlMs, .refused k t ttlMs ∈ s'.notes ↔ .refused k t ttlMs ∈ s.notes)
    (hsmall : (∃ exclude, s'.phase = .asking exclude) ∨ (∃ jobId, s'.phase.job = some jobId) →
      (∃ exclude, s.phase = .asking exclude) ∨ (∃ jobId, s.phase.job = some jobId)) : Kept s' := by
  refine ⟨fun k v hmem => ?_, fun k t ttlMs hnote hlt => ?_, fun hbusy => ?_⟩
  · obtain ⟨t, ttlMs, hnote, hexpires⟩ := h.backed k v (hcache ▸ hmem)
    exact ⟨t, ttlMs, (hnotes k t ttlMs).mpr hnote, hexpires⟩
  · rw [hcache]
    exact h.kept k t ttlMs ((hnotes k t ttlMs).mp hnote) (by omega)
  · rw [hcache]
    exact h.small (hsmall hbusy)

theorem Kept.step (h : Kept s) (hsound : Sound worker s) (hok : Few s e)
    (hstep : worker.step s e = some s') : Kept s' := by
  cases move_of_step hstep with
  | tick ms => exact h.same rfl (by simp) (fun k t ttlMs => Iff.rfl) id
  | poll hphase => exact h.poll hok
  | offer hphase hnext =>
      exact h.same rfl le_rfl (fun k t ttlMs => Iff.rfl) fun _ => Or.inl ⟨_, hphase⟩
  | @refuse _ jobId reason ttlMs hjob httl =>
      obtain ⟨⟨j, hj⟩, hnot⟩ := hsound.job jobId hjob
      have hne : jobId ≠ "" := by
        rw [hj]
        exact worker.ids.nonempty j
      exact h.refuse hne hjob hnot httl
  | claim _ hjob =>
      exact h.same rfl le_rfl (fun k t ttlMs => by simp) fun _ => Or.inr ⟨_, hjob⟩
  | work _ hjob => exact h.same rfl le_rfl (fun k t ttlMs => Iff.rfl) fun _ => Or.inr ⟨_, hjob⟩
  | @rest _ phase hrest =>
      refine h.same rfl le_rfl (fun k t ttlMs => Iff.rfl) fun hbusy => ?_
      rcases hrest with rfl | rfl
      · rcases hbusy with ⟨exclude, hphase⟩ | ⟨k, hphase⟩ <;> cases hphase
      · rcases hbusy with ⟨exclude, hphase⟩ | ⟨k, hphase⟩ <;> cases hphase

/-- The server answers while the loop waits for it. -/
theorem asking_of_answer {server : Server}
    (hstep : worker.step s (.answer (some server)) = some s') :
    ∃ exclude, s.phase = .asking exclude := by
  cases hphase : s.phase with
  | asking exclude => exact ⟨exclude, rfl⟩
  | polling | offered jobId bountyId | claiming jobId | working jobId | stopped =>
      simp [Worker.step, hphase] at hstep

/-- With few refusals every job that is refused is in the list that was sent. -/
theorem Kept.listed (h : Kept s) (hstep : worker.step s e = some s') : Listed worker s e := by
  cases e with
  | answer reply =>
      cases reply with
      | none => trivial
      | some server =>
          intro j _ hlasts
          obtain ⟨t, ttlMs, hnote, hlt⟩ := hlasts
          obtain ⟨v, hmem, -⟩ := h.kept _ t ttlMs hnote hlt
          have hlength : s.cache.keys.length ≤ 50 := by
            rw [InsertionMap.keys, List.length_map]
            exact h.small (Or.inl (asking_of_answer hstep))
          rw [List.take_of_length_le hlength]
          exact InsertionMap.mem_keys.mpr ⟨v, hmem⟩
  | tick | poll | screen | claimAnswer | finish | stop => trivial

/-- A run with few refusals at each poll meets the other condition. -/
theorem listed_of_few (h : worker.Reaches Few s) : worker.Reaches (Listed worker) s ∧ Kept s := by
  induction h with
  | start now =>
      refine ⟨.start now, fun k v hmem => (by cases hmem), fun k t ttlMs hnote => (by cases hnote),
        fun _ => by simp [LoopState.start, InsertionMap.empty]⟩
  | step _ hok hstep ih =>
      obtain ⟨hreaches, hkept⟩ := ih
      exact ⟨.step hreaches (hkept.listed hstep) hstep,
        hkept.step (sound_of_listed hreaches) hok hstep⟩

end Few

/-- **Refusals hold** in every run in which, whenever the server answers, each refused job that
it could offer is among the first 50 of the cache; and in every run in which at most 50 jobs are
refused whenever the loop polls. -/
theorem refusals_hold {worker : Worker} {s : LoopState}
    (h : worker.Reaches (Listed worker) s ∨ worker.Reaches Few s) : Held s.notes := by
  rcases h with hlisted | hfew
  · exact (sound_of_listed hlisted).held
  · exact (sound_of_listed (listed_of_few hfew).1).held

section Example

/-- Ids of one letter, written `j + 1` times. -/
def unary : JobIds where
  text j := String.ofList (List.replicate (j + 1) 'a')
  nonempty j := by simp [List.replicate_succ]
  plain j c hc := by
    rw [String.toList_ofList] at hc
    obtain rfl := List.eq_of_mem_replicate hc
    decide

theorem unary_injective {i j : Nat} (h : unary.text i = unary.text j) : i = j := by
  have hlist : List.replicate (i + 1) 'a' = List.replicate (j + 1) 'a' := String.ofList_injective h
  have hlength := congrArg List.length hlist
  simpa using hlength

/-- A worker without requirements. -/
def anyJob : Worker where
  workerId := 1
  ids := unary
  bountyIdText _ := "bounty"
  requireJobId := ""
  requireBountyId := ""
  withinCanary _ := true
  once := false

/-- A server whose one open job is `j`. -/
def onlyJob (j : Nat) : Server where
  board :=
    { world := { World.empty with
        nextId := j + 1
        bounties := fun _ => some ⟨9, .published, [], [7], 100, 0, 0, some 0⟩
        jobs := fun i => if i = j then some (.fresh 1 7 0 0) else none }
      jobDescriptor := fun _ => none
      bountyDescriptor := fun _ => none
      priority := fun _ => 0
      requiredProofs := fun _ => 1
      appByTaskType := fun _ => none
      orgSystem := 0
      normalizeOrigin := some
      browserDisabled := fun _ => false }
  intake := ⟨false, 0, 100, 0, 0, 0, 0, 0, 0⟩
  filters := .none

/-- The open job of such a server. -/
def theJob (j : Nat) : Candidate := ⟨j, .fresh 1 7 0 0, ⟨9, .published, [], [7], 100, 0, 0, some 0⟩⟩

theorem onlyJob_candidates (j : Nat) :
    (onlyJob j).board.world.ids.filterMap (onlyJob j).board.candidate = [theJob j] := by
  have hids : (onlyJob j).board.world.ids = List.range (j + 1) := rfl
  have hothers : (List.range j).filterMap (onlyJob j).board.candidate = [] := by
    refine List.filterMap_eq_nil_iff.mpr fun i hi => ?_
    have hne : i ≠ j := (List.mem_range.mp hi).ne
    simp [Board.candidate, onlyJob, hne]
  have hthis : (onlyJob j).board.candidate j = some (theJob j) := by
    simp [Board.candidate, onlyJob, theJob]
  rw [hids, List.range_succ, List.filterMap_append, hothers]
  simp [hthis]

/-- No job is held. -/
theorem onlyJob_idle (j i : Nat) : getActiveJobForWorker (onlyJob j).board.world i = none := by
  rw [← Option.not_isSome_iff_eq_none, getActiveJobForWorker_isSome]
  rintro ⟨row, hrow, hactive⟩
  obtain ⟨-, hjob⟩ := mem_jobRows.mp hrow
  simp only [onlyJob, Option.ite_none_right_eq_some] at hjob
  obtain ⟨-, hfresh⟩ := hjob
  rw [← Option.some.inj hfresh] at hactive
  simp [Job.activeStatus, Job.fresh] at hactive

/-- The search finds it unless it is excluded. -/
theorem found_onlyJob {j : Nat} {excluded : List Nat} (hnot : j ∉ excluded) :
    (onlyJob j).board.findClaimableJob 1 ⟨none, none, none, none, excluded, none, none⟩ =
      some (theJob j) := by
  have htaken : j ∉ excluded.eraseDups.take 50 := by
    intro hmem
    exact hnot (List.mem_eraseDups.mp (List.mem_of_mem_take hmem))
  have hwanted : (onlyJob j).board.wanted ⟨none, none, none, none, excluded, none, none⟩ (theJob j) =
      true := by
    simp only [Board.wanted, theJob, htaken]
    simp [onlyJob, JobStmt.leasable, Job.fresh]
  have hoffer : (onlyJob j).board.offerable 1 ⟨none, none, none, none, excluded, none, none⟩
      (theJob j) = true := by
    simp only [Board.offerable, theJob, hnot]
    simp [onlyJob, Board.originsVerified, Board.capable, Board.stale, Job.isStale, slaSec,
      Board.descriptor, World.empty]
  rw [Board.findClaimableJob, Board.candidates, onlyJob_candidates,
    List.filter_cons_of_pos hwanted]
  simp [Board.keepBest, hoffer]

/-- It is offered unless it is excluded. -/
theorem next_onlyJob {j : Nat} {exclude : Option String}
    (hnot : unary.text j ∉ excludeJobIds exclude) :
    (onlyJob j).next anyJob exclude = .claimable (theJob j) := by
  have hexcluded : j ∉ (onlyJob j).excluded unary exclude := by
    intro hmem
    exact hnot (of_decide_eq_true (List.mem_filter.mp hmem).2)
  have hfound := found_onlyJob hexcluded
  have hnext : (onlyJob j).next anyJob exclude =
      nextRoute (onlyJob j).board ⟨false, 0, 100, 0, 0, 0, 0, 0, 0⟩ 1
        ⟨none, none, none, none, (onlyJob j).excluded unary exclude, none, none⟩ := rfl
  rw [hnext, nextRoute, onlyJob_idle]
  simp [hfound, isOverAge]

/-- A cache with some jobs, none to expire within ten minutes of the start. -/
structure Stocked (js : List Nat) (cache : RefuseCache) : Prop where
  keys : cache.keys = js.map unary.text
  live : ∀ e ∈ cache.entries, 600000 ≤ e.2.expiresAtMs

/-- Between two rounds, with some jobs refused. -/
structure Filled (js : List Nat) (s : LoopState) : Prop where
  reaches : anyJob.Reaches (fun _ _ => True) s
  polling : s.phase = .polling
  stocked : Stocked js s.cache

variable {js : List Nat} {s : LoopState} {j : Nat}

theorem prune_live {cache : RefuseCache} {now : Nat} (hlive : ∀ e ∈ cache.entries, now < e.2.expiresAtMs)
    (hlength : cache.entries.length ≤ 200) : pruneRefuseCache cache now = cache := by
  have hfilter : (cache.filter fun e => decide (now < e.2.expiresAtMs)) = cache :=
    InsertionMap.filter_of_all fun e he => decide_eq_true (hlive e he)
  rw [pruneRefuseCache, hfilter, InsertionMap.newest_of_le hlength]

section Stock

variable {cache : RefuseCache} {now : Nat}

theorem Stocked.length (h : Stocked js cache) : cache.entries.length = js.length := by
  simpa [InsertionMap.keys] using congrArg List.length h.keys

theorem Stocked.notMem (h : Stocked js cache) (hnew : j ∉ js) : unary.text j ∉ cache.keys := by
  intro hmem
  rw [h.keys] at hmem
  obtain ⟨i, hi, htext⟩ := List.mem_map.mp hmem
  exact hnew (unary_injective htext ▸ hi)

/-- A job that is refused for ten minutes joins the others. -/
theorem Stocked.refuse {reason : String} (h : Stocked js cache) (hlength : js.length ≤ 100)
    (hnow : now < 600000) (hnew : j ∉ js) :
    Stocked (js ++ [j]) (addRefusal cache now (unary.text j) reason 600000) := by
  have hset : (cache.set (unary.text j) ⟨now + 600000, reason⟩).entries =
      cache.entries ++ [(unary.text j, ⟨now + 600000, reason⟩)] :=
    InsertionMap.set_new (h.notMem hnew)
  have hlive : ∀ e ∈ (cache.set (unary.text j) ⟨now + 600000, reason⟩).entries,
      600000 ≤ e.2.expiresAtMs := by
    intro e he
    rw [hset, List.mem_append, List.mem_singleton] at he
    rcases he with he | rfl
    · exact h.live e he
    · simp
  have hcache : addRefusal cache now (unary.text j) reason 600000 =
      cache.set (unary.text j) ⟨now + 600000, reason⟩ := by
    rw [addRefusal, if_neg (unary.nonempty j)]
    refine prune_live (fun e he => hnow.trans_le (hlive e he)) ?_
    change (cache.set (unary.text j) ⟨now + 600000, reason⟩).entries.length ≤ 200
    rw [hset, List.length_append, h.length, List.length_singleton]
    omega
  rw [hcache]
  refine ⟨?_, hlive⟩
  rw [InsertionMap.keys, hset, List.map_append, List.map_append, ← h.keys]
  rfl

end Stock

/-- A job that is not among the first 50 is offered. -/
theorem Filled.offered (h : Filled js s) (hlength : js.length ≤ 100) (hnow : s.now < 600000)
    (hnot : unary.text j ∉ s.cache.keys.take 50) :
    anyJob.Reaches (fun _ _ => True) { s with phase := .offered (unary.text j) "bounty" } := by
  have hprune : pruneRefuseCache s.cache s.now = s.cache := by
    refine prune_live (fun e he => hnow.trans_le (h.stocked.live e he)) ?_
    rw [h.stocked.length]
    omega
  have hids : ∀ k ∈ s.cache.keys, ∃ i, k = unary.text i := by
    intro k hk
    rw [h.stocked.keys] at hk
    obtain ⟨i, -, rfl⟩ := List.mem_map.mp hk
    exact ⟨i, rfl⟩
  have hpoll : anyJob.step s .poll =
      some { s with phase := .asking (excludeJobIdsCsv s.cache) } := by
    simp [Worker.step, h.polling, hprune]
  have hsent : unary.text j ∉ excludeJobIds (excludeJobIdsCsv s.cache) := by
    rw [excludeJobIds_csv hids]
    exact hnot
  have hanswer : anyJob.step { s with phase := .asking (excludeJobIdsCsv s.cache) }
      (.answer (some (onlyJob j))) =
        some { s with phase := .offered (unary.text j) "bounty" } := by
    have hne : anyJob.ids.text j ≠ "" := unary.nonempty j
    simp only [Worker.step, next_onlyJob hsent, theJob, if_neg hne]
    rfl
  exact .step (.step h.reaches trivial hpoll) trivial hanswer

/-- Job `j` is offered, fails its preflight and is refused. -/
theorem Filled.round (h : Filled js s) (hlength : js.length ≤ 100) (hnow : s.now < 600000)
    (hnew : j ∉ js) : ∃ s', Filled (js ++ [j]) s' ∧ s'.now = s.now + 250 := by
  have hoffered := h.offered hlength hnow fun hmem =>
    h.stocked.notMem hnew (List.mem_of_mem_take hmem)
  have hscreen : anyJob.step { s with phase := .offered (unary.text j) "bounty" }
      (.screen (some "no_login_blocked_preflight")) =
        some (s.refuse (unary.text j) "preflight:no_login_blocked_preflight" 600000) := rfl
  have hrefused : anyJob.Reaches (fun _ _ => True)
      { s.refuse (unary.text j) "preflight:no_login_blocked_preflight" 600000 with
        now := s.now + 250 } := .step (.step hoffered trivial hscreen) trivial (e := .tick 250) rfl
  exact ⟨_, ⟨hrefused, rfl, h.stocked.refuse hlength hnow hnew⟩, rfl⟩

/-- The first jobs are refused one after the other. -/
theorem filled_range (n : Nat) (hn : n ≤ 100) :
    ∃ s, Filled (List.range n) s ∧ s.now = 250 * n := by
  induction n with
  | zero => exact ⟨.start 0, ⟨.start 0, rfl, rfl, fun e he => by cases he⟩, rfl⟩
  | succ n ih =>
      obtain ⟨s, hfilled, hnow⟩ := ih (by omega)
      have hlength : (List.range n).length ≤ 100 := by
        rw [List.length_range]
        omega
      obtain ⟨s', hs', hlater⟩ := hfilled.round (j := n) hlength (by omega) (by simp)
      rw [← List.range_succ] at hs'
      exact ⟨s', hs', by omega⟩

/-- A job that fails after fifty refusals is claimed, and claimed again after five seconds. -/
theorem Filled.claimed_twice (h : Filled js s) (hlength : js.length = 50) (hnow : s.now < 500000)
    (hnew : j ∉ js) : ∃ s', anyJob.Reaches (fun _ _ => True) s' ∧ ¬ Held s'.notes := by
  have hoffered := h.offered (by omega) (by omega) fun hmem =>
    h.stocked.notMem hnew (List.mem_of_mem_take hmem)
  let worked : LoopState := { s with notes := .claimed (unary.text j) s.now :: s.notes }
  have hclaimed : anyJob.Reaches (fun _ _ => True)
      { worked with phase := .claiming (unary.text j) } :=
    .step hoffered trivial (e := .screen none) rfl
  have hworking : anyJob.Reaches (fun _ _ => True)
      { worked with phase := .working (unary.text j) } :=
    .step hclaimed trivial (e := .claimAnswer none) rfl
  have hfailed : anyJob.Reaches (fun _ _ => True)
      (worked.refuse (unary.text j) "job_failed:timeout" 600000) :=
    .step hworking trivial (e := .finish (some "timeout")) rfl
  let later : LoopState :=
    { worked.refuse (unary.text j) "job_failed:timeout" 600000 with now := s.now + 5000 }
  have hsoon : worked.now < 600000 := hnow.trans (by decide)
  have hfilled : Filled (js ++ [j]) later :=
    ⟨.step hfailed trivial (e := .tick 5000) rfl, rfl, h.stocked.refuse (by omega) hsoon hnew⟩
  have hbeyond : unary.text j ∉ later.cache.keys.take 50 := by
    rw [hfilled.stocked.keys, List.map_append, List.take_append_of_le_length (by simp [hlength]),
      List.take_of_length_le (by simp [hlength]), ← h.stocked.keys]
    exact h.stocked.notMem hnew
  have hlater : later.now = s.now + 5000 := rfl
  have hagain := hfilled.offered (by simp [hlength]) (by omega) hbeyond
  refine ⟨_, .step hagain trivial (e := .screen none) rfl, fun hheld => hheld.1 ?_⟩
  refine ⟨s.now, 600000, List.mem_cons_self, ?_⟩
  change s.now + 5000 < s.now + 600000
  omega

/-- The worker can claim a job while its refusal lasts. -/
theorem refused_job_claimed : ∃ s, anyJob.Reaches (fun _ _ => True) s ∧ ¬ Held s.notes := by
  obtain ⟨s, hs, hnow⟩ := filled_range 50 (by omega)
  exact hs.claimed_twice (j := 50) (by simp) (by omega) (by simp)

/-- One refusal, and the same job is offered no more. -/
theorem refusals_hold_once : ∃ s, anyJob.Reaches Few s ∧ Lasts s.notes s.now (unary.text 0) ∧
    Held s.notes := by
  have hasked : anyJob.Reaches Few { LoopState.start 0 with phase := .asking none } :=
    .step (.start 0) (Nat.zero_le _) (e := .poll) rfl
  have hanswer : anyJob.step { LoopState.start 0 with phase := .asking none }
      (.answer (some (onlyJob 0))) =
        some { LoopState.start 0 with phase := .offered (unary.text 0) "bounty" } := by
    have hne : anyJob.ids.text 0 ≠ "" := unary.nonempty 0
    have hnot : unary.text 0 ∉ excludeJobIds none := by simp [excludeJobIds]
    simp only [Worker.step, next_onlyJob hnot, theJob, if_neg hne]
    rfl
  have hoffered : anyJob.Reaches Few
      { LoopState.start 0 with phase := .offered (unary.text 0) "bounty" } :=
    .step hasked (e := .answer (some (onlyJob 0))) trivial hanswer
  have hrefused : anyJob.Reaches Few ((LoopState.start 0).refuse (unary.text 0)
      "preflight:no_login_blocked_preflight" 600000) :=
    .step hoffered (e := .screen (some "no_login_blocked_preflight")) trivial rfl
  exact ⟨_, hrefused, ⟨0, 600000, List.mem_cons_self, by decide⟩, refusals_hold (Or.inr hrefused)⟩

end Example

end OpenUnion.Refusals
