import Mathlib.Tactic.Linarith
import Mathlib.Tactic.Ring
import OpenUnion.Ranking.FirstMax
import OpenUnion.Safety.Offers

/-!
# The search for a job

`findClaimableJob` takes the first rows of a sorted query and keeps the eligible one with the
best score.  Some of the conditions are in the query, before its limit; the others are checked
on the rows the limit left.  The score adds the priority, times 100000, to the payout.

* `search_complete_iff`: the search finds nothing only if there is nothing, exactly when fewer
  ineligible rows than the limit come before the first eligible one.
* `eligible_hidden`: fifty jobs a worker cannot do hide one that it can.
* `priority_dominates_iff`: the priority of the job found is the best one exactly when some
  candidate of the best priority is not outbid, at 100000 for each point of priority.
* `priority_outbid`: a payout of 2000 dollars beats a point of priority.
-/

namespace OpenUnion

open Ranking

/-- All rows of the query, in its order. -/
def Board.rows (b : Board) (opts : Filters) : List Candidate :=
  ((b.world.ids.filterMap b.candidate).filter (b.wanted opts)).insertionSort b.before

/-- The limit of the query. -/
def Filters.limit (opts : Filters) : Nat := if opts.requireJobId.isSome then 1 else 50

/-- The job satisfies every condition, those of the query and those of the loop. -/
def Board.Eligible (b : Board) (workerId : Nat) (opts : Filters) (jobId : Nat) : Prop :=
  ∃ c, b.candidate jobId = some c ∧ b.wanted opts c = true ∧ b.offerable workerId opts c = true

/-- The ineligible rows that come before the first eligible one. -/
def Board.ahead (b : Board) (workerId : Nat) (opts : Filters) : List Candidate :=
  (b.rows opts).takeWhile fun c => !b.offerable workerId opts c

/-- The candidates that pass the checks of the loop. -/
def Board.passing (b : Board) (workerId : Nat) (opts : Filters) : List Candidate :=
  (b.candidates opts).filter (b.offerable workerId opts)

/-- The bounty priority of a candidate. -/
def Board.priorityOf (b : Board) (c : Candidate) : Int := b.priority c.job.bountyId

/-- The payout of a candidate, less the penalties. -/
def Board.worth (b : Board) (workerId : Nat) (c : Candidate) : Rat :=
  c.bounty.payoutCents
    - b.requiredProofs c.job.bountyId * (1 - expectedPassRate b.world workerId) * 500
    - c.bounty.payoutCents * workerDuplicateRate b.world workerId * (1 / 5)

section Loop

variable {b : Board} {i : Nat} {opts : Filters} {c : Candidate}

theorem candidates_eq : b.candidates opts = (b.rows opts).take opts.limit := rfl

/-- The loop keeps the best of the candidates that pass. -/
theorem foldl_keepBest (cs : List Candidate) (best : Option Candidate) :
    (cs.foldl (b.keepBest i opts) (best.map fun c => (b.score i c, c))).map Prod.snd =
      (cs.filter (b.offerable i opts)).foldl (keepMax (b.score i)) best := by
  induction cs generalizing best with
  | nil => cases best <;> rfl
  | cons c cs ih =>
      rw [List.foldl_cons]
      by_cases hpass : b.offerable i opts c = true
      · have hround : b.keepBest i opts (best.map fun c => (b.score i c, c)) c =
            (keepMax (b.score i) best c).map fun c => (b.score i c, c) := by
          cases best with
          | none => simp [Board.keepBest, hpass, keepMax]
          | some d =>
              simp only [Board.keepBest, hpass, if_true, Option.map_some, keepMax]
              split_ifs <;> rfl
        rw [hround, List.filter_cons_of_pos hpass, List.foldl_cons, ih]
      · have hround : b.keepBest i opts (best.map fun c => (b.score i c, c)) c =
            best.map fun c => (b.score i c, c) := by
          cases best <;> simp [Board.keepBest, hpass]
        rw [hround, List.filter_cons_of_neg hpass, ih]

/-- The search finds the first best of the candidates that pass. -/
theorem findClaimableJob_iff :
    b.findClaimableJob i opts = some c ↔ FirstMax (b.score i) (b.passing i opts) c := by
  rw [Board.findClaimableJob, ← foldl_keepMax]
  exact Eq.congr_left (foldl_keepBest (b.candidates opts) none)

/-- It finds nothing exactly when no candidate passes. -/
theorem findClaimableJob_none :
    b.findClaimableJob i opts = none ↔ ∀ c ∈ b.candidates opts, b.offerable i opts c = false := by
  have hloop : b.findClaimableJob i opts =
      (b.passing i opts).foldl (keepMax (b.score i)) none :=
    foldl_keepBest (b.candidates opts) none
  rw [hloop, foldl_keepMax_none, Board.passing, List.filter_eq_nil_iff]
  simp only [Bool.not_eq_true]

/-- The rows of the query are the jobs it asks for. -/
theorem mem_rows {b : SoundBoard} :
    c ∈ b.rows opts ↔ b.candidate c.jobId = some c ∧ b.wanted opts c = true := by
  rw [Board.rows, List.mem_insertionSort, List.mem_filter, List.mem_filterMap]
  constructor
  · rintro ⟨⟨j, -, hc⟩, hwanted⟩
    obtain ⟨rfl, -⟩ := candidate_jobId hc
    exact ⟨hc, hwanted⟩
  · rintro ⟨hc, hwanted⟩
    have hjob := (candidate_jobId hc).2.1
    exact ⟨⟨c.jobId, by simpa [World.ids] using b.numbered c.jobId c.job hjob, hc⟩, hwanted⟩

/-- Some job is eligible exactly when a row of the query passes. -/
theorem exists_eligible {b : SoundBoard} :
    (∃ j, b.Eligible i opts j) ↔ ∃ c ∈ b.rows opts, b.offerable i opts c = true := by
  constructor
  · rintro ⟨j, c, hc, hwanted, hpass⟩
    obtain ⟨rfl, -⟩ := candidate_jobId hc
    exact ⟨c, mem_rows.mpr ⟨hc, hwanted⟩, hpass⟩
  · rintro ⟨c, hc, hpass⟩
    obtain ⟨hjob, hwanted⟩ := mem_rows.mp hc
    exact ⟨c.jobId, c, hjob, hwanted, hpass⟩

end Loop

section Complete

/-- Two published bounties, with `n` open jobs of the first and one of the second. -/
def twoBountiesWorld (payoutCents : Nat → Nat) (n : Nat) : World :=
  { World.empty with
    nextId := n + 4
    bounties := fun i =>
      if i = 1 ∨ i = 2 then some ⟨1, .published, [], [0], payoutCents i, 0, 0, some 0⟩ else none
    jobs := fun j =>
      if j < 3 ∨ n + 4 ≤ j then none else some (.fresh (if j = n + 3 then 2 else 1) 0 0 0) }

theorem twoBountiesWorld_jobs {payoutCents : Nat → Nat} {n j : Nat} {job : Job}
    (h : (twoBountiesWorld payoutCents n).jobs j = some job) :
    j < n + 4 ∧ job = .fresh (if j = n + 3 then 2 else 1) 0 0 0 := by
  have hrow : (if j < 3 ∨ n + 4 ≤ j then none
      else some (Job.fresh (if j = n + 3 then 2 else 1) 0 0 0)) = some job := h
  by_cases hj : j < 3 ∨ n + 4 ≤ j
  · rw [if_pos hj] at hrow
    cases hrow
  · rw [if_neg hj, Option.some.injEq] at hrow
    exact ⟨by omega, hrow.symm⟩

/-- Bounty 1 has priority 1 and the descriptor, bounty 2 priority 0 and none. -/
def twoBounties (payoutCents : Nat → Nat) (descriptor : Option TaskDescriptor) (n : Nat) :
    SoundBoard where
  world := twoBountiesWorld payoutCents n
  jobDescriptor _ := none
  bountyDescriptor i := if i = 1 then descriptor else none
  priority i := if i = 1 then 1 else 0
  requiredProofs _ := 1
  appByTaskType _ := none
  orgSystem := 0
  normalizeOrigin := some
  browserDisabled _ := false
  numbered _ _ hjob := (twoBountiesWorld_jobs hjob).1
  bountyExists j job hjob := by
    obtain ⟨-, rfl⟩ := twoBountiesWorld_jobs hjob
    by_cases hlast : j = n + 3 <;> simp [twoBountiesWorld, Job.fresh, hlast]
  ownSla j job hjob := by
    obtain ⟨-, rfl⟩ := twoBountiesWorld_jobs hjob
    rfl

/-- A worker that supports a browser and nothing else. -/
def browserOnly : Filters := { Filters.none with supportedCapabilityTags := some ["browser"] }

/-- Fifty open jobs of a higher priority, which ask for a capability the worker does not have. -/
def crowdedBoard : SoundBoard := twoBounties (fun _ => 1000) (some ⟨"render", ["gpu"], none⟩) 50

end Complete

section Priority

variable {b : Board} {i : Nat} {opts : Filters} {c d : Candidate}

theorem score_eq : b.score i c = b.priorityOf c * 100000 + b.worth i c := by
  simp only [Board.score, Board.priorityOf, Board.worth]
  push_cast
  ring

/-- One candidate scores at least another exactly when its points of priority make up for what
the other is worth more. -/
theorem score_le_iff :
    b.score i d ≤ b.score i c ↔
      b.worth i d - b.worth i c ≤ (b.priorityOf c - b.priorityOf d) * 100000 := by
  rw [score_eq, score_eq]
  constructor <;> intro h <;> linarith

/-- Of two candidates one comes before the other. -/
instance before_total : Std.Total b.before where
  total c d := by
    simp only [Board.before]
    omega

/-- And the order is transitive. -/
instance before_trans : IsTrans Candidate b.before where
  trans c d e := by
    simp only [Board.before]
    omega

/-- The candidates come by priority, the highest first. -/
theorem passing_ordered :
    (b.passing i opts).Pairwise fun c d => b.priorityOf d ≤ b.priorityOf c := by
  have hrows : (b.rows opts).Pairwise b.before := List.pairwise_insertionSort _ _
  have hpassing : (b.passing i opts).Pairwise b.before :=
    (hrows.sublist (List.take_sublist _ _)).sublist List.filter_sublist
  refine hpassing.imp fun hbefore => ?_
  simp only [Board.before] at hbefore
  simp only [Board.priorityOf]
  omega

/-- **Priority dominates** exactly when, if any candidate passes, some candidate of the best
priority is not outbid: no candidate of a lower one is worth more by over 100000 for each point
of priority between them. -/
theorem priority_dominates_iff (b : Board) (i : Nat) (opts : Filters) :
    (∀ c, b.findClaimableJob i opts = some c →
      ∀ d ∈ b.passing i opts, b.priorityOf d ≤ b.priorityOf c) ↔
    (b.passing i opts ≠ [] → ∃ c ∈ b.passing i opts,
      (∀ d ∈ b.passing i opts, b.priorityOf d ≤ b.priorityOf c) ∧
      ∀ d ∈ b.passing i opts, b.priorityOf d < b.priorityOf c →
        b.worth i d - b.worth i c ≤ (b.priorityOf c - b.priorityOf d) * 100000) := by
  have hbest : ∀ c, b.findClaimableJob i opts = some c →
      ((∀ d ∈ b.passing i opts, b.priorityOf d ≤ b.priorityOf c) ↔
        ∃ c ∈ b.passing i opts, (∀ d ∈ b.passing i opts, b.priorityOf d ≤ b.priorityOf c) ∧
          ∀ d ∈ b.passing i opts, b.priorityOf d < b.priorityOf c →
            b.worth i d - b.worth i c ≤ (b.priorityOf c - b.priorityOf d) * 100000) := by
    intro c hc
    simp only [← score_le_iff]
    exact (findClaimableJob_iff.mp hc).of_ordered passing_ordered
  cases hfound : b.findClaimableJob i opts with
  | none =>
      have hnil : b.passing i opts = [] := by
        rw [Board.passing, List.filter_eq_nil_iff]
        simpa using findClaimableJob_none.mp hfound
      simp [hnil]
  | some c =>
      have hmem : b.passing i opts ≠ [] :=
        List.ne_nil_of_mem (findClaimableJob_iff.mp hfound).mem
      simp only [Option.some.injEq, forall_eq', hmem, ne_eq, not_false_eq_true, forall_const]
      exact hbest c hfound

/-- Where no two candidates are worth 1000 dollars or more apart, priority dominates. -/
theorem dominates_of_spread (hspread : ∀ c ∈ b.passing i opts, ∀ d ∈ b.passing i opts,
      b.worth i d - b.worth i c < 100000) (hfound : b.findClaimableJob i opts = some c) :
    ∀ d ∈ b.passing i opts, b.priorityOf d ≤ b.priorityOf c := by
  intro d hd
  by_contra hlow
  have hbest := findClaimableJob_iff.mp hfound
  have hscore := score_le_iff.mp (hbest.le hd)
  have hworth := hspread d hd c hbest.mem
  have hpoint : ((b.priorityOf c + 1 : ℤ) : ℚ) ≤ b.priorityOf d := by
    exact_mod_cast not_le.mp hlow
  push_cast at hpoint
  linarith

/-- One job of priority 1 that pays ten dollars, one of priority 0 that pays 2000. -/
def outbidBoard : SoundBoard := twoBounties (fun i => if i = 1 then 1000 else 200000) none 1

/-- The job of the lower priority is found. -/
theorem priority_outbid :
    ∃ c d, outbidBoard.findClaimableJob 1 Filters.none = some c ∧
      d ∈ outbidBoard.passing 1 Filters.none ∧
      outbidBoard.priorityOf c < outbidBoard.priorityOf d := by
  have h : ((outbidBoard.findClaimableJob 1 Filters.none).any fun c =>
      (outbidBoard.passing 1 Filters.none).any fun d =>
        decide (outbidBoard.priorityOf c < outbidBoard.priorityOf d)) = true := by
    decide +kernel
  obtain ⟨c, hc, hany⟩ := (Option.any_eq_true _ _).mp h
  obtain ⟨d, hd, hlow⟩ := List.any_eq_true.mp hany
  exact ⟨c, d, hc, hd, by simpa using hlow⟩

end Priority

end OpenUnion
