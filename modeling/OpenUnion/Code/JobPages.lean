import Mathlib.Data.Int.Notation
import OpenUnion.Code.Bounties

/-!
# Pages of jobs

`listJobsByBounty` reads one page of the jobs of a bounty in one query, ordered by `created_at`
and by nothing else, so the database may return rows with one time in any order, and in another
one the next time.  Page and limit are integers, and a request without them has defaults of its
own.
-/

namespace OpenUnion

/-- A row of `jobs` with its id. -/
abbrev ListedJob := ℕ × Job

/-- The rows `publishBounty` inserts, with the ids that are drawn for them. -/
def newJobs (ids : List ℕ) (bountyId : ℕ) (bounty : Bounty) (now : ℕ) : List ListedJob :=
  (ids.zip bounty.fingerprintClasses).map fun r =>
    (r.1, Job.fresh bountyId r.2 bounty.freshnessSlaSec now)

/-- The rows a listing is about. -/
def jobsListed (table : List ListedJob) (bountyId : ℕ) (status : Option JobStatus) :
    List ListedJob :=
  table.filter fun r =>
    decide (r.2.bountyId = bountyId) && status.all fun s => decide (r.2.status = s)

/-- An order in which the database may return rows. -/
structure Ordered (rows sorted : List ListedJob) : Prop where
  perm : sorted.Perm rows
  newestFirst : sorted.Pairwise fun r r' => r'.2.createdAt ≤ r.2.createdAt

/-- The number of rows on a page. -/
def pageLimit (limit : ℤ) : ℕ := (max 1 (min 200 limit)).toNat

/-- `listJobsByBounty`: a page of the order the database returns for this query, and the number of
rows. -/
def listJobsByBounty (sorted : List ListedJob) (page limit : ℤ) : List ListedJob × ℕ :=
  let offset := ((max 1 page).toNat - 1) * pageLimit limit
  ((sorted.drop offset).take (pageLimit limit), sorted.length)

/-- The number of pages of so many rows, for the limit that was asked for. -/
def pageCount (total : ℕ) (limit : ℤ) : ℕ :=
  (total + (max 1 limit).toNat - 1) / (max 1 limit).toNat

/-- The pages from the first to the last, each of an order of its own. -/
def allPages (orders : ℕ → List ListedJob) (limit : ℤ) (total : ℕ) : List ListedJob :=
  (List.range (pageCount total limit)).flatMap fun k =>
    (listJobsByBounty (orders k) (k + 1) limit).1

end OpenUnion
