import OpenUnion.Code.JobPages

/-!
# Paging through the jobs of a bounty

All jobs of a bounty are created at one time, so every order of them is one the database may
return.  A second page may then begin with the job that the first one began with.

* `newJobs_createdAt`: a publication gives its jobs one time.
* `pages_perm`: one page holds all jobs if there are no more than its limit.
* `pages_repeat`: otherwise there are orders that show a job twice, or not at all.
* `pages_complete_iff`: so all orders show every job once just if one page holds them.
-/

namespace OpenUnion

/-- The jobs of a bounty come from one publication; ids are unique. -/
structure FromPublication (table : List ListedJob) (bountyId : ℕ) : Prop where
  unique : (table.map Prod.fst).Nodup
  created : ∃ ids bounty now, ∀ r ∈ jobsListed table bountyId none,
    ∃ r₀ ∈ newJobs ids bountyId bounty now, r₀.1 = r.1 ∧ r₀.2.createdAt = r.2.createdAt

/-- The pages contain every row exactly once, in whatever order each query returns them. -/
def PagesComplete (rows : List ListedJob) (limit : ℤ) : Prop :=
  ∀ orders : ℕ → List ListedJob, (∀ k, Ordered rows (orders k)) →
    (allPages orders limit rows.length).Perm rows

section

variable {table rows sorted : List ListedJob} {bountyId now : ℕ} {limit : ℤ} {r : ListedJob}

/-- A publication gives its jobs one time. -/
theorem newJobs_createdAt {ids : List ℕ} {bounty : Bounty}
    (h : r ∈ newJobs ids bountyId bounty now) : r.2.createdAt = now := by
  unfold newJobs at h
  obtain ⟨r₀, -, rfl⟩ := List.mem_map.mp h
  rfl

/-- Rows of one time may be returned in any order. -/
theorem ordered_of_perm (hsame : ∀ r ∈ rows, r.2.createdAt = now) (hperm : sorted.Perm rows) :
    Ordered rows sorted := by
  refine ⟨hperm, List.pairwise_iff_forall_sublist.mpr fun {a b} hsub => ?_⟩
  have ha : a ∈ rows := hperm.subset (hsub.subset (by simp))
  have hb : b ∈ rows := hperm.subset (hsub.subset (by simp))
  exact Nat.le_of_eq ((hsame b hb).trans (hsame a ha).symm)

theorem pageLimit_pos : 0 < pageLimit limit := by
  unfold pageLimit
  omega

/-- A page has no more rows than were asked for. -/
theorem pageLimit_le : pageLimit limit ≤ (max 1 limit).toNat := by
  unfold pageLimit
  omega

theorem pageCount_pos {total : ℕ} (h : 0 < total) : 0 < pageCount total limit := by
  unfold pageCount
  have hlimit : 0 < (max 1 limit).toNat := by omega
  exact Nat.div_pos (by omega) hlimit

/-- The rows of a page. -/
theorem page_eq (k : ℕ) : (listJobsByBounty sorted (k + 1) limit).1 =
    (sorted.drop (k * pageLimit limit)).take (pageLimit limit) := by
  have hpage : (max 1 ((k : ℤ) + 1)).toNat - 1 = k := by omega
  rw [listJobsByBounty, hpage]

/-- One page holds all rows if there are no more than its limit. -/
theorem pages_perm (h : rows.length ≤ pageLimit limit) : PagesComplete rows limit := by
  intro orders hordered
  have hlimit : 0 < (max 1 limit).toNat := by omega
  have hle : pageLimit limit ≤ (max 1 limit).toNat := pageLimit_le
  rcases Nat.eq_zero_or_pos rows.length with hzero | hpos
  · have hcount : pageCount rows.length limit = 0 := by
      unfold pageCount
      rw [hzero]
      exact Nat.div_eq_of_lt (by omega)
    rw [allPages, hcount, List.eq_nil_of_length_eq_zero hzero]
    exact List.Perm.refl _
  · have hcount : pageCount rows.length limit = 1 := by
      unfold pageCount
      rw [Nat.div_eq_iff hlimit]
      omega
    have hlen : (orders 0).length = rows.length := (hordered 0).perm.length_eq
    have hpage : (listJobsByBounty (orders 0) ((0 : ℕ) + 1) limit).1 = orders 0 := by
      rw [page_eq, Nat.zero_mul, List.drop_zero]
      exact List.take_of_length_le (by omega)
    rw [allPages, hcount, List.range_one, List.flatMap_singleton, hpage]
    exact (hordered 0).perm

/-- With more rows than a page holds there are orders that show one twice, or not at all: the
second page may begin with the row that the first one began with. -/
theorem pages_repeat (hsame : ∀ r ∈ rows, r.2.createdAt = now) (hnodup : rows.Nodup)
    (h : pageLimit limit < rows.length) : ¬ PagesComplete rows limit := by
  intro hcomplete
  have hpos : 0 < pageLimit limit := pageLimit_pos
  obtain ⟨r, rest, rfl⟩ := List.exists_cons_of_length_pos (Nat.lt_of_le_of_lt (Nat.zero_le _) h)
  have hrest : pageLimit limit ≤ rest.length := by
    rw [List.length_cons] at h
    omega
  -- the row `r` comes at the beginning of the second page
  let moved := rest.take (pageLimit limit) ++ r :: rest.drop (pageLimit limit)
  have hmoved : moved.Perm (r :: rest) := by
    refine List.perm_middle.trans (List.Perm.cons r ?_)
    rw [List.take_append_drop]
  let orders := fun k => if k = 1 then moved else r :: rest
  have hordered : ∀ k, Ordered (r :: rest) (orders k) := by
    intro k
    apply ordered_of_perm hsame
    by_cases hk : k = 1
    · simp only [orders, hk, if_true]
      exact hmoved
    · simp only [orders, hk, if_false]
      exact List.Perm.refl _
  have hall := hcomplete orders hordered
  have hfirst : (listJobsByBounty (orders 0) ((0 : ℕ) + 1) limit).1 =
      (r :: rest).take (pageLimit limit) := by
    rw [page_eq, Nat.zero_mul, List.drop_zero]
    rfl
  have hcount : 0 < pageCount (r :: rest).length limit := pageCount_pos (by simp)
  rcases Nat.eq_or_lt_of_le hcount with hone | htwo
  · -- there is one page, and it is too small
    have hlen := hall.length_eq
    rw [allPages, ← hone, List.range_one, List.flatMap_singleton, hfirst, List.length_take] at hlen
    omega
  · have hsecond : (listJobsByBounty (orders 1) ((1 : ℕ) + 1) limit).1 =
        (r :: rest.drop (pageLimit limit)).take (pageLimit limit) := by
      have hdrop : moved.drop (pageLimit limit) = r :: rest.drop (pageLimit limit) := by
        apply List.drop_left'
        rw [List.length_take]
        omega
      rw [page_eq, Nat.one_mul]
      exact congrArg (List.take (pageLimit limit)) hdrop
    have hpages := hall.nodup_iff.mpr hnodup
    rw [allPages, List.nodup_flatMap] at hpages
    have hdisjoint := List.pairwise_iff_getElem.mp hpages.2 0 1
      (by simpa using hcount) (by simpa using htwo) Nat.zero_lt_one
    rw [Function.onFun_apply, List.getElem_range, List.getElem_range, hfirst, hsecond] at hdisjoint
    have hin : ∀ l : List ListedJob, r ∈ (r :: l).take (pageLimit limit) := by
      intro l
      obtain ⟨n, hn⟩ := Nat.exists_eq_add_of_lt hpos
      rw [hn, Nat.zero_add, List.take_succ_cons]
      exact List.mem_cons_self
    exact hdisjoint (hin _) (hin _)

/-- All orders show every job of a bounty exactly once just if one page holds all of them. -/
theorem pages_complete_iff (h : FromPublication table bountyId) :
    PagesComplete (jobsListed table bountyId none) limit ↔
      (jobsListed table bountyId none).length ≤ min 200 (max 1 limit) := by
  have hlimit : (pageLimit limit : ℤ) = min 200 (max 1 limit) := by
    unfold pageLimit
    omega
  obtain ⟨ids, bounty, now, hcreated⟩ := h.created
  have hsame : ∀ r ∈ jobsListed table bountyId none, r.2.createdAt = now := by
    intro r hr
    obtain ⟨r₀, hnew, -, htime⟩ := hcreated r hr
    exact htime.symm.trans (newJobs_createdAt hnew)
  have hnodup : (jobsListed table bountyId none).Nodup := (h.unique.of_map _).filter _
  rw [← hlimit, Int.ofNat_le]
  constructor
  · intro hcomplete
    by_contra hmore
    exact pages_repeat hsame hnodup (Nat.lt_of_not_le hmore) hcomplete
  · exact pages_perm

end

/-- The jobs of a bounty with two fingerprint classes. -/
def tiedJobs : List ListedJob := newJobs [0, 1] 7 ⟨9, .draft, [], [0, 1], 100, 0, 0, none⟩ 100

theorem tiedJobs_published : FromPublication tiedJobs 7 := by
  constructor
  · decide
  · refine ⟨[0, 1], ⟨9, .draft, [], [0, 1], 100, 0, 0, none⟩, 100, fun r hr => ⟨r, ?_, rfl, rfl⟩⟩
    exact List.mem_of_mem_filter hr

/-- A page of fifty jobs shows them both. -/
theorem two_jobs_paged : FromPublication tiedJobs 7 ∧
    PagesComplete (jobsListed tiedJobs 7 none) 50 := by
  have hshort : ((jobsListed tiedJobs 7 none).length : ℤ) ≤ min 200 (max 1 50) := by decide
  exact ⟨tiedJobs_published, (pages_complete_iff tiedJobs_published).mpr hshort⟩

/-- Pages of one job each may show the first one twice, and the second one not at all. -/
theorem two_jobs_lost : FromPublication tiedJobs 7 ∧
    ∃ orders : ℕ → List ListedJob,
      (∀ k, Ordered (jobsListed tiedJobs 7 none) (orders k)) ∧
      ¬ (allPages orders 1 (jobsListed tiedJobs 7 none).length).Perm
        (jobsListed tiedJobs 7 none) := by
  let orders := fun k => if k = 0 then tiedJobs else tiedJobs.reverse
  have hsame : ∀ r ∈ jobsListed tiedJobs 7 none, r.2.createdAt = 100 := by decide
  have hordered : ∀ k, Ordered (jobsListed tiedJobs 7 none) (orders k) := by
    intro k
    apply ordered_of_perm hsame
    by_cases hk : k = 0
    · simp only [orders, hk, if_true]
      exact List.Perm.refl _
    · simp only [orders, hk, if_false]
      exact tiedJobs.reverse_perm
  have hpages : (allPages orders 1 (jobsListed tiedJobs 7 none).length).map Prod.fst = [0, 0] := by
    decide
  refine ⟨tiedJobs_published, orders, hordered, fun hperm => ?_⟩
  have hids := hperm.map Prod.fst
  rw [hpages] at hids
  exact absurd hids (by decide)

end OpenUnion
