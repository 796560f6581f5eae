import OpenUnion.Code.GithubArchive

/-!
# The hours of an archive in order

A run moves the cursor of the archive only from an hour whose file it has read to its end to the
hour after it.  The cursor is a text, and its parts are padded differently, but all of them are
digits, so a dash is found only where one was put.

* `hourDate_hourText`: the text of a whole hour is read as that hour.
* `hours_in_order`: the hours that complete are the ones from the derived hour on, and the cursor
  is at the hour after them.
* `two_digit_year`: the hours of the year 50 are followed by those of 1950.
-/

namespace OpenUnion

open Calendar

/-! ## Texts -/

section Texts

variable {env : ArchiveEnv} {n t : ℤ} {c : Char}

theorem mem_decimal (hc : c ∈ decimal n) : c = '-' ∧ n < 0 ∨ c.isDigit = true := by
  unfold decimal at hc
  rcases List.mem_append.mp hc with hsign | hdigit
  · split_ifs at hsign with hneg
    · exact .inl ⟨List.mem_singleton.mp hsign, hneg⟩
    · exact absurd hsign List.not_mem_nil
  · exact .inr (Nat.isDigit_of_mem_toDigits (by omega) (by omega) hdigit)

theorem mem_padStart2 (hc : c ∈ padStart2 n) : c = '-' ∧ n < 0 ∨ c.isDigit = true := by
  unfold padStart2 List.leftpad at hc
  rcases List.mem_append.mp hc with hpad | hdec
  · obtain rfl := List.eq_of_mem_replicate hpad
    exact .inr rfl
  · exact mem_decimal hdec

/-- The parts of an hour are digits, but for the sign of a year. -/
theorem mem_hourParts {part : List Char} (hpart : part ∈ hourParts t) (hc : c ∈ part) :
    c = '-' ∧ yearFromTime t < 0 ∨ c.isDigit = true := by
  obtain ⟨hm0, -, hd0, -⟩ := month_date_spec t
  obtain ⟨hh0, -⟩ := hourFromTime_spec t
  unfold hourParts at hpart
  simp only [List.mem_cons, List.not_mem_nil, or_false] at hpart
  rcases hpart with rfl | rfl | rfl | rfl
  · exact mem_decimal hc
  · rcases mem_padStart2 hc with ⟨-, hneg⟩ | hdigit
    · omega
    · exact .inr hdigit
  · rcases mem_padStart2 hc with ⟨-, hneg⟩ | hdigit
    · omega
    · exact .inr hdigit
  · rcases mem_decimal hc with ⟨-, hneg⟩ | hdigit
    · omega
    · exact .inr hdigit

theorem decimal_of_nonneg (h0 : 0 ≤ n) : decimal n = Nat.toDigits 10 n.toNat := by
  have hneg : ¬ n < 0 := by omega
  have habs : n.natAbs = n.toNat := by omega
  rw [decimal, if_neg hneg, List.nil_append, habs]

theorem partNumber_decimal (h0 : 0 ≤ n) : partNumber env (decimal n) = some n := by
  have hdigits : (decimal n).all Char.isDigit = true := by
    rw [List.all_eq_true]
    intro c hc
    rcases mem_decimal hc with ⟨-, hneg⟩ | hdigit
    · omega
    · exact hdigit
  rw [partNumber, if_pos hdigits, decimal_of_nonneg h0, Nat.ofDigitChars_ten_toDigits]
  congr 1
  omega

/-- The padding of a number does not change it. -/
theorem partNumber_padStart2 (h0 : 0 ≤ n) : partNumber env (padStart2 n) = some n := by
  have hdigits : (padStart2 n).all Char.isDigit = true := by
    rw [List.all_eq_true]
    intro c hc
    rcases mem_padStart2 hc with ⟨-, hneg⟩ | hdigit
    · omega
    · exact hdigit
  rw [partNumber, if_pos hdigits, padStart2, List.leftpad, Nat.ofDigitChars_append,
    Nat.ofDigitChars_replicate_zero, Nat.mul_zero, decimal_of_nonneg h0,
    Nat.ofDigitChars_ten_toDigits]
  congr 1
  omega

/-- The dashes of an hour are those between its parts. -/
theorem hourText_split (hyear : 0 ≤ yearFromTime t) :
    (hourText (some t)).toList.splitOn '-' = hourParts t := by
  have hdash : ∀ part ∈ hourParts t, '-' ∉ part := by
    intro part hpart hmem
    rcases mem_hourParts hpart hmem with ⟨-, hneg⟩ | hdigit
    · omega
    · exact absurd hdigit (by decide)
  have hne : hourParts t ≠ [] := by simp [hourParts]
  rw [hourText, String.toList_ofList, List.splitOn_intercalate _ hdash hne]

/-- The text of a whole hour is read as that hour. -/
theorem hourDate_hourText (hwhole : t % msPerHour = 0) (hyear : 100 ≤ yearFromTime t) :
    hourDate env (hourText (some t)) = timeClip t := by
  obtain ⟨hm0, -, hd0, -⟩ := month_date_spec t
  obtain ⟨hh0, -⟩ := hourFromTime_spec t
  have hy : partNumber env (decimal (yearFromTime t)) = some (yearFromTime t) :=
    partNumber_decimal (by omega)
  have hm : partNumber env (padStart2 (monthFromTime t + 1)) = some (monthFromTime t + 1) :=
    partNumber_padStart2 (by omega)
  have hd : partNumber env (padStart2 (dateFromTime t)) = some (dateFromTime t) :=
    partNumber_padStart2 (by omega)
  have hh : partNumber env (decimal (hourFromTime t)) = some (hourFromTime t) :=
    partNumber_decimal hh0
  have hmonth : monthFromTime t + 1 - 1 = monthFromTime t := by omega
  rw [hourDate, hourText_split (by omega), hourParts]
  simp only [List.map_cons, hy, hm, hd, hh]
  change utc _ (monthFromTime t + 1 - 1) _ _ 0 0 0 = _
  rw [hmonth, utc_fields hyear hwhole]

theorem mem_intercalate {sep : List Char} {parts : List (List Char)}
    (hc : c ∈ sep.intercalate parts) : c ∈ sep ∨ ∃ part ∈ parts, c ∈ part := by
  induction parts with
  | nil => exact absurd hc List.not_mem_nil
  | cons part rest ih =>
      cases rest with
      | nil => exact .inr ⟨part, List.mem_singleton.mpr rfl, by simpa using hc⟩
      | cons next rest =>
          rw [List.intercalate_cons_cons] at hc
          rcases List.mem_append.mp hc with hleft | hrest
          · rcases List.mem_append.mp hleft with hpart | hsep
            · exact .inr ⟨part, List.mem_cons_self, hpart⟩
            · exact .inl hsep
          · rcases ih hrest with hsep | ⟨other, hother, hmem⟩
            · exact .inl hsep
            · exact .inr ⟨other, List.mem_cons_of_mem _ hother, hmem⟩

theorem not_isWhiteSpace (hc : c = '-' ∨ c.isDigit = true) : isWhiteSpace c = false := by
  rcases hc with rfl | hdigit
  · decide
  · have hrange : 48 ≤ c.toNat ∧ c.toNat ≤ 57 := by
      simp only [Char.isDigit, Bool.and_eq_true, decide_eq_true_eq, UInt32.le_iff_toNat_le]
        at hdigit
      exact hdigit
    unfold isWhiteSpace
    simp only [decide_eq_false_iff_not]
    omega

/-- There is no white space in an hour. -/
theorem trimmed_hourText (d : Option ℤ) : trimmed (hourText d) = hourText d := by
  cases d with
  | none => decide
  | some t =>
      apply trimmed_of_plain
      intro c hc
      rw [hourText, String.toList_ofList] at hc
      rcases mem_intercalate hc with hsep | ⟨part, hpart, hmem⟩
      · exact not_isWhiteSpace (.inl (List.mem_singleton.mp hsep))
      · rcases mem_hourParts hpart hmem with ⟨hdash, -⟩ | hdigit
        · exact not_isWhiteSpace (.inl hdash)
        · exact not_isWhiteSpace (.inr hdigit)

theorem hourText_ne (d : Option ℤ) : hourText d ≠ "" := by
  cases d with
  | none => decide
  | some t =>
      intro hempty
      have hlist := congrArg String.toList hempty
      rw [hourText, String.toList_ofList] at hlist
      simp [hourParts, List.intercalate_cons_cons] at hlist

end Texts

/-! ## One run -/

section Steps

variable {env : ArchiveEnv} {w : ArchiveWorld} {r : ArchiveRun} {hour : String}

/-- The hour whose ingestion completes in a run. -/
def completedHour (result : ArchiveWorld × Option IngestResult) : Option String :=
  result.2.bind IngestResult.ingestedHour

/-- An upsert without a cursor keeps the hour. -/
theorem writeSource_keeps {fails : Bool} {input : GithubSourceUpsert} (h : input.cursor = none) :
    (w.writeSource fails input).nextHour = w.nextHour := by
  unfold ArchiveWorld.writeSource
  split_ifs
  · rfl
  · unfold ArchiveWorld.nextHour
    cases hsource : w.source with
    | none => simp [upsertGithubSource, h, Json.textAt, Json.get?]
    | some row => simp [upsertGithubSource, h]

/-- A cursor that is written holds its hour. -/
theorem writeSource_nextHour {input : GithubSourceUpsert} {cursor : Json} {d : Option ℤ}
    (h : input.cursor = some cursor) (hnext : cursor.get? "nextHour" = some (.str (hourText d))) :
    (w.writeSource false input).nextHour = hourText d := by
  have hcursor : (w.writeSource false input).source.map GithubSource.cursor = some cursor := by
    unfold ArchiveWorld.writeSource
    cases hsource : w.source with
    | none => simp [upsertGithubSource, h]
    | some row => simp [upsertGithubSource, h]
  rw [ArchiveWorld.nextHour, hcursor]
  simp only [Option.getD_some, Json.textAt, hnext, Json.toText]
  exact trimmed_hourText d

theorem completedHour_waiting {w' : ArchiveWorld} {a b : ℕ} :
    completedHour (w', some ⟨a, b, waitingCursor hour⟩) = none := by
  simp [completedHour, IngestResult.ingestedHour, waitingCursor, Json.get?, List.lookup_cons]

theorem completedHour_read {w' : ArchiveWorld} {a b : ℕ} {now : ℤ} :
    completedHour (w', some ⟨a, b, readCursor env now hour⟩) = some hour := by
  simp [completedHour, IngestResult.ingestedHour, readCursor, Json.get?, List.lookup_cons, Json.toText]

/-- A file is read to its end and the cursor moved to the hour after it, or neither. -/
theorem readHour_cases (body : ArchiveBody) :
    completedHour (readHour env w r hour body) = none ∧
        (readHour env w r hour body).1.nextHour = w.nextHour ∨
      completedHour (readHour env w r hour body) = some hour ∧
        (readHour env w r hour body).1.nextHour = hourAfter env hour := by
  unfold readHour
  generalize ingestLines env r.now ⟨w.repos, 0, 0⟩ body.lines = ingested
  obtain ⟨done, stored⟩ := ingested
  dsimp only
  split_ifs with hend hwrite
  · exact .inl ⟨rfl, rfl⟩
  · rw [hwrite]
    exact .inl ⟨rfl, rfl⟩
  · rw [Bool.eq_false_of_not_eq_true hwrite]
    right
    constructor
    · exact completedHour_read
    · exact writeSource_nextHour rfl (by simp [readCursor, Json.get?, List.lookup_cons, hourAfter])

/-- A run with an hour completes it and moves to the hour after it, or does neither. -/
theorem fetchHour_cases (env : ArchiveEnv) (w : ArchiveWorld) (r : ArchiveRun) (hour : String) :
    completedHour (fetchHour env w r hour) = none ∧
        (fetchHour env w r hour).1.nextHour = w.nextHour ∨
      completedHour (fetchHour env w r hour) = some hour ∧
        (fetchHour env w r hour).1.nextHour = hourAfter env hour := by
  unfold fetchHour
  cases r.fetch (String.ofList r.base ++ "/" ++ hour ++ ".json.gz") with
  | none => exact .inl ⟨rfl, rfl⟩
  | some resp =>
      dsimp only
      split_ifs with hmissing hwrite hok
      · exact .inl ⟨rfl, writeSource_keeps rfl⟩
      · exact .inl ⟨completedHour_waiting, writeSource_keeps rfl⟩
      · cases resp.body with
        | none => exact .inl ⟨rfl, rfl⟩
        | some body => exact readHour_cases body
      · exact .inl ⟨rfl, writeSource_keeps rfl⟩

/-- What a run can do, if it is asked for no hour: nothing, derive the first hour, or complete
the next one. -/
theorem runGithubIngestOnce_cases (env : ArchiveEnv) (w : ArchiveWorld)
    (hplain : r.explicit = "") :
    completedHour (runGithubIngestOnce env w r) = none ∧
        (runGithubIngestOnce env w r).1.nextHour = w.nextHour ∨
      w.nextHour = "" ∧ completedHour (runGithubIngestOnce env w r) = none ∧
        (runGithubIngestOnce env w r).1.nextHour = hourText (previousHour r.now) ∨
      w.nextHour ≠ "" ∧ completedHour (runGithubIngestOnce env w r) = some w.nextHour ∧
        (runGithubIngestOnce env w r).1.nextHour = hourAfter env w.nextHour := by
  unfold runGithubIngestOnce
  rw [if_pos hplain]
  dsimp only
  -- the row that is created has no hour
  have hrow : (if w.source.isNone then
      w.writeSource false ⟨some (.obj []), some .active, none, none, none⟩ else w).nextHour =
        w.nextHour := by
    split_ifs with hnone
    · rw [Option.isNone_iff_eq_none] at hnone
      simp [ArchiveWorld.writeSource, ArchiveWorld.nextHour, hnone, upsertGithubSource, Json.textAt,
        Json.get?]
    · rfl
  generalize (if w.source.isNone then
    w.writeSource false ⟨some (.obj []), some .active, none, none, none⟩ else w) = w' at hrow
  split_ifs with hread hcreate hempty hwrite
  · exact .inl ⟨rfl, rfl⟩
  · exact .inl ⟨rfl, rfl⟩
  · rw [hwrite]
    exact .inl ⟨rfl, hrow⟩
  · rw [Bool.eq_false_of_not_eq_true hwrite]
    refine .inr (.inl ⟨hempty, completedHour_waiting, ?_⟩)
    exact writeSource_nextHour rfl (by simp [waitingCursor, Json.get?, List.lookup_cons])
  · rcases fetchHour_cases env w' r w.nextHour with
      ⟨hnone, hsame⟩ | ⟨hdone, hnext⟩
    · exact .inl ⟨hnone, hsame.trans hrow⟩
    · exact .inr (.inr ⟨hempty, hdone, hnext⟩)

end Steps

/-! ## All runs -/

section Runs

variable (env : ArchiveEnv) (w : ArchiveWorld) (before : List ArchiveRun) (r : ArchiveRun)
variable (after : List ArchiveRun)

/-- The whole hour before that of a time. -/
def firstHour (now : ℤ) : ℤ := now - now % msPerHour - msPerHour

/-- The hour `k` hours after another. -/
def hourAt (start : ℤ) (k : ℕ) : ℤ := start + k * msPerHour

/-- No run is asked for an hour, and `r` is the one that derives the first, at a valid date. -/
structure Derives : Prop where
  plain : ∀ run ∈ before ++ r :: after, run.explicit = ""
  valid : -maxTime ≤ r.now ∧ r.now ≤ maxTime
  waiting : (ingestRuns env w before).1.nextHour = ""
  derived : (ingestRuns env w (before ++ [r])).1.nextHour ≠ ""

/-- The hours that complete are those from the derived one on, and the cursor is at the hour
after them. -/
structure VisitsInOrder : Prop where
  /-- Nothing completes before. -/
  first : (ingestRuns env w (before ++ [r])).2 = []
  consecutive : (ingestRuns env w (before ++ r :: after)).2 =
    (List.range (ingestRuns env w (before ++ r :: after)).2.length).map fun k =>
      hourText (some (hourAt (firstHour r.now) k))
  cursor : (ingestRuns env w (before ++ r :: after)).1.nextHour =
    hourText (some (hourAt (firstHour r.now) (ingestRuns env w (before ++ r :: after)).2.length))
  /-- The cursor was nowhere later before. -/
  forward : ∀ earlier, earlier <+: after →
    ∃ n ≤ (ingestRuns env w (before ++ r :: after)).2.length,
      (ingestRuns env w (before ++ r :: earlier)).1.nextHour =
        hourText (some (hourAt (firstHour r.now) n))

variable {env w before r after}

theorem ingestRuns_nil : ingestRuns env w [] = (w, []) := rfl

theorem ingestRuns_cons {rs : List ArchiveRun} : ingestRuns env w (r :: rs) =
    ((ingestRuns env (runGithubIngestOnce env w r).1 rs).1,
      (completedHour (runGithubIngestOnce env w r)).toList ++
        (ingestRuns env (runGithubIngestOnce env w r).1 rs).2) := by
  simp only [ingestRuns, completedHour]

theorem ingestRuns_append {rs rs' : List ArchiveRun} : ingestRuns env w (rs ++ rs') =
    ((ingestRuns env (ingestRuns env w rs).1 rs').1,
      (ingestRuns env w rs).2 ++ (ingestRuns env (ingestRuns env w rs).1 rs').2) := by
  induction rs generalizing w with
  | nil => rfl
  | cons run rs ih => rw [List.cons_append, ingestRuns_cons, ih, ingestRuns_cons, List.append_assoc]

/-- Runs after which there is no hour have had none and complete none. -/
theorem ingestRuns_waiting {rs : List ArchiveRun} (hplain : ∀ run ∈ rs, run.explicit = "")
    (h : (ingestRuns env w rs).1.nextHour = "") :
    w.nextHour = "" ∧ (ingestRuns env w rs).2 = [] := by
  induction rs generalizing w with
  | nil => exact ⟨h, rfl⟩
  | cons run rs ih =>
      rw [ingestRuns_cons] at h ⊢
      obtain ⟨hnext, hrest⟩ := ih (fun other hmem => hplain other (List.mem_cons_of_mem _ hmem)) h
      rcases runGithubIngestOnce_cases env w (hplain run List.mem_cons_self) with
        ⟨hnone, hsame⟩ | ⟨-, -, hderived⟩ | ⟨-, -, hafter⟩
      · exact ⟨hsame.symm.trans hnext, by rw [hnone, hrest]; rfl⟩
      · exact absurd (hderived.symm.trans hnext) (hourText_ne _)
      · exact absurd (hafter.symm.trans hnext) (hourText_ne _)

variable {start : ℤ}

theorem hourAt_succ (k : ℕ) : hourAt start (k + 1) = hourAt start k + msPerHour := by
  unfold hourAt
  simp only [msPerHour]
  omega

theorem le_hourAt {j k : ℕ} (h : j ≤ k) : hourAt start j ≤ hourAt start k := by
  unfold hourAt
  simp only [msPerHour]
  omega

/-- A year from 100 on is in range. -/
theorem range_of_year (hyear : 100 ≤ yearFromTime start) : -maxTime ≤ start := by
  have hday : dayFromYear 100 ≤ day start := le_yearFromDay.mp hyear
  have hcentury : dayFromYear 100 = -683003 := by decide
  unfold day at hday
  simp only [msPerDay, maxTime] at *
  omega

/-- The hour after one of the hours is the next of them. -/
theorem hourAfter_hourAt {k : ℕ} (hwhole : start % msPerHour = 0)
    (hyear : 100 ≤ yearFromTime start) (hrange : hourAt start (k + 1) ≤ maxTime) :
    hourAfter env (hourText (some (hourAt start k))) = hourText (some (hourAt start (k + 1))) := by
  have hlater : start ≤ hourAt start k := by
    unfold hourAt
    simp only [msPerHour]
    omega
  have hlow := range_of_year hyear
  have hk : hourAt start k ≤ hourAt start (k + 1) := le_hourAt (Nat.le_succ k)
  have hwhole' : hourAt start k % msPerHour = 0 := by
    unfold hourAt
    simp only [msPerHour] at *
    omega
  have hread : hourDate env (hourText (some (hourAt start k))) = some (hourAt start k) := by
    rw [hourDate_hourText hwhole' (yearFromTime_mono hlater hyear)]
    exact timeClip_of_le (hlow.trans hlater) (hk.trans hrange)
  have hnext : hourAt start k + 1 * msPerHour = hourAt start (k + 1) := by
    rw [hourAt_succ, Int.one_mul]
  rw [hourAfter, hread, Option.bind_some, setUTCHours_add, hnext,
    timeClip_of_le (hlow.trans (hlater.trans hk)) hrange]

/-- From an hour on, the hours complete in order. -/
theorem ingestRuns_from {rs : List ArchiveRun} {n : ℕ}
    (hplain : ∀ run ∈ rs, run.explicit = "") (hwhole : start % msPerHour = 0)
    (hyear : 100 ≤ yearFromTime start) (hnext : w.nextHour = hourText (some (hourAt start n)))
    (hrange : hourAt start (n + (ingestRuns env w rs).2.length) ≤ maxTime) :
    (ingestRuns env w rs).2 = (List.range' n (ingestRuns env w rs).2.length).map (fun k =>
        hourText (some (hourAt start k))) ∧
      (ingestRuns env w rs).1.nextHour =
        hourText (some (hourAt start (n + (ingestRuns env w rs).2.length))) := by
  induction rs generalizing w n with
  | nil => exact ⟨rfl, hnext⟩
  | cons run rs ih =>
      have hrest : ∀ other ∈ rs, other.explicit = "" :=
        fun other hmem => hplain other (List.mem_cons_of_mem _ hmem)
      rw [ingestRuns_cons] at hrange ⊢
      rcases runGithubIngestOnce_cases env w (hplain run List.mem_cons_self) with
        ⟨hnone, hsame⟩ | ⟨hempty, -, -⟩ | ⟨-, hdone, hafter⟩
      · rw [hnone] at hrange ⊢
        exact ih hrest (hsame.trans hnext) hrange
      · exact absurd (hnext ▸ hempty) (hourText_ne _)
      · rw [hdone, hnext] at hrange ⊢
        rw [hnext] at hafter
        simp only [Option.toList_some, List.singleton_append, List.length_cons] at hrange ⊢
        -- the hour completed is the first of them, and the rest is from the next one on
        have hshift : n + ((ingestRuns env (runGithubIngestOnce env w run).1 rs).2.length + 1) =
            n + 1 + (ingestRuns env (runGithubIngestOnce env w run).1 rs).2.length := by omega
        rw [hshift] at hrange ⊢
        have hstep : hourAt start (n + 1) ≤ maxTime := (le_hourAt (by omega)).trans hrange
        rw [hourAfter_hourAt hwhole hyear hstep] at hafter
        obtain ⟨hhours, hcursor⟩ := ih hrest hafter hrange
        refine ⟨?_, hcursor⟩
        rw [List.range'_succ, List.map_cons]
        exact congrArg _ hhours

/-- The hour that is derived. -/
theorem previousHour_eq {now : ℤ} (hyear : 100 ≤ yearFromTime (firstHour now))
    (hnow : now ≤ maxTime) : previousHour now = some (firstHour now) := by
  have hlow := range_of_year hyear
  have hwhole : firstHour now = now - now % msPerHour + -1 * msPerHour := by
    unfold firstHour
    omega
  have hrange : -maxTime ≤ now - now % msPerHour ∧ now - now % msPerHour ≤ maxTime := by
    unfold firstHour at hlow
    simp only [msPerHour, maxTime] at *
    omega
  have hfirst : firstHour now ≤ maxTime := by
    unfold firstHour
    simp only [msPerHour, maxTime] at *
    omega
  rw [previousHour, setUTCMinutes_zero, timeClip_of_le hrange.1 hrange.2, Option.bind_some,
    show ∀ h : ℤ, h - 1 = h + -1 from fun h => Int.sub_eq_add_neg, setUTCHours_add, ← hwhole,
    timeClip_of_le hlow hfirst]

theorem firstHour_whole (now : ℤ) : firstHour now % msPerHour = 0 := by
  unfold firstHour
  simp only [msPerHour]
  omega

/-- The run that derives the first hour completes none, and neither do those before it. -/
theorem Derives.first (h : Derives env w before r after) : ∃ w₁ : ArchiveWorld,
    w₁.nextHour = hourText (previousHour r.now) ∧
      ∀ rs, ingestRuns env w (before ++ r :: rs) = ingestRuns env w₁ rs := by
  have hplain : ∀ run ∈ before, run.explicit = "" :=
    fun run hmem => h.plain run (List.mem_append_left _ hmem)
  have hr : r.explicit = "" := h.plain r (List.mem_append_right _ List.mem_cons_self)
  obtain ⟨-, hbefore⟩ := ingestRuns_waiting hplain h.waiting
  have hderived := h.derived
  rw [ingestRuns_append, ingestRuns_cons, ingestRuns_nil] at hderived
  dsimp only at hderived
  rcases runGithubIngestOnce_cases env (ingestRuns env w before).1 hr with
    ⟨-, hsame⟩ | ⟨-, hnone, hfirst⟩ | ⟨hne, -, -⟩
  · exact absurd (hsame.trans h.waiting) hderived
  · refine ⟨_, hfirst, fun rs => ?_⟩
    rw [ingestRuns_append, ingestRuns_cons, hbefore, hnone]
    rfl
  · exact absurd h.waiting hne

/-- The text of a whole hour is read as that hour, and once an hour has been derived the hours
complete in order, as long as they are valid dates. -/
theorem hours_in_order :
    (∀ t, t % msPerHour = 0 → 100 ≤ yearFromTime t → t ≤ maxTime →
      hourDate env (hourText (some t)) = some t) ∧
    ∀ w before r after, Derives env w before r after → 100 ≤ yearFromTime (firstHour r.now) →
      hourAt (firstHour r.now) (ingestRuns env w (before ++ r :: after)).2.length ≤ maxTime →
      VisitsInOrder env w before r after := by
  constructor
  · intro t hwhole hyear ht
    rw [hourDate_hourText hwhole hyear, timeClip_of_le (range_of_year hyear) ht]
  · intro w before r after h hyear hrange
    obtain ⟨w₁, hcursor, hruns⟩ := h.first
    have hstart : w₁.nextHour = hourText (some (hourAt (firstHour r.now) 0)) := by
      rw [hcursor, previousHour_eq hyear h.valid.2]
      simp [hourAt]
    have hfrom : ∀ rs, rs <+: after →
        hourAt (firstHour r.now) (ingestRuns env w₁ rs).2.length ≤ maxTime →
        (ingestRuns env w₁ rs).2 = (List.range (ingestRuns env w₁ rs).2.length).map (fun k =>
            hourText (some (hourAt (firstHour r.now) k))) ∧
          (ingestRuns env w₁ rs).1.nextHour =
            hourText (some (hourAt (firstHour r.now) (ingestRuns env w₁ rs).2.length)) := by
      intro rs hpre hle
      have hplain : ∀ run ∈ rs, run.explicit = "" := fun run hmem => h.plain run
        (List.mem_append_right _ (List.mem_cons_of_mem _ (hpre.subset hmem)))
      have hvisited := ingestRuns_from (n := 0) hplain (firstHour_whole r.now) hyear hstart
        (by rwa [Nat.zero_add])
      rw [Nat.zero_add, ← List.range_eq_range'] at hvisited
      exact hvisited
    rw [hruns] at hrange
    obtain ⟨hhours, hlast⟩ := hfrom after List.prefix_rfl hrange
    constructor
    · rw [hruns]
      rfl
    · rw [hruns]
      exact hhours
    · rw [hruns]
      exact hlast
    · rintro earlier ⟨later, rfl⟩
      rw [hruns, hruns]
      have hle : (ingestRuns env w₁ earlier).2.length ≤
          (ingestRuns env w₁ (earlier ++ later)).2.length := by
        rw [ingestRuns_append, List.length_append]
        exact Nat.le_add_right _ _
      have hearlier := hfrom earlier (List.prefix_append _ _) ((le_hourAt hle).trans hrange)
      exact ⟨_, hle, hearlier.2⟩

/-- Dates are printed as they are at the polls below, and no line is read. -/
def pollEnv : ArchiveEnv where
  parseDate _ := none
  finiteNumber _ := none
  parseJson _ := none
  toISOString t :=
    if t = 1709256600000 then "2024-03-01T01:30:00.000Z"
    else if t = 1709260200000 then "2024-03-01T02:30:00.000Z"
    else "0050-01-01T13:30:00.000Z"
  number _ := none

/-- A run that finds an empty file. -/
def emptyFile (now : ℤ) : ArchiveRun where
  baseUrl := "https://data.gharchive.org"
  archiveHour := none
  now := now
  readFails := false
  createFails := false
  writeFails := false
  fetch _ := some ⟨200, some ⟨[], true⟩⟩

/-- A leap day ends. -/
theorem leap_day_hours :
    VisitsInOrder pollEnv ⟨[], none⟩ [] (emptyFile 1709253000000)
        [emptyFile 1709256600000, emptyFile 1709260200000] ∧
      (ingestRuns pollEnv ⟨[], none⟩ [emptyFile 1709253000000, emptyFile 1709256600000,
        emptyFile 1709260200000]).2 = ["2024-02-29-23", "2024-03-01-0"] := by
  constructor
  · apply hours_in_order.2
    · exact ⟨by decide, by decide, by decide, by decide⟩
    · decide
    · decide
  · decide

/-- Two digits stand for a year of the twentieth century: the hour after the first of the year 50
is one of the year 1950. -/
theorem two_digit_year :
    Derives pollEnv ⟨[], none⟩ [] (emptyFile (-60589251000000)) [emptyFile (-60589247400000)] ∧
      ¬ VisitsInOrder pollEnv ⟨[], none⟩ [] (emptyFile (-60589251000000))
        [emptyFile (-60589247400000)] := by
  constructor
  · exact ⟨by decide, by decide, by decide, by decide⟩
  · intro h
    have hcursor := h.cursor
    revert hcursor
    decide

end Runs

end OpenUnion
