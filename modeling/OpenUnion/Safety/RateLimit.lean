import Mathlib.Tactic.Ring
import OpenUnion.Code.RateLimit

/-!
# The throughput of a token bucket

Read against a clock that runs on by the rate, the level of a bucket never rises: a refill adds
at most what the clock does, the cap only takes away, and an admission takes one token.  That
holds also when the clock goes back between two calls, since the refill is then negative.

* `run_level`: along a run the level falls by at least the number of admitted calls.
* `admitted_between`: the calls admitted from one admitted call to another are at most the rate
  and what the clock readings of the two allow; the stored tokens never exceed the rate.
-/

namespace OpenUnion

variable {w : Buckets} {call : RateCall} {calls : List RateCall} {key : String} {rate : ℚ}

/-- The level of a bucket against a clock that runs on by the rate. -/
def Bucket.level (b : Bucket) (rate : ℚ) : ℚ := b.tokens - b.updatedAt * (rate / 60000)

/-- All calls of the key have the rate. -/
def ConstantRate (key : String) (rate : ℚ) (calls : List RateCall) : Prop :=
  ∀ call ∈ calls, call.key = key → call.ratePerMin = rate

/-- The key's bucket holds at most the rate. -/
def Capped (key : String) (rate : ℚ) (w : Buckets) : Prop :=
  ∀ b, w key = some b → b.tokens ≤ rate

/-- The level of the row a call writes, by the call's own clock reading. -/
theorem level_written (w : Buckets) (call : RateCall) (rate : ℚ) :
    (w.written call).level rate = (w.written call).tokens - call.now * (rate / 60000) := rfl

/-- A refill never goes beyond the rate. -/
theorem Bucket.refill_le_rate (b : Bucket) (rate : ℚ) (now : ℤ) : b.refill rate now ≤ rate :=
  min_le_left _ _

/-- Nor beyond what the clock adds, which is less than nothing when the clock went back. -/
theorem Bucket.refill_le_level (b : Bucket) (rate : ℚ) (now : ℤ) :
    b.refill rate now ≤ b.level rate + now * (rate / 60000) := by
  have hmin : b.refill rate now ≤ b.tokens + ((now - b.updatedAt : ℤ) : ℚ) * (rate / 60000) :=
    min_le_right _ _
  have hsplit : b.tokens + ((now - b.updatedAt : ℤ) : ℚ) * (rate / 60000) =
      b.level rate + now * (rate / 60000) := by
    unfold Bucket.level
    push_cast
    ring
  rw [hsplit] at hmin
  exact hmin

/-- The row a call writes holds at most the rate. -/
theorem written_le_rate (w : Buckets) (call : RateCall) :
    (w.written call).tokens ≤ call.ratePerMin := by
  have hrefill := (w.locked call).refill_le_rate call.ratePerMin call.now
  cases h : w.admits call <;> simp [Buckets.written, h] <;> linarith

/-- An admission takes a whole token of at most the rate. -/
theorem written_of_admitted (h : w.admits call = true) :
    (w.written call).tokens ≤ call.ratePerMin - 1 := by
  have hrefill := (w.locked call).refill_le_rate call.ratePerMin call.now
  simp [Buckets.written, h]
  linarith

/-- There is a token to take, so the row is left with none or more. -/
theorem written_nonneg_of_admitted (h : w.admits call = true) : 0 ≤ (w.written call).tokens := by
  have htoken : 1 ≤ (w.locked call).refill call.ratePerMin call.now := by
    simpa [Buckets.admits] using h
  simp [Buckets.written, h]
  linarith

/-- A call of a key with a row lowers the level by the token it takes, at least. -/
theorem written_level {b : Bucket} (hrow : w call.key = some b) :
    (w.written call).level call.ratePerMin + (if w.admits call then 1 else 0) ≤
      b.level call.ratePerMin := by
  have hlocked : w.locked call = b := by simp [Buckets.locked, hrow]
  have hrefill := b.refill_le_level call.ratePerMin call.now
  have hlevel : (w.written call).level call.ratePerMin + (if w.admits call then 1 else 0) =
      b.refill call.ratePerMin call.now - call.now * (call.ratePerMin / 60000) := by
    simp only [Bucket.level, Buckets.written, hlocked]
    ring
  rw [hlevel]
  linarith

/-- One call keeps the cap. -/
theorem Capped.after (hcapped : Capped key rate w) (hrate : call.key = key → call.ratePerMin = rate) :
    Capped key rate (w.after call) := by
  intro b hb
  rw [Buckets.after_eq] at hb
  by_cases hkey : call.key = key
  · have hwritten : w.written call = b := by simpa [hkey] using hb
    rw [← hwritten, ← hrate hkey]
    exact written_le_rate w call
  · rw [Function.update_of_ne (Ne.symm hkey)] at hb
    exact hcapped b hb

/-- Along a run the stored tokens never exceed the rate. -/
theorem Capped.run (hcapped : Capped key rate w) (hconst : ConstantRate key rate calls) :
    Capped key rate (w.run calls) := by
  induction calls generalizing w with
  | nil => exact hcapped
  | cons call calls ih =>
      have hstep : Capped key rate (w.after call) :=
        hcapped.after (hconst call (by simp))
      exact ih hstep fun c hc => hconst c (by simp [hc])

/-- Along a run the level falls by at least the number of admitted calls. -/
theorem run_level {b : Bucket} (hrow : w key = some b) (hconst : ConstantRate key rate calls) :
    ∃ b', w.run calls key = some b' ∧
      b'.level rate + ((w.log calls).countP (admittedOf key) : ℚ) ≤ b.level rate := by
  induction calls generalizing w b with
  | nil => exact ⟨b, hrow, by simp [Buckets.log]⟩
  | cons call calls ih =>
      have htail : ConstantRate key rate calls := fun c hc => hconst c (by simp [hc])
      by_cases hkey : call.key = key
      · have hrate : call.ratePerMin = rate := hconst call (by simp) hkey
        have hafter : w.after call key = some (w.written call) := by simp [hkey]
        obtain ⟨b', hb', hlevel⟩ := ih hafter htail
        refine ⟨b', hb', ?_⟩
        have hlocked : w call.key = some b := hkey ▸ hrow
        have hstep := written_level hlocked
        rw [hrate] at hstep
        have hcount : (((w.log (call :: calls)).countP (admittedOf key) : ℕ) : ℚ) =
            ((w.after call).log calls).countP (admittedOf key) +
              (if w.admits call then 1 else 0) := by
          simp only [Buckets.log, List.countP_cons, admittedOf, hkey, Buckets.answer_eq]
          push_cast
          simp
        rw [hcount]
        linarith
      · have hafter : w.after call key = some b := by
          rw [Buckets.after_eq, Function.update_of_ne (Ne.symm hkey), hrow]
        obtain ⟨b', hb', hlevel⟩ := ih hafter htail
        refine ⟨b', hb', ?_⟩
        have hcount : (w.log (call :: calls)).countP (admittedOf key) =
            ((w.after call).log calls).countP (admittedOf key) := by
          simp [Buckets.log, admittedOf, hkey]
        rw [hcount]
        exact hlevel

/-- The answers of the first calls of a run do not depend on the others. -/
theorem log_take (w : Buckets) (calls : List RateCall) (n : ℕ) :
    (w.log calls).take n = w.log (calls.take n) := by
  induction n generalizing w calls with
  | zero => simp [Buckets.log]
  | succ n ih =>
      cases calls with
      | nil => simp [Buckets.log]
      | cons call calls => simp [Buckets.log, ih]

/-- The rest of a run is a run from the table the first calls leave. -/
theorem log_drop (w : Buckets) (calls : List RateCall) (n : ℕ) :
    (w.log calls).drop n = (w.run (calls.take n)).log (calls.drop n) := by
  induction n generalizing w calls with
  | zero => simp [Buckets.run]
  | succ n ih =>
      cases calls with
      | nil => simp [Buckets.log]
      | cons call calls =>
          rw [Buckets.log, List.drop_succ_cons, ih]
          rfl

/-- The entry at a position is the answer to the call there, from the table before it. -/
theorem admits_of_log {n : ℕ} (h : (w.log calls)[n]? = some (call, true)) :
    calls[n]? = some call ∧ (w.run (calls.take n)).admits call = true := by
  have hhead : ((w.run (calls.take n)).log (calls.drop n)).head? = some (call, true) := by
    rw [← log_drop, List.head?_drop, h]
  cases hdrop : calls.drop n with
  | nil => simp [hdrop, Buckets.log] at hhead
  | cons c rest =>
      have hc : calls[n]? = some c := by rw [← List.head?_drop, hdrop, List.head?_cons]
      rw [hdrop, Buckets.log, List.head?_cons, Option.some.injEq, Prod.mk.injEq] at hhead
      obtain ⟨rfl, hadmits⟩ := hhead
      exact ⟨hc, by simpa using hadmits⟩

/-- The run up to and with a call ends with that call. -/
theorem run_take_succ {n : ℕ} (h : calls[n]? = some call) :
    w.run (calls.take (n + 1)) = (w.run (calls.take n)).after call := by
  rw [List.take_add_one, h, Option.toList_some]
  simp [Buckets.run]

/-- Between two positions the run goes on from the table at the first. -/
theorem run_between (w : Buckets) (calls : List RateCall) {m n : ℕ} (h : m ≤ n) :
    w.run (calls.take n) = (w.run (calls.take m)).run ((calls.take n).drop m) := by
  have hsplit : calls.take n = calls.take m ++ (calls.take n).drop m := by
    conv_lhs => rw [← List.take_append_drop m (calls.take n)]
    rw [List.take_take, min_eq_left h]
  conv_lhs => rw [hsplit]
  simp [Buckets.run]

/-- A call of the key leaves its row. -/
theorem row_of_after (hkey : call.key = key) : w.after call key = some (w.written call) := by
  simp [hkey]

/-- In every run of calls of a key with one rate, from a table whose bucket for the key holds at
most the rate, and with whatever clock readings: from one admitted call to another at most
`rate + rate * (t - t') / 60000` calls are admitted, and the stored tokens never exceed the
rate. -/
theorem admitted_between (w : Buckets) (calls : List RateCall) (key : String) (rate : ℚ)
    (hcapped : Capped key rate w) (hconst : ConstantRate key rate calls) :
    (∀ i j first last, i ≤ j →
      (w.log calls)[i]? = some (first, true) → first.key = key →
      (w.log calls)[j]? = some (last, true) → last.key = key →
      ((((w.log calls).take (j + 1)).drop i).countP (admittedOf key) : ℚ) ≤
        rate + rate * (last.now - first.now) / 60000) ∧
    ∀ n, Capped key rate (w.run (calls.take n)) := by
  refine ⟨fun i j first last hij hfirst hfkey hlast hlkey => ?_, fun n =>
    hcapped.run fun c hc => hconst c (List.mem_of_mem_take hc)⟩
  obtain ⟨hi, hadmits⟩ := admits_of_log hfirst
  obtain ⟨hj, hadmitted⟩ := admits_of_log hlast
  have hfrate : first.ratePerMin = rate := hconst first (List.mem_of_getElem? hi) hfkey
  -- the rows that the two calls leave
  have hstart : w.run (calls.take (i + 1)) key =
      some ((w.run (calls.take i)).written first) := by
    rw [run_take_succ hi, row_of_after hfkey]
  have hend : w.run (calls.take (j + 1)) key =
      some ((w.run (calls.take j)).written last) := by
    rw [run_take_succ hj, row_of_after hlkey]
  have hrest : ConstantRate key rate ((calls.take (j + 1)).drop (i + 1)) := fun c hc =>
    hconst c (List.mem_of_mem_take (List.mem_of_mem_drop hc))
  obtain ⟨b, hb, hlevel⟩ := run_level hstart hrest
  rw [← run_between w calls (by omega), hend, Option.some.injEq] at hb
  subst hb
  have htop := written_of_admitted hadmits
  have hbottom := written_nonneg_of_admitted hadmitted
  have hcount : (((w.log calls).take (j + 1)).drop i).countP (admittedOf key) =
      ((w.run (calls.take (i + 1))).log ((calls.take (j + 1)).drop (i + 1))).countP
        (admittedOf key) + 1 := by
    have htake : ((calls.take (j + 1)).take (i + 1)) = calls.take (i + 1) := by
      rw [List.take_take, min_eq_left (by omega)]
    have hget : ((w.log calls).take (j + 1))[i]? = some (first, true) := by
      rw [List.getElem?_take, if_pos (by omega), hfirst]
    obtain ⟨hlt, hget⟩ := List.getElem?_eq_some_iff.mp hget
    rw [List.drop_eq_getElem_cons hlt, hget, log_take, log_drop, htake]
    simp [admittedOf, hfkey]
  rw [hcount, Nat.cast_add, Nat.cast_one]
  rw [hfrate] at htop
  rw [level_written, level_written] at hlevel
  have hratio : rate * ((last.now : ℚ) - first.now) / 60000 =
      last.now * (rate / 60000) - first.now * (rate / 60000) := by ring
  rw [hratio]
  linarith

/-- A call, one whose clock reading is twenty seconds earlier, and one more at that reading. -/
def burst : List RateCall := [⟨"k", 3, 20000⟩, ⟨"k", 3, 0⟩, ⟨"k", 3, 0⟩]

/-- The first two calls are admitted, as many as the bound allows; the third is not. -/
theorem admitted_between_burst :
    ((((Buckets.log (fun _ => none) burst).take 2).drop 0).countP (admittedOf "k") : ℚ) ≤
      3 + 3 * (((0 : ℤ) : ℚ) - ((20000 : ℤ) : ℚ)) / 60000 := by
  have hconst : ConstantRate "k" 3 burst := by
    intro c hc _
    simp only [burst, List.mem_cons, List.not_mem_nil, or_false] at hc
    rcases hc with rfl | rfl | rfl <;> rfl
  have hfirst : (Buckets.log (fun _ => none) burst)[0]? = some (⟨"k", 3, 20000⟩, true) := by
    decide +kernel
  have hlast : (Buckets.log (fun _ => none) burst)[1]? = some (⟨"k", 3, 0⟩, true) := by
    decide +kernel
  have hbetween := admitted_between (fun _ => none) burst "k" 3 (fun b hb => by cases hb) hconst
  exact hbetween.1 0 1 ⟨"k", 3, 20000⟩ ⟨"k", 3, 0⟩ (by omega) hfirst rfl hlast rfl

end OpenUnion
