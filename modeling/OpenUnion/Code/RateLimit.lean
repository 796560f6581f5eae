import Mathlib.Algebra.Order.Field.Rat
import Mathlib.Logic.Function.Basic
import Mathlib.Tactic.Linarith

/-!
# The token bucket

`rateLimit` keeps one row of `rate_limit_buckets` for every key.  A call reads the clock, opens
a transaction, makes sure that the row exists, locks it, refills it for the time since the row
was last written and takes one token if there is one.  The row lock serialises the calls of one
key, and a call that throws rolls back, so that a run is the list of the calls in the order in
which they took the lock.  The clock is read before the lock: the readings need not be monotone.

Numbers are exact rationals here.
-/

namespace OpenUnion

/-- A row of `rate_limit_buckets`. -/
structure Bucket where
  tokens : ℚ
  /-- `updated_at`, in milliseconds. -/
  updatedAt : ℤ
  deriving DecidableEq

/-- The table `rate_limit_buckets`. -/
abbrev Buckets := String → Option Bucket

/-- One call of `rateLimit`, with the clock reading it makes. -/
structure RateCall where
  key : String
  ratePerMin : ℚ
  now : ℤ
  deriving DecidableEq

/-- `INSERT … ON CONFLICT (key) DO NOTHING`. -/
def Buckets.insert (w : Buckets) (key : String) (b : Bucket) : Buckets :=
  match w key with
  | some _ => w
  | none => Function.update w key (some b)

/-- The tokens of a locked row after the refill. -/
def Bucket.refill (b : Bucket) (ratePerMin : ℚ) (now : ℤ) : ℚ :=
  let fillPerMs := ratePerMin / 60000
  let elapsedMs := now - b.updatedAt
  min ratePerMin (b.tokens + elapsedMs * fillPerMs)

/-- `rateLimit`: the answer and the table that is committed; `none` where it throws. -/
def rateLimit (w : Buckets) (call : RateCall) : Option (Bool × Buckets) :=
  let w := w.insert call.key ⟨call.ratePerMin, call.now⟩
  match w call.key with
  | none => none
  | some row =>
      let tokens := row.refill call.ratePerMin call.now
      if tokens < 1 then some (false, Function.update w call.key (some ⟨tokens, call.now⟩))
      else some (true, Function.update w call.key (some ⟨tokens - 1, call.now⟩))

/-- The row that a call locks: the stored one, or the full one it has just inserted. -/
def Buckets.locked (w : Buckets) (call : RateCall) : Bucket :=
  (w call.key).getD ⟨call.ratePerMin, call.now⟩

/-- The call is admitted: a token is left after the refill. -/
def Buckets.admits (w : Buckets) (call : RateCall) : Bool :=
  decide (1 ≤ (w.locked call).refill call.ratePerMin call.now)

/-- The row a call leaves. -/
def Buckets.written (w : Buckets) (call : RateCall) : Bucket :=
  ⟨(w.locked call).refill call.ratePerMin call.now - (if w.admits call then 1 else 0), call.now⟩

/-- A call never throws `rate_limit_bucket_missing`; it answers `admits` and writes one row. -/
theorem rateLimit_eq (w : Buckets) (call : RateCall) :
    rateLimit w call =
      some (w.admits call, Function.update w call.key (some (w.written call))) := by
  have hlocked : (w.insert call.key ⟨call.ratePerMin, call.now⟩) call.key =
      some (w.locked call) := by
    unfold Buckets.insert Buckets.locked
    cases h : w call.key <;> simp [h]
  have hwrite : ∀ b : Bucket, Function.update (w.insert call.key ⟨call.ratePerMin, call.now⟩)
      call.key (some b) = Function.update w call.key (some b) := by
    intro b
    unfold Buckets.insert
    cases w call.key <;> simp
  simp only [rateLimit, hlocked, hwrite]
  by_cases hempty : (w.locked call).refill call.ratePerMin call.now < 1
  · have hadmits : w.admits call = false := by simpa [Buckets.admits] using hempty
    simp [if_pos hempty, Buckets.written, hadmits]
  · have hadmits : w.admits call = true := by simpa [Buckets.admits] using hempty
    simp [if_neg hempty, Buckets.written, hadmits]

/-- The table after one call; a call that throws leaves it as it was. -/
def Buckets.after (w : Buckets) (call : RateCall) : Buckets :=
  match rateLimit w call with
  | some (_, w') => w'
  | none => w

/-- The answer of one call; a call that throws admits nothing. -/
def Buckets.answer (w : Buckets) (call : RateCall) : Bool :=
  match rateLimit w call with
  | some (admitted, _) => admitted
  | none => false

@[simp] theorem Buckets.after_eq (w : Buckets) (call : RateCall) :
    w.after call = Function.update w call.key (some (w.written call)) := by
  simp [Buckets.after, rateLimit_eq]

@[simp] theorem Buckets.answer_eq (w : Buckets) (call : RateCall) :
    w.answer call = w.admits call := by
  simp [Buckets.answer, rateLimit_eq]

/-- The table after a run. -/
def Buckets.run (w : Buckets) (calls : List RateCall) : Buckets := calls.foldl Buckets.after w

/-- The calls of a run with their answers, in serialisation order. -/
def Buckets.log (w : Buckets) : List RateCall → List (RateCall × Bool)
  | [] => []
  | call :: calls => (call, w.answer call) :: Buckets.log (w.after call) calls

/-- The entry admits a call of the key. -/
def admittedOf (key : String) (e : RateCall × Bool) : Bool := decide (e.1.key = key) && e.2

end OpenUnion
