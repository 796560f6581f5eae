import OpenUnion.Code.Basic

/-!
# Crediting an organisation

The Stripe webhook credits the balance and books the event in one transaction;
the admin top-up does the same with two statements that commit on their own.
-/

namespace OpenUnion

open Interleave

/-- The checkout session of a `checkout.session.completed` event. -/
structure CheckoutSession where
  paid : Bool
  orgId : Option Nat
  accountId : Option Nat
  paymentIntentId : Option Nat
  amountTotal : Nat
  currencyIsUsd : Bool
  deriving DecidableEq

/-- A Stripe event; `session` is absent for other event types. -/
structure StripeEvent where
  id : Nat
  session : Option CheckoutSession
  deriving DecidableEq

/-- The account, intent and amount of a session that can be credited. -/
def CheckoutSession.credit (s : CheckoutSession) : Option (Nat × Nat × Nat) :=
  match s.orgId, s.accountId, s.paymentIntentId with
  | some _, some account, some intent =>
      if 0 < s.amountTotal ∧ s.currencyIsUsd then some (account, intent, s.amountTotal) else none
  | _, _, _ => none

/-- A valid paid checkout event. -/
def StripeEvent.creditable (evt : StripeEvent) : Bool :=
  evt.session.any fun s => s.paid && s.credit.isSome

/-- Credit the balance and book the event, unless it is booked already. -/
def creditStripe (stripeEventId account amount : Nat) : Code Unit := do
  let existing ← ask (.stripeBillingEvent stripeEventId)
  onlyIf (existing = false) do
    run (.account (.credit account amount))
    let now ← dateNow
    insertBillingEvent account (.stripeTopup stripeEventId) amount now

/-- The transaction of the webhook. -/
def processStripeEvent (evt : StripeEvent) : Code Unit :=
  transaction (fun _ => .stripeWebhook evt.id) body
where
  body : Code Unit := do
    match evt.session with
    | none => run (.stripe (.setStatus evt.id .ignored))
    | some session =>
        if ¬ session.paid then run (.stripe (.setStatus evt.id .ignored))
        else
          match session.credit with
          | none => run (.stripe (.setStatus evt.id .failed))
          | some (account, intent, amount) =>
              creditStripe evt.id account amount
              run (.paymentIntent intent)
              run (.stripe (.setStatus evt.id .processed))

/-- `POST /api/webhooks/stripe`; `event` is what verifying the signature gave. -/
def stripeWebhook (event : Except String StripeEvent) : Code (Http Unit) := do
  match event with
  | .error message => return .error 400 "invalid" message
  | .ok evt =>
      match ← run (.stripe (.insert evt.id)) with
      | false => return .ok ()
      | true =>
          (processStripeEvent evt |>.bind fun _ => return .ok ()).orElse fun _ => do
            run (.stripe (.setStatus evt.id .failed))
            return .error 500 "internal" "webhook_processing_failed"

/-- `POST /api/admin/billing/orgs/:orgId/topup`. -/
def adminTopup (orgId amountCents : Nat) : Code (Http Unit) := do
  if amountCents = 0 then return .error 400 "invalid" "amountCents must be > 0"
  else
    let now ← dateNow
    let _ ← run (.account (.insertOrIgnore orgId))
    match ← ask (.account orgId) with
    | none => return .error 404 "not_found" "billing account not found"
    | some _ =>
        run (.account (.credit orgId amountCents))
        insertBillingEvent orgId .adminTopup amountCents now
        return .ok ()

end OpenUnion
