import OpenUnion.Interleave.Prog

/-!
# Programs that talk to an unknown partner

A program that runs alone, but against a partner of which nothing is known, is followed
through the list of its exchanges: each statement with the reply it got.  The partner may
answer anything, in the light of all that has been said; a failure is a reply like others.

`Prog.converse` is the dialogue of a program with a partner.  A `Watch` reads along and says
in each state which statements are in order, and `Prog.Minds` is the rule book for proving
that a program, given fair replies, says nothing out of order: `Prog.Minds.converse` is its
soundness.
-/

namespace Interleave

variable {S : Type} {R : S → Type} {T ε α β σ : Type}

/-- A statement and the reply to it. -/
abbrev Exchange (S : Type) (R : S → Type) := (s : S) × R s

/-- A partner replies in the light of what has been said. -/
abbrev Partner (S : Type) (R : S → Type) := List (Exchange S R) → (s : S) → R s

/-- The exchanges of a program after those of `said`, in order, and its end. -/
def Prog.converse (partner : Partner S R) :
    Prog S R T ε α → List (Exchange S R) → List (Exchange S R) × Except ε α
  | .ret a, _ => ([], .ok a)
  | .fail e, _ => ([], .error e)
  | .op s next _, said =>
      let x : Exchange S R := ⟨s, partner said s⟩
      let rest := (next x.2).converse partner (said ++ [x])
      (x :: rest.1, rest.2)
  | .begin next, said => next.converse partner said
  | .commit _ next _, said => next.converse partner said
  | .rollback next, said => next.converse partner said

/-- A watch reads a dialogue along: `may m s` says that `s` is in order in state `m`. -/
structure Watch (S : Type) (R : S → Type) (σ : Type) where
  may : σ → S → Prop
  after : σ → Exchange S R → σ

/-- The state of the watch after a list of exchanges. -/
def Watch.run (w : Watch S R σ) : σ → List (Exchange S R) → σ
  | m, [] => m
  | m, x :: xs => w.run (w.after m x) xs

/-- Every statement of the list is in order. -/
def Watch.Passes (w : Watch S R σ) : σ → List (Exchange S R) → Prop
  | _, [] => True
  | m, x :: xs => w.may m x.1 ∧ w.Passes (w.after m x) xs

/-- Given fair replies from state `m` on, the program says nothing out of order; it ends
normally in `ok` and throws in `thrown`. -/
def Prog.Minds (w : Watch S R σ) (fair : Exchange S R → Prop) (ok : α → σ → Prop)
    (thrown : ε → σ → Prop) : Prog S R T ε α → σ → Prop
  | .ret a, m => ok a m
  | .fail e, m => thrown e m
  | .op s next _, m =>
      w.may m s ∧ ∀ r, fair ⟨s, r⟩ →
        (next r).Minds w fair ok thrown (w.after m ⟨s, r⟩)
  | .begin next, m => next.Minds w fair ok thrown m
  | .commit _ next _, m => next.Minds w fair ok thrown m
  | .rollback next, m => next.Minds w fair ok thrown m

section Watch

variable {w : Watch S R σ} {m : σ} {x : Exchange S R} {xs ys : List (Exchange S R)}

theorem Watch.run_append : w.run m (xs ++ ys) = w.run (w.run m xs) ys := by
  induction xs generalizing m with
  | nil => rfl
  | cons x xs ih => exact ih

theorem Watch.passes_append :
    w.Passes m (xs ++ ys) ↔ w.Passes m xs ∧ w.Passes (w.run m xs) ys := by
  induction xs generalizing m with
  | nil => simp [Watch.Passes, Watch.run]
  | cons x xs ih => simp [Watch.Passes, Watch.run, ih, and_assoc]

/-- Each statement of a dialogue that passes is in order in the state before it. -/
theorem Watch.Passes.may (h : w.Passes m (xs ++ x :: ys)) : w.may (w.run m xs) x.1 :=
  (Watch.passes_append.mp h).2.1

end Watch

section Rules

variable {w : Watch S R σ} {fair : Exchange S R → Prop} {m : σ} {p : Prog S R T ε α}
variable {ok ok' : α → σ → Prop} {thrown thrown' : ε → σ → Prop}

/-- The dialogue of a program that minds passes, and ends as the rule book says. -/
theorem Prog.Minds.converse {partner : Partner S R} (h : p.Minds w fair ok thrown m)
    (said : List (Exchange S R)) (hfair : ∀ x ∈ (p.converse partner said).1, fair x) :
    w.Passes m (p.converse partner said).1 ∧
      match (p.converse partner said).2 with
      | .ok a => ok a (w.run m (p.converse partner said).1)
      | .error e => thrown e (w.run m (p.converse partner said).1) := by
  induction p generalizing m said with
  | ret a => exact ⟨trivial, h⟩
  | fail e => exact ⟨trivial, h⟩
  | op s next err ih _ =>
      obtain ⟨hmay, hnext⟩ := h
      have hrest := ih (partner said s)
        (hnext (partner said s) (hfair _ List.mem_cons_self)) (said ++ [⟨s, partner said s⟩])
        fun x hx => hfair x (List.mem_cons_of_mem _ hx)
      exact ⟨⟨hmay, hrest.1⟩, hrest.2⟩
  | begin next ih => exact ih h said hfair
  | commit t next err ih _ => exact ih h said hfair
  | rollback next ih => exact ih h said hfair

theorem Prog.Minds.mono (h : p.Minds w fair ok thrown m) (hok : ∀ a m, ok a m → ok' a m)
    (hthrown : ∀ e m, thrown e m → thrown' e m) : p.Minds w fair ok' thrown' m := by
  induction p generalizing m with
  | ret a => exact hok a m h
  | fail e => exact hthrown e m h
  | op s next err ih _ => exact ⟨h.1, fun r hr => ih r (h.2 r hr)⟩
  | begin next ih => exact ih h
  | commit t next err ih _ => exact ih h
  | rollback next ih => exact ih h

/-- One program after another. -/
theorem Prog.Minds.bind {f : α → Prog S R T ε β} {ok' : β → σ → Prop}
    (h : p.Minds w fair ok thrown m) (hf : ∀ a m, ok a m → (f a).Minds w fair ok' thrown m) :
    (p.bind f).Minds w fair ok' thrown m := by
  induction p generalizing m with
  | ret a => exact hf a m h
  | fail e => exact h
  | op s next err ih _ => exact ⟨h.1, fun r hr => ih r (h.2 r hr)⟩
  | begin next ih => exact ih h
  | commit t next err ih _ => exact ih h
  | rollback next ih => exact ih h

/-- A handler for what a program throws. -/
theorem Prog.Minds.orElse {handler : ε → Prog S R T ε α}
    (h : p.Minds w fair ok thrown m)
    (hhandler : ∀ e m, thrown e m → (handler e).Minds w fair ok thrown' m) :
    (p.orElse handler).Minds w fair ok thrown' m := by
  induction p generalizing m with
  | ret a => exact h
  | fail e => exact hhandler e m h
  | op s next err ih _ => exact ⟨h.1, fun r hr => ih r (h.2 r hr)⟩
  | begin next ih => exact ih h
  | commit t next err ih _ => exact ih h
  | rollback next ih => exact ih h

/-- One statement. -/
theorem minds_perform [Inhabited ε] {s : S} {ok : R s → σ → Prop} (hmay : w.may m s)
    (hok : ∀ r, fair ⟨s, r⟩ → ok r (w.after m ⟨s, r⟩)) :
    (perform s : Prog S R T ε (R s)).Minds w fair ok thrown m :=
  ⟨hmay, hok⟩

end Rules

end Interleave
