import Mathlib.Logic.Function.Basic

/-!
# Request programs

A server request is a tree of database statements: each node is one atomic
statement together with what the code does with its result, and, since any
statement can fail, with what it does when the statement fails.  A database
transaction is a `begin` node, a body, and at every leaf of the body a `commit`
(normal end) or a `rollback` (the body threw).

Nothing here says what a statement does.  `S` is the type of statements, `R s`
the type of results of `s`, and `T` the type of labels a transaction leaves on
its commit, so that a condition on runs can name the commit it is about.

`perform`, `Prog.bind`, `throw`, `tryCatch` and `transaction` are the pieces a
translated request is written with; each has its defining equations as simp
lemmas.
-/

namespace Interleave

/-- A request: a tree of atomic statements and transaction brackets that ends
in an answer or in an uncaught error. -/
inductive Prog (S : Type) (R : S → Type) (T ε α : Type) : Type where
  | ret (a : α)
  | fail (e : ε)
  | op (s : S) (next : R s → Prog S R T ε α) (err : Prog S R T ε α)
  | begin (next : Prog S R T ε α)
  | commit (t : T) (next : Prog S R T ε α) (err : Prog S R T ε α)
  | rollback (next : Prog S R T ε α)

variable {S : Type} {R : S → Type} {T ε α β γ : Type}

/-- Sequencing: graft `f` onto the normal ends of a program. -/
def Prog.bind : Prog S R T ε α → (α → Prog S R T ε β) → Prog S R T ε β
  | .ret a, f => f a
  | .fail e, _ => .fail e
  | .op s next err, f => .op s (fun r => (next r).bind f) (err.bind f)
  | .begin next, f => .begin (next.bind f)
  | .commit t next err, f => .commit t (next.bind f) (err.bind f)
  | .rollback next, f => .rollback (next.bind f)

/-- Exception handling: graft `h` onto the uncaught errors of a program. -/
def Prog.orElse : Prog S R T ε α → (ε → Prog S R T ε α) → Prog S R T ε α
  | .ret a, _ => .ret a
  | .fail e, h => h e
  | .op s next err, h => .op s (fun r => (next r).orElse h) (err.orElse h)
  | .begin next, h => .begin (next.orElse h)
  | .commit t next err, h => .commit t (next.orElse h) (err.orElse h)
  | .rollback next, h => .rollback (next.orElse h)

instance : Monad (Prog S R T ε) where
  pure := .ret
  bind := .bind

instance : MonadExceptOf ε (Prog S R T ε) where
  throw := .fail
  tryCatch := .orElse

/-- Execute one statement; a failing statement throws the default error. -/
def perform [Inhabited ε] (s : S) : Prog S R T ε (R s) :=
  .op s .ret (.fail default)

/-- End a transaction body: commit its normal ends, roll back its errors. -/
def Prog.seal [Inhabited ε] (tag : α → T) : Prog S R T ε α → Prog S R T ε α
  | .ret a => .commit (tag a) (.ret a) (.fail default)
  | .fail e => .rollback (.fail e)
  | .op s next err => .op s (fun r => (next r).seal tag) (err.seal tag)
  | .begin next => .begin (next.seal tag)
  | .commit t next err => .commit t (next.seal tag) (err.seal tag)
  | .rollback next => .rollback (next.seal tag)

/-- `db.transaction().execute(body)`.  `tag` labels the commit, possibly with
values the body has computed. -/
def transaction [Inhabited ε] (tag : α → T) (body : Prog S R T ε α) : Prog S R T ε α :=
  .begin (body.seal tag)

/-- Run a program for each element of a list, in order. -/
def forEach (f : β → Prog S R T ε Unit) : List β → Prog S R T ε Unit
  | [] => .ret ()
  | b :: bs => (f b).bind fun _ => forEach f bs

@[simp] theorem pure_eq_ret (a : α) : (pure a : Prog S R T ε α) = .ret a := rfl

@[simp] theorem bind_eq_bind (p : Prog S R T ε α) (f : α → Prog S R T ε β) :
    (p >>= f) = p.bind f := rfl

@[simp] theorem throw_eq_fail (e : ε) : (throw e : Prog S R T ε α) = .fail e := rfl

@[simp] theorem tryCatch_eq_orElse (p : Prog S R T ε α) (h : ε → Prog S R T ε α) :
    tryCatch p h = p.orElse h := rfl

@[simp] theorem Prog.ret_bind (a : α) (f : α → Prog S R T ε β) :
    (Prog.ret a : Prog S R T ε α).bind f = f a := rfl

@[simp] theorem Prog.fail_bind (e : ε) (f : α → Prog S R T ε β) :
    (Prog.fail e : Prog S R T ε α).bind f = .fail e := rfl

@[simp] theorem Prog.op_bind (s : S) (next : R s → Prog S R T ε α) (err : Prog S R T ε α)
    (f : α → Prog S R T ε β) :
    (Prog.op s next err).bind f = .op s (fun r => (next r).bind f) (err.bind f) := rfl

@[simp] theorem perform_bind [Inhabited ε] (s : S) (f : R s → Prog S R T ε β) :
    (perform s : Prog S R T ε (R s)).bind f = .op s f (.fail default) := rfl

/-- Sequencing is associative, so a called function may be inlined. -/
theorem Prog.bind_assoc (p : Prog S R T ε α) (f : α → Prog S R T ε β) (g : β → Prog S R T ε γ) :
    (p.bind f).bind g = p.bind fun a => (f a).bind g := by
  induction p with
  | ret a => rfl
  | fail e => rfl
  | op s next err ihn ihe =>
      simp only [Prog.op_bind, ihe]
      exact congrArg (fun n => Prog.op s n (err.bind fun a => (f a).bind g)) (funext ihn)
  | begin next ih => simp only [Prog.bind, ih]
  | commit t next err ihn ihe => simp only [Prog.bind, ihn, ihe]
  | rollback next ih => simp only [Prog.bind, ih]

end Interleave
