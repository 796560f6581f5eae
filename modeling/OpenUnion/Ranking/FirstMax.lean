import Mathlib.Data.List.Basic
import Mathlib.Order.Basic
import Mathlib.Order.Lattice

/-!
# The first best element of a list

A loop that keeps an element until a strictly better one comes ends with the first of the best.

* `foldl_keepMax`: the loop ends with `a` exactly when `a` is a first maximum.
* `FirstMax.of_ordered`: in a list ordered by rank, a first maximum has the best rank exactly
  when some element of the best rank is not beaten by one of a lower rank.
* `all_take_iff`: the first `n` elements miss a predicate exactly when all do, or when `n`
  elements that miss it come first.
-/

namespace OpenUnion.Ranking

variable {α β : Type*} [LinearOrder β] {score : α → β} {xs : List α} {a b : α}

/-- The first element of the highest score: what comes before it scores less, what comes after
it no more. -/
def FirstMax (score : α → β) (xs : List α) (a : α) : Prop :=
  ∃ front back, xs = front ++ a :: back ∧
    (∀ x ∈ front, score x < score a) ∧ ∀ x ∈ back, score x ≤ score a

/-- One round of the loop. -/
def keepMax (score : α → β) (best : Option α) (a : α) : Option α :=
  match best with
  | none => some a
  | some b => if score b < score a then some a else some b

namespace FirstMax

theorem mem (h : FirstMax score xs a) : a ∈ xs := by
  obtain ⟨front, back, rfl, -, -⟩ := h
  simp

/-- Nothing scores more. -/
theorem le (h : FirstMax score xs a) {x : α} (hx : x ∈ xs) : score x ≤ score a := by
  obtain ⟨front, back, rfl, hfront, hback⟩ := h
  rcases List.mem_append.mp hx with hx | hx
  · exact (hfront x hx).le
  rcases List.mem_cons.mp hx with rfl | hx
  · exact le_rfl
  · exact hback x hx

/-- Two elements cannot both be the first maximum, unless they are the same. -/
theorem unique (ha : FirstMax score xs a) (hb : FirstMax score xs b) : a = b := by
  have hle : score a = score b := le_antisymm (hb.le ha.mem) (ha.le hb.mem)
  obtain ⟨front, back, rfl, hfront, -⟩ := ha
  obtain ⟨front', back', hsplit, hfront', -⟩ := hb
  rcases List.append_eq_append_iff.mp hsplit with ⟨mid, rfl, hmid⟩ | ⟨mid, rfl, hmid⟩
  · cases mid with
    | nil => exact (List.cons.inj hmid).1
    | cons x mid =>
        obtain ⟨rfl, -⟩ := List.cons.inj hmid
        exact absurd (hfront' a (by simp)) (by simp [hle])
  · cases mid with
    | nil => exact (List.cons.inj hmid).1.symm
    | cons x mid =>
        obtain ⟨rfl, -⟩ := List.cons.inj hmid
        exact absurd (hfront b (by simp)) (by simp [hle])

/-- An element that scores no more than one before it changes nothing. -/
theorem skip {front back : List α} {x : α} (hx : ∃ y ∈ front, score x ≤ score y)
    (h : FirstMax score (front ++ back) a) : FirstMax score (front ++ x :: back) a := by
  obtain ⟨y, hy, hle⟩ := hx
  have hxa : score x ≤ score a := hle.trans (h.le (List.mem_append_left _ hy))
  obtain ⟨l, r, hsplit, hl, hr⟩ := h
  rcases List.append_eq_append_iff.mp hsplit with ⟨mid, rfl, hmid⟩ | ⟨mid, rfl, hmid⟩
  · refine ⟨front ++ x :: mid, r, by simp [hmid], ?_, hr⟩
    intro z hz
    rcases List.mem_append.mp hz with hz | hz
    · exact hl z (List.mem_append_left _ hz)
    rcases List.mem_cons.mp hz with rfl | hz
    · exact lt_of_le_of_lt hle (hl y (List.mem_append_left _ hy))
    · exact hl z (List.mem_append_right _ hz)
  · cases mid with
    | nil =>
        rw [List.append_nil] at hy
        refine ⟨l ++ [x], r, by simp at hmid; simp [← hmid], ?_, hr⟩
        intro z hz
        rcases List.mem_append.mp hz with hz | hz
        · exact hl z hz
        · rw [List.mem_singleton.mp hz]
          exact lt_of_le_of_lt hle (hl y hy)
    | cons m mid =>
        obtain ⟨rfl, rfl⟩ := List.cons.inj hmid
        refine ⟨l, mid ++ x :: back, by simp, hl, ?_⟩
        intro z hz
        rcases List.mem_append.mp hz with hz | hz
        · exact hr z (List.mem_append_left _ hz)
        rcases List.mem_cons.mp hz with rfl | hz
        · exact hxa
        · exact hr z (List.mem_append_right _ hz)

/-- A better element takes the place of everything before it. -/
theorem drop {x : α} (hx : score b < score x) (h : FirstMax score (x :: xs) a) :
    FirstMax score (b :: x :: xs) a := by
  have hba : score b < score a := lt_of_lt_of_le hx (h.le (by simp))
  obtain ⟨front, back, hsplit, hfront, hback⟩ := h
  refine ⟨b :: front, back, by simp [hsplit], ?_, hback⟩
  intro z hz
  rcases List.mem_cons.mp hz with rfl | hz
  · exact hba
  · exact hfront z hz

end FirstMax

/-- The loop, once it holds an element. -/
theorem foldl_keepMax_some (score : α → β) (xs : List α) (b : α) :
    ∃ a, xs.foldl (keepMax score) (some b) = some a ∧ FirstMax score (b :: xs) a := by
  induction xs generalizing b with
  | nil => exact ⟨b, rfl, [], [], rfl, by simp, by simp⟩
  | cons x xs ih =>
      rw [List.foldl_cons]
      by_cases hbetter : score b < score x
      · obtain ⟨a, hfold, hmax⟩ := ih x
        exact ⟨a, by rw [keepMax, if_pos hbetter, hfold], hmax.drop hbetter⟩
      · obtain ⟨a, hfold, hmax⟩ := ih b
        refine ⟨a, by rw [keepMax, if_neg hbetter, hfold], ?_⟩
        have hskip : FirstMax score ([b] ++ x :: xs) a :=
          FirstMax.skip ⟨b, by simp, not_lt.mp hbetter⟩ hmax
        exact hskip

/-- The loop ends with the first best element. -/
theorem foldl_keepMax :
    xs.foldl (keepMax score) none = some a ↔ FirstMax score xs a := by
  cases xs with
  | nil => exact ⟨fun h => by simp at h, fun h => absurd h.mem (by simp)⟩
  | cons x xs =>
      obtain ⟨a', hfold, hmax⟩ := foldl_keepMax_some score xs x
      rw [List.foldl_cons, keepMax, hfold, Option.some.injEq]
      constructor
      · rintro rfl
        exact hmax
      · exact hmax.unique

/-- The loop ends with nothing only if there is nothing. -/
theorem foldl_keepMax_none : xs.foldl (keepMax score) none = none ↔ xs = [] := by
  cases xs with
  | nil => simp
  | cons x xs =>
      obtain ⟨a, hfold, -⟩ := foldl_keepMax_some score xs x
      simp [keepMax, hfold]

/-- In a list that is ordered by rank, best first, the first maximum has the best rank exactly
when some element of the best rank is not beaten by any of a lower one. -/
theorem FirstMax.of_ordered {γ : Type*} [LinearOrder γ] {rank : α → γ}
    (hordered : xs.Pairwise fun x y => rank y ≤ rank x) (h : FirstMax score xs a) :
    (∀ x ∈ xs, rank x ≤ rank a) ↔ ∃ b ∈ xs, (∀ x ∈ xs, rank x ≤ rank b) ∧
      ∀ x ∈ xs, rank x < rank b → score x ≤ score b := by
  constructor
  · intro htop
    exact ⟨a, h.mem, htop, fun x hx _ => h.le hx⟩
  rintro ⟨b, hb, htop, hbeaten⟩ x hx
  by_contra hlow
  have hrank : rank a < rank b := lt_of_lt_of_le (not_le.mp hlow) (htop x hx)
  have hscore : score b = score a := le_antisymm (h.le hb) (hbeaten a h.mem hrank)
  -- an element that scores as much comes after the first maximum, so its rank is no better
  obtain ⟨front, back, rfl, hfront, -⟩ := h
  rcases List.mem_append.mp hb with hb | hb
  · exact absurd (hfront b hb) (by simp [hscore])
  rcases List.mem_cons.mp hb with rfl | hb
  · exact lt_irrefl _ hrank
  · have hback := (List.pairwise_cons.mp (List.pairwise_append.mp hordered).2.1).1 b hb
    exact absurd hrank (not_lt.mpr hback)

/-- The first `n` elements miss a predicate exactly when all do, or when `n` that miss it come
first. -/
theorem all_take_iff (p : α → Bool) (xs : List α) (n : ℕ) :
    (∀ x ∈ xs.take n, p x = false) ↔
      (∀ x ∈ xs, p x = false) ∨ n ≤ (xs.takeWhile fun x => !p x).length := by
  induction xs generalizing n with
  | nil => simp
  | cons x xs ih =>
      cases n with
      | zero => simp
      | succ n =>
          cases hx : p x with
          | true => simp [hx]
          | false => simp [hx, ih]

end OpenUnion.Ranking
