import Mathlib.Data.Nat.Cast.Order.Ring
import OpenUnion.Code.SensitiveKeys

/-!
# What the sensitive-key walk finds

The walk looks at every node of a value, leaves and elements of arrays included, and at every key
of its objects.  It stops at the first fault, so the order of the keys can only matter for when it
stops.

* `walk_default`: with the limit of the server it is the walk the routes make.
* `hasSensitiveKeys_reordered`: the order of the keys does not matter.
* `walk_exact`: it finds nothing just if no node lies too deep and no key is sensitive.
-/

namespace OpenUnion

/-- `w` is a node of `v` at a depth. -/
inductive Json.Node : Json → ℕ → Json → Prop
  | root (v : Json) : Node v 0 v
  | elem {elems : List Json} {x w : Json} {n : ℕ} (hmem : x ∈ elems) (h : Node x n w) :
      Node (.arr elems) (n + 1) w
  | field {fields : List (String × Json)} {k : String} {x w : Json} {n : ℕ}
      (hmem : (k, x) ∈ fields) (h : Node x n w) : Node (.obj fields) (n + 1) w

/-- Two values that differ in the order of keys only, at any depth. -/
inductive Json.Reordered : Json → Json → Prop
  | refl (v : Json) : Reordered v v
  | trans {u v w : Json} (h : Reordered u v) (h' : Reordered v w) : Reordered u w
  | perm {fields fields' : List (String × Json)} (h : fields.Perm fields') :
      Reordered (.obj fields) (.obj fields')
  | elem (before after : List Json) {x y : Json} (h : Reordered x y) :
      Reordered (.arr (before ++ x :: after)) (.arr (before ++ y :: after))
  | field (before after : List (String × Json)) (k : String) {x y : Json} (h : Reordered x y) :
      Reordered (.obj (before ++ (k, x) :: after)) (.obj (before ++ (k, y) :: after))

namespace Json

variable {elems : List Json} {fields : List (String × Json)} {v w : Json} {n : ℕ}

theorem node_arr : (arr elems).Node n w ↔
    n = 0 ∧ w = arr elems ∨ ∃ x ∈ elems, ∃ m, n = m + 1 ∧ x.Node m w := by
  constructor
  · intro h
    cases h with
    | root => exact .inl ⟨rfl, rfl⟩
    | elem hmem h => exact .inr ⟨_, hmem, _, rfl, h⟩
  · rintro (⟨rfl, rfl⟩ | ⟨x, hmem, m, rfl, h⟩)
    · exact .root _
    · exact .elem hmem h

theorem node_obj : (obj fields).Node n w ↔
    n = 0 ∧ w = obj fields ∨ ∃ k x, (k, x) ∈ fields ∧ ∃ m, n = m + 1 ∧ x.Node m w := by
  constructor
  · intro h
    cases h with
    | root => exact .inl ⟨rfl, rfl⟩
    | field hmem h => exact .inr ⟨_, _, hmem, _, rfl, h⟩
  · rintro (⟨rfl, rfl⟩ | ⟨k, x, hmem, m, rfl, h⟩)
    · exact .root _
    · exact .field hmem h

end Json

namespace Walk

variable {toLowerCase : String → String} {d : Limit}

/-- Every node of a value lies at a depth within the limit. -/
def Limit.Holds (d : Limit) (v : Json) : Prop :=
  ∀ n w, v.Node n w → d.exceededBy n = false

/-- No key of an object anywhere in a value is sensitive. -/
def KeysHarmless (toLowerCase : String → String) (v : Json) : Prop :=
  ∀ n fields, v.Node n (.obj fields) → ∀ k x, (k, x) ∈ fields →
    isSensitive toLowerCase k = false

/-! ## The two loops -/

theorem elemsSensitive_eq_false {elems : List Json} {depth : ℕ} :
    elemsSensitive toLowerCase d elems depth = false ↔
      ∀ x ∈ elems, hasSensitiveKeys toLowerCase d x depth = false := by
  induction elems with
  | nil => simp [elemsSensitive]
  | cons v rest ih => simp [elemsSensitive, ih]

theorem fieldsSensitive_eq_false {fields : List (String × Json)} {depth : ℕ} :
    fieldsSensitive toLowerCase d fields depth = false ↔
      ∀ k x, (k, x) ∈ fields →
        isSensitive toLowerCase k = false ∧ hasSensitiveKeys toLowerCase d x depth = false := by
  induction fields with
  | nil => simp [fieldsSensitive]
  | cons field rest ih =>
      obtain ⟨k, v⟩ := field
      simp only [fieldsSensitive, Bool.or_eq_false_iff, ih, List.mem_cons]
      constructor
      · rintro ⟨⟨hk, hv⟩, hrest⟩ k' x (hhere | hthere)
        · obtain ⟨rfl, rfl⟩ := Prod.mk.inj hhere
          exact ⟨hk, hv⟩
        · exact hrest k' x hthere
      · intro h
        have hhere := h k v (.inl rfl)
        exact ⟨hhere, fun k' x hthere => h k' x (.inr hthere)⟩

/-! ## The walk -/

/-- All nodes lie within the limit, counted from a depth on. -/
def Limit.HoldsFrom (d : Limit) (depth : ℕ) (v : Json) : Prop :=
  ∀ n w, v.Node n w → d.exceededBy (depth + n) = false

theorem holdsFrom_arr {elems : List Json} {depth : ℕ} : d.HoldsFrom depth (.arr elems) ↔
    d.exceededBy depth = false ∧ ∀ x ∈ elems, d.HoldsFrom (depth + 1) x := by
  constructor
  · intro h
    refine ⟨h 0 _ (.root _), fun x hmem n w hnode => ?_⟩
    have hdeeper := h (n + 1) w (.elem hmem hnode)
    rwa [show depth + 1 + n = depth + (n + 1) by omega]
  · rintro ⟨hhere, helems⟩ n w hnode
    rcases Json.node_arr.mp hnode with ⟨rfl, -⟩ | ⟨x, hmem, m, rfl, hx⟩
    · exact hhere
    · have hdeeper := helems x hmem m w hx
      rwa [show depth + (m + 1) = depth + 1 + m by omega]

theorem holdsFrom_obj {fields : List (String × Json)} {depth : ℕ} :
    d.HoldsFrom depth (.obj fields) ↔
      d.exceededBy depth = false ∧ ∀ k x, (k, x) ∈ fields → d.HoldsFrom (depth + 1) x := by
  constructor
  · intro h
    refine ⟨h 0 _ (.root _), fun k x hmem n w hnode => ?_⟩
    have hdeeper := h (n + 1) w (.field hmem hnode)
    rwa [show depth + 1 + n = depth + (n + 1) by omega]
  · rintro ⟨hhere, hfields⟩ n w hnode
    rcases Json.node_obj.mp hnode with ⟨rfl, -⟩ | ⟨k, x, hmem, m, rfl, hx⟩
    · exact hhere
    · have hdeeper := hfields k x hmem m w hx
      rwa [show depth + (m + 1) = depth + 1 + m by omega]

theorem keysHarmless_arr {elems : List Json} :
    KeysHarmless toLowerCase (.arr elems) ↔ ∀ x ∈ elems, KeysHarmless toLowerCase x := by
  constructor
  · intro h x hmem n fields hnode
    exact h (n + 1) fields (.elem hmem hnode)
  · intro h n fields hnode
    rcases Json.node_arr.mp hnode with ⟨-, himpossible⟩ | ⟨x, hmem, m, -, hx⟩
    · cases himpossible
    · exact h x hmem m fields hx

theorem keysHarmless_obj {fields : List (String × Json)} :
    KeysHarmless toLowerCase (.obj fields) ↔ ∀ k x, (k, x) ∈ fields →
      isSensitive toLowerCase k = false ∧ KeysHarmless toLowerCase x := by
  constructor
  · intro h k x hmem
    exact ⟨h 0 fields (.root _) k x hmem,
      fun n fields' hnode => h (n + 1) fields' (.field hmem hnode)⟩
  · intro h n fields' hnode
    rcases Json.node_obj.mp hnode with ⟨-, hsame⟩ | ⟨k, x, hmem, m, -, hx⟩
    · obtain rfl := Json.obj.inj hsame
      exact fun k x hmem => (h k x hmem).1
    · exact (h k x hmem).2 m fields' hx

/-- A value without members is one node, and has no keys. -/
theorem leaf_eq_false {v : Json} {depth : ℕ} (hleaf : ∀ n w, v.Node n w → n = 0 ∧ w = v)
    (hobj : ∀ fields, v ≠ .obj fields) : d.exceededBy depth = false ↔
      d.HoldsFrom depth v ∧ KeysHarmless toLowerCase v := by
  constructor
  · intro h
    refine ⟨fun n w hnode => ?_, fun n fields hnode => ?_⟩
    · obtain ⟨rfl, -⟩ := hleaf n w hnode
      exact h
    · exact absurd (hleaf n _ hnode).2.symm (hobj fields)
  · intro h
    exact h.1 0 v (.root v)

/-- What is found from a depth on: the induction is on the value, and the depth grows. -/
theorem hasSensitiveKeys_eq_false (v : Json) (depth : ℕ) :
    hasSensitiveKeys toLowerCase d v depth = false ↔
      d.HoldsFrom depth v ∧ KeysHarmless toLowerCase v := by
  match v with
  | .arr elems =>
      have ih : ∀ x ∈ elems, hasSensitiveKeys toLowerCase d x (depth + 1) = false ↔
          d.HoldsFrom (depth + 1) x ∧ KeysHarmless toLowerCase x :=
        fun x hmem => hasSensitiveKeys_eq_false x (depth + 1)
      rw [hasSensitiveKeys, Bool.or_eq_false_iff, elemsSensitive_eq_false, holdsFrom_arr,
        keysHarmless_arr]
      constructor
      · rintro ⟨hhere, helems⟩
        exact ⟨⟨hhere, fun x hmem => ((ih x hmem).mp (helems x hmem)).1⟩,
          fun x hmem => ((ih x hmem).mp (helems x hmem)).2⟩
      · rintro ⟨⟨hhere, hdepths⟩, hkeys⟩
        exact ⟨hhere, fun x hmem => (ih x hmem).mpr ⟨hdepths x hmem, hkeys x hmem⟩⟩
  | .obj fields =>
      have ih : ∀ k x, (k, x) ∈ fields → (hasSensitiveKeys toLowerCase d x (depth + 1) = false ↔
          d.HoldsFrom (depth + 1) x ∧ KeysHarmless toLowerCase x) :=
        fun k x hmem => hasSensitiveKeys_eq_false x (depth + 1)
      rw [hasSensitiveKeys, Bool.or_eq_false_iff, fieldsSensitive_eq_false, holdsFrom_obj,
        keysHarmless_obj]
      constructor
      · rintro ⟨hhere, hfields⟩
        refine ⟨⟨hhere, fun k x hmem => ?_⟩, fun k x hmem => ?_⟩
        · exact ((ih k x hmem).mp (hfields k x hmem).2).1
        · exact ⟨(hfields k x hmem).1, ((ih k x hmem).mp (hfields k x hmem).2).2⟩
      · rintro ⟨⟨hhere, hdepths⟩, hkeys⟩
        refine ⟨hhere, fun k x hmem => ⟨(hkeys k x hmem).1, ?_⟩⟩
        exact (ih k x hmem).mpr ⟨hdepths k x hmem, (hkeys k x hmem).2⟩
  | .null => exact leaf_eq_false (by rintro n w ⟨⟩; exact ⟨rfl, rfl⟩) (by simp)
  | .bool _ => exact leaf_eq_false (by rintro n w ⟨⟩; exact ⟨rfl, rfl⟩) (by simp)
  | .num _ => exact leaf_eq_false (by rintro n w ⟨⟩; exact ⟨rfl, rfl⟩) (by simp)
  | .str _ => exact leaf_eq_false (by rintro n w ⟨⟩; exact ⟨rfl, rfl⟩) (by simp)
termination_by sizeOf v
decreasing_by
  · have hsize := List.sizeOf_lt_of_mem hmem
    simp only [Json.arr.sizeOf_spec]
    omega
  · have hsize := List.sizeOf_lt_of_mem hmem
    simp only [Json.obj.sizeOf_spec, Prod.mk.sizeOf_spec] at hsize ⊢
    omega

theorem elemsSensitive_append {before after : List Json} {depth : ℕ} :
    elemsSensitive toLowerCase d (before ++ after) depth =
      (elemsSensitive toLowerCase d before depth || elemsSensitive toLowerCase d after depth) := by
  induction before with
  | nil => rfl
  | cons x rest ih => rw [List.cons_append, elemsSensitive, ih, elemsSensitive, Bool.or_assoc]

theorem fieldsSensitive_append {before after : List (String × Json)} {depth : ℕ} :
    fieldsSensitive toLowerCase d (before ++ after) depth =
      (fieldsSensitive toLowerCase d before depth ||
        fieldsSensitive toLowerCase d after depth) := by
  induction before with
  | nil => rfl
  | cons field rest ih =>
      obtain ⟨k, x⟩ := field
      rw [List.cons_append, fieldsSensitive, ih, fieldsSensitive, Bool.or_assoc, Bool.or_assoc,
        Bool.or_assoc]

/-- The order of the keys does not matter. -/
theorem hasSensitiveKeys_reordered {v v' : Json} (h : v.Reordered v') (depth : ℕ) :
    hasSensitiveKeys toLowerCase d v depth = hasSensitiveKeys toLowerCase d v' depth := by
  induction h generalizing depth with
  | refl v => rfl
  | trans _ _ ih ih' => exact (ih depth).trans (ih' depth)
  | perm hperm =>
      rw [hasSensitiveKeys, hasSensitiveKeys]
      congr 1
      rw [Bool.eq_iff_iff, ← not_iff_not, Bool.not_eq_true, Bool.not_eq_true,
        fieldsSensitive_eq_false, fieldsSensitive_eq_false]
      simp only [hperm.mem_iff]
  | elem before after _ ih =>
      rw [hasSensitiveKeys, hasSensitiveKeys, elemsSensitive_append, elemsSensitive_append,
        elemsSensitive, elemsSensitive, ih]
  | field before after k _ ih =>
      rw [hasSensitiveKeys, hasSensitiveKeys, fieldsSensitive_append, fieldsSensitive_append,
        fieldsSensitive, fieldsSensitive, ih]

/-! ## The whole walk -/

/-- The words are looked for in the same way. -/
theorem isSensitive_default (env : RouteEnv) (k : String) :
    isSensitive env.toLowerCase k = isSensitiveKey env k := by
  simp [isSensitive, isSensitiveKey, Bool.or_assoc]

theorem exceededBy_natCast (m depth : ℕ) :
    (Limit.finite m).exceededBy depth = decide (m < depth) := by
  simp [Limit.exceededBy]

mutual

/-- With the limit of the server it is the walk the routes make. -/
theorem walk_default (env : RouteEnv) : ∀ (v : Json) (depth : ℕ),
    hasSensitiveKeys env.toLowerCase (.finite env.maxDepth) v depth =
      OpenUnion.hasSensitiveKeys env v depth
  | .arr elems, depth => by
      have helems := elems_default env elems (depth + 1)
      simp [hasSensitiveKeys, OpenUnion.hasSensitiveKeys, exceededBy_natCast, helems]
  | .obj fields, depth => by
      have hfields := fields_default env fields (depth + 1)
      simp [hasSensitiveKeys, OpenUnion.hasSensitiveKeys, exceededBy_natCast, hfields]
  | .null, depth | .bool _, depth | .num _, depth | .str _, depth => by
      simp [hasSensitiveKeys, OpenUnion.hasSensitiveKeys, exceededBy_natCast]

theorem elems_default (env : RouteEnv) : ∀ (elems : List Json) (depth : ℕ),
    elemsSensitive env.toLowerCase (.finite env.maxDepth) elems depth =
      OpenUnion.elemsSensitive env elems depth
  | [], depth => rfl
  | v :: rest, depth => by
      rw [elemsSensitive, OpenUnion.elemsSensitive, walk_default env v depth,
        elems_default env rest depth]

theorem fields_default (env : RouteEnv) : ∀ (fields : List (String × Json)) (depth : ℕ),
    fieldsSensitive env.toLowerCase (.finite env.maxDepth) fields depth =
      OpenUnion.fieldsSensitive env fields depth
  | [], depth => rfl
  | (k, v) :: rest, depth => by
      rw [fieldsSensitive, OpenUnion.fieldsSensitive, isSensitive_default,
        walk_default env v depth, fields_default env rest depth]

end

/-- Nothing is found just if every node lies within the limit and no key is sensitive, whatever
the order of the keys. -/
theorem walk_exact (toLowerCase : String → String) (v : Json) (d : Limit) :
    (hasSensitiveKeys toLowerCase d v 0 = false ↔ d.Holds v ∧ KeysHarmless toLowerCase v) ∧
      ∀ v', v.Reordered v' →
        hasSensitiveKeys toLowerCase d v 0 = hasSensitiveKeys toLowerCase d v' 0 := by
  constructor
  · rw [hasSensitiveKeys_eq_false]
    simp only [Limit.HoldsFrom, Limit.Holds, Nat.zero_add]
  · intro v' h
    exact hasSensitiveKeys_reordered h 0

/-- A key hidden two levels down is found, in either order. -/
theorem walk_exact_nested :
    hasSensitiveKeys id (.finite 6)
        (.obj [("a", .arr [.obj [("my_token", .null)]]), ("b", .null)]) 0 =
      hasSensitiveKeys id (.finite 6)
        (.obj [("b", .null), ("a", .arr [.obj [("my_token", .null)]])]) 0 :=
  (walk_exact id _ _).2 _ (.perm (List.Perm.swap _ _ _))

end Walk

end OpenUnion
