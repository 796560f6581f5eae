import Mathlib.Data.List.Infix

/-!
# Absolute paths

A path is split at its slashes; empty segments and `.` are dropped, and `..` drops the segment
before it.  The path of the segments that are left is the normalised one.

* `segments_render`: the segments of a normalised path are read back.
* `segments_below`: the segments of a path below another one.
* `render_prefix`: the path of the first segments is a prefix of the path of all.
-/

namespace OpenUnion.Text

/-- A segment of a path. -/
abbrev Segment := List Char

/-- One segment on top of the others. -/
def pushSegment (segs : List Segment) (s : Segment) : List Segment :=
  if s = [] ∨ s = ['.'] then segs
  else if s = ['.', '.'] then segs.dropLast
  else segs ++ [s]

/-- The segments of an absolute path. -/
def segments (path : List Char) : List Segment := (path.splitOn '/').foldl pushSegment []

/-- The absolute path of segments. -/
def render : List Segment → List Char
  | [] => ['/']
  | segs => segs.flatMap fun s => '/' :: s

/-- `path.resolve(base, path)` for an absolute base. -/
def resolve (base path : List Char) : List Char :=
  if path = [] then render (segments base)
  else if path.head? = some '/' then render (segments path)
  else render (segments (base ++ '/' :: path))

/-- A segment that stays in a path. -/
structure Proper (s : Segment) : Prop where
  nonempty : s ≠ []
  notDot : s ≠ ['.']
  notDots : s ≠ ['.', '.']
  noSlash : '/' ∉ s

variable {s : Segment} {segs more : List Segment} {base path : List Char}

/-- A proper segment is put on top. -/
theorem pushSegment_proper (hs : Proper s) : pushSegment segs s = segs ++ [s] := by
  have hkept : ¬ (s = [] ∨ s = ['.']) := not_or.mpr ⟨hs.nonempty, hs.notDot⟩
  rw [pushSegment, if_neg hkept, if_neg hs.notDots]

theorem foldl_proper (h : ∀ s ∈ more, Proper s) : more.foldl pushSegment segs = segs ++ more := by
  induction more generalizing segs with
  | nil => simp
  | cons s more ih =>
      have hs : Proper s := h s List.mem_cons_self
      rw [List.foldl_cons, pushSegment_proper hs, ih fun s' hs' => h s' (List.mem_cons_of_mem _ hs')]
      simp

/-- The parts between the slashes of a path. -/
theorem not_mem_splitOn : ∀ s ∈ path.splitOn '/', '/' ∉ s := by
  induction path with
  | nil => simp
  | cons c path ih =>
      rw [List.splitOn_cons_eq_if_modifyHead]
      split_ifs with hc
      · intro s hs
        rcases List.mem_cons.mp hs with rfl | hs
        · exact List.not_mem_nil
        · exact ih s hs
      · obtain ⟨first, rest, hsplit⟩ :=
          List.exists_cons_of_ne_nil (List.splitOn_ne_nil '/' path)
        rw [hsplit] at ih ⊢
        rw [List.modifyHead_cons]
        intro s hs
        rcases List.mem_cons.mp hs with rfl | hs
        · have hfirst := ih first List.mem_cons_self
          have hne : '/' ≠ c := fun heq => hc (beq_iff_eq.mpr heq.symm)
          exact fun hmem => (List.mem_cons.mp hmem).elim hne hfirst
        · exact ih s (List.mem_cons_of_mem _ hs)

/-- Only proper segments are kept. -/
theorem foldl_keeps (hsegs : ∀ s ∈ segs, Proper s) (hmore : ∀ s ∈ more, '/' ∉ s) :
    ∀ s ∈ more.foldl pushSegment segs, Proper s := by
  induction more generalizing segs with
  | nil => exact hsegs
  | cons s more ih =>
      refine ih ?_ fun s' hs' => hmore s' (List.mem_cons_of_mem _ hs')
      unfold pushSegment
      split_ifs with hdropped hdots
      · exact hsegs
      · exact fun s' hs' => hsegs s' (List.mem_of_mem_dropLast hs')
      · rw [not_or] at hdropped
        intro s' hs'
        rcases List.mem_append.mp hs' with hs' | hs'
        · exact hsegs s' hs'
        · obtain rfl := List.mem_singleton.mp hs'
          exact ⟨hdropped.1, hdropped.2, hdots, hmore s' List.mem_cons_self⟩

theorem segments_proper : ∀ s ∈ segments path, Proper s :=
  foldl_keeps (fun _ hs => absurd hs List.not_mem_nil) not_mem_splitOn

/-- The segments of a path below another one. -/
theorem segments_below : segments (base ++ '/' :: path) =
    (path.splitOn '/').foldl pushSegment (segments base) := by
  rw [segments, List.splitOn_append_cons_self, List.foldl_append]
  rfl

/-- Parts that contain no slash are split apart again. -/
theorem splitOn_joined (hs : '/' ∉ s) (h : ∀ s ∈ segs, '/' ∉ s) :
    (s ++ segs.flatMap fun s => '/' :: s).splitOn '/' = s :: segs := by
  induction segs generalizing s with
  | nil => rw [List.flatMap_nil, List.append_nil, List.splitOn_eq_singleton hs]
  | cons s' segs ih =>
      have hs' : '/' ∉ s' := h s' List.mem_cons_self
      rw [List.flatMap_cons, List.cons_append, List.splitOn_append_cons_self_of_not_mem hs,
        ih hs' fun t ht => h t (List.mem_cons_of_mem _ ht)]

/-- The segments of a normalised path are read back. -/
theorem segments_render (h : ∀ s ∈ segs, Proper s) : segments (render segs) = segs := by
  have hjoined := splitOn_joined List.not_mem_nil fun s hs => (h s hs).noSlash
  cases segs with
  | nil => rfl
  | cons s rest =>
      rw [List.nil_append] at hjoined
      have hfirst : pushSegment [] [] = [] := rfl
      rw [segments, render, hjoined, List.foldl_cons, hfirst, foldl_proper h, List.nil_append]
      exact List.cons_ne_nil s rest

/-- A normalised path begins with a slash. -/
theorem slash_prefix : ['/'] <+: render segs := by
  cases segs with
  | nil => exact List.prefix_refl _
  | cons s rest =>
      rw [render, List.flatMap_cons]
      · exact List.prefix_append ['/'] _
      · exact List.cons_ne_nil s rest

/-- The path of the first segments is a prefix of the path of all. -/
theorem render_prefix : render segs <+: render (segs ++ more) := by
  cases segs with
  | nil => exact slash_prefix
  | cons s rest =>
      rw [List.cons_append, render, render, ← List.cons_append, List.flatMap_append]
      · exact List.prefix_append _ _
      · exact List.cons_ne_nil s (rest ++ more)
      · exact List.cons_ne_nil s rest

/-- A path that is resolved has proper segments, and is their path. -/
theorem resolve_normal : ∃ segs, resolve base path = render segs ∧ ∀ s ∈ segs, Proper s := by
  unfold resolve
  split_ifs
  · exact ⟨segments base, rfl, segments_proper⟩
  · exact ⟨segments path, rfl, segments_proper⟩
  · exact ⟨segments (base ++ '/' :: path), rfl, segments_proper⟩

end OpenUnion.Text
