import OpenUnion.Code.WebStream

/-!
# A stream cut off at a limit

What a limited read returns depends on the bytes of the stream only, not on the chunks they come
in, nor on how the stream goes on behind the limit.

* `Keeping.read`, `Keeping.keepChunk`: a turn of the loop keeps all that has been delivered.
* `readChunks_cut`: the loop keeps the first bytes up to the limit, and no turn starts beyond it.
* `readWebStreamLimited_cut`: so does the function, for every stream that is closed or goes on
  beyond the limit.
* `readWebStreamLimited_splitting`: the bytes may be split into any chunks.
* `readWebStreamLimited_unsplit`: two streams of the same bytes are read alike.
-/

namespace OpenUnion

variable {limit : ℕ} {seen rest all : List (Option (List UInt8))} {value : Option (List UInt8)}
variable {buf b : List UInt8} {c : Collected} {ending : StreamEnd}

/-- The bytes of chunks. -/
def bytesIn (values : List (Option (List UInt8))) : List UInt8 :=
  (values.map fun value => value.getD []).flatten

theorem bytesIn_append : bytesIn (seen ++ rest) = bytesIn seen ++ bytesIn rest := by
  simp [bytesIn]

theorem bytesIn_some (chunks : List (List UInt8)) : bytesIn (chunks.map some) = chunks.flatten := by
  simp [bytesIn]

/-- The variables while the limit holds: all bytes delivered are kept. -/
structure Keeping (limit : ℕ) (seen : List (Option (List UInt8))) (c : Collected) : Prop where
  kept : c.chunks.flatten = bytesIn seen
  total : c.total = (bytesIn seen).length
  whole : c.truncated = false
  reads : c.calls.reads = seen.length
  uncancelled : c.calls.cancelled = false
  within : ∀ n ≤ seen.length, (bytesIn (seen.take n)).length ≤ limit

/-- Nothing has been read. -/
theorem keeping_start : Keeping limit [] {} := by
  constructor <;> simp [bytesIn]

/-- All that is delivered is within the limit. -/
theorem Keeping.length_le (h : Keeping limit seen c) : (bytesIn seen).length ≤ limit := by
  have hwithin := h.within seen.length (le_refl _)
  rwa [List.take_length] at hwithin

/-- A chunk more does not take the bytes before it beyond the limit. -/
theorem within_concat (hseen : ∀ n ≤ seen.length, (bytesIn (seen.take n)).length ≤ limit)
    (hall : (bytesIn (seen ++ [value])).length ≤ limit) :
    ∀ n ≤ (seen ++ [value]).length, (bytesIn ((seen ++ [value]).take n)).length ≤ limit := by
  intro n hn
  rcases Nat.lt_or_ge seen.length n with hlast | hbefore
  · have hlength : (seen ++ [value]).length ≤ n := by
      rw [List.length_append, List.length_singleton]
      omega
    rwa [List.take_of_length_le hlength]
  · rw [List.take_append_of_le_length hbefore]
    exact hseen n hbefore

/-- A chunk without a value is passed over. -/
theorem Keeping.read (h : Keeping limit seen c) : Keeping limit (seen ++ [none]) c.read := by
  have hbytes : bytesIn (seen ++ [none]) = bytesIn seen := by simp [bytesIn]
  constructor
  · rw [hbytes]
    exact h.kept
  · rw [hbytes]
    exact h.total
  · exact h.whole
  · simp [Collected.read, h.reads]
  · exact h.uncancelled
  · apply within_concat h.within
    rw [hbytes]
    exact h.length_le

/-- A chunk within the limit is kept. -/
theorem Keeping.keepChunk (h : Keeping limit seen c)
    (hfits : ¬ (limit : ℚ) < c.total + buf.length) :
    Keeping limit (seen ++ [some buf]) (c.read.keepChunk buf) := by
  have hbytes : bytesIn (seen ++ [some buf]) = bytesIn seen ++ buf := by simp [bytesIn]
  have hlength : (bytesIn (seen ++ [some buf])).length ≤ limit := by
    rw [hbytes, List.length_append]
    rw [h.total, not_lt] at hfits
    exact_mod_cast hfits
  constructor
  · simp [Collected.keepChunk, Collected.read, hbytes, h.kept]
  · simp [Collected.keepChunk, Collected.read, hbytes, h.total]
  · exact h.whole
  · simp [Collected.keepChunk, Collected.read, h.reads]
  · exact h.uncancelled
  · exact within_concat h.within hlength

/-- The variables when the loop ends, with all the chunks of the stream. -/
structure Cut (limit : ℕ) (all : List (Option (List UInt8))) (c : Collected) : Prop where
  kept : c.chunks.flatten = (bytesIn all).take limit
  total : c.total = ((bytesIn all).take limit).length
  truncated : c.truncated = true ↔ limit < (bytesIn all).length
  cancelled : c.calls.cancelled = c.truncated
  before : ∀ n < c.calls.reads, (bytesIn (all.take n)).length ≤ limit

/-- The stream ends within the limit. -/
theorem Keeping.closed (h : Keeping limit seen c) : Cut limit seen c.read := by
  have htake : (bytesIn seen).take limit = bytesIn seen := List.take_of_length_le h.length_le
  constructor
  · rw [htake]
    exact h.kept
  · rw [htake]
    exact h.total
  · have hle := h.length_le
    simp only [Collected.read, h.whole, Bool.false_eq_true, false_iff]
    omega
  · simp [Collected.read, h.uncancelled, h.whole]
  · intro n hn
    have hreads : c.read.calls.reads = seen.length + 1 := by simp [Collected.read, h.reads]
    exact h.within n (by omega)

/-- Where there is room for so many bytes, so many of a chunk are kept. -/
theorem keepPart_room {room : ℕ} (hroom : (limit : ℚ) - c.total = room) (buf : List UInt8) :
    (c.keepPart limit buf).chunks.flatten = c.chunks.flatten ++ buf.take room ∧
      (c.keepPart limit buf).total = c.total + room ∧
      (c.keepPart limit buf).calls.reads = c.calls.reads := by
  have hkeep : max 0 ((limit : ℚ) - c.total) = room := by
    rw [hroom]
    exact max_eq_right (Nat.cast_nonneg room)
  unfold Collected.keepPart
  rw [hkeep]
  by_cases hzero : room = 0
  · subst hzero
    simp
  · have hpos : (0 : ℚ) < room := by exact_mod_cast Nat.pos_of_ne_zero hzero
    simp [hpos]

/-- Of the chunk that exceeds the limit is kept what still fits. -/
theorem Keeping.keepPart (h : Keeping limit seen c) (hover : (limit : ℚ) < c.total + buf.length) :
    Cut limit (seen ++ some buf :: rest) (c.read.keepPart limit buf) := by
  have hlong : limit < (bytesIn seen).length + buf.length := by
    rw [h.total] at hover
    exact_mod_cast hover
  have hle := h.length_le
  have hbytes : bytesIn (seen ++ some buf :: rest) = bytesIn seen ++ (buf ++ bytesIn rest) := by
    simp [bytesIn]
  have htake : (bytesIn (seen ++ some buf :: rest)).take limit =
      bytesIn seen ++ buf.take (limit - (bytesIn seen).length) := by
    rw [hbytes, List.take_append, List.take_of_length_le hle,
      List.take_append_of_le_length (by omega)]
  have hroom : (limit : ℚ) - c.read.total = (limit - (bytesIn seen).length : ℕ) := by
    rw [Nat.cast_sub hle, ← h.total]
    rfl
  obtain ⟨hchunks, htotal, hsame⟩ := keepPart_room hroom buf
  constructor
  · rw [hchunks, htake]
    exact congrArg (· ++ _) h.kept
  · have hpart : (buf.take (limit - (bytesIn seen).length)).length =
        limit - (bytesIn seen).length := List.length_take_of_le (by omega)
    rw [htotal, htake, List.length_append, hpart, Nat.cast_add]
    exact congrArg (· + _) h.total
  · have hlength : limit < (bytesIn (seen ++ some buf :: rest)).length := by
      rw [hbytes, List.length_append, List.length_append]
      omega
    exact iff_of_true rfl hlength
  · rfl
  · intro n hn
    have hreads : (c.read.keepPart limit buf).calls.reads = seen.length + 1 := by
      rw [hsame, Collected.read, h.reads]
    rw [List.take_append_of_le_length (by omega)]
    exact h.within n (by omega)

/-- The loop from its chunk on that is next: it ends, and what it has kept is cut off at the limit,
unless the stream fails before the limit is exceeded. -/
theorem readChunks_cut (h : Keeping limit seen c)
    (hend : ending = .closed ∨ limit < (bytesIn (seen ++ rest)).length) :
    ∃ last, readChunks limit ending rest c = .ok last ∧ Cut limit (seen ++ rest) last := by
  induction rest generalizing seen c with
  | nil =>
      rw [List.append_nil] at hend ⊢
      rcases hend with hclosed | hover
      · subst hclosed
        exact ⟨c.read, rfl, h.closed⟩
      · have hle := h.length_le
        omega
  | cons value rest ih =>
      have hnext : seen ++ value :: rest = (seen ++ [value]) ++ rest := by simp
      cases value with
      | none =>
          rw [hnext] at hend ⊢
          exact ih h.read hend
      | some buf =>
          by_cases hover : (limit : ℚ) < c.total + buf.length
          · exact ⟨c.read.keepPart limit buf, if_pos hover, h.keepPart hover⟩
          · rw [hnext] at hend ⊢
            obtain ⟨last, hrun, hcut⟩ := ih (h.keepChunk hover) hend
            exact ⟨last, (if_neg hover).trans hrun, hcut⟩

/-- Buffers of a whole length altogether are concatenated as they are. -/
theorem bufferConcat_flatten {list : List (List UInt8)} (hlist : list.flatten = b) :
    bufferConcat list b.length = .ok b := by
  have htake : (b ++ List.replicate b.length 0).take b.length = b := List.take_left
  simp [bufferConcat, hlist, htake]

/-- A limited read returns the first bytes of the stream up to the limit, tells whether there are
more, and does not read on beyond the limit. -/
theorem readWebStreamLimited_cut (stream : WebStream) (hpos : 0 < limit)
    (hend : stream.ending = .closed ∨ limit < (bytesIn stream.chunks).length) :
    ∃ calls, readWebStreamLimited (some limit) (some stream) =
        .ok (⟨(bytesIn stream.chunks).take limit, decide (limit < (bytesIn stream.chunks).length)⟩,
          calls) ∧
      (calls.cancelled = true ↔ limit < (bytesIn stream.chunks).length) ∧
      ∀ n < calls.reads, (bytesIn (stream.chunks.take n)).length ≤ limit := by
  have hlimit : ¬ (limit : ℚ) ≤ 0 := by
    rw [not_le]
    exact_mod_cast hpos
  obtain ⟨last, hrun, hcut⟩ := readChunks_cut keeping_start hend
  rw [List.nil_append] at hcut
  have hconcat : bufferConcat last.chunks last.total = .ok ((bytesIn stream.chunks).take limit) := by
    rw [hcut.total]
    exact bufferConcat_flatten hcut.kept
  have htruncated : last.truncated = decide (limit < (bytesIn stream.chunks).length) :=
    Bool.eq_iff_iff.mpr (hcut.truncated.trans decide_eq_true_iff.symm)
  refine ⟨last.calls, ?_, ?_, hcut.before⟩
  · simp only [readWebStreamLimited, if_neg hlimit, hrun, hconcat, htruncated, bind, Except.bind,
      pure, Except.pure]
  · rw [hcut.cancelled]
    exact hcut.truncated

/-- The stream of bytes that come in such chunks. -/
def WebStream.ofChunks (chunks : List (List UInt8)) : WebStream :=
  { chunks := chunks.map some, ending := .closed }

/-- However bytes are split into chunks, a read with a limit returns the first of them, tells
whether that is not all, and reads no chunk after the limit is exceeded. -/
theorem readWebStreamLimited_splitting (b : List UInt8) (chunks : List (List UInt8))
    (hsplit : chunks.flatten = b) (maxBytes : ℤ) (hpos : 0 < maxBytes) :
    ∃ result calls,
      readWebStreamLimited (some maxBytes) (some (.ofChunks chunks)) = .ok (result, calls) ∧
      result.bytes = b.take (min b.length maxBytes.toNat) ∧
      (result.truncated = true ↔ maxBytes < b.length) ∧
      ∀ n < calls.reads, ((chunks.take n).flatten.length : ℤ) ≤ maxBytes := by
  obtain ⟨limit, rfl⟩ := Int.eq_ofNat_of_zero_le hpos.le
  have hbytes : bytesIn (WebStream.ofChunks chunks).chunks = b := (bytesIn_some chunks).trans hsplit
  have hlimit : 0 < limit := by exact_mod_cast hpos
  obtain ⟨calls, hrun, -, hbefore⟩ :=
    readWebStreamLimited_cut (.ofChunks chunks) hlimit (.inl rfl)
  rw [hbytes] at hrun
  refine ⟨_, calls, hrun, ?_, ?_, ?_⟩
  · rcases le_total b.length limit with hle | hle
    · simp [hle, List.take_of_length_le hle]
    · simp [hle]
  · simp
  · intro n hn
    have hle := hbefore n hn
    rw [WebStream.ofChunks, ← List.map_take, bytesIn_some] at hle
    exact_mod_cast hle

/-- Five bytes, in chunks of which one is empty, with a limit of three. -/
theorem readWebStreamLimited_five : ∃ result calls,
    readWebStreamLimited (some ((3 : ℤ) : ℚ)) (some (.ofChunks [[1, 2, 3], [], [4], [5]])) =
      .ok (result, calls) ∧
    result.bytes = [1, 2, 3] ∧ (result.truncated = true ↔ (3 : ℤ) < 5) ∧
    ∀ n < calls.reads,
      ((([[1, 2, 3], [], [4], [5]] : List (List UInt8)).take n).flatten.length : ℤ) ≤ 3 :=
  readWebStreamLimited_splitting [1, 2, 3, 4, 5] [[1, 2, 3], [], [4], [5]] rfl 3 (by decide)

/-- Closed streams of the same bytes are read alike. -/
theorem readWebStreamLimited_unsplit {s t : WebStream} (hpos : 0 < limit)
    (hs : s.ending = .closed) (ht : t.ending = .closed)
    (hbytes : bytesIn s.chunks = bytesIn t.chunks) :
    (readWebStreamLimited (some limit) (some s)).map Prod.fst =
      (readWebStreamLimited (some limit) (some t)).map Prod.fst := by
  obtain ⟨calls, hrun, -⟩ := readWebStreamLimited_cut s hpos (.inl hs)
  obtain ⟨calls', hrun', -⟩ := readWebStreamLimited_cut t hpos (.inl ht)
  rw [hrun, hrun', hbytes]
  rfl

end OpenUnion
