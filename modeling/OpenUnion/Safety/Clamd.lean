import OpenUnion.Code.Clamd

/-!
# Reading the reply of clamd

A reply is `stream: OK`, or `stream: S FOUND` for the signature `S`, or the report of a failure;
a terminating null byte belongs to the protocol. `scanOnce` looks for ` OK` and then for `FOUND`
anywhere in the upper-case text, so that other replies can pass for these two, and a signature
with ` OK` in its name for a clean one.

* `scanOnce_chunks`: the result after a reply in chunks and `close`.
* `reply_read_iff`: when a reply is read for what it is.
-/

namespace OpenUnion.Storage

open OpenUnion.Text

/-! ## Stripping -/

section Stripping

variable {p : Char → Bool} {text xs : List Char}

/-- A text without the characters of `p` at its ends. -/
def stripped (p : Char → Bool) (xs : List Char) : List Char :=
  ((xs.dropWhile p).reverse.dropWhile p).reverse

theorem stripped_infix : stripped p xs <:+: xs := by
  have hback : stripped p xs <+: xs.dropWhile p := by
    have hsuffix := List.dropWhile_suffix p (l := (xs.dropWhile p).reverse)
    simpa [stripped] using List.reverse_prefix.mpr hsuffix
  exact hback.isInfix.trans (List.dropWhile_suffix p).isInfix

theorem infix_dropWhile {x : Char} (hx : p x = false) (h : x :: text <:+: xs) :
    x :: text <:+: xs.dropWhile p := by
  induction xs with
  | nil => exact h
  | cons y xs ih =>
      by_cases hy : p y = true
      · rw [List.dropWhile_cons_of_pos hy]
        rw [List.infix_cons_iff, List.cons_prefix_cons] at h
        rcases h with ⟨rfl, -⟩ | h
        · exact absurd hy (by simp [hx])
        · exact ih h
      · rwa [List.dropWhile_cons_of_neg hy]

/-- What starts and ends with other characters is kept. -/
theorem infix_stripped {x y : Char} (hx : p x = false) (hy : p y = false)
    (h : x :: (text ++ [y]) <:+: xs) : x :: (text ++ [y]) <:+: stripped p xs := by
  have hfront := infix_dropWhile hx h
  have hreverse : y :: (text.reverse ++ [x]) <:+: (xs.dropWhile p).reverse := by
    simpa using List.reverse_infix.mpr hfront
  simpa [stripped] using List.reverse_infix.mpr (infix_dropWhile hy hreverse)

end Stripping

/-! ## Replies -/

/-- White space, or the null byte that ends a reply. -/
def isPadding (c : Char) : Bool := isWhiteSpace c || decide (c = Char.ofNat 0)

/-- The reply in some bytes: their text without what pads it. -/
def replyOf (bytes : Bytes) : List Char := stripped isPadding (decode bytes)

/-- The reply for clean bytes. -/
def IsClean (bytes : Bytes) : Prop := replyOf bytes = "stream: OK".toList

/-- The reply for some signature. -/
def IsFound (bytes : Bytes) : Prop :=
  ∃ signature : List Char, replyOf bytes = "stream: ".toList ++ signature ++ " FOUND".toList

/-- The result for a reply in chunks. -/
def scanReply (u : UpperCase) (chunks : List Bytes) : Option ScanResult :=
  scanOnce u [] (chunks.map SocketEvent.data ++ [.close])

/-- The reply is read for what it is: clean, infected, or a failure of the engine. -/
structure ReadAs (u : UpperCase) (chunks : List Bytes) : Prop where
  clean : scanReply u chunks = some .clean ↔ IsClean chunks.flatten
  infected : IsFound chunks.flatten → scanReply u chunks = some (.refused "clamd_infected")
  failure : ¬ IsClean chunks.flatten → ¬ IsFound chunks.flatten →
    ∃ reason, scanReply u chunks = some (.refused reason) ∧ reason ≠ "clamd_infected"

/-- The upper-case text that `scanOnce` searches. -/
def upperReply (u : UpperCase) (chunks : List Bytes) : String :=
  u.apply (trimmed (String.ofList (decodeChunks chunks)))

variable {u : UpperCase} {chunks : List Bytes}

/-! ## Results -/

theorem scanOnce_chunks (resp : List Char) :
    scanOnce u resp (chunks.map SocketEvent.data ++ [.close]) =
      some (readReply u (String.ofList (resp ++ decodeChunks chunks))) := by
  induction chunks generalizing resp with
  | nil => simp [scanOnce, decodeChunks]
  | cons chunk chunks ih =>
      simp only [List.map_cons, List.cons_append, scanOnce, ih, decodeChunks, List.flatMap_cons,
        List.append_assoc]

theorem scanReply_eq : scanReply u chunks =
    some (readReply u (String.ofList (decodeChunks chunks))) := scanOnce_chunks []

theorem readReply_ok (h : includes (upperReply u chunks) " OK" = true) :
    scanReply u chunks = some .clean := by
  rw [scanReply_eq, readReply]
  exact congrArg some (if_pos h)

theorem readReply_found (hok : includes (upperReply u chunks) " OK" = false)
    (h : includes (upperReply u chunks) "FOUND" = true) :
    scanReply u chunks = some (.refused "clamd_infected") := by
  rw [scanReply_eq, readReply]
  exact congrArg some ((if_neg (Bool.eq_false_iff.mp hok)).trans (if_pos h))

theorem readReply_failure (hok : includes (upperReply u chunks) " OK" = false)
    (h : includes (upperReply u chunks) "FOUND" = false) :
    ∃ reason, scanReply u chunks = some (.refused reason) ∧ reason ≠ "clamd_infected" := by
  rw [scanReply_eq, readReply]
  unfold upperReply at hok h
  simp only [hok, h, Bool.false_eq_true, if_false]
  split_ifs
  · exact ⟨_, rfl, by decide⟩
  · refine ⟨_, rfl, fun heq => ?_⟩
    have hsixth := congrArg (fun s : String => s.toList[6]?) heq
    simp [String.toList_append] at hsixth

/-- ASCII text of the reply is searched in upper case. -/
theorem includes_of_reply {t : Bytes} {x y : Char} {text : List Char} (ht : Ascii t)
    (htext : asciiText t = x :: (text ++ [y])) (hx : isWhiteSpace x = false)
    (hy : isWhiteSpace y = false) (h : asciiText t <:+: replyOf chunks.flatten) :
    (asciiText t).map Char.toUpper <:+: (upperReply u chunks).toList := by
  have hchunks : asciiText t <:+: decodeChunks chunks :=
    infix_of_chunks ht (infix_of_decode ht (h.trans stripped_infix))
  have hline : asciiText t <:+: stripped isWhiteSpace (decodeChunks chunks) := by
    rw [htext] at hchunks ⊢
    exact infix_stripped hx hy hchunks
  have hupper : (asciiText t).flatMap u.map = (asciiText t).map Char.toUpper := by
    have hchar : ∀ c ∈ asciiText t, u.map c = [c.toUpper] := by
      intro c hc
      obtain ⟨b, hb, rfl⟩ := List.mem_map.mp hc
      exact u.ascii _ (by rw [toNat_char (ht b hb)]; exact ht b hb)
    rw [List.flatMap_congr hchar, List.map_eq_flatMap]
  have hwhole : (upperReply u chunks).toList =
      (stripped isWhiteSpace (decodeChunks chunks)).flatMap u.map := by
    simp [upperReply, UpperCase.apply, trimmed, stripped]
  obtain ⟨before, after, hsplit⟩ := hline
  rw [hwhole, ← hsplit, List.flatMap_append, List.flatMap_append, hupper]
  exact List.infix_append _ _ _

theorem includes_ok_of_clean (h : IsClean chunks.flatten) :
    includes (upperReply u chunks) " OK" = true := by
  have hreply : asciiText [115, 116, 114, 101, 97, 109, 58, 32, 79, 75] <:+:
      replyOf chunks.flatten := by
    rw [h]
    exact List.infix_refl _
  have htext : asciiText [115, 116, 114, 101, 97, 109, 58, 32, 79, 75] =
      's' :: ("tream: O".toList ++ ['K']) := by decide
  have hupper := includes_of_reply (u := u) (by simp [Ascii]) htext (by decide) (by decide) hreply
  exact decide_eq_true (List.IsInfix.trans ⟨"STREAM:".toList, [], by decide⟩ hupper)

theorem includes_found_of_found (h : IsFound chunks.flatten) :
    includes (upperReply u chunks) "FOUND" = true := by
  obtain ⟨signature, hsignature⟩ := h
  have hreply : asciiText [70, 79, 85, 78, 68] <:+: replyOf chunks.flatten := by
    rw [hsignature]
    exact ⟨"stream: ".toList ++ signature ++ [' '], [], by simp; rfl⟩
  have htext : asciiText [70, 79, 85, 78, 68] = 'F' :: ("OUN".toList ++ ['D']) := by decide
  have hupper := includes_of_reply (u := u) (by simp [Ascii]) htext (by decide) (by decide) hreply
  exact decide_eq_true hupper

/-- A reply cannot be both. -/
theorem not_clean_of_found {bytes : Bytes} (h : IsFound bytes) : ¬ IsClean bytes := by
  obtain ⟨signature, hsignature⟩ := h
  intro hclean
  have hlast := congrArg (fun text : List Char => text.reverse.head?)
    (hclean.symm.trans hsignature)
  simp at hlast

/-- A reply is read for what it is just when it is clean, or its upper-case text has no ` OK`
and, unless a signature is found, no `FOUND`. -/
theorem reply_read_iff (u : UpperCase) (chunks : List Bytes) : ReadAs u chunks ↔
    IsClean chunks.flatten ∨ (includes (upperReply u chunks) " OK" = false ∧
      (IsFound chunks.flatten ∨ includes (upperReply u chunks) "FOUND" = false)) := by
  constructor
  · intro h
    by_cases hclean : IsClean chunks.flatten
    · exact Or.inl hclean
    · have hok : includes (upperReply u chunks) " OK" = false := by
        rw [Bool.eq_false_iff]
        exact fun hincludes => hclean (h.clean.mp (readReply_ok hincludes))
      refine Or.inr ⟨hok, ?_⟩
      by_cases hfound : IsFound chunks.flatten
      · exact Or.inl hfound
      · obtain ⟨reason, hreason, hne⟩ := h.failure hclean hfound
        right
        rw [Bool.eq_false_iff]
        intro hincludes
        rw [readReply_found hok hincludes] at hreason
        exact hne (by simpa [ScanResult.refused] using hreason.symm)
  · rintro (hclean | ⟨hok, hrest⟩)
    · have hresult := readReply_ok (includes_ok_of_clean (u := u) hclean)
      exact ⟨iff_of_true hresult hclean, fun hfound => absurd hclean (not_clean_of_found hfound),
        fun hnot => absurd hclean hnot⟩
    · have hnot : ¬ IsClean chunks.flatten := by
        intro hclean
        rw [includes_ok_of_clean hclean] at hok
        cases hok
      refine ⟨iff_of_false (fun hresult => ?_) hnot,
        fun hfound => readReply_found hok (includes_found_of_found hfound),
        fun _ hnotFound => readReply_failure hok (hrest.resolve_left hnotFound)⟩
      cases hfound : includes (upperReply u chunks) "FOUND" with
      | true =>
          rw [readReply_found hok hfound] at hresult
          cases hresult
      | false =>
          obtain ⟨reason, hreason, -⟩ := readReply_failure hok hfound
          rw [hreason] at hresult
          cases hresult

/-- Upper case of ASCII. -/
def asciiUpper : UpperCase where
  map c := [c.toUpper]
  ascii _ _ := rfl

/-- `stream: X OK FOUND`, the reply for a signature `X OK`. -/
def okSignature : Bytes :=
  [115, 116, 114, 101, 97, 109, 58, 32, 88, 32, 79, 75, 32, 70, 79, 85, 78, 68]

/-- A signature with ` OK` in its name passes for clean. -/
theorem infected_reads_clean :
    scanReply asciiUpper [okSignature] = some .clean ∧ IsFound okSignature ∧
      ¬ ReadAs asciiUpper [okSignature] := by
  have hresult : scanReply asciiUpper [okSignature] = some .clean := by decide
  have hfound : IsFound okSignature := ⟨"X OK".toList, by decide⟩
  refine ⟨hresult, hfound, fun h => ?_⟩
  have hflatten : [okSignature].flatten = okSignature := by simp
  have hinfected := h.infected (by rwa [hflatten])
  rw [hresult] at hinfected
  cases hinfected

end OpenUnion.Storage
