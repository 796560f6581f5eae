import Mathlib.Data.List.TakeWhile

/-!
# Numbers in JSON text

A number is an optional minus, digits without a leading zero, an optional fraction and an optional
exponent.  The reader takes the longest one, and fails where a point or an exponent is not followed
by digits.

* `readLiteral_sound`: what is read is the text of the number in front of the rest.
* `readLiteral_text`: the text of every number is read back, before anything that cannot continue
  a number.
-/

namespace OpenUnion.JsonText

/-- One digit or more. -/
structure Digits where
  chars : List Char
  digits : ∀ c ∈ chars, c.isDigit = true
  nonempty : chars ≠ []

/-- The sign of an exponent. -/
inductive Sign where
  | bare | plus | minus

/-- The text of a sign. -/
def Sign.text : Sign → List Char
  | .bare => []
  | .plus => ['+']
  | .minus => ['-']

/-- An exponent. -/
structure Exponent where
  capital : Bool
  sign : Sign
  digits : Digits

/-- The text of an exponent. -/
def Exponent.text (e : Exponent) : List Char :=
  (if e.capital then 'E' else 'e') :: (e.sign.text ++ e.digits.chars)

/-- A number of JSON text. -/
structure Literal where
  negative : Bool
  whole : Digits
  plain : whole.chars = ['0'] ∨ whole.chars.head? ≠ some '0'
  fraction : Option Digits
  exponent : Option Exponent

/-- The text of a fraction. -/
def fractionText : Option Digits → List Char
  | none => []
  | some f => '.' :: f.chars

/-- The text of an exponent, if there is one. -/
def exponentText : Option Exponent → List Char
  | none => []
  | some e => e.text

/-- The text of a number. -/
def Literal.text (l : Literal) : List Char :=
  (if l.negative then ['-'] else []) ++
    (l.whole.chars ++ (fractionText l.fraction ++ exponentText l.exponent))

/-! ## Reading -/

/-- Read digits, as many as there are. -/
def readDigits (cs : List Char) : Option (Digits × List Char) :=
  if h : cs.takeWhile Char.isDigit ≠ [] then
    some (⟨cs.takeWhile Char.isDigit, fun _ hc => List.mem_takeWhile_imp hc, h⟩,
      cs.dropWhile Char.isDigit)
  else none

/-- Read a fraction. -/
def readFraction : List Char → Option (Option Digits × List Char)
  | '.' :: rest => (readDigits rest).map fun r => (some r.1, r.2)
  | rest => some (none, rest)

/-- Read the sign of an exponent. -/
def readSign : List Char → Sign × List Char
  | '+' :: rest => (.plus, rest)
  | '-' :: rest => (.minus, rest)
  | rest => (.bare, rest)

/-- Read an exponent behind its letter. -/
def readPower (capital : Bool) (cs : List Char) : Option (Option Exponent × List Char) :=
  (readDigits (readSign cs).2).map fun r => (some ⟨capital, (readSign cs).1, r.1⟩, r.2)

/-- Read an exponent. -/
def readExponent : List Char → Option (Option Exponent × List Char)
  | 'e' :: rest => readPower false rest
  | 'E' :: rest => readPower true rest
  | rest => some (none, rest)

/-- Read a number without its sign. -/
def readUnsigned (negative : Bool) (cs : List Char) : Option (Literal × List Char) :=
  (readDigits cs).bind fun w =>
    if h : w.1.chars = ['0'] ∨ w.1.chars.head? ≠ some '0' then
      (readFraction w.2).bind fun f =>
        (readExponent f.2).map fun e => (⟨negative, w.1, h, f.1, e.1⟩, e.2)
    else none

/-- Read a number. -/
def readLiteral : List Char → Option (Literal × List Char)
  | '-' :: rest => readUnsigned true rest
  | rest => readUnsigned false rest

/-- A character that could continue a number. -/
def continuesNumber (c : Char) : Bool := c.isDigit || c = '.' || c = 'e' || c = 'E'

/-- The text does not continue a number. -/
def Ends (rest : List Char) : Prop := ∀ c ∈ rest.head?, continuesNumber c = false

variable {cs rest : List Char} {l : Literal}

/-! ## What is read is in the text -/

theorem readDigits_sound {d : Digits} (h : readDigits cs = some (d, rest)) :
    cs = d.chars ++ rest := by
  unfold readDigits at h
  split_ifs at h
  simp only [Option.some.injEq, Prod.mk.injEq] at h
  obtain ⟨rfl, rfl⟩ := h
  exact List.takeWhile_append_dropWhile.symm

theorem readFraction_sound {f : Option Digits} (h : readFraction cs = some (f, rest)) :
    cs = fractionText f ++ rest := by
  unfold readFraction at h
  split at h
  · simp only [Option.map_eq_some_iff, Prod.mk.injEq] at h
    obtain ⟨⟨d, rest'⟩, hd, rfl, rfl⟩ := h
    rw [readDigits_sound hd]
    rfl
  · simp only [Option.some.injEq, Prod.mk.injEq] at h
    obtain ⟨rfl, rfl⟩ := h
    rfl

theorem readSign_sound (cs : List Char) : cs = (readSign cs).1.text ++ (readSign cs).2 := by
  unfold readSign
  split <;> rfl

theorem readPower_sound {capital : Bool} {e : Option Exponent}
    (h : readPower capital cs = some (e, rest)) :
    (if capital then 'E' else 'e') :: cs = exponentText e ++ rest := by
  simp only [readPower, Option.map_eq_some_iff, Prod.mk.injEq] at h
  obtain ⟨⟨d, rest'⟩, hd, rfl, rfl⟩ := h
  have hsign := readSign_sound cs
  rw [readDigits_sound hd] at hsign
  simp only [exponentText, Exponent.text, List.cons_append, List.append_assoc]
  rw [← hsign]

theorem readExponent_sound {e : Option Exponent} (h : readExponent cs = some (e, rest)) :
    cs = exponentText e ++ rest := by
  unfold readExponent at h
  split at h
  · exact readPower_sound h
  · exact readPower_sound h
  · simp only [Option.some.injEq, Prod.mk.injEq] at h
    obtain ⟨rfl, rfl⟩ := h
    rfl

theorem readUnsigned_sound {negative : Bool} (h : readUnsigned negative cs = some (l, rest)) :
    (if negative then ['-'] else []) ++ cs = l.text ++ rest := by
  simp only [readUnsigned, Option.bind_eq_some_iff] at h
  obtain ⟨⟨w, r₁⟩, hw, h⟩ := h
  split_ifs at h
  simp only [Option.bind_eq_some_iff, Option.map_eq_some_iff, Prod.mk.injEq] at h
  obtain ⟨⟨f, r₂⟩, hf, ⟨e, r₃⟩, he, rfl, rfl⟩ := h
  have hfraction : r₁ = fractionText f ++ (exponentText e ++ r₃) := by
    rw [readFraction_sound hf]
    exact congrArg _ (readExponent_sound he)
  rw [readDigits_sound hw, hfraction]
  simp only [Literal.text, List.append_assoc]

/-- What is read is the text of the number in front of the rest. -/
theorem readLiteral_sound (h : readLiteral cs = some (l, rest)) : cs = l.text ++ rest := by
  unfold readLiteral at h
  split at h
  · exact readUnsigned_sound h
  · exact readUnsigned_sound h

/-! ## The text is read -/

/-- What does not continue a number starts with no digit. -/
theorem Ends.not_digit (h : Ends rest) : ∀ c ∈ rest.head?, c.isDigit = false := by
  intro c hc
  have hends := h c hc
  simp only [continuesNumber, Bool.or_eq_false_iff] at hends
  exact hends.1.1.1

/-- Digits are read up to a character that is none. -/
theorem readDigits_chars (d : Digits) (h : ∀ c ∈ rest.head?, c.isDigit = false) :
    readDigits (d.chars ++ rest) = some (d, rest) := by
  have hrest : rest.takeWhile Char.isDigit = [] ∧ rest.dropWhile Char.isDigit = rest := by
    cases rest with
    | nil => exact ⟨rfl, rfl⟩
    | cons c rest => simp [h c rfl]
  have htake : (d.chars ++ rest).takeWhile Char.isDigit = d.chars := by
    rw [List.takeWhile_append_of_pos d.digits, hrest.1, List.append_nil]
  have hdrop : (d.chars ++ rest).dropWhile Char.isDigit = rest := by
    rw [List.dropWhile_append_of_pos d.digits, hrest.2]
  obtain ⟨chars, digits, nonempty⟩ := d
  simp only at htake hdrop
  unfold readDigits
  simp only [htake, hdrop, dif_pos nonempty]

/-- What stands before an end is no fraction. -/
theorem readFraction_none (h : ∀ c ∈ rest.head?, c ≠ '.') :
    readFraction rest = some (none, rest) := by
  unfold readFraction
  split
  · exact absurd rfl (h '.' rfl)
  · rfl

theorem readExponent_none (h : ∀ c ∈ rest.head?, c ≠ 'e' ∧ c ≠ 'E') :
    readExponent rest = some (none, rest) := by
  unfold readExponent
  split
  · exact absurd rfl (h 'e' rfl).1
  · exact absurd rfl (h 'E' rfl).2
  · rfl

theorem readSign_text (s : Sign) (d : Digits) :
    readSign (s.text ++ (d.chars ++ rest)) = (s, d.chars ++ rest) := by
  cases s with
  | plus => rfl
  | minus => rfl
  | bare =>
      obtain ⟨chars, digits, nonempty⟩ := d
      cases chars with
      | nil => exact absurd rfl nonempty
      | cons c chars =>
          have hc := digits c List.mem_cons_self
          simp only [Sign.text, List.nil_append, List.cons_append]
          unfold readSign
          split
          · next heq =>
              obtain ⟨rfl, -⟩ := List.cons.inj heq
              exact absurd hc (by decide)
          · next heq =>
              obtain ⟨rfl, -⟩ := List.cons.inj heq
              exact absurd hc (by decide)
          · rfl

theorem readPower_text (e : Exponent) (h : Ends rest) :
    readPower e.capital (e.sign.text ++ (e.digits.chars ++ rest)) = some (some e, rest) := by
  rw [readPower, readSign_text, readDigits_chars e.digits h.not_digit]
  rfl

/-- An exponent is read before an end. -/
theorem readExponent_text (e : Option Exponent) (h : Ends rest) :
    readExponent (exponentText e ++ rest) = some (e, rest) := by
  cases e with
  | none =>
      refine readExponent_none fun c hc => ?_
      have hends := h c hc
      simp only [continuesNumber, Bool.or_eq_false_iff, decide_eq_false_iff_not] at hends
      exact ⟨hends.1.2, hends.2⟩
  | some e =>
      have hpower := readPower_text e h
      simp only [exponentText, Exponent.text, List.cons_append, List.append_assoc]
      cases hcapital : e.capital with
      | true =>
          rw [hcapital] at hpower
          exact hpower
      | false =>
          rw [hcapital] at hpower
          exact hpower

/-- No digit starts an exponent or an end. -/
theorem exponent_head (e : Option Exponent) (h : Ends rest) :
    ∀ c ∈ (exponentText e ++ rest).head?, c.isDigit = false ∧ c ≠ '.' := by
  cases e with
  | none =>
      intro c hc
      have hends := h c hc
      simp only [continuesNumber, Bool.or_eq_false_iff, decide_eq_false_iff_not] at hends
      exact ⟨hends.1.1.1, hends.1.1.2⟩
  | some e =>
      intro c hc
      obtain rfl : (if e.capital then 'E' else 'e') = c := by
        simpa [exponentText, Exponent.text] using hc
      cases e.capital <;> decide

/-- A fraction is read before an exponent. -/
theorem readFraction_text (f : Option Digits) (h : ∀ c ∈ rest.head?, c.isDigit = false ∧ c ≠ '.') :
    readFraction (fractionText f ++ rest) = some (f, rest) := by
  cases f with
  | none => exact readFraction_none fun c hc => (h c hc).2
  | some f =>
      have hdigits := readDigits_chars f fun c hc => (h c hc).1
      simp only [fractionText, List.cons_append, readFraction, hdigits, Option.map_some]

/-- No digit starts a fraction, an exponent or an end. -/
theorem fraction_head (f : Option Digits) (h : ∀ c ∈ rest.head?, c.isDigit = false) :
    ∀ c ∈ (fractionText f ++ rest).head?, c.isDigit = false := by
  cases f with
  | none => exact h
  | some f =>
      intro c hc
      obtain rfl : '.' = c := by simpa [fractionText] using hc
      decide

theorem readUnsigned_text (l : Literal) (h : Ends rest) :
    readUnsigned l.negative
        (l.whole.chars ++ (fractionText l.fraction ++ (exponentText l.exponent ++ rest))) =
      some (l, rest) := by
  have hexponent := exponent_head l.exponent h
  have hwhole := readDigits_chars l.whole
    (fraction_head l.fraction fun c hc => (hexponent c hc).1)
  rw [readUnsigned, hwhole, Option.bind_some, dif_pos l.plain,
    readFraction_text l.fraction hexponent, Option.bind_some, readExponent_text l.exponent h]
  rfl

/-- The text of a number is read back. -/
theorem readLiteral_text (l : Literal) (h : Ends rest) :
    readLiteral (l.text ++ rest) = some (l, rest) := by
  have hunsigned := readUnsigned_text l h
  cases hnegative : l.negative with
  | true =>
      rw [hnegative] at hunsigned
      simp only [Literal.text, hnegative, if_true, List.append_assoc, List.cons_append,
        List.nil_append]
      exact hunsigned
  | false =>
      rw [hnegative] at hunsigned
      simp only [Literal.text, hnegative, List.append_assoc]
      obtain ⟨negative, ⟨chars, digits, nonempty⟩, plain, fraction, exponent⟩ := l
      cases chars with
      | nil => exact absurd rfl nonempty
      | cons c chars =>
          have hc := digits c List.mem_cons_self
          unfold readLiteral
          split
          · next heq =>
              obtain ⟨rfl, -⟩ := List.cons.inj heq
              exact absurd hc (by decide)
          · exact hunsigned

/-- A number starts with a digit or a minus. -/
theorem Literal.text_head (l : Literal) : ∃ c rest, l.text = c :: rest ∧
    (c.isDigit = true ∨ c = '-') := by
  obtain ⟨negative, ⟨chars, digits, nonempty⟩, plain, fraction, exponent⟩ := l
  cases negative with
  | true => exact ⟨'-', _, rfl, .inr rfl⟩
  | false =>
      cases chars with
      | nil => exact absurd rfl nonempty
      | cons c chars => exact ⟨c, _, rfl, .inl (digits c List.mem_cons_self)⟩

end OpenUnion.JsonText
