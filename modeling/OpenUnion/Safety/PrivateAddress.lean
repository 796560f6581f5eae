import OpenUnion.Code.PrivateAddress

/-!
# The filter on addresses and the filter on texts

The ranges that the filter names are ranges of addresses.  It blocks more IPv4 addresses than
they contain, since it looks at two octets of blocks that are three octets wide, and it takes an
IPv6 address for special only in the spelling that it expects.

* `ipv4_iff`: the filter on the octets.
* `ipv6_iff`: the filter on an IPv6 text.
* `address_filter_iff`: the filter decides whether an address is special just if its text is
  spelled so.
-/

namespace OpenUnion

open Text
open Abi (hexDigits ofBigEndian)

/-! ## Ranges -/

/-- The addresses that agree with `base` except for the last `free` bits. -/
def Block (base free n : ℕ) : Prop := n / 2 ^ free = base / 2 ^ free

instance (base free n : ℕ) : Decidable (Block base free n) := inferInstanceAs (Decidable (_ = _))

/-- The IPv4 ranges that the code names. -/
def SpecialIpv4 (n : ℕ) : Prop :=
  Block (quad 0 0 0 0) 24 n ∨ Block (quad 10 0 0 0) 24 n ∨ Block (quad 127 0 0 0) 24 n ∨
  Block (quad 169 254 0 0) 16 n ∨ Block (quad 172 16 0 0) 20 n ∨ Block (quad 192 168 0 0) 16 n ∨
  Block (quad 192 0 0 0) 8 n ∨ Block (quad 192 0 2 0) 8 n ∨ Block (quad 192 88 99 0) 8 n ∨
  Block (quad 198 18 0 0) 17 n ∨ Block (quad 198 51 100 0) 8 n ∨ Block (quad 203 0 113 0) 8 n ∨
  quad 224 0 0 0 ≤ n

/-- The IPv6 ranges that the code names: `::`, `::1`, `fc00::/7`, `fe80::/10`, and the addresses
`::ffff:0:0/96` of special IPv4 addresses. -/
def SpecialIpv6 (n : ℕ) : Prop :=
  n = 0 ∨ n = 1 ∨ Block (0xfc00 * 2 ^ 112) 121 n ∨ Block (0xfe80 * 2 ^ 112) 118 n ∨
    n / 2 ^ 32 = 0xffff ∧ SpecialIpv4 (n % 2 ^ 32)

/-- The special addresses. -/
def Special : Address → Prop
  | .v4 n => SpecialIpv4 n
  | .v6 n => SpecialIpv6 n

/-- The IPv4 addresses outside the ranges that are blocked with them: the rest of `192.0/16`,
`192.88/16`, `198.51/16` and `203.0/16`, and all of `192.2/16`. -/
def OverBlocked (n : ℕ) : Prop :=
  Block (quad 192 0 0 0) 16 n ∧ ¬ Block (quad 192 0 0 0) 8 n ∧ ¬ Block (quad 192 0 2 0) 8 n ∨
  Block (quad 192 88 0 0) 16 n ∧ ¬ Block (quad 192 88 99 0) 8 n ∨
  Block (quad 198 51 0 0) 16 n ∧ ¬ Block (quad 198 51 100 0) 8 n ∨
  Block (quad 203 0 0 0) 16 n ∧ ¬ Block (quad 203 0 113 0) 8 n ∨
  Block (quad 192 2 0 0) 16 n

/-- The first group is a short one that begins like the local addresses. -/
def ShortGroup (lower : List Char) : Prop :=
  (firstGroup lower).length < 4 ∧ ∃ p ∈ localPrefixes, p <+: firstGroup lower

/-- `::ffff:` and an IPv4 address. -/
def Literal (lower : List Char) : Prop :=
  ∃ ip, (parseIPv4 ip).isSome ∧ lower = "::ffff:".toList ++ ip

/-- The text is spelled as the filter expects it; for an IPv4 text there is one spelling, but the
address must not be blocked with a block it does not belong to. -/
def SpelledPlainly (lower : List Char) : Address → Prop
  | .v4 n => ¬ OverBlocked n
  | .v6 n =>
      ¬ ShortGroup lower ∧ (n = 0 → lower = "::".toList) ∧ (n = 1 → lower = "::1".toList) ∧
        (n / 2 ^ 32 = 0xffff →
          (Literal lower → ¬ OverBlocked (n % 2 ^ 32)) ∧
            (¬ Literal lower → ¬ SpecialIpv4 (n % 2 ^ 32)))

/-! ## IPv4 -/

variable {s : List Char} {a b c d n : ℕ}

/-- A block of all addresses with one first octet. -/
theorem block_one {x : ℕ} (hb : b < 256) (hc : c < 256) (hd : d < 256) :
    Block (quad x 0 0 0) 24 (quad a b c d) ↔ a = x := by
  unfold Block quad
  omega

/-- A block of all addresses with two first octets. -/
theorem block_two {x y : ℕ} (hb : b < 256) (hc : c < 256) (hd : d < 256) (hy : y < 256) :
    Block (quad x y 0 0) 16 (quad a b c d) ↔ a = x ∧ b = y := by
  unfold Block quad
  omega

/-- A block of all addresses with three first octets. -/
theorem block_three {x y z : ℕ} (hb : b < 256) (hc : c < 256) (hd : d < 256) (hy : y < 256)
    (hz : z < 256) : Block (quad x y z 0) 8 (quad a b c d) ↔ a = x ∧ b = y ∧ c = z := by
  unfold Block quad
  omega

/-- `172.16/12`. -/
theorem block_sixteen (hb : b < 256) (hc : c < 256) (hd : d < 256) :
    Block (quad 172 16 0 0) 20 (quad a b c d) ↔ a = 172 ∧ 16 ≤ b ∧ b ≤ 31 := by
  unfold Block quad
  omega

/-- `198.18/15`. -/
theorem block_eighteen (hb : b < 256) (hc : c < 256) (hd : d < 256) :
    Block (quad 198 18 0 0) 17 (quad a b c d) ↔ a = 198 ∧ (b = 18 ∨ b = 19) := by
  unfold Block quad
  omega

/-- The special addresses by their octets. -/
theorem special_iff (hb : b < 256) (hc : c < 256) (hd : d < 256) :
    SpecialIpv4 (quad a b c d) ↔
      a = 0 ∨ a = 10 ∨ a = 127 ∨ a = 169 ∧ b = 254 ∨ a = 172 ∧ 16 ≤ b ∧ b ≤ 31 ∨
        a = 192 ∧ b = 168 ∨ a = 192 ∧ b = 0 ∧ c = 0 ∨ a = 192 ∧ b = 0 ∧ c = 2 ∨
        a = 192 ∧ b = 88 ∧ c = 99 ∨ a = 198 ∧ (b = 18 ∨ b = 19) ∨ a = 198 ∧ b = 51 ∧ c = 100 ∨
        a = 203 ∧ b = 0 ∧ c = 113 ∨ 224 ≤ a := by
  have h224 : quad 224 0 0 0 ≤ quad a b c d ↔ 224 ≤ a := by
    unfold quad
    omega
  simp only [SpecialIpv4, h224, block_one hb hc hd, block_sixteen hb hc hd, block_eighteen hb hc hd,
    block_two hb hc hd (by decide : 254 < 256), block_two hb hc hd (by decide : 168 < 256),
    block_three hb hc hd (by decide : 0 < 256) (by decide : 0 < 256),
    block_three hb hc hd (by decide : 0 < 256) (by decide : 2 < 256),
    block_three hb hc hd (by decide : 88 < 256) (by decide : 99 < 256),
    block_three hb hc hd (by decide : 51 < 256) (by decide : 100 < 256),
    block_three hb hc hd (by decide : 0 < 256) (by decide : 113 < 256)]

/-- What is blocked beyond them, by octets. -/
theorem overBlocked_iff (hb : b < 256) (hc : c < 256) (hd : d < 256) :
    OverBlocked (quad a b c d) ↔
      a = 192 ∧ b = 0 ∧ c ≠ 0 ∧ c ≠ 2 ∨ a = 192 ∧ b = 88 ∧ c ≠ 99 ∨
        a = 198 ∧ b = 51 ∧ c ≠ 100 ∨ a = 203 ∧ b = 0 ∧ c ≠ 113 ∨ a = 192 ∧ b = 2 := by
  simp only [OverBlocked, 
    block_two hb hc hd (by decide : 0 < 256), block_two hb hc hd (by decide : 88 < 256),
    block_two hb hc hd (by decide : 51 < 256), block_two hb hc hd (by decide : 2 < 256),
    block_three hb hc hd (by decide : 0 < 256) (by decide : 0 < 256),
    block_three hb hc hd (by decide : 0 < 256) (by decide : 2 < 256),
    block_three hb hc hd (by decide : 88 < 256) (by decide : 99 < 256),
    block_three hb hc hd (by decide : 51 < 256) (by decide : 100 < 256),
    block_three hb hc hd (by decide : 0 < 256) (by decide : 113 < 256)]
  grind

/-- The filter on the octets. -/
theorem octets_iff (hb : b < 256) (hc : c < 256) (hd : d < 256) :
    (a = 0 ∨ a = 10 ∨ a = 127 ∨ a = 169 ∧ b = 254 ∨ a = 172 ∧ 16 ≤ b ∧ b ≤ 31 ∨
      a = 192 ∧ b = 168 ∨ a = 192 ∧ b = 0 ∨ a = 192 ∧ b = 88 ∨ a = 198 ∧ (b = 18 ∨ b = 19) ∨
      a = 192 ∧ b = 2 ∨ a = 198 ∧ b = 51 ∨ a = 203 ∧ b = 0 ∨ 224 ≤ a) ↔
      SpecialIpv4 (quad a b c d) ∨ OverBlocked (quad a b c d) := by
  rw [special_iff hb hc hd, overBlocked_iff hb hc hd]
  constructor
  · rintro (rfl | rfl | rfl | ⟨rfl, rfl⟩ | ⟨rfl, hlow⟩ | ⟨rfl, rfl⟩ | ⟨rfl, rfl⟩ | ⟨rfl, rfl⟩ |
      ⟨rfl, hlow⟩ | ⟨rfl, rfl⟩ | ⟨rfl, rfl⟩ | ⟨rfl, rfl⟩ | hhigh) <;> simp [*] <;> omega
  · rintro ((rfl | rfl | rfl | ⟨rfl, rfl⟩ | ⟨rfl, hlow⟩ | ⟨rfl, rfl⟩ | ⟨rfl, rfl, -⟩ |
      ⟨rfl, rfl, -⟩ | ⟨rfl, rfl, -⟩ | ⟨rfl, hlow⟩ | ⟨rfl, rfl, -⟩ | ⟨rfl, rfl, -⟩ | hhigh) |
      (⟨rfl, rfl, -⟩ | ⟨rfl, rfl, -⟩ | ⟨rfl, rfl, -⟩ | ⟨rfl, rfl, -⟩ | ⟨rfl, rfl⟩)) <;> simp [*]

theorem not_special_of_overBlocked (hb : b < 256) (hc : c < 256) (hd : d < 256)
    (h : OverBlocked (quad a b c d)) : ¬ SpecialIpv4 (quad a b c d) := by
  rw [overBlocked_iff hb hc hd] at h
  rw [special_iff hb hc hd]
  rcases h with ⟨rfl, rfl, hc⟩ | ⟨rfl, rfl, hc⟩ | ⟨rfl, rfl, hc⟩ | ⟨rfl, rfl, hc⟩ | ⟨rfl, rfl⟩ <;>
    simp [hc]

/-- The filter on an IPv4 text. -/
theorem ipv4_iff (h : parseIPv4 s = some n) :
    isPrivateOrSpecialIpv4 s = true ↔ SpecialIpv4 n ∨ OverBlocked n := by
  obtain ⟨a, b, c, d, ⟨ha, hb, hc, hd⟩, rfl, hparts⟩ := parseIPv4_split h
  rw [← octets_iff hb hc hd, isPrivateOrSpecialIpv4, hparts]
  have hsmall : ¬ (255 < a ∨ 255 < b ∨ 255 < c ∨ 255 < d) := by omega
  simp only [if_neg hsmall, Bool.if_true_left, Bool.or_eq_true, decide_eq_true_eq]

theorem overBlocked_not_special (h : parseIPv4 s = some n) (hover : OverBlocked n) :
    ¬ SpecialIpv4 n := by
  obtain ⟨a, b, c, d, ⟨-, hb, hc, hd⟩, rfl, -⟩ := parseIPv4_split h
  exact not_special_of_overBlocked hb hc hd hover

/-! ## IPv6 -/

variable {g lower p : List Char} {ds : List ℕ} {v : ℕ}

/-- The digits of the beginnings of local addresses. -/
def localDigits : List (List ℕ) :=
  [[15, 12], [15, 13], [15, 14, 8], [15, 14, 9], [15, 14, 10], [15, 14, 11]]

/-- The first groups of `fc00::/7` and `fe80::/10`. -/
def LocalGroup (v : ℕ) : Prop := v / 2 ^ 9 = 0x7e ∨ v / 2 ^ 6 = 0x3fa

/-- How a group begins, by its digits. -/
theorem localPrefix_iff (hlower : g.map Char.toLower = g) (hds : hexDigits g = some ds) :
    (∃ p ∈ localPrefixes, p <+: g) ↔ ∃ q ∈ localDigits, q <+: ds := by
  constructor
  · rintro ⟨p, hp, hbegin⟩
    have htake : hexDigits p = some (ds.take p.length) := by
      rw [← Abi.hexDigits_take hds p.length, List.prefix_iff_eq_take.mp hbegin, List.length_take]
      congr 2
      have hle := hbegin.length_le
      omega
    have hdigits : ∀ p ∈ localPrefixes, ∃ q ∈ localDigits, hexDigits p = some q := by
      decide
    obtain ⟨q, hq, hpq⟩ := hdigits p hp
    refine ⟨q, hq, ?_⟩
    rw [htake] at hpq
    exact Option.some.inj hpq ▸ List.take_prefix _ _
  · rintro ⟨q, hq, hbegin⟩
    have hchars : ∀ q ∈ localDigits, q.map Nat.digitChar ∈ localPrefixes := by decide
    refine ⟨q.map Nat.digitChar, hchars q hq, ?_⟩
    rw [digitChars_of_hexDigits hlower hds]
    exact hbegin.map Nat.digitChar

/-- A group of four digits begins so just if it is one of a local address. -/
theorem four_digits (hlen : ds.length = 4) (hlt : ∀ d ∈ ds, d < 16) :
    (∃ q ∈ localDigits, q <+: ds) ↔ LocalGroup (ofBigEndian 16 ds) := by
  obtain ⟨w, x, y, z, rfl⟩ := List.length_eq_four.mp hlen
  have hvalue : ofBigEndian 16 [w, x, y, z] = ((w * 16 + x) * 16 + y) * 16 + z := by
    simp [ofBigEndian, Nat.ofDigits]
    omega
  simp only [List.forall_mem_cons] at hlt
  obtain ⟨hw, hx, hy, hz, -⟩ := hlt
  rw [hvalue]
  simp [localDigits, LocalGroup, List.cons_prefix_cons]
  omega

/-- A shorter group is none of a local address. -/
theorem few_digits (hlen : ds.length < 4) (hlt : ∀ d ∈ ds, d < 16) :
    ¬ LocalGroup (ofBigEndian 16 ds) := by
  have hvalue : ofBigEndian 16 ds < 16 ^ 3 :=
    lt_of_lt_of_le (Abi.ofBigEndian_lt (by decide) hlt)
      (Nat.pow_le_pow_right (by decide) (by omega))
  unfold LocalGroup
  omega

/-- A group that begins so is not zero. -/
theorem begins_pos (h : ∃ q ∈ localDigits, q <+: ds) : 0 < ofBigEndian 16 ds := by
  obtain ⟨q, hq, hbegin⟩ := h
  have hfirst : ∀ q ∈ localDigits, q.head? = some 15 := by decide
  obtain ⟨more, rfl⟩ := hbegin
  obtain ⟨rest, rfl⟩ := List.head?_eq_some_iff.mp (hfirst q hq)
  have hsplit := Abi.ofBigEndian_append 16 [15] (rest ++ more)
  rw [Abi.ofBigEndian_singleton] at hsplit
  have hpow : 0 < 16 ^ (rest ++ more).length := Nat.pow_pos (by decide)
  rw [List.cons_append, ← List.singleton_append, hsplit]
  omega

/-- A beginning of the text is one of its first group. -/
theorem prefix_firstGroup {rest : List Char} (hp : ':' ∉ p) :
    p <+: g ++ ':' :: rest ↔ p <+: g := by
  constructor
  · intro h
    rcases List.prefix_or_prefix_of_prefix h (List.prefix_append g (':' :: rest)) with hle | hle
    · exact hle
    · obtain ⟨t, rfl⟩ := hle
      rw [List.prefix_append_right_inj] at h
      cases t with
      | nil => rw [List.append_nil]
      | cons c t =>
          obtain rfl := (List.cons_prefix_cons.mp h).1
          exact absurd (List.mem_append_right g List.mem_cons_self) hp
  · exact fun h => h.trans (List.prefix_append _ _)

/-- The text of the first group begins like a local address. -/
def Begins (lower : List Char) : Prop := ∃ p ∈ localPrefixes, p <+: firstGroup lower

/-- The filter looks at the first group alone. -/
theorem begins_iff (h : parseIPv6 lower = some n) :
    (localPrefixes.any fun p => decide (p <+: lower)) = true ↔ Begins lower := by
  obtain ⟨rest, hlower, -⟩ := groups_head h
  have hcolon : ∀ p ∈ localPrefixes, ':' ∉ p := by decide
  rw [List.any_eq_true]
  refine exists_congr fun p => and_congr_right fun hp => ?_
  rw [decide_eq_true_eq, hlower, prefix_firstGroup (hcolon p hp), ← hlower]

/-- What the text of the first group says about its number. -/
theorem head_cases (hlower : lower.map Char.toLower = lower) (h : parseIPv6 lower = some n) :
    ¬ Begins lower ∧ ¬ LocalGroup (n / 2 ^ 112) ∨
      Begins lower ∧ ¬ ShortGroup lower ∧ LocalGroup (n / 2 ^ 112) ∨
      ShortGroup lower ∧ ¬ LocalGroup (n / 2 ^ 112) ∧ 0 < n / 2 ^ 112 := by
  obtain ⟨rest, hsplit, hgroup⟩ := groups_head h
  rcases hgroup with ⟨hempty, hzero⟩ | hgroup
  · have hnot : ¬ LocalGroup 0 := by
      unfold LocalGroup
      decide
    refine .inl ⟨?_, hzero ▸ hnot⟩
    have hnone : ∀ p ∈ localPrefixes, ¬ p <+: [] := by decide
    rintro ⟨p, hp, hbegin⟩
    exact hnone p hp (hempty ▸ hbegin)
  · unfold hexGroup at hgroup
    split_ifs at hgroup with hlen
    obtain ⟨ds, hds, hvalue⟩ := Option.map_eq_some_iff.mp hgroup
    have hlt := Abi.hexDigits_lt hds
    have hcount := Abi.hexDigits_length hds
    have hlow : (firstGroup lower).map Char.toLower = firstGroup lower := by
      rw [hsplit, List.map_append] at hlower
      exact (List.append_inj hlower (by rw [List.length_map])).1
    have hiff := localPrefix_iff hlow hds
    rw [← hvalue]
    by_cases hbegins : Begins lower
    · have hdigits := hiff.mp hbegins
      rcases Nat.lt_or_eq_of_le hlen.2 with hshort | hfour
      · exact .inr (.inr ⟨⟨hshort, hbegins⟩, few_digits (by omega) hlt, begins_pos hdigits⟩)
      · have hnot : ¬ ShortGroup lower := fun hs => absurd hs.1 (by omega)
        exact .inr (.inl ⟨hbegins, hnot, (four_digits (by omega) hlt).mp hdigits⟩)
    · have hdigits := hiff.not.mp hbegins
      rcases Nat.lt_or_eq_of_le hlen.2 with hshort | hfour
      · exact .inl ⟨hbegins, few_digits (by omega) hlt⟩
      · exact .inl ⟨hbegins, (four_digits (by omega) hlt).not.mp hdigits⟩

/-- The local ranges by the first group. -/
theorem localGroup_iff : LocalGroup (n / 2 ^ 112) ↔
    Block (0xfc00 * 2 ^ 112) 121 n ∨ Block (0xfe80 * 2 ^ 112) 118 n := by
  unfold LocalGroup Block
  rw [Nat.div_div_eq_div_mul, Nat.div_div_eq_div_mul]
  norm_num

/-- What the pattern of the filter matches. -/
theorem mappedPart_some {ip : List Char} (h : mappedPart lower = some ip) :
    lower = "::ffff:".toList ++ ip ∧ DottedDigits ip := by
  unfold mappedPart at h
  split_ifs at h with hbegin
  simp only at h
  split_ifs at h with hparts
  obtain rfl := Option.some.inj h
  obtain ⟨rest, rfl⟩ := hbegin
  have hdrop : ("::ffff:".toList ++ rest).drop 7 = rest := List.drop_left' rfl
  rw [hdrop] at hparts ⊢
  exact ⟨rfl, hparts.1, List.all_eq_true.mp hparts.2⟩

/-- It matches the usual texts. -/
theorem mappedPart_of_literal {ip : List Char} {m : ℕ} (h : parseIPv4 ip = some m) :
    mappedPart ("::ffff:".toList ++ ip) = some ip := by
  obtain ⟨a, b, c, d, -, -, hparts⟩ := parseIPv4_split h
  have hdrop : ("::ffff:".toList ++ ip).drop 7 = ip := List.drop_left' rfl
  have hlen : (ip.splitOn '.').length = 4 := by
    rw [← List.length_map (f := decimalValue), hparts]
    rfl
  have hall : (ip.splitOn '.').all (fun p => (decimalValue p).isSome) = true := by
    have hmap := List.all_map (l := ip.splitOn '.') (f := decimalValue) (p := Option.isSome)
    rw [hparts] at hmap
    exact hmap.symm
  rw [mappedPart, if_pos (List.prefix_append _ _)]
  simp only [hdrop, hlen, hall, and_self, if_true]

/-- The special addresses apart from the local ones. -/
def SpecialLow (n : ℕ) : Prop :=
  n = 0 ∨ n = 1 ∨ n / 2 ^ 32 = 0xffff ∧ SpecialIpv4 (n % 2 ^ 32)

theorem specialIpv6_iff : SpecialIpv6 n ↔ LocalGroup (n / 2 ^ 112) ∨ SpecialLow n := by
  rw [localGroup_iff, SpecialIpv6, SpecialLow]
  tauto

/-- The special addresses apart from the local ones begin with a group of zeros. -/
theorem SpecialLow.head (h : SpecialLow n) : n / 2 ^ 112 = 0 := by
  rcases h with rfl | rfl | ⟨h, -⟩
  · decide
  · decide
  · omega

theorem not_localGroup_zero : ¬ LocalGroup 0 := by
  unfold LocalGroup
  decide

/-- The two texts that the filter knows by heart. -/
theorem ipv6_literal (hliteral : lower = "::".toList ∨ lower = "::1".toList)
    (h : parseIPv6 lower = some n) : SpecialLow n ∧ SpelledPlainly lower (.v6 n) := by
  have hnone : ∀ p ∈ localPrefixes, ¬ p <+: [] := by decide
  rcases hliteral with rfl | rfl
  · have hzero : parseIPv6 "::".toList = some 0 := by decide
    obtain rfl : 0 = n := Option.some.inj (hzero.symm.trans h)
    exact ⟨.inl rfl, fun hshort => hshort.2.elim fun p hp => hnone p hp.1 hp.2, fun _ => rfl,
      by simp, by simp⟩
  · have hone : parseIPv6 "::1".toList = some 1 := by decide
    obtain rfl : 1 = n := Option.some.inj (hone.symm.trans h)
    exact ⟨.inr (.inl rfl), fun hshort => hshort.2.elim fun p hp => hnone p hp.1 hp.2, by simp,
      fun _ => rfl, by simp⟩

/-- A text whose first group is no local one. -/
theorem ipv6_other (hliteral : ¬ (lower = "::".toList ∨ lower = "::1".toList))
    (h : parseIPv6 lower = some n) (hshort : ¬ ShortGroup lower) :
    ((match mappedPart lower with
      | some ip => isPrivateOrSpecialIpv4 ip
      | none => false) = true ↔ SpecialLow n) ↔ SpelledPlainly lower (.v6 n) := by
  rw [not_or] at hliteral
  cases hmapped : mappedPart lower with
  | some ip =>
      obtain ⟨rfl, hdotted⟩ := mappedPart_some hmapped
      obtain ⟨m, hm, rfl⟩ := parseIPv6_mapped hdotted h
      have hlt := parseIPv4_lt hm
      have hhigh : (0xffff * 2 ^ 32 + m) / 2 ^ 32 = 0xffff := by omega
      have hlow : (0xffff * 2 ^ 32 + m) % 2 ^ 32 = m := by omega
      have hspecial : SpecialLow (0xffff * 2 ^ 32 + m) ↔ SpecialIpv4 m := by
        rw [SpecialLow, hhigh, hlow]
        constructor
        · rintro (hzero | hone | ⟨-, hs⟩)
          · omega
          · omega
          · exact hs
        · exact fun hs => .inr (.inr ⟨rfl, hs⟩)
      have hspelled : Literal ("::ffff:".toList ++ ip) := ⟨ip, by rw [hm]; rfl, rfl⟩
      simp only [SpelledPlainly, hhigh, hlow, ipv4_iff hm, hspecial]
      constructor
      · intro hiff
        refine ⟨hshort, by omega, by omega, fun _ => ⟨fun _ hover => ?_, fun hnot => ?_⟩⟩
        · exact overBlocked_not_special hm hover (hiff.mp (.inr hover))
        · exact absurd hspelled hnot
      · rintro ⟨-, -, -, hplain⟩
        have hnot := (hplain trivial).1 hspelled
        exact ⟨fun hs => hs.resolve_right hnot, .inl⟩
  | none =>
      have hspelled : ¬ Literal lower := by
        rintro ⟨ip, hip, rfl⟩
        obtain ⟨m, hm⟩ := Option.isSome_iff_exists.mp hip
        rw [mappedPart_of_literal hm] at hmapped
        cases hmapped
      simp only [SpelledPlainly, SpecialLow, hliteral, hshort, hspelled]
      tauto

/-- The filter on an IPv6 text. -/
theorem ipv6_iff (hlower : lower.map Char.toLower = lower) (h : parseIPv6 lower = some n) :
    (isPrivateOrSpecialIpv6 lower = true ↔ SpecialIpv6 n) ↔ SpelledPlainly lower (.v6 n) := by
  rw [specialIpv6_iff, isPrivateOrSpecialIpv6]
  by_cases hliteral : lower = "::".toList ∨ lower = "::1".toList
  · obtain ⟨hlow, hplain⟩ := ipv6_literal hliteral h
    rw [if_pos hliteral]
    exact iff_of_true (iff_of_true rfl (.inr hlow)) hplain
  · rw [if_neg hliteral]
    rcases head_cases hlower h with
      ⟨hbegins, hnot⟩ | ⟨hbegins, hlong, hlocal⟩ | ⟨hshort, hnot, hpos⟩
    · -- the filter looks for the literal of a mapped address
      rw [if_neg ((begins_iff h).not.mpr hbegins), or_iff_right hnot]
      exact ipv6_other hliteral h fun hshort => hbegins hshort.2
    · -- a local address
      have hhead : n / 2 ^ 112 ≠ 0 := fun hzero => not_localGroup_zero (hzero ▸ hlocal)
      rw [if_pos ((begins_iff h).mpr hbegins)]
      refine iff_of_true (iff_of_true rfl (.inl hlocal)) ⟨hlong, ?_, ?_, ?_⟩
      · rintro rfl
        exact absurd rfl hhead
      · rintro rfl
        exact absurd rfl hhead
      · intro hmapped
        omega
    · -- a short group that looks like one
      rw [if_pos ((begins_iff h).mpr hshort.2)]
      have hlow : ¬ SpecialLow n := fun hlow => absurd hlow.head (by omega)
      refine iff_of_false (fun hiff => ?_) (fun hplain => hplain.1 hshort)
      exact (hiff.mp rfl).elim hnot hlow

/-- The filter decides whether the address of a text is special just if the text is spelled as it
expects. -/
theorem address_filter_iff {t : String} {addr : Address} (h : address t = some addr) :
    (isPrivateOrSpecialIp t = true ↔ Special addr) ↔
      SpelledPlainly (t.toList.map Char.toLower) addr := by
  cases addr with
  | v4 n =>
      have hip : isIP t = 4 := by rw [isIP, h]
      have hn : parseIPv4 t.toList = some n := by
        unfold address at h
        split at h
        · rename_i n' hn'
          obtain rfl := Address.v4.inj (Option.some.inj h)
          exact hn'
        · obtain ⟨n', -, hbad⟩ := Option.map_eq_some_iff.mp h
          cases hbad
      rw [isPrivateOrSpecialIp, if_pos hip, ipv4_iff hn]
      constructor
      · exact fun hiff hover => overBlocked_not_special hn hover (hiff.mp (.inr hover))
      · exact fun hnot => ⟨fun hs => hs.resolve_right hnot, .inl⟩
  | v6 n =>
      have hip : isIP t = 6 := by rw [isIP, h]
      have hn : parseIPv6 (t.toList.map Char.toLower) = some n := by
        unfold address at h
        split at h
        · cases Option.some.inj h
        · obtain ⟨n', hn', hsame⟩ := Option.map_eq_some_iff.mp h
          exact Address.v6.inj hsame ▸ hn'
      rw [isPrivateOrSpecialIp, hip, if_neg (by decide), if_pos rfl]
      exact ipv6_iff (map_toLower_twice t.toList) hn

/-- A mapped address in its usual spelling is recognised. -/
theorem mapped_recognised : isPrivateOrSpecialIp "::FFFF:127.0.0.1" = true ↔
    Special (.v6 0xffff7f000001) := by
  have hmapped : address "::FFFF:127.0.0.1" = some (.v6 0xffff7f000001) := by decide
  have hbounds : 0xffff7f000001 % 2 ^ 32 = quad 127 0 0 1 := by decide
  refine (address_filter_iff hmapped).mpr ⟨?_, by decide, by decide, fun _ => ⟨fun _ => ?_, ?_⟩⟩
  · unfold ShortGroup
    decide
  · rw [hbounds, overBlocked_iff (by decide) (by decide) (by decide)]
    decide
  · exact fun hnot => absurd ⟨"127.0.0.1".toList, by decide, by decide⟩ hnot

/-- The loopback address in hexadecimal groups passes the filter, and a public address does
not. -/
theorem spelling_matters : address "::ffff:7f00:1" = some (.v6 0xffff7f000001) ∧
    Special (.v6 0xffff7f000001) ∧ isPrivateOrSpecialIp "::ffff:7f00:1" = false ∧
    isPrivateOrSpecialIp "::ffff:127.0.0.1" = true ∧
    address "192.2.0.1" = some (.v4 (quad 192 2 0 1)) ∧ ¬ Special (.v4 (quad 192 2 0 1)) ∧
    isPrivateOrSpecialIp "192.2.0.1" = true := by
  refine ⟨by decide, ?_, by decide, by decide, by decide, ?_,
    by decide⟩
  · refine .inr (.inr (.inr (.inr ⟨by decide, ?_⟩)))
    have hbounds : 0xffff7f000001 % 2 ^ 32 = quad 127 0 0 1 := by decide
    rw [hbounds, special_iff (by decide) (by decide) (by decide)]
    decide
  · rw [Special, special_iff (by decide) (by decide) (by decide)]
    decide

end OpenUnion
