import Mathlib.Data.List.Infix
import OpenUnion.Abi.Words

/-!
# Internet addresses

The texts of IPv4 and IPv6 addresses and the numbers they denote: four decimal octets without
leading zeros; eight groups of one to four hexadecimal digits, of which a run of zeros may be left
out once, with the last two groups also written as an IPv4 address, and with a zone behind `%`.

* `parseIPv4_split`: the four octets of an IPv4 text.
* `groups_head`: the first group of an IPv6 text comes first in the number.
* `parseIPv6_mapped`: the usual text of an IPv4-mapped address.
-/

namespace OpenUnion.Text

open Abi (digitChar_of_hexValue hexDigits hexValue ofBigEndian)

/-! ## IPv4 -/

/-- The value of a text of decimal digits. -/
def decimalValue (s : List Char) : Option ℕ :=
  if s ≠ [] ∧ s.all Char.isDigit then some (Nat.ofDigitChars 10 s 0) else none

/-- An octet: a number below 256 without leading zeros. -/
def octet (s : List Char) : Option ℕ :=
  (decimalValue s).filter fun n => decide (n < 256 ∧ (s.length = 1 ∨ s.head? ≠ some '0'))

/-- The number of four octets. -/
def quad (a b c d : ℕ) : ℕ := ((a * 256 + b) * 256 + c) * 256 + d

/-- The number of an IPv4 text. -/
def parseIPv4 (s : List Char) : Option ℕ :=
  match s.splitOn '.' with
  | [a, b, c, d] => do return quad (← octet a) (← octet b) (← octet c) (← octet d)
  | _ => none

/-! ## IPv6 -/

/-- The value of a group. -/
def hexGroup (s : List Char) : Option ℕ :=
  if s ≠ [] ∧ s.length ≤ 4 then (hexDigits s).map (ofBigEndian 16) else none

/-- Groups between colons. -/
def hexGroups (s : List Char) : Option (List ℕ) :=
  if s = [] then some [] else (s.splitOn ':').mapM hexGroup

/-- Groups between colons, the last two perhaps written as an IPv4 address. -/
def tailGroups (s : List Char) : Option (List ℕ) :=
  if s = [] then some []
  else
    let parts := s.splitOn ':'
    match parseIPv4 (parts.getLast (List.splitOn_ne_nil ':' s)) with
    | some n => (parts.dropLast.mapM hexGroup).map (· ++ [n / 65536, n % 65536])
    | none => parts.mapM hexGroup

/-- The text before and behind the first `::`. -/
def splitDouble : List Char → Option (List Char × List Char)
  | ':' :: ':' :: rest => some ([], rest)
  | c :: rest => (splitDouble rest).map fun p => (c :: p.1, p.2)
  | [] => none

/-- The eight groups of an address; a double colon stands for one zero or more. -/
def eightGroups (s : List Char) : Option (List ℕ) :=
  match splitDouble s with
  | none => (tailGroups s).filter fun gs => decide (gs.length = 8)
  | some (l, r) =>
      match hexGroups l, tailGroups r with
      | some ls, some rs =>
          if ls.length + rs.length ≤ 7 then
            some (ls ++ List.replicate (8 - ls.length - rs.length) 0 ++ rs)
          else none
      | _, _ => none

/-- A character of a zone. -/
def isZoneChar (c : Char) : Bool := c.isAlphanum || c = '-' || c = '.' || c = ':'

/-- The text without its zone. -/
def withoutZone (s : List Char) : Option (List Char) :=
  match s.splitOn '%' with
  | [addr] => some addr
  | [addr, zone] => if zone ≠ [] ∧ zone.all isZoneChar then some addr else none
  | _ => none

/-- The number of an IPv6 text in lower case. -/
def parseIPv6 (s : List Char) : Option ℕ :=
  ((withoutZone s).bind eightGroups).map (ofBigEndian 65536)

/-! ## Addresses -/

/-- An address. -/
inductive Address where
  | v4 (n : ℕ)
  | v6 (n : ℕ)
  deriving DecidableEq

/-- The address a text denotes; letters of either case are the same. -/
def address (t : String) : Option Address :=
  match parseIPv4 t.toList with
  | some n => some (.v4 n)
  | none => (parseIPv6 (t.toList.map Char.toLower)).map .v6

/-- `net.isIP`. -/
def isIP (t : String) : ℕ :=
  match address t with
  | some (.v4 _) => 4
  | some (.v6 _) => 6
  | none => 0

/-! ## IPv4 texts -/

variable {addr dotted g l r s : List Char} {ds gs more : List ℕ} {c : Char} {d n v : ℕ}

/-- An octet is the decimal value of its text. -/
theorem octet_spec (h : octet s = some n) : decimalValue s = some n ∧ n < 256 := by
  obtain ⟨hvalue, htest⟩ := Option.filter_eq_some_iff.mp h
  exact ⟨hvalue, (of_decide_eq_true htest).1⟩

/-- The four octets of an IPv4 text. -/
theorem parseIPv4_split (h : parseIPv4 s = some n) : ∃ a b c d,
    (a < 256 ∧ b < 256 ∧ c < 256 ∧ d < 256) ∧ n = quad a b c d ∧
      (s.splitOn '.').map decimalValue = [some a, some b, some c, some d] := by
  unfold parseIPv4 at h
  split at h
  · rename_i w x y z hsplit
    simp only [Option.bind_eq_bind, Option.bind_eq_some_iff] at h
    obtain ⟨a, ha, b, hb, c, hc, d, hd, hn⟩ := h
    obtain ⟨ha, ha'⟩ := octet_spec ha
    obtain ⟨hb, hb'⟩ := octet_spec hb
    obtain ⟨hc, hc'⟩ := octet_spec hc
    obtain ⟨hd, hd'⟩ := octet_spec hd
    refine ⟨a, b, c, d, ⟨ha', hb', hc', hd'⟩, (Option.some.inj hn).symm, ?_⟩
    rw [hsplit, List.map_cons, List.map_cons, List.map_cons, List.map_cons, ha, hb, hc, hd]
    rfl
  · cases h

/-! ## Groups -/

/-- A group has at most sixteen bits. -/
theorem hexGroup_lt (h : hexGroup g = some v) : v < 65536 := by
  unfold hexGroup at h
  split_ifs at h with hlen
  obtain ⟨ds, hds, rfl⟩ := Option.map_eq_some_iff.mp h
  calc ofBigEndian 16 ds < 16 ^ ds.length := Abi.ofBigEndian_lt (by decide) (Abi.hexDigits_lt hds)
    _ ≤ 16 ^ 4 := Nat.pow_le_pow_right (by decide) (Abi.hexDigits_length hds ▸ hlen.2)

theorem mapM_hexGroup {parts : List (List Char)} (h : parts.mapM hexGroup = some gs) :
    List.Forall₂ (fun g v => hexGroup g = some v) parts gs := by
  induction parts generalizing gs with
  | nil =>
      obtain rfl : [] = gs := by simpa using h
      exact .nil
  | cons g parts ih =>
      simp only [List.mapM_cons, Option.bind_eq_bind, Option.bind_eq_some_iff] at h
      obtain ⟨v, hv, vs, hvs, hgs⟩ := h
      obtain rfl := Option.some.inj hgs
      exact .cons hv (ih hvs)

/-- The text on the two sides of a double colon. -/
theorem splitDouble_some (h : splitDouble s = some (l, r)) : s = l ++ ':' :: ':' :: r := by
  induction s using splitDouble.induct generalizing l with
  | case1 rest =>
      obtain ⟨rfl, rfl⟩ := Prod.mk.inj (Option.some.inj (splitDouble.eq_1 rest ▸ h))
      rfl
  | case2 c rest hno ih =>
      rw [splitDouble.eq_2 _ _ hno] at h
      obtain ⟨⟨l', r'⟩, hrest, hpair⟩ := Option.map_eq_some_iff.mp h
      obtain ⟨rfl, rfl⟩ := Prod.mk.inj hpair
      rw [ih hrest, List.cons_append]
  | case3 => simp [splitDouble] at h

theorem hexGroups_spec (h : hexGroups s = some gs) : s = [] ∧ gs = [] ∨
    List.Forall₂ (fun g v => hexGroup g = some v) (s.splitOn ':') gs := by
  unfold hexGroups at h
  split_ifs at h with hs
  · exact .inl ⟨hs, (Option.some.inj h).symm⟩
  · exact .inr (mapM_hexGroup h)

theorem tailGroups_spec (h : tailGroups s = some gs) : s = [] ∧ gs = [] ∨
    List.Forall₂ (fun g v => hexGroup g = some v) (s.splitOn ':') gs ∨
    ∃ last n front, s.splitOn ':' = (s.splitOn ':').dropLast ++ [last] ∧ parseIPv4 last = some n ∧
      List.Forall₂ (fun g v => hexGroup g = some v) (s.splitOn ':').dropLast front ∧
      gs = front ++ [n / 65536, n % 65536] := by
  unfold tailGroups at h
  split_ifs at h with hs
  · exact .inl ⟨hs, (Option.some.inj h).symm⟩
  · simp only at h
    split at h
    · rename_i n hn
      obtain ⟨front, hfront, rfl⟩ := Option.map_eq_some_iff.mp h
      refine .inr (.inr ⟨_, n, front, ?_, hn, mapM_hexGroup hfront, rfl⟩)
      exact (List.dropLast_append_getLast _).symm
    · exact .inr (.inl (mapM_hexGroup h))

theorem parseIPv4_lt (h : parseIPv4 s = some n) : n < 2 ^ 32 := by
  obtain ⟨a, b, c, d, hlt, rfl, -⟩ := parseIPv4_split h
  unfold quad
  omega

theorem forall₂_lt {parts : List (List Char)}
    (h : List.Forall₂ (fun g v => hexGroup g = some v) parts gs) : ∀ v ∈ gs, v < 65536 := by
  induction h with
  | nil => exact fun _ hv => absurd hv List.not_mem_nil
  | cons hv _ ih => exact List.forall_mem_cons.mpr ⟨hexGroup_lt hv, ih⟩

theorem tailGroups_lt (h : tailGroups s = some gs) : ∀ v ∈ gs, v < 65536 := by
  rcases tailGroups_spec h with ⟨-, rfl⟩ | hall | ⟨last, n, front, -, hn, hfront, rfl⟩
  · exact fun _ hv => absurd hv List.not_mem_nil
  · exact forall₂_lt hall
  · have hlt := parseIPv4_lt hn
    refine List.forall_mem_append.mpr ⟨forall₂_lt hfront, ?_⟩
    simp only [List.forall_mem_cons]
    refine ⟨by omega, by omega, fun _ hv => absurd hv List.not_mem_nil⟩

/-- The eight groups of a text. -/
structure EightGroups (s : List Char) (gs : List ℕ) : Prop where
  length : gs.length = 8
  bounded : ∀ v ∈ gs, v < 65536
  /-- The first one is the text before the first colon, or a zero that is left out. -/
  first : ∃ g parts v more, s.splitOn ':' = g :: parts ∧ parts ≠ [] ∧ gs = v :: more ∧
    (g = [] ∧ v = 0 ∨ hexGroup g = some v)

theorem eightGroups_spec (h : eightGroups s = some gs) : EightGroups s gs := by
  unfold eightGroups at h
  split at h
  · obtain ⟨htail, hlen⟩ := Option.filter_eq_some_iff.mp h
    have hlen : gs.length = 8 := of_decide_eq_true hlen
    refine ⟨hlen, tailGroups_lt htail, ?_⟩
    rcases tailGroups_spec htail with ⟨-, rfl⟩ | hall | ⟨last, n, front, hparts, hn, hfront, rfl⟩
    · cases hlen
    · generalize s.splitOn ':' = allParts at hall
      cases hall with
      | nil => cases hlen
      | @cons g v parts more hv hmore =>
          refine ⟨g, parts, v, more, rfl, ?_, rfl, .inr hv⟩
          rintro rfl
          cases hmore
          cases hlen
    · rw [hparts]
      generalize (s.splitOn ':').dropLast = init at hfront
      cases hfront with
      | nil => cases hlen
      | @cons g v parts more hv hmore =>
          exact ⟨g, parts ++ [last], v, more ++ [n / 65536, n % 65536], rfl, by simp, rfl, .inr hv⟩
  · rename_i l r hsplit
    have hs := splitDouble_some hsplit
    have hparts : s.splitOn ':' = l.splitOn ':' ++ [] :: r.splitOn ':' := by
      rw [hs, List.splitOn_append_cons_self]
      rfl
    split at h
    · rename_i ls rs hls hrs
      split_ifs at h with hle
      obtain rfl := Option.some.inj h
      have hbounds : ∀ v ∈ ls, v < 65536 := by
        rcases hexGroups_spec hls with ⟨-, rfl⟩ | hall
        · exact fun _ hv => absurd hv List.not_mem_nil
        · exact forall₂_lt hall
      refine ⟨?_, ?_, ?_⟩
      · simp only [List.length_append, List.length_replicate]
        omega
      · intro v hv
        rcases List.mem_append.mp hv with hv | hv
        · rcases List.mem_append.mp hv with hv | hv
          · exact hbounds v hv
          · rw [List.eq_of_mem_replicate hv]
            decide
        · exact tailGroups_lt hrs v hv
      · rw [hparts]
        rcases hexGroups_spec hls with ⟨rfl, rfl⟩ | hall
        · obtain ⟨k, hk⟩ : ∃ k, 8 - ([] : List ℕ).length - rs.length = k + 1 :=
            ⟨7 - rs.length, by simp only [List.length_nil] at hle ⊢; omega⟩
          rw [hk]
          exact ⟨[], _, 0, _, rfl, by simp, rfl, .inl ⟨rfl, rfl⟩⟩
        · generalize hl : l.splitOn ':' = lparts at hall
          cases hall with
          | nil => exact absurd hl (List.splitOn_ne_nil ':' l)
          | @cons g v parts more hv hmore =>
              exact ⟨g, parts ++ [] :: r.splitOn ':', v, _, rfl, by simp, rfl, .inr hv⟩
    · cases h

/-- The first group comes first in the number. -/
theorem EightGroups.number (h : EightGroups s gs) : ∃ g parts v, s.splitOn ':' = g :: parts ∧
    parts ≠ [] ∧ ofBigEndian 65536 gs / 2 ^ 112 = v ∧ (g = [] ∧ v = 0 ∨ hexGroup g = some v) := by
  obtain ⟨g, parts, v, more, hparts, hne, rfl, hv⟩ := h.first
  refine ⟨g, parts, v, hparts, hne, ?_, hv⟩
  have hlen : more.length = 7 := by
    have h8 := h.length
    rw [List.length_cons] at h8
    omega
  have hmore : ofBigEndian 65536 more < 65536 ^ 7 := by
    rw [← hlen]
    exact Abi.ofBigEndian_lt (by decide) fun d hd => h.bounded d (List.mem_cons_of_mem _ hd)
  have hsplit := Abi.ofBigEndian_append 65536 [v] more
  rw [List.singleton_append, Abi.ofBigEndian_singleton, hlen] at hsplit
  rw [hsplit]
  omega

/-! ## Digits and separators -/

/-- Text in lower case stays as it is. -/
theorem map_toLower_twice (s : List Char) :
    (s.map Char.toLower).map Char.toLower = s.map Char.toLower := by
  rw [List.map_map]
  refine List.map_congr_left fun c _ => ?_
  rw [Function.comp_apply]
  by_cases hupper : c.val ≥ 'A'.val ∧ c.val ≤ 'Z'.val
  · have hlow : 65 ≤ c.toNat := hupper.1
    have hhigh : c.toNat ≤ 90 := hupper.2
    rw [← Char.ofNat_toNat c]
    generalize c.toNat = m at hlow hhigh ⊢
    interval_cases m <;> decide
  · have hsame : c.toLower = c := dif_neg hupper
    rw [hsame, hsame]

theorem hexDigits_cons (h : hexDigits (c :: s) = some ds) : ∃ d more, ds = d :: more ∧
    hexValue c = some d ∧ hexDigits s = some more := by
  simp only [hexDigits, List.mapM_cons, Option.bind_eq_bind, Option.bind_eq_some_iff] at h
  obtain ⟨d, hd, more, hmore, hds⟩ := h
  exact ⟨d, more, (Option.some.inj hds).symm, hd, hmore⟩

/-- A text of digits in lower case is the one that is printed. -/
theorem digitChars_of_hexDigits (hlower : s.map Char.toLower = s) (h : hexDigits s = some ds) :
    s = ds.map Nat.digitChar := by
  induction s generalizing ds with
  | nil =>
      obtain rfl : [] = ds := by simpa [hexDigits] using h
      rfl
  | cons c s ih =>
      obtain ⟨d, more, rfl, hd, hmore⟩ := hexDigits_cons h
      obtain ⟨hc, hs⟩ := List.cons.inj hlower
      rw [List.map_cons, ← digitChar_of_hexValue hc hd, ← ih hs hmore]

/-- Every character of a text of digits is one. -/
theorem isSome_of_hexDigits (h : hexDigits s = some ds) : ∀ c ∈ s, (hexValue c).isSome := by
  induction s generalizing ds with
  | nil => exact fun c hc => absurd hc List.not_mem_nil
  | cons c s ih =>
      obtain ⟨d, more, rfl, hd, hmore⟩ := hexDigits_cons h
      exact List.forall_mem_cons.mpr ⟨by rw [hd]; rfl, ih hmore⟩

/-- A character of a text is the separator or in one of the parts. -/
theorem mem_splitOn {sep : Char} (hc : c ∈ s) : c = sep ∨ ∃ part ∈ s.splitOn sep, c ∈ part := by
  induction s with
  | nil => exact absurd hc List.not_mem_nil
  | cons x s ih =>
      rw [List.splitOn_cons_eq_if_modifyHead]
      split_ifs with hx
      · rcases List.mem_cons.mp hc with rfl | hc
        · exact .inl (beq_iff_eq.mp hx)
        · exact (ih hc).imp_right fun ⟨part, hpart, hmem⟩ =>
            ⟨part, List.mem_cons_of_mem _ hpart, hmem⟩
      · obtain ⟨first, rest, hsplit⟩ := List.exists_cons_of_ne_nil (List.splitOn_ne_nil sep s)
        rw [hsplit] at ih ⊢
        rw [List.modifyHead_cons]
        rcases List.mem_cons.mp hc with rfl | hc
        · exact .inr ⟨c :: first, List.mem_cons_self, List.mem_cons_self⟩
        · rcases ih hc with hsep | ⟨part, hpart, hmem⟩
          · exact .inl hsep
          · rcases List.mem_cons.mp hpart with rfl | hpart
            · exact .inr ⟨x :: part, List.mem_cons_self, List.mem_cons_of_mem _ hmem⟩
            · exact .inr ⟨part, List.mem_cons_of_mem _ hpart, hmem⟩

/-- Four numbers between dots. -/
structure DottedDigits (s : List Char) : Prop where
  four : (s.splitOn '.').length = 4
  digits : ∀ part ∈ s.splitOn '.', (decimalValue part).isSome

theorem DottedDigits.chars (h : DottedDigits s) : ∀ c ∈ s, c = '.' ∨ c.isDigit = true := by
  intro c hc
  refine (mem_splitOn hc).imp_right fun ⟨part, hpart, hmem⟩ => ?_
  have hvalue := h.digits part hpart
  unfold decimalValue at hvalue
  split_ifs at hvalue with hdigits
  · exact List.all_eq_true.mp hdigits.2 c hmem
  · cases hvalue

theorem DottedDigits.not_mem (h : DottedDigits s) (hdot : c ≠ '.') (hdigit : c.isDigit = false) :
    c ∉ s := by
  intro hmem
  rcases h.chars c hmem with heq | htrue
  · exact hdot heq
  · rw [hdigit] at htrue
    cases htrue

theorem DottedDigits.dot_mem (h : DottedDigits s) : '.' ∈ s := by
  by_contra hdot
  have hfour := h.four
  rw [List.splitOn_eq_singleton hdot] at hfour
  cases hfour

/-- The usual text of an IPv4-mapped address. -/
theorem parseIPv6_mapped (hdotted : DottedDigits dotted)
    (h : parseIPv6 ("::ffff:".toList ++ dotted) = some n) :
    ∃ m, parseIPv4 dotted = some m ∧ n = 0xffff * 2 ^ 32 + m := by
  have hpercent : '%' ∉ dotted := hdotted.not_mem (by decide) (by decide)
  have hcolon : ':' ∉ dotted := hdotted.not_mem (by decide) (by decide)
  have hzone : withoutZone ("::ffff:".toList ++ dotted) = some ("::ffff:".toList ++ dotted) := by
    have hnot : '%' ∉ "::ffff:".toList ++ dotted := by
      rw [List.mem_append, not_or]
      exact ⟨by decide, hpercent⟩
    rw [withoutZone, List.splitOn_eq_singleton hnot]
  have hparts : ("ffff".toList ++ ':' :: dotted).splitOn ':' = ["ffff".toList, dotted] := by
    rw [List.splitOn_append_cons_self_of_not_mem (by decide), List.splitOn_eq_singleton hcolon]
  have hsplit : splitDouble ("::ffff:".toList ++ dotted) =
      some ([], "ffff".toList ++ ':' :: dotted) := rfl
  rw [parseIPv6, hzone, Option.bind_some] at h
  obtain ⟨gs, hgs, rfl⟩ := Option.map_eq_some_iff.mp h
  have hffff : ["ffff".toList].mapM hexGroup = some [0xffff] := by decide
  rw [eightGroups, hsplit] at hgs
  simp only [hexGroups, if_true] at hgs
  cases hm : parseIPv4 dotted with
  | none =>
      have hgroup : hexGroup dotted = none := by
        unfold hexGroup
        split_ifs
        · rw [Option.map_eq_none_iff]
          by_contra hsome
          obtain ⟨ds, hds⟩ := Option.ne_none_iff_exists'.mp hsome
          exact absurd (isSome_of_hexDigits hds '.' hdotted.dot_mem) (by decide)
        · rfl
      have htail : tailGroups ("ffff".toList ++ ':' :: dotted) = none := by
        unfold tailGroups
        rw [if_neg (by simp)]
        simp only [hparts, List.getLast_cons_cons, List.getLast_singleton, hm]
        simp [hgroup]
      rw [htail] at hgs
      cases hgs
  | some m =>
      have hlt := parseIPv4_lt hm
      have htail : tailGroups ("ffff".toList ++ ':' :: dotted) =
          some [0xffff, m / 65536, m % 65536] := by
        unfold tailGroups
        rw [if_neg (by simp)]
        simp only [hparts, List.getLast_cons_cons, List.getLast_singleton, hm]
        change (["ffff".toList].mapM hexGroup).map (· ++ [m / 65536, m % 65536]) = _
        rw [hffff]
        rfl
      rw [htail] at hgs
      obtain rfl := Option.some.inj hgs
      refine ⟨m, rfl, ?_⟩
      simp [ofBigEndian, Nat.ofDigits]
      omega

/-- The text of the first group. -/
def firstGroup (s : List Char) : List Char := s.takeWhile fun c => decide (c ≠ ':')

theorem firstGroup_append (hg : ':' ∉ g) : firstGroup (g ++ ':' :: s) = g := by
  unfold firstGroup
  rw [List.takeWhile_append_of_pos]
  · simp
  · intro c hc
    have hne : c ≠ ':' := fun heq => hg (heq ▸ hc)
    exact decide_eq_true hne

/-- The text before the first separator. -/
theorem splitOn_cons_cons {sep : Char} {first second : List Char} {rest : List (List Char)}
    (h : s.splitOn sep = first :: second :: rest) :
    ∃ behind, s = first ++ sep :: behind := by
  refine ⟨List.intercalate [sep] (second :: rest), ?_⟩
  have hjoin : [sep].intercalate (s.splitOn sep) = s := List.intercalate_splitOn sep
  rw [← hjoin, h, List.intercalate_cons_cons, List.append_assoc, List.singleton_append]

theorem withoutZone_some (h : withoutZone s = some addr) : ∃ zone, s = addr ++ zone := by
  unfold withoutZone at h
  split at h
  · rename_i addr' hsplit
    obtain rfl := Option.some.inj h
    refine ⟨[], ?_⟩
    have hjoin : ['%'].intercalate (s.splitOn '%') = s := List.intercalate_splitOn '%'
    rw [List.append_nil, ← hjoin, hsplit, List.intercalate_singleton]
  · rename_i addr' zone hsplit
    split_ifs at h
    obtain rfl := Option.some.inj h
    obtain ⟨behind, hs⟩ := splitOn_cons_cons hsplit
    exact ⟨'%' :: behind, hs⟩
  · cases h

/-- The first group of an IPv6 text comes first in the number. -/
theorem groups_head (h : parseIPv6 s = some n) : ∃ rest, s = firstGroup s ++ ':' :: rest ∧
    (firstGroup s = [] ∧ n / 2 ^ 112 = 0 ∨ hexGroup (firstGroup s) = some (n / 2 ^ 112)) := by
  obtain ⟨gs, hgs, rfl⟩ := Option.map_eq_some_iff.mp h
  obtain ⟨addr, haddr, height⟩ := Option.bind_eq_some_iff.mp hgs
  obtain ⟨zone, rfl⟩ := withoutZone_some haddr
  obtain ⟨g, parts, v, hparts, hne, hv, hfirst⟩ := (eightGroups_spec height).number
  obtain ⟨second, more, rfl⟩ := List.exists_cons_of_ne_nil hne
  obtain ⟨behind, hsplit⟩ := splitOn_cons_cons hparts
  have hcolon : ':' ∉ g := by
    rcases hfirst with ⟨rfl, -⟩ | hg
    · exact List.not_mem_nil
    · unfold hexGroup at hg
      split_ifs at hg
      obtain ⟨ds, hds, -⟩ := Option.map_eq_some_iff.mp hg
      exact fun hmem => absurd (isSome_of_hexDigits hds ':' hmem) (by decide)
  have htext : addr ++ zone = g ++ ':' :: (behind ++ zone) := by
    rw [hsplit, List.append_assoc, List.cons_append]
  rw [htext, firstGroup_append hcolon]
  refine ⟨behind ++ zone, rfl, ?_⟩
  rw [hv]
  exact hfirst

end OpenUnion.Text
