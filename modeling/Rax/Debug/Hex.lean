import Mathlib.Data.List.Basic
import Mathlib.Tactic.Common

/-!
# Hexadecimal strings

`decode_hex` cuts a string into slices of two bytes and parses each with `u8::from_str_radix`. The
parser takes a leading plus sign, and a slice that would cut a character in two is a panic.
-/

namespace Rax.Debug

/-- How a call ends. -/
inductive Outcome (α : Type) where
  | returned (value : α)
  | panicked
  deriving DecidableEq

def Outcome.map {α β : Type} (f : α → β) : Outcome α → Outcome β
  | returned value => returned (f value)
  | panicked => panicked

/-! ## Strings by bytes -/

/-- The length of a string in bytes. -/
def byteLen : List Char → Nat
  | [] => 0
  | c :: s => c.utf8Size + byteLen s

/-- A string cut at a byte offset, if a character starts or the string ends there. -/
def splitAtByte : List Char → Nat → Option (List Char × List Char)
  | s, 0 => some ([], s)
  | [], _ + 1 => none
  | c :: s, n + 1 =>
    if c.utf8Size ≤ n + 1 then
      (splitAtByte s (n + 1 - c.utf8Size)).map fun cut => (c :: cut.1, cut.2)
    else none

/-- `&s[start..stop]`. -/
def slice (s : List Char) (start stop : Nat) : Option (List Char) :=
  (splitAtByte s start).bind fun cut => (splitAtByte cut.2 (stop - start)).map Prod.fst

/-- `char::to_digit(16)`. -/
def toDigit (c : Char) : Option Nat :=
  if '0' ≤ c ∧ c ≤ '9' then some (c.toNat - 48)
  else if 'a' ≤ c ∧ c ≤ 'f' then some (c.toNat - 87)
  else if 'A' ≤ c ∧ c ≤ 'F' then some (c.toNat - 55)
  else none

/-- Digits with the overflow check of a byte. -/
def parseDigits (s : List Char) : Option Nat :=
  s.foldlM (fun v c => (toDigit c).bind fun d =>
    if v * 16 + d < 256 then some (v * 16 + d) else none) 0

/-- `u8::from_str_radix(s, 16)`. -/
def fromStrRadix : List Char → Option UInt8
  | [] => none
  | c :: digits =>
    if (c = '+' ∨ c = '-') ∧ digits = [] then none
    else (parseDigits (if c = '+' then digits else c :: digits)).map UInt8.ofNat

/-- The slices in order, up to the first that is no number. -/
def decodeFrom (hex : List Char) : List Nat → Outcome (Option (List UInt8))
  | [] => .returned (some [])
  | i :: rest =>
    match slice hex i (i + 2) with
    | none => .panicked
    | some pair =>
      match fromStrRadix pair with
      | none => .returned none
      | some v => (decodeFrom hex rest).map (Option.map (v :: ·))

def decodeHex (hex : List Char) : Outcome (Option (List UInt8)) :=
  if byteLen hex % 2 ≠ 0 then .returned none
  else decodeFrom hex (List.range' 0 (byteLen hex / 2) 2)

/-- `{:02x}`. -/
def encodeByte (b : UInt8) : List Char :=
  [Nat.digitChar (b.toNat / 16), Nat.digitChar (b.toNat % 16)]

def encodeHex (data : List UInt8) : List Char := data.flatMap encodeByte

/-! ## Cutting -/

variable {s : List Char}

theorem splitAtByte_cons {c : Char} {n : Nat} (h : c.utf8Size ≤ n) :
    splitAtByte (c :: s) n =
      (splitAtByte s (n - c.utf8Size)).map fun cut => (c :: cut.1, cut.2) := by
  have hpos := c.utf8Size_pos
  cases n with
  | zero => omega
  | succ n => rw [splitAtByte, if_pos h]

theorem byteLen_cons (c : Char) (s : List Char) : byteLen (c :: s) = c.utf8Size + byteLen s := rfl

theorem byteLen_append (s t : List Char) : byteLen (s ++ t) = byteLen s + byteLen t := by
  induction s with
  | nil => exact (Nat.zero_add _).symm
  | cons c s ih => rw [List.cons_append, byteLen_cons, byteLen_cons, ih, Nat.add_assoc]

theorem splitAtByte_append (s t : List Char) : splitAtByte (s ++ t) (byteLen s) = some (s, t) := by
  induction s with
  | nil => cases t <;> rfl
  | cons c s ih =>
    rw [byteLen_cons, List.cons_append, splitAtByte_cons (by omega), Nat.add_sub_cancel_left, ih]
    rfl

theorem slice_append (s t : List Char) :
    slice (s ++ t) (byteLen s) (byteLen s + 2) = (splitAtByte t 2).map Prod.fst := by
  rw [slice, splitAtByte_append, Option.bind_some, Nat.add_sub_cancel_left]

/-- The next two bytes cut a character in two. -/
def CutsChar (s : List Char) : Prop :=
  (∃ c t, s = c :: t ∧ 2 < c.utf8Size) ∨ ∃ c d t, s = c :: d :: t ∧ c.utf8Size = 1 ∧ 1 < d.utf8Size

theorem splitAtByte_of_cutsChar (h : CutsChar s) : splitAtByte s 2 = none := by
  rcases h with ⟨c, t, rfl, hc⟩ | ⟨c, d, t, rfl, hc, hd⟩
  · rw [splitAtByte, if_neg (by omega)]
  · rw [splitAtByte_cons (by omega), hc, splitAtByte, if_neg (by omega)]
    rfl

/-! ## Digits -/

/-- A character of the seven-bit range is one byte, and what holds of the range holds of it. -/
theorem of_ascii {P : Char → Prop} (hall : ∀ n < 128, P (Char.ofNat n)) {c : Char}
    (h : c.toNat < 128) : P c := by
  have := hall c.toNat h
  rwa [Char.ofNat_toNat] at this

theorem toDigit_ascii {c : Char} {d : Nat} (h : toDigit c = some d) : c.toNat < 128 := by
  have hle {x y : Char} : x ≤ y ↔ x.toNat ≤ y.toNat := Iff.rfl
  simp only [toDigit, hle] at h
  have h9 : '9'.toNat = 57 := rfl
  have hf : 'f'.toNat = 102 := rfl
  have hF : 'F'.toNat = 70 := rfl
  split at h
  · omega
  · split at h
    · omega
    · split at h
      · omega
      · cases h

/-- A digit takes one byte, is below 16, is no sign and is written in lower case. -/
theorem toDigit_spec {c : Char} {d : Nat} (h : toDigit c = some d) :
    c.utf8Size = 1 ∧ d < 16 ∧ c ≠ '+' ∧ c ≠ '-' ∧ Nat.digitChar d = c.toLower := by
  have hall : ∀ n < 128, (toDigit (Char.ofNat n)).all (fun d => (Char.ofNat n).utf8Size == 1 &&
      d < 16 && Char.ofNat n != '+' && Char.ofNat n != '-' &&
      Nat.digitChar d == (Char.ofNat n).toLower) = true := by decide +kernel
  have hspec := of_ascii (P := fun c => (toDigit c).all (fun d => c.utf8Size == 1 && d < 16 &&
    c != '+' && c != '-' && Nat.digitChar d == c.toLower) = true) hall (toDigit_ascii h)
  simpa [h, and_assoc] using hspec

def IsHexDigit (c : Char) : Prop := (toDigit c).isSome = true

/-- What the parser takes: two digits, or a plus sign and a digit. -/
def Taken (a b : Char) : Prop := (a = '+' ∨ IsHexDigit a) ∧ IsHexDigit b

theorem isHexDigit_iff {c : Char} :
    IsHexDigit c ↔ ∃ d, toDigit c = some d := Option.isSome_iff_exists

theorem Taken.utf8Size {a b : Char} (h : Taken a b) : a.utf8Size = 1 ∧ b.utf8Size = 1 := by
  obtain ⟨ha, hb⟩ := h
  obtain ⟨d, hd⟩ := isHexDigit_iff.mp hb
  refine ⟨?_, (toDigit_spec hd).1⟩
  rcases ha with rfl | ha
  · rfl
  · obtain ⟨e, he⟩ := isHexDigit_iff.mp ha
    exact (toDigit_spec he).1

theorem encodeByte_ofNat {d e : Nat} (hd : d < 16) (he : e < 16) :
    encodeByte (UInt8.ofNat (d * 16 + e)) = [Nat.digitChar d, Nat.digitChar e] := by
  have hval : (UInt8.ofNat (d * 16 + e)).toNat = d * 16 + e := by
    rw [UInt8.toNat_ofNat']
    exact Nat.mod_eq_of_lt (by omega)
  rw [encodeByte, hval, show (d * 16 + e) / 16 = d by omega, show (d * 16 + e) % 16 = e by omega]

/-- A slice that is taken gives a byte; of two digits, the byte that is written so. -/
theorem fromStrRadix_taken {a b : Char} (h : Taken a b) :
    ∃ v, fromStrRadix [a, b] = some v ∧ (a ≠ '+' → encodeByte v = [a.toLower, b.toLower]) := by
  obtain ⟨ha, hb⟩ := h
  obtain ⟨e, he⟩ := isHexDigit_iff.mp hb
  obtain ⟨-, he16, -, -, hlow⟩ := toDigit_spec he
  rcases ha with rfl | ha
  · exact ⟨UInt8.ofNat e, by simp [fromStrRadix, parseDigits, he, show e < 256 by omega],
      fun hne => absurd rfl hne⟩
  · obtain ⟨d, hd⟩ := isHexDigit_iff.mp ha
    obtain ⟨-, hd16, hplus, -, hhigh⟩ := toDigit_spec hd
    refine ⟨UInt8.ofNat (d * 16 + e), ?_, fun _ => ?_⟩
    · simp [fromStrRadix, parseDigits, hplus, hd, he, show d < 256 by omega,
        show d * 16 + e < 256 by omega]
    · rw [encodeByte_ofNat hd16 he16, hhigh, hlow]

theorem fromStrRadix_not_taken {a b : Char} (h : ¬Taken a b) : fromStrRadix [a, b] = none := by
  cases hb : toDigit b with
  | none =>
    by_cases ha : a = '+'
    · simp [fromStrRadix, parseDigits, ha, hb]
    · cases hd : toDigit a <;> simp [fromStrRadix, parseDigits, ha, hb, hd]
  | some e =>
    have ha : a ≠ '+' ∧ toDigit a = none := by
      refine ⟨fun hplus => h ⟨.inl hplus, isHexDigit_iff.mpr ⟨e, hb⟩⟩, ?_⟩
      cases hd : toDigit a with
      | none => rfl
      | some d => exact absurd ⟨.inr (isHexDigit_iff.mpr ⟨d, hd⟩), isHexDigit_iff.mpr ⟨e, hb⟩⟩ h
    simp [fromStrRadix, parseDigits, ha.1, ha.2]

/-! ## Reading -/

/-- Characters that are read in pairs, each pair taken. -/
inductive ReadPairs : List Char → Prop
  | nil : ReadPairs []
  | cons {a b : Char} {s : List Char} : Taken a b → ReadPairs s → ReadPairs (a :: b :: s)

/-- The next slice is a string of its own, but no number. -/
def Stops (s : List Char) : Prop :=
  ∃ pair, (splitAtByte s 2).map Prod.fst = some pair ∧ fromStrRadix pair = none

theorem splitAtByte_pair {a b : Char} (s : List Char) (ha : a.utf8Size = 1) (hb : b.utf8Size = 1) :
    splitAtByte (a :: b :: s) 2 = some ([a, b], s) := by
  rw [splitAtByte_cons (by omega), ha, splitAtByte_cons (by omega), hb]
  cases s <;> rfl

theorem ReadPairs.byteLen (h : ReadPairs s) : byteLen s % 2 = 0 := by
  induction h with
  | nil => rfl
  | cons hab _ ih =>
    rw [byteLen_cons, byteLen_cons, hab.utf8Size.1, hab.utf8Size.2]
    omega

/-- A string of even length is read in pairs up to its end, to a slice that is no number or to one
that cuts a character. -/
theorem exists_readPairs (s : List Char) (heven : byteLen s % 2 = 0) :
    ∃ mid rest, s = mid ++ rest ∧ ReadPairs mid ∧ (rest = [] ∨ Stops rest ∨ CutsChar rest) := by
  match s with
  | [] => exact ⟨[], [], rfl, .nil, .inl rfl⟩
  | c :: t =>
    have hpos := c.utf8Size_pos
    obtain hc | hc | hc : c.utf8Size = 1 ∨ c.utf8Size = 2 ∨ 2 < c.utf8Size := by omega
    · match t with
      | [] =>
        rw [byteLen_cons, hc] at heven
        exact absurd heven (by decide)
      | d :: u =>
        have hdpos := d.utf8Size_pos
        obtain hd | hd : d.utf8Size = 1 ∨ 1 < d.utf8Size := by omega
        · by_cases htaken : Taken c d
          · have heven' : byteLen u % 2 = 0 := by
              rw [byteLen_cons, byteLen_cons, hc, hd] at heven
              omega
            obtain ⟨mid, rest, rfl, hmid, hrest⟩ := exists_readPairs u heven'
            exact ⟨c :: d :: mid, rest, rfl, .cons htaken hmid, hrest⟩
          · refine ⟨[], c :: d :: u, rfl, .nil, .inr (.inl ⟨[c, d], ?_, fromStrRadix_not_taken htaken⟩)⟩
            rw [splitAtByte_pair u hc hd]
            rfl
        · exact ⟨[], c :: d :: u, rfl, .nil, .inr (.inr (.inr ⟨c, d, u, rfl, hc, hd⟩))⟩
    · refine ⟨[], c :: t, rfl, .nil, .inr (.inl ⟨[c], ?_, ?_⟩)⟩
      · rw [splitAtByte_cons (by omega), hc]
        cases t <;> rfl
      · have hdigit : toDigit c = none := by
          cases h : toDigit c with
          | none => rfl
          | some d => exact absurd (toDigit_spec h).1 (by omega)
        have hplus : c ≠ '+' := by
          rintro rfl
          exact absurd hc (by decide)
        simp [fromStrRadix, parseDigits, hdigit, hplus]
    · exact ⟨[], c :: t, rfl, .nil, .inr (.inr (.inl ⟨c, t, rfl, hc⟩))⟩

/-- The pairs that are taken give one byte each, and decoding goes on behind them. -/
theorem decodeFrom_readPairs {mid : List Char} (h : ReadPairs mid) (k : Nat) :
    ∀ pre rest, ∃ vs, decodeFrom (pre ++ (mid ++ rest))
        (List.range' (byteLen pre) (byteLen mid / 2 + k) 2) =
          (decodeFrom (pre ++ (mid ++ rest)) (List.range' (byteLen (pre ++ mid)) k 2)).map
            (Option.map (vs ++ ·)) ∧
        ('+' ∉ mid → encodeHex vs = mid.map Char.toLower) := by
  induction h with
  | nil =>
    intro pre rest
    refine ⟨[], ?_, fun _ => rfl⟩
    have hzero : byteLen [] / 2 + k = k := Nat.zero_add k
    rw [hzero, List.append_nil]
    cases decodeFrom (pre ++ ([] ++ rest)) (List.range' (byteLen pre) k 2) with
    | panicked => rfl
    | returned value => cases value <;> rfl
  | @cons a b s hab _ ih =>
    intro pre rest
    obtain ⟨ha, hb⟩ := hab.utf8Size
    obtain ⟨v, hv, hlow⟩ := fromStrRadix_taken hab
    obtain ⟨vs, hvs, hrest⟩ := ih (pre ++ [a, b]) rest
    have hlen : byteLen (a :: b :: s) / 2 + k = (byteLen s / 2 + k) + 1 := by
      rw [byteLen_cons, byteLen_cons, ha, hb]
      omega
    have hpre : byteLen (pre ++ [a, b]) = byteLen pre + 2 := by
      rw [byteLen_append, byteLen_cons, byteLen_cons, ha, hb]
      rfl
    have hstring : pre ++ [a, b] ++ (s ++ rest) = pre ++ (a :: b :: s ++ rest) := by simp
    have hslice : slice (pre ++ (a :: b :: s ++ rest)) (byteLen pre) (byteLen pre + 2) =
        some [a, b] := by
      rw [slice_append, List.cons_append, List.cons_append, splitAtByte_pair _ ha hb]
      rfl
    rw [hstring, hpre] at hvs
    refine ⟨v :: vs, ?_, fun hplus => ?_⟩
    · rw [hlen, List.range'_succ, decodeFrom, hslice]
      simp only [hv]
      rw [hvs, show pre ++ a :: b :: s = pre ++ [a, b] ++ s by simp]
      cases decodeFrom (pre ++ (a :: b :: s ++ rest))
        (List.range' (byteLen (pre ++ [a, b] ++ s)) k 2) with
      | panicked => rfl
      | returned value => cases value <;> rfl
    · have hne : a ≠ '+' := fun h => hplus (h ▸ List.mem_cons_self)
      have hs : '+' ∉ s := fun h => hplus (List.mem_cons_of_mem _ (List.mem_cons_of_mem _ h))
      rw [encodeHex, List.flatMap_cons, hlow hne]
      exact congrArg (a.toLower :: b.toLower :: ·) (hrest hs)

/-! ## Which strings are decoded -/

/-- An even number of hexadecimal digits. -/
def HexPairs (s : List Char) : Prop := s.length % 2 = 0 ∧ ∀ c ∈ s, IsHexDigit c

/-- A string of digit pairs gives bytes that are written as the string in lower case, and any other
string gives none. -/
def DecodesExactly (s : List Char) : Prop :=
  (HexPairs s → ∃ b, decodeHex s = .returned (some b) ∧ encodeHex b = s.map Char.toLower) ∧
    (¬HexPairs s → decodeHex s = .returned none)

/-- Behind what is read in pairs, no slice cuts a character; and if all of it is read, it has no
plus sign. -/
def Readable (s : List Char) : Prop :=
  ∀ mid rest, s = mid ++ rest → ReadPairs mid → ¬CutsChar rest ∧ (rest = [] → '+' ∉ mid)

theorem HexPairs.byteLen (h : HexPairs s) : byteLen s % 2 = 0 := by
  have hlen : Debug.byteLen s = s.length := by
    obtain ⟨-, hall⟩ := h
    induction s with
    | nil => rfl
    | cons c s ih =>
      obtain ⟨d, hd⟩ := isHexDigit_iff.mp (hall c List.mem_cons_self)
      rw [byteLen_cons, (toDigit_spec hd).1, ih fun x hx => hall x (List.mem_cons_of_mem _ hx),
        List.length_cons, Nat.add_comm]
  rw [hlen]
  exact h.1

theorem ReadPairs.hexPairs (h : ReadPairs s) (hplus : '+' ∉ s) : HexPairs s := by
  induction h with
  | nil => exact ⟨rfl, List.forall_mem_nil _⟩
  | @cons a b s hab _ ih =>
    obtain ⟨hlen, hall⟩ := ih fun h => hplus (List.mem_cons_of_mem _ (List.mem_cons_of_mem _ h))
    have ha : IsHexDigit a := hab.1.resolve_left fun h => hplus (h ▸ List.mem_cons_self)
    refine ⟨by simp only [List.length_cons]; omega, ?_⟩
    exact List.forall_mem_cons.mpr ⟨ha, List.forall_mem_cons.mpr ⟨hab.2, hall⟩⟩

theorem not_hexPairs_of_plus (h : '+' ∈ s) : ¬HexPairs s := by
  rintro ⟨-, hall⟩
  obtain ⟨d, hd⟩ := isHexDigit_iff.mp (hall _ h)
  exact (toDigit_spec hd).2.2.1 rfl

/-- Where decoding stops there are no two digits. -/
theorem not_hexPairs_of_stops {mid rest : List Char} (hmid : ReadPairs mid) (h : Stops rest) :
    ¬HexPairs (mid ++ rest) := by
  intro hhex
  obtain ⟨pair, hpair, hnone⟩ := h
  have heven := hhex.byteLen
  have hrest : ∀ c ∈ rest, IsHexDigit c := fun c hc => hhex.2 c (List.mem_append_right _ hc)
  rw [byteLen_append] at heven
  have hmod := hmid.byteLen
  match rest, hrest with
  | [], _ => cases hpair
  | [c], hrest =>
    obtain ⟨d, hd⟩ := isHexDigit_iff.mp (hrest c List.mem_cons_self)
    rw [byteLen_cons, (toDigit_spec hd).1, show byteLen [] = 0 from rfl] at heven
    omega
  | c :: d :: t, hrest =>
    have htaken : Taken c d :=
      ⟨.inr (hrest c List.mem_cons_self), hrest d (List.mem_cons_of_mem _ List.mem_cons_self)⟩
    rw [splitAtByte_pair t htaken.utf8Size.1 htaken.utf8Size.2] at hpair
    obtain rfl := Option.some.inj hpair
    obtain ⟨v, hv, -⟩ := fromStrRadix_taken htaken
    cases hnone.symm.trans hv

section Decoding

variable {mid rest : List Char} (hmid : ReadPairs mid) (heven : byteLen (mid ++ rest) % 2 = 0)

include hmid heven

/-- Decoding is decoding what follows the pairs that are read. -/
theorem decodeHex_readPairs :
    ∃ vs, decodeHex (mid ++ rest) =
        (decodeFrom (mid ++ rest) (List.range' (byteLen mid) (byteLen rest / 2) 2)).map
          (Option.map (vs ++ ·)) ∧
      ('+' ∉ mid → encodeHex vs = mid.map Char.toLower) := by
  obtain ⟨vs, hrun, hlow⟩ := decodeFrom_readPairs hmid (byteLen rest / 2) [] rest
  refine ⟨vs, ?_, hlow⟩
  have hmod := hmid.byteLen
  have hlen : byteLen (mid ++ rest) / 2 = byteLen mid / 2 + byteLen rest / 2 := by
    rw [byteLen_append] at heven ⊢
    omega
  rw [decodeHex, if_neg (by omega), hlen]
  exact hrun

theorem decodeHex_of_cutsChar (h : CutsChar rest) : decodeHex (mid ++ rest) = .panicked := by
  obtain ⟨vs, hrun, -⟩ := decodeHex_readPairs hmid heven
  have hmod := hmid.byteLen
  obtain ⟨k, hk⟩ : ∃ k, byteLen rest / 2 = k + 1 := by
    refine ⟨byteLen rest / 2 - 1, ?_⟩
    rcases h with ⟨c, t, rfl, hc⟩ | ⟨c, d, t, rfl, hc, hd⟩
    · rw [byteLen_cons]
      omega
    · rw [byteLen_cons, byteLen_cons]
      omega
  rw [hrun, hk, List.range'_succ, decodeFrom, slice_append, splitAtByte_of_cutsChar h]
  rfl

theorem decodeHex_of_stops (h : Stops rest) : decodeHex (mid ++ rest) = .returned none := by
  obtain ⟨vs, hrun, -⟩ := decodeHex_readPairs hmid heven
  obtain ⟨pair, hpair, hnone⟩ := h
  have hmod := hmid.byteLen
  have hpos : 0 < byteLen rest := by
    cases rest with
    | nil => cases hpair
    | cons c t =>
      rw [byteLen_cons]
      exact Nat.add_pos_left c.utf8Size_pos _
  obtain ⟨k, hk⟩ : ∃ k, byteLen rest / 2 = k + 1 := by
    refine ⟨byteLen rest / 2 - 1, ?_⟩
    rw [byteLen_append] at heven
    omega
  rw [hrun, hk, List.range'_succ, decodeFrom, slice_append, hpair]
  simp only [hnone]
  rfl

end Decoding

theorem decodeHex_all (h : ReadPairs s) :
    ∃ vs, decodeHex s = .returned (some vs) ∧ ('+' ∉ s → encodeHex vs = s.map Char.toLower) := by
  have heven : byteLen (s ++ []) % 2 = 0 := by
    rw [List.append_nil]
    exact h.byteLen
  obtain ⟨vs, hrun, hlow⟩ := decodeHex_readPairs h heven
  rw [List.append_nil] at hrun
  refine ⟨vs, hrun.trans ?_, hlow⟩
  change Outcome.returned (some (vs ++ [])) = _
  rw [List.append_nil]

/-- A string is decoded exactly if its length in bytes is odd, or no slice cuts a character before
decoding stops and no plus sign is read for a digit. -/
theorem decodesExactly_iff (s : List Char) :
    DecodesExactly s ↔ byteLen s % 2 = 1 ∨ Readable s := by
  obtain hodd | heven := Nat.mod_two_eq_zero_or_one (byteLen s) |>.symm
  · refine iff_of_true ⟨fun h => ?_, fun _ => ?_⟩ (.inl hodd)
    · exact absurd h.byteLen (by omega)
    · rw [decodeHex, if_pos (by omega)]
  · have hnot : ¬byteLen s % 2 = 1 := by omega
    rw [or_iff_right hnot]
    constructor
    · rintro ⟨hyes, hno⟩ mid rest rfl hmid
      constructor
      · intro hcut
        have hpanic := decodeHex_of_cutsChar hmid heven hcut
        by_cases hhex : HexPairs (mid ++ rest)
        · obtain ⟨b, hb, -⟩ := hyes hhex
          cases hpanic.symm.trans hb
        · cases hpanic.symm.trans (hno hhex)
      · rintro rfl hplus
        rw [List.append_nil] at hno
        obtain ⟨vs, hvs, -⟩ := decodeHex_all hmid
        cases hvs.symm.trans (hno (not_hexPairs_of_plus hplus))
    · intro hread
      obtain ⟨mid, rest, rfl, hmid, rfl | hstop | hcut⟩ := exists_readPairs s heven
      · have hplus := (hread mid [] rfl hmid).2 rfl
        rw [List.append_nil]
        obtain ⟨vs, hvs, hlow⟩ := decodeHex_all hmid
        exact ⟨fun _ => ⟨vs, hvs, hlow hplus⟩, fun h => absurd (hmid.hexPairs hplus) h⟩
      · exact ⟨fun h => absurd h (not_hexPairs_of_stops hmid hstop),
          fun _ => decodeHex_of_stops hmid heven hstop⟩
      · exact absurd hcut (hread mid rest rfl hmid).1

/-- A plus sign passes for a digit, and a digit before a character of two bytes is a panic. -/
theorem decodeHex_misreads :
    ¬DecodesExactly ['+', 'f'] ∧ ¬DecodesExactly ['a', 'é', '1'] := by
  constructor
  · rintro ⟨-, hno⟩
    have hsome : decodeHex ['+', 'f'] = .returned (some [15]) := by decide
    cases hsome.symm.trans (hno (not_hexPairs_of_plus List.mem_cons_self))
  · rintro ⟨hyes, hno⟩
    have hpanic : decodeHex ['a', 'é', '1'] = .panicked := by decide
    by_cases hhex : HexPairs ['a', 'é', '1']
    · obtain ⟨b, hb, -⟩ := hyes hhex
      cases hpanic.symm.trans hb
    · cases hpanic.symm.trans (hno hhex)

end Rax.Debug
