import Mathlib.Data.List.TakeWhile
import Mathlib.Tactic.Common

/-!
# Packets of the remote serial protocol

A packet is `$data#cc`. The parser looks for the first `$` of a buffer, the next `#` and two
checksum bytes behind it; what stands before the `$` goes away with the packet.
-/

namespace Rax.Debug

def dollar : UInt8 := 0x24
def hash : UInt8 := 0x23
def plus : UInt8 := 0x2b

/-- A buffer cut at its first packet: what precedes it, its data, the two checksum bytes and
what follows. -/
structure Frame where
  gap : List UInt8
  data : List UInt8
  high : UInt8
  low : UInt8
  rest : List UInt8
  deriving DecidableEq

/-- First `$`, the next `#` and two more bytes. -/
def nextFrame (buf : List UInt8) : Option Frame :=
  match buf.dropWhile (· != dollar) with
  | [] => none
  | _ :: body =>
    match body.dropWhile (· != hash) with
    | _ :: high :: low :: rest =>
      some ⟨buf.takeWhile (· != dollar), body.takeWhile (· != hash), high, low, rest⟩
    | _ => none

def hexDigit (b : UInt8) : Option UInt8 :=
  if 0x30 ≤ b ∧ b ≤ 0x39 then some (b - 0x30)
  else if 0x61 ≤ b ∧ b ≤ 0x66 then some (b - 0x57)
  else if 0x41 ≤ b ∧ b ≤ 0x46 then some (b - 0x37)
  else none

/-- `u8::from_str_radix` on two bytes; it takes a leading plus sign. -/
def parseChecksum (high low : UInt8) : Option UInt8 :=
  if high = plus then hexDigit low
  else (hexDigit high).bind fun h => (hexDigit low).map fun l => h * 16 + l

def checksum (data : List UInt8) : UInt8 := data.foldl (· + ·) 0

/-- The checksum digits are well formed and right. -/
def Frame.good (f : Frame) : Bool := parseChecksum f.high f.low == some (checksum f.data)

/-- `parse_packet`, with the buffer that is left once the packet has been drained. -/
def parsePacket (buf : List UInt8) : Option (List UInt8 × List UInt8) :=
  (nextFrame buf).bind fun f => if f.good then some (f.data, f.rest) else none

variable {buf rest data : List UInt8} {f : Frame}

theorem takeWhile_append_stop {α : Type} [BEq α] [LawfulBEq α] {l r : List α} {x : α}
    (h : x ∉ l) : (l ++ x :: r).takeWhile (· != x) = l ∧
      (l ++ x :: r).dropWhile (· != x) = x :: r := by
  induction l with
  | nil => simp
  | cons y l ih =>
    obtain ⟨hne, hl⟩ : ¬ x = y ∧ x ∉ l := by simpa using h
    have hyx : (y != x) = true := by simpa [bne_iff_ne] using Ne.symm hne
    simp [hyx, ih hl]

theorem nextFrame_eq_some_iff : nextFrame buf = some f ↔
    buf = f.gap ++ dollar :: (f.data ++ hash :: f.high :: f.low :: f.rest) ∧
      dollar ∉ f.gap ∧ hash ∉ f.data := by
  constructor
  · intro h
    unfold nextFrame at h
    split at h
    case h_1 => cases h
    case h_2 d body hbody =>
      split at h
      case h_1 x high low rest htail =>
        cases h
        have hd : d = dollar := by
          have := List.head_dropWhile_not (· != dollar) (l := buf) (by simp [hbody])
          simpa [hbody] using this
        have hx : x = hash := by
          have := List.head_dropWhile_not (· != hash) (l := body) (by simp [htail])
          simpa [htail] using this
        refine ⟨?_, fun hmem => ?_, fun hmem => ?_⟩
        · have hbuf := List.takeWhile_append_dropWhile (p := (· != dollar)) (l := buf)
          have hdata := List.takeWhile_append_dropWhile (p := (· != hash)) (l := body)
          rw [htail, hx] at hdata
          rw [hbody, hd] at hbuf
          rw [hdata, hbuf]
        · simpa using List.mem_takeWhile_imp hmem
        · simpa using List.mem_takeWhile_imp hmem
      case h_2 => cases h
  · rintro ⟨hbuf, hgap, hdata⟩
    obtain ⟨htake, hdrop⟩ :=
      takeWhile_append_stop (r := f.data ++ hash :: f.high :: f.low :: f.rest) hgap
    obtain ⟨htake', hdrop'⟩ := takeWhile_append_stop (r := f.high :: f.low :: f.rest) hdata
    simp [nextFrame, hbuf, htake, hdrop, htake', hdrop']

theorem nextFrame_append (h : nextFrame buf = some f) (more : List UInt8) :
    nextFrame (buf ++ more) = some { f with rest := f.rest ++ more } := by
  obtain ⟨hbuf, hgap, hdata⟩ := nextFrame_eq_some_iff.mp h
  exact nextFrame_eq_some_iff.mpr ⟨by simp [hbuf], hgap, hdata⟩

theorem nextFrame_cons_of_ne {b : UInt8} (hb : b ≠ dollar) :
    nextFrame (b :: buf) = (nextFrame buf).map fun f => { f with gap := b :: f.gap } := by
  have hbne : (b != dollar) = true := by simpa using hb
  simp only [nextFrame, List.dropWhile_cons, List.takeWhile_cons, hbne, if_true]
  split
  · rfl
  · split <;> rfl

theorem nextFrame_rest_length (h : nextFrame buf = some f) : f.rest.length < buf.length := by
  obtain ⟨hbuf, -, -⟩ := nextFrame_eq_some_iff.mp h
  rw [hbuf]
  simp only [List.length_append, List.length_cons]
  omega

theorem parsePacket_eq_some_iff : parsePacket buf = some (data, rest) ↔
    ∃ f, nextFrame buf = some f ∧ f.good = true ∧ f.data = data ∧ f.rest = rest := by
  unfold parsePacket
  constructor
  · intro h
    obtain ⟨f, hf, hgood⟩ := Option.bind_eq_some_iff.mp h
    split at hgood
    case isTrue hg =>
      simp only [Option.some.injEq, Prod.mk.injEq] at hgood
      exact ⟨f, hf, hg, hgood⟩
    case isFalse => cases hgood
  · rintro ⟨f, hf, hgood, rfl, rfl⟩
    simp [hf, hgood]

theorem parsePacket_of_frame (hf : nextFrame buf = some f) (hgood : f.good = true) :
    parsePacket buf = some (f.data, f.rest) :=
  parsePacket_eq_some_iff.mpr ⟨f, hf, hgood, rfl, rfl⟩

theorem parsePacket_rest_length (h : parsePacket buf = some (data, rest)) :
    rest.length < buf.length := by
  obtain ⟨f, hf, -, -, rfl⟩ := parsePacket_eq_some_iff.mp h
  exact nextFrame_rest_length hf

end Rax.Debug
