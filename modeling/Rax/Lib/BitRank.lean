import Mathlib.Tactic.Common
import Rax.Lib.Bits

/-!
# Bits scattered to and gathered from the positions of a mask

The rank of a position is the number of set positions of the mask below it. Scattering takes the
bit of a set position from its rank, gathering brings it there.
-/

namespace Rax

/-- The number of set positions below a bound. -/
def rank (m : Nat → Bool) (n : Nat) : Nat := (List.range n).countP m

variable {m : Nat → Bool}

theorem rank_succ (m : Nat → Bool) (n : Nat) : rank m (n + 1) = rank m n + (m n).toNat := by
  rw [rank, List.range_succ, List.countP_append, rank]
  cases h : m n <;> simp [h]

theorem rank_mono {i j : Nat} (h : i ≤ j) : rank m i ≤ rank m j := by
  induction j with
  | zero => exact Nat.le_of_eq (congrArg _ (Nat.le_zero.mp h))
  | succ j ih =>
    rcases Nat.eq_or_lt_of_le h with rfl | hlt
    · exact Nat.le_refl _
    · rw [rank_succ]
      exact Nat.le_trans (ih (Nat.le_of_lt_succ hlt)) (Nat.le_add_right _ _)

theorem rank_le (m : Nat → Bool) (n : Nat) : rank m n ≤ n := by
  have h := List.countP_le_length (p := m) (l := List.range n)
  rwa [List.length_range] at h

theorem rank_of_clear {n : Nat} (h : ∀ i, n ≤ i → m i = false) (k : Nat) :
    rank m (n + k) = rank m n := by
  induction k with
  | zero => rfl
  | succ k ih =>
    rw [← Nat.add_assoc, rank_succ, ih, h _ (Nat.le_add_right n k)]
    rfl

/-- A set position counts for every position above it. -/
theorem rank_lt {i j : Nat} (hset : m i = true) (h : i < j) : rank m i < rank m j := by
  refine Nat.lt_of_lt_of_le ?_ (rank_mono h)
  rw [rank_succ, hset]
  exact Nat.lt_succ_self _

theorem rank_inj {i j : Nat} (hi : m i = true) (hj : m j = true) (h : rank m i = rank m j) :
    i = j := by
  rcases Nat.lt_trichotomy i j with hlt | heq | hlt
  · exact absurd h (Nat.ne_of_lt (rank_lt hi hlt))
  · exact heq
  · exact absurd h.symm (Nat.ne_of_lt (rank_lt hj hlt))

/-- Every number below the count of set positions is the rank of one. -/
theorem exists_rank_eq {n r : Nat} (h : r < rank m n) : ∃ i < n, m i = true ∧ rank m i = r := by
  induction n with
  | zero => exact absurd h (Nat.not_lt_zero _)
  | succ n ih =>
    rw [rank_succ] at h
    by_cases hr : r < rank m n
    · obtain ⟨i, hi, hset, hrank⟩ := ih hr
      exact ⟨i, Nat.lt_succ_of_lt hi, hset, hrank⟩
    · cases hn : m n with
      | false =>
        rw [hn] at h
        exact absurd h hr
      | true =>
        rw [hn] at h
        exact ⟨n, Nat.lt_succ_self n, hn, by simp only [Bool.toNat_true] at h; omega⟩

/-! ## The loops -/

section Loops

variable {w : Nat}

def depositStep (src mask : BitVec w) (acc : BitVec w × Nat) (i : Nat) : BitVec w × Nat :=
  if mask.getLsbD i then
    (if src.getLsbD acc.2 then acc.1 ||| (1#w <<< i) else acc.1, acc.2 + 1)
  else acc

def depositLoop (src mask : BitVec w) (n : Nat) : BitVec w × Nat :=
  (List.range n).foldl (depositStep src mask) (0, 0)

def extractStep (src mask : BitVec w) (acc : BitVec w × Nat) (i : Nat) : BitVec w × Nat :=
  if mask.getLsbD i then
    (if src.getLsbD i then acc.1 ||| (1#w <<< acc.2) else acc.1, acc.2 + 1)
  else acc

def extractLoop (src mask : BitVec w) (n : Nat) : BitVec w × Nat :=
  (List.range n).foldl (extractStep src mask) (0, 0)

variable (src mask : BitVec w) (n : Nat)

theorem depositLoop_succ : depositLoop src mask (n + 1) =
    depositStep src mask (depositLoop src mask n) n := by
  rw [depositLoop, List.range_succ, List.foldl_append]
  rfl

theorem extractLoop_succ : extractLoop src mask (n + 1) =
    extractStep src mask (extractLoop src mask n) n := by
  rw [extractLoop, List.range_succ, List.foldl_append]
  rfl

theorem depositLoop_snd : (depositLoop src mask n).2 = rank mask.getLsbD n := by
  induction n with
  | zero => rfl
  | succ n ih =>
    rw [depositLoop_succ, depositStep, rank_succ]
    cases mask.getLsbD n with
    | false => exact ih
    | true => exact congrArg (· + 1) ih

theorem extractLoop_snd : (extractLoop src mask n).2 = rank mask.getLsbD n := by
  induction n with
  | zero => rfl
  | succ n ih =>
    rw [extractLoop_succ, extractStep, rank_succ]
    cases mask.getLsbD n with
    | false => exact ih
    | true => exact congrArg (· + 1) ih

/-- A set position has the bit of its rank, the others none. -/
theorem getLsbD_depositLoop {j : Nat} (hj : j < w) : (depositLoop src mask n).1.getLsbD j =
    (decide (j < n) && (mask.getLsbD j && src.getLsbD (rank mask.getLsbD j))) := by
  induction n with
  | zero => simp [depositLoop]
  | succ n ih =>
    rw [depositLoop_succ, depositStep, depositLoop_snd]
    by_cases hjn : j = n
    · subst hjn
      cases hmask : mask.getLsbD j with
      | false => simpa [hmask] using ih
      | true =>
        cases hsrc : src.getLsbD (rank mask.getLsbD j) with
        | false => simpa [hsrc] using ih
        | true => simp [getLsbD_one_shiftLeft hj]
    · have hiff : decide (j < n + 1) = decide (j < n) := decide_eq_decide.mpr (by omega)
      rw [hiff, ← ih]
      cases mask.getLsbD n with
      | false => rfl
      | true =>
        cases src.getLsbD (rank mask.getLsbD n) with
        | false => rfl
        | true => simp [getLsbD_one_shiftLeft hj, hjn]

/-- The bit of a rank is the one at the set position. -/
theorem getLsbD_extractLoop (hn : n ≤ w) (r : Nat) : (extractLoop src mask n).1.getLsbD r = true ↔
    ∃ i < n, mask.getLsbD i = true ∧ rank mask.getLsbD i = r ∧ src.getLsbD i = true := by
  induction n with
  | zero => simp [extractLoop]
  | succ n ih =>
    specialize ih (by omega)
    have hstep : (extractLoop src mask (n + 1)).1.getLsbD r = true ↔
        (extractLoop src mask n).1.getLsbD r = true ∨
          (mask.getLsbD n = true ∧ rank mask.getLsbD n = r ∧ src.getLsbD n = true) := by
      rw [extractLoop_succ, extractStep, extractLoop_snd]
      have hrank := rank_le mask.getLsbD n
      cases mask.getLsbD n with
      | false => simp
      | true =>
        cases src.getLsbD n with
        | false => simp
        | true =>
          have hone : (1#w <<< rank mask.getLsbD n).getLsbD r = true ↔
              rank mask.getLsbD n = r := by
            by_cases hr : r < w
            · rw [getLsbD_one_shiftLeft hr, decide_eq_true_eq]
              exact eq_comm
            · rw [BitVec.getLsbD_of_ge _ _ (by omega)]
              exact iff_of_false Bool.false_ne_true (by omega)
          rw [if_pos rfl, if_pos rfl, BitVec.getLsbD_or, Bool.or_eq_true, hone]
          simp
    rw [hstep, ih]
    constructor
    · rintro (⟨i, hi, h⟩ | h)
      · exact ⟨i, Nat.lt_succ_of_lt hi, h⟩
      · exact ⟨n, Nat.lt_succ_self n, h⟩
    · rintro ⟨i, hi, h⟩
      rcases Nat.lt_succ_iff_lt_or_eq.mp hi with hlt | rfl
      · exact .inl ⟨i, hlt, h⟩
      · exact .inr h

/-- Gathering what was scattered gives as many low bits as the mask has set positions. -/
theorem getLsbD_extract_deposit (hn : n ≤ w) {r : Nat} :
    (extractLoop (depositLoop src mask n).1 mask n).1.getLsbD r =
      (decide (r < rank mask.getLsbD n) && src.getLsbD r) := by
  rw [Bool.eq_iff_iff, getLsbD_extractLoop _ _ _ hn, Bool.and_eq_true, decide_eq_true_eq]
  constructor
  · rintro ⟨i, hi, hset, rfl, hbit⟩
    rw [getLsbD_depositLoop _ _ _ (by omega), Bool.and_eq_true, Bool.and_eq_true] at hbit
    exact ⟨rank_lt hset hi, hbit.2.2⟩
  · rintro ⟨hr, hbit⟩
    obtain ⟨i, hi, hset, rfl⟩ := exists_rank_eq hr
    refine ⟨i, hi, hset, rfl, ?_⟩
    rw [getLsbD_depositLoop _ _ _ (by omega), decide_eq_true hi, hset, hbit]
    rfl

/-- Scattering what was gathered gives the bits at the set positions. -/
theorem getLsbD_deposit_extract (hn : n ≤ w) {j : Nat} (hj : j < w) :
    (depositLoop (extractLoop src mask n).1 mask n).1.getLsbD j =
      (decide (j < n) && (mask.getLsbD j && src.getLsbD j)) := by
  rw [getLsbD_depositLoop _ _ _ hj]
  by_cases hjn : j < n
  · cases hset : mask.getLsbD j with
    | false => simp
    | true =>
      have hbit : (extractLoop src mask n).1.getLsbD (rank mask.getLsbD j) = src.getLsbD j := by
        rw [Bool.eq_iff_iff, getLsbD_extractLoop _ _ _ hn]
        constructor
        · rintro ⟨i, -, hi, hrank, hbit⟩
          rwa [rank_inj hi hset hrank] at hbit
        · exact fun hbit => ⟨j, hjn, hset, rfl, hbit⟩
      rw [hbit]
  · simp [hjn]

end Loops

end Rax
