import Rax.Devices.Serial
import Rax.Lib.StreamFilter

/-!
# The escape sequence filters of the serial port

`queue_input` takes cursor position reports out of the host's input and `filter_cpq` takes cursor
position queries out of the guest's output. Both withhold what may become such a sequence. A byte
that breaks a sequence off is passed on without being looked at as a new start, and the input
filter then forgets the digits it has withheld.
-/

namespace Rax.Devices

/-! ## Reports in the input -/

/-- Bytes after the first digit of a report. -/
def isNumberByte (byte : UInt8) : Bool := isDigit byte || byte == 0x3b

/-- `ESC [`, a digit, and then digits and semicolons. -/
def IsNumber (w : List UInt8) : Prop :=
  ∃ d body, isDigit d = true ∧ (∀ b ∈ body, isNumberByte b = true) ∧
    w = 0x1b :: 0x5b :: d :: body

/-- A complete cursor position report. -/
def IsReport (w : List UInt8) : Prop := ∃ v, IsNumber v ∧ w = v ++ [0x52]

/-- A report that lacks its end. -/
def IsUnfinishedReport (w : List UInt8) : Prop := w = [0x1b] ∨ w = [0x1b, 0x5b] ∨ IsNumber w

/-- The bytes read since the filter left its normal state. -/
def withheld : CprFilterState → List UInt8 → List UInt8 → List UInt8
  | _, w, [] => w
  | state, w, byte :: bytes =>
    let next := (filterByte state byte).1
    withheld next (if next = .normal then [] else w ++ [byte]) bytes

variable {byte : UInt8}

namespace CprFilterState

/-- The states of the filter as states of a reader. -/
def next : CprFilterState → UInt8 → Cursor CprFilterState
  | .normal, _ => .dead
  | .gotEsc, byte => if byte = 0x5b then .reading .gotBracket else .dead
  | .gotBracket, byte => if isDigit byte then .reading .inNumber else .dead
  | .inNumber, byte =>
    if isNumberByte byte then .reading .inNumber else if byte = 0x52 then .matched else .dead

def cursor : CprFilterState → Cursor CprFilterState
  | .normal => .fresh
  | state => .reading state

def isInNumber : CprFilterState → Bool
  | .inNumber => true
  | _ => false

def start (byte : UInt8) : Option CprFilterState := if byte = 0x1b then some .gotEsc else none

theorem start_eq {state : CprFilterState} (h : start byte = some state) :
    byte = 0x1b ∧ state = .gotEsc := by
  rw [start] at h
  split at h
  · exact ⟨‹_›, (Option.some.inj h).symm⟩
  · cases h

theorem next_esc (state : CprFilterState) : state.next 0x1b = .dead := by cases state <;> rfl

theorem next_ne_fresh (state : CprFilterState) (byte : UInt8) : state.next byte ≠ .fresh := by
  cases state <;> simp only [next] <;> (try split) <;> (try split) <;> simp

theorem next_mark {state t : CprFilterState} (h : state.next byte = .reading t) :
    (byte == 0x52) = false := by
  refine Bool.eq_false_iff.mpr fun hmark => ?_
  rw [beq_iff_eq.mp hmark] at h
  have hnext : state.next 0x52 = .dead ∨ state.next 0x52 = .matched := by cases state <;> decide
  rw [h] at hnext
  simp at hnext

theorem next_eq_reading_iff {state t : CprFilterState} :
    state.next byte = .reading t ↔
      state = .gotEsc ∧ byte = 0x5b ∧ t = .gotBracket ∨
      state = .gotBracket ∧ isDigit byte = true ∧ t = .inNumber ∨
      state = .inNumber ∧ isNumberByte byte = true ∧ t = .inNumber := by
  have hread (u : CprFilterState) : Cursor.reading u = .reading t ↔ t = u := by
    rw [Cursor.reading.injEq]
    exact eq_comm
  cases state with
  | normal => simp [next]
  | gotEsc =>
    by_cases h : byte = 0x5b
    · simp [next, h, hread]
    · simp [next, h]
  | gotBracket =>
    by_cases h : isDigit byte = true
    · simp [next, h, hread]
    · simp [next, h]
  | inNumber =>
    by_cases h : isNumberByte byte = true
    · simp [next, h, hread]
    · rw [next, if_neg h]
      split <;> simp [h]

theorem next_eq_matched {state : CprFilterState} (h : state.next byte = .matched) :
    state = .inNumber ∧ byte = 0x52 := by
  cases state with
  | normal => cases h
  | gotEsc =>
    rw [next] at h
    split at h <;> cases h
  | gotBracket =>
    rw [next] at h
    split at h <;> cases h
  | inNumber =>
    rw [next] at h
    split at h
    · cases h
    · split at h
      · exact ⟨rfl, ‹_›⟩
      · cases h

end CprFilterState

/-- The reader of reports. -/
def reportMatcher : Matcher UInt8 CprFilterState where
  start := CprFilterState.start
  next := CprFilterState.next
  mark byte := byte == 0x52
  next_start h := (CprFilterState.start_eq h).1 ▸ CprFilterState.next_esc _
  next_fresh := CprFilterState.next_ne_fresh
  mark_start h := (CprFilterState.start_eq h).1 ▸ rfl
  mark_next := CprFilterState.next_mark
  mark_matched h := beq_iff_eq.mpr (CprFilterState.next_eq_matched h).2

theorem isNumber_concat_iff {w : List UInt8} :
    IsNumber (w ++ [byte]) ↔ w = [0x1b, 0x5b] ∧ isDigit byte = true ∨
      IsNumber w ∧ isNumberByte byte = true := by
  constructor
  · rintro ⟨d, body, hd, hbody, heq⟩
    cases body using List.reverseRecOn with
    | nil =>
      have hlast : w ++ [byte] = [0x1b, 0x5b] ++ [d] := heq
      obtain ⟨rfl, hbyte⟩ := List.append_inj' hlast rfl
      exact .inl ⟨rfl, by rwa [(List.cons.inj hbyte).1]⟩
    | append_singleton body b =>
      have hlast : w ++ [byte] = 0x1b :: 0x5b :: d :: body ++ [b] := heq
      obtain ⟨rfl, hbyte⟩ := List.append_inj' hlast rfl
      refine .inr ⟨⟨d, body, hd, fun c hc => hbody c (by simp [hc]), rfl⟩, ?_⟩
      rw [(List.cons.inj hbyte).1]
      exact hbody b (by simp)
  · rintro (⟨rfl, hd⟩ | ⟨⟨d, body, hd, hbody, rfl⟩, hbyte⟩)
    · exact ⟨byte, [], hd, by simp, rfl⟩
    · refine ⟨d, body ++ [byte], hd, fun b hb => ?_, by simp⟩
      rcases List.mem_append.mp hb with hb | hb
      · exact hbody b hb
      · rwa [List.mem_singleton.mp hb]

/-- The words that the reader has read in a state. -/
def CprFilterState.Word : CprFilterState → List UInt8 → Prop
  | .normal, _ => False
  | .gotEsc, w => w = [0x1b]
  | .gotBracket, w => w = [0x1b, 0x5b]
  | .inNumber, w => IsNumber w

theorem scan_report_iff (w : List UInt8) (state : CprFilterState) :
    reportMatcher.scan w = .reading state ↔ state.Word w := by
  induction w using List.reverseRecOn generalizing state with
  | nil => cases state <;> simp [CprFilterState.Word, IsNumber]
  | append_singleton w byte ih =>
    have hstart : reportMatcher.start byte = some state ↔ byte = 0x1b ∧ state = .gotEsc := by
      refine ⟨CprFilterState.start_eq, ?_⟩
      rintro ⟨rfl, rfl⟩
      rfl
    have hnext (t : CprFilterState) : reportMatcher.next t byte = .reading state ↔ _ :=
      CprFilterState.next_eq_reading_iff
    simp only [reportMatcher.scan_concat_eq_reading_iff, ih, hstart, hnext]
    have hesc : w ++ [byte] = [0x1b] ↔ w = [] ∧ byte = 0x1b := by cases w <;> simp
    have hbracket : w ++ [byte] = [0x1b, 0x5b] ↔ w = [0x1b] ∧ byte = 0x5b := by
      rw [← List.append_singleton_inj]
      exact Iff.rfl
    cases state with
    | normal => simp [CprFilterState.Word]
    | gotEsc => simp [CprFilterState.Word, hesc]
    | gotBracket => simp [CprFilterState.Word, hbracket]
    | inNumber =>
      simp only [CprFilterState.Word, isNumber_concat_iff, and_or_left, exists_or]
      simp

theorem open_report_iff (w : List UInt8) : reportMatcher.Open w ↔ IsUnfinishedReport w := by
  simp only [Matcher.Open, scan_report_iff]
  constructor
  · rintro ⟨state, h⟩
    cases state with
    | normal => exact absurd h id
    | gotEsc => exact .inl h
    | gotBracket => exact .inr (.inl h)
    | inNumber => exact .inr (.inr h)
  · rintro (h | h | h)
    · exact ⟨.gotEsc, h⟩
    · exact ⟨.gotBracket, h⟩
    · exact ⟨.inNumber, h⟩

theorem match_report_iff (w : List UInt8) : reportMatcher.Match w ↔ IsReport w := by
  constructor
  · intro h
    cases w using List.reverseRecOn with
    | nil => exact absurd h (by simp [Matcher.Match])
    | append_singleton v byte =>
      obtain ⟨t, hv, hbyte⟩ := reportMatcher.match_concat_iff.mp h
      obtain ⟨rfl, rfl⟩ := CprFilterState.next_eq_matched hbyte
      exact ⟨v, (scan_report_iff v .inNumber).mp hv, rfl⟩
  · rintro ⟨v, hv, rfl⟩
    exact reportMatcher.match_concat_iff.mpr ⟨.inNumber, (scan_report_iff v .inNumber).mpr hv, rfl⟩

/-- The bytes that the filter can restore from its state. -/
def CprFilterState.Restores : CprFilterState → List UInt8 → Prop
  | .normal, w => w = []
  | .gotEsc, w => w = [0x1b]
  | .gotBracket, w => w = [0x1b, 0x5b]
  | .inNumber, _ => True

/-- One byte of input, by what the reader makes of it. -/
theorem filterByte_eq {state : CprFilterState} {w : List UInt8} (h : state.Restores w)
    (byte : UInt8) :
    match reportMatcher.advance state.cursor byte with
    | .reading t => filterByte state byte = (t, []) ∧ t ≠ .normal ∧ t.Restores (w ++ [byte])
    | .matched => filterByte state byte = (.normal, [])
    | .fresh | .dead => filterByte state byte =
        (.normal, (if Matcher.loses CprFilterState.isInNumber state.cursor then [] else w) ++ [byte]) := by
  cases state with
  | normal =>
    have hw : w = [] := h
    by_cases hbyte : byte = 0x1b
    · subst hbyte hw
      exact ⟨rfl, by simp, rfl⟩
    · have hadvance : reportMatcher.advance (CprFilterState.cursor .normal) byte = .dead := by
        show (CprFilterState.start byte).elim _ _ = _
        rw [CprFilterState.start, if_neg hbyte]
        rfl
      rw [hadvance, hw]
      exact if_neg hbyte
  | gotEsc =>
    have hw : w = [0x1b] := h
    have hadvance : reportMatcher.advance (CprFilterState.cursor .gotEsc) byte =
      if byte = 0x5b then .reading .gotBracket else .dead := rfl
    by_cases hbyte : byte = 0x5b
    · rw [hadvance, if_pos hbyte]
      exact ⟨if_pos hbyte, by simp, by rw [hw, hbyte]; rfl⟩
    · rw [hadvance, if_neg hbyte, hw]
      exact if_neg hbyte
  | gotBracket =>
    have hw : w = [0x1b, 0x5b] := h
    have hadvance : reportMatcher.advance (CprFilterState.cursor .gotBracket) byte =
      if isDigit byte then .reading .inNumber else .dead := rfl
    by_cases hbyte : isDigit byte = true
    · rw [hadvance, if_pos hbyte]
      exact ⟨if_pos hbyte, by simp, trivial⟩
    · rw [hadvance, if_neg hbyte, hw]
      exact if_neg hbyte
  | inNumber =>
    have hadvance : reportMatcher.advance (CprFilterState.cursor .inNumber) byte =
      if isNumberByte byte then .reading .inNumber
      else if byte = 0x52 then .matched else .dead := rfl
    have hfilter : filterByte .inNumber byte =
      if isNumberByte byte then (.inNumber, [])
      else if byte = 0x52 then (.normal, []) else (.normal, [byte]) := rfl
    by_cases hnumber : isNumberByte byte = true
    · rw [hadvance, if_pos hnumber]
      exact ⟨by rw [hfilter, if_pos hnumber], by simp, trivial⟩
    · rw [hadvance, if_neg hnumber, hfilter, if_neg hnumber]
      by_cases hmark : byte = 0x52
      · rw [if_pos hmark, if_pos hmark]
      · rw [if_neg hmark, if_neg hmark]
        rfl

/-- What is staged, and then what is withheld, is what the reader's filter shows. -/
theorem filterInput_shown (state : CprFilterState) (w bytes : List UInt8) (h : state.Restores w) :
    (filterInput state bytes).2 ++ withheld state w bytes =
      reportMatcher.shown CprFilterState.isInNumber state.cursor w bytes := by
  induction bytes generalizing state w with
  | nil => simp [filterInput, withheld, Matcher.shown]
  | cons byte bytes ih =>
    have hstep := filterByte_eq h byte
    rw [filterInput, withheld, Matcher.shown]
    cases hnext : reportMatcher.advance state.cursor byte with
    | reading t =>
      rw [hnext] at hstep
      obtain ⟨hbyte, hnormal, hrestores⟩ := hstep
      have hcursor : t.cursor = .reading t := by cases t <;> first | rfl | exact absurd rfl hnormal
      rw [hbyte]
      simp only [if_neg hnormal, List.nil_append]
      rw [ih t (w ++ [byte]) hrestores, hcursor]
    | matched =>
      rw [hnext] at hstep
      rw [hstep]
      exact ih .normal [] rfl
    | fresh | dead =>
      rw [hnext] at hstep
      rw [hstep]
      simp only [if_pos, List.append_assoc, List.cons_append]
      rw [ih .normal [] rfl]
      rfl

namespace SerialEvent

/-- The host's part of an event. -/
def host : SerialEvent → List UInt8
  | .input bytes => bytes
  | .read _ | .write _ _ => []

def apply (u : Serial16550) : SerialEvent → Serial16550
  | .input bytes => u.queueInput bytes
  | .read offset => (u.readReg offset).2
  | .write offset value => u.writeReg offset value

end SerialEvent

namespace Serial16550

/-- The bytes that a run adds to the staging buffer. -/
def stagedBy : Serial16550 → List SerialEvent → List UInt8
  | _, [] => []
  | u, event :: events => (filterInput u.cprState event.host).2 ++ stagedBy (event.apply u) events

theorem transmitByte_cprState (u : Serial16550) (data : UInt8) :
    (u.transmitByte data).cprState = u.cprState := by
  rw [transmitByte]
  dsimp only
  split
  · exact u.receiveByte_cprState data
  · exact (u.sameInput_filterCpq data).cprState

theorem writeFcr_cprState (u : Serial16550) (value : UInt8) :
    (u.writeFcr value).cprState = u.cprState := by
  rw [writeFcr]
  dsimp only
  split <;> split <;> split <;> rfl

theorem writeReg_cprState (u : Serial16550) (offset : Nat) (value : UInt8) :
    (u.writeReg offset value).cprState = u.cprState := by
  unfold writeReg
  split
  · split
    · rfl
    · exact transmitByte_cprState _ value
  · split
    · rfl
    · dsimp only
      split <;> rfl
  · exact u.writeFcr_cprState value
  · rfl
  · exact (u.sameInput_writeMcr value).cprState
  · rfl
  · rfl

theorem readReg_cprState (u : Serial16550) (offset : Nat) :
    (u.readReg offset).2.cprState = u.cprState := by
  unfold readReg
  split
  · split
    · rfl
    · exact pumpFrom_cprState _ _
  · rfl
  · dsimp only
    split <;> rfl
  all_goals rfl

theorem apply_cprState (u : Serial16550) (event : SerialEvent) :
    (event.apply u).cprState = (filterInput u.cprState event.host).1 := by
  cases event with
  | input bytes => exact pumpFrom_cprState _ _
  | read offset => exact u.readReg_cprState offset
  | write offset value => exact u.writeReg_cprState offset value

theorem stagedBy_eq (u : Serial16550) (events : List SerialEvent) :
    u.stagedBy events = (filterInput u.cprState (events.flatMap SerialEvent.host)).2 := by
  induction events generalizing u with
  | nil => rfl
  | cons event events ih =>
    rw [stagedBy, ih, apply_cprState, List.flatMap_cons, filterInput_append]

end Serial16550

theorem lost_report_iff {w : List UInt8} :
    reportMatcher.Open w ∧ Matcher.loses CprFilterState.isInNumber (reportMatcher.scan w) = true ∧
        reportMatcher.scan (w ++ [byte]) = .dead ↔
      IsNumber w ∧ isNumberByte byte = false ∧ byte ≠ 0x52 := by
  have hdead (hw : reportMatcher.scan w = .reading .inNumber) :
      reportMatcher.scan (w ++ [byte]) = .dead ↔ isNumberByte byte = false ∧ byte ≠ 0x52 := by
    have hnext : reportMatcher.scan (w ++ [byte]) =
        if isNumberByte byte then .reading .inNumber
        else if byte = 0x52 then .matched else .dead := by
      rw [Matcher.scan_concat, hw]
      rfl
    rw [hnext]
    by_cases hnumber : isNumberByte byte = true
    · simp [hnumber]
    · rw [if_neg hnumber]
      by_cases hmark : byte = 0x52
      · simp [hmark]
      · simp [hnumber, hmark]
  constructor
  · rintro ⟨⟨state, hw⟩, hloses, hbroken⟩
    rw [hw] at hloses
    cases state with
    | inNumber => exact ⟨(scan_report_iff w .inNumber).mp hw, (hdead hw).mp hbroken⟩
    | normal | gotEsc | gotBracket => cases hloses
  · rintro ⟨hnumber, hbyte⟩
    have hw : reportMatcher.scan w = .reading .inNumber := (scan_report_iff w .inNumber).mpr hnumber
    exact ⟨⟨_, hw⟩, by rw [hw]; rfl, (hdead hw).mpr hbyte⟩

/-- Each report follows an even number of unfinished ones. -/
def ReportsNoticed (bytes : List UInt8) : Prop :=
  ∀ pre w post k, bytes = pre ++ w ++ post → IsReport w → Chain IsUnfinishedReport pre k → Even k

/-- Each unfinished report with a digit that breaks off follows an odd number of unfinished ones. -/
def NumbersPassed (bytes : List UInt8) : Prop :=
  ∀ pre w byte post k, bytes = pre ++ w ++ byte :: post → IsNumber w →
    isNumberByte byte = false → byte ≠ 0x52 → Chain IsUnfinishedReport pre k → Odd k

/-- Host input is delivered without its reports, and otherwise unchanged, exactly if no report
follows an unfinished one that the filter withholds and no withheld number breaks off. -/
theorem queueInput_exact_iff (u : Serial16550) (hu : u.cprState = .normal)
    (events : List SerialEvent) (bytes : List UInt8)
    (hbytes : events.flatMap SerialEvent.host = bytes) :
    Removed IsReport bytes (u.stagedBy events ++ withheld .normal [] bytes) ↔
      ReportsNoticed bytes ∧ NumbersPassed bytes := by
  have hmatch : reportMatcher.Match = IsReport := funext fun w => propext (match_report_iff w)
  have hopen : reportMatcher.Open = IsUnfinishedReport :=
    funext fun w => propext (open_report_iff w)
  have hexact := Matcher.removed_shown_iff_even (m := reportMatcher) CprFilterState.isInNumber bytes
  rw [u.stagedBy_eq events, hu, hbytes, filterInput_shown .normal [] bytes rfl]
  rw [hmatch] at hexact
  refine hexact.trans (and_congr (by rw [hopen]; exact Iff.rfl) ?_)
  rw [NumbersPassed, ← hopen]
  constructor
  · intro h pre w byte post k heq hw hnumber hmark hk
    obtain ⟨hw, hloses, hbroken⟩ := lost_report_iff.mpr ⟨hw, hnumber, hmark⟩
    exact h pre w byte post k heq hw hloses hbroken hk
  · intro h pre w byte post k heq hw hloses hbroken hk
    obtain ⟨hw, hnumber, hmark⟩ := lost_report_iff.mp ⟨hw, hloses, hbroken⟩
    exact h pre w byte post k heq hw hnumber hmark hk

theorem queueInput_exact_iff_split :
    Removed IsReport [0x61, 0x1b, 0x5b, 0x31, 0x52]
        (({} : Serial16550).stagedBy [.input [0x61, 0x1b], .read 0, .input [0x5b, 0x31, 0x52]] ++
          withheld .normal [] [0x61, 0x1b, 0x5b, 0x31, 0x52]) ↔
      ReportsNoticed [0x61, 0x1b, 0x5b, 0x31, 0x52] ∧ NumbersPassed [0x61, 0x1b, 0x5b, 0x31, 0x52] :=
  queueInput_exact_iff {} rfl [.input [0x61, 0x1b], .read 0, .input [0x5b, 0x31, 0x52]] _ rfl

/-- The Delete key, `ESC [ 3 ~`, arrives as `~`. -/
theorem queueInput_deleteKey :
    ¬ Removed IsReport [0x1b, 0x5b, 0x33, 0x7e]
      (({} : Serial16550).stagedBy [.input [0x1b, 0x5b, 0x33, 0x7e]] ++
        withheld .normal [] [0x1b, 0x5b, 0x33, 0x7e]) := by
  have hshown : ({} : Serial16550).stagedBy [.input [0x1b, 0x5b, 0x33, 0x7e]] ++
      withheld .normal [] [0x1b, 0x5b, 0x33, 0x7e] = [0x7e] := by decide
  rw [hshown]
  intro h
  generalize hxs : ([0x1b, 0x5b, 0x33, 0x7e] : List UInt8) = xs at h
  cases h with
  | drop hw _ =>
    obtain ⟨v, -, rfl⟩ := hw
    have hmem : (0x52 : UInt8) ∈ [0x1b, 0x5b, 0x33, 0x7e] := by simp [hxs]
    exact absurd hmem (by decide)
  | keep => simp at hxs

/-! ## Queries in the output -/

/-- `ESC [ 6 n`. -/
def query : List UInt8 := [0x1b, 0x5b, 0x36, 0x6e]

/-- A query that lacks its end. -/
inductive QueryPart
  | esc
  | bracket
  | six
  deriving DecidableEq

namespace QueryPart

def bytes : QueryPart → List UInt8
  | .esc => [0x1b]
  | .bracket => [0x1b, 0x5b]
  | .six => [0x1b, 0x5b, 0x36]

def start (byte : UInt8) : Option QueryPart := if byte = 0x1b then some .esc else none

def next : QueryPart → UInt8 → Cursor QueryPart
  | .esc, byte => if byte = 0x5b then .reading .bracket else .dead
  | .bracket, byte => if byte = 0x36 then .reading .six else .dead
  | .six, byte => if byte = 0x6e then .matched else .dead

theorem start_eq_iff {part : QueryPart} :
    start byte = some part ↔ byte = 0x1b ∧ part = .esc := by
  rw [start]
  by_cases h : byte = 0x1b
  · simp [h, eq_comm]
  · simp [h]

theorem next_eq_reading_iff {part t : QueryPart} :
    part.next byte = .reading t ↔
      part = .esc ∧ byte = 0x5b ∧ t = .bracket ∨ part = .bracket ∧ byte = 0x36 ∧ t = .six := by
  have hread (u : QueryPart) : Cursor.reading u = .reading t ↔ t = u := by
    rw [Cursor.reading.injEq]
    exact eq_comm
  cases part with
  | esc => by_cases h : byte = 0x5b <;> simp [next, h, hread]
  | bracket => by_cases h : byte = 0x36 <;> simp [next, h, hread]
  | six => by_cases h : byte = 0x6e <;> simp [next, h]

theorem next_eq_matched_iff {part : QueryPart} :
    part.next byte = .matched ↔ part = .six ∧ byte = 0x6e := by
  cases part with
  | esc => by_cases h : byte = 0x5b <;> simp [next, h]
  | bracket => by_cases h : byte = 0x36 <;> simp [next, h]
  | six => by_cases h : byte = 0x6e <;> simp [next, h]

theorem next_ne_fresh (part : QueryPart) (byte : UInt8) : part.next byte ≠ .fresh := by
  cases part <;> rw [next] <;> split <;> simp

theorem next_esc (part : QueryPart) : part.next 0x1b = .dead := by cases part <;> rfl

theorem mark_next {part t : QueryPart} (h : part.next byte = .reading t) :
    (byte == 0x6e) = false := by
  rcases next_eq_reading_iff.mp h with ⟨-, rfl, -⟩ | ⟨-, rfl, -⟩ <;> rfl

end QueryPart

/-- The reader of queries. -/
def queryMatcher : Matcher UInt8 QueryPart where
  start := QueryPart.start
  next := QueryPart.next
  mark byte := byte == 0x6e
  next_start h := (QueryPart.start_eq_iff.mp h).1 ▸ QueryPart.next_esc _
  next_fresh := QueryPart.next_ne_fresh
  mark_start h := (QueryPart.start_eq_iff.mp h).1 ▸ rfl
  mark_next := QueryPart.mark_next
  mark_matched h := beq_iff_eq.mpr (QueryPart.next_eq_matched_iff.mp h).2

theorem scan_query_iff (w : List UInt8) (part : QueryPart) :
    queryMatcher.scan w = .reading part ↔ w = part.bytes := by
  induction w using List.reverseRecOn generalizing part with
  | nil => cases part <;> simp [QueryPart.bytes]
  | append_singleton w byte ih =>
    have hstart : queryMatcher.start byte = some part ↔ _ := QueryPart.start_eq_iff
    have hnext (t : QueryPart) : queryMatcher.next t byte = .reading part ↔ _ :=
      QueryPart.next_eq_reading_iff
    have hlast (v : List UInt8) (b : UInt8) : w ++ [byte] = v ++ [b] ↔ w = v ∧ byte = b :=
      List.append_singleton_inj
    simp only [queryMatcher.scan_concat_eq_reading_iff, ih, hstart, hnext]
    cases part with
    | esc => exact Iff.trans (by simp) (hlast [] 0x1b).symm
    | bracket => exact Iff.trans (by simp [QueryPart.bytes]) (hlast [0x1b] 0x5b).symm
    | six => exact Iff.trans (by simp [QueryPart.bytes]) (hlast [0x1b, 0x5b] 0x36).symm

def IsUnfinishedQuery (w : List UInt8) : Prop := ∃ part : QueryPart, w = part.bytes

theorem open_query_iff (w : List UInt8) : queryMatcher.Open w ↔ IsUnfinishedQuery w :=
  exists_congr (scan_query_iff w)

theorem match_query_iff (w : List UInt8) : queryMatcher.Match w ↔ w = query := by
  cases w using List.reverseRecOn with
  | nil => simp [Matcher.Match, query]
  | append_singleton w byte =>
    have hnext (t : QueryPart) : queryMatcher.next t byte = .matched ↔ t = .six ∧ byte = 0x6e :=
      QueryPart.next_eq_matched_iff
    have hlast : w ++ [byte] = [0x1b, 0x5b, 0x36] ++ [0x6e] ↔ w = [0x1b, 0x5b, 0x36] ∧ byte = 0x6e :=
      List.append_singleton_inj
    rw [queryMatcher.match_concat_iff]
    simp only [scan_query_iff, hnext]
    exact Iff.trans (by simp [QueryPart.bytes]) hlast.symm

theorem match_query :
    queryMatcher.Match = (· = query) := funext fun w => propext (match_query_iff w)

namespace Serial16550

/-- The bytes that the output filter holds. -/
def buffered (u : Serial16550) : List UInt8 :=
  match u.cpqState with
  | .normal => []
  | .buffering buf => buf

/-- The outputs of `filter_cpq` over a run of bytes, and the port after it. -/
def filterCpqAll (u : Serial16550) : List UInt8 → List UInt8 × Serial16550
  | [] => ([], u)
  | byte :: bytes =>
    let (out, u) := u.filterCpq byte
    let (rest, u) := filterCpqAll u bytes
    (out.getD [] ++ rest, u)

theorem filterCpqAll_cons (u : Serial16550) (byte : UInt8) (bytes : List UInt8) :
    u.filterCpqAll (byte :: bytes) =
      ((u.filterCpq byte).1.getD [] ++ ((u.filterCpq byte).2.filterCpqAll bytes).1,
        ((u.filterCpq byte).2.filterCpqAll bytes).2) := rfl

/-- The states of the output filter as states of a reader. -/
def AtCursor (u : Serial16550) : Cursor QueryPart → Prop
  | .fresh => u.cpqState = .normal
  | .reading part => u.cpqState = .buffering part.bytes
  | .matched | .dead => False

/-- One byte of output, by what the reader makes of it. -/
theorem filterCpq_eq {u : Serial16550} {c : Cursor QueryPart} (h : u.AtCursor c) (byte : UInt8) :
    match queryMatcher.advance c byte with
    | .reading t => (u.filterCpq byte).1 = none ∧ (u.filterCpq byte).2.AtCursor (.reading t) ∧
        (u.filterCpq byte).2.buffered = u.buffered ++ [byte]
    | .matched => (u.filterCpq byte).1 = none ∧ (u.filterCpq byte).2.AtCursor .fresh
    | .fresh | .dead => (u.filterCpq byte).1 = some (u.buffered ++ [byte]) ∧
        (u.filterCpq byte).2.AtCursor .fresh := by
  cases c with
  | fresh =>
    have hstate : u.cpqState = .normal := h
    by_cases hbyte : byte = 0x1b
    · subst hbyte
      simp [Matcher.advance, queryMatcher, QueryPart.start, filterCpq, hstate, AtCursor, buffered,
        QueryPart.bytes]
    · simp [Matcher.advance, queryMatcher, QueryPart.start, filterCpq, hstate, AtCursor, buffered,
        hbyte]
  | reading part =>
    have hstate : u.cpqState = .buffering part.bytes := h
    cases part with
    | esc =>
      by_cases hbyte : byte = 0x5b <;>
        simp [Matcher.advance, queryMatcher, QueryPart.next, filterCpq, hstate, AtCursor, buffered,
          QueryPart.bytes, hbyte]
    | bracket =>
      by_cases hbyte : byte = 0x36 <;>
        simp [Matcher.advance, queryMatcher, QueryPart.next, filterCpq, hstate, AtCursor, buffered,
          QueryPart.bytes, hbyte]
    | six =>
      by_cases hbyte : byte = 0x6e
      · simp [Matcher.advance, queryMatcher, QueryPart.next, filterCpq, hstate, AtCursor,
          QueryPart.bytes, hbyte]
      · simp [Matcher.advance, queryMatcher, QueryPart.next, filterCpq, hstate, AtCursor, buffered,
          QueryPart.bytes, hbyte]
  | matched | dead => exact absurd h id

theorem filterCpqAll_shown {u : Serial16550} {c : Cursor QueryPart} (h : u.AtCursor c)
    (bytes : List UInt8) :
    (u.filterCpqAll bytes).1 ++ (u.filterCpqAll bytes).2.buffered =
      queryMatcher.shown (fun _ => false) c u.buffered bytes := by
  induction bytes generalizing u c with
  | nil => rfl
  | cons byte bytes ih =>
    have hstep := filterCpq_eq h byte
    have hkeep : Matcher.loses (fun _ : QueryPart => false) c = false := by cases c <;> rfl
    have hfresh {v : Serial16550} (hv : v.AtCursor .fresh) : v.buffered = [] := by
      have hstate : v.cpqState = .normal := hv
      rw [buffered, hstate]
    rw [filterCpqAll_cons, Matcher.shown, hkeep]
    cases hnext : queryMatcher.advance c byte with
    | reading t =>
      rw [hnext] at hstep
      obtain ⟨hout, hat, hbuffered⟩ := hstep
      rw [hout, ← hbuffered]
      exact ih hat
    | matched =>
      rw [hnext] at hstep
      obtain ⟨hout, hat⟩ := hstep
      rw [hout]
      exact (ih hat).trans (by rw [hfresh hat])
    | fresh | dead =>
      rw [hnext] at hstep
      obtain ⟨hout, hat⟩ := hstep
      have hrest := ih hat
      rw [hfresh hat] at hrest
      rw [hout]
      simp [← hrest]

end Serial16550

/-- Each query follows an even number of unfinished ones. -/
def QueriesNoticed (bytes : List UInt8) : Prop :=
  ∀ pre post k, bytes = pre ++ query ++ post → Chain IsUnfinishedQuery pre k → Even k

/-- Guest output is shown without its queries exactly if no query follows an unfinished one that
the filter holds. -/
theorem filterCpq_exact_iff (u : Serial16550) (hu : u.cpqState = .normal) (bytes : List UInt8) :
    Removed (· = query) bytes ((u.filterCpqAll bytes).1 ++ (u.filterCpqAll bytes).2.buffered) ↔
      QueriesNoticed bytes := by
  have hopen : queryMatcher.Open = IsUnfinishedQuery := funext fun w => propext (open_query_iff w)
  have hexact := Matcher.removed_shown_iff_even (m := queryMatcher) (fun _ => false) bytes
  have hbuffered : u.buffered = [] := by rw [Serial16550.buffered, hu]
  rw [Serial16550.filterCpqAll_shown (c := .fresh) hu, hbuffered]
  rw [match_query] at hexact
  refine hexact.trans ?_
  rw [QueriesNoticed, ← hopen]
  constructor
  · rintro ⟨h, -⟩ pre post k heq hk
    exact h pre query post k heq rfl hk
  · intro h
    constructor
    · rintro pre w post k heq rfl hk
      exact h pre post k heq hk
    · rintro pre w a post k - ⟨s, hs⟩ hloses
      rw [hs] at hloses
      cases hloses

theorem filterCpq_exact_iff_plain :
    Removed (· = query) [0x61, 0x1b, 0x5b, 0x36, 0x6e, 0x1b]
        ((({} : Serial16550).filterCpqAll [0x61, 0x1b, 0x5b, 0x36, 0x6e, 0x1b]).1 ++
          (({} : Serial16550).filterCpqAll [0x61, 0x1b, 0x5b, 0x36, 0x6e, 0x1b]).2.buffered) ↔
      QueriesNoticed [0x61, 0x1b, 0x5b, 0x36, 0x6e, 0x1b] :=
  filterCpq_exact_iff {} rfl _

/-- A query after an escape byte reaches the terminal. -/
theorem filterCpq_escape_query :
    ¬ Removed (· = query) [0x1b, 0x1b, 0x5b, 0x36, 0x6e]
      ((({} : Serial16550).filterCpqAll [0x1b, 0x1b, 0x5b, 0x36, 0x6e]).1 ++
        (({} : Serial16550).filterCpqAll [0x1b, 0x1b, 0x5b, 0x36, 0x6e]).2.buffered) := by
  have hshown : (({} : Serial16550).filterCpqAll [0x1b, 0x1b, 0x5b, 0x36, 0x6e]).1 ++
      (({} : Serial16550).filterCpqAll [0x1b, 0x1b, 0x5b, 0x36, 0x6e]).2.buffered =
        [0x1b, 0x1b, 0x5b, 0x36, 0x6e] := by decide
  rw [hshown, ← match_query]
  intro h
  have hnone (v : List UInt8) (hv : queryMatcher.Match v) : ¬ v <+: 0x1b :: (query ++ []) := by
    rw [(match_query_iff v).mp hv]
    decide
  obtain ⟨zs, hzs, hrest⟩ := (Matcher.removed_cons_iff hnone).mp h
  have hquery : queryMatcher.Match query := (match_query_iff query).mpr rfl
  rw [Matcher.removed_nil_iff.mp ((Matcher.removed_match_iff hquery).mp hrest)] at hzs
  cases hzs

end Rax.Devices
