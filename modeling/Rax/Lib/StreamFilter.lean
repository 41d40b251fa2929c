import Mathlib.Algebra.Ring.Parity
import Mathlib.Data.List.Induction
import Mathlib.Tactic.Common

/-!
# Filters that cut words out of a stream

A matcher reads a word symbol by symbol, and a filter withholds what may still become a match. The
filters here give up a withheld word at the first symbol that does not continue it, and do not
look at that symbol again. What they show is compared with the stream without its matches.
-/

namespace Rax

/-- The stream without the words of a set, read from the left. -/
inductive Removed {α : Type*} (M : List α → Prop) : List α → List α → Prop
  | nil : Removed M [] []
  | drop {w xs ys : List α} : M w → Removed M xs ys → Removed M (w ++ xs) ys
  | keep {a : α} {xs ys : List α} : (∀ w, M w → ¬ w <+: a :: xs) → Removed M xs ys →
      Removed M (a :: xs) (a :: ys)

/-- The number of words of a set that stand one after the other at the end of a stream. -/
inductive Chain {α : Type*} (P : List α → Prop) : List α → Nat → Prop
  | stop {xs : List α} : (∀ front w, xs = front ++ w → ¬ P w) → Chain P xs 0
  | link {front w : List α} {k : Nat} : P w → Chain P front k → Chain P (front ++ w) (k + 1)

/-- How far a word has been read. -/
inductive Cursor (σ : Type*) where
  | fresh
  | reading (s : σ)
  | matched
  | dead
  deriving DecidableEq

/-- A reader of words. A symbol that can start a word never continues one, and the last symbol of a
word, its mark, stands nowhere else in it. -/
structure Matcher (α σ : Type*) where
  start : α → Option σ
  next : σ → α → Cursor σ
  mark : α → Bool
  next_start : ∀ {a s t}, start a = some t → next s a = .dead
  next_fresh : ∀ s a, next s a ≠ .fresh
  mark_start : ∀ {a s}, start a = some s → mark a = false
  mark_next : ∀ {a s t}, next s a = .reading t → mark a = false
  mark_matched : ∀ {a s}, next s a = .matched → mark a = true

namespace Matcher

variable {α σ : Type*} (m : Matcher α σ)

def advance : Cursor σ → α → Cursor σ
  | .fresh, a => (m.start a).elim .dead .reading
  | .reading s, a => m.next s a
  | .matched, _ | .dead, _ => .dead

def scan (w : List α) : Cursor σ := w.foldl m.advance .fresh

/-- Words that may become a match. -/
def Open (w : List α) : Prop := ∃ s, m.scan w = .reading s

def Match (w : List α) : Prop := m.scan w = .matched

theorem scan_append (v w : List α) : m.scan (v ++ w) = w.foldl m.advance (m.scan v) :=
  List.foldl_append

theorem scan_concat (w : List α) (a : α) : m.scan (w ++ [a]) = m.advance (m.scan w) a :=
  m.scan_append w [a]

@[simp] theorem scan_nil : m.scan [] = .fresh := rfl

variable {a : α}

theorem scan_start {s : σ} (h : m.start a = some s) : m.scan [a] = .reading s := by
  show (m.start a).elim _ _ = _
  rw [h]
  rfl

theorem foldl_dead (w : List α) : w.foldl m.advance .dead = .dead := by
  induction w with
  | nil => rfl
  | cons a w ih => exact ih

theorem advance_ne_fresh (c : Cursor σ) (a : α) : m.advance c a ≠ .fresh := by
  cases c with
  | fresh => cases h : m.start a <;> simp [advance, h]
  | reading s => exact m.next_fresh s a
  | matched | dead => simp [advance]

variable {w : List α}

theorem scan_eq_fresh_iff : m.scan w = .fresh ↔ w = [] := by
  constructor
  · intro h
    cases w using List.reverseRecOn with
    | nil => rfl
    | append_singleton w a => exact absurd (m.scan_concat w a ▸ h) (m.advance_ne_fresh _ a)
  · rintro rfl
    rfl

theorem scan_concat_eq_reading_iff {s : σ} :
    m.scan (w ++ [a]) = .reading s ↔
      w = [] ∧ m.start a = some s ∨ ∃ t, m.scan w = .reading t ∧ m.next t a = .reading s := by
  rw [scan_concat, ← m.scan_eq_fresh_iff]
  cases hw : m.scan w with
  | fresh => cases ha : m.start a <;> simp [advance, ha]
  | reading t => simp [advance]
  | matched | dead => simp [advance]

/-- Nothing can be read after a match. -/
theorem scan_append_of_match {v w : List α} (hv : m.Match v) (hw : w ≠ []) :
    m.scan (v ++ w) = .dead := by
  cases w with
  | nil => exact absurd rfl hw
  | cons a w =>
    have h : m.scan v = .matched := hv
    rw [scan_append, h]
    exact m.foldl_dead w

theorem scan_append_of_dead {v : List α} (hv : m.scan v = .dead) (w : List α) :
    m.scan (v ++ w) = .dead := by
  rw [scan_append, hv, foldl_dead]

theorem Match.eq_of_prefix {v w xs : List α} (hv : m.Match v) (hw : m.Match w) (hvx : v <+: xs)
    (hwx : w <+: xs) : v = w := by
  have hsame {u u' : List α} (hu : m.Match u) (hu' : m.Match u') (hle : u <+: u') : u = u' := by
    obtain ⟨t, rfl⟩ := hle
    by_cases ht : t = []
    · rw [ht, List.append_nil]
    · exact absurd ((m.scan_append_of_match hu ht).symm.trans hu') (by simp)
  rcases List.prefix_or_prefix_of_prefix hvx hwx with h | h
  · exact hsame hv hw h
  · exact (hsame hw hv h).symm

/-- A word starts with a symbol that can start one, and no other of its symbols can. -/
theorem exists_cons (hfresh : m.scan w ≠ .fresh) (hdead : m.scan w ≠ .dead) :
    ∃ a t s, w = a :: t ∧ m.start a = some s ∧ ∀ b ∈ t, m.start b = none := by
  induction w using List.reverseRecOn with
  | nil => exact absurd rfl hfresh
  | append_singleton w b ih =>
    rw [scan_concat] at hdead
    cases hw : m.scan w with
    | fresh =>
      rw [hw] at hdead
      rw [m.scan_eq_fresh_iff.mp hw]
      cases hb : m.start b with
      | none => exact absurd (by rw [advance, hb]; rfl) hdead
      | some s => exact ⟨b, [], s, rfl, hb, by simp⟩
    | reading s =>
      rw [hw] at hdead
      obtain ⟨a, t, s', rfl, ha, ht⟩ := ih (by simp [hw]) (by simp [hw])
      refine ⟨a, t ++ [b], s', rfl, ha, fun c hc => ?_⟩
      rcases List.mem_append.mp hc with hc | hc
      · exact ht c hc
      · rw [List.mem_singleton.mp hc]
        cases hb : m.start b with
        | none => rfl
        | some u => exact absurd (m.next_start hb) hdead
    | matched | dead =>
      rw [hw] at hdead
      exact absurd rfl hdead

theorem Open.exists_cons (h : m.Open w) :
    ∃ a t s, w = a :: t ∧ m.start a = some s ∧ ∀ b ∈ t, m.start b = none := by
  obtain ⟨s, hs⟩ := h
  exact m.exists_cons (by simp [hs]) (by simp [hs])

theorem Match.exists_cons (h : m.Match w) :
    ∃ a t s, w = a :: t ∧ m.start a = some s ∧ ∀ b ∈ t, m.start b = none := by
  have hs : m.scan w = .matched := h
  exact m.exists_cons (by simp [hs]) (by simp [hs])

theorem open_of_append {v w : List α} (hv : v ≠ []) (hw : w ≠ []) (h : m.scan (v ++ w) ≠ .dead) :
    m.Open v := by
  cases hs : m.scan v with
  | fresh => exact absurd (m.scan_eq_fresh_iff.mp hs) hv
  | reading s => exact ⟨s, hs⟩
  | matched => exact absurd (m.scan_append_of_match hs hw) h
  | dead => exact absurd (m.scan_append_of_dead hs w) h

theorem countP_open (h : m.Open w) : w.countP m.mark = 0 := by
  induction w using List.reverseRecOn with
  | nil => rfl
  | append_singleton w a ih =>
    obtain ⟨s, hs⟩ := h
    rcases m.scan_concat_eq_reading_iff.mp hs with ⟨rfl, ha⟩ | ⟨t, hw, ha⟩
    · simp [m.mark_start ha]
    · rw [List.countP_append, ih ⟨t, hw⟩, List.countP_singleton, m.mark_next ha]
      rfl

theorem match_concat_iff :
    m.Match (w ++ [a]) ↔ ∃ t, m.scan w = .reading t ∧ m.next t a = .matched := by
  rw [Match, scan_concat]
  cases hw : m.scan w with
  | fresh => cases ha : m.start a <;> simp [advance, ha]
  | reading t => simp [advance]
  | matched | dead => simp [advance]

theorem countP_match (h : m.Match w) : 0 < w.countP m.mark := by
  cases w using List.reverseRecOn with
  | nil => simp [Match] at h
  | append_singleton w a =>
    obtain ⟨t, -, ha⟩ := m.match_concat_iff.mp h
    exact List.countP_pos_iff.mpr ⟨a, by simp, m.mark_matched ha⟩

/-! ## The filter -/

section Filter

variable (lossy : σ → Bool)

/-- Whether a withheld word is lost when it is given up. -/
def loses : Cursor σ → Bool
  | .reading s => lossy s
  | _ => false

/-- What the filter lets through, and last what it still withholds. -/
def shown : Cursor σ → List α → List α → List α
  | _, w, [] => w
  | c, w, a :: xs =>
    match m.advance c a with
    | .reading s => shown (.reading s) (w ++ [a]) xs
    | .matched => shown .fresh [] xs
    | .fresh | .dead => (if loses lossy c then [] else w) ++ a :: shown .fresh [] xs

/-- Where the filter stands after a stream. -/
def after : Cursor σ → List α → Cursor σ
  | c, [] => c
  | c, a :: xs =>
    match m.advance c a with
    | .reading s => after (.reading s) xs
    | .matched | .fresh | .dead => after .fresh xs

/-- Words that the filter withholds: none, or an open one. -/
def Live (w : List α) : Prop := w = [] ∨ m.Open w

variable {m}

theorem live_of_append {v w : List α} (hw : w ≠ []) (h : m.scan (v ++ w) ≠ .dead) : m.Live v := by
  by_cases hv : v = []
  · exact .inl hv
  · exact .inr (m.open_of_append hv hw h)

theorem Live.filter (h : m.Live w) (xs : List α) :
    m.shown lossy .fresh [] (w ++ xs) = m.shown lossy (m.scan w) w xs ∧
      m.after .fresh (w ++ xs) = m.after (m.scan w) xs := by
  induction w using List.reverseRecOn generalizing xs with
  | nil => exact ⟨rfl, rfl⟩
  | append_singleton w a ih =>
    obtain ⟨s, hs⟩ : m.Open (w ++ [a]) := h.resolve_left (by simp)
    obtain ⟨hshown, hafter⟩ := ih (live_of_append (List.cons_ne_nil a []) (by simp [hs])) (a :: xs)
    have hstep : m.advance (m.scan w) a = .reading s := (m.scan_concat w a).symm.trans hs
    rw [List.append_assoc, List.singleton_append, hshown, hafter, hs]
    constructor
    · rw [shown, hstep]
    · rw [after, hstep]

theorem Match.filter (h : m.Match w) (xs : List α) :
    m.shown lossy .fresh [] (w ++ xs) = m.shown lossy .fresh [] xs ∧
      m.after .fresh (w ++ xs) = m.after .fresh xs := by
  have hs : m.scan w = .matched := h
  cases w using List.reverseRecOn with
  | nil => simp at hs
  | append_singleton w a =>
    have hlive : m.Live w := live_of_append (List.cons_ne_nil a []) (by simp [hs])
    obtain ⟨hshown, hafter⟩ := hlive.filter lossy (a :: xs)
    have hstep : m.advance (m.scan w) a = .matched := (m.scan_concat w a).symm.trans hs
    rw [List.append_assoc, List.singleton_append, hshown, hafter]
    constructor
    · rw [shown, hstep]
    · rw [after, hstep]

/-- A word that breaks off is shown, unless it is lost, with the symbol that broke it. -/
theorem Live.filter_dead (h : m.Live w) (ha : m.scan (w ++ [a]) = .dead) (xs : List α) :
    m.shown lossy .fresh [] (w ++ a :: xs) =
        (if loses lossy (m.scan w) then [] else w) ++ a :: m.shown lossy .fresh [] xs ∧
      m.after .fresh (w ++ a :: xs) = m.after .fresh xs := by
  obtain ⟨hshown, hafter⟩ := h.filter lossy (a :: xs)
  have hstep : m.advance (m.scan w) a = .dead := (m.scan_concat w a).symm.trans ha
  rw [hshown, hafter]
  constructor
  · rw [shown, hstep]
  · rw [after, hstep]

theorem filter_plain {t : List α} (ht : ∀ b ∈ t, m.start b = none) (xs : List α) :
    m.shown lossy .fresh [] (t ++ xs) = t ++ m.shown lossy .fresh [] xs ∧
      m.after .fresh (t ++ xs) = m.after .fresh xs := by
  induction t with
  | nil => exact ⟨rfl, rfl⟩
  | cons a t ih =>
    obtain ⟨hshown, hafter⟩ := ih fun b hb => ht b (List.mem_cons_of_mem a hb)
    have hdead : m.scan ([] ++ [a]) = .dead := by
      show (m.start a).elim _ _ = _
      rw [ht a List.mem_cons_self]
      rfl
    obtain ⟨hfirst, hthen⟩ := Live.filter_dead lossy (.inl rfl) hdead (t ++ xs)
    exact ⟨hfirst.trans (by rw [hshown]; rfl), hthen.trans hafter⟩

/-! ## Streams in pieces -/

/-- A stream as the filter takes it apart: a word that is still open at the end, a match, a word
that breaks off, and a match whose first symbol breaks off the word before it. -/
inductive Pieces : List α → Prop
  | last {w : List α} : m.Live w → Pieces w
  | found {w xs : List α} : m.Match w → Pieces xs → Pieces (w ++ xs)
  | broken {w xs : List α} {a : α} : m.Live w → m.scan (w ++ [a]) = .dead →
      (∀ v, m.Match v → ¬ v <+: a :: xs) → Pieces xs → Pieces (w ++ a :: xs)
  | missed {w t xs : List α} {a : α} : m.Open w → m.scan (w ++ [a]) = .dead →
      m.Match (a :: t) → Pieces xs → Pieces (w ++ a :: t ++ xs)

/-- A live word is the whole stream, or it grows to a match or breaks off. -/
theorem Live.cut (h : m.Live w) (xs : List α) :
    m.Live (w ++ xs) ∨ (∃ v rest, w ++ xs = v ++ rest ∧ m.Match v) ∨
      ∃ v a rest, w ++ xs = v ++ a :: rest ∧ m.Live v ∧ m.scan (v ++ [a]) = .dead := by
  induction xs generalizing w with
  | nil => exact .inl (by rwa [List.append_nil])
  | cons a xs ih =>
    cases hs : m.scan (w ++ [a]) with
    | fresh => exact absurd (m.scan_eq_fresh_iff.mp hs) (by simp)
    | reading s =>
      have hcut := ih (w := w ++ [a]) (.inr ⟨s, hs⟩)
      rwa [List.append_assoc, List.singleton_append] at hcut
    | matched => exact .inr (.inl ⟨w ++ [a], xs, by simp, hs⟩)
    | dead => exact .inr (.inr ⟨w, a, xs, rfl, h, hs⟩)

theorem pieces (xs : List α) : m.Pieces xs := by
  induction hn : xs.length using Nat.strong_induction_on generalizing xs with
  | _ n ih =>
    rcases Live.cut (w := []) (.inl rfl) xs with hlive | ⟨v, rest, heq, hv⟩ | ⟨v, a, rest, heq, hv, ha⟩
    · exact .last hlive
    · rw [List.nil_append] at heq
      obtain ⟨b, t, -, rfl, -, -⟩ := hv.exists_cons
      subst heq
      exact .found hv (ih rest.length (by simp at hn; omega) rest rfl)
    · rw [List.nil_append] at heq
      subst heq
      have hrest := ih rest.length (by simp at hn; omega) rest rfl
      by_cases hmatch : ∃ u, m.Match u ∧ u <+: a :: rest
      · obtain ⟨u, hu, xs, hxs⟩ := hmatch
        obtain ⟨b, t, s, rfl, hb, -⟩ := hu.exists_cons
        rw [List.cons_append] at hxs
        obtain ⟨rfl, rfl⟩ := List.cons.inj hxs
        have hopen : m.Open v := by
          refine hv.resolve_left fun hnil => ?_
          subst hnil
          exact absurd ((m.scan_start hb).symm.trans ha) (by simp)
        rw [← List.cons_append, ← List.append_assoc]
        exact .missed hopen ha hu (ih xs.length (by simp at hn; omega) xs rfl)
      · exact .broken hv ha (fun u hu hle => hmatch ⟨u, hu, hle⟩) hrest

/-- Nothing starts inside a piece. -/
theorem eq_nil_or_append {h b : α} {t xs pre rest : List α} {s : σ}
    (ht : ∀ c ∈ t, m.start c = none) (hb : m.start b = some s)
    (heq : h :: t ++ xs = pre ++ b :: rest) :
    pre = [] ∨ ∃ tail, pre = h :: t ++ tail ∧ xs = tail ++ b :: rest := by
  cases pre with
  | nil => exact .inl rfl
  | cons c pre =>
    rw [List.cons_append, List.cons_append] at heq
    obtain ⟨rfl, htail⟩ := List.cons.inj heq
    rcases List.append_eq_append_iff.mp htail with ⟨tail, rfl, rfl⟩ | ⟨mid, rfl, hrest⟩
    · exact .inr ⟨tail, rfl, rfl⟩
    · cases mid with
      | nil => exact .inr ⟨[], by simp, hrest.symm⟩
      | cons d mid =>
        obtain ⟨rfl, -⟩ := List.cons.inj hrest
        exact absurd (hb.symm.trans (ht b (by simp))) (by simp)

/-- Where something of a kind stands in the stream, the filter is in a given state. -/
def Along (m : Matcher α σ) (Q : List α → Prop) (R : Cursor σ → Prop) (xs : List α) : Prop :=
  ∀ pre rest, xs = pre ++ rest → Q rest → R (m.after .fresh pre)

/-- A kind of stream that begins with a symbol which can start a word. -/
def Starts (m : Matcher α σ) (Q : List α → Prop) : Prop :=
  ∀ xs, Q xs → ∃ b rest s, xs = b :: rest ∧ m.start b = some s

section Along

variable {Q : List α → Prop} {R : Cursor σ → Prop} (hQ : m.Starts Q)
include hQ

theorem along_last (h : m.Live w) (hfresh : Q w → R .fresh) : m.Along Q R w := by
  intro pre rest heq hrest
  obtain ⟨b, rest, s, rfl, hb⟩ := hQ rest hrest
  rcases h with rfl | hopen
  · exact absurd heq (by simp)
  · obtain ⟨a, t, _, rfl, -, ht⟩ := hopen.exists_cons
    have hwhole : a :: t ++ [] = pre ++ b :: rest := by rwa [List.append_nil]
    rcases eq_nil_or_append ht hb hwhole with rfl | ⟨tail, -, hnil⟩
    · rw [heq] at hfresh
      exact hfresh hrest
    · exact absurd hnil (by simp)

theorem along_found {w xs : List α} (h : m.Match w) :
    m.Along Q R (w ++ xs) ↔ (Q (w ++ xs) → R .fresh) ∧ m.Along Q R xs := by
  have hafter (tail : List α) := (h.filter (fun _ => false) tail).2
  constructor
  · intro halong
    refine ⟨halong [] (w ++ xs) rfl, fun pre rest heq hrest => ?_⟩
    rw [← hafter]
    exact halong (w ++ pre) rest (by rw [heq, List.append_assoc]) hrest
  · rintro ⟨hfresh, halong⟩ pre rest heq hrest
    obtain ⟨b, rest, s, rfl, hb⟩ := hQ rest hrest
    obtain ⟨a, t, _, rfl, -, ht⟩ := h.exists_cons
    rcases eq_nil_or_append ht hb heq with rfl | ⟨tail, rfl, rfl⟩
    · exact hfresh (heq ▸ hrest)
    · rw [hafter]
      exact halong tail _ rfl hrest

theorem along_broken {w xs : List α} (h : m.Live w) (ha : m.scan (w ++ [a]) = .dead) :
    m.Along Q R (w ++ a :: xs) ↔
      (Q (w ++ a :: xs) → R .fresh) ∧ (Q (a :: xs) → R (m.scan w)) ∧ m.Along Q R xs := by
  have hafter (tail : List α) := (h.filter_dead (fun _ => false) ha tail).2
  have hwhole : m.after .fresh w = m.scan w := by
    have hlive := (h.filter (fun _ => false) []).2
    rwa [List.append_nil] at hlive
  constructor
  · intro halong
    refine ⟨halong [] _ rfl, fun hrest => ?_, fun pre rest heq hrest => ?_⟩
    · rw [← hwhole]
      exact halong w _ rfl hrest
    · rw [← hafter]
      exact halong (w ++ a :: pre) rest (by simp [heq]) hrest
  · rintro ⟨hfresh, hnext, halong⟩ pre rest heq hrest
    obtain ⟨b, rest, s, rfl, hb⟩ := hQ rest hrest
    -- the stream after the word is the symbol that broke it and the rest
    have htail (tail : List α) (hpre : pre = w ++ tail) (hxs : a :: xs = tail ++ b :: rest) :
        R (m.after .fresh pre) := by
      subst hpre
      rcases eq_nil_or_append (h := a) (t := []) (by simp) hb hxs with rfl | ⟨tail, rfl, rfl⟩
      · rw [List.append_nil, hwhole]
        exact hnext (hxs ▸ hrest)
      · rw [List.singleton_append, hafter]
        exact halong tail _ rfl hrest
    rcases h with rfl | hopen
    · exact htail pre rfl heq
    · obtain ⟨c, t, _, rfl, -, ht⟩ := hopen.exists_cons
      rcases eq_nil_or_append ht hb heq with rfl | ⟨tail, hpre, hxs⟩
      · exact hfresh (heq ▸ hrest)
      · exact htail tail hpre hxs

end Along

/-! ## The stream without its matches -/

theorem match_ne_nil (h : m.Match w) : w ≠ [] := by
  rintro rfl
  exact absurd h (by simp [Match])

theorem Live.not_match_prefix (h : m.Live w) {v : List α} (hv : m.Match v) :
    ¬ v <+: w := by
  rintro ⟨t, rfl⟩
  have hscan : m.scan (v ++ t) = .matched ∨ m.scan (v ++ t) = .dead := by
    by_cases ht : t = []
    · left
      rw [ht, List.append_nil]
      exact hv
    · exact .inr (m.scan_append_of_match hv ht)
  rcases h with hnil | ⟨s, hs⟩
  · exact match_ne_nil hv (List.append_eq_nil_iff.mp hnil).1
  · rw [hs] at hscan
    simp at hscan

theorem Live.not_match_prefix_broken {w xs : List α} (h : m.Live w)
    (ha : m.scan (w ++ [a]) = .dead) {v : List α} (hv : m.Match v) : ¬ v <+: w ++ a :: xs := by
  intro hle
  rcases List.prefix_or_prefix_of_prefix hle (List.prefix_append w (a :: xs)) with hvw | ⟨u, rfl⟩
  · exact h.not_match_prefix hv hvw
  · rw [List.prefix_append_right_inj] at hle
    cases u with
    | nil => exact h.not_match_prefix hv (by simp)
    | cons b u =>
      obtain ⟨rfl, -⟩ := List.cons_prefix_cons.mp hle
      have hdead := m.scan_append_of_dead ha u
      rw [List.append_assoc, List.singleton_append] at hdead
      exact absurd (hdead.symm.trans hv) (by simp)

theorem removed_nil_iff {ys : List α} : Removed m.Match [] ys ↔ ys = [] := by
  constructor
  · intro h
    generalize hxs : [] = xs at h
    cases h with
    | nil => rfl
    | drop hw _ => exact absurd (List.append_eq_nil_iff.mp hxs.symm).1 (match_ne_nil hw)
    | keep => cases hxs
  · rintro rfl
    exact .nil

theorem removed_match_iff {w xs ys : List α} (hw : m.Match w) :
    Removed m.Match (w ++ xs) ys ↔ Removed m.Match xs ys := by
  refine ⟨fun h => ?_, .drop hw⟩
  generalize hzs : w ++ xs = zs at h
  cases h with
  | nil => exact absurd (List.append_eq_nil_iff.mp hzs).1 (match_ne_nil hw)
  | drop hv h =>
    have hsame := hw.eq_of_prefix m hv (hzs ▸ List.prefix_append w xs) (List.prefix_append _ _)
    subst hsame
    rwa [List.append_cancel_left hzs]
  | keep hnone _ => exact absurd (hzs ▸ List.prefix_append w xs) (hnone w hw)

theorem removed_cons_iff {xs ys : List α} (hnone : ∀ v, m.Match v → ¬ v <+: a :: xs) :
    Removed m.Match (a :: xs) ys ↔ ∃ zs, ys = a :: zs ∧ Removed m.Match xs zs := by
  constructor
  · intro h
    generalize hzs : a :: xs = zs at h
    cases h with
    | nil => cases hzs
    | drop hv _ => exact absurd (hzs ▸ List.prefix_append _ _) (hnone _ hv)
    | keep _ h =>
      obtain ⟨rfl, rfl⟩ := List.cons.inj hzs
      exact ⟨_, rfl, h⟩
  · rintro ⟨zs, rfl, h⟩
    exact .keep hnone h

theorem removed_plain_iff {t xs ys : List α} (ht : ∀ b ∈ t, m.start b = none) :
    Removed m.Match (t ++ xs) ys ↔ ∃ zs, ys = t ++ zs ∧ Removed m.Match xs zs := by
  induction t generalizing ys with
  | nil => simp
  | cons a t ih =>
    have hnone (v : List α) (hv : m.Match v) : ¬ v <+: a :: (t ++ xs) := by
      obtain ⟨b, _, s, rfl, hb, -⟩ := hv.exists_cons
      intro hle
      obtain ⟨rfl, -⟩ := List.cons_prefix_cons.mp hle
      exact absurd (hb.symm.trans (ht b List.mem_cons_self)) (by simp)
    rw [List.cons_append, removed_cons_iff hnone]
    constructor
    · rintro ⟨_, rfl, h⟩
      obtain ⟨zs, rfl, hzs⟩ := (ih fun b hb => ht b (List.mem_cons_of_mem a hb)).mp h
      exact ⟨zs, rfl, hzs⟩
    · rintro ⟨zs, rfl, hzs⟩
      exact ⟨_, rfl, (ih fun b hb => ht b (List.mem_cons_of_mem a hb)).mpr ⟨zs, rfl, hzs⟩⟩

theorem Live.removed_iff {w xs ys : List α} (h : m.Live w)
    (hnone : ∀ v, m.Match v → ¬ v <+: w ++ xs) :
    Removed m.Match (w ++ xs) ys ↔ ∃ zs, ys = w ++ zs ∧ Removed m.Match xs zs := by
  rcases h with rfl | hopen
  · simp
  · obtain ⟨a, t, _, rfl, -, ht⟩ := hopen.exists_cons
    rw [List.cons_append] at hnone ⊢
    rw [removed_cons_iff hnone]
    constructor
    · rintro ⟨_, rfl, h⟩
      obtain ⟨zs, rfl, hzs⟩ := (removed_plain_iff ht).mp h
      exact ⟨zs, rfl, hzs⟩
    · rintro ⟨zs, rfl, hzs⟩
      exact ⟨_, rfl, (removed_plain_iff ht).mpr ⟨zs, rfl, hzs⟩⟩

theorem Live.removed_self_iff {w ys : List α} (h : m.Live w) :
    Removed m.Match w ys ↔ ys = w := by
  have hiff : Removed m.Match (w ++ []) ys ↔ ∃ zs, ys = w ++ zs ∧ Removed m.Match [] zs :=
    h.removed_iff fun v hv => by rw [List.append_nil]; exact h.not_match_prefix hv
  rw [List.append_nil] at hiff
  rw [hiff]
  constructor
  · rintro ⟨zs, rfl, hzs⟩
    rw [removed_nil_iff.mp hzs, List.append_nil]
  · rintro rfl
    exact ⟨[], by simp, .nil⟩

/-! ## When the filter is exact -/

/-- A match stands here. -/
def MatchAt (m : Matcher α σ) (xs : List α) : Prop := ∃ w, m.Match w ∧ w <+: xs

/-- A word that is lost when it breaks off stands here, and breaks off. -/
def LossAt (m : Matcher α σ) (xs : List α) : Prop :=
  ∃ w a, m.Open w ∧ loses lossy (m.scan w) = true ∧ m.scan (w ++ [a]) = .dead ∧ w ++ [a] <+: xs

theorem starts_matchAt : m.Starts m.MatchAt := by
  rintro _ ⟨w, hw, xs, rfl⟩
  obtain ⟨a, t, s, rfl, ha, -⟩ := hw.exists_cons
  exact ⟨a, t ++ xs, s, rfl, ha⟩

theorem starts_lossAt : m.Starts (LossAt lossy m) := by
  rintro _ ⟨w, a, hw, -, -, xs, rfl⟩
  obtain ⟨b, t, s, rfl, hb, -⟩ := hw.exists_cons
  exact ⟨b, t ++ [a] ++ xs, s, rfl, hb⟩

theorem Live.scan_ne_dead (h : m.Live w) : m.scan w ≠ .dead := by
  rcases h with rfl | ⟨s, hs⟩
  · simp
  · simp [hs]

/-- A stream breaks off at one place. -/
theorem Live.eq_of_broken {v w xs : List α} {a b : α} (hv : m.Live v) (hw : m.Live w)
    (ha : m.scan (v ++ [a]) = .dead) (hb : m.scan (w ++ [b]) = .dead) (hva : v ++ [a] <+: xs)
    (hwb : w ++ [b] <+: xs) : v ++ [a] = w ++ [b] := by
  have hsame {u u' : List α} {c c' : α} (hu' : m.Live u') (hc : m.scan (u ++ [c]) = .dead)
      (hle : u ++ [c] <+: u' ++ [c']) : u ++ [c] = u' ++ [c'] := by
    rcases List.prefix_concat_iff.mp hle with heq | ⟨t, rfl⟩
    · exact heq
    · exact absurd (m.scan_append_of_dead hc t) hu'.scan_ne_dead
  rcases List.prefix_or_prefix_of_prefix hva hwb with h | h
  · exact hsame hw ha h
  · exact (hsame hv hb h).symm

theorem Live.not_lossAt (h : m.Live w) : ¬ LossAt lossy m w := by
  rintro ⟨v, a, -, -, ha, t, rfl⟩
  exact h.scan_ne_dead (m.scan_append_of_dead ha t)

theorem Match.not_lossAt (h : m.Match w) (xs : List α) :
    ¬ LossAt lossy m (w ++ xs) := by
  have hw : m.scan w = .matched := h
  rintro ⟨v, a, hv, -, ha, hle⟩
  rcases List.prefix_or_prefix_of_prefix hle (List.prefix_append w xs) with ⟨t, rfl⟩ | hwv
  · exact absurd (hw.symm.trans (m.scan_append_of_dead ha t)) (by simp)
  · rcases List.prefix_concat_iff.mp hwv with rfl | hprefix
    · exact absurd (hw.symm.trans ha) (by simp)
    · exact Live.not_match_prefix (.inr hv) h hprefix

theorem Live.lossAt_iff {w xs : List α} (h : m.Live w) (ha : m.scan (w ++ [a]) = .dead) :
    LossAt lossy m (w ++ a :: xs) ↔ loses lossy (m.scan w) = true := by
  have hle : w ++ [a] <+: w ++ a :: xs := ⟨xs, by simp⟩
  constructor
  · rintro ⟨v, b, hv, hloses, hb, hvb⟩
    have heq := Live.eq_of_broken (.inr hv) h hb ha hvb hle
    rwa [← (List.append_inj' heq rfl).1]
  · intro hloses
    refine ⟨w, a, ?_, hloses, ha, hle⟩
    refine h.resolve_left fun hnil => ?_
    rw [hnil] at hloses
    exact absurd hloses (by simp [loses])

theorem scan_ne_fresh_of_lossAt {w xs : List α} (ha : m.scan (w ++ [a]) = .dead)
    (hloss : LossAt lossy m (a :: xs)) : m.scan w ≠ .fresh := by
  intro hfresh
  rw [m.scan_eq_fresh_iff.mp hfresh] at ha
  obtain ⟨b, rest, s, heq, hb⟩ := starts_lossAt lossy _ hloss
  obtain ⟨rfl, -⟩ := List.cons.inj heq
  exact absurd ((m.scan_start hb).symm.trans ha) (by simp)

/-- Each match begins where the filter withholds nothing. -/
def NoneMissed (m : Matcher α σ) (xs : List α) : Prop := m.Along m.MatchAt (· = .fresh) xs

/-- No word that is lost begins where the filter withholds nothing. -/
def NoneLost (m : Matcher α σ) (xs : List α) : Prop := m.Along (LossAt lossy m) (· ≠ .fresh) xs

theorem Live.countP (h : m.Live w) : w.countP m.mark = 0 := by
  rcases h with rfl | hopen
  · rfl
  · exact m.countP_open hopen

theorem Live.shown_self (h : m.Live w) : m.shown lossy .fresh [] w = w := by
  have hshown := (h.filter lossy []).1
  rw [List.append_nil] at hshown
  rw [hshown, shown]

theorem removed_broken_iff {w xs ys : List α} (h : m.Live w) (ha : m.scan (w ++ [a]) = .dead)
    (hnone : ∀ v, m.Match v → ¬ v <+: a :: xs) :
    Removed m.Match (w ++ a :: xs) ys ↔ ∃ zs, ys = w ++ a :: zs ∧ Removed m.Match xs zs := by
  rw [h.removed_iff fun v hv => h.not_match_prefix_broken ha hv]
  constructor
  · rintro ⟨_, rfl, hrest⟩
    obtain ⟨zs, rfl, hzs⟩ := (removed_cons_iff hnone).mp hrest
    exact ⟨zs, rfl, hzs⟩
  · rintro ⟨zs, rfl, hzs⟩
    exact ⟨_, rfl, (removed_cons_iff hnone).mpr ⟨zs, rfl, hzs⟩⟩

/-- A match that is missed is shown. -/
theorem Open.filter_missed {w t xs : List α} (h : m.Open w) (ha : m.scan (w ++ [a]) = .dead)
    (hmatch : m.Match (a :: t)) :
    m.shown lossy .fresh [] (w ++ a :: t ++ xs) =
      (if loses lossy (m.scan w) then [] else w) ++ a :: t ++ m.shown lossy .fresh [] xs := by
  obtain ⟨b, t, _, heq, -, ht⟩ := hmatch.exists_cons
  obtain ⟨rfl, rfl⟩ := List.cons.inj heq
  rw [List.append_assoc, List.cons_append, (Live.filter_dead lossy (.inr h) ha _).1,
    (filter_plain lossy ht xs).1, List.append_assoc, List.cons_append]

/-- The marks tell whether a match was shown; if none was, the length tells whether a word was
lost. -/
theorem Pieces.compare {xs : List α} (h : m.Pieces xs) : ∀ ys, Removed m.Match xs ys →
    ys.countP m.mark ≤ (m.shown lossy .fresh [] xs).countP m.mark ∧
      (ys.countP m.mark = (m.shown lossy .fresh [] xs).countP m.mark →
        m.NoneMissed xs ∧ (m.shown lossy .fresh [] xs).length ≤ ys.length ∧
          ((m.shown lossy .fresh [] xs).length = ys.length → NoneLost lossy m xs)) := by
  induction h with
  | last hw =>
    intro ys hys
    rw [hw.removed_self_iff.mp hys, hw.shown_self]
    refine ⟨Nat.le_refl _, fun _ => ⟨?_, Nat.le_refl _, fun _ => ?_⟩⟩
    · exact along_last starts_matchAt hw fun _ => rfl
    · exact along_last (starts_lossAt lossy) hw fun hloss => absurd hloss (hw.not_lossAt lossy)
  | @found w xs hw _ ih =>
    intro ys hys
    obtain ⟨hle, hthen⟩ := ih ys ((removed_match_iff hw).mp hys)
    rw [(hw.filter lossy xs).1]
    refine ⟨hle, fun hcount => ?_⟩
    obtain ⟨hmissed, hlength, hlost⟩ := hthen hcount
    refine ⟨(along_found starts_matchAt hw).mpr ⟨fun _ => rfl, hmissed⟩, hlength, fun heq => ?_⟩
    exact (along_found (starts_lossAt lossy) hw).mpr
      ⟨fun hloss => absurd hloss (hw.not_lossAt lossy xs), hlost heq⟩
  | @broken w xs a hw ha hnone _ ih =>
    intro ys hys
    obtain ⟨zs, rfl, hzs⟩ := (removed_broken_iff hw ha hnone).mp hys
    obtain ⟨hle, hthen⟩ := ih zs hzs
    have hkept : (if loses lossy (m.scan w) then [] else w).countP m.mark = 0 := by
      split
      · rfl
      · exact hw.countP
    rw [(hw.filter_dead lossy ha xs).1, List.countP_append, List.countP_append, hkept, hw.countP,
      List.countP_cons, List.countP_cons]
    refine ⟨by omega, fun hcount => ?_⟩
    obtain ⟨hmissed, hlength, hlost⟩ := hthen (by omega)
    simp only [List.length_append, List.length_cons]
    have hshort : (if loses lossy (m.scan w) then [] else w).length ≤ w.length := by
      split
      · exact Nat.zero_le _
      · exact Nat.le_refl _
    refine ⟨(along_broken starts_matchAt hw ha).mpr ⟨fun _ => rfl, ?_, hmissed⟩, by omega,
      fun heq => (along_broken (starts_lossAt lossy) hw ha).mpr ⟨?_, ?_, hlost (by omega)⟩⟩
    · rintro ⟨v, hv, hle⟩
      exact absurd hle (hnone v hv)
    · intro hloss
      have hloses := (hw.lossAt_iff lossy ha).mp hloss
      rw [if_pos hloses, List.length_nil] at heq
      have hnil : w = [] := List.eq_nil_of_length_eq_zero (by omega)
      rw [hnil] at hloses
      exact absurd hloses (by simp [loses])
    · exact scan_ne_fresh_of_lossAt lossy ha
  | @missed w t xs a hw ha hmatch _ ih =>
    intro ys hys
    have hlive : m.Live w := .inr hw
    rw [hw.filter_missed lossy ha hmatch]
    rw [List.append_assoc, List.cons_append,
      hlive.removed_iff fun v hv => hlive.not_match_prefix_broken ha hv] at hys
    obtain ⟨zs, rfl, hzs⟩ := hys
    have hrest : Removed m.Match xs zs := (removed_match_iff hmatch).mp hzs
    have hle := (ih zs hrest).1
    have hmark := m.countP_match hmatch
    rw [List.countP_append, List.countP_append, List.countP_append, hlive.countP]
    exact ⟨by omega, fun hcount => absurd hcount (by omega)⟩

/-- The filter shows the stream without its matches exactly if no match is missed and no word is
lost. -/
theorem removed_shown_iff (xs : List α) :
    Removed m.Match xs (m.shown lossy .fresh [] xs) ↔ m.NoneMissed xs ∧ NoneLost lossy m xs := by
  constructor
  · intro h
    obtain ⟨hmissed, -, hlost⟩ := ((pieces xs).compare lossy _ h).2 rfl
    exact ⟨hmissed, hlost rfl⟩
  · rintro ⟨hmissed, hlost⟩
    induction pieces (m := m) xs with
    | last hw =>
      rw [hw.shown_self]
      exact hw.removed_self_iff.mpr rfl
    | @found w xs hw _ ih =>
      rw [(hw.filter lossy xs).1]
      exact .drop hw (ih ((along_found starts_matchAt hw).mp hmissed).2
        ((along_found (starts_lossAt lossy) hw).mp hlost).2)
    | @broken w xs a hw ha hnone _ ih =>
      obtain ⟨-, -, hmissed⟩ := (along_broken starts_matchAt hw ha).mp hmissed
      obtain ⟨hfirst, -, hlost⟩ := (along_broken (starts_lossAt lossy) hw ha).mp hlost
      have hkept : ¬ loses lossy (m.scan w) = true :=
        fun hloses => hfirst ((hw.lossAt_iff lossy ha).mpr hloses) rfl
      rw [(hw.filter_dead lossy ha xs).1, if_neg hkept]
      exact (removed_broken_iff hw ha hnone).mpr ⟨_, rfl, ih hmissed hlost⟩
    | @missed w t xs a hw ha hmatch _ _ =>
      rw [List.append_assoc, List.cons_append] at hmissed
      obtain ⟨-, hnext, -⟩ := (along_broken starts_matchAt (.inr hw) ha).mp hmissed
      obtain ⟨s, hs⟩ := hw
      exact absurd (hs.symm.trans (hnext ⟨a :: t, hmatch, xs, rfl⟩)) (by simp)

/-! ## Which words the filter notices -/

theorem after_append (c : Cursor σ) (xs ys : List α) :
    m.after c (xs ++ ys) = m.after (m.after c xs) ys := by
  induction xs generalizing c with
  | nil => rfl
  | cons a xs ih =>
    rw [List.cons_append, after, after]
    cases m.advance c a <;> exact ih _

/-- The filter withholds an open word at the end of what it has read, or nothing. -/
theorem after_eq (xs : List α) : m.after .fresh xs = .fresh ∨
    ∃ front w s, xs = front ++ w ∧ m.scan w = .reading s ∧ m.after .fresh xs = .reading s := by
  induction xs using List.reverseRecOn with
  | nil => exact .inl rfl
  | append_singleton xs a ih =>
    have hopen (front w : List α) (heq : xs = front ++ w)
        (hstep : m.scan (w ++ [a]) = m.advance (m.after .fresh xs) a) :
        m.after .fresh (xs ++ [a]) = .fresh ∨ ∃ front w s, xs ++ [a] = front ++ w ∧
          m.scan w = .reading s ∧ m.after .fresh (xs ++ [a]) = .reading s := by
      rw [after_append, after]
      cases hs : m.advance (m.after .fresh xs) a with
      | reading s => exact .inr ⟨front, w ++ [a], s, by simp [heq], hstep.trans hs, rfl⟩
      | fresh | matched | dead => exact .inl rfl
    rcases ih with hfresh | ⟨front, w, s, heq, hw, hafter⟩
    · exact hopen xs [] (by simp) (by rw [m.scan_concat, hfresh]; rfl)
    · exact hopen front w heq (by rw [m.scan_concat, hw, hafter])

/-- The filter withholds every other one of the open words that follow each other. -/
theorem after_chain {xs : List α} {k : Nat} (h : Chain m.Open xs k) :
    m.after .fresh xs = .fresh ↔ Even k := by
  induction h with
  | @stop xs hnone =>
    refine iff_of_true ?_ (by simp)
    rcases after_eq xs with hfresh | ⟨front, w, s, heq, hw, -⟩
    · exact hfresh
    · exact absurd ⟨s, hw⟩ (hnone front w heq)
  | @link front w k hw _ ih =>
    rw [Nat.even_add_one, ← ih, after_append]
    rcases after_eq front with hfresh | ⟨-, -, s, -, -, hreading⟩
    · have hself := (Live.filter (fun _ => false) (.inr hw) []).2
      rw [List.append_nil] at hself
      obtain ⟨s, hs⟩ := hw
      rw [hfresh, hself, hs]
      simp [after]
    · obtain ⟨a, t, _, rfl, ha, ht⟩ := hw.exists_cons
      have hplain := (filter_plain (fun _ => false) ht []).2
      have hdead : m.advance (.reading s) a = .dead := m.next_start ha
      rw [List.append_nil] at hplain
      rw [hreading, after, hdead]
      simp only [hplain]
      simp [after]

end Filter

end Matcher

/-- Every stream ends with some number of words. -/
theorem exists_chain {α : Type*} {P : List α → Prop} (hP : ¬ P []) (xs : List α) :
    ∃ k, Chain P xs k := by
  induction hn : xs.length using Nat.strong_induction_on generalizing xs with
  | _ n ih =>
    by_cases hword : ∃ front w, xs = front ++ w ∧ P w
    · obtain ⟨front, w, rfl, hw⟩ := hword
      have hlength : 0 < w.length := List.length_pos_iff.mpr fun hnil => hP (hnil ▸ hw)
      obtain ⟨k, hk⟩ := ih front.length (by simp at hn; omega) front rfl
      exact ⟨k + 1, .link hw hk⟩
    · exact ⟨0, .stop fun front w heq hw => hword ⟨front, w, heq, hw⟩⟩

namespace Matcher

variable {α σ : Type*} {m : Matcher α σ}

theorem exists_chain_open (xs : List α) : ∃ k, Chain m.Open xs k :=
  exists_chain (by rintro ⟨s, hs⟩; simp at hs) xs

/-- The filter is exact exactly if every match follows an even number of open words, and every
word that is lost follows an odd number of them. -/
theorem removed_shown_iff_even (lossy : σ → Bool) (xs : List α) :
    Removed m.Match xs (m.shown lossy .fresh [] xs) ↔
      (∀ pre w post k, xs = pre ++ w ++ post → m.Match w → Chain m.Open pre k → Even k) ∧
      ∀ pre w a post k, xs = pre ++ w ++ a :: post → m.Open w → loses lossy (m.scan w) = true →
        m.scan (w ++ [a]) = .dead → Chain m.Open pre k → Odd k := by
  rw [removed_shown_iff]
  refine and_congr ⟨?_, ?_⟩ ⟨?_, ?_⟩
  · intro h pre w post k heq hw hk
    exact (after_chain hk).mp (h pre (w ++ post) (by rw [heq, List.append_assoc])
      ⟨w, hw, List.prefix_append w post⟩)
  · rintro h pre _ heq ⟨w, hw, post, rfl⟩
    obtain ⟨k, hk⟩ := exists_chain_open (m := m) pre
    exact (after_chain hk).mpr (h pre w post k (by rw [heq, List.append_assoc]) hw hk)
  · intro h pre w a post k heq hw hloses ha hk
    rw [← Nat.not_even_iff_odd, ← after_chain hk]
    exact h pre (w ++ a :: post) (by rw [heq, List.append_assoc])
      ⟨w, a, hw, hloses, ha, post, by simp⟩
  · rintro h pre _ heq ⟨w, a, hw, hloses, ha, post, rfl⟩
    obtain ⟨k, hk⟩ := exists_chain_open (m := m) pre
    rw [Ne, after_chain hk, Nat.not_even_iff_odd]
    exact h pre w a post k (by simpa using heq) hw hloses ha hk

end Matcher

end Rax
