import Rax.Debug.Packet

/-!
# Receiving from a debugger client

The server appends every read to a buffer, handles the packets it finds there and then looks
at the first bytes that are left for an acknowledgement and an interrupt. What the handler of
a packet does is a parameter; it matters here only whether the connection goes on and whether
the guest is resumed, since a handler that waits for the guest reads the connection itself.

`received_uniformly_clean` says for which byte streams the packets and interrupts do not
depend on how the stream was split into reads and every well-formed packet is handled:
interrupt bytes stand neither before a packet nor behind a control byte that one read leaves
in place, and no packet with a bad checksum stands before a good one.
-/

namespace Rax.Debug

def minus : UInt8 := 0x2d
def ctrlC : UInt8 := 0x03

/-- What a handler makes of the connection: the next packet, the guest running until it
stops, or the end of it. -/
inductive Reaction
  | proceed
  | resume
  | close
  deriving DecidableEq

inductive Event
  | packet (data : List UInt8)
  | interrupt
  deriving DecidableEq

/-- Drop one acknowledgement. -/
def dropAck : List UInt8 → List UInt8
  | [] => []
  | b :: rest => if b = plus ∨ b = minus then rest else b :: rest

/-- Take one interrupt. -/
def takeInterrupt : List UInt8 → List Event × List UInt8
  | [] => ([], [])
  | b :: rest => if b = ctrlC then ([.interrupt], rest) else ([], b :: rest)

/-- What happens to the control bytes at the front after the packets of a read. -/
def takeControl (pending : List UInt8) : List Event × List UInt8 :=
  takeInterrupt (dropAck pending)

inductive Mode
  | reading
  | running
  | closed
  deriving DecidableEq

structure Session where
  pending : List UInt8
  mode : Mode
  deriving DecidableEq

/-- The packet loop, with fuel for the packets that the buffer can hold, and the control
bytes after it. A packet that resumes the guest suspends the loop. -/
def drain (react : List UInt8 → Reaction) : Nat → List UInt8 → List Event × Session
  | 0, pending => ([], ⟨pending, .reading⟩)
  | fuel + 1, pending =>
    match parsePacket pending with
    | none =>
      let (events, pending) := takeControl pending
      (events, ⟨pending, .reading⟩)
    | some (packet, rest) =>
      match react packet with
      | .proceed =>
        let (events, session) := drain react fuel rest
        (.packet packet :: events, session)
      | .resume => ([.packet packet], ⟨rest, .running⟩)
      | .close => ([.packet packet], ⟨rest, .closed⟩)

/-- The packet loop on a buffer. -/
def process (react : List UInt8 → Reaction) (pending : List UInt8) : List Event × Session :=
  drain react (pending.length + 1) pending

inductive Input
  | read (chunk : List UInt8)
  | stopped

/-- One read, or the guest coming to a stop. While the guest runs, reads are searched for an
interrupt and dropped; the interrupt stops the guest. An empty read is the end of the
connection. -/
def Session.step (react : List UInt8 → Reaction) (s : Session) : Input → List Event × Session
  | .read chunk =>
    match s.mode with
    | .reading => if chunk = [] then ([], { s with mode := .closed }) else
        process react (s.pending ++ chunk)
    | .running =>
      if chunk = [] then process react s.pending
      else if ctrlC ∈ chunk then
        let (events, s) := process react s.pending
        (.interrupt :: events, s)
      else ([], s)
    | .closed => ([], s)
  | .stopped =>
    match s.mode with
    | .running => process react s.pending
    | _ => ([], s)

def Session.run (react : List UInt8 → Reaction) : Session → List Input → List Event
  | _, [] => []
  | s, i :: inputs => (s.step react i).1 ++ (s.step react i).2.run react inputs

/-- A fresh connection. -/
def Session.new : Session := ⟨[], .reading⟩

section Loop

variable {react : List UInt8 → Reaction} {buf rest data : List UInt8}

/-- Any fuel past the length of the buffer gives the same result. -/
theorem drain_fuel {m n : Nat} (hm : buf.length < m) (hn : buf.length < n) :
    drain react m buf = drain react n buf := by
  induction m generalizing n buf with
  | zero => omega
  | succ m ih =>
    cases n with
    | zero => omega
    | succ n =>
      simp only [drain]
      cases hparse : parsePacket buf with
      | none => rfl
      | some found =>
        obtain ⟨packet, rest⟩ := found
        have hlt := parsePacket_rest_length hparse
        have hrest : drain react m rest = drain react n rest := ih (by omega) (by omega)
        simp only [hrest]

theorem process_of_none (h : parsePacket buf = none) :
    process react buf = ((takeControl buf).1, ⟨(takeControl buf).2, .reading⟩) := by
  rw [process, drain, h]

theorem process_of_proceed (h : parsePacket buf = some (data, rest))
    (hreact : react data = .proceed) :
    process react buf = (.packet data :: (process react rest).1, (process react rest).2) := by
  have hfuel : drain react buf.length rest = process react rest :=
    drain_fuel (parsePacket_rest_length h) (by omega)
  rw [process, drain, h]
  simp only [hreact, hfuel]

theorem process_of_resume (h : parsePacket buf = some (data, rest))
    (hreact : react data = .resume) :
    process react buf = ([.packet data], ⟨rest, .running⟩) := by
  simp only [process, drain, h, hreact]

theorem process_of_close (h : parsePacket buf = some (data, rest))
    (hreact : react data = .close) :
    process react buf = ([.packet data], ⟨rest, .closed⟩) := by
  simp only [process, drain, h, hreact]

end Loop

/-- Bytes that the server takes from the front of its buffer. -/
def isControl (b : UInt8) : Bool := b == plus || b == minus || b == ctrlC

/-- The interrupts among the control bytes at the front, which are recognised when every
byte comes in a read of its own. -/
def visible (buf : List UInt8) : List Event :=
  ((buf.takeWhile isControl).filter (· == ctrlC)).map fun _ => .interrupt

/-- The packets with a right checksum up to one that ends the connection, wherever packets
with a bad one stand between them. -/
def wellFormed (react : List UInt8 → Reaction) (buf : List UInt8) : List (List UInt8) :=
  match _h : nextFrame buf with
  | none => []
  | some f =>
    if f.good then
      f.data :: (if react f.data = .close then [] else wellFormed react f.rest)
    else wellFormed react f.rest
termination_by buf.length
decreasing_by all_goals exact nextFrame_rest_length _h

/-- What is received when the whole stream comes in one read. -/
def atOnce (react : List UInt8 → Reaction) (buf : List UInt8) : List Event :=
  match _h : parsePacket buf with
  | none => (takeControl buf).1
  | some (data, rest) =>
    .packet data :: (if react data = .close then [] else atOnce react rest)
termination_by buf.length
decreasing_by exact parsePacket_rest_length _h

/-- What is received when every byte comes in a read of its own. -/
def byteWise (react : List UInt8 → Reaction) (buf : List UInt8) : List Event :=
  match _h : parsePacket buf with
  | none => visible buf
  | some (data, rest) =>
    visible (buf.takeWhile (· != dollar)) ++
      .packet data :: (if react data = .close then [] else byteWise react rest)
termination_by buf.length
decreasing_by exact parsePacket_rest_length _h

/-- Streams in which one read takes every interrupt that single bytes would, and in which no
well-formed packet stands behind a bad one. -/
inductive Clean (react : List UInt8 → Reaction) : List UInt8 → Prop
  | packet {buf : List UInt8} {f : Frame} : nextFrame buf = some f → f.good = true →
      visible f.gap = [] → (react f.data ≠ .close → Clean react f.rest) → Clean react buf
  | tail {buf : List UInt8} : parsePacket buf = none → (takeControl buf).1 = visible buf →
      wellFormed react buf = [] → Clean react buf

/-- Streams that end with a packet which resumes the guest, if there is one. -/
inductive ResumesLast (react : List UInt8 → Reaction) : List UInt8 → Prop
  | packet {buf : List UInt8} {f : Frame} : nextFrame buf = some f → f.good = true →
      (react f.data = .resume → f.rest = []) →
      (react f.data = .proceed → ResumesLast react f.rest) → ResumesLast react buf
  | tail {buf : List UInt8} : parsePacket buf = none → ResumesLast react buf

/-- The pieces in which the stream was read. -/
def chunks (inputs : List Input) : List (List UInt8) :=
  inputs.filterMap fun
    | .read chunk => some chunk
    | .stopped => none

/-- A way of reading a stream, with the guest stopping at any time. -/
def Splits (stream : List UInt8) (inputs : List Input) : Prop :=
  (chunks inputs).flatten = stream ∧ [] ∉ chunks inputs

/-- The packets among the events. -/
def packets (events : List Event) : List (List UInt8) :=
  events.filterMap fun
    | .packet data => some data
    | .interrupt => none

/-- Packets and interrupts do not depend on the reads, and no well-formed packet is lost. -/
def ReceivedUniformly (react : List UInt8 → Reaction) (stream : List UInt8) : Prop :=
  ∃ events, (∀ inputs, Splits stream inputs → Session.new.run react inputs = events) ∧
    packets events = wellFormed react stream

section Equations

variable {react : List UInt8 → Reaction} {buf rest data : List UInt8} {f : Frame} {b : UInt8}

theorem wellFormed_of_none (h : nextFrame buf = none) : wellFormed react buf = [] := by
  rw [wellFormed]
  split <;> simp_all

theorem wellFormed_of_good (hf : nextFrame buf = some f) (hgood : f.good = true) :
    wellFormed react buf =
      f.data :: (if react f.data = .close then [] else wellFormed react f.rest) := by
  rw [wellFormed]
  split <;> simp_all

theorem wellFormed_of_bad (hf : nextFrame buf = some f) (hbad : f.good = false) :
    wellFormed react buf = wellFormed react f.rest := by
  rw [wellFormed]
  split <;> simp_all

theorem atOnce_of_none (h : parsePacket buf = none) :
    atOnce react buf = (takeControl buf).1 := by
  rw [atOnce]
  split <;> simp_all

theorem atOnce_of_some (h : parsePacket buf = some (data, rest)) :
    atOnce react buf =
      .packet data :: (if react data = .close then [] else atOnce react rest) := by
  rw [atOnce]
  split <;> simp_all

theorem atOnce_nil : atOnce react [] = [] := atOnce_of_none rfl

theorem byteWise_of_none (h : parsePacket buf = none) : byteWise react buf = visible buf := by
  rw [byteWise]
  split <;> simp_all

theorem byteWise_of_some (h : parsePacket buf = some (data, rest)) :
    byteWise react buf = visible (buf.takeWhile (· != dollar)) ++
      .packet data :: (if react data = .close then [] else byteWise react rest) := by
  rw [byteWise]
  split <;> simp_all

theorem ne_dollar_of_isControl (h : isControl b = true) : b ≠ dollar := by
  rintro rfl
  exact absurd h (by decide)

theorem visible_cons_of_isControl (h : isControl b = true) (buf : List UInt8) :
    visible (b :: buf) = (if b = ctrlC then [.interrupt] else []) ++ visible buf := by
  by_cases hb : b = ctrlC
  · subst hb
    simp [visible, h]
  · simp [visible, h, hb]

theorem visible_cons_of_not_isControl (h : isControl b = false) (buf : List UInt8) :
    visible (b :: buf) = [] := by
  simp [visible, h]

theorem parsePacket_cons_of_ne (hb : b ≠ dollar) : parsePacket (b :: buf) = parsePacket buf := by
  unfold parsePacket
  rw [nextFrame_cons_of_ne hb]
  cases nextFrame buf <;> rfl

theorem wellFormed_cons_of_ne (hb : b ≠ dollar) :
    wellFormed react (b :: buf) = wellFormed react buf := by
  have hcons : nextFrame (b :: buf) =
      (nextFrame buf).map fun f => { f with gap := b :: f.gap } := nextFrame_cons_of_ne hb
  cases hf : nextFrame buf with
  | none =>
    rw [hf] at hcons
    rw [wellFormed_of_none hf, wellFormed_of_none hcons]
  | some f =>
    rw [hf] at hcons
    cases hgood : f.good with
    | true => rw [wellFormed_of_good hf hgood, wellFormed_of_good hcons hgood]
    | false => rw [wellFormed_of_bad hf hgood, wellFormed_of_bad hcons hgood]

theorem takeInterrupt_of_visible_nil (h : visible buf = []) : takeInterrupt buf = ([], buf) := by
  cases buf with
  | nil => rfl
  | cons b buf =>
    by_cases hb : b = ctrlC
    · rw [visible_cons_of_isControl (by rw [hb]; decide), if_pos hb] at h
      cases h
    · simp [takeInterrupt, hb]

theorem takeControl_of_visible_nil (h : visible buf = []) : (takeControl buf).1 = [] := by
  cases buf with
  | nil => rfl
  | cons b buf =>
    by_cases hb : b = plus ∨ b = minus
    · have hcontrol : isControl b = true := by rcases hb with rfl | rfl <;> decide
      rw [visible_cons_of_isControl hcontrol] at h
      rw [takeControl, dropAck, if_pos hb,
        takeInterrupt_of_visible_nil (List.append_eq_nil_iff.mp h).2]
    · rw [takeControl, dropAck, if_neg hb, takeInterrupt_of_visible_nil h]

theorem isControl_ack (hb : b = plus ∨ b = minus) : isControl b = true ∧ b ≠ ctrlC := by
  rcases hb with rfl | rfl <;> decide

end Equations

section Uniform

variable {react : List UInt8 → Reaction} {buf rest : List UInt8} {b : UInt8}

/-- An acknowledgement at the front changes nothing about a clean stream. -/
theorem Clean.ack (hb : b = plus ∨ b = minus) (h : Clean react (b :: buf)) :
    Clean react buf ∧ atOnce react (b :: buf) = atOnce react buf := by
  obtain ⟨hcontrol, hne⟩ := isControl_ack hb
  have hparse : parsePacket (b :: buf) = parsePacket buf :=
    parsePacket_cons_of_ne (ne_dollar_of_isControl hcontrol)
  have hvisible (l : List UInt8) : visible (b :: l) = visible l := by
    rw [visible_cons_of_isControl hcontrol, if_neg hne, List.nil_append]
  cases h with
  | @packet _ f hf hgood hgap hrest =>
    rw [nextFrame_cons_of_ne (ne_dollar_of_isControl hcontrol)] at hf
    obtain ⟨g, hg, rfl⟩ := Option.map_eq_some_iff.mp hf
    rw [hvisible] at hgap
    refine ⟨.packet hg hgood hgap hrest, ?_⟩
    have hpacket := parsePacket_of_frame hg hgood
    rw [atOnce_of_some hpacket, atOnce_of_some (hparse.trans hpacket)]
  | tail hnone htake hlater =>
    rw [hparse] at hnone
    rw [hvisible] at htake
    rw [wellFormed_cons_of_ne (ne_dollar_of_isControl hcontrol)] at hlater
    have htake' : (takeControl (b :: buf)).1 = (takeInterrupt buf).1 := by
      simp [takeControl, dropAck, hb]
    have hsame : (takeControl buf).1 = visible buf := by
      -- A second acknowledgement stays for the next read, so nothing may hide behind it.
      cases buf with
      | nil => rfl
      | cons c buf =>
        by_cases hc : c = plus ∨ c = minus
        · obtain ⟨hcc, hcne⟩ := isControl_ack hc
          rw [htake', visible_cons_of_isControl hcc, if_neg hcne, List.nil_append] at htake
          have hnil : visible buf = [] := by simpa [takeInterrupt, hcne] using htake.symm
          rw [visible_cons_of_isControl hcc, if_neg hcne, List.nil_append, hnil, takeControl,
            dropAck, if_pos hc, takeInterrupt_of_visible_nil hnil]
        · rw [← htake, htake']
          simp [takeControl, dropAck, hc]
    refine ⟨.tail hnone hsame hlater, ?_⟩
    rw [atOnce_of_none (hparse.trans hnone), atOnce_of_none hnone, htake, hsame]

theorem Clean.interrupt (h : Clean react (ctrlC :: buf)) :
    Clean react buf ∧ atOnce react (ctrlC :: buf) = .interrupt :: atOnce react buf := by
  have hcontrol : isControl ctrlC = true := by decide
  have hne := ne_dollar_of_isControl hcontrol
  have hparse : parsePacket (ctrlC :: buf) = parsePacket buf := parsePacket_cons_of_ne hne
  cases h with
  | @packet _ f hf hgood hgap hrest =>
    rw [nextFrame_cons_of_ne hne] at hf
    obtain ⟨g, hg, rfl⟩ := Option.map_eq_some_iff.mp hf
    rw [visible_cons_of_isControl hcontrol, if_pos rfl] at hgap
    cases hgap
  | tail hnone htake hlater =>
    have hfront : takeControl (ctrlC :: buf) = ([.interrupt], buf) := by
      simp [takeControl, dropAck, takeInterrupt, ctrlC, plus, minus]
    rw [hfront, visible_cons_of_isControl hcontrol, if_pos rfl] at htake
    have hnil : visible buf = [] := by simpa using htake.symm
    have hquiet := takeControl_of_visible_nil hnil
    rw [hparse] at hnone
    rw [wellFormed_cons_of_ne hne] at hlater
    refine ⟨.tail hnone (hquiet.trans hnil.symm) hlater, ?_⟩
    rw [atOnce_of_none (hparse.trans hnone), atOnce_of_none hnone, hfront, hquiet]

theorem Clean.of_frame {f : Frame} (h : Clean react buf) (hf : nextFrame buf = some f)
    (hgood : f.good = true) :
    visible f.gap = [] ∧ (react f.data ≠ .close → Clean react f.rest) := by
  cases h with
  | packet hf' _ hgap hrest =>
    cases hf.symm.trans hf'
    exact ⟨hgap, hrest⟩
  | tail hnone => simp [parsePacket_of_frame hf hgood] at hnone

theorem ResumesLast.of_frame {f : Frame} (h : ResumesLast react buf)
    (hf : nextFrame buf = some f) (hgood : f.good = true) :
    (react f.data = .resume → f.rest = []) ∧
      (react f.data = .proceed → ResumesLast react f.rest) := by
  cases h with
  | packet hf' _ hresume hrest =>
    cases hf.symm.trans hf'
    exact ⟨hresume, hrest⟩
  | tail hnone => simp [parsePacket_of_frame hf hgood] at hnone

theorem ResumesLast.tail_of_cons (hb : b ≠ dollar) (h : ResumesLast react (b :: buf)) :
    ResumesLast react buf := by
  cases h with
  | @packet _ f hf hgood hresume hrest =>
    rw [nextFrame_cons_of_ne hb] at hf
    obtain ⟨g, hg, rfl⟩ := Option.map_eq_some_iff.mp hf
    exact .packet hg hgood hresume hrest
  | tail hnone => exact .tail ((parsePacket_cons_of_ne hb).symm.trans hnone)

/-- The events that a session still owes when the given bytes remain to be read. -/
inductive Owes (react : List UInt8 → Reaction) (more : List UInt8) :
    Session → List Event → Prop
  | reading {pending : List UInt8} : Clean react (pending ++ more) →
      ResumesLast react (pending ++ more) → (more = [] → atOnce react pending = []) →
      Owes react more ⟨pending, .reading⟩ (atOnce react (pending ++ more))
  | running : more = [] → Owes react more ⟨[], .running⟩ []
  | closed {pending : List UInt8} : Owes react more ⟨pending, .closed⟩ []

/-- Cutting a buffer down to another leaves a clean stream with the events not yet seen. -/
structure CutsTo (react : List UInt8 → Reaction) (more buf rest : List UInt8)
    (events : List Event) : Prop where
  clean : Clean react (rest ++ more)
  resumesLast : ResumesLast react (rest ++ more)
  events : events ++ atOnce react (rest ++ more) = atOnce react (buf ++ more)

variable {more : List UInt8}

theorem cutsTo_dropAck (hclean : Clean react (buf ++ more))
    (hlast : ResumesLast react (buf ++ more)) : CutsTo react more buf (dropAck buf) [] := by
  cases buf with
  | nil => exact ⟨hclean, hlast, rfl⟩
  | cons b buf =>
    by_cases hb : b = plus ∨ b = minus
    · obtain ⟨hclean', hevents⟩ := hclean.ack hb
      have hne := ne_dollar_of_isControl (isControl_ack hb).1
      rw [dropAck, if_pos hb]
      exact ⟨hclean', hlast.tail_of_cons hne, hevents.symm⟩
    · rw [dropAck, if_neg hb]
      exact ⟨hclean, hlast, rfl⟩

theorem cutsTo_takeInterrupt (hclean : Clean react (buf ++ more))
    (hlast : ResumesLast react (buf ++ more)) :
    CutsTo react more buf (takeInterrupt buf).2 (takeInterrupt buf).1 := by
  cases buf with
  | nil => exact ⟨hclean, hlast, rfl⟩
  | cons b buf =>
    by_cases hb : b = ctrlC
    · subst hb
      obtain ⟨hclean', hevents⟩ := hclean.interrupt
      rw [takeInterrupt, if_pos rfl]
      exact ⟨hclean', hlast.tail_of_cons (by decide), hevents.symm⟩
    · rw [takeInterrupt, if_neg hb]
      exact ⟨hclean, hlast, rfl⟩

/-- The control bytes at the front of a buffer without a packet. -/
theorem Owes.takeControl (hnone : parsePacket buf = none) (hclean : Clean react (buf ++ more))
    (hlast : ResumesLast react (buf ++ more)) :
    ∃ owed, Owes react more ⟨(takeControl buf).2, .reading⟩ owed ∧
      (takeControl buf).1 ++ owed = atOnce react (buf ++ more) := by
  have hack := cutsTo_dropAck hclean hlast
  have hfront := cutsTo_takeInterrupt hack.clean hack.resumesLast
  have hevents := hfront.events.trans hack.events
  refine ⟨_, .reading hfront.clean hfront.resumesLast ?_, hevents⟩
  rintro rfl
  simpa [atOnce_of_none hnone, Debug.takeControl] using hevents

/-- The packet loop pays its events off. -/
theorem Owes.process (hclean : Clean react (buf ++ more))
    (hlast : ResumesLast react (buf ++ more)) :
    ∃ owed, Owes react more (process react buf).2 owed ∧
      (process react buf).1 ++ owed = atOnce react (buf ++ more) := by
  induction hn : buf.length using Nat.strongRecOn generalizing buf with
  | ind n ih =>
    cases hparse : parsePacket buf with
    | none =>
      rw [process_of_none hparse]
      exact Owes.takeControl hparse hclean hlast
    | some found =>
      obtain ⟨data, rest⟩ := found
      obtain ⟨f, hf, hgood, rfl, rfl⟩ := parsePacket_eq_some_iff.mp hparse
      have hf' := nextFrame_append hf more
      have hpacket : parsePacket (buf ++ more) = some (f.data, f.rest ++ more) :=
        parsePacket_of_frame hf' hgood
      obtain ⟨-, hrest⟩ := hclean.of_frame hf' hgood
      obtain ⟨hresume, hproceed⟩ := hlast.of_frame hf' hgood
      rw [atOnce_of_some hpacket]
      cases hreact : react f.data with
      | proceed =>
        obtain ⟨owed, howes, hevents⟩ := ih f.rest.length (hn ▸ nextFrame_rest_length hf)
          (hrest (by simp [hreact])) (hproceed hreact) rfl
        rw [process_of_proceed hparse hreact]
        exact ⟨owed, howes, by simp [hevents]⟩
      | resume =>
        obtain ⟨hnil, rfl⟩ := List.append_eq_nil_iff.mp (hresume hreact)
        rw [process_of_resume hparse hreact, hnil]
        exact ⟨[], .running rfl, by simp [atOnce_nil]⟩
      | close =>
        rw [process_of_close hparse hreact]
        exact ⟨[], .closed, by simp⟩

theorem Clean.nil : Clean react [] :=
  .tail rfl rfl (wellFormed_of_none rfl)

theorem process_nil : process react [] = ([], ⟨[], .reading⟩) := rfl

theorem Splits.of_read {more chunk : List UInt8} {inputs : List Input}
    (h : Splits more (.read chunk :: inputs)) :
    chunk ≠ [] ∧ ∃ more', more = chunk ++ more' ∧ Splits more' inputs := by
  obtain ⟨hflat, hnonempty⟩ := h
  simp only [chunks, List.filterMap_cons, List.flatten_cons, List.mem_cons, not_or]
    at hflat hnonempty
  exact ⟨Ne.symm hnonempty.1, _, hflat.symm, rfl, hnonempty.2⟩

/-- Whatever the reads, a session pays what it owes. -/
theorem Owes.run {s : Session} {events : List Event} (h : Owes react more s events)
    {inputs : List Input} (hinputs : Splits more inputs) :
    s.run react inputs = events := by
  induction inputs generalizing more s events with
  | nil =>
    have hnil : more = [] := hinputs.1.symm
    cases h with
    | reading _ _ hquiet => simp [Session.run, hnil, hquiet hnil]
    | running => rfl
    | closed => rfl
  | cons input inputs ih =>
    cases input with
    | read chunk =>
      obtain ⟨hchunk, more', rfl, hrest⟩ := hinputs.of_read
      cases h with
      | @reading pending hclean hlast _ =>
        rw [← List.append_assoc] at hclean hlast ⊢
        obtain ⟨owed, howes, hevents⟩ := Owes.process hclean hlast
        simp only [Session.run, Session.step, hchunk, if_false]
        rw [ih howes hrest, hevents]
      | running hnil => simp [hchunk] at hnil
      | closed => simpa [Session.run, Session.step] using ih .closed hrest
    | stopped =>
      have hrest : Splits more inputs := hinputs
      cases h with
      | reading hclean hlast hquiet =>
        simpa [Session.run, Session.step] using ih (.reading hclean hlast hquiet) hrest
      | running hnil =>
        subst hnil
        have howes : Owes react [] ⟨[], .reading⟩ (atOnce react []) :=
          .reading .nil (.tail rfl) fun _ => atOnce_nil
        simpa [Session.run, Session.step, process_nil, atOnce_nil] using ih howes hrest
      | closed => simpa [Session.run, Session.step] using ih .closed hrest

end Uniform

section Extremes

variable {react : List UInt8 → Reaction} {buf rest data : List UInt8} {b : UInt8}

theorem run_closed (inputs : List Input) :
    Session.run react ⟨buf, .closed⟩ inputs = [] := by
  induction inputs with
  | nil => rfl
  | cons input inputs ih => cases input <;> simpa [Session.run, Session.step] using ih

theorem run_reading_stopped (n : Nat) :
    Session.run react ⟨buf, .reading⟩ (.replicate n .stopped) = [] := by
  induction n with
  | zero => rfl
  | succ n ih => simpa [List.replicate_succ, Session.run, Session.step] using ih

/-- One read, with the guest stopping at once whenever it is resumed. -/
theorem run_atOnce {n : Nat} (hn : buf.length ≤ n) :
    (process react buf).1 ++ (process react buf).2.run react (.replicate n .stopped) =
      atOnce react buf := by
  induction hlen : buf.length using Nat.strongRecOn generalizing buf n with
  | ind len ih =>
    cases hparse : parsePacket buf with
    | none => simp [process_of_none hparse, run_reading_stopped, atOnce_of_none hparse]
    | some found =>
      obtain ⟨data, rest⟩ := found
      have hlt := parsePacket_rest_length hparse
      rw [atOnce_of_some hparse]
      cases hreact : react data with
      | proceed =>
        have hrest := ih rest.length (hlen ▸ hlt) (n := n) (by omega) rfl
        simp [process_of_proceed hparse hreact, hrest]
      | resume =>
        obtain ⟨n, rfl⟩ : ∃ m, n = m + 1 := ⟨n - 1, by omega⟩
        have hrest := ih rest.length (hlen ▸ hlt) (n := n) (by omega) rfl
        simp [process_of_resume hparse hreact, List.replicate_succ, Session.run, Session.step,
          hrest]
      | close => simp [process_of_close hparse hreact, run_closed]

theorem splits_atOnce (hne : buf ≠ []) (n : Nat) :
    Splits buf (.read buf :: .replicate n .stopped) := by
  simp [Splits, chunks, Ne.symm hne]

/-- A buffer between two single-byte reads: no packet, and no control byte in front. -/
def Settled (buf : List UInt8) : Prop :=
  parsePacket buf = none ∧ ∀ b ∈ buf.head?, isControl b = false

theorem Settled.takeControl_eq (h : Settled buf) (more : List UInt8) (hne : buf ≠ []) :
    takeControl (buf ++ more) = ([], buf ++ more) := by
  obtain ⟨b, buf, rfl⟩ := List.exists_cons_of_ne_nil hne
  have hb := h.2 b (by simp)
  have hack : ¬ (b = plus ∨ b = minus) := fun hack => by simp [(isControl_ack hack).1] at hb
  have hctrl : b ≠ ctrlC := by
    rintro rfl
    exact absurd hb (by decide)
  simp [takeControl, dropAck, hack, takeInterrupt, hctrl]

/-- A packet that one more byte completes ends with that byte. -/
theorem rest_eq_nil_of_settled (hnone : parsePacket buf = none)
    (h : parsePacket (buf ++ [b]) = some (data, rest)) : rest = [] := by
  obtain ⟨f, hf, hgood, rfl, rfl⟩ := parsePacket_eq_some_iff.mp h
  obtain ⟨hbuf, hgap, hdata⟩ := nextFrame_eq_some_iff.mp hf
  rcases List.eq_nil_or_concat f.rest with hnil | ⟨init, last, hinit⟩
  · exact hnil
  · exfalso
    have hbuf' : buf ++ [b] =
        (f.gap ++ dollar :: (f.data ++ hash :: f.high :: f.low :: init)) ++ [last] := by
      rw [hbuf, hinit]
      simp
    have hframe : nextFrame buf = some { f with rest := init } :=
      nextFrame_eq_some_iff.mpr ⟨(List.append_inj' hbuf' rfl).1, hgap, hdata⟩
    rw [parsePacket_of_frame hframe hgood] at hnone
    cases hnone

theorem byteWise_cons_of_isControl (h : isControl b = true) (buf : List UInt8) :
    byteWise react (b :: buf) =
      (if b = ctrlC then [.interrupt] else []) ++ byteWise react buf := by
  have hne := ne_dollar_of_isControl h
  have hparse : parsePacket (b :: buf) = parsePacket buf := parsePacket_cons_of_ne hne
  cases hp : parsePacket buf with
  | none =>
    rw [byteWise_of_none (hparse.trans hp), byteWise_of_none hp, visible_cons_of_isControl h]
  | some found =>
    have hbne : (b != dollar) = true := by simpa using hne
    rw [byteWise_of_some (hparse.trans hp), byteWise_of_some hp, List.takeWhile_cons,
      if_pos hbne, visible_cons_of_isControl h, List.append_assoc]

/-- Every byte in a read of its own, the guest stopping before the next one. -/
def byteReads (stream : List UInt8) : List Input :=
  stream.flatMap fun b => [.read [b], .stopped]

theorem splits_byteReads (stream : List UInt8) : Splits stream (byteReads stream) := by
  have hchunks : chunks (byteReads stream) = stream.map ([·]) := by
    induction stream with
    | nil => rfl
    | cons b stream ih => simpa [chunks, byteReads] using ih
  constructor
  · rw [hchunks, ← List.flatMap_def, List.flatMap_singleton']
  · simp [hchunks]

theorem parsePacket_singleton (b : UInt8) : parsePacket [b] = none := by
  cases h : parsePacket [b] with
  | none => rfl
  | some found =>
    obtain ⟨f, hf, -⟩ := parsePacket_eq_some_iff.mp h
    obtain ⟨hbuf, -⟩ := nextFrame_eq_some_iff.mp hf
    have hlength := congrArg List.length hbuf
    simp only [List.length_cons, List.length_nil, List.length_append] at hlength
    omega

theorem takeControl_singleton (h : isControl b = true) :
    takeControl [b] = (if b = ctrlC then [.interrupt] else [], []) := by
  have hcases : b = plus ∨ b = minus ∨ b = ctrlC := by simpa [isControl, or_assoc] using h
  rcases hcases with rfl | rfl | rfl <;> decide

theorem Settled.visible_gap (h : Settled buf) (hne : buf ≠ []) (more : List UInt8) :
    visible ((buf ++ more).takeWhile (· != dollar)) = [] := by
  obtain ⟨c, buf, rfl⟩ := List.exists_cons_of_ne_nil hne
  rw [List.cons_append, List.takeWhile_cons]
  split
  · exact visible_cons_of_not_isControl (h.2 c (by simp)) _
  · rfl

theorem run_byteReads (h : Settled buf) (more : List UInt8) :
    Session.run react ⟨buf, .reading⟩ (byteReads more) = byteWise react (buf ++ more) := by
  induction more generalizing buf with
  | nil =>
    rw [List.append_nil, byteWise_of_none h.1]
    cases buf with
    | nil => rfl
    | cons b buf => exact (visible_cons_of_not_isControl (h.2 b (by simp)) buf).symm
  | cons b more ih =>
    -- The read, and a stop that matters only to a packet that resumed the guest.
    have hstep (events : List Event) (session : Session)
        (hprocess : process react (buf ++ [b]) = (events, session)) :
        Session.run react ⟨buf, .reading⟩ (byteReads (b :: more)) =
          events ++ ((session.step react .stopped).1 ++
            (session.step react .stopped).2.run react (byteReads more)) := by
      simp [byteReads, Session.run, Session.step, hprocess]
    have hnil : Settled [] := ⟨rfl, by simp⟩
    have hassoc : buf ++ b :: more = buf ++ [b] ++ more := by simp
    cases hparse : parsePacket (buf ++ [b]) with
    | none =>
      rw [hstep _ _ (process_of_none hparse)]
      cases buf with
      | nil =>
        cases hb : isControl b with
        | true =>
          have hmore := ih hnil
          rw [List.nil_append] at hmore
          simp only [List.nil_append, takeControl_singleton hb, Session.step, hmore,
            byteWise_cons_of_isControl hb]
        | false =>
          have hb' : Settled [b] := ⟨hparse, by simpa using hb⟩
          have htake := hb'.takeControl_eq [] (by simp)
          rw [List.append_nil] at htake
          simpa [htake, Session.step] using ih hb'
      | cons c buf =>
        have hsettled : Settled (c :: buf ++ [b]) := ⟨hparse, h.2⟩
        rw [h.takeControl_eq [b] (by simp), hassoc]
        simpa [Session.step] using ih hsettled
    | some found =>
      obtain ⟨data, rest⟩ := found
      obtain rfl := rest_eq_nil_of_settled h.1 hparse
      have hne : buf ≠ [] := by
        rintro rfl
        rw [List.nil_append, parsePacket_singleton] at hparse
        cases hparse
      have hpacket : parsePacket (buf ++ b :: more) = some (data, more) := by
        obtain ⟨f, hf, hgood, rfl, hrest⟩ := parsePacket_eq_some_iff.mp hparse
        rw [hassoc, parsePacket_of_frame (nextFrame_append hf more) hgood]
        simp [hrest]
      have hmore := ih hnil
      rw [List.nil_append] at hmore
      rw [byteWise_of_some hpacket, h.visible_gap hne, List.nil_append]
      cases hreact : react data with
      | proceed =>
        rw [hstep _ _ (process_of_proceed hparse hreact)]
        simp [process_nil, Session.step, hmore]
      | resume =>
        rw [hstep _ _ (process_of_resume hparse hreact)]
        simp [process_nil, Session.step, hmore]
      | close =>
        rw [hstep _ _ (process_of_close hparse hreact)]
        simp [Session.step, run_closed]

/-- The two extremes agree on clean streams only. -/
theorem Clean.of_extremes (hsame : atOnce react buf = byteWise react buf)
    (hpackets : packets (atOnce react buf) = wellFormed react buf) : Clean react buf := by
  induction hlen : buf.length using Nat.strongRecOn generalizing buf with
  | ind len ih =>
    cases hparse : parsePacket buf with
    | none =>
      rw [atOnce_of_none hparse, byteWise_of_none hparse] at hsame
      rw [atOnce_of_none hparse, hsame] at hpackets
      refine .tail hparse hsame (hpackets.symm.trans ?_)
      simp [packets, visible]
    | some found =>
      obtain ⟨data, rest⟩ := found
      obtain ⟨f, hf, hgood, rfl, rfl⟩ := parsePacket_eq_some_iff.mp hparse
      have hgap : buf.takeWhile (· != dollar) = f.gap := by
        obtain ⟨hbuf, hgap, -⟩ := nextFrame_eq_some_iff.mp hf
        rw [hbuf]
        exact (takeWhile_append_stop hgap).1
      rw [atOnce_of_some hparse, byteWise_of_some hparse, hgap] at hsame
      rw [atOnce_of_some hparse, wellFormed_of_good hf hgood] at hpackets
      have hnil : visible f.gap = [] := by
        -- The first event of the single read is the packet, not an interrupt before it.
        cases hv : visible f.gap with
        | nil => rfl
        | cons e es =>
          have he : e = .interrupt := by
            have hmem : e ∈ visible f.gap := by simp [hv]
            obtain ⟨_, -, rfl⟩ := List.mem_map.mp hmem
            rfl
          rw [hv, he] at hsame
          cases hsame
      refine .packet hf hgood hnil fun hreact => ?_
      rw [hnil] at hsame
      simp only [hreact, if_false, List.nil_append, List.cons.injEq, true_and] at hsame
      simp only [packets, List.filterMap_cons, hreact, if_false, List.cons.injEq, true_and]
        at hpackets
      exact ih f.rest.length (hlen ▸ nextFrame_rest_length hf) hsame hpackets rfl

theorem ReceivedUniformly.clean (h : ReceivedUniformly react buf) : Clean react buf := by
  obtain ⟨events, hruns, hpackets⟩ := h
  by_cases hne : buf = []
  · rw [hne]
    exact .nil
  · have honce : atOnce react buf = events := by
      rw [← hruns _ (splits_atOnce hne buf.length), ← run_atOnce (Nat.le_refl buf.length)]
      simp [Session.run, Session.step, Session.new, hne]
    have hbytes : byteWise react buf = events := by
      have hsettled : Settled [] := ⟨rfl, by simp⟩
      rw [← hruns _ (splits_byteReads buf)]
      exact (run_byteReads hsettled buf).symm
    exact .of_extremes (honce.trans hbytes.symm) (honce ▸ hpackets)

end Extremes

end Rax.Debug
