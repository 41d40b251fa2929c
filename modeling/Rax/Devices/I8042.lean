import Rax.Lib.Word

/-!
# The keyboard controller

Port 0x60 carries data and port 0x64 status and commands. A keyboard and a mouse each have a queue
of bytes for the guest; one output byte is shown at a time and is refilled from the queues. The
controller's own replies go into the output byte directly.

A command to the mouse gives its new state and the bytes it sends, which are then pushed in order;
pushing does not depend on the state of the mouse.
-/

namespace Rax.Devices

inductive MousePending
  | none | sampleRate | resolution
  deriving DecidableEq, Repr

structure MouseState where
  reporting : Bool := false
  streamMode : Bool := true
  sampleRate : Byte := 100
  resolution : Byte := 2
  scaling21 : Bool := false
  deviceId : Byte := 0
  pending : MousePending := .none
  rateHistory : Byte × Byte × Byte := (0, 0, 0)
  buttons : Byte := 0
  deriving DecidableEq, Repr

namespace MouseState

/-- Everything but the identity, the rates seen and the buttons. -/
def applyDefaults (m : MouseState) : MouseState :=
  { m with reporting := false, streamMode := true, sampleRate := 100, resolution := 2,
           scaling21 := false, pending := .none }

def isIntellimouse (m : MouseState) : Bool := m.deviceId == 3

/-- A delta in nine signed bits, and whether it was cut. -/
def clampDelta (delta : BitVec 16) : BitVec 16 × Bool :=
  if 255 < delta.toInt then (255, true)
  else if delta.toInt < -256 then (BitVec.ofInt 16 (-256), true)
  else (delta, false)

/-- A flag in a byte. -/
def bitIf (c : Bool) (bit : Byte) : Byte := if c then bit else 0

/-- The bytes of a movement packet; four for a wheel mouse. -/
def movementPacket (m : MouseState) (dx dy : BitVec 16) (buttons dz : Byte) : List Byte :=
  let (x, xOver) := clampDelta dx
  let (y, yOver) := clampDelta dy
  let flags := 0x08 ||| (buttons &&& 0x07) ||| bitIf (x.toInt < 0) 0x10 |||
    bitIf (y.toInt < 0) 0x20 ||| bitIf xOver 0x40 ||| bitIf yOver 0x80
  let z := if dz.toInt < -8 then BitVec.ofInt 8 (-8) else if 7 < dz.toInt then 7 else dz
  [flags, x.setWidth 8, y.setWidth 8] ++ if m.isIntellimouse then [z &&& 0x0F] else []

def statusBytes (m : MouseState) : List Byte :=
  [bitIf (m.buttons.getLsbD 1) 0x01 ||| bitIf (m.buttons.getLsbD 2) 0x02 |||
    bitIf (m.buttons.getLsbD 0) 0x04 ||| bitIf m.scaling21 0x10 ||| bitIf m.reporting 0x20 |||
    bitIf (!m.streamMode) 0x40, m.resolution, m.sampleRate]

def ack : Byte := 0xFA

/-- A byte that is not a parameter. -/
def command (m : MouseState) (byte : Byte) : MouseState × List Byte :=
  match byte.toNat with
  | 0xFF =>
    ({ m.applyDefaults with deviceId := 0, rateHistory := (0, 0, 0), buttons := 0 }, [ack, 0xAA, 0])
  | 0xF6 => (m.applyDefaults, [ack])
  | 0xF5 => ({ m with reporting := false }, [ack])
  | 0xF4 => ({ m with reporting := true }, [ack])
  | 0xF3 => ({ m with pending := .sampleRate }, [ack])
  | 0xF2 => (m, [ack, m.deviceId])
  | 0xF0 => ({ m with streamMode := false }, [ack])
  | 0xEA => ({ m with streamMode := true }, [ack])
  | 0xEB => (m, ack :: m.movementPacket 0 0 m.buttons 0)
  | 0xE9 => (m, ack :: m.statusBytes)
  | 0xE8 => ({ m with pending := .resolution }, [ack])
  | 0xE7 => ({ m with scaling21 := true }, [ack])
  | 0xE6 => ({ m with scaling21 := false }, [ack])
  | _ => (m, [ack])

/-- The rates 200, 100, 80 in a row turn the mouse into a wheel mouse. -/
def input (m : MouseState) (byte : Byte) : MouseState × List Byte :=
  let idle := { m with pending := .none }
  match m.pending with
  | .sampleRate =>
    let history := (m.rateHistory.2.1, m.rateHistory.2.2, byte)
    ({ idle with sampleRate := byte, rateHistory := history,
                 deviceId := if history = (200, 100, 80) then 3 else m.deviceId }, [ack])
  | .resolution => ({ idle with resolution := byte &&& 0x03 }, [ack])
  | .none => idle.command byte

end MouseState

inductive PendingWrite
  | none | commandByte | outputPort | auxByte
  deriving DecidableEq, Repr

structure I8042 where
  commandByte : Byte := 0x41
  statusExtra : Byte := 0x10
  selfTestPassed : Bool := false
  outputPort : Byte := 0x03
  kbdQueue : List Byte := []
  auxQueue : List Byte := []
  outputByte : Option Byte := none
  outputIsAux : Bool := false
  pending : PendingWrite := .none
  kbdEnabled : Bool := true
  auxEnabled : Bool := true
  resetRequested : Bool := false
  kbdIrqPending : Bool := false
  auxIrqPending : Bool := false
  mouse : MouseState := {}
  deriving DecidableEq, Repr

namespace I8042

def deviceQueueCapacity : Nat := 256

def enqueueKeyboardByte (s : I8042) (byte : Byte) : I8042 :=
  if s.kbdQueue.length < deviceQueueCapacity then { s with kbdQueue := s.kbdQueue ++ [byte] } else s

def enqueueAuxByte (s : I8042) (byte : Byte) : I8042 :=
  if s.auxQueue.length < deviceQueueCapacity then { s with auxQueue := s.auxQueue ++ [byte] } else s

def status (s : I8042) : Byte :=
  (s.statusExtra &&& 0xD0) |||
    (if s.outputByte.isSome then 0x01 ||| (if s.outputIsAux then (0x20 : Byte) else 0) else 0) |||
    (if s.selfTestPassed || s.commandByte.getLsbD 2 then (0x04 : Byte) else 0)

/-- Take a byte of the keyboard, or else of the mouse, if no byte is shown. -/
def refillOutputBuffer (s : I8042) : I8042 :=
  if s.outputByte.isSome then s
  else
    match s.kbdQueue with
    | byte :: rest =>
      { s with kbdQueue := rest, outputByte := some byte, outputIsAux := false,
               kbdIrqPending := s.kbdIrqPending || s.commandByte.getLsbD 0 }
    | [] =>
      match s.auxQueue with
      | byte :: rest =>
        { s with auxQueue := rest, outputByte := some byte, outputIsAux := true,
                 auxIrqPending := s.auxIrqPending || s.commandByte.getLsbD 1 }
      | [] => s

/-- Whatever byte is shown is replaced. -/
def reply (s : I8042) (byte : Byte) : I8042 :=
  { s with outputByte := some byte, outputIsAux := false,
           kbdIrqPending := s.kbdIrqPending || s.commandByte.getLsbD 0 }

def pushKeyboardScancode (s : I8042) (scancode : Byte) : I8042 :=
  if !s.kbdEnabled then s else (s.enqueueKeyboardByte scancode).refillOutputBuffer

def pushMouseByte (s : I8042) (byte : Byte) : I8042 :=
  if !s.auxEnabled then s else (s.enqueueAuxByte byte).refillOutputBuffer

def pushMouseBytes (s : I8042) (bytes : List Byte) : I8042 := bytes.foldl pushMouseByte s

/-- Keep the buttons for later polls. -/
def withButtons (s : I8042) (buttons : Byte) : I8042 :=
  { s with mouse := { s.mouse with buttons := buttons &&& 0x07 } }

def pushMouseMovement (s : I8042) (dx dy : BitVec 16) (buttons dz : Byte) : I8042 :=
  if !s.mouse.reporting || !s.mouse.streamMode then s.withButtons buttons
  else (s.withButtons buttons).pushMouseBytes (s.mouse.movementPacket dx dy buttons dz)

def readData (s : I8042) : Byte × I8042 :=
  (s.outputByte.getD 0, ({ s with outputByte := none, outputIsAux := false }).refillOutputBuffer)

/-- The reset line is bit 0, active low. -/
def setOutputPort (s : I8042) (value : Byte) : I8042 :=
  { s with resetRequested := s.resetRequested || !value.getLsbD 0, outputPort := value }

def mouseInput (s : I8042) (byte : Byte) : I8042 :=
  ({ s with mouse := (s.mouse.input byte).1 }).pushMouseBytes (s.mouse.input byte).2

/-- A data byte ends what was waiting for it. -/
def idle (s : I8042) : I8042 := { s with pending := .none }

def writeData (s : I8042) (value : Byte) : I8042 :=
  match s.pending with
  | .commandByte =>
    { s.idle with commandByte := value, kbdEnabled := !value.getLsbD 4,
                  auxEnabled := !value.getLsbD 5 }
  | .outputPort => s.idle.setOutputPort value
  | .auxByte => s.idle.mouseInput value
  | .none =>
    if s.kbdEnabled then (s.idle.enqueueKeyboardByte 0xFA).refillOutputBuffer else s.idle

/-- The reply of a command, with the state it is sent from. -/
def replyOf (s : I8042) (command : Byte) : Option (I8042 × Byte) :=
  match command.toNat with
  | 0x20 => some (s, s.commandByte)
  | 0xAA => some ({ s with selfTestPassed := true, commandByte := s.commandByte ||| 0x04 }, 0x55)
  | 0xAB => some (s, 0x00)
  | 0xA9 => some (s, 0x00)
  | 0xD0 => some (s, s.outputPort)
  | _ => none

/-- The commands without a reply. -/
def silentCommand (s : I8042) (command : Byte) : I8042 :=
  match command.toNat with
  | 0x60 => { s with pending := .commandByte }
  | 0xAD => { s with kbdEnabled := false, commandByte := s.commandByte ||| 0x10 }
  | 0xAE =>
    ({ s with kbdEnabled := true, commandByte := s.commandByte &&& ~~~0x10#8 }).refillOutputBuffer
  | 0xA7 => { s with auxEnabled := false, commandByte := s.commandByte ||| 0x20 }
  | 0xA8 =>
    ({ s with auxEnabled := true, commandByte := s.commandByte &&& ~~~0x20#8 }).refillOutputBuffer
  | 0xD1 => { s with pending := .outputPort }
  | 0xD4 => { s with pending := .auxByte }
  | n =>
    -- A pulse command pulses the lines whose bit is clear.
    if 0xF0 ≤ n then { s with resetRequested := s.resetRequested || !command.getLsbD 0 } else s

def writeCommand (s : I8042) (command : Byte) : I8042 :=
  match s.replyOf command with
  | some (s, byte) => s.reply byte
  | none => s.silentCommand command

def dataPort : BitVec 16 := 0x60

def statusPort : BitVec 16 := 0x64

def read (s : I8042) (port : BitVec 16) : Byte × I8042 :=
  if port = dataPort then s.readData
  else if port = statusPort then (s.status, s)
  else (0xFF, s)

def write (s : I8042) (port : BitVec 16) (value : Byte) : I8042 :=
  if port = dataPort then s.writeData value
  else if port = statusPort then s.writeCommand value
  else s

end I8042

end Rax.Devices
