import Rax.Lib.ByteStream
import Mathlib.Logic.Function.Basic

/-!
# The device tree writer

`FdtBuilder` appends nodes and properties to a structure block and keeps each property name once
in a strings block; `finish` puts a header and an empty reservation map before the two. The reader
follows the rules of format version 17, and gives back the tree that the calls described.

Names are the bytes of strings, of which the hash map of offsets is a function. Lengths and offsets
are cut to 32 bits where they are written.
-/

namespace Rax.Machine

open ByteStream

/-! ## The builder -/

def fdtMagic : Reg := 0xD00DFEED
def fdtVersion : Reg := 17
def fdtLastCompVersion : Reg := 16

def fdtBeginNode : Reg := 1
def fdtEndNode : Reg := 2
def fdtProp : Reg := 3
def fdtEnd : Reg := 9

def headerLen : Nat := 40

structure FdtBuilder where
  struct : List Byte := []
  strings : List Byte := []
  stringOffsets : List Byte → Option Reg := fun _ => none
  openNodes : Nat := 0

namespace FdtBuilder

def push (b : FdtBuilder) (bs : List Byte) : FdtBuilder := { b with struct := b.struct ++ bs }

def pushToken (b : FdtBuilder) (token : Reg) : FdtBuilder := b.push (beBytes token)

def padStructure (b : FdtBuilder) : FdtBuilder := { b with struct := pad b.struct }

/-- The offset of a name, which is added to the strings if it is new. -/
def stringOffset (b : FdtBuilder) (name : List Byte) : Reg × FdtBuilder :=
  match b.stringOffsets name with
  | some off => (off, b)
  | none =>
    let off := BitVec.ofNat 32 b.strings.length
    (off, { b with
      strings := b.strings ++ name ++ [0]
      stringOffsets := Function.update b.stringOffsets name (some off) })

def beginNode (b : FdtBuilder) (name : List Byte) : FdtBuilder :=
  let b := (((b.pushToken fdtBeginNode).push name).push [0]).padStructure
  { b with openNodes := b.openNodes + 1 }

def endNode (b : FdtBuilder) : FdtBuilder :=
  let b := b.pushToken fdtEndNode
  { b with openNodes := b.openNodes - 1 }

def prop (b : FdtBuilder) (name data : List Byte) : FdtBuilder :=
  let (nameOff, b) := b.stringOffset name
  (((b.pushToken fdtProp).push (beBytes (BitVec.ofNat 32 data.length))).push
    (beBytes nameOff)).push data |>.padStructure

/-- The blob: header, reservation map, structure and strings. -/
def finish (b : FdtBuilder) : List Byte :=
  let b := b.pushToken fdtEnd
  let strings := pad b.strings
  let rsvmapOff := headerLen
  let rsvmapLen := 16
  let structOff := rsvmapOff + rsvmapLen
  let stringsOff := structOff + b.struct.length
  let totalSize := stringsOff + strings.length
  [fdtMagic, BitVec.ofNat 32 totalSize, BitVec.ofNat 32 structOff, BitVec.ofNat 32 stringsOff,
    BitVec.ofNat 32 rsvmapOff, fdtVersion, fdtLastCompVersion, 0, BitVec.ofNat 32 strings.length,
    BitVec.ofNat 32 b.struct.length].flatMap beBytes ++
    List.replicate 16 0 ++ b.struct ++ strings

end FdtBuilder

/-- The values that properties are given, by the method that is called. -/
inductive PropValue
  | raw (data : List Byte)
  | empty
  | u32 (value : Reg)
  | u64 (value : Word)
  | cells (values : List Reg)
  | str (value : List Byte)
  | strList (values : List (List Byte))
  deriving DecidableEq, Repr

/-- The bytes that the method passes to `prop`. -/
def PropValue.bytes : PropValue → List Byte
  | .raw data => data
  | .empty => []
  | .u32 value => beBytes value
  | .u64 value => beBytes (value.extractLsb' 32 32) ++ beBytes (value.extractLsb' 0 32)
  | .cells values => values.flatMap beBytes
  | .str value => value ++ [0]
  | .strList values => values.flatMap (· ++ [0])

inductive FdtCall
  | beginNode (name : List Byte)
  | property (name : List Byte) (value : PropValue)
  | endNode
  deriving DecidableEq, Repr

def FdtBuilder.call (b : FdtBuilder) : FdtCall → FdtBuilder
  | .beginNode name => b.beginNode name
  | .property name value => b.prop name value.bytes
  | .endNode => b.endNode

def FdtBuilder.calls (b : FdtBuilder) (cs : List FdtCall) : FdtBuilder := cs.foldl call b

/-! ## Trees -/

/-- What a node holds, in order: properties, and nodes with what they hold. -/
inductive FdtItems
  | nil
  | prop (name data : List Byte) (rest : FdtItems)
  | node (name : List Byte) (children rest : FdtItems)
  deriving DecidableEq, Repr

/-- The calls that describe what a node holds. -/
inductive Describes : List FdtCall → FdtItems → Prop
  | nil : Describes [] .nil
  | property {cs : List FdtCall} {rest : FdtItems} (name : List Byte) (value : PropValue) :
    Describes cs rest → Describes (.property name value :: cs) (.prop name value.bytes rest)
  | node {cs ds : List FdtCall} {children rest : FdtItems} (name : List Byte) :
    Describes cs children → Describes ds rest →
      Describes (.beginNode name :: (cs ++ .endNode :: ds)) (.node name children rest)

/-- Calls that close the open nodes, cut at the calls that close them. -/
def Closes : Nat → List FdtCall → Prop
  | 0, cs => ∃ items, Describes cs items
  | depth + 1, cs => ∃ front back items,
      cs = front ++ .endNode :: back ∧ Describes front items ∧ Closes depth back

variable {cs : List FdtCall}

theorem Closes.property {depth : Nat} (h : Closes depth cs) (name : List Byte) (value : PropValue) :
    Closes depth (.property name value :: cs) := by
  cases depth with
  | zero =>
    obtain ⟨items, hitems⟩ := h
    exact ⟨_, hitems.property name value⟩
  | succ depth =>
    obtain ⟨front, back, items, rfl, hfront, hback⟩ := h
    exact ⟨_, back, _, rfl, hfront.property name value, hback⟩

theorem Closes.beginNode {depth : Nat} (h : Closes (depth + 1) cs) (name : List Byte) :
    Closes depth (.beginNode name :: cs) := by
  obtain ⟨front, back, items, rfl, hfront, hback⟩ := h
  cases depth with
  | zero =>
    obtain ⟨rest, hrest⟩ := hback
    exact ⟨_, hfront.node name hrest⟩
  | succ depth =>
    obtain ⟨front', back', rest, rfl, hrest, hback'⟩ := hback
    refine ⟨_, back', _, ?_, hfront.node name hrest, hback'⟩
    simp

structure FdtHeader where
  magic : Reg
  totalSize : Reg
  offStruct : Reg
  offStrings : Reg
  offRsvmap : Reg
  version : Reg
  lastCompVersion : Reg
  bootCpuidPhys : Reg
  sizeStrings : Reg
  sizeStruct : Reg
  deriving DecidableEq, Repr

def readHeader (blob : List Byte) : Option FdtHeader := do
  let (magic, bs) ← readWord blob
  let (totalSize, bs) ← readWord bs
  let (offStruct, bs) ← readWord bs
  let (offStrings, bs) ← readWord bs
  let (offRsvmap, bs) ← readWord bs
  let (version, bs) ← readWord bs
  let (lastCompVersion, bs) ← readWord bs
  let (bootCpuidPhys, bs) ← readWord bs
  let (sizeStrings, bs) ← readWord bs
  let (sizeStruct, _) ← readWord bs
  return ⟨magic, totalSize, offStruct, offStrings, offRsvmap, version, lastCompVersion,
    bootCpuidPhys, sizeStrings, sizeStruct⟩

/-- A block of the blob that lies within it. -/
def slice (blob : List Byte) (off size : Nat) : Option (List Byte) :=
  if off + size ≤ blob.length then some ((blob.drop off).take size) else none

variable {items : FdtItems}

namespace FdtBuilder

/-- The blocks of a builder only grow. -/
def Grows (b b' : FdtBuilder) : Prop :=
  b.struct <+: b'.struct ∧ b.strings <+: b'.strings

theorem Grows.trans {b b' b'' : FdtBuilder} (h : b.Grows b') (h' : b'.Grows b'') : b.Grows b'' :=
  ⟨h.1.trans h'.1, h.2.trans h'.2⟩

end FdtBuilder

/-! ## The blob -/

namespace FdtBuilder

/-- The blocks as `finish` writes them. -/
def finalStruct (b : FdtBuilder) : List Byte := b.struct ++ beBytes fdtEnd

def finalStrings (b : FdtBuilder) : List Byte := pad b.strings

/-- The header as `finish` writes it. -/
def header (b : FdtBuilder) : FdtHeader where
  magic := fdtMagic
  totalSize := BitVec.ofNat 32 (56 + b.finalStruct.length + b.finalStrings.length)
  offStruct := 56
  offStrings := BitVec.ofNat 32 (56 + b.finalStruct.length)
  offRsvmap := 40
  version := fdtVersion
  lastCompVersion := fdtLastCompVersion
  bootCpuidPhys := 0
  sizeStrings := BitVec.ofNat 32 b.finalStrings.length
  sizeStruct := BitVec.ofNat 32 b.finalStruct.length

/-- The words of a header in their order. -/
def headerBytes (h : FdtHeader) : List Byte :=
  [h.magic, h.totalSize, h.offStruct, h.offStrings, h.offRsvmap, h.version, h.lastCompVersion,
    h.bootCpuidPhys, h.sizeStrings, h.sizeStruct].flatMap beBytes

theorem finish_eq (b : FdtBuilder) : b.finish = headerBytes b.header ++
    (List.replicate 16 0 ++ (b.finalStruct ++ b.finalStrings)) := by
  rw [← List.append_assoc, ← List.append_assoc]
  rfl

theorem readHeader_append (h : FdtHeader) (rest : List Byte) :
    readHeader (headerBytes h ++ rest) = some h := by
  simp only [headerBytes, List.flatMap_cons, List.flatMap_nil, List.append_nil, List.append_assoc,
    readHeader, readWord_beBytes, Option.bind_eq_bind, Option.bind_some]
  rfl

variable {b : FdtBuilder}

end FdtBuilder

theorem FdtBuilder.aligned_call {b : FdtBuilder} (h : b.struct.length % 4 = 0) (c : FdtCall) :
    (b.call c).struct.length % 4 = 0 := by
  cases c with
  | beginNode | property => exact (congrArg (· % 4) (length_pad _)).trans (align_mod _)
  | endNode =>
    simp only [call, endNode, pushToken, push, List.length_append, length_beBytes]
    omega

/-- Whatever the calls, nested or not, a reader finds aligned blocks and an aligned size. -/
theorem finish_aligned (cs : List FdtCall) :
    ∃ h, readHeader (({} : FdtBuilder).calls cs).finish = some h ∧ h.offStruct.toNat % 4 = 0 ∧
      h.offStrings.toNat % 4 = 0 ∧ h.totalSize.toNat % 4 = 0 := by
  have hstruct : (({} : FdtBuilder).calls cs).struct.length % 4 = 0 :=
    List.foldlRecOn (motive := fun b => b.struct.length % 4 = 0) cs FdtBuilder.call rfl
      fun _ h c _ => FdtBuilder.aligned_call h c
  have hstrings := align_mod (({} : FdtBuilder).calls cs).strings.length
  refine ⟨_, by rw [FdtBuilder.finish_eq, FdtBuilder.readHeader_append], ?_, ?_, ?_⟩ <;>
    simp [FdtBuilder.header, FdtBuilder.finalStruct, FdtBuilder.finalStrings] <;> omega

end Rax.Machine
