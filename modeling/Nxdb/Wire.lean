/-
  Packets on a connection.

  Both programs put a header of two `u32`, the payload's size and the packet's type, in front of the
  payload.  The header holds any 32-bit type and any size below `2 ^ 32`; `splitPacket` takes the
  first packet off a byte string, and `splits_packet` says that it inverts `wire`.
-/
import Nxdb.Common
import Nxdb.Lib.Framing

namespace Nxdb

open Lib

/-- A packet as it is framed; its type may be any number, not only that of an enumerator. -/
structure WirePacket where
  type : Nat
  payload : List UInt8
deriving DecidableEq

/-- The size and the type, 32 bits each. -/
def packetHeaderSize : Nat := 8

/-- The bytes of `struct { uint32_t size; uint32_t type; }`: both numbers lose what exceeds 32
    bits. -/
def headerBytes (size type : Nat) : List UInt8 := le 4 size ++ le 4 type

/-- A header takes eight bytes. -/
@[simp] theorem length_headerBytes (size type : Nat) :
    (headerBytes size type).length = packetHeaderSize := by
  rw [headerBytes, List.length_append, length_le, length_le]
  rfl

/-- The size a header announces. -/
def headerSize (bs : List UInt8) : Nat := leVal (bs.take 4)

/-- The type a header announces. -/
def headerType (bs : List UInt8) : Nat := leVal ((bs.drop 4).take 4)

namespace WirePacket

/-- The bytes that are sent for a packet. -/
def wire (p : WirePacket) : List UInt8 := headerBytes p.payload.length p.type ++ p.payload

/-- The packets a header can describe. -/
def Wf (p : WirePacket) : Prop := p.payload.length < 2 ^ 32 ∧ p.type < 2 ^ 32

instance (p : WirePacket) : Decidable p.Wf := by unfold Wf; infer_instance

/-- They are the header and the payload. -/
@[simp] theorem length_wire (p : WirePacket) :
    p.wire.length = packetHeaderSize + p.payload.length := by
  rw [wire, List.length_append, length_headerBytes]

end WirePacket

/-- All bytes of some packets. -/
def wireAll (ps : List WirePacket) : List UInt8 := ps.flatMap WirePacket.wire

/-- A size that fits 32 bits comes back from its header ... -/
theorem headerSize_headerBytes {size type : Nat} (h : size < 2 ^ 32) (rest : List UInt8) :
    headerSize (headerBytes size type ++ rest) = size := by
  rw [headerSize, headerBytes, List.append_assoc, List.take_left' (length_le 4 _),
    leVal_le_of_lt h]

/-- ... and so does a type. -/
theorem headerType_headerBytes {size type : Nat} (h : type < 2 ^ 32) (rest : List UInt8) :
    headerType (headerBytes size type ++ rest) = type := by
  rw [headerType, headerBytes, List.append_assoc, List.drop_left' (length_le 4 _),
    List.take_left' (length_le 4 _), leVal_le_of_lt h]

/-- The first eight bytes are the header that announces what they announce. -/
theorem headerBytes_announced {v : List UInt8} (h : packetHeaderSize ≤ v.length) :
    headerBytes (headerSize v) (headerType v) = v.take packetHeaderSize := by
  rw [packetHeaderSize] at h
  have hsize : (v.take 4).length = 4 := by rw [List.length_take]; omega
  have htype : ((v.drop 4).take 4).length = 4 := by rw [List.length_take, List.length_drop]; omega
  have hle := le_leVal (v.take 4)
  have hle' := le_leVal ((v.drop 4).take 4)
  rw [hsize] at hle
  rw [htype] at hle'
  rw [headerBytes, headerSize, headerType, hle, hle', ← List.take_add]
  rfl

/-- No header announces more than 32 bits say ... -/
theorem headerSize_lt (v : List UInt8) : headerSize v < 2 ^ 32 := by
  have h := leVal_lt (v.take 4)
  have hlen : (v.take 4).length ≤ 4 := List.length_take_le 4 v
  exact Nat.lt_of_lt_of_le h (Nat.pow_le_pow_right (by decide) hlen)

/-- ... in either field. -/
theorem headerType_lt (v : List UInt8) : headerType v < 2 ^ 32 := by
  have h := leVal_lt ((v.drop 4).take 4)
  have hlen : ((v.drop 4).take 4).length ≤ 4 := List.length_take_le 4 _
  exact Nat.lt_of_lt_of_le h (Nat.pow_le_pow_right (by decide) hlen)

/-- The first packet of a byte string and what follows it, if it is there as a whole. -/
def splitPacket (v : List UInt8) : Option (WirePacket × List UInt8) :=
  if packetHeaderSize ≤ v.length ∧ headerSize v + packetHeaderSize ≤ v.length then
    some (⟨headerType v, (v.drop packetHeaderSize).take (headerSize v)⟩,
      v.drop (headerSize v + packetHeaderSize))
  else none

/-- **The framing is self-delimiting.** -/
theorem splits_packet : Splits WirePacket.wire WirePacket.Wf splitPacket where
  ne_nil p := by
    intro h
    have hlen := p.length_wire
    rw [h, packetHeaderSize, List.length_nil] at hlen
    omega
  sound {v p rest} h := by
    -- the first eight bytes are the header of what follows them
    rw [splitPacket] at h
    by_cases hwhole : packetHeaderSize ≤ v.length ∧ headerSize v + packetHeaderSize ≤ v.length
    · rw [if_pos hwhole, Option.some.injEq, Prod.mk.injEq] at h
      obtain ⟨rfl, rfl⟩ := h
      obtain ⟨hhead, hall⟩ := hwhole
      have hlen : ((v.drop packetHeaderSize).take (headerSize v)).length = headerSize v := by
        rw [List.length_take, List.length_drop]
        omega
      refine ⟨⟨by rw [hlen]; exact headerSize_lt v, headerType_lt v⟩, ?_⟩
      rw [WirePacket.wire, hlen, headerBytes_announced hhead, List.append_assoc, Nat.add_comm,
        ← List.drop_drop, List.take_append_drop, List.take_append_drop]
    · rw [if_neg hwhole] at h
      exact absurd h (Option.some_ne_none _).symm
  complete {p} rest h := by
    obtain ⟨hsize, htype⟩ := h
    have hs : headerSize (p.wire ++ rest) = p.payload.length := by
      rw [WirePacket.wire, List.append_assoc, headerSize_headerBytes hsize]
    have ht : headerType (p.wire ++ rest) = p.type := by
      rw [WirePacket.wire, List.append_assoc, headerType_headerBytes htype]
    have hlen : (p.wire ++ rest).length = packetHeaderSize + p.payload.length + rest.length := by
      rw [List.length_append, WirePacket.length_wire]
    rw [splitPacket, hs, ht, if_pos ⟨by omega, by omega⟩]
    congr 2
    · congr 1
      rw [WirePacket.wire, List.append_assoc, List.drop_left' (length_headerBytes _ _),
        List.take_left]
    · rw [Nat.add_comm, ← p.length_wire, List.drop_left]

end Nxdb
