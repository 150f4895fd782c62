/-
  `ImGuiLoop.cpp`: when the server packs a frame, and what it sends to whom.

  `render` packs a frame if a rerender was queued or the sum of the list hashes changed, and sends
  the bytes to every client, followed by the font texture for a client that has not had one.  The
  packets of a client that matter here are the ones that queue a rerender; `UpdateDisplaySize` also
  sets the size the next frame is packed with.
-/
import Nxdb.Codec

namespace Nxdb

open Lib

/-- A packet on its way, without the header. -/
structure Packet where
  type : PacketType
  payload : List UInt8
deriving DecidableEq

variable (P : Platform)

/-- The static variables of `ImGuiLoop.cpp` and `DrawDataPack.cpp`, and `io.DisplaySize`. -/
structure LoopStatics where
  sRerender : Bool
  lastDrawDataHash : UInt32
  pack : PackState
  displaySize : ImVec2

/-- What the statics begin with: a rerender is due, and the display has the size of the
    console's. -/
def LoopStatics.init : LoopStatics where
  sRerender := true
  lastDrawDataHash := 0
  pack := PackState.init
  displaySize := ⟨1280, 720⟩

namespace LoopStatics

/-- The hash table of `DrawDataPack.cpp`. -/
def table (st : LoopStatics) : Delta.Table UInt32 := tableOf st.pack.sPrevDrawListHashes

end LoopStatics

/-- `queueRerender`. -/
def queueRerender (st : LoopStatics) : LoopStatics := { st with sRerender := true }

/-! ## What the clients send -/

/-- The packets of a client that reach the render loop.  The others (`Alive`, keys, characters, the
    clipboard) leave its variables alone. -/
inductive ClientPacket where
  | hello
  | updateDisplaySize (displaySize : ImVec2)
  | updateMouse

/-- `Client::handlePacket` of the server. -/
def Server.handlePacket (st : LoopStatics) : ClientPacket → LoopStatics
  | .hello => queueRerender st
  | .updateDisplaySize displaySize => queueRerender { st with displaySize := displaySize }
  | .updateMouse => queueRerender st

/-- No packet of a client touches the hash table. -/
@[simp] theorem Server.table_handlePacket (st : LoopStatics) (p : ClientPacket) :
    (Server.handlePacket st p).table = st.table := by
  cases p <;> rfl

/-! ## The frames the server sends

  `render` up to the bytes: a frame is packed or not, and if it is, the table of hashes moves on
  with it whether or not anybody receives them. -/

/-- `calcDrawDataHash`: a sum, so the order of the lists does not count. -/
def calcDrawDataHash (data : ImDrawData) : UInt32 :=
  data.cmdLists.foldl (fun hash cmdList => hash + hashImDrawList P cmdList) 0

/-- `sizeof(sDrawDataBuffer)`. -/
def sDrawDataBufferSize : Nat := 512 * 1024

/-- The end of `render`, from `GetDrawData` on: the bytes for the clients, or `none` for a frame
    that is not sent.  A frame larger than the buffer has no defined behaviour. -/
def renderDrawData (mouseCursor : Int32) (data : ImDrawData) (st : LoopStatics) :
    Option (LoopStatics × Option (List UInt8)) :=
  let drawDataHash := calcDrawDataHash P data
  if st.sRerender = true ∨ st.lastDrawDataHash ≠ drawDataHash then do
    let r ← packImDrawData P st.displaySize mouseCursor st.pack data
    if r.out.length ≤ sDrawDataBufferSize then
      some ({ st with sRerender := false, lastDrawDataHash := drawDataHash, pack := r.st },
        some r.out)
    else none
  else some ({ st with lastDrawDataHash := drawDataHash }, none)

/-- The packets of one round of `iterateClients`, for a client with the given
    `mHasSentFontTexture`; `font` is the payload of the font texture. -/
def sendFrame (font : List UInt8) (mHasSentFontTexture : Bool) (out : List UInt8) : List Packet :=
  ⟨.drawData, out⟩ :: if mHasSentFontTexture then [] else [⟨.fontTexture, font⟩]

/-- **What `render` does to the table.**  Either the frame is not sent and the table stays, or the
    packet is the packed frame and the table stores it. -/
theorem renderDrawData_frame {st st' : LoopStatics} {f : Frame} {out : Option (List UInt8)}
    (h : renderDrawData P f.mouseCursor f.data st = some (st', out)) :
    (out = none ∧ st'.table = st.table) ∨
      (out = some (packedFrame P st.displaySize st.table f).bytes ∧
        st'.table = Delta.store (hashImDrawList P) st.table f.lists) := by
  rw [renderDrawData] at h
  by_cases hsend : st.sRerender = true ∨ st.lastDrawDataHash ≠ calcDrawDataHash P f.data
  · obtain ⟨r, hpack, hout, htab, -⟩ := packImDrawData_frame P st.displaySize st.pack f
    rw [if_pos hsend, hpack, Option.bind_eq_bind, Option.bind_some] at h
    by_cases hfits : r.out.length ≤ sDrawDataBufferSize
    · rw [if_pos hfits, Option.some.injEq, Prod.mk.injEq] at h
      obtain ⟨rfl, rfl⟩ := h
      exact Or.inr ⟨congrArg some hout, htab⟩
    · rw [if_neg hfits] at h
      exact absurd h (Option.some_ne_none _).symm
  · rw [if_neg hsend, Option.some.injEq, Prod.mk.injEq] at h
    obtain ⟨rfl, rfl⟩ := h
    exact Or.inl ⟨rfl, rfl⟩

end Nxdb
