/-
  `DrawData.cpp`: the client rebuilds a frame.

  `unpackDrawData` walks the packet with a cursor and no regard to its size.  For each draw list it
  reads three sizes; three zeros with a list at that index in the previous frame mean a copy of
  that list, anything else is built from what follows.  The result becomes `sDrawData`, and a deep
  copy of it `sDrawDataPrev`.  A negative size leaves ImGui's vectors in a state the language does
  not define; the reader is `undefined` there.

  `unpackDrawData_eq` is the function's specification on the packets of `DrawDataPack`: from any
  memory that starts with the bytes of a packed frame it reads exactly these bytes, and the lists
  it builds are the patch of the previous ones.
-/
import Nxdb.DrawDataPack

namespace Nxdb

open Lib

/-! ## The code

  The cursor is the position of a `Reader`; a decoder is written with the same `read`s in the same
  order as the function. -/

/-- What `ImGui::GetIO()` says on the client: the window size and the font atlas' texture. -/
structure ClientIo where
  displaySize : ImVec2
  texId : Nat

/-- The static variables of `DrawData.cpp`; of the previous frame only the lists are used. -/
structure DrawDataStatics where
  sDrawDataPrev : Option (List ImDrawList)
  sDrawData : Option ImDrawData

/-- Both pointers are null. -/
def DrawDataStatics.init : DrawDataStatics := ⟨none, none⟩

/-- `reader.read<int>()`. -/
def readInt : Reader Int32 := Reader.fixed 4 intVal

/-- The header at the beginning. -/
def readHeader : Reader ImDrawDataPackHeader :=
  Reader.fixed ImDrawDataPackHeader.sizeOf ImDrawDataPackHeader.ofBytes

/-- The coordinate of a 12-bit level. -/
def unscale (q : BitVec 12) (bound : ℕ) (size : ℚ) : ℚ := (q.toNat : ℚ) / bound * size

/-- A command is scaled to the display of the client; its texture is the atlas, whatever it was. -/
def unpackCmd (io : ClientIo) (srcCmd : PackedImDrawCmd) : ImDrawCmd where
  clipRect :=
    { x := unscale srcCmd.clipRect.x1 PackedImDrawCmd.sBoundClip io.displaySize.x
      y := unscale srcCmd.clipRect.y1 PackedImDrawCmd.sBoundClip io.displaySize.y
      z := unscale srcCmd.clipRect.x2 PackedImDrawCmd.sBoundClip io.displaySize.x
      w := unscale srcCmd.clipRect.y2 PackedImDrawCmd.sBoundClip io.displaySize.y }
  vtxOffset := srcCmd.vtxOffset.toUInt32
  idxOffset := srcCmd.idxOffset.toUInt32
  elemCount := srcCmd.elemCount.toUInt32
  textureId := io.texId
  userCallbackData := 0
  userCallback := 0
  userCallbackDataOffset := 0
  userCallbackDataSize := 0

/-- A vertex is scaled to the display of the client. -/
def unpackVert (displaySize : ImVec2) (vert : PackedImDrawVert) : ImDrawVert where
  col := vert.col
  pos :=
    { x := unscale vert.posX PackedImDrawVert.sBoundPos displaySize.x
      y := unscale vert.posY PackedImDrawVert.sBoundPos displaySize.y }
  uv :=
    { x := (vert.uvX.toNat : ℚ) / PackedImDrawVert.sBoundUv
      y := (vert.uvY.toNat : ℚ) / PackedImDrawVert.sBoundUv }

/-- Reading a command. -/
def readCmd (io : ClientIo) : Reader ImDrawCmd := do
  let srcCmd ← Reader.fixed PackedImDrawCmd.sizeOf PackedImDrawCmd.ofBytes
  return unpackCmd io srcCmd

/-- Reading a vertex. -/
def readVert (displaySize : ImVec2) : Reader ImDrawVert := do
  let vert ← Reader.fixed PackedImDrawVert.sizeOf PackedImDrawVert.ofBytes
  return unpackVert displaySize vert

/-- One index of the block that is copied into the index buffer as it is. -/
def readIdx : Reader UInt16 := Reader.fixed 2 fun bs => UInt16.ofNat (leVal bs)

/-- The rest of the loop body after the `continue`: the three buffers, of the sizes just read. -/
def readBuffers (io : ClientIo) (cmdBufferSize vtxBufferSize idxBufferSize : Int32) :
    Reader ImDrawList :=
  if cmdBufferSize < 0 ∨ vtxBufferSize < 0 ∨ idxBufferSize < 0 then Reader.undefined
  else do
    let cmdBuffer ← Reader.collect (fun _ => readCmd io) 0 cmdBufferSize.toNatClampNeg
    let vtxBuffer ← Reader.collect (fun _ => readVert io.displaySize) 0 vtxBufferSize.toNatClampNeg
    let idxBuffer ← Reader.collect (fun _ => readIdx) 0 idxBufferSize.toNatClampNeg
    return { cmdBuffer := cmdBuffer, vtxBuffer := vtxBuffer, idxBuffer := idxBuffer }

/-- The body of the loop over the draw lists, at index `cmdListIdx`. -/
def readList (io : ClientIo) (sDrawDataPrev : Option (List ImDrawList)) (cmdListIdx : Nat) :
    Reader ImDrawList := do
  let cmdBufferSize ← readInt
  let vtxBufferSize ← readInt
  let idxBufferSize ← readInt
  if cmdBufferSize = 0 ∧ vtxBufferSize = 0 ∧ idxBufferSize = 0 then
    match sDrawDataPrev.bind fun cmdLists => cmdLists[cmdListIdx]? with
    | some srcList => return srcList
    | none => readBuffers io cmdBufferSize vtxBufferSize idxBufferSize
  else readBuffers io cmdBufferSize vtxBufferSize idxBufferSize

/-- The part of `unpackDrawData` that reads: the header and the draw lists. -/
def readDrawData (io : ClientIo) (sDrawDataPrev : Option (List ImDrawList)) :
    Reader (ImDrawDataPackHeader × List ImDrawList) := do
  let header ← readHeader
  if header.cmdListsCount < 0 then Reader.undefined
  else
    let cmdLists ← Reader.collect (readList io sDrawDataPrev) 0 header.cmdListsCount.toNatClampNeg
    return (header, cmdLists)

/-- What `unpackDrawData` returns and leaves behind, with the final value of its cursor. -/
structure UnpackResult where
  drawData : ImDrawData
  outCursor : Int32
  st : DrawDataStatics
  cursor : Nat

/-- The packet's size is a parameter of the source that the function does not use. -/
def unpackDrawData (io : ClientIo) (data : Mem) (_size : Nat) (st : DrawDataStatics) :
    Option UnpackResult := do
  let ((header, cmdLists), cursor) ← (readDrawData io st.sDrawDataPrev).run data 0
  let sDrawData := { st.sDrawData.getD ⟨0, 0, []⟩ with cmdLists := cmdLists }
  return { drawData := sDrawData
           outCursor := header.curCursor
           st := { sDrawDataPrev := some cmdLists, sDrawData := some sDrawData }
           cursor := cursor }

/-! ## What it makes of a packed frame

  Each decoder reads the bytes of what it decodes, and nothing behind them (`Reader.Reads`): the
  numbers, the items of the buffers, a list, the loop, the packet.  The loop goes by the entries of
  the packed frame, of which a mark is resolved against the previous frame. -/

/-- A draw list sent in full, rebuilt. -/
def unpackPacked (io : ClientIo) (l : PackedList) : ImDrawList where
  cmdBuffer := l.cmds.map (unpackCmd io)
  vtxBuffer := l.verts.map (unpackVert io.displaySize)
  idxBuffer := l.idxs

/-- One entry of a packed frame, resolved against the previous frame. -/
def unpackEntry (io : ClientIo) (prev : List ImDrawList) (i : Nat) (e : Option PackedList) :
    ImDrawList :=
  (e.map (unpackPacked io)).getD (prev.getD i ImDrawList.empty)

/-- A number is read from its four bytes ... -/
theorem reads_readInt (z : Int32) : Reader.Reads readInt (intBytes z) z :=
  Reader.Reads.fixed (length_intBytes z) (intVal_intBytes z)

/-- ... a command from its twelve ... -/
theorem reads_readCmd (io : ClientIo) (c : PackedImDrawCmd) :
    Reader.Reads (readCmd io) c.bytes (unpackCmd io c) :=
  (Reader.Reads.fixed c.length_bytes c.ofBytes_bytes).map

/-- ... a vertex from its ten ... -/
theorem reads_readVert (displaySize : ImVec2) (v : PackedImDrawVert) :
    Reader.Reads (readVert displaySize) v.bytes (unpackVert displaySize v) :=
  (Reader.Reads.fixed v.length_bytes v.ofBytes_bytes).map

/-- ... and an index from its two. -/
theorem reads_readIdx (i : UInt16) : Reader.Reads readIdx (idxBytes i) i := by
  refine Reader.Reads.fixed (length_le 2 _) ?_
  show UInt16.ofNat (leVal (le 2 i.toNat)) = i
  rw [leVal_le_of_lt i.toNat_lt, UInt16.ofNat_toNat]

/-- A size below `2 ^ 31` is not negative as an `int` ... -/
theorem Int32.not_ofNat_neg {n : Nat} (h : n < 2 ^ 31) : ¬ Int32.ofNat n < 0 := by
  rw [Int32.lt_iff_toInt_lt, Int32.toInt_ofNat_of_lt h, Int32.toInt_zero]
  omega

/-- ... and zero only if there is nothing. -/
theorem Int32.ofNat_eq_zero_iff {n : Nat} (h : n < 2 ^ 31) : Int32.ofNat n = 0 ↔ n = 0 := by
  rw [← Int32.toInt_inj, Int32.toInt_ofNat_of_lt h, Int32.toInt_zero]
  omega

/-- The three buffers, of any sizes an `int` can hold. -/
theorem reads_readBuffers (io : ClientIo) {l : PackedList}
    (h : l.cmds.length < 2 ^ 31 ∧ l.verts.length < 2 ^ 31 ∧ l.idxs.length < 2 ^ 31) :
    Reader.Reads (readBuffers io (Int32.ofNat l.cmds.length) (Int32.ofNat l.verts.length)
        (Int32.ofNat l.idxs.length))
      (l.cmds.flatMap PackedImDrawCmd.bytes ++ l.verts.flatMap PackedImDrawVert.bytes
        ++ l.idxs.flatMap idxBytes) (unpackPacked io l) := by
  obtain ⟨hc, hv, hi⟩ := h
  have hpos : ¬ (Int32.ofNat l.cmds.length < 0 ∨ Int32.ofNat l.verts.length < 0
      ∨ Int32.ofNat l.idxs.length < 0) := by
    rintro (h | h | h)
    · exact Int32.not_ofNat_neg hc h
    · exact Int32.not_ofNat_neg hv h
    · exact Int32.not_ofNat_neg hi h
  rw [readBuffers, if_neg hpos, Int32.toNatClampNeg_ofNat_of_lt hc,
    Int32.toNatClampNeg_ofNat_of_lt hv, Int32.toNatClampNeg_ofNat_of_lt hi, List.append_assoc]
  have hcmds := Reader.Reads.array l.cmds fun c _ => reads_readCmd io c
  have hverts := Reader.Reads.array l.verts fun v _ => reads_readVert io.displaySize v
  have hidxs := Reader.Reads.array (f := id) l.idxs fun i _ => reads_readIdx i
  rw [List.map_id] at hidxs
  exact hcmds.bind (hverts.bind hidxs.map)

/-- Three zeros: a copy of the previous list at the index, or a list with nothing in it. -/
theorem reads_readList_none (io : ClientIo) (prev : Option (List ImDrawList)) (i : Nat) :
    Reader.Reads (readList io prev i) (entryBytes none) (unpackEntry io (prev.getD []) i none) := by
  have hzero := reads_readInt 0
  have hempty : Reader.Reads (readBuffers io 0 0 0) [] ImDrawList.empty :=
    reads_readBuffers io (l := ⟨[], [], []⟩) ⟨by decide, by decide, by decide⟩
  rw [entryBytes, List.append_assoc]
  refine hzero.bind (hzero.bind ?_)
  rw [← List.append_nil (intBytes 0)]
  refine hzero.bind ?_
  rw [if_pos ⟨rfl, rfl, rfl⟩, unpackEntry, List.getD_eq_getElem?_getD]
  cases prev with
  | none => exact hempty
  | some lists =>
    rw [Option.bind_some, Option.getD_some]
    cases lists[i]? with
    | none => exact hempty
    | some srcList => exact Reader.Reads.pure srcList

/-- A list in full is rebuilt, whatever the previous frame. -/
theorem reads_readList_some (io : ClientIo) (prev : Option (List ImDrawList)) (i : Nat)
    {l : PackedList} (h : l.Wf) :
    Reader.Reads (readList io prev i) (entryBytes (some l))
      (unpackEntry io (prev.getD []) i (some l)) := by
  obtain ⟨hsizes, hne⟩ := h
  have hfull : ¬ (Int32.ofNat l.cmds.length = 0 ∧ Int32.ofNat l.verts.length = 0
      ∧ Int32.ofNat l.idxs.length = 0) := by
    rwa [Int32.ofNat_eq_zero_iff hsizes.1, Int32.ofNat_eq_zero_iff hsizes.2.1,
      Int32.ofNat_eq_zero_iff hsizes.2.2]
  rw [entryBytes, PackedList.bytes, List.append_assoc, List.append_assoc]
  refine (reads_readInt _).bind ((reads_readInt _).bind ((reads_readInt _).bind ?_))
  rw [if_neg hfull]
  exact reads_readBuffers io hsizes

/-- A packet: the header and the draw lists of a packed frame, as many as the header says. -/
structure PackedFrame where
  header : ImDrawDataPackHeader
  entries : List (Option PackedList)
  count : header.cmdListsCount = Int32.ofNat entries.length
  count_lt : entries.length < 2 ^ 31
  wf : ∀ l, some l ∈ entries → l.Wf

namespace PackedFrame

/-- A packed frame on the wire. -/
def bytes (p : PackedFrame) : List UInt8 := p.header.bytes ++ p.entries.flatMap entryBytes

/-- The lists a client builds from the packet: the patch of its previous ones. -/
def lists (p : PackedFrame) (io : ClientIo) (prev : List ImDrawList) : List ImDrawList :=
  Delta.patch ImDrawList.empty prev (p.entries.map (Option.map (unpackPacked io)))

/-- The client gets as many lists as the frame has ... -/
@[simp] theorem length_lists (p : PackedFrame) (io : ClientIo) (prev : List ImDrawList) :
    (p.lists io prev).length = p.entries.length := by
  simp [lists, Delta.patch]

/-- ... each one from its entry, or from the client's own list at that index. -/
theorem getElem?_lists (p : PackedFrame) (io : ClientIo) (prev : List ImDrawList) (i : Nat) :
    (p.lists io prev)[i]? = p.entries[i]?.map (unpackEntry io prev i) := by
  rw [lists, Delta.patch, List.getElem?_mapIdx, List.getElem?_map, Option.map_map]
  rfl

/-- Where the draw list at index `i` starts. -/
def offset (p : PackedFrame) (i : Nat) : Nat :=
  p.header.bytes.length + ((p.entries.take i).flatMap entryBytes).length

/-- The first entry begins behind the header ... -/
theorem offset_zero (p : PackedFrame) : p.offset 0 = ImDrawDataPackHeader.sizeOf := by
  simp [offset]

/-- ... the last one ends where the frame does ... -/
theorem offset_length (p : PackedFrame) : p.offset p.entries.length = p.bytes.length := by
  rw [offset, List.take_length, bytes, List.length_append]

/-- ... and each begins where the one before it ends. -/
theorem offset_succ (p : PackedFrame) {i : Nat} {e : Option PackedList}
    (h : p.entries[i]? = some e) : p.offset (i + 1) = p.offset i + (entryBytes e).length := by
  rw [offset, offset, List.take_add_one, h, List.flatMap_append, List.length_append, Nat.add_assoc]
  simp

/-- In a memory that holds the packet, each draw list lies at its offset. -/
theorem holds_entry (p : PackedFrame) {m : Mem} (hm : m.Holds 0 p.bytes) {i : Nat}
    {e : Option PackedList} (h : p.entries[i]? = some e) :
    m.Holds (p.offset i) (entryBytes e) := by
  obtain ⟨hi, hget⟩ := List.getElem?_eq_some_iff.mp h
  have hsplit : p.entries = p.entries.take i ++ (e :: p.entries.drop (i + 1)) := by
    rw [← hget, ← List.drop_eq_getElem_cons hi, List.take_append_drop]
  rw [bytes, hsplit, List.flatMap_append, List.flatMap_cons, ← List.append_assoc] at hm
  obtain ⟨-, hrest⟩ := Mem.holds_append.mp hm
  rw [Nat.zero_add, List.length_append] at hrest
  exact (Mem.holds_append.mp hrest).1

end PackedFrame

/-- Each draw list is read from its offset to the next one's. -/
theorem readList_run (io : ClientIo) (prev : Option (List ImDrawList)) (p : PackedFrame) {m : Mem}
    (hm : m.Holds 0 p.bytes) {i : Nat} {e : Option PackedList} (h : p.entries[i]? = some e) :
    (readList io prev i).run m (p.offset i) =
      some (unpackEntry io (prev.getD []) i e, p.offset (i + 1)) := by
  rw [p.offset_succ h]
  cases e with
  | none => exact reads_readList_none io prev i m _ (p.holds_entry hm h)
  | some l =>
    exact reads_readList_some io prev i (p.wf l (List.mem_of_getElem? h)) m _ (p.holds_entry hm h)

/-- The reading part of `unpackDrawData` reads a packet. -/
theorem reads_readDrawData (io : ClientIo) (prev : Option (List ImDrawList)) (p : PackedFrame) :
    Reader.Reads (readDrawData io prev) p.bytes (p.header, p.lists io (prev.getD [])) := by
  have hhead : Reader.Reads readHeader p.header.bytes p.header :=
    Reader.Reads.fixed p.header.length_bytes p.header.ofBytes_bytes
  have hparts := Reader.Reads.collect (f := readList io prev)
    (p.entries.mapIdx fun i e => (entryBytes e, unpackEntry io (prev.getD []) i e)) 0 (by
      intro i hi
      rw [List.getElem_mapIdx, Nat.zero_add]
      rw [List.length_mapIdx] at hi
      cases he : p.entries[i] with
      | none => exact reads_readList_none io prev i
      | some l => exact reads_readList_some io prev i (p.wf l (he ▸ List.getElem_mem hi)))
  have hbytes : (p.entries.mapIdx fun i e =>
      (entryBytes e, unpackEntry io (prev.getD []) i e)).flatMap Prod.fst =
        p.entries.flatMap entryBytes := by
    rw [List.flatMap_def, List.flatMap_def]
    congr 1
    apply List.ext_getElem?
    intro i
    rw [List.getElem?_map, List.getElem?_mapIdx, List.getElem?_map, Option.map_map]
    rfl
  have hlists : (p.entries.mapIdx fun i e =>
      (entryBytes e, unpackEntry io (prev.getD []) i e)).map Prod.snd =
        p.lists io (prev.getD []) := by
    apply List.ext_getElem?
    intro i
    rw [p.getElem?_lists, List.getElem?_map, List.getElem?_mapIdx, Option.map_map]
    rfl
  rw [List.length_mapIdx, hbytes, hlists] at hparts
  refine hhead.bind ?_
  rw [p.count, if_neg (Int32.not_ofNat_neg p.count_lt), Int32.toNatClampNeg_ofNat_of_lt p.count_lt]
  exact hparts.map

/-- **`unpackDrawData` rebuilds a packet.**  On every memory that starts with the bytes of a packet
    it stops behind the last of them, and the lists it returns and keeps are the patch of the
    previous frame's. -/
theorem unpackDrawData_eq (io : ClientIo) {m : Mem} (size : Nat) (st : DrawDataStatics)
    {p : PackedFrame} (h : m.Holds 0 p.bytes) :
    ∃ r, unpackDrawData io m size st = some r ∧
      r.drawData.cmdLists = p.lists io (st.sDrawDataPrev.getD []) ∧
      r.outCursor = p.header.curCursor ∧
      r.st = ⟨some r.drawData.cmdLists, some r.drawData⟩ ∧
      r.cursor = p.bytes.length := by
  have hread := reads_readDrawData io st.sDrawDataPrev p m 0 h
  rw [Nat.zero_add] at hread
  refine ⟨_, by rw [unpackDrawData, hread]; rfl, rfl, rfl, rfl, rfl⟩

end Nxdb
