/-
  Which draw data packets are read from their own bytes.

  `unpackDrawData` is given the size of the packet and does not use it: it follows the number of draw
  lists, and in each list the three sizes, wherever they lead.  The effect of a packet depends on its
  own bytes alone, and no others are read, if and only if the header is in the packet, these numbers
  are not negative and they announce no more than the packet has (`confined_unpacked_iff`).  Of the
  header the two totals are read, and used for nothing.

  1. `DrawDataWithin` says in terms of the payload what it announces; `listEnd` and `listsEnd` are
     where the reading ends.
  2. The loop over the lists is by induction on their number, both ways at once
     (`ownBytes_lists_iff`): a list that is in the packet is known on all memories that hold it
     (`readList_known`), and the rest begins where it ends.
  3. A list that is not in the packet needs that the last byte of each kind of entry tells:
     `lastByteTells_cmd`, `lastByteTells_vert` and `lastByteTells_idx`; and a size that is not in it
     can be made negative, which leaves no value at all.
-/
import Nxdb.DrawData
import Nxdb.Lib.Footprint

namespace Nxdb

open Lib Reader

/-! ## What a packet announces

  All of this is about the numbers in the packet: what a list takes follows from its three sizes,
  and where the lists end from one size after the other.  Nothing is said of what they contain. -/

/-- The `int` at an offset. -/
def sizeAt (m : Mem) (off : Nat) : Int32 := intVal (m.slice off 4)

/-- Where the draw list ends that begins at `pos`: a command has 12 bytes, a vertex 10, an index 2. -/
def listEnd (m : Mem) (pos : Nat) : Nat :=
  pos + 12 + 12 * (sizeAt m pos).toNatClampNeg + 10 * (sizeAt m (pos + 4)).toNatClampNeg
    + 2 * (sizeAt m (pos + 8)).toNatClampNeg

/-- The draw list that begins at `pos` is in the packet. -/
def ListWithin (payload : List UInt8) (pos : Nat) : Prop :=
  let m := Mem.ofList payload
  (0 ≤ sizeAt m pos ∧ 0 ≤ sizeAt m (pos + 4) ∧ 0 ≤ sizeAt m (pos + 8)) ∧
    listEnd m pos ≤ payload.length

/-- And so many one behind the other. -/
def ListsWithin (payload : List UInt8) : Nat → Nat → Prop
  | _, 0 => True
  | pos, k + 1 => ListWithin payload pos ∧ ListsWithin payload (listEnd (Mem.ofList payload) pos) k

/-- Where so many of them end. -/
def listsEnd (m : Mem) : Nat → Nat → Nat
  | pos, 0 => pos
  | pos, k + 1 => listsEnd m (listEnd m pos) k

/-- The packet has its header, and all of the lists that it announces. -/
def DrawDataWithin (payload : List UInt8) : Prop :=
  let count := sizeAt (Mem.ofList payload) 4
  ImDrawDataPackHeader.sizeOf ≤ payload.length ∧ 0 ≤ count ∧
    ListsWithin payload ImDrawDataPackHeader.sizeOf count.toNatClampNeg

/-! ## The buffers

  With sizes that are not negative the reader is total: it gives the three buffers at the cursor,
  and moves it by what they take.  So there is no way to find out by reading that a packet is too
  short. -/

variable {io : ClientIo} {payload : List UInt8}

/-- The three buffers at an offset, of the given sizes. -/
def buffersAt (io : ClientIo) (m : Mem) (cur c v i : Nat) : ImDrawList where
  cmdBuffer := elems 12 (fun bs => unpackCmd io (PackedImDrawCmd.ofBytes bs)) m cur c
  vtxBuffer := elems 10 (fun bs => unpackVert io.displaySize (PackedImDrawVert.ofBytes bs)) m
    (cur + 12 * c) v
  idxBuffer := elems 2 (fun bs => UInt16.ofNat (leVal bs)) m (cur + 12 * c + 10 * v) i

/-- The three buffers, read from where the cursor is. -/
theorem run_readBuffers {c v i : Int32} (h : 0 ≤ c ∧ 0 ≤ v ∧ 0 ≤ i) (m : Mem) (cur : Nat) :
    (readBuffers io c v i).run m cur =
      some (buffersAt io m cur c.toNatClampNeg v.toNatClampNeg i.toNatClampNeg,
        cur + 12 * c.toNatClampNeg + 10 * v.toNatClampNeg + 2 * i.toNatClampNeg) := by
  have hpos : ¬(c < 0 ∨ v < 0 ∨ i < 0) := by
    rintro (hc | hv | hi)
    · exact Int32.not_lt.mpr h.1 hc
    · exact Int32.not_lt.mpr h.2.1 hv
    · exact Int32.not_lt.mpr h.2.2 hi
  unfold readBuffers
  rw [if_neg hpos]
  have hcmds := run_collect_fixed 12 (fun bs => unpackCmd io (PackedImDrawCmd.ofBytes bs)) m
    c.toNatClampNeg 0 cur
  have hverts := run_collect_fixed 10
    (fun bs => unpackVert io.displaySize (PackedImDrawVert.ofBytes bs)) m v.toNatClampNeg 0
    (cur + 12 * c.toNatClampNeg)
  have hidxs := run_collect_fixed 2 (fun bs => UInt16.ofNat (leVal bs)) m i.toNatClampNeg 0
    (cur + 12 * c.toNatClampNeg + 10 * v.toNatClampNeg)
  exact (run_bind hcmds).trans ((run_bind hverts).trans (run_bind hidxs))

/-- A negative size is undefined. -/
theorem readBuffers_undefined {c v i : Int32} (h : ¬(0 ≤ c ∧ 0 ≤ v ∧ 0 ≤ i)) :
    readBuffers io c v i = Reader.undefined := by
  unfold readBuffers
  rw [if_pos]
  rw [← Int32.not_lt, ← Int32.not_lt, ← Int32.not_lt] at h
  tauto

/-! ## The last byte of a command, of a vertex and of an index

  To show that a byte counts it is enough to change it.  The last byte of each of the three
  structures can be changed so that what is made of the structure is another one (`LastByteTells`),
  so a buffer that ends behind the packet depends on what is there. -/

theorem lastByteTells_cmd (io : ClientIo) :
    LastByteTells 11 fun bs => unpackCmd io (PackedImDrawCmd.ofBytes bs) := by
  intro bs hbs h
  have hcount : (UInt16.ofNat (leVal (((bs ++ [0]).drop 10).take 2))).toUInt32 =
      (UInt16.ofNat (leVal (((bs ++ [1]).drop 10).take 2))).toUInt32 := congrArg ImDrawCmd.elemCount h
  have hval := congrArg UInt32.toNat hcount
  rw [UInt16.toNat_toUInt32, UInt16.toNat_toUInt32, UInt16.toNat_ofNat', UInt16.toNat_ofNat'] at hval
  exact leVal_field_last_ne (k := 10) (n := 1) hbs hval

theorem lastByteTells_vert (displaySize : ImVec2) :
    LastByteTells 9 fun bs => unpackVert displaySize (PackedImDrawVert.ofBytes bs) := by
  intro bs hbs h
  have hcol : UInt32.ofNat (leVal (((bs ++ [0]).drop 6).take 4)) =
      UInt32.ofNat (leVal (((bs ++ [1]).drop 6).take 4)) := congrArg ImDrawVert.col h
  have hval := congrArg UInt32.toNat hcol
  rw [UInt32.toNat_ofNat', UInt32.toNat_ofNat'] at hval
  exact leVal_field_last_ne (k := 6) (n := 3) hbs hval

theorem lastByteTells_idx : LastByteTells 1 fun bs => UInt16.ofNat (leVal bs) := by
  intro bs hbs h
  have hval := congrArg UInt16.toNat h
  rw [UInt16.toNat_ofNat', UInt16.toNat_ofNat'] at hval
  exact leVal_last_ne hbs hval

/-- **The buffers** depend on the packet alone iff they are in it. -/
theorem ownBytes_buffersAt_iff (io : ClientIo) {cur : Nat} (hcur : cur ≤ payload.length) (c v i : Nat) :
    OwnBytes (fun m => some (buffersAt io m cur c v i)) payload ↔
      cur + 12 * c + 10 * v + 2 * i ≤ payload.length := by
  constructor
  · intro h
    by_contra hout
    -- the last byte of the last array that has one is behind the packet
    have hpoke : ∀ {k}, payload.length ≤ k →
        buffersAt io ((Mem.ofList payload).poke k 0) cur c v i =
          buffersAt io ((Mem.ofList payload).poke k 1) cur c v i :=
      fun hk => Option.some.inj (h.poke_eq hk 0 1)
    rcases i with _ | i
    · rcases v with _ | v
      · rcases c with _ | c
        · exact hout hcur
        · exact elems_poke_ne (lastByteTells_cmd io) _ c cur
            (congrArg ImDrawList.cmdBuffer (hpoke (k := cur + 12 * c + 11) (by omega)))
      · exact elems_poke_ne (lastByteTells_vert io.displaySize) _ v (cur + 12 * c)
          (congrArg ImDrawList.vtxBuffer (hpoke (k := cur + 12 * c + 10 * v + 9) (by omega)))
    · exact elems_poke_ne lastByteTells_idx _ i (cur + 12 * c + 10 * v)
        (congrArg ImDrawList.idxBuffer (hpoke (k := cur + 12 * c + 10 * v + 2 * i + 1) (by omega)))
  · intro hin
    rw [ownBytes_iff]
    refine ⟨buffersAt io (Mem.ofList payload) cur c v i, fun m hm => congrArg some ?_⟩
    have hcmds := elems_congr (f := fun bs => unpackCmd io (PackedImDrawCmd.ofBytes bs))
      (w := 12) c cur fun j hj => hm.eq_ofList (i := cur + j) (by omega)
    have hverts := elems_congr
      (f := fun bs => unpackVert io.displaySize (PackedImDrawVert.ofBytes bs))
      (w := 10) v (cur + 12 * c) fun j hj => hm.eq_ofList (i := cur + 12 * c + j) (by omega)
    have hidxs := elems_congr (f := fun bs => UInt16.ofNat (leVal bs)) (w := 2) i
      (cur + 12 * c + 10 * v) fun j hj => hm.eq_ofList (i := cur + 12 * c + 10 * v + j) (by omega)
    unfold buffersAt
    rw [hcmds, hverts, hidxs]

/-! ## The lists

  One list at a time: what is in the packet is read from it (`readList_known`), and what depends on
  the packet alone is in it (`readList_within`); for this, a size that lies behind the packet is
  made negative.  Then the loop, by induction on the number of lists that are still to come. -/

/-- The body of the loop behind the three sizes. -/
def readBody (io : ClientIo) (sDrawDataPrev : Option (List ImDrawList)) (cmdListIdx : Nat)
    (c v i : Int32) : Reader ImDrawList :=
  if c = 0 ∧ v = 0 ∧ i = 0 then
    match sDrawDataPrev.bind fun cmdLists => cmdLists[cmdListIdx]? with
    | some srcList => pure srcList
    | none => readBuffers io c v i
  else readBuffers io c v i

/-- A list: its three sizes, and the body. -/
theorem run_readList (io : ClientIo) (sDrawDataPrev : Option (List ImDrawList)) (cmdListIdx : Nat)
    (m : Mem) (pos : Nat) :
    (readList io sDrawDataPrev cmdListIdx).run m pos =
      (readBody io sDrawDataPrev cmdListIdx (sizeAt m pos) (sizeAt m (pos + 4))
        (sizeAt m (pos + 8))).run m (pos + 12) := rfl

variable (io) (prev : Option (List ImDrawList)) (idx : Nat)

/-- Three zeros are three buffers of no size, or a copy. -/
theorem readBody_cases (c v i : Int32) :
    readBody io prev idx c v i = readBuffers io c v i ∨
      (c = 0 ∧ v = 0 ∧ i = 0) ∧ ∃ l, readBody io prev idx c v i = pure l := by
  unfold readBody
  by_cases hzero : c = 0 ∧ v = 0 ∧ i = 0
  · rw [if_pos hzero]
    cases prev.bind fun cmdLists => cmdLists[idx]? with
    | some srcList => exact Or.inr ⟨hzero, srcList, rfl⟩
    | none => exact Or.inl rfl
  · rw [if_neg hzero]
    exact Or.inl rfl

theorem readBody_undefined {c v i : Int32} (h : i < 0) :
    readBody io prev idx c v i = Reader.undefined := by
  have hneg : ¬(0 ≤ c ∧ 0 ≤ v ∧ 0 ≤ i) := fun hsizes => Int32.not_lt.mpr hsizes.2.2 h
  rcases readBody_cases io prev idx c v i with hbody | ⟨⟨-, -, rfl⟩, -⟩
  · exact hbody.trans (readBuffers_undefined hneg)
  · exact absurd h (by decide)

/-- The body reads what is in the packet. -/
theorem readBody_known {c v i : Int32} (h : 0 ≤ c ∧ 0 ≤ v ∧ 0 ≤ i) {cur : Nat}
    (hin : cur + 12 * c.toNatClampNeg + 10 * v.toNatClampNeg + 2 * i.toNatClampNeg
      ≤ payload.length) :
    ∃ l, ∀ m : Mem, m.Holds 0 payload → (readBody io prev idx c v i).run m cur =
      some (l, cur + 12 * c.toNatClampNeg + 10 * v.toNatClampNeg + 2 * i.toNatClampNeg) := by
  rcases readBody_cases io prev idx c v i with
    hbody | ⟨⟨rfl, rfl, rfl⟩, l, hbody⟩
  · have hown := (ownBytes_buffersAt_iff io (by omega) c.toNatClampNeg v.toNatClampNeg
      i.toNatClampNeg).mpr hin
    obtain ⟨l, hl⟩ := ownBytes_iff.mp hown
    refine ⟨l, fun m hm => ?_⟩
    rw [hbody, run_readBuffers h, Option.some.inj (hl m hm)]
  · refine ⟨l, fun m _ => ?_⟩
    rw [hbody]
    rfl

/-- And if what it makes of it depends on the packet alone, it is in the packet. -/
theorem readBody_within {c v i : Int32} {cur : Nat} (hcur : cur ≤ payload.length)
    (h : OwnBytes ((readBody io prev idx c v i).value cur) payload) :
    (0 ≤ c ∧ 0 ≤ v ∧ 0 ≤ i) ∧
      cur + 12 * c.toNatClampNeg + 10 * v.toNatClampNeg + 2 * i.toNatClampNeg
        ≤ payload.length := by
  rcases readBody_cases io prev idx c v i with
    hbody | ⟨⟨rfl, rfl, rfl⟩, -⟩
  · rw [hbody] at h
    by_cases hsizes : 0 ≤ c ∧ 0 ≤ v ∧ 0 ≤ i
    · refine ⟨hsizes, ?_⟩
      rw [← ownBytes_buffersAt_iff io hcur]
      refine (ownBytes_congr fun m _ => ?_).mp h
      unfold Reader.value
      rw [run_readBuffers hsizes]
      rfl
    · rw [readBuffers_undefined hsizes] at h
      exact absurd rfl (h.ne_none (Mem.holds_ofList payload))
  · exact ⟨by decide, hcur⟩

/-- The sizes are the packet's when they are in it. -/
theorem sizeAt_eq {m : Mem} (hm : m.Holds 0 payload) {off : Nat} (h : off + 4 ≤ payload.length) :
    sizeAt m off = sizeAt (Mem.ofList payload) off :=
  congrArg intVal (hm.slice_eq_ofList h)

/-- A size that is not in the packet can be a negative one. -/
theorem sizeAt_poke_neg (m : Mem) (off : Nat) : sizeAt (m.poke (off + 3) 0x80) off < 0 :=
  intVal_slice_poke_neg m off

/-- **A draw list in the packet** is read, and the cursor set to its end. -/
theorem readList_known {pos : Nat} (h : ListWithin payload pos) :
    ∃ l, ∀ m : Mem, m.Holds 0 payload →
      (readList io prev idx).run m pos = some (l, listEnd (Mem.ofList payload) pos) := by
  obtain ⟨hsizes, hend⟩ := h
  have hpos : pos + 12 ≤ payload.length := by
    unfold listEnd at hend
    omega
  obtain ⟨l, hl⟩ := readBody_known io prev idx hsizes hend
  refine ⟨l, fun m hm => ?_⟩
  rw [run_readList, sizeAt_eq hm (by omega), sizeAt_eq hm (by omega), sizeAt_eq hm (by omega)]
  exact hl m hm

/-- **A draw list that depends on the packet alone** is in it. -/
theorem readList_within {pos : Nat}
    (h : OwnBytes ((readList io prev idx).value pos) payload) : ListWithin payload pos := by
  have hpos : pos + 12 ≤ payload.length := by
    by_contra hout
    have hm : ((Mem.ofList payload).poke (pos + 8 + 3) 0x80).Holds 0 payload :=
      (Mem.holds_ofList payload).poke (by omega) _
    refine h.ne_none hm ?_
    unfold Reader.value
    rw [run_readList, readBody_undefined io prev idx (sizeAt_poke_neg _ (pos + 8))]
    rfl
  refine readBody_within io prev idx hpos
    ((ownBytes_congr fun m hm => ?_).mp h)
  unfold Reader.value
  rw [run_readList, sizeAt_eq hm (by omega), sizeAt_eq hm (by omega), sizeAt_eq hm (by omega)]

/-- **The loop over the draw lists**, by induction on their number. -/
theorem ownBytes_lists_iff (k : Nat) : ∀ start pos,
    OwnBytes ((collect (readList io prev) start k).value pos) payload ↔
      ListsWithin payload pos k := by
  induction k with
  | zero => exact fun _ _ => iff_of_true (ownBytes_some [] payload) trivial
  | succ k ih =>
    intro start pos
    have hrest : ListWithin payload pos →
        (OwnBytes ((collect (readList io prev) start (k + 1)).value pos) payload ↔
          ListsWithin payload (listEnd (Mem.ofList payload) pos) k) := by
      intro hin
      obtain ⟨l, hl⟩ := readList_known io prev start hin
      refine (ownBytes_bind_iff hl).trans (Iff.trans ?_ (ih (start + 1) _))
      refine (ownBytes_congr fun m _ => value_map _ (l :: ·) _ m).trans ?_
      exact ownBytes_map_iff fun _ _ heq => (List.cons_eq_cons.mp heq).2
    constructor
    · intro h
      have hin := readList_within io prev start h.collect_head
      exact ⟨hin, (hrest hin).mp h⟩
    · rintro ⟨hin, hlists⟩
      exact (hrest hin).mpr hlists

/-- The lists of a packet that has them all are read up to their end. -/
theorem run_lists_known (k : Nat) : ∀ (start : Nat) {pos : Nat}, ListsWithin payload pos k →
    ∀ {m : Mem}, m.Holds 0 payload → ∃ cmdLists,
      (collect (readList io prev) start k).run m pos =
        some (cmdLists, listsEnd (Mem.ofList payload) pos k) := by
  induction k with
  | zero => exact fun _ _ _ _ _ => ⟨[], rfl⟩
  | succ k ih =>
    rintro start pos ⟨hin, hlists⟩ m hm
    obtain ⟨l, hl⟩ := readList_known io prev start hin
    obtain ⟨cmdLists, hrest⟩ := ih (start + 1) hlists hm
    exact ⟨l :: cmdLists, (run_bind (hl m hm)).trans (run_bind hrest)⟩

theorem listsEnd_le (k : Nat) : ∀ {pos : Nat}, ListsWithin payload pos k → pos ≤ payload.length →
    listsEnd (Mem.ofList payload) pos k ≤ payload.length := by
  induction k with
  | zero => exact fun _ hpos => hpos
  | succ k ih => exact fun ⟨hin, hlists⟩ _ => ih hlists hin.2

theorem le_listsEnd (m : Mem) (k : Nat) : ∀ pos, pos ≤ listsEnd m pos k := by
  induction k with
  | zero => exact fun pos => Nat.le_refl pos
  | succ k ih =>
    intro pos
    have hlist : pos ≤ listEnd m pos := by
      unfold listEnd
      omega
    exact Nat.le_trans hlist (ih (listEnd m pos))

/-! ## The packet

  The header is read whole whatever the rest is.  What is left is the number of lists, which counts
  as the three sizes do: behind the packet it could be a negative one. -/

/-- What a packet leaves behind: the draw data, the cursor shape and the static variables. -/
def unpacked (io : ClientIo) (size : Nat) (st : DrawDataStatics) (m : Mem) :
    Option (ImDrawData × Int32 × DrawDataStatics) :=
  (unpackDrawData io m size st).map fun r => (r.drawData, r.outCursor, r.st)

/-- The draw data with the given lists, and what else there is to it. -/
def withLists (st : DrawDataStatics) (outCursor : Int32) (cmdLists : List ImDrawList) :
    ImDrawData × Int32 × DrawDataStatics :=
  let sDrawData := { st.sDrawData.getD ⟨0, 0, []⟩ with cmdLists := cmdLists }
  (sDrawData, outCursor, ⟨some cmdLists, some sDrawData⟩)

theorem cmdListsCount_ofBytes (m : Mem) :
    (ImDrawDataPackHeader.ofBytes (m.slice 0 16)).cmdListsCount = sizeAt m 4 := by
  show intVal (((m.slice 0 16).drop 4).take 4) = _
  rw [Mem.drop_slice, Mem.take_slice (by decide)]
  rfl

theorem curCursor_ofBytes (m : Mem) :
    (ImDrawDataPackHeader.ofBytes (m.slice 0 16)).curCursor = sizeAt m 0 := by
  show intVal ((m.slice 0 16).take 4) = _
  rw [Mem.take_slice (by decide)]
  rfl

theorem run_readHeader (m : Mem) : readHeader.run m 0 =
    some (ImDrawDataPackHeader.ofBytes (m.slice 0 16), ImDrawDataPackHeader.sizeOf) := rfl

/-- What `unpackDrawData` does, with the header read. -/
theorem unpacked_eq (size : Nat) (st : DrawDataStatics) (m : Mem) :
    unpacked io size st m =
      if sizeAt m 4 < 0 then none
      else ((collect (readList io st.sDrawDataPrev) 0 (sizeAt m 4).toNatClampNeg).value
        ImDrawDataPackHeader.sizeOf m).map (withLists st (sizeAt m 0)) := by
  have hread := run_bind (f := fun header : ImDrawDataPackHeader =>
    if header.cmdListsCount < 0 then Reader.undefined
    else do
      let cmdLists ← collect (readList io st.sDrawDataPrev) 0 header.cmdListsCount.toNatClampNeg
      return (header, cmdLists)) (run_readHeader m)
  unfold unpacked unpackDrawData readDrawData
  rw [hread, cmdListsCount_ofBytes]
  by_cases hneg : sizeAt m 4 < 0
  · rw [if_pos hneg, if_pos hneg]
    rfl
  · rw [if_neg hneg, if_neg hneg, ← curCursor_ofBytes]
    unfold Reader.value
    show (((((collect _ 0 _).run m _).bind _).bind _).map _) = _
    cases (collect (readList io st.sDrawDataPrev) 0 (sizeAt m 4).toNatClampNeg).run m
      ImDrawDataPackHeader.sizeOf <;> rfl

/-- The end of what `unpackDrawData` reads of a packet: its cursor only moves forward. -/
def unpackedEnd (io : ClientIo) (size : Nat) (st : DrawDataStatics) (m : Mem) : Option Nat :=
  (unpackDrawData io m size st).map UnpackResult.cursor

/-- Where the cursor is at the end of a packet. -/
theorem unpackedEnd_eq (size : Nat) (st : DrawDataStatics) (m : Mem) :
    unpackedEnd io size st m =
      if sizeAt m 4 < 0 then none
      else ((collect (readList io st.sDrawDataPrev) 0 (sizeAt m 4).toNatClampNeg).run m
        ImDrawDataPackHeader.sizeOf).map Prod.snd := by
  have hread := run_bind (f := fun header : ImDrawDataPackHeader =>
    if header.cmdListsCount < 0 then Reader.undefined
    else do
      let cmdLists ← collect (readList io st.sDrawDataPrev) 0 header.cmdListsCount.toNatClampNeg
      return (header, cmdLists)) (run_readHeader m)
  unfold unpackedEnd unpackDrawData readDrawData
  rw [hread, cmdListsCount_ofBytes]
  by_cases hneg : sizeAt m 4 < 0
  · rw [if_pos hneg, if_pos hneg]
    rfl
  · rw [if_neg hneg, if_neg hneg]
    show (((((collect _ 0 _).run m _).bind _).bind _).map _) = _
    cases (collect (readList io st.sDrawDataPrev) 0 (sizeAt m 4).toNatClampNeg).run m
      ImDrawDataPackHeader.sizeOf <;> rfl

/-- The effect of draw data that is its own. -/
theorem ownBytes_unpacked (size : Nat) (st : DrawDataStatics) (h : DrawDataWithin payload) :
    OwnBytes (unpacked io size st) payload := by
  obtain ⟨hheader, hcount, hlists⟩ := h
  have hlen : 8 ≤ payload.length := Nat.le_trans (by decide) hheader
  have hown := ((ownBytes_lists_iff io st.sDrawDataPrev _ 0 _).mpr hlists).map
    (withLists st (sizeAt (Mem.ofList payload) 0))
  refine (ownBytes_congr fun m hm => ?_).mp hown
  rw [unpacked_eq, sizeAt_eq hm hlen, if_neg (Int32.not_lt.mpr hcount), sizeAt_eq hm (by omega)]

/-- An effect that depends on the packet alone: the number of lists is in it, and so are they. -/
theorem lists_of_ownBytes (size : Nat) (st : DrawDataStatics)
    (h : OwnBytes (unpacked io size st) payload) :
    8 ≤ payload.length ∧ 0 ≤ sizeAt (Mem.ofList payload) 4 ∧
      ListsWithin payload ImDrawDataPackHeader.sizeOf
        (sizeAt (Mem.ofList payload) 4).toNatClampNeg := by
  have hlen : 8 ≤ payload.length := by
    by_contra hout
    refine h.ne_none ((Mem.holds_ofList payload).poke (i := 4 + 3) (by omega) 0x80) ?_
    rw [unpacked_eq, if_pos (sizeAt_poke_neg _ 4)]
  have hcount : 0 ≤ sizeAt (Mem.ofList payload) 4 := by
    by_contra hneg
    refine h.ne_none (Mem.holds_ofList payload) ?_
    rw [unpacked_eq, if_pos (Int32.not_le.mp hneg)]
  refine ⟨hlen, hcount, (ownBytes_lists_iff io st.sDrawDataPrev _ 0 _).mp ?_⟩
  refine (ownBytes_congr fun m hm => ?_).mp (h.map fun r => r.1.cmdLists)
  rw [unpacked_eq, sizeAt_eq hm hlen, if_neg (Int32.not_lt.mpr hcount), Option.map_map]
  exact Option.map_id'

/-- **Draw data** depends on its own bytes and no others are read, if and only if the header and
    what it announces are in the packet. -/
theorem confined_unpacked_iff (size : Nat) (st : DrawDataStatics) :
    Confined (unpacked io size st) (unpackedEnd io size st) payload ↔ DrawDataWithin payload := by
  have hend : ∀ {m : Mem}, m.Holds 0 payload → 8 ≤ payload.length →
      0 ≤ sizeAt (Mem.ofList payload) 4 →
      ListsWithin payload ImDrawDataPackHeader.sizeOf
        (sizeAt (Mem.ofList payload) 4).toNatClampNeg →
      unpackedEnd io size st m = some (listsEnd (Mem.ofList payload) ImDrawDataPackHeader.sizeOf
        (sizeAt (Mem.ofList payload) 4).toNatClampNeg) := by
    intro m hm hlen hcount hlists
    obtain ⟨cmdLists, hrun⟩ := run_lists_known io st.sDrawDataPrev _ 0 hlists hm
    rw [unpackedEnd_eq, sizeAt_eq hm hlen, if_neg (Int32.not_lt.mpr hcount), hrun]
    rfl
  constructor
  · rintro ⟨hown, hwithin⟩
    obtain ⟨hlen, hcount, hlists⟩ := lists_of_ownBytes io size st hown
    have hz := Mem.holds_ofList payload
    obtain ⟨n, hn, hle⟩ := hwithin _ hz
    cases Option.some.inj ((hend hz hlen hcount hlists).symm.trans hn)
    exact ⟨Nat.le_trans (le_listsEnd _ _ _) hle, hcount, hlists⟩
  · intro h
    obtain ⟨hheader, hcount, hlists⟩ := h
    have hlen : 8 ≤ payload.length := Nat.le_trans (by decide) hheader
    exact ⟨ownBytes_unpacked io size st ⟨hheader, hcount, hlists⟩,
      fun m hm => ⟨_, hend hm hlen hcount hlists, listsEnd_le _ hlists hheader⟩⟩

end Nxdb
