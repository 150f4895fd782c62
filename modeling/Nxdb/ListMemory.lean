/-
  `DrawData.cpp` once more: the draw lists behind the pointers.

  `unpackDrawData` makes every list it fills with `new ImDrawList` and gives the lists back one
  frame later: those of `sDrawData` at its start, those of `sDrawDataPrev` when the new ones are
  filled.  `Nxdb.DrawData` says what ends up in the lists; here they are cells of a heap, the two
  statics hold pointers, and a pointer may be read, written or deleted only while its cell is there.

  `Represents` ties the two together: the heap consists of the lists of `sDrawData` and of those of
  `sDrawDataPrev`, all at different addresses, and of nothing else.  The step lemma
  `refines_unpackDrawDataAt` is the program read line by line with the rules of `Lib/Heap`; on
  whatever packets, the pointer program then does what the function on values does.

  1. Program: `unpackListAt`, `keepLists`, `deleteLists` and `unpackDrawDataAt`, in the order of
     the source, as programs of `Lib/Heap`.
  2. Specification: the function on values of `Nxdb.DrawData`, which the program `Refines`: it is
     undefined exactly where that is.
  3. One step: `refines_unpackDrawDataAt`; any sequence: `session_refines`; packed frames:
     `session_runs`, where nothing is undefined.
-/
import Nxdb.Codec
import Nxdb.Lib.Heap

namespace Nxdb

open Lib Lib.HeapReader

/-! ## The code

  The same statements as in `unpackDrawData`, with every `new`, `delete` and access through a
  pointer written out as one of the operations of `Lib/Heap`, which fail where there is no such
  cell. -/

/-- An `ImDrawData` with the pointers of its `CmdLists`. -/
structure DrawDataObject where
  totalVtxCount : Int32
  totalIdxCount : Int32
  cmdLists : List Nat

/-- The static variables of `DrawData.cpp`, with pointers. -/
structure DrawDataPointers where
  sDrawDataPrev : Option (List Nat)
  sDrawData : Option DrawDataObject

/-- Null pointers. -/
def DrawDataPointers.init : DrawDataPointers := ⟨none, none⟩

variable (A : Allocator)

/-- The three buffers of `srcList`, copied. -/
def copyBuffers (list srcList : Nat) : HeapReader ImDrawList Unit := do
  let src ← load srcList
  store list src

/-- The three buffers as they follow in the packet. -/
def fillBuffers (io : ClientIo) (list : Nat) (cmdBufferSize vtxBufferSize idxBufferSize : Int32) :
    HeapReader ImDrawList Unit := do
  let buffers ← liftM (readBuffers io cmdBufferSize vtxBufferSize idxBufferSize)
  store list buffers

/-- The body of the first loop over the draw lists. -/
def unpackListAt (io : ClientIo) (sDrawDataPrev : Option (List Nat)) (cmdListIdx : Nat) :
    HeapReader ImDrawList Nat := do
  let list ← new A ImDrawList.empty
  let cmdBufferSize ← liftM readInt
  let vtxBufferSize ← liftM readInt
  let idxBufferSize ← liftM readInt
  if cmdBufferSize = 0 ∧ vtxBufferSize = 0 ∧ idxBufferSize = 0 then
    match sDrawDataPrev.bind fun cmdLists => cmdLists[cmdListIdx]? with
    | some srcList => do
      copyBuffers list srcList
      return list
    | none => do
      fillBuffers io list cmdBufferSize vtxBufferSize idxBufferSize
      return list
  else do
    fillBuffers io list cmdBufferSize vtxBufferSize idxBufferSize
    return list

/-- The second loop: a copy of each list for the next frame. -/
def keepLists : List Nat → HeapReader ImDrawList (List Nat)
  | [] => pure []
  | srcList :: srcLists => do
    let list ← new A ImDrawList.empty
    copyBuffers list srcList
    let lists ← keepLists srcLists
    return list :: lists

/-- The lists of an `ImDrawData` that may not be there yet. -/
def deleteLists : Option (List Nat) → HeapReader ImDrawList Unit
  | none => pure ()
  | some cmdLists => deleteAll cmdLists

/-- `unpackDrawData`, with the cursor shape it returns and the statics it leaves behind. -/
def unpackDrawDataAt (io : ClientIo) (st : DrawDataPointers) :
    HeapReader ImDrawList (Int32 × DrawDataPointers) := do
  let header ← liftM readHeader
  deleteLists (st.sDrawData.map DrawDataObject.cmdLists)
  if header.cmdListsCount < 0 then liftM (Reader.undefined : Reader (Int32 × DrawDataPointers))
  else
    let cmdLists ← collect (unpackListAt A io st.sDrawDataPrev) 0
      header.cmdListsCount.toNatClampNeg
    deleteLists st.sDrawDataPrev
    let kept ← keepLists A cmdLists
    return (header.curCursor,
      { sDrawDataPrev := some kept
        sDrawData := some { st.sDrawData.getD ⟨0, 0, []⟩ with cmdLists := cmdLists } })

/-- What `render` is given: the draw lists, and the shape of the mouse cursor behind them. -/
structure Rendered where
  cmdLists : List ImDrawList
  cursor : Int32
deriving DecidableEq

/-- `handlePackedDrawData`: `render` follows the pointers of the draw data just unpacked. -/
def handlePackedDrawDataAt (io : ClientIo) (st : DrawDataPointers) :
    HeapReader ImDrawList (Rendered × DrawDataPointers) := do
  let unpacked ← unpackDrawDataAt A io st
  let cmdLists ← loadAll ((unpacked.2.sDrawData.map DrawDataObject.cmdLists).getD [])
  return (⟨cmdLists, unpacked.1⟩, unpacked.2)

/-- A draw data packet as the client gets it: the bytes from its data on, and what
    `ImGui::GetIO()` says at that moment. -/
structure Delivery where
  io : ClientIo
  data : Mem
  size : Nat

/-- A session: the packets one after the other, on the values. -/
def handleAll : List Delivery → DrawDataStatics → Option (List Rendered × DrawDataStatics)
  | [], st => some ([], st)
  | d :: ds, st => do
    let r ← unpackDrawData d.io d.data d.size st
    let (rendered, last) ← handleAll ds r.st
    return (⟨r.drawData.cmdLists, r.outCursor⟩ :: rendered, last)

/-- The same session with pointers. -/
def handleAllAt : List Delivery → DrawDataPointers → Heap ImDrawList →
    Option (List Rendered × DrawDataPointers × Heap ImDrawList)
  | [], st, heap => some ([], st, heap)
  | d :: ds, st, heap => do
    let (((first, st), heap), _) ← handlePackedDrawDataAt A d.io st heap d.data 0
    let (rendered, last) ← handleAllAt ds st heap
    return (first :: rendered, last)

/-! ## What one step does to the heap

  Each piece of the program refines the piece on values that it belongs to: with the cells it owns
  given, it does the same to the packet, and leaves the cells it is said to leave.  Cells are told
  apart by their addresses, which `new` never gives twice at a time. -/

variable {A}

/-- A list that is copied from another ... -/
theorem refines_copyBuffers {list srcList : Nat} {src old : ImDrawList}
    {cells : List (Nat × ImDrawList)} (hmem : (srcList, src) ∈ cells) :
    Refines ((list, old) :: cells) (copyBuffers list srcList) (pure () : Reader Unit)
      fun _ _ left => left = (list, src) :: cells := by
  refine Refines.seq (refines_load (List.mem_cons_of_mem _ hmem)) ?_
  rintro l _ ⟨rfl, rfl⟩
  refine ((refines_store list old l).framed cells).consequence ?_
  rintro _ _ _ ⟨_, rfl, rfl⟩
  exact ⟨_, List.Perm.refl _, rfl⟩

/-- ... or filled from the packet: in both cases one cell changes. -/
theorem refines_fillBuffers (io : ClientIo) {list : Nat} {old : ImDrawList}
    (cells : List (Nat × ImDrawList)) (cmdBufferSize vtxBufferSize idxBufferSize : Int32) :
    Refines ((list, old) :: cells) (fillBuffers io list cmdBufferSize vtxBufferSize idxBufferSize)
      (readBuffers io cmdBufferSize vtxBufferSize idxBufferSize)
      fun _ l left => left = (list, l) :: cells := by
  refine (Refines.read _).after ?_
  rintro l _ _ ⟨rfl, rfl⟩
  refine ((refines_store list old l).framed cells).consequence ?_
  rintro _ _ _ ⟨_, rfl, rfl⟩
  exact ⟨_, List.Perm.refl _, rfl⟩

/-- A vector of pointers that may not be there yet, the lists behind them, and their cells. -/
inductive OwnsLists : Option (List Nat) → Option (List ImDrawList) → List (Nat × ImDrawList) → Prop
  | null : OwnsLists none none []
  | lists (cells : List (Nat × ImDrawList)) :
      OwnsLists (some (cells.map Prod.fst)) (some (cells.map Prod.snd)) cells

/-- The pointers and the lists have the same indices. -/
theorem OwnsLists.index {ptrs : Option (List Nat)} {lists : Option (List ImDrawList)}
    {cells : List (Nat × ImDrawList)} (h : OwnsLists ptrs lists cells) (i : Nat) :
    ((ptrs.bind fun ps => ps[i]?) = none ∧ (lists.bind fun ls => ls[i]?) = none) ∨
      ∃ p l, (ptrs.bind fun ps => ps[i]?) = some p ∧ (lists.bind fun ls => ls[i]?) = some l ∧
        (p, l) ∈ cells := by
  cases h with
  | null => exact Or.inl ⟨rfl, rfl⟩
  | lists cells =>
    rw [Option.bind_some, Option.bind_some, List.getElem?_map, List.getElem?_map]
    cases hc : cells[i]? with
    | none => exact Or.inl ⟨rfl, rfl⟩
    | some c => exact Or.inr ⟨c.1, c.2, rfl, rfl, List.mem_of_getElem? hc⟩

/-- The lists of an object are deleted, each once. -/
theorem refines_deleteLists {ptrs : Option (List Nat)} {lists : Option (List ImDrawList)}
    {cells : List (Nat × ImDrawList)} (h : OwnsLists ptrs lists cells) :
    Refines cells (deleteLists ptrs) (pure () : Reader Unit) fun _ _ left => left = [] := by
  cases h with
  | null => exact Refines.pure rfl
  | lists cells => exact refines_deleteAll cells

/-- **One round of the first loop.**  The new list is the one the function on values reads; the
    lists of the previous frame stay as they are. -/
theorem refines_unpackListAt (io : ClientIo) {ptrs : Option (List Nat)}
    {prev : Option (List ImDrawList)} {cells : List (Nat × ImDrawList)}
    (h : OwnsLists ptrs prev cells) (i : Nat) :
    Refines cells (unpackListAt A io ptrs i) (readList io prev i)
      fun p l left => left = (p, l) :: cells := by
  have hnew := (refines_new A ImDrawList.empty).framed cells
  refine Refines.seq hnew ?_
  rintro list _ ⟨_, rfl, rfl⟩
  refine (Refines.read readInt).bind ?_
  rintro cmdBufferSize _ _ ⟨rfl, rfl⟩
  refine (Refines.read readInt).bind ?_
  rintro vtxBufferSize _ _ ⟨rfl, rfl⟩
  refine (Refines.read readInt).bind ?_
  rintro idxBufferSize _ _ ⟨rfl, rfl⟩
  have hfill : Refines ((list, ImDrawList.empty) :: cells)
      (do fillBuffers io list cmdBufferSize vtxBufferSize idxBufferSize; return list)
      (readBuffers io cmdBufferSize vtxBufferSize idxBufferSize)
      fun p l left => left = (p, l) :: cells := by
    refine (refines_fillBuffers io cells _ _ _).after ?_
    rintro _ l _ rfl
    exact Refines.pure rfl
  by_cases hzero : cmdBufferSize = 0 ∧ vtxBufferSize = 0 ∧ idxBufferSize = 0
  · rw [if_pos hzero, if_pos hzero]
    rcases h.index i with ⟨hp, hl⟩ | ⟨srcList, src, hp, hl, hmem⟩
    · rw [hp, hl]
      exact hfill
    · -- a copy of a list that the previous frame still owns
      rw [hp, hl]
      refine Refines.seq (refines_copyBuffers hmem) ?_
      rintro _ _ rfl
      exact Refines.pure rfl
  · rw [if_neg hzero, if_neg hzero]
    exact hfill

/-- **The second loop.**  It leaves all lists alone and makes one copy of each source. -/
theorem refines_keepLists (cells : List (Nat × ImDrawList)) (srcs : List (Nat × ImDrawList)) :
    (∀ c ∈ srcs, c ∈ cells) →
      Refines cells (keepLists A (srcs.map Prod.fst)) (pure () : Reader Unit)
        fun ps _ left => ∃ kept, left = kept ++ cells ∧ ps = kept.map Prod.fst ∧
          kept.map Prod.snd = srcs.map Prod.snd := by
  induction srcs with
  | nil => exact fun _ => Refines.pure ⟨[], rfl, rfl, rfl⟩
  | cons c cs ih =>
    intro hsrcs
    have hc : (c.1, c.2) ∈ cells := hsrcs c List.mem_cons_self
    refine Refines.seq ((refines_new A ImDrawList.empty).framed cells) ?_
    rintro list _ ⟨_, rfl, rfl⟩
    refine Refines.seq (refines_copyBuffers hc) ?_
    rintro _ _ rfl
    have hrest := ((ih fun d hd => hsrcs d (List.mem_cons_of_mem c hd)).framed [(list, c.2)]).perm
      (List.perm_append_singleton (list, c.2) cells).symm
    refine Refines.seq hrest ?_
    rintro ps _ ⟨_, rfl, kept, rfl, rfl, hkept⟩
    have hall : Refines ((list, c.2) :: kept ++ cells)
        (pure (list :: kept.map Prod.fst) : HeapReader ImDrawList (List Nat))
        (pure () : Reader Unit)
        fun ps _ left => ∃ kept, left = kept ++ cells ∧ ps = kept.map Prod.fst ∧
          kept.map Prod.snd = (c :: cs).map Prod.snd := by
      refine Refines.pure ⟨(list, c.2) :: kept, rfl, rfl, ?_⟩
      rw [List.map_cons, List.map_cons, hkept]
    exact hall.perm (List.perm_append_singleton (list, c.2) (kept ++ cells))

/-! ## The whole function

  The lists on screen are deleted first, those of the previous frame when they have been copied
  from, so in between there are cells of up to three frames.  What is left in the end are the new
  lists and the copies made of them. -/

/-- The two statics, the values behind them, and the cells they own. -/
inductive OwnsData : Option DrawDataObject → Option ImDrawData → List (Nat × ImDrawList) → Prop
  | null : OwnsData none none []
  | data (totalVtxCount totalIdxCount : Int32) (cells : List (Nat × ImDrawList)) :
      OwnsData (some ⟨totalVtxCount, totalIdxCount, cells.map Prod.fst⟩)
        (some ⟨totalVtxCount, totalIdxCount, cells.map Prod.snd⟩) cells

/-- **The heap is what the statics own.**  The lists of the previous frame and the lists of the
    frame on screen, at addresses that are all different, and no list beside them. -/
def Represents (heap : Heap ImDrawList) (ptrs : DrawDataPointers) (st : DrawDataStatics) : Prop :=
  ∃ kept shown, heap.Holds (kept ++ shown) ∧
    OwnsLists ptrs.sDrawDataPrev st.sDrawDataPrev kept ∧ OwnsData ptrs.sDrawData st.sDrawData shown

/-- At the start there is no list, and no cell. -/
theorem represents_init : Represents Heap.empty DrawDataPointers.init DrawDataStatics.init :=
  ⟨[], [], Heap.holds_empty, OwnsLists.null, OwnsData.null⟩

/-- What `unpackDrawData` makes of the header and the lists it has read. -/
def unpackedStatics (st : DrawDataStatics) (cmdLists : List ImDrawList) : DrawDataStatics where
  sDrawDataPrev := some cmdLists
  sDrawData := some { st.sDrawData.getD ⟨0, 0, []⟩ with cmdLists := cmdLists }

theorem OwnsData.lists {ptr : Option DrawDataObject} {data : Option ImDrawData}
    {cells : List (Nat × ImDrawList)} (h : OwnsData ptr data cells) :
    OwnsLists (ptr.map DrawDataObject.cmdLists) (data.map ImDrawData.cmdLists) cells := by
  cases h with
  | null => exact OwnsLists.null
  | data v i cells => exact OwnsLists.lists cells

theorem OwnsData.of_some {ptr : Option DrawDataObject} {data : ImDrawData}
    {cells : List (Nat × ImDrawList)} (h : OwnsData ptr (some data) cells) :
    (ptr.map DrawDataObject.cmdLists).getD [] = cells.map Prod.fst ∧
      cells.map Prod.snd = data.cmdLists := by
  cases h with
  | data v i cells => exact ⟨rfl, rfl⟩

/-- The object stays, with other lists. -/
theorem OwnsData.replace {ptr : Option DrawDataObject} {data : Option ImDrawData}
    {cells : List (Nat × ImDrawList)} (h : OwnsData ptr data cells)
    (own : List (Nat × ImDrawList)) :
    OwnsData (some { ptr.getD ⟨0, 0, []⟩ with cmdLists := own.map Prod.fst })
      (some { data.getD ⟨0, 0, []⟩ with cmdLists := own.map Prod.snd }) own := by
  cases h with
  | null => exact OwnsData.data 0 0 own
  | data v i cells => exact OwnsData.data v i own

/-- **The function with pointers, line by line.**  The lists on screen are deleted before anything
    is built, the lists of the previous frame after the last of them has been copied. -/
theorem refines_unpackDrawDataAt (io : ClientIo) {ptrs : DrawDataPointers} {st : DrawDataStatics}
    {kept shown : List (Nat × ImDrawList)}
    (hkept : OwnsLists ptrs.sDrawDataPrev st.sDrawDataPrev kept)
    (hshown : OwnsData ptrs.sDrawData st.sDrawData shown) :
    Refines (shown ++ kept) (unpackDrawDataAt A io ptrs) (readDrawData io st.sDrawDataPrev)
      fun a b left => a.1 = b.1.curCursor ∧ ∃ kept' shown', left = kept' ++ shown' ∧
        OwnsLists a.2.sDrawDataPrev (unpackedStatics st b.2).sDrawDataPrev kept' ∧
        OwnsData a.2.sDrawData (unpackedStatics st b.2).sDrawData shown' := by
  refine (Refines.read readHeader).bind ?_
  rintro header _ _ ⟨rfl, rfl⟩
  refine Refines.seq ((refines_deleteLists hshown.lists).framed kept) ?_
  rintro _ _ ⟨_, rfl, rfl⟩
  rw [List.nil_append]
  by_cases hneg : header.cmdListsCount < 0
  · rw [if_pos hneg, if_pos hneg]
    exact Refines.undefined
  · rw [if_neg hneg, if_neg hneg]
    refine (Refines.collect (fun i => refines_unpackListAt io hkept i) _ 0).bind ?_
    rintro _ _ _ ⟨own, rfl, rfl, rfl⟩
    have hdelete := ((refines_deleteLists hkept).framed own).perm List.perm_append_comm
    refine Refines.seq hdelete ?_
    rintro _ _ ⟨_, rfl, rfl⟩
    rw [List.nil_append]
    refine Refines.seq (refines_keepLists own own fun _ h => h) ?_
    rintro _ _ ⟨kept', rfl, rfl, hsame⟩
    refine Refines.pure ⟨rfl, kept', own, rfl, ?_, hshown.replace own⟩
    rw [unpackedStatics, ← hsame]
    exact OwnsLists.lists kept'

/-- ... and then `render`, which finds the lists the function on values returns. -/
theorem refines_handlePackedDrawDataAt (io : ClientIo) {ptrs : DrawDataPointers}
    {st : DrawDataStatics} {kept shown : List (Nat × ImDrawList)}
    (hkept : OwnsLists ptrs.sDrawDataPrev st.sDrawDataPrev kept)
    (hshown : OwnsData ptrs.sDrawData st.sDrawData shown) :
    Refines (shown ++ kept) (handlePackedDrawDataAt A io ptrs) (readDrawData io st.sDrawDataPrev)
      fun a b left => a.1 = ⟨b.2, b.1.curCursor⟩ ∧ ∃ kept' shown', left = kept' ++ shown' ∧
        OwnsLists a.2.sDrawDataPrev (unpackedStatics st b.2).sDrawDataPrev kept' ∧
        OwnsData a.2.sDrawData (unpackedStatics st b.2).sDrawData shown' := by
  refine (refines_unpackDrawDataAt io hkept hshown).after ?_
  rintro ⟨_, ptrs'⟩ ⟨header, cmdLists⟩ _ ⟨rfl, kept', shown', rfl, hkept', hshown'⟩
  obtain ⟨hptrs, hlists⟩ := hshown'.of_some
  have hload := refines_loadAll (kept' ++ shown') shown' fun c hc => List.mem_append_right kept' hc
  rw [← hptrs, hlists] at hload
  refine Refines.seq hload ?_
  rintro _ _ ⟨rfl, rfl⟩
  exact Refines.pure ⟨rfl, kept', shown', rfl, hkept', hshown'⟩

/-- **One packet.** -/
theorem handlePackedDrawDataAt_step (d : Delivery) {heap : Heap ImDrawList}
    {ptrs : DrawDataPointers} {st : DrawDataStatics} (h : Represents heap ptrs st) :
    (unpackDrawData d.io d.data d.size st = none ∧
        handlePackedDrawDataAt A d.io ptrs heap d.data 0 = none) ∨
      ∃ r ptrs' heap', unpackDrawData d.io d.data d.size st = some r ∧
        handlePackedDrawDataAt A d.io ptrs heap d.data 0 =
          some (((⟨r.drawData.cmdLists, r.outCursor⟩, ptrs'), heap'), r.cursor) ∧
        Represents heap' ptrs' r.st := by
  obtain ⟨kept, shown, hheap, hkept, hshown⟩ := h
  have hholds : heap.Holds (shown ++ kept ++ []) := by
    rw [List.append_nil]
    exact hheap.perm List.perm_append_comm
  rcases refines_handlePackedDrawDataAt (A := A) d.io hkept hshown heap [] d.data 0 hholds with
    ⟨hread, hprog⟩ | ⟨⟨header, cmdLists⟩, cursor, ⟨_, ptrs'⟩, heap', _, hread, hprog, hpost, hh'⟩
  · left
    refine ⟨?_, hprog⟩
    rw [unpackDrawData, show (readDrawData d.io st.sDrawDataPrev).run d.data 0 = none from hread]
    rfl
  · right
    obtain ⟨rfl, kept', shown', rfl, hkept', hshown'⟩ := hpost
    rw [List.append_nil] at hh'
    refine ⟨⟨{ st.sDrawData.getD ⟨0, 0, []⟩ with cmdLists := cmdLists }, header.curCursor,
      unpackedStatics st cmdLists, cursor⟩, ptrs', heap', ?_, hprog, kept', shown', hh', hkept',
      hshown'⟩
    rw [unpackDrawData,
      show (readDrawData d.io st.sDrawDataPrev).run d.data 0 = some ((header, cmdLists), cursor)
      from hread]
    rfl

/-! ## Sessions

  One packet keeps `Represents`, and the induction over the packets needs nothing else. -/

/-- **Any packets.**  Whatever the bytes, the session with pointers is undefined exactly where the
    session on values is; else it renders the same lists, and the heap is again what the statics
    own. -/
theorem handleAllAt_refines (ds : List Delivery) :
    ∀ {heap : Heap ImDrawList} {ptrs : DrawDataPointers} {st : DrawDataStatics},
      Represents heap ptrs st →
      (handleAll ds st = none ∧ handleAllAt A ds ptrs heap = none) ∨
        ∃ rendered last ptrs' heap', handleAll ds st = some (rendered, last) ∧
          handleAllAt A ds ptrs heap = some (rendered, ptrs', heap') ∧
          Represents heap' ptrs' last := by
  induction ds with
  | nil => exact fun {heap ptrs st} h => Or.inr ⟨[], st, ptrs, heap, rfl, rfl, h⟩
  | cons d ds ih =>
    intro heap ptrs st h
    rcases handlePackedDrawDataAt_step (A := A) d h with
      ⟨hval, hprog⟩ | ⟨r, ptrs₁, heap₁, hval, hprog, h₁⟩
    · left
      rw [handleAll, handleAllAt, hval, hprog]
      exact ⟨rfl, rfl⟩
    · have hval' : handleAll (d :: ds) st = (handleAll ds r.st).bind fun x =>
          some (⟨r.drawData.cmdLists, r.outCursor⟩ :: x.1, x.2) := by
        rw [handleAll, hval]
        rfl
      have hprog' : handleAllAt A (d :: ds) ptrs heap = (handleAllAt A ds ptrs₁ heap₁).bind fun x =>
          some (⟨r.drawData.cmdLists, r.outCursor⟩ :: x.1, x.2.1, x.2.2) := by
        rw [handleAllAt, hprog]
        rfl
      rcases ih h₁ with ⟨hv, hp⟩ | ⟨rendered, last, ptrs', heap', hv, hp, h'⟩
      · left
        rw [hval', hprog', hv, hp]
        exact ⟨rfl, rfl⟩
      · right
        rw [hval', hprog', hv, hp]
        exact ⟨_, last, ptrs', heap', rfl, rfl, h'⟩

/-- **A session never strays from the heap.**  From the start, on any packets and with any
    allocator: where the function on values is defined no list is read, written or deleted after its
    deletion, the same lists are rendered, and in the end the heap consists of the lists on screen
    and of their copies. -/
theorem session_refines (A : Allocator) (ds : List Delivery) :
    (handleAll ds DrawDataStatics.init = none ∧
        handleAllAt A ds DrawDataPointers.init Heap.empty = none) ∨
      ∃ rendered last ptrs heap, handleAll ds DrawDataStatics.init = some (rendered, last) ∧
        handleAllAt A ds DrawDataPointers.init Heap.empty = some (rendered, ptrs, heap) ∧
        Represents heap ptrs last :=
  handleAllAt_refines ds represents_init

/-! ## Sessions with the server's packets

  On packed frames the function on values is defined, so here the pointers come through to the
  end. -/

/-- What packed frames show, each against the one before it. -/
def showAll : List (ClientIo × PackedFrame) → List ImDrawList → List Rendered
  | [], _ => []
  | (io, p) :: fs, prev => ⟨p.lists io prev, p.header.curCursor⟩ :: showAll fs (p.lists io prev)

/-- The lists the last of them shows. -/
def lastLists (fs : List (ClientIo × PackedFrame)) (prev : List ImDrawList) : List ImDrawList :=
  fs.foldl (fun prev f => f.2.lists f.1 prev) prev

/-- A delivery of a packed frame. -/
def DeliversFrame (d : Delivery) (f : ClientIo × PackedFrame) : Prop :=
  d.io = f.1 ∧ d.data.Holds 0 f.2.bytes

/-- Both statics show the same lists. -/
def DrawDataStatics.Shows (st : DrawDataStatics) (lists : List ImDrawList) : Prop :=
  st.sDrawDataPrev.getD [] = lists ∧ (st.sDrawData.map ImDrawData.cmdLists).getD [] = lists

/-- On packed frames the session on values is defined. -/
theorem handleAll_packets {ds : List Delivery} {fs : List (ClientIo × PackedFrame)}
    (h : List.Forall₂ DeliversFrame ds fs) :
    ∀ {st : DrawDataStatics} {prev : List ImDrawList}, st.Shows prev →
      ∃ last, handleAll ds st = some (showAll fs prev, last) ∧ last.Shows (lastLists fs prev) := by
  induction h with
  | nil => exact fun {st prev} hst => ⟨st, rfl, hst⟩
  | @cons d f ds fs hd _ ih =>
    intro st prev hst
    obtain ⟨io, p⟩ := f
    obtain ⟨hio, hholds⟩ := hd
    obtain ⟨r, hr, hlists, hcursor, hrst, -⟩ := unpackDrawData_eq d.io d.size st hholds
    rw [hio, hst.1] at hlists
    have hnext : r.st.Shows (p.lists io prev) := by
      rw [hrst]
      exact ⟨hlists, hlists⟩
    obtain ⟨last, hrest, hlast⟩ := ih hnext
    refine ⟨last, ?_, hlast⟩
    rw [handleAll, hr, Option.bind_eq_bind, Option.bind_some, hrest, hlists, hcursor]
    rfl

theorem OwnsLists.getD {ptrs : Option (List Nat)} {lists : Option (List ImDrawList)}
    {cells : List (Nat × ImDrawList)} (h : OwnsLists ptrs lists cells) :
    ptrs.getD [] = cells.map Prod.fst ∧ lists.getD [] = cells.map Prod.snd := by
  cases h with
  | null => exact ⟨rfl, rfl⟩
  | lists cells => exact ⟨rfl, rfl⟩

/-- **A session with the server runs through.**  On packed frames, with any allocator, the client
    never reads, writes or deletes a deleted list; what it renders are the frames, each the patch of
    the one before; and after the last of them there are two lists for every draw list on screen,
    the one it is rendered from and its copy. -/
theorem session_runs (A : Allocator) {ds : List Delivery} {fs : List (ClientIo × PackedFrame)}
    (h : List.Forall₂ DeliversFrame ds fs) :
    ∃ ptrs heap kept shown,
      handleAllAt A ds DrawDataPointers.init Heap.empty = some (showAll fs [], ptrs, heap) ∧
        heap.Holds (kept ++ shown) ∧
        ptrs.sDrawDataPrev.getD [] = kept.map Prod.fst ∧
        (ptrs.sDrawData.map DrawDataObject.cmdLists).getD [] = shown.map Prod.fst ∧
        kept.map Prod.snd = lastLists fs [] ∧ shown.map Prod.snd = lastLists fs [] ∧
        heap.cells.length = 2 * (lastLists fs []).length := by
  have hinit : DrawDataStatics.init.Shows [] := ⟨rfl, rfl⟩
  obtain ⟨last, hval, hshows⟩ := handleAll_packets h hinit
  rcases handleAllAt_refines (A := A) ds represents_init with
    ⟨hnone, -⟩ | ⟨rendered, last', ptrs, heap, hval', hprog, kept, shown, hheap, hkept, hshown⟩
  · exact absurd (hval.symm.trans hnone) (Option.some_ne_none _)
  · obtain ⟨rfl, rfl⟩ := Prod.mk.inj (Option.some.inj (hval'.symm.trans hval))
    obtain ⟨hkeptPtrs, hkeptLists⟩ := hkept.getD
    obtain ⟨hshownPtrs, hshownLists⟩ := hshown.lists.getD
    have hk := hkeptLists.symm.trans hshows.1
    have hs := hshownLists.symm.trans hshows.2
    refine ⟨ptrs, heap, kept, shown, hprog, hheap, hkeptPtrs, hshownPtrs, hk, hs, ?_⟩
    have hklen : kept.length = (lastLists fs []).length := by rw [← hk, List.length_map]
    have hslen : shown.length = (lastLists fs []).length := by rw [← hs, List.length_map]
    rw [hheap.length, List.length_append]
    omega

/-- Two triangles, then the same frame with the first of them unchanged. -/
def twoFrames : List (ClientIo × PackedFrame) :=
  [(⟨⟨1280, 720⟩, 1⟩, packedFrame Platform.lp64 ⟨1280, 720⟩ (fun _ => none)
      (triangles [1, 2] two_fit)),
    (⟨⟨640, 360⟩, 1⟩, packedFrame Platform.lp64 ⟨1280, 720⟩
      (fun _ => some (hashImDrawList Platform.lp64 (triangle 1))) (triangles [1, 2] two_fit))]

/-- The packets of the frames, each in a buffer of its own. -/
def deliveries (fs : List (ClientIo × PackedFrame)) : List Delivery :=
  fs.map fun f => ⟨f.1, Mem.ofList f.2.bytes, f.2.bytes.length⟩

theorem deliversFrame_deliveries (fs : List (ClientIo × PackedFrame)) :
    List.Forall₂ DeliversFrame (deliveries fs) fs :=
  List.forall₂_map_left_iff.mpr (List.forall₂_same.mpr fun _ _ => ⟨rfl, Mem.holds_ofList _⟩)

theorem session_runs_twoFrames :
    ∃ ptrs heap, handleAllAt Allocator.above (deliveries twoFrames) DrawDataPointers.init
        Heap.empty = some (showAll twoFrames [], ptrs, heap) ∧ heap.cells.length = 4 := by
  obtain ⟨ptrs, heap, -, -, hrun, -, -, -, -, -, hcells⟩ :=
    session_runs Allocator.above (deliversFrame_deliveries twoFrames)
  exact ⟨ptrs, heap, hrun, hcells.trans (by decide +kernel)⟩

end Nxdb
