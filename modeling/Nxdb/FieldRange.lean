/-
  What `packImDrawData` puts into the 12-bit fields.

  Clip edges and positions are divided by the display size, which is whatever a client has sent last,
  and scaled to `0 .. 4095`.  Positions are clamped to the display before that, clip edges are not.
  So the values of a list are in range, and the list comes back to within a quantum, if and only if
  neither component of the size is zero (unless there is nothing to divide) and every clip rectangle
  lies within the display (`inRange_iff`).

  1. `scaled` and `textured` list the values that go into fields, with the size each is divided by.
  2. `InRange` is what should hold of a list and what came of it, `OnDisplay` the condition, on the
     list alone.
  3. One coordinate: a scaled value fits its field iff the coordinate lies between `0` and the size
     (`inField_scale_iff`); the positions do, being clamped.
-/
import Nxdb.CmdRanges

namespace Nxdb

open Lib

/-! ## The values

  The coordinates are collected with what they are divided by, so that nothing divided by zero is a
  statement about a list of pairs.  Places in the texture are multiplied only. -/

/-- The coordinates of a command that are divided, each with the component it is divided by. -/
def ImDrawCmd.scaled (displaySize : ImVec2) (c : ImDrawCmd) : List (ℚ × ℚ) :=
  [(c.clipRect.x, displaySize.x), (c.clipRect.y, displaySize.y),
    (c.clipRect.z, displaySize.x), (c.clipRect.w, displaySize.y)]

/-- Those of a vertex, which are clamped before. -/
def ImDrawVert.scaled (displaySize : ImVec2) (v : ImDrawVert) : List (ℚ × ℚ) :=
  [((clampVert displaySize v).pos.x, displaySize.x), ((clampVert displaySize v).pos.y, displaySize.y)]

/-- The coordinates of a vertex that are not divided. -/
def ImDrawVert.textured (v : ImDrawVert) : List ℚ := [v.uv.x, v.uv.y]

namespace ImDrawList

/-- The coordinates of a list that are divided, with what they are divided by ... -/
def scaled (displaySize : ImVec2) (l : ImDrawList) : List (ℚ × ℚ) :=
  l.cmdBuffer.flatMap (ImDrawCmd.scaled displaySize)
    ++ l.vtxBuffer.flatMap (ImDrawVert.scaled displaySize)

/-- ... and those of the font texture, which are not. -/
def textured (l : ImDrawList) : List ℚ := l.vtxBuffer.flatMap ImDrawVert.textured

end ImDrawList

variable (P : Platform)

/-! ## What should hold, and when it does -/

/-- A value that needs no cutting off to be put into a field. -/
def InField (value : ℚ) : Prop := 0 ≤ value ∧ value ≤ 4095

/-- What becomes of a clip rectangle. -/
structure ClipKept (displaySize : ImVec2) (src dst : ImDrawCmd) : Prop where
  x : WithinBelow (displaySize.x / 4095) (clamp src.clipRect.x 0 displaySize.x) dst.clipRect.x
  y : WithinBelow (displaySize.y / 4095) (clamp src.clipRect.y 0 displaySize.y) dst.clipRect.y
  z : WithinBelow (displaySize.x / 4095) (clamp src.clipRect.z 0 displaySize.x) dst.clipRect.z
  w : WithinBelow (displaySize.y / 4095) (clamp src.clipRect.w 0 displaySize.y) dst.clipRect.w

/-- Nothing is divided by zero, every value is in range, and what comes back is the source's to within
    one quantum, clamped to the display. -/
structure InRange (displaySize : ImVec2) (src dst : ImDrawList) : Prop where
  divides : ∀ p ∈ src.scaled displaySize, p.2 ≠ 0
  scaled : ∀ p ∈ src.scaled displaySize, InField (scale p.1 p.2 4095)
  textured : ∀ u ∈ src.textured, InField (u * (4095 : ℕ))
  cmds : List.Forall₂ (ClipKept displaySize) src.cmdBuffer dst.cmdBuffer
  verts : List.Forall₂ (VertKept P displaySize) src.vtxBuffer dst.vtxBuffer

/-- A clip rectangle within the display. -/
structure ClipInside (displaySize : ImVec2) (c : ImDrawCmd) : Prop where
  x : 0 ≤ c.clipRect.x ∧ c.clipRect.x ≤ displaySize.x
  y : 0 ≤ c.clipRect.y ∧ c.clipRect.y ≤ displaySize.y
  z : 0 ≤ c.clipRect.z ∧ c.clipRect.z ≤ displaySize.x
  w : 0 ≤ c.clipRect.w ∧ c.clipRect.w ≤ displaySize.y

/-- A list with a command or a vertex is on a display that has an area, and its clip rectangles lie
    within it. -/
structure OnDisplay (displaySize : ImVec2) (l : ImDrawList) : Prop where
  area : l.cmdBuffer ≠ [] ∨ l.vtxBuffer ≠ [] → 0 < displaySize.x ∧ 0 < displaySize.y
  clips : ∀ c ∈ l.cmdBuffer, ClipInside displaySize c

/-! ## One coordinate

  On a side that has a length a coordinate scales into the range iff it is on the display, from both
  ends (`inField_scale_iff`). -/

variable {P}

/-- A coordinate scales into the range if and only if it is on the display. -/
theorem inField_scale_iff {v s : ℚ} (hs : 0 < s) : InField (scale v s 4095) ↔ 0 ≤ v ∧ v ≤ s := by
  have hval : scale v s 4095 = v * 4095 / s := by
    rw [scale, Nat.cast_ofNat]
    ring
  unfold InField
  rw [hval, le_div_iff₀ hs, div_le_iff₀ hs]
  constructor
  · rintro ⟨h0, h1⟩
    constructor
    · linarith
    · linarith
  · rintro ⟨h0, h1⟩
    constructor
    · linarith
    · linarith

/-- The field of a clip edge on the display. -/
theorem unscale_clipField {v s : ℚ} (hs : 0 < s) (h : 0 ≤ v ∧ v ≤ s) :
    WithinBelow (s / 4095) (clamp v 0 s) (unscale (toField12 P (scale v s 4095)) 4095 s) := by
  have hpos := (unscale_posField P hs v).1
  rwa [clamp_of_mem h.1 h.2] at hpos ⊢

theorem inField_textured {u : ℚ} (h : 0 ≤ u ∧ u ≤ 1) : InField (u * (4095 : ℕ)) := by
  rw [Nat.cast_ofNat]
  constructor
  · linarith
  · linarith

/-! ## One list

  Positions are clamped before they are scaled, so of a list it is the clip rectangles that decide,
  once the display has an area.  Without one, a list is in range only if there is nothing to divide,
  that is if it has neither commands nor vertices. -/

section List

variable {displaySize : ImVec2} {l : ImDrawList}

theorem mem_scaled_of_cmd {c : ImDrawCmd} (hc : c ∈ l.cmdBuffer) {p : ℚ × ℚ}
    (hp : p ∈ c.scaled displaySize) : p ∈ l.scaled displaySize :=
  List.mem_append_left _ (List.mem_flatMap.mpr ⟨c, hc, hp⟩)

theorem mem_scaled_of_vert {v : ImDrawVert} (hv : v ∈ l.vtxBuffer) {p : ℚ × ℚ}
    (hp : p ∈ v.scaled displaySize) : p ∈ l.scaled displaySize :=
  List.mem_append_right _ (List.mem_flatMap.mpr ⟨v, hv, hp⟩)

/-- With an area, all values of a list on the display are in range. -/
theorem OnDisplay.inField (h : OnDisplay displaySize l) :
    ∀ p ∈ l.scaled displaySize, p.2 ≠ 0 ∧ InField (scale p.1 p.2 4095) := by
  have hedge : ∀ {v s : ℚ}, 0 < s → 0 ≤ v ∧ v ≤ s → s ≠ 0 ∧ InField (scale v s 4095) :=
    fun hs hv => ⟨hs.ne', (inField_scale_iff hs).mpr hv⟩
  intro p hp
  rcases List.mem_append.mp hp with hp | hp
  · obtain ⟨c, hc, hp⟩ := List.mem_flatMap.mp hp
    obtain ⟨hx, hy⟩ := h.area (Or.inl (List.ne_nil_of_mem hc))
    have hclip := h.clips c hc
    simp only [ImDrawCmd.scaled, List.mem_cons, List.not_mem_nil, or_false] at hp
    rcases hp with rfl | rfl | rfl | rfl
    · exact hedge hx hclip.x
    · exact hedge hy hclip.y
    · exact hedge hx hclip.z
    · exact hedge hy hclip.w
  · obtain ⟨v, hv, hp⟩ := List.mem_flatMap.mp hp
    obtain ⟨hx, hy⟩ := h.area (Or.inr (List.ne_nil_of_mem hv))
    simp only [ImDrawVert.scaled, List.mem_cons, List.not_mem_nil, or_false] at hp
    rcases hp with rfl | rfl
    · exact hedge hx (clamp_mem hx.le)
    · exact hedge hy (clamp_mem hy.le)

/-- Places in the texture are in range by themselves. -/
theorem inField_textured_list (huv : ∀ v ∈ l.vtxBuffer, UvInUnit v) :
    ∀ u ∈ l.textured, InField (u * (4095 : ℕ)) := by
  intro u hu
  obtain ⟨v, hv, hu⟩ := List.mem_flatMap.mp hu
  simp only [ImDrawVert.textured, List.mem_cons, List.not_mem_nil, or_false] at hu
  rcases hu with rfl | rfl
  · exact inField_textured (huv v hv).1
  · exact inField_textured (huv v hv).2

/-- **One list**, on a display whose size is not negative. -/
theorem inRange_rebuild_iff {io : ClientIo} (hio : io.displaySize = displaySize)
    (hx : 0 ≤ displaySize.x) (hy : 0 ≤ displaySize.y) (huv : ∀ v ∈ l.vtxBuffer, UvInUnit v) :
    InRange P displaySize l (rebuild P displaySize io l) ↔ OnDisplay displaySize l := by
  constructor
  · intro h
    -- what is divided by is not zero, so where there is something to divide there is an area
    have hne : l.cmdBuffer ≠ [] ∨ l.vtxBuffer ≠ [] → 0 < displaySize.x ∧ 0 < displaySize.y := by
      intro hsome
      have hboth : displaySize.x ≠ 0 ∧ displaySize.y ≠ 0 := by
        rcases hsome with hsome | hsome
        · obtain ⟨c, hc⟩ := List.exists_mem_of_ne_nil _ hsome
          exact ⟨h.divides _ (mem_scaled_of_cmd hc List.mem_cons_self),
            h.divides _ (mem_scaled_of_cmd hc (List.mem_cons_of_mem _ List.mem_cons_self))⟩
        · obtain ⟨v, hv⟩ := List.exists_mem_of_ne_nil _ hsome
          exact ⟨h.divides _ (mem_scaled_of_vert hv List.mem_cons_self),
            h.divides _ (mem_scaled_of_vert hv (List.mem_cons_of_mem _ List.mem_cons_self))⟩
      exact ⟨lt_of_le_of_ne hx hboth.1.symm, lt_of_le_of_ne hy hboth.2.symm⟩
    refine ⟨hne, fun c hc => ?_⟩
    obtain ⟨hx', hy'⟩ := hne (Or.inl (List.ne_nil_of_mem hc))
    have hfield : ∀ p ∈ c.scaled displaySize, InField (scale p.1 p.2 4095) :=
      fun p hp => h.scaled p (mem_scaled_of_cmd hc hp)
    constructor
    · exact (inField_scale_iff hx').mp (hfield (c.clipRect.x, displaySize.x) (by simp [ImDrawCmd.scaled]))
    · exact (inField_scale_iff hy').mp (hfield (c.clipRect.y, displaySize.y) (by simp [ImDrawCmd.scaled]))
    · exact (inField_scale_iff hx').mp (hfield (c.clipRect.z, displaySize.x) (by simp [ImDrawCmd.scaled]))
    · exact (inField_scale_iff hy').mp (hfield (c.clipRect.w, displaySize.y) (by simp [ImDrawCmd.scaled]))
  · intro h
    -- on the display all values fit their fields, and each comes back from its own
    have hvalues := h.inField
    refine ⟨fun p hp => (hvalues p hp).1, fun p hp => (hvalues p hp).2, inField_textured_list huv,
      ?_, ?_⟩
    · rw [rebuild_cmdBuffer, List.forall₂_map_right_iff, List.forall₂_same]
      intro c hc
      obtain ⟨hx', hy'⟩ := h.area (Or.inl (List.ne_nil_of_mem hc))
      have hclip := h.clips c hc
      subst hio
      exact ⟨unscale_clipField hx' hclip.x, unscale_clipField hy' hclip.y,
        unscale_clipField hx' hclip.z, unscale_clipField hy' hclip.w⟩
    · rw [rebuild_vtxBuffer, List.forall₂_map_right_iff, List.forall₂_same]
      intro v hv
      obtain ⟨hx', hy'⟩ := h.area (Or.inr (List.ne_nil_of_mem hv))
      rw [hio]
      exact vertKept P hx' hy' (huv v hv)

end List

/-! ## The packet -/

variable (P)

/-- **Quantisation stays in range.**  For every display size whose components are natural numbers,
    every frame with texture coordinates in the unit square, every hash table and every state of a
    client of that size: all lists sent in full are quantised in range if and only if they are on the
    display. -/
theorem inRange_iff (width height : ℕ) (io : ClientIo) (hio : io.displaySize = ⟨width, height⟩)
    (st : PackState) (f : Frame) (huv : ∀ l ∈ f.lists, ∀ v ∈ l.vtxBuffer, UvInUnit v)
    (client : DrawDataStatics) :
    ∃ r, packImDrawData P ⟨width, height⟩ f.mouseCursor st f.data = some r ∧
      ∀ m : Mem, m.Holds 0 r.out → ∃ u, unpackDrawData io m r.out.length client = some u ∧
        ((∀ i l, SentAt P st f i l → ∃ dst, u.drawData.cmdLists[i]? = some dst ∧
            InRange P ⟨width, height⟩ l dst) ↔
          ∀ i l, SentAt P st f i l → OnDisplay ⟨width, height⟩ l) := by
  obtain ⟨r, hpack, hr⟩ := unpack_sent P ⟨width, height⟩ io st f client
  refine ⟨r, hpack, fun m hm => ?_⟩
  obtain ⟨u, hunpack, hget⟩ := hr m hm
  refine ⟨u, hunpack, forall_congr' fun i => forall_congr' fun l => forall_congr' fun hsent => ?_⟩
  have hlist := inRange_rebuild_iff (P := P) (l := l) hio (Nat.cast_nonneg width)
    (Nat.cast_nonneg height) (huv l (List.mem_of_getElem? hsent.1))
  rw [hget i l hsent]
  constructor
  · rintro ⟨dst, hdst, h⟩
    exact hlist.mp (Option.some.inj hdst ▸ h)
  · intro h
    exact ⟨_, rfl, hlist.mpr h⟩

theorem onDisplay_triangle : OnDisplay ⟨(1280 : ℕ), (720 : ℕ)⟩ (triangle 1) where
  area := fun _ => ⟨by norm_num, by norm_num⟩
  clips := by
    intro c hc
    rw [List.mem_singleton.mp hc]
    constructor <;> norm_num

/-- A triangle on a display of 1280 by 720. -/
theorem inRange_triangle :
    ∃ r, packImDrawData Platform.lp64 ⟨(1280 : ℕ), (720 : ℕ)⟩ 0 PackState.init
        (triangles [1] one_fits).data = some r ∧
      ∀ m : Mem, m.Holds 0 r.out → ∃ u,
        unpackDrawData ⟨⟨(1280 : ℕ), (720 : ℕ)⟩, 1⟩ m r.out.length DrawDataStatics.init = some u ∧
        ∀ i l, SentAt Platform.lp64 PackState.init (triangles [1] one_fits) i l →
          ∃ dst, u.drawData.cmdLists[i]? = some dst ∧
            InRange Platform.lp64 ⟨(1280 : ℕ), (720 : ℕ)⟩ l dst := by
  obtain ⟨r, hpack, hr⟩ := inRange_iff Platform.lp64 1280 720 ⟨⟨(1280 : ℕ), (720 : ℕ)⟩, 1⟩
    rfl PackState.init (triangles [1] one_fits) (by decide +kernel) DrawDataStatics.init
  refine ⟨r, hpack, fun m hm => ?_⟩
  obtain ⟨u, hunpack, hiff⟩ := hr m hm
  refine ⟨u, hunpack, hiff.mpr fun i l hsent => ?_⟩
  have hmem := List.mem_of_getElem? hsent.1
  rw [List.mem_singleton.mp hmem]
  exact onDisplay_triangle

/-- A triangle that is not on the display is not quantised in range. -/
theorem not_inRange_of_not_onDisplay (width height : ℕ)
    (h : ¬OnDisplay ⟨width, height⟩ (triangle 1)) :
    ∃ r, packImDrawData Platform.lp64 ⟨width, height⟩ 0 PackState.init
        (triangles [1] one_fits).data = some r ∧
      ∀ m : Mem, m.Holds 0 r.out → ∃ u dst,
        unpackDrawData ⟨⟨width, height⟩, 1⟩ m r.out.length DrawDataStatics.init = some u ∧
        u.drawData.cmdLists[0]? = some dst ∧
        ¬InRange Platform.lp64 ⟨width, height⟩ (triangle 1) dst := by
  obtain ⟨r, hpack, hr⟩ := unpack_sent Platform.lp64 ⟨width, height⟩ ⟨⟨width, height⟩, 1⟩
    PackState.init (triangles [1] one_fits) DrawDataStatics.init
  refine ⟨r, hpack, fun m hm => ?_⟩
  obtain ⟨u, hunpack, hget⟩ := hr m hm
  have huv : ∀ v ∈ (triangle 1).vtxBuffer, UvInUnit v := by decide +kernel
  have hiff := inRange_rebuild_iff (P := Platform.lp64) (l := triangle 1)
    (rfl : (⟨⟨width, height⟩, 1⟩ : ClientIo).displaySize = ⟨width, height⟩)
    (Nat.cast_nonneg width) (Nat.cast_nonneg height) huv
  exact ⟨u, _, hunpack, hget 0 (triangle 1) ⟨rfl, by decide +kernel⟩, fun hrange =>
    h (hiff.mp hrange)⟩

/-- In a window that is minimised, and in one that has become smaller since the list was built. -/
theorem not_inRange_triangle :
    (∃ r, packImDrawData Platform.lp64 ⟨(0 : ℕ), (0 : ℕ)⟩ 0 PackState.init
        (triangles [1] one_fits).data = some r ∧
      ∀ m : Mem, m.Holds 0 r.out → ∃ u dst,
        unpackDrawData ⟨⟨(0 : ℕ), (0 : ℕ)⟩, 1⟩ m r.out.length DrawDataStatics.init = some u ∧
        u.drawData.cmdLists[0]? = some dst ∧
        ¬InRange Platform.lp64 ⟨(0 : ℕ), (0 : ℕ)⟩ (triangle 1) dst) ∧
    ∃ r, packImDrawData Platform.lp64 ⟨(640 : ℕ), (360 : ℕ)⟩ 0 PackState.init
        (triangles [1] one_fits).data = some r ∧
      ∀ m : Mem, m.Holds 0 r.out → ∃ u dst,
        unpackDrawData ⟨⟨(640 : ℕ), (360 : ℕ)⟩, 1⟩ m r.out.length DrawDataStatics.init = some u ∧
        u.drawData.cmdLists[0]? = some dst ∧
        ¬InRange Platform.lp64 ⟨(640 : ℕ), (360 : ℕ)⟩ (triangle 1) dst := by
  constructor
  · refine not_inRange_of_not_onDisplay 0 0 fun h => ?_
    have harea := (h.area (Or.inl (List.cons_ne_nil _ _))).1
    rw [Nat.cast_zero] at harea
    exact lt_irrefl 0 harea
  · refine not_inRange_of_not_onDisplay 640 360 fun h => ?_
    have hright : (1280 : ℚ) ≤ (640 : ℕ) := (h.clips _ List.mem_cons_self).z.2
    norm_num at hright

end Nxdb
