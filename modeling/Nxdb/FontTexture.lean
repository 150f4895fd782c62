/-
  Which font atlas do the client's draw commands name?

  A packed command carries no texture: `unpackDrawData` gives every command it decodes the atlas
  texture of that moment, `ImGui::GetIO().Fonts->TexID`.  A list that is marked as unchanged is not
  decoded but copied from the previous frame, with the texture it was given then.  A `FontTexture`
  packet in between, for which `loadFontTextureRGBA32` generates a new texture, is therefore missed
  by exactly the lists that are marked: `texture_fresh_iff`.

  The run keeps one history variable, `loadedSince`: has a font texture been loaded since the last
  draw data was unpacked?  Up to the first stale command, the commands of the previous frame name
  the current texture iff it has not.

  1. Program: `loadFontTextureRGBA32` sets the name of the texture, `handlePackedDrawData` gives it
     to what is decoded.
  2. `NoCopyAcrossLoad` is the condition, of a step: no list of the packet is a mark behind a
     texture that was loaded since the last draw data.
  3. `TexInv` has one implication in each direction, so the equivalence is about each step of a
     run.
-/
import Nxdb.Codec
import Nxdb.Lib.Run

namespace Nxdb

open Lib

/-! ## The client's two kinds of packets -/

/-- The state both packets work on. -/
structure TexClient where
  statics : DrawDataStatics
  /-- `ImGui::GetIO().Fonts->TexID`. -/
  texId : Nat
  /-- The texture names in use, which `glGenTextures` does not return; `0` is never one. -/
  textures : List Nat
  /-- History: a font texture was loaded after the last draw data was unpacked. -/
  loadedSince : Bool

namespace TexClient

/-- No texture, and ImGui's id 0. -/
def init : TexClient := ⟨DrawDataStatics.init, 0, [0], false⟩

/-- The lists of the previous frame. -/
def prev (c : TexClient) : List ImDrawList := c.statics.sDrawDataPrev.getD []

end TexClient

/-- A draw data packet, unpacked while the window has the given size, or a font texture, for which
    OpenGL generates the given name.  ImGui's OpenGL backend may create a font texture of its own
    while a draw data is rendered (for the first one it does): `backendFont` is its name.  The
    pixels go to OpenGL alone. -/
inductive TexEvent where
  | drawData (displaySize : ImVec2) (p : PackedFrame) (backendFont : Option Nat)
  | fontTexture (name : Nat)

/-- `glGenTextures`, then `SetTexID`. -/
def setFontTexture (c : TexClient) (name : Nat) : Option TexClient :=
  if name ∈ c.textures then none
  else some { c with texId := name, textures := name :: c.textures, loadedSince := true }

/-- `loadFontTextureRGBA32`: the new texture becomes the atlas's; lists that are there keep the old
    one. -/
def loadFontTextureRGBA32 (c : TexClient) (name : Nat) : Option TexClient := setFontTexture c name

/-- `render` of the desktop, as far as the texture goes. -/
def Desktop.render (c : TexClient) : Option Nat → Option TexClient
  | none => some c
  | some name => setFontTexture c name

/-- `handlePackedDrawData`: the packet is unpacked, then rendered. -/
def handlePackedDrawData (c : TexClient) (displaySize : ImVec2) (p : PackedFrame)
    (backendFont : Option Nat) : Option TexClient :=
  (unpackDrawData ⟨displaySize, c.texId⟩ (Mem.ofList p.bytes) p.bytes.length c.statics).bind
    fun u => Desktop.render { c with statics := u.st, loadedSince := false } backendFont

/-- `Client::handlePacket` on the two packets. -/
def handleTexEvent (c : TexClient) : TexEvent → Option TexClient
  | .drawData displaySize p backendFont => handlePackedDrawData c displaySize p backendFont
  | .fontTexture name => loadFontTextureRGBA32 c name

/-- Every command of the list names the texture `t`. -/
def CarriesTexture (t : Nat) (l : ImDrawList) : Prop := ∀ cmd ∈ l.cmdBuffer, cmd.textureId = t

instance (t : Nat) (l : ImDrawList) : Decidable (CarriesTexture t l) := by
  unfold CarriesTexture
  infer_instance

/-- The draw data a packet leaves behind carries the texture that was current when it came. -/
def TextureFresh (c : TexClient) : TexEvent → TexClient → Prop
  | .drawData .., c' =>
    ∃ d, c'.statics.sDrawData = some d ∧ ∀ l ∈ d.cmdLists, CarriesTexture c.texId l
  | .fontTexture _, _ => True

/-- No list with commands is copied across the loading of a font texture. -/
def NoCopyAcrossLoad (c : TexClient) : TexEvent → TexClient → Prop
  | .drawData _ p _, _ => c.loadedSince = true →
      ∀ (i : Nat) (l : ImDrawList), p.entries[i]? = some none → c.prev[i]? = some l →
        l.cmdBuffer = []
  | .fontTexture _, _ => True

/-! ## One packet

  A list that is sent in full takes the texture of the moment, one that is copied keeps its own.  So
  a packet leaves stale commands iff it copies some. -/

/-- An empty list draws with no texture at all. -/
theorem carriesTexture_empty (t : Nat) : CarriesTexture t ImDrawList.empty :=
  fun _ h => absurd h List.not_mem_nil

/-- A list sent in full carries the current texture. -/
theorem carriesTexture_unpackPacked (io : ClientIo) (l : PackedList) :
    CarriesTexture io.texId (unpackPacked io l) := by
  intro cmd hcmd
  obtain ⟨c, -, rfl⟩ := List.mem_map.mp hcmd
  rfl

/-- The lists built from a packet carry the current texture iff the copied ones do. -/
theorem carriesTexture_lists (p : PackedFrame) (io : ClientIo) (prev : List ImDrawList) :
    (∀ l ∈ p.lists io prev, CarriesTexture io.texId l) ↔
      ∀ (i : Nat) (l : ImDrawList), p.entries[i]? = some none → prev[i]? = some l →
        CarriesTexture io.texId l := by
  constructor
  · intro h i l he hl
    apply h l
    apply List.mem_of_getElem? (i := i)
    rw [p.getElem?_lists, he, Option.map_some, unpackEntry, Option.map_none, Option.getD_none,
      List.getD_eq_getElem?_getD, hl, Option.getD_some]
  · intro h l hl
    obtain ⟨i, hi⟩ := List.getElem?_of_mem hl
    rw [p.getElem?_lists] at hi
    obtain ⟨e, he, rfl⟩ := Option.map_eq_some_iff.mp hi
    cases e with
    | some packed => exact carriesTexture_unpackPacked io packed
    | none =>
      show CarriesTexture io.texId (prev.getD i ImDrawList.empty)
      rw [List.getD_eq_getElem?_getD]
      cases hprev : prev[i]? with
      | none => exact carriesTexture_empty io.texId
      | some l => exact h i l he hprev

/-- What the creation of a font texture does. -/
theorem setFontTexture_eq {c c' : TexClient} {name : Nat} (h : setFontTexture c name = some c') :
    name ∉ c.textures ∧
      c' = { c with texId := name, textures := name :: c.textures, loadedSince := true } := by
  rw [setFontTexture] at h
  by_cases hname : name ∈ c.textures
  · rw [if_pos hname] at h
    exact absurd h (Option.some_ne_none c').symm
  · rw [if_neg hname] at h
    exact ⟨hname, (Option.some.inj h).symm⟩

/-- Rendering leaves the draw data alone. -/
theorem render_statics {c c' : TexClient} {backendFont : Option Nat}
    (h : Desktop.render c backendFont = some c') : c'.statics = c.statics := by
  cases backendFont with
  | none => exact congrArg TexClient.statics (Option.some.inj h).symm
  | some name =>
    obtain ⟨-, rfl⟩ := setFontTexture_eq h
    rfl

/-- What a draw data packet does before it is rendered. -/
theorem handlePackedDrawData_eq (c : TexClient) (displaySize : ImVec2) (p : PackedFrame) :
    ∃ d, d.cmdLists = p.lists ⟨displaySize, c.texId⟩ c.prev ∧
      ∀ backendFont, handlePackedDrawData c displaySize p backendFont =
        Desktop.render { c with statics := ⟨some d.cmdLists, some d⟩, loadedSince := false }
          backendFont := by
  obtain ⟨u, hunpack, hlists, -, hst, -⟩ := unpackDrawData_eq ⟨displaySize, c.texId⟩
    p.bytes.length c.statics (Mem.holds_ofList p.bytes)
  refine ⟨u.drawData, hlists, fun backendFont => ?_⟩
  rw [handlePackedDrawData, hunpack, Option.bind_some, hst]

/-! ## Whole runs

  `TexInv` says of the previous frame that its commands name one texture, which is the current one
  iff none was loaded since.  A name that OpenGL gives is a new one, so once it has changed it does
  not come back, and a copy is stale for sure. -/

/-- As long as no command was stale: the previous frame's commands name a texture in use, which is
    the current one iff none was loaded since. -/
structure TexInv (c : TexClient) : Prop where
  texId_mem : c.texId ∈ c.textures
  cmd_mem : ∀ l ∈ c.prev, ∀ cmd ∈ l.cmdBuffer, cmd.textureId ∈ c.textures
  current : c.loadedSince = false → ∀ l ∈ c.prev, CarriesTexture c.texId l
  outdated : c.loadedSince = true → ∀ l ∈ c.prev, ∀ cmd ∈ l.cmdBuffer, cmd.textureId ≠ c.texId

/-- The invariant before the first packet. -/
theorem texInv_init : TexInv TexClient.init where
  texId_mem := List.mem_singleton.mpr rfl
  cmd_mem := fun _ h => absurd h List.not_mem_nil
  current := fun _ _ h => absurd h List.not_mem_nil
  outdated := fun h => absurd h Bool.false_ne_true

/-- A copied list carries the current texture iff nothing was loaded since or it has no command. -/
theorem TexInv.carriesTexture_iff {c : TexClient} (h : TexInv c) {l : ImDrawList}
    (hl : l ∈ c.prev) :
    CarriesTexture c.texId l ↔ (c.loadedSince = true → l.cmdBuffer = []) := by
  constructor
  · intro hcarries hload
    apply List.eq_nil_iff_forall_not_mem.mpr
    intro cmd hcmd
    exact h.outdated hload l hl cmd hcmd (hcarries cmd hcmd)
  · intro hnil
    cases hload : c.loadedSince with
    | false => exact h.current hload l hl
    | true =>
      intro cmd hcmd
      rw [hnil hload] at hcmd
      exact absurd hcmd List.not_mem_nil

/-- One packet is fresh iff it copies no commands across a load. -/
theorem TexInv.fresh_iff {c c' : TexClient} {e : TexEvent} (h : TexInv c)
    (hstep : handleTexEvent c e = some c') : TextureFresh c e c' ↔ NoCopyAcrossLoad c e c' := by
  cases e with
  | fontTexture name => exact Iff.rfl
  | drawData displaySize p backendFont =>
    obtain ⟨d, hd, hrender⟩ := handlePackedDrawData_eq c displaySize p
    have hst := render_statics ((hrender backendFont).symm.trans hstep)
    have hlists := carriesTexture_lists p ⟨displaySize, c.texId⟩ c.prev
    rw [← hd] at hlists
    constructor
    · rintro ⟨d', hd', hfresh⟩ hload i l he hl
      rw [hst] at hd'
      rw [← Option.some.inj hd'] at hfresh
      exact (h.carriesTexture_iff (List.mem_of_getElem? hl)).mp (hlists.mp hfresh i l he hl) hload
    · intro hcopy
      refine ⟨d, by rw [hst], hlists.mpr fun i l he hl => ?_⟩
      exact (h.carriesTexture_iff (List.mem_of_getElem? hl)).mpr fun hload => hcopy hload i l he hl

/-- A new font texture keeps the invariant: its name is new, the old commands' names are not. -/
theorem TexInv.setFontTexture {c c' : TexClient} {name : Nat} (h : TexInv c)
    (hset : Nxdb.setFontTexture c name = some c') : TexInv c' := by
  obtain ⟨hname, rfl⟩ := setFontTexture_eq hset
  refine ⟨List.mem_cons_self, ?_, fun hload => absurd hload.symm Bool.false_ne_true, ?_⟩
  · intro l hl cmd hcmd
    exact List.mem_cons_of_mem _ (h.cmd_mem l hl cmd hcmd)
  · intro _ l hl cmd hcmd heq
    have hmem := h.cmd_mem l hl cmd hcmd
    rw [show cmd.textureId = name from heq] at hmem
    exact hname hmem

/-- A fresh packet keeps the invariant. -/
theorem TexInv.step {c c' : TexClient} {e : TexEvent} (h : TexInv c)
    (hstep : handleTexEvent c e = some c') (hfresh : TextureFresh c e c') : TexInv c' := by
  cases e with
  | fontTexture name => exact h.setFontTexture hstep
  | drawData displaySize p backendFont =>
    obtain ⟨d, -, hrender⟩ := handlePackedDrawData_eq c displaySize p
    replace hrender := (hrender backendFont).symm.trans hstep
    obtain ⟨d', hd', hcarries⟩ := hfresh
    rw [render_statics hrender] at hd'
    rw [← Option.some.inj hd'] at hcarries
    -- all commands of the new frame name the current texture
    have hunpacked : TexInv
        { c with statics := ⟨some d.cmdLists, some d⟩, loadedSince := false } := by
      refine ⟨h.texId_mem, ?_, fun _ => hcarries, fun hload => absurd hload Bool.false_ne_true⟩
      intro l hl cmd hcmd
      rw [hcarries l hl cmd hcmd]
      exact h.texId_mem
    cases backendFont with
    | none => exact Option.some.inj hrender ▸ hunpacked
    | some name => exact hunpacked.setFontTexture hrender

/-- **Fresh texture id.**  Along every run of draw data packets and font textures: all commands of
    all draw data carry the texture that is current when they are handled iff no draw data packet
    that follows the loading of a font texture marks a list with commands as unchanged. -/
theorem texture_fresh_iff (events : List TexEvent) :
    Along handleTexEvent TextureFresh TexClient.init events ↔
      Along handleTexEvent NoCopyAcrossLoad TexClient.init events :=
  along_iff (P := TextureFresh) (Q := NoCopyAcrossLoad) (fun c _ => TexInv c)
    (fun _ _ _ _ h hstep => h.fresh_iff hstep)
    (fun _ _ _ _ h hstep hcopy => h.step hstep ((h.fresh_iff hstep).mpr hcopy)) events texInv_init

/-- The packet of a red triangle, against a hash table. -/
def redPacket (table : Delta.Table UInt32) : PackedFrame :=
  packedFrame Platform.lp64 ⟨1280, 720⟩ table (triangles [1] one_fits)

/-- The server's own order for a new client: the frame, then the font texture. -/
def frameThenFont : List TexEvent :=
  [.drawData ⟨1280, 720⟩ (redPacket fun _ => some 0) (some 1), .fontTexture 7]

/-- A frame in which the list did not change. -/
def unchangedFrame : TexEvent :=
  .drawData ⟨1280, 720⟩ (redPacket fun _ => some (hashImDrawList Platform.lp64 (triangle 1))) none

/-- The copied command still names the texture of before the font texture. -/
theorem texture_fresh_fails :
    ¬ Along handleTexEvent TextureFresh TexClient.init (frameThenFont ++ [unchangedFrame]) := by
  intro h
  have hloaded : (run handleTexEvent TexClient.init frameThenFont).map TexClient.texId =
      some 7 := by decide +kernel
  have hstale : ((run handleTexEvent TexClient.init (frameThenFont ++ [unchangedFrame])).bind
      fun c => c.statics.sDrawData.map
        fun d => decide (∀ l ∈ d.cmdLists, CarriesTexture 7 l)) = some false := by decide +kernel
  obtain ⟨c, c', hbefore, hrun, d, hd, hfresh⟩ := Along.last frameThenFont h
  rw [hbefore, Option.map_some, Option.some.injEq] at hloaded
  rw [hrun, Option.bind_some, hd, Option.map_some, Option.some.injEq, ← hloaded] at hstale
  exact of_decide_eq_false hstale hfresh

end Nxdb
