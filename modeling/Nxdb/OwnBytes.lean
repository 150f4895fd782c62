/-
  A packet's effect, and the bytes it depends on.

  The two `handlePacket` functions cast the payload to the structure they expect, and none of them
  looks at the size.  So a payload that is too short is made up with what lies behind it in the
  buffer: `ownBytes_packet_iff` says of each type what a payload must have for its effect to be its
  own and for no byte behind it to be read.

  The effect at the sysmodule is the calls that are made, at the desktop what is put into the
  clipboard, given to OpenGL, or unpacked.  `readEnd` is the end of the bytes that are read for it.
  A `float` is its 32 bits; a text is what comes before the first zero.

  1. Program: the two `handlePacket` functions as decoders of a memory without an end, `readEnd`
     beside each of them.
  2. Specification: `Confined` of `Lib/Footprint`: the effect depends on the payload alone, and no
     byte behind it is read.
  3. One lemma for each shape of payload: a text (`ownBytes_cString_iff`), a structure of so many
     bytes (`ownBytes_iff_lt`), a font texture, draw data (`DrawDataBytes`).
  4. `handlePacket_iff`, on each side, has one case for each type.
-/
import Nxdb.DrawDataBytes
import Mathlib.Data.List.TakeWhile

namespace Nxdb

open Lib

/-- The text of the `const char*`, when its zero is among the bytes that can be read. -/
def cString (limit : Nat) (m : Mem) : Option (List UInt8) :=
  let bs := m.slice 0 limit
  if 0 ∈ bs then some (bs.takeWhile (· ≠ 0)) else none

/-- The end of the text, behind its zero. -/
def cStringEnd (limit : Nat) (m : Mem) : Option Nat :=
  (cString limit m).map fun text => text.length + 1

/-- An `unsigned int`, or the bits of a `float`. -/
def wordAt (m : Mem) (off : Nat) : UInt32 := UInt32.ofNat (leVal (m.slice off 4))

/-! ## The sysmodule -/

namespace Sysmodule.Raw

/-- `MouseEvent`, 24 bytes with three of padding behind `pressed`. -/
structure MouseEvent where
  posX : UInt32
  posY : UInt32
  button : Int32
  pressed : Bool
  wheelX : UInt32
  wheelY : UInt32

/-- A mouse event, as the bytes are cast. -/
def MouseEvent.ofMem (data : Mem) : MouseEvent where
  posX := wordAt data 0
  posY := wordAt data 4
  button := sizeAt data 8
  pressed := data 12 != 0
  wheelX := wordAt data 16
  wheelY := wordAt data 20

/-- `KeyEvent`, 12 bytes with three of padding behind `mod` and behind `pressed`. -/
structure KeyEvent where
  ctrl : Bool
  shift : Bool
  alt : Bool
  super : Bool
  key : Int32
  pressed : Bool

/-- A key event, as the bytes are cast. -/
def KeyEvent.ofMem (data : Mem) : KeyEvent where
  ctrl := (data 0).toNat.testBit 0
  shift := (data 0).toNat.testBit 1
  alt := (data 0).toNat.testBit 2
  super := (data 0).toNat.testBit 3
  key := sizeAt data 4
  pressed := data 8 != 0

/-- The modifiers. -/
inductive ImGuiMod where
  | ctrl
  | shift
  | alt
  | super
deriving DecidableEq

/-- What `handlePacket` calls or assigns. -/
inductive UiCall where
  | queueRerender
  | displaySize (x y : UInt32)
  | addMousePosEvent (x y : UInt32)
  | addMouseWheelEvent (wheelX wheelY : UInt32)
  | addMouseButtonEvent (button : Int32) (down : Bool)
  | addKeyEvent (key : Int32) (down : Bool)
  | addModEvent (mod : ImGuiMod) (down : Bool)
  | addInputCharacter (c : UInt32)
  | setCurClipboardString (text : List UInt8)
deriving DecidableEq

/-- A `float` as a condition: all bits but the sign are looked at. -/
def nonzero (bits : UInt32) : Bool := bits.toNat % 2 ^ 31 != 0

/-- The calls for a mouse event. -/
def mouseCalls (packet : MouseEvent) : List UiCall :=
  .addMousePosEvent packet.posX packet.posY ::
    ((if nonzero packet.wheelX || nonzero packet.wheelY then
        [.addMouseWheelEvent packet.wheelX packet.wheelY] else [])
      ++ ((if packet.button ≠ -1 then [.addMouseButtonEvent packet.button packet.pressed] else [])
        ++ [.queueRerender]))

/-- The calls for a key event. -/
def keyCalls (packet : KeyEvent) : List UiCall :=
  [.addKeyEvent packet.key packet.pressed, .addModEvent .ctrl packet.ctrl,
   .addModEvent .shift packet.shift, .addModEvent .alt packet.alt, .addModEvent .super packet.super]

/-- `Client::handlePacket`.  Behind the payload so many bytes can be read; a text that does not end
    there ends the program. -/
def handlePacket (behind : Nat) (type : PacketType) (data : Mem) (size : Nat) :
    Option (List UiCall) :=
  match type with
  | .hello => some [.queueRerender]
  | .updateDisplaySize => some [.displaySize (wordAt data 0) (wordAt data 4), .queueRerender]
  | .updateMouse => some (mouseCalls (MouseEvent.ofMem data))
  | .updateKey => some (keyCalls (KeyEvent.ofMem data))
  | .updateChar => some [.addInputCharacter (wordAt data 0)]
  | .setClipboardText =>
    (cString (size + behind) data).map fun text => [.setCurClipboardString text]
  -- `Alive` sets the time of the client, and the rest is `default`
  | _ => some []

/-- The end of the bytes that `handlePacket` reads: behind the last field of the structure, or behind
    the zero of the text. -/
def readEnd (behind : Nat) (type : PacketType) (data : Mem) (size : Nat) : Option Nat :=
  match type with
  | .updateDisplaySize => some 8
  | .updateMouse => some 24
  | .updateKey => some 9
  | .updateChar => some 4
  | .setClipboardText => cStringEnd (size + behind) data
  | _ => some 0

/-- What a payload must have. -/
def Contained : PacketType → List UInt8 → Prop
  | .updateDisplaySize, payload => 8 ≤ payload.length
  | .updateMouse, payload => 24 ≤ payload.length
  | .updateKey, payload => 9 ≤ payload.length
  | .updateChar, payload => 4 ≤ payload.length
  | .setClipboardText, payload => 0 ∈ payload
  | _, _ => True

end Sysmodule.Raw

/-! ## The desktop -/

namespace Desktop.Raw

/-- OpenGL, as far as packets depend on it: how many bytes `glTexImage2D` reads for an image of
    `GL_RGBA` and `GL_UNSIGNED_BYTE` of a width and a height.  They are four for each pixel, or none
    if it does not take such an image (a side is negative or larger than `GL_MAX_TEXTURE_SIZE`). -/
structure OpenGl where
  bytesRead : Int32 → Int32 → Nat

/-- What `glTexImage2D` is given: the sides, and the bytes that it reads. -/
structure Image where
  width : Int32
  height : Int32
  pixels : List UInt8
deriving DecidableEq

/-- A width and a height, and the pixels behind them. -/
def loadFontTextureRGBA32 (gl : OpenGl) (data : Mem) : Image where
  width := sizeAt data 0
  height := sizeAt data 4
  pixels := data.slice 8 (gl.bytesRead (sizeAt data 0) (sizeAt data 4))

/-- What is left of a packet. -/
inductive Effect where
  | nothing
  | fontTexture (image : Image)
  | drawData (drawData : ImDrawData × Int32 × DrawDataStatics)
  | clipboardString (text : List UInt8)

/-- `Client::handlePacket`. -/
def handlePacket (io : ClientIo) (gl : OpenGl) (st : DrawDataStatics) (behind : Nat)
    (type : PacketType) (data : Mem) (size : Nat) : Option Effect :=
  match type with
  | .fontTexture => some (.fontTexture (loadFontTextureRGBA32 gl data))
  | .drawData => (unpacked io size st data).map .drawData
  | .setClipboardText => (cString (size + behind) data).map .clipboardString
  | _ => some .nothing

/-- The end of the bytes that `handlePacket` reads: both sides of a texture are printed and given to
    OpenGL, which reads the pixels; draw data is read up to where the cursor stops. -/
def readEnd (io : ClientIo) (gl : OpenGl) (st : DrawDataStatics) (behind : Nat) (type : PacketType)
    (data : Mem) (size : Nat) : Option Nat :=
  match type with
  | .fontTexture => some (8 + gl.bytesRead (sizeAt data 0) (sizeAt data 4))
  | .drawData => unpackedEnd io size st data
  | .setClipboardText => cStringEnd (size + behind) data
  | _ => some 0

/-- The two sides are in the payload, and the pixels that OpenGL reads. -/
def FontWithin (gl : OpenGl) (payload : List UInt8) : Prop :=
  8 ≤ payload.length ∧
    8 + gl.bytesRead (sizeAt (Mem.ofList payload) 0) (sizeAt (Mem.ofList payload) 4) ≤ payload.length

/-- What a payload must have. -/
def Contained (gl : OpenGl) : PacketType → List UInt8 → Prop
  | .fontTexture, payload => FontWithin gl payload
  | .drawData, payload => DrawDataWithin payload
  | .setClipboardText, payload => 0 ∈ payload
  | _, _ => True

end Desktop.Raw

/-! ## Texts

  A text ends at its first zero.  If there is one in the payload, nothing behind it counts; if not,
  what is behind the payload does, as with a letter or a zero there the text is another one. -/

variable {payload : List UInt8}

/-- The payload, and what can be read behind it. -/
theorem slice_behind {m : Mem} (hm : m.Holds 0 payload) (behind : Nat) :
    m.slice 0 (payload.length + behind) = payload ++ m.slice payload.length behind := by
  have hsplit : m.slice 0 (payload.length + behind) =
      m.slice 0 payload.length ++ m.slice payload.length behind := by
    unfold Mem.slice
    rw [List.range_add, List.map_append, List.map_map]
    congr 1
    exact List.map_congr_left fun i _ => congrArg m (Nat.zero_add _)
  rw [hsplit, hm.slice]

/-- A text that ends in some bytes ends there whatever follows them. -/
theorem takeWhile_append_of_mem {xs ys : List UInt8} (h : 0 ∈ xs) :
    (xs ++ ys).takeWhile (· ≠ 0) = xs.takeWhile (· ≠ 0) := by
  induction xs with
  | nil => exact absurd h List.not_mem_nil
  | cons x xs ih =>
    rw [List.cons_append, List.takeWhile_cons, List.takeWhile_cons]
    by_cases hx : x = 0
    · simp [hx]
    · rcases List.mem_cons.mp h with h0 | hxs
      · exact absurd h0.symm hx
      · rw [ih hxs]

/-- The text of bytes that do not end it, with one behind them. -/
theorem cString_poke (hno : 0 ∉ payload) (behind : Nat) {b : UInt8} {text : List UInt8}
    (h : cString (payload.length + behind) ((Mem.ofList payload).poke payload.length b) =
      some text) :
    ∃ rest, text = payload ++ (b :: rest).takeWhile (· ≠ 0) := by
  have hall : ∀ x ∈ payload, decide (x ≠ 0) = true := fun x hx =>
    decide_eq_true fun hzero => hno (hzero ▸ hx)
  unfold cString at h
  simp only [slice_behind ((Mem.holds_ofList payload).poke (Nat.le_refl _) b)] at h
  cases behind with
  | zero => simp [Mem.slice, hno] at h
  | succ behind =>
    rw [Mem.slice_cons, Mem.poke_self] at h
    split at h
    · rw [List.takeWhile_append_of_pos hall] at h
      exact ⟨_, (Option.some.inj h).symm⟩
    · exact absurd h (Option.some_ne_none text).symm

/-- **A text** is read from the payload, if and only if it ends there. -/
theorem ownBytes_cString_iff (behind : Nat) :
    OwnBytes (cString (payload.length + behind)) payload ↔ 0 ∈ payload := by
  constructor
  · intro h
    by_contra hno
    have hz := Mem.holds_ofList payload
    -- the byte behind the payload ends the text, or is part of it
    obtain ⟨text, h₀, h₁⟩ := h _ _ (hz.poke (Nat.le_refl _) 0) (hz.poke (Nat.le_refl _) 1)
    obtain ⟨rest₀, rfl⟩ := cString_poke hno behind h₀
    obtain ⟨rest₁, htext⟩ := cString_poke hno behind h₁
    have htake := List.append_cancel_left htext
    simp at htake
  · intro hmem
    rw [ownBytes_iff]
    refine ⟨payload.takeWhile (· ≠ 0), fun m hm => ?_⟩
    unfold cString
    simp only [slice_behind hm]
    rw [if_pos (List.mem_append_left _ hmem), takeWhile_append_of_mem hmem]

/-- The zero of a text that ends in the payload is in it. -/
theorem cStringEnd_le (behind : Nat) (hmem : 0 ∈ payload) {m : Mem} (hm : m.Holds 0 payload) :
    ∃ n, cStringEnd (payload.length + behind) m = some n ∧ n ≤ payload.length := by
  refine ⟨(payload.takeWhile (· ≠ 0)).length + 1, ?_, ?_⟩
  · unfold cStringEnd cString
    simp only [slice_behind hm]
    rw [if_pos (List.mem_append_left _ hmem), takeWhile_append_of_mem hmem]
    rfl
  · -- the zero itself is not taken
    refine lt_of_le_of_ne (List.takeWhile_prefix _).length_le fun hlen => ?_
    have hself : payload.takeWhile (· ≠ 0) = payload :=
      (List.takeWhile_prefix _).eq_of_length hlen
    have hzero := List.takeWhile_eq_self_iff.mp hself 0 hmem
    simp at hzero

/-- **A text** is read from the payload and no further, if and only if it ends there. -/
theorem confined_cString_iff {α : Type} {f : List UInt8 → α} (hf : Function.Injective f)
    (behind : Nat) :
    Confined (fun m => (cString (payload.length + behind) m).map f)
      (cStringEnd (payload.length + behind)) payload ↔ 0 ∈ payload := by
  constructor
  · exact fun h => (ownBytes_cString_iff behind).mp ((ownBytes_map_iff hf).mp h.1)
  · exact fun hmem => ⟨(ownBytes_map_iff hf).mpr ((ownBytes_cString_iff behind).mpr hmem),
      fun m hm => cStringEnd_le behind hmem hm⟩

/-! ## Structures

  A structure is confined to the payload iff the last byte that is read of it is.  For a payload
  that is shorter, changing this byte changes the call that is made. -/

theorem wordAt_congr {m₁ m₂ : Mem} {w off : Nat} (h : ∀ i ≤ w, m₁ i = m₂ i) (hoff : off + 3 ≤ w) :
    wordAt m₁ off = wordAt m₂ off :=
  congrArg (fun bs => UInt32.ofNat (leVal bs)) (Mem.slice_congr fun i hi => h _ (by omega))

theorem sizeAt_congr {m₁ m₂ : Mem} {w off : Nat} (h : ∀ i ≤ w, m₁ i = m₂ i) (hoff : off + 3 ≤ w) :
    sizeAt m₁ off = sizeAt m₂ off :=
  congrArg intVal (Mem.slice_congr fun i hi => h _ (by omega))

/-- The last byte of a word tells. -/
theorem wordAt_poke_ne (m : Mem) (off : Nat) :
    wordAt (m.poke (off + 3) 0) off ≠ wordAt (m.poke (off + 3) 1) off := by
  unfold wordAt
  rw [Mem.slice_poke_last m off 3, Mem.slice_poke_last m off 3]
  intro h
  have hval := congrArg UInt32.toNat h
  rw [UInt32.toNat_ofNat', UInt32.toNat_ofNat'] at hval
  exact leVal_last_ne (Mem.length_slice ..) hval

theorem wordAt_poke_of_le (m : Mem) {off i : Nat} (h : off + 4 ≤ i) (b : UInt8) :
    wordAt (m.poke i b) off = wordAt m off :=
  congrArg (fun bs => UInt32.ofNat (leVal bs)) (m.slice_poke_of_not_mem (Or.inr h) b)

theorem sizeAt_poke_of_le (m : Mem) {off i : Nat} (h : off + 4 ≤ i) (b : UInt8) :
    sizeAt (m.poke i b) off = sizeAt m off :=
  congrArg intVal (m.slice_poke_of_not_mem (Or.inr h) b)

/-- A `float` with a bit set in its last byte is not zero. -/
theorem nonzero_poke (m : Mem) (off : Nat) :
    Sysmodule.Raw.nonzero (wordAt (m.poke (off + 3) 1) off) = true := by
  unfold Sysmodule.Raw.nonzero wordAt
  rw [Mem.slice_poke_last m off 3, UInt32.toNat_ofNat', leVal_append, Mem.length_slice]
  have hlt := leVal_lt (m.slice off 3)
  rw [Mem.length_slice] at hlt
  show ((leVal (m.slice off 3) + 256 ^ 3 * 1) % 2 ^ 32 % 2 ^ 31 != 0) = true
  rw [bne_iff_ne]
  omega

namespace Sysmodule.Raw

/-- Two wheel values of which the second is not zero are told apart by the calls. -/
theorem mouseCalls_ne {packet : MouseEvent} {y₀ y₁ : UInt32} (hne : y₀ ≠ y₁)
    (hy₁ : nonzero y₁ = true) :
    mouseCalls { packet with wheelY := y₀ } ≠ mouseCalls { packet with wheelY := y₁ } := by
  intro h
  have hwheel := List.append_cancel_right (List.cons_eq_cons.mp h).2
  rw [hy₁, Bool.or_true, if_pos rfl] at hwheel
  split at hwheel
  next => exact hne (UiCall.addMouseWheelEvent.inj (List.cons_eq_cons.mp hwheel).1).2
  next => exact absurd hwheel.symm (List.cons_ne_nil _ _)

theorem ofMem_poke (m : Mem) (b : UInt8) :
    MouseEvent.ofMem (m.poke 23 b) =
      { MouseEvent.ofMem m with wheelY := wordAt (m.poke 23 b) 20 } := by
  unfold MouseEvent.ofMem
  rw [wordAt_poke_of_le m (by decide), wordAt_poke_of_le m (by decide),
    wordAt_poke_of_le m (by decide), sizeAt_poke_of_le m (by decide), m.poke_of_ne (by decide)]

/-- A mouse event needs its 24 bytes ... -/
theorem mouse_iff :
    OwnBytes (fun m => some (mouseCalls (MouseEvent.ofMem m))) payload ↔ 24 ≤ payload.length := by
  refine ownBytes_iff_lt (w := 23) (fun m => Option.some_ne_none _) (fun m₁ m₂ h => ?_) fun m h => ?_
  · unfold MouseEvent.ofMem
    rw [wordAt_congr h (by decide), wordAt_congr h (by decide), sizeAt_congr h (by decide),
      wordAt_congr h (by decide), wordAt_congr h (by decide), h 12 (by decide)]
  · have hcalls := Option.some.inj h
    rw [ofMem_poke, ofMem_poke m 1] at hcalls
    exact mouseCalls_ne (wordAt_poke_ne m 20) (nonzero_poke m 20) hcalls

/-- ... a key event the nine up to `pressed` ... -/
theorem key_iff :
    OwnBytes (fun m => some (keyCalls (KeyEvent.ofMem m))) payload ↔ 9 ≤ payload.length := by
  refine ownBytes_iff_lt (w := 8) (fun m => Option.some_ne_none _) (fun m₁ m₂ h => ?_) fun m h => ?_
  · unfold KeyEvent.ofMem
    rw [h 0 (by decide), sizeAt_congr h (by decide), h 8 (by decide)]
  · have hkey := UiCall.addKeyEvent.inj (List.cons_eq_cons.mp (Option.some.inj h)).1
    have hpressed : (m.poke 8 0 8 != 0) = (m.poke 8 1 8 != 0) := hkey.2
    rw [Mem.poke_self, Mem.poke_self] at hpressed
    exact absurd hpressed (by decide)

/-- ... a size its eight ... -/
theorem displaySize_iff :
    OwnBytes (fun m => some [UiCall.displaySize (wordAt m 0) (wordAt m 4), .queueRerender]) payload ↔
      8 ≤ payload.length := by
  refine ownBytes_iff_lt (w := 7) (fun m => Option.some_ne_none _) (fun m₁ m₂ h => ?_) fun m h => ?_
  · rw [wordAt_congr h (by decide), wordAt_congr h (by decide)]
  · have hsize := UiCall.displaySize.inj (List.cons_eq_cons.mp (Option.some.inj h)).1
    exact wordAt_poke_ne m 4 hsize.2

/-- ... and a character its four. -/
theorem char_iff :
    OwnBytes (fun m => some [UiCall.addInputCharacter (wordAt m 0)]) payload ↔
      4 ≤ payload.length := by
  refine ownBytes_iff_lt (w := 3) (fun m => Option.some_ne_none _) (fun m₁ m₂ h => ?_) fun m h => ?_
  · rw [wordAt_congr h (by decide)]
  · have hchar := UiCall.addInputCharacter.inj (List.cons_eq_cons.mp (Option.some.inj h)).1
    exact wordAt_poke_ne m 0 hchar

/-- **The sysmodule's `handlePacket`**, one case for each type. -/
theorem handlePacket_iff (behind : Nat) (type : PacketType) (payload : List UInt8) :
    Confined (fun m => handlePacket behind type m payload.length)
        (fun m => readEnd behind type m payload.length) payload ↔
      Contained type payload := by
  cases type with
  | updateDisplaySize => exact confined_some_iff displaySize_iff
  | updateMouse => exact confined_some_iff mouse_iff
  | updateKey => exact confined_some_iff key_iff
  | updateChar => exact confined_some_iff char_iff
  | setClipboardText =>
    have hinj : Function.Injective fun text => [UiCall.setCurClipboardString text] :=
      fun _ _ h => UiCall.setCurClipboardString.inj (List.cons_eq_cons.mp h).1
    exact confined_cString_iff hinj behind
  | _ => exact iff_of_true ⟨ownBytes_some _ payload, readsWithin_some.mpr (Nat.zero_le _)⟩ trivial

end Sysmodule.Raw

/-! ## Font textures

  Of a texture both sides are printed, so they are read whatever OpenGL does with them.  The pixels
  count as far as OpenGL takes them, which is its own affair (`OpenGl`). -/

namespace Desktop.Raw

variable {gl : OpenGl}

/-- With both sides and the pixels in the payload, the image is the payload's. -/
theorem load_eq (h : FontWithin gl payload) {m : Mem} (hm : m.Holds 0 payload) :
    loadFontTextureRGBA32 gl m = loadFontTextureRGBA32 gl (Mem.ofList payload) := by
  obtain ⟨hlen, hpixels⟩ := h
  unfold loadFontTextureRGBA32
  rw [sizeAt_eq hm (by omega), sizeAt_eq hm (by omega), hm.slice_eq_ofList hpixels]

/-- **A font texture** depends on its own bytes and no others are read, iff both sides and all that
    OpenGL reads are among them. -/
theorem font_iff :
    Confined (fun m => some (Effect.fontTexture (loadFontTextureRGBA32 gl m)))
      (fun m => some (8 + gl.bytesRead (sizeAt m 0) (sizeAt m 4))) payload ↔
        FontWithin gl payload := by
  constructor
  · rintro ⟨-, hwithin⟩
    obtain ⟨n, hn, hle⟩ := hwithin _ (Mem.holds_ofList payload)
    rw [← Option.some.inj hn] at hle
    exact ⟨by omega, hle⟩
  · intro h
    refine ⟨ownBytes_iff.mpr ⟨_, fun m hm => by rw [load_eq h hm]⟩, fun m hm => ⟨_, rfl, ?_⟩⟩
    obtain ⟨hlen, hpixels⟩ := h
    rw [sizeAt_eq hm (by omega), sizeAt_eq hm (by omega)]
    exact hpixels

/-- **The desktop's `handlePacket`**, one case for each type. -/
theorem handlePacket_iff (io : ClientIo) (gl : OpenGl) (st : DrawDataStatics) (behind : Nat)
    (type : PacketType) (payload : List UInt8) :
    Confined (fun m => handlePacket io gl st behind type m payload.length)
        (fun m => readEnd io gl st behind type m payload.length) payload ↔
      Contained gl type payload := by
  cases type with
  | fontTexture => exact font_iff
  | drawData =>
    have hinj : Function.Injective Effect.drawData := fun _ _ h => Effect.drawData.inj h
    exact (and_congr_left' (ownBytes_map_iff hinj)).trans
      (confined_unpacked_iff io payload.length st)
  | setClipboardText =>
    have hinj : Function.Injective Effect.clipboardString := fun _ _ h =>
      Effect.clipboardString.inj h
    exact confined_cString_iff hinj behind
  | _ => exact iff_of_true ⟨ownBytes_some _ payload, readsWithin_some.mpr (Nat.zero_le _)⟩ trivial

end Desktop.Raw

/-! ## The theorem -/

/-- **Own bytes.**  Each of the two `handlePacket` functions, given a packet of any type and payload,
    has the same effect whatever lies behind the payload and reads no byte of it, if and only if the
    payload has all that its type takes and announces. -/
theorem ownBytes_packet_iff (io : ClientIo) (gl : Desktop.Raw.OpenGl) (st : DrawDataStatics)
    (behind : Nat) (type : PacketType) (payload : List UInt8) :
    (Confined (fun m => Sysmodule.Raw.handlePacket behind type m payload.length)
        (fun m => Sysmodule.Raw.readEnd behind type m payload.length) payload ↔
      Sysmodule.Raw.Contained type payload) ∧
    (Confined (fun m => Desktop.Raw.handlePacket io gl st behind type m payload.length)
        (fun m => Desktop.Raw.readEnd io gl st behind type m payload.length) payload ↔
      Desktop.Raw.Contained gl type payload) :=
  ⟨Sysmodule.Raw.handlePacket_iff behind type payload,
    Desktop.Raw.handlePacket_iff io gl st behind type payload⟩

/-- A size without a payload: the display size is made up of what lies behind.  A text without an
    end: it goes on. -/
theorem not_ownBytes_short :
    ¬OwnBytes (fun m => Sysmodule.Raw.handlePacket 0 .updateDisplaySize m 0) [] ∧
      ∀ gl : Desktop.Raw.OpenGl,
        ¬OwnBytes (fun m => Desktop.Raw.handlePacket ⟨⟨1280, 720⟩, 0⟩ gl DrawDataStatics.init 2
          .setClipboardText m 1) [97] := by
  constructor
  · intro h
    exact absurd (h.poke_eq (i := 7) (by decide) 0 1) (by decide)
  · intro gl h
    have htext := h.poke_eq (i := 1) (by decide) 0 1
    have hne : (some (Desktop.Raw.Effect.clipboardString [97])) =
      some (Desktop.Raw.Effect.clipboardString [97, 1]) := htext
    exact absurd (Desktop.Raw.Effect.clipboardString.inj (Option.some.inj hne)) (by decide)

end Nxdb
