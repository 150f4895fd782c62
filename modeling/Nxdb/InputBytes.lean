/-
  What the desktop sends, byte for byte.

  A packet is what its sender puts into it (`DesktopPacket`); `payload` are its bytes, laid out as the
  compiler lays out `MouseEvent` and `KeyEvent`: with padding that nobody writes, so that it holds
  whatever was there before.  `uiCalls` is what the packet is for.

  `handlePacket_payload`: the sysmodule's `handlePacket`, given the bytes in a buffer with anything
  behind them, makes these calls; neither the padding nor what lies behind the packet counts.  The bytes
  are all there: this is about a packet that was sent whole.
-/
import Nxdb.Floats
import Nxdb.OwnBytes
import Nxdb.MouseInput
import Nxdb.ClipboardTick
import Nxdb.ImGuiLoop
import Nxdb.Pipe

namespace Nxdb

open Lib Sysmodule.Raw

/-! ## The layout

  The offsets are those of a compiler that aligns each member to its size.  Padding, and the four
  bits of `mod` that belong to no member, are arguments: whatever they are, the packet is one of
  these. -/

/-- The bits of a `float`. -/
def floatWord (q : ℚ) : UInt32 := UInt32.ofNat (floatBits q)

/-- `MouseEvent` as `handlePacket` sees it. -/
def MouseEvent.raw (e : MouseEvent) : Sysmodule.Raw.MouseEvent where
  posX := floatWord e.pos.x
  posY := floatWord e.pos.y
  button := e.button
  pressed := e.pressed
  wheelX := floatWord e.wheelX
  wheelY := floatWord e.wheelY

/-- The 24 bytes of a `MouseEvent`, three of them behind `pressed` unused. -/
def MouseEvent.bytes (e : MouseEvent) (padding : Vector UInt8 3) : List UInt8 :=
  le 4 (floatBits e.pos.x) ++ (le 4 (floatBits e.pos.y) ++ (intBytes e.button ++
    ([e.pressed.toUInt8] ++ (padding.toList ++ (le 4 (floatBits e.wheelX) ++
      le 4 (floatBits e.wheelY))))))

/-- What a `KeyEvent` holds besides its members. -/
structure KeyPadding where
  modBits : BitVec 4
  behindMod : Vector UInt8 3
  behindPressed : Vector UInt8 3

/-- The byte of the four one-bit members. -/
def KeyEvent.modByte (k : KeyEvent) (padding : KeyPadding) : Nat :=
  k.ctrl.toNat + 2 * (k.shift.toNat + 2 * (k.alt.toNat + 2 * (k.super.toNat
    + 2 * padding.modBits.toNat)))

/-- The 12 bytes of a `KeyEvent`. -/
def KeyEvent.bytes (k : KeyEvent) (padding : KeyPadding) : List UInt8 :=
  [UInt8.ofNat (KeyEvent.modByte k padding)] ++ (padding.behindMod.toList ++ (intBytes k.key ++
    ([k.pressed.toUInt8] ++ padding.behindPressed.toList)))

/-! ## The packets -/

/-- A packet of the desktop and what it is made of. -/
inductive DesktopPacket where
  | hello
  | alive
  | displaySize (displaySize : ImVec2)
  | mouse (packet : MouseEvent) (padding : Vector UInt8 3)
  | key (packet : KeyEvent) (padding : KeyPadding)
  | char (c : UInt32)
  | clipboardText (text : Text)

namespace DesktopPacket

/-- `PacketType` of the packet. -/
def type : DesktopPacket → PacketType
  | hello => .hello
  | alive => .alive
  | displaySize _ => .updateDisplaySize
  | mouse _ _ => .updateMouse
  | key _ _ => .updateKey
  | char _ => .updateChar
  | clipboardText _ => .setClipboardText

/-- `Hello` and `Alive` come with an `int` that nobody reads. -/
def payload : DesktopPacket → List UInt8
  | hello => le 4 0
  | alive => le 4 0
  | displaySize size => size.image
  | mouse packet padding => packet.bytes padding
  | key packet padding => KeyEvent.bytes packet padding
  | char c => le 4 c.toNat
  | clipboardText text => text.payload

/-- What is declared as `float` is one, and a text is not longer than `updateNetworkInput` lets it
    be. -/
def Ok : DesktopPacket → Prop
  | displaySize size => size.IsFloat
  | mouse packet _ => packet.pos.IsFloat ∧ IsFloat packet.wheelX ∧ IsFloat packet.wheelY
  | clipboardText text => text.textSize ≤ maxTextSize
  | _ => True

end DesktopPacket

/-- An input event of `ImGuiIO`, as the call that adds it. -/
def InputEvent.uiCall : InputEvent → UiCall
  | mousePos x y => .addMousePosEvent (floatWord x) (floatWord y)
  | mouseWheel x y => .addMouseWheelEvent (floatWord x) (floatWord y)
  | mouseButton button down => .addMouseButtonEvent button down

/-- What the packet is for. -/
def DesktopPacket.uiCalls : DesktopPacket → List UiCall
  | hello => [.queueRerender]
  | alive => []
  | displaySize size => [.displaySize (floatWord size.x) (floatWord size.y), .queueRerender]
  | mouse packet _ => (addMouseEvents packet).map InputEvent.uiCall ++ [.queueRerender]
  | key packet _ => keyCalls packet
  | char c => [.addInputCharacter c]
  | clipboardText text => [.setCurClipboardString text.bytes]

/-- The `switch` over a type that was on the wire: the enumerator, or none for `default`. -/
def PacketType.ofCode (code : Nat) : Option PacketType :=
  [PacketType.noPacket, .hello, .alive, .fontTexture, .drawData, .updateDisplaySize, .updateMouse,
    .updateKey, .updateChar, .setClipboardText][code]?

theorem PacketType.ofCode_code (type : PacketType) : PacketType.ofCode type.code = some type := by
  cases type <;> rfl

/-- A call of the sysmodule's `handlePacket`, with the type that was on the wire. -/
def Sysmodule.handleCall (behind : Nat) (call : Call) : Option (List UiCall) :=
  match PacketType.ofCode call.type with
  | some type => Sysmodule.Raw.handlePacket behind type call.data call.size
  | none => some []

namespace DesktopPacket

/-- What is given to `sendPacketImpl`. -/
def packet (p : DesktopPacket) : Packet := ⟨p.type, p.payload⟩

/-- A packet on the wire. -/
def wirePacket (p : DesktopPacket) : WirePacket := p.packet.wirePacket

end DesktopPacket

/-- The point or the size in two `float`s. -/
def vecOf (x y : UInt32) : ImVec2 := ⟨floatVal x.toNat, floatVal y.toNat⟩

/-! ## Reading the fields back

  From a memory that holds the bytes each field is read at its offset.  `float`s come back as the
  rationals they are, since what the desktop sends are values of `float`s (`DesktopPacket.Ok`). -/

/-- The word of a `float` value is its four bytes ... -/
theorem toNat_floatWord {q : ℚ} (h : IsFloat q) : (floatWord q).toNat = floatBits q := by
  rw [floatWord, UInt32.toNat_ofNat', Nat.mod_eq_of_lt h.1]

/-- ... and so gives the value back. -/
theorem vecOf_floatWord {v : ImVec2} (h : v.IsFloat) : vecOf (floatWord v.x) (floatWord v.y) = v := by
  rw [vecOf, toNat_floatWord h.1, toNat_floatWord h.2, h.1.2, h.2.2]

/-- A `float` tells in a condition what it tells as a number. -/
theorem nonzero_floatWord {q : ℚ} (h : IsFloat q) : nonzero (floatWord q) = decide (q ≠ 0) := by
  rw [Bool.eq_iff_iff, decide_eq_true_iff, nonzero, bne_iff_ne, toNat_floatWord h, ne_eq, ne_eq,
    floatBits_mod_eq_zero_iff h]

/-- A word that stands in memory is read ... -/
theorem wordAt_of_holds {m : Mem} {off n : Nat} (h : m.Holds off (le 4 n)) (hn : n < 2 ^ 32) :
    wordAt m off = UInt32.ofNat n := by
  have hslice := h.slice
  rw [length_le] at hslice
  rw [wordAt, hslice, leVal_le_of_lt hn]

/-- ... and so is an `int` ... -/
theorem sizeAt_of_holds {m : Mem} {off : Nat} {z : Int32} (h : m.Holds off (intBytes z)) :
    sizeAt m off = z := by
  have hslice := h.slice
  rw [length_intBytes] at hslice
  rw [sizeAt, hslice, intVal_intBytes]

/-- ... and a byte. -/
theorem eq_of_holds {m : Mem} {off : Nat} {b : UInt8} (h : m.Holds off [b]) : m off = b :=
  h 0 Nat.one_pos

theorem toUInt8_ne_zero (b : Bool) : (b.toUInt8 != 0) = b := by
  cases b <;> rfl

/-- **A `MouseEvent` survives the wire.** -/
theorem ofMem_mouse {e : MouseEvent} {padding : Vector UInt8 3} {m : Mem}
    (hpos : e.pos.IsFloat) (hx : IsFloat e.wheelX) (hy : IsFloat e.wheelY)
    (h : m.Holds 0 (e.bytes padding)) : Sysmodule.Raw.MouseEvent.ofMem m = e.raw := by
  obtain ⟨hposX, h⟩ := Mem.holds_append.mp h
  obtain ⟨hposY, h⟩ := Mem.holds_append.mp h
  obtain ⟨hbutton, h⟩ := Mem.holds_append.mp h
  obtain ⟨hpressed, h⟩ := Mem.holds_append.mp h
  obtain ⟨-, h⟩ := Mem.holds_append.mp h
  obtain ⟨hwheelX, hwheelY⟩ := Mem.holds_append.mp h
  simp only [length_le, length_intBytes, List.length_singleton, Vector.length_toList,
    Nat.zero_add, Nat.reduceAdd] at hposY hbutton hpressed hwheelX hwheelY
  rw [Sysmodule.Raw.MouseEvent.ofMem, wordAt_of_holds hposX hpos.1.1,
    wordAt_of_holds hposY hpos.2.1, sizeAt_of_holds hbutton, eq_of_holds hpressed,
    wordAt_of_holds hwheelX hx.1, wordAt_of_holds hwheelY hy.1, toUInt8_ne_zero]
  rfl

/-- The members are bits of their byte, whatever the other four bits are. -/
theorem testBit_modByte (k : KeyEvent) (padding : KeyPadding) :
    (KeyEvent.modByte k padding).testBit 0 = k.ctrl ∧
      (KeyEvent.modByte k padding).testBit 1 = k.shift ∧
      (KeyEvent.modByte k padding).testBit 2 = k.alt ∧
      (KeyEvent.modByte k padding).testBit 3 = k.super := by
  have hbit : ∀ (b : Bool) (n : Nat), (b.toNat + 2 * n).testBit 0 = b := by
    intro b n
    rw [Nat.testBit_zero]
    cases b <;> simp [Nat.add_mod]
  have hnext : ∀ (b : Bool) (n i : Nat), (b.toNat + 2 * n).testBit (i + 1) = n.testBit i := by
    intro b n i
    rw [Nat.testBit_succ]
    congr 1
    have hb := Bool.toNat_lt b
    omega
  unfold KeyEvent.modByte
  refine ⟨hbit _ _, ?_, ?_, ?_⟩
  · rw [hnext, hbit]
  · rw [hnext, hnext, hbit]
  · rw [hnext, hnext, hnext, hbit]

theorem modByte_lt (k : KeyEvent) (padding : KeyPadding) : KeyEvent.modByte k padding < 256 := by
  have hctrl := Bool.toNat_lt k.ctrl
  have hshift := Bool.toNat_lt k.shift
  have halt := Bool.toNat_lt k.alt
  have hsuper := Bool.toNat_lt k.super
  have hbits := padding.modBits.isLt
  unfold KeyEvent.modByte
  omega

/-- **A `KeyEvent` survives the wire.** -/
theorem ofMem_key {k : KeyEvent} {padding : KeyPadding} {m : Mem}
    (h : m.Holds 0 (KeyEvent.bytes k padding)) : KeyEvent.ofMem m = k := by
  obtain ⟨hmod, h⟩ := Mem.holds_append.mp h
  obtain ⟨-, h⟩ := Mem.holds_append.mp h
  obtain ⟨hkey, h⟩ := Mem.holds_append.mp h
  obtain ⟨hpressed, -⟩ := Mem.holds_append.mp h
  simp only [length_intBytes, List.length_singleton, Vector.length_toList,
    Nat.zero_add, Nat.reduceAdd] at hkey hpressed
  obtain ⟨hctrl, hshift, halt, hsuper⟩ := testBit_modByte k padding
  have hbyte : (m 0).toNat = KeyEvent.modByte k padding := by
    rw [eq_of_holds hmod, UInt8.toNat_ofNat', Nat.mod_eq_of_lt (modByte_lt k padding)]
  rw [KeyEvent.ofMem, hbyte, hctrl, hshift, halt, hsuper, sizeAt_of_holds hkey,
    eq_of_holds hpressed, toUInt8_ne_zero]

/-! ## Handling a packet

  The calls are compared one by one: made from the bits, they are those made from the numbers.  For
  a text the zero that ends it is in the packet, so the reader stops there. -/

/-- `nonzero` and `-1` decide for the bits what they decide for the numbers. -/
theorem mouseCalls_raw {e : MouseEvent} (hx : IsFloat e.wheelX) (hy : IsFloat e.wheelY) :
    mouseCalls e.raw = (addMouseEvents e).map InputEvent.uiCall ++ [.queueRerender] := by
  show UiCall.addMousePosEvent (floatWord e.pos.x) (floatWord e.pos.y) ::
    ((if nonzero (floatWord e.wheelX) || nonzero (floatWord e.wheelY) then
        [.addMouseWheelEvent (floatWord e.wheelX) (floatWord e.wheelY)] else [])
      ++ ((if e.button ≠ -1 then [.addMouseButtonEvent e.button e.pressed] else [])
        ++ [.queueRerender])) = _
  rw [addMouseEvents]
  simp only [nonzero_floatWord hx, nonzero_floatWord hy, Bool.or_eq_true, decide_eq_true_iff]
  by_cases hwheel : e.wheelX ≠ 0 ∨ e.wheelY ≠ 0
  · by_cases hbutton : e.button ≠ -1
    · simp only [if_pos hwheel, if_pos hbutton]
      rfl
    · simp only [if_pos hwheel, if_neg hbutton]
      rfl
  · by_cases hbutton : e.button ≠ -1
    · simp only [if_neg hwheel, if_pos hbutton]
      rfl
    · simp only [if_neg hwheel, if_neg hbutton]
      rfl

theorem Text.payload_eq (t : Text) : t.payload = t.bytes ++ [0] := by
  rw [payload, textSize, List.take_of_length_le]
  rw [List.length_append, List.length_singleton]

/-- The text of a packet ends in it, so what lies behind it is not read. -/
theorem cString_payload (text : Text) (behind : Nat) {m : Mem} (h : m.Holds 0 text.payload) :
    cString (text.payload.length + behind) m = some text.bytes := by
  have hall : ∀ x ∈ text.bytes, decide (x ≠ 0) = true := fun x hx =>
    decide_eq_true fun hzero => text.zero_not_mem (hzero ▸ hx)
  have hslice : m.slice 0 (text.payload.length + behind) =
      text.bytes ++ ([0] ++ m.slice text.payload.length behind) := by
    rw [slice_behind h behind, ← List.append_assoc, ← text.payload_eq]
  unfold cString
  simp only [hslice]
  rw [if_pos (by simp), List.takeWhile_append_of_pos hall]
  simp

/-- **What `handlePacket` makes of a packet of the desktop.** -/
theorem handlePacket_payload (behind : Nat) {p : DesktopPacket} (hp : p.Ok) {m : Mem}
    (h : m.Holds 0 p.payload) :
    Sysmodule.Raw.handlePacket behind p.type m p.payload.length = some p.uiCalls := by
  cases p with
  | hello => rfl
  | alive => rfl
  | displaySize size =>
    obtain ⟨hx, hy⟩ := Mem.holds_append.mp h
    rw [length_le] at hy
    show some [UiCall.displaySize (wordAt m 0) (wordAt m 4), .queueRerender] = _
    rw [wordAt_of_holds hx hp.1.1, wordAt_of_holds hy hp.2.1]
    rfl
  | mouse packet padding =>
    show some (mouseCalls (Sysmodule.Raw.MouseEvent.ofMem m)) = _
    rw [ofMem_mouse hp.1 hp.2.1 hp.2.2 h, mouseCalls_raw hp.2.1 hp.2.2]
    rfl
  | key packet padding =>
    show some (keyCalls (KeyEvent.ofMem m)) = _
    rw [ofMem_key h]
    rfl
  | char c =>
    show some [UiCall.addInputCharacter (wordAt m 0)] = _
    rw [wordAt_of_holds h c.toNat_lt, UInt32.ofNat_toNat]
    rfl
  | clipboardText text =>
    show (cString (text.payload.length + behind) m).map (fun t => [UiCall.setCurClipboardString t]) = _
    rw [cString_payload text behind h]
    rfl

/-- **A packet is handled as what it is.** -/
theorem handleCall_eq (behind : Nat) {p : DesktopPacket} (hp : p.Ok) {call : Call}
    (hcall : call.packet = p.wirePacket) : Sysmodule.handleCall behind call = some p.uiCalls := by
  obtain ⟨htype, hpayload⟩ := WirePacket.mk.inj hcall
  replace hpayload : call.data.slice 0 call.size = p.payload := hpayload
  have hsize : call.size = p.payload.length := by
    rw [← hpayload, Mem.length_slice]
  rw [Sysmodule.handleCall, htype]
  show (match PacketType.ofCode p.type.code with
    | some type => Sysmodule.Raw.handlePacket behind type call.data call.size
    | none => some []) = _
  rw [PacketType.ofCode_code, hsize]
  exact handlePacket_payload behind hp (Mem.holds_of_slice hpayload)

/-- A packet fits into the sysmodule's buffer. -/
theorem length_payload (p : DesktopPacket) (hp : p.Ok) :
    p.payload.length + packetHeaderSize ≤ Sysmodule.bufferSize := by
  rw [packetHeaderSize, Sysmodule.bufferSize]
  cases p with
  | hello => decide
  | alive => decide
  | displaySize size =>
    rw [DesktopPacket.payload, ImVec2.image, List.length_append, length_le, length_le]
    decide
  | mouse packet padding =>
    simp [DesktopPacket.payload, MouseEvent.bytes]
  | key packet padding =>
    simp [DesktopPacket.payload, KeyEvent.bytes]
  | char c =>
    rw [DesktopPacket.payload, length_le]
    decide
  | clipboardText text =>
    have hsize : text.bytes.length + 1 ≤ 512 := hp
    rw [DesktopPacket.payload, text.payload_eq, List.length_append, List.length_singleton]
    omega

end Nxdb
