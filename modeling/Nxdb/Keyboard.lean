/-
  The keyboard: which keys the remote UI takes to be down.

  `keyCallback` sends a packet for every press and every release, with the key, translated from GLFW's
  names to ImGui's, and with the modifiers, read from the keyboard behind the stroke.  So for each key
  that has a name on both sides the last call of `AddKeyEvent` says whether it is down, and for each
  modifier whether one of its two keys is (`Tells`): `Tells.keyCallback`.  The table takes no two keys
  to one (`imGuiKey_injective`), else the strokes of one would count for the other.
-/
import Nxdb.OwnBytes
import Mathlib.Logic.Function.Basic

namespace Nxdb

open Sysmodule.Raw

/-! ## The keys

  The two enumerations are in one order, so that the table can be checked against the `switch` from
  top to bottom. -/

/-- `GLFW_KEY_*`, in the order of the `switch`. -/
inductive NamedKey where
  | tab | left | right | up | down | pageUp | pageDown | home | endKey | insert | delete
  | backspace | space | enter | escape | apostrophe | comma | minus | period | slash | semicolon
  | equal | leftBracket | backslash | rightBracket | graveAccent | capsLock | scrollLock
  | numLock | printScreen | pause | kp0 | kp1 | kp2 | kp3 | kp4 | kp5 | kp6 | kp7 | kp8 | kp9
  | kpDecimal | kpDivide | kpMultiply | kpSubtract | kpAdd | kpEnter | kpEqual | leftShift
  | leftControl | leftAlt | leftSuper | rightShift | rightControl | rightAlt | rightSuper | menu
  | key0 | key1 | key2 | key3 | key4 | key5 | key6 | key7 | key8 | key9 | a | b | c | d | e | f
  | g | h | i | j | k | l | m | n | o | p | q | r | s | t | u | v | w | x | y | z | f1 | f2 | f3
  | f4 | f5 | f6 | f7 | f8 | f9 | f10 | f11 | f12 | f13 | f14 | f15 | f16 | f17 | f18 | f19
  | f20 | f21 | f22 | f23 | f24
deriving DecidableEq

/-- A `keycode` of GLFW: one that the `switch` names, or another one. -/
inductive GlfwKey where
  | named (key : NamedKey)
  | other (keycode : Int32)
deriving DecidableEq

/-- `ImGuiKey_*`, in the same order. -/
inductive ImGuiKey where
  | none | tab | leftArrow | rightArrow | upArrow | downArrow | pageUp | pageDown | home | endKey
  | insert | delete | backspace | space | enter | escape | apostrophe | comma | minus | period
  | slash | semicolon | equal | leftBracket | backslash | rightBracket | graveAccent | capsLock
  | scrollLock | numLock | printScreen | pause | keypad0 | keypad1 | keypad2 | keypad3 | keypad4
  | keypad5 | keypad6 | keypad7 | keypad8 | keypad9 | keypadDecimal | keypadDivide
  | keypadMultiply | keypadSubtract | keypadAdd | keypadEnter | keypadEqual | leftShift
  | leftCtrl | leftAlt | leftSuper | rightShift | rightCtrl | rightAlt | rightSuper | menu
  | key0 | key1 | key2 | key3 | key4 | key5 | key6 | key7 | key8 | key9 | a | b | c | d | e | f
  | g | h | i | j | k | l | m | n | o | p | q | r | s | t | u | v | w | x | y | z | f1 | f2 | f3
  | f4 | f5 | f6 | f7 | f8 | f9 | f10 | f11 | f12 | f13 | f14 | f15 | f16 | f17 | f18 | f19
  | f20 | f21 | f22 | f23 | f24
deriving DecidableEq

/-- The table of `ImGui_ImplGlfw_KeyToImGuiKey`. -/
def NamedKey.imGuiKey : NamedKey → ImGuiKey
  | .tab => .tab | .left => .leftArrow | .right => .rightArrow | .up => .upArrow
  | .down => .downArrow | .pageUp => .pageUp | .pageDown => .pageDown | .home => .home
  | .endKey => .endKey | .insert => .insert | .delete => .delete | .backspace => .backspace
  | .space => .space | .enter => .enter | .escape => .escape | .apostrophe => .apostrophe
  | .comma => .comma | .minus => .minus | .period => .period | .slash => .slash
  | .semicolon => .semicolon | .equal => .equal | .leftBracket => .leftBracket
  | .backslash => .backslash | .rightBracket => .rightBracket | .graveAccent => .graveAccent
  | .capsLock => .capsLock | .scrollLock => .scrollLock | .numLock => .numLock
  | .printScreen => .printScreen | .pause => .pause | .kp0 => .keypad0 | .kp1 => .keypad1
  | .kp2 => .keypad2 | .kp3 => .keypad3 | .kp4 => .keypad4 | .kp5 => .keypad5 | .kp6 => .keypad6
  | .kp7 => .keypad7 | .kp8 => .keypad8 | .kp9 => .keypad9 | .kpDecimal => .keypadDecimal
  | .kpDivide => .keypadDivide | .kpMultiply => .keypadMultiply | .kpSubtract => .keypadSubtract
  | .kpAdd => .keypadAdd | .kpEnter => .keypadEnter | .kpEqual => .keypadEqual
  | .leftShift => .leftShift | .leftControl => .leftCtrl | .leftAlt => .leftAlt
  | .leftSuper => .leftSuper | .rightShift => .rightShift | .rightControl => .rightCtrl
  | .rightAlt => .rightAlt | .rightSuper => .rightSuper | .menu => .menu | .key0 => .key0
  | .key1 => .key1 | .key2 => .key2 | .key3 => .key3 | .key4 => .key4 | .key5 => .key5
  | .key6 => .key6 | .key7 => .key7 | .key8 => .key8 | .key9 => .key9 | .a => .a | .b => .b
  | .c => .c | .d => .d | .e => .e | .f => .f | .g => .g | .h => .h | .i => .i | .j => .j
  | .k => .k | .l => .l | .m => .m | .n => .n | .o => .o | .p => .p | .q => .q | .r => .r
  | .s => .s | .t => .t | .u => .u | .v => .v | .w => .w | .x => .x | .y => .y | .z => .z
  | .f1 => .f1 | .f2 => .f2 | .f3 => .f3 | .f4 => .f4 | .f5 => .f5 | .f6 => .f6 | .f7 => .f7
  | .f8 => .f8 | .f9 => .f9 | .f10 => .f10 | .f11 => .f11 | .f12 => .f12 | .f13 => .f13
  | .f14 => .f14 | .f15 => .f15 | .f16 => .f16 | .f17 => .f17 | .f18 => .f18 | .f19 => .f19
  | .f20 => .f20 | .f21 => .f21 | .f22 => .f22 | .f23 => .f23 | .f24 => .f24

/-- `ImGui_ImplGlfw_KeyToImGuiKey`. -/
def keyToImGuiKey : GlfwKey → ImGuiKey
  | .named key => key.imGuiKey
  | .other _ => .none

/-- The numbers of the enumerators, which ImGui's header gives. -/
structure KeyCodes where
  code : ImGuiKey → Int32
  injective : Function.Injective code

/-! ## The code -/

/-- The `action` of GLFW. -/
inductive KeyAction where
  | press
  | release
  | repeated
deriving DecidableEq

/-- The keys that are down, as `glfwGetKey` reports them. -/
abbrev Keyboard := GlfwKey → Bool

/-- The keyboard behind a stroke: GLFW notes it before it calls back. -/
def Keyboard.stroke (keys : Keyboard) (key : GlfwKey) : KeyAction → Keyboard
  | .press => Function.update keys key true
  | .release => Function.update keys key false
  | .repeated => keys

namespace Keyboard

/-- One of the two keys of a modifier is down. -/
def mod (keys : Keyboard) : ImGuiMod → Bool
  | .ctrl => keys (.named .leftControl) || keys (.named .rightControl)
  | .shift => keys (.named .leftShift) || keys (.named .rightShift)
  | .alt => keys (.named .leftAlt) || keys (.named .rightAlt)
  | .super => keys (.named .leftSuper) || keys (.named .rightSuper)

end Keyboard

/-- `sendKeyEvent`: the packet it sends. -/
def sendKeyEvent (codes : KeyCodes) (keys : Keyboard) (key : ImGuiKey) (pressed : Bool) :
    KeyEvent where
  ctrl := keys.mod .ctrl
  alt := keys.mod .alt
  shift := keys.mod .shift
  super := keys.mod .super
  key := codes.code key
  pressed := pressed

/-- `keyCallback`, with the keyboard behind the stroke: the packets it sends. -/
def keyCallback (codes : KeyCodes) (keys : Keyboard) (keycode : GlfwKey) (action : KeyAction) :
    List KeyEvent :=
  if action ≠ .press ∧ action ≠ .release then []
  else [sendKeyEvent codes keys (keyToImGuiKey keycode) (decide (action = .press))]

/-! ## The table

  A key and the one it is taken to have the same place in their enumerations, but for the one that
  is for no key.  That makes the table injective without a look at its pairs. -/

/-- A key is taken to the one that is named with it. -/
theorem ctorIdx_imGuiKey (key : NamedKey) : key.imGuiKey.ctorIdx = key.ctorIdx + 1 := by
  cases key <;> rfl

/-- **No two keys are taken to one.** -/
theorem imGuiKey_injective : Function.Injective NamedKey.imGuiKey := by
  intro key key' h
  have hidx := congrArg ImGuiKey.ctorIdx h
  rw [ctorIdx_imGuiKey, ctorIdx_imGuiKey] at hidx
  rw [← NamedKey.ofNat_ctorIdx key, ← NamedKey.ofNat_ctorIdx key', Nat.succ.inj hidx]

theorem imGuiKey_ne_none (key : NamedKey) : key.imGuiKey ≠ .none := by
  intro h
  have hidx := congrArg ImGuiKey.ctorIdx h
  rw [ctorIdx_imGuiKey] at hidx
  exact Nat.succ_ne_zero _ hidx

/-- Numbers as ImGui gives them, one behind the other from 512 on. -/
def KeyCodes.named : KeyCodes where
  code key := if key = .none then 0 else Int32.ofNat (511 + key.ctorIdx)
  injective := by
    have hlt : ∀ key : ImGuiKey, key.ctorIdx < 118 := fun key => by cases key <;> decide
    have hne : ∀ key : ImGuiKey, Int32.ofNat (511 + key.ctorIdx) ≠ 0 := by
      intro key h
      rw [Int32.ofNat_eq_zero_iff (by have := hlt key; omega)] at h
      omega
    intro key key' h
    dsimp only at h
    split at h
    next hnone =>
      split at h
      next hnone' => rw [hnone, hnone']
      next => exact absurd h.symm (hne key')
    next =>
      split at h
      next => exact absurd h (hne key)
      next =>
        have hidx := congrArg Int32.toInt h
        rw [Int32.toInt_ofNat_of_lt (by have := hlt key; omega),
          Int32.toInt_ofNat_of_lt (by have := hlt key'; omega)] at hidx
        rw [← ImGuiKey.ofNat_ctorIdx key, ← ImGuiKey.ofNat_ctorIdx key']
        congr 1
        omega

/-! ## What the calls tell

  The last call for a key counts, so a packet with its calls overwrites what was told of this key
  and of the four modifiers, and leaves the other keys alone; calls for anything else change
  nothing. -/

/-- The last call for the key says that it is down. -/
def lastDown (code : Int32) (calls : List UiCall) : Bool :=
  calls.foldl (fun down call =>
    match call with
    | .addKeyEvent key pressed => if key = code then pressed else down
    | _ => down) false

/-- The last call for the modifier says that it is down. -/
def lastMod (mod : ImGuiMod) (calls : List UiCall) : Bool :=
  calls.foldl (fun down call =>
    match call with
    | .addModEvent other pressed => if other = mod then pressed else down
    | _ => down) false

theorem lastDown_keyCalls (code : Int32) (calls : List UiCall) (packet : KeyEvent) :
    lastDown code (calls ++ keyCalls packet) =
      if packet.key = code then packet.pressed else lastDown code calls := by
  rw [lastDown, List.foldl_append]
  rfl

theorem lastMod_keyCalls (mod : ImGuiMod) (calls : List UiCall) (packet : KeyEvent) :
    lastMod mod (calls ++ keyCalls packet) =
      match mod with
      | .ctrl => packet.ctrl
      | .shift => packet.shift
      | .alt => packet.alt
      | .super => packet.super := by
  rw [lastMod, List.foldl_append]
  cases mod <;> rfl

/-- Calls that are not about keys. -/
def NoKeys (calls : List UiCall) : Prop :=
  ∀ call ∈ calls, (∀ key down, call ≠ .addKeyEvent key down) ∧
    ∀ mod down, call ≠ .addModEvent mod down

theorem lastDown_append_noKeys (code : Int32) (calls : List UiCall) : ∀ {more : List UiCall},
    NoKeys more → lastDown code (calls ++ more) = lastDown code calls := by
  intro more hmore
  rw [lastDown, List.foldl_append, ← lastDown]
  generalize lastDown code calls = down
  induction more generalizing down with
  | nil => rfl
  | cons call more ih =>
    have hcall := (hmore call List.mem_cons_self).1
    rw [List.foldl_cons]
    rw [ih (fun c hc => hmore c (List.mem_cons_of_mem _ hc))]
    cases call <;> first | rfl | exact absurd rfl (hcall _ _)

theorem lastMod_append_noKeys (mod : ImGuiMod) (calls : List UiCall) : ∀ {more : List UiCall},
    NoKeys more → lastMod mod (calls ++ more) = lastMod mod calls := by
  intro more hmore
  rw [lastMod, List.foldl_append, ← lastMod]
  generalize lastMod mod calls = down
  induction more generalizing down with
  | nil => rfl
  | cons call more ih =>
    have hcall := (hmore call List.mem_cons_self).2
    rw [List.foldl_cons]
    rw [ih (fun c hc => hmore c (List.mem_cons_of_mem _ hc))]
    cases call <;> first | rfl | exact absurd rfl (hcall _ _)

/-- The calls tell the state of the keyboard: of every key with a name, and of every modifier. -/
structure Tells (codes : KeyCodes) (keys : Keyboard) (calls : List UiCall) : Prop where
  down : ∀ key : NamedKey, lastDown (codes.code key.imGuiKey) calls = keys (.named key)
  mods : ∀ mod : ImGuiMod, lastMod mod calls = keys.mod mod

namespace Tells

variable {codes : KeyCodes} {keys : Keyboard} {calls : List UiCall}

theorem init (codes : KeyCodes) : Tells codes (fun _ => false) [] where
  down := fun _ => rfl
  mods := fun mod => by cases mod <;> rfl

theorem append_noKeys (h : Tells codes keys calls) {more : List UiCall} (hmore : NoKeys more) :
    Tells codes keys (calls ++ more) where
  down := fun key => by rw [lastDown_append_noKeys _ _ hmore, h.down]
  mods := fun mod => by rw [lastMod_append_noKeys _ _ hmore, h.mods]

/-- A packet for a key whose state has just become `pressed`. -/
theorem sendKeyEvent (h : Tells codes keys calls) (key : GlfwKey) (pressed : Bool) :
    Tells codes (Function.update keys key pressed) (calls ++
      keyCalls (Nxdb.sendKeyEvent codes (Function.update keys key pressed) (keyToImGuiKey key)
        pressed)) where
  down named := by
    rw [lastDown_keyCalls]
    by_cases hkey : key = .named named
    · subst hkey
      rw [Function.update_self]
      exact if_pos rfl
    · -- the call is for another key, or for none
      have hcode : (keyToImGuiKey key) ≠ named.imGuiKey := by
        cases key with
        | named other =>
          intro heq
          exact hkey (congrArg GlfwKey.named (imGuiKey_injective heq))
        | other keycode => exact fun heq => imGuiKey_ne_none named heq.symm
      rw [Function.update_of_ne (Ne.symm hkey), ← h.down named]
      exact if_neg fun heq => hcode (codes.injective heq)
  mods mod := by
    rw [lastMod_keyCalls]
    cases mod <;> rfl

/-- **A stroke.**  The calls for what `keyCallback` sends tell the keyboard behind it. -/
theorem keyCallback (h : Tells codes keys calls) (key : GlfwKey) (action : KeyAction) :
    Tells codes (keys.stroke key action) (calls ++
      (Nxdb.keyCallback codes (keys.stroke key action) key action).flatMap keyCalls) := by
  cases action with
  | press =>
    have hstroke := h.sendKeyEvent key true
    rw [Nxdb.keyCallback, if_neg (by decide), List.flatMap_singleton]
    exact hstroke
  | release =>
    have hstroke := h.sendKeyEvent key false
    rw [Nxdb.keyCallback, if_neg (by decide), List.flatMap_singleton]
    exact hstroke
  | repeated =>
    -- the keyboard stays, and nothing is sent
    rw [Nxdb.keyCallback, if_pos (by decide), List.flatMap_nil, List.append_nil]
    exact h

end Tells

end Nxdb
