/-
  The positions of the mouse, and the display they are positions in.

  A tick sends the size of the window before a position it has seen with it, and the connection keeps
  the order.  So the sysmodule, which adds positions while it has one size after the other, is never
  told of one outside the size it has: `positions_inside`, which holds while packets are still on their
  way.  The invariant (`Placed`) is about what was sent: all of it, handled in order, would be inside,
  and would leave the sysmodule with the size that the desktop has noted (`SizeKnown`).

  The runs are those of `NetworkInput`: one desktop, on one connection that is never lost, and nothing
  that is sent in part.  A desktop that connects again to a sysmodule with another size, or a second
  desktop, is not among them.
-/
import Nxdb.NetworkInput

namespace Nxdb

open Lib Hash Sysmodule.Raw

variable {codes : KeyCodes} {widen : Widen}

/-! ## Sizes and positions

  Calls are read from left to right with the size that is set so far.  So what is inside with some
  calls handled is inside with more, and it is enough to know it of all that was sent. -/

/-- The display size behind some calls. -/
def sizeAfter (size : ImVec2) (calls : List UiCall) : ImVec2 :=
  calls.foldl (fun size call =>
    match call with
    | .displaySize x y => vecOf x y
    | _ => size) size

/-- Every position is added while the display size is one that it lies inside of. -/
def PositionsInside : ImVec2 → List UiCall → Prop
  | _, [] => True
  | _, .displaySize x y :: calls => PositionsInside (vecOf x y) calls
  | size, .addMousePosEvent x y :: calls => ¬Outside size (vecOf x y) ∧ PositionsInside size calls
  | size, _ :: calls => PositionsInside size calls

instance PositionsInside.decidable : ∀ (size : ImVec2) (calls : List UiCall),
    Decidable (PositionsInside size calls)
  | _, [] => isTrue trivial
  | size, call :: calls => by
    have := PositionsInside.decidable size calls
    cases call with
    | displaySize x y => exact PositionsInside.decidable (vecOf x y) calls
    | addMousePosEvent x y =>
      unfold PositionsInside
      infer_instance
    | _ => exact PositionsInside.decidable size calls

/-- More calls: inside the size the first ones leave ... -/
theorem positionsInside_append (more : List UiCall) : ∀ (calls : List UiCall) {size : ImVec2},
    PositionsInside size (calls ++ more) ↔
      PositionsInside size calls ∧ PositionsInside (sizeAfter size calls) more := by
  intro calls
  induction calls with
  | nil => exact fun {_} => (iff_of_eq (true_and _)).symm
  | cons call calls ih =>
    intro size
    cases call with
    | displaySize x y => exact ih
    | addMousePosEvent x y =>
      show (_ ∧ PositionsInside size (calls ++ more)) ↔ (_ ∧ _) ∧ _
      rw [ih, and_assoc]
      rfl
    | _ => exact ih

/-- ... which is where the others begin. -/
theorem sizeAfter_append (size : ImVec2) (calls more : List UiCall) :
    sizeAfter size (calls ++ more) = sizeAfter (sizeAfter size calls) more :=
  List.foldl_append

/-- Calls that are about neither. -/
def Elsewhere (calls : List UiCall) : Prop :=
  ∀ call ∈ calls, (∀ x y, call ≠ .displaySize x y) ∧ ∀ x y, call ≠ .addMousePosEvent x y

/-- Calls that are about neither sizes nor positions. -/
theorem Elsewhere.inside : ∀ {calls : List UiCall}, Elsewhere calls → ∀ size : ImVec2,
    PositionsInside size calls ∧ sizeAfter size calls = size := by
  intro calls
  induction calls with
  | nil => exact fun _ _ => ⟨trivial, rfl⟩
  | cons call calls ih =>
    intro h size
    have hcall := h call List.mem_cons_self
    have hrest := ih (fun c hc => h c (List.mem_cons_of_mem _ hc)) size
    cases call with
    | displaySize x y => exact absurd rfl (hcall.1 x y)
    | addMousePosEvent x y => exact absurd rfl (hcall.2 x y)
    | _ => exact hrest

/-- Packets that bring neither a size nor a position. -/
theorem elsewhere_flatMap (packets : List DesktopPacket)
    (h : ∀ p ∈ packets, (∀ size, p ≠ .displaySize size) ∧ ∀ e padding, p ≠ .mouse e padding) :
    Elsewhere (packets.flatMap DesktopPacket.uiCalls) := by
  intro call hcall
  obtain ⟨p, hp, hcall⟩ := List.mem_flatMap.mp hcall
  have hne := h p hp
  cases p with
  | displaySize size => exact absurd rfl (hne.1 size)
  | mouse e padding => exact absurd rfl (hne.2 e padding)
  | key packet padding =>
    simp only [DesktopPacket.uiCalls, keyCalls, List.mem_cons, List.not_mem_nil, or_false] at hcall
    rcases hcall with rfl | rfl | rfl | rfl | rfl <;> simp
  | _ => simp_all [DesktopPacket.uiCalls]

/-- A mouse packet with a position inside. -/
theorem inside_mouse {e : MouseEvent} {padding : Vector UInt8 3} {size : ImVec2}
    (hpos : e.pos.IsFloat) (hinside : ¬Outside size e.pos) :
    PositionsInside size (DesktopPacket.mouse e padding).uiCalls ∧
      sizeAfter size (DesktopPacket.mouse e padding).uiCalls = size := by
  have hrest : Elsewhere (((if e.wheelX ≠ 0 ∨ e.wheelY ≠ 0 then
      [InputEvent.mouseWheel e.wheelX e.wheelY] else []) ++
        if e.button ≠ -1 then [InputEvent.mouseButton e.button e.pressed] else []).map
          InputEvent.uiCall ++
          [.queueRerender]) := by
    intro call hcall
    rcases List.mem_append.mp hcall with hcall | hcall
    · obtain ⟨event, hevent, rfl⟩ := List.mem_map.mp hcall
      rcases List.mem_append.mp hevent with hevent | hevent
      · split at hevent
        · rw [List.mem_singleton.mp hevent]
          simp [InputEvent.uiCall]
        · exact absurd hevent List.not_mem_nil
      · split at hevent
        · rw [List.mem_singleton.mp hevent]
          simp [InputEvent.uiCall]
        · exact absurd hevent List.not_mem_nil
    · rw [List.mem_singleton.mp hcall]
      simp
  obtain ⟨hin, hsize⟩ := hrest.inside size
  refine ⟨⟨?_, hin⟩, hsize⟩
  rw [vecOf_floatWord hpos]
  exact hinside

/-- How the size at the sysmodule, with all packets handled, stands to what the desktop notes: it is
    the one noted; or the window had no area yet, and the sysmodule has the size it began with. -/
def SizeKnown (s : DesktopInput) (size : ImVec2) : Prop :=
  (s.displaySize = ⟨-1, -1⟩ ∧ s.sLastDisplaySize = ⟨0, 0⟩ ∧ size = ⟨1280, 720⟩) ∨
    (s.displaySize = s.sLastDisplaySize ∧
      (size = s.sLastDisplaySize ∨ (s.sLastDisplaySize = ⟨0, 0⟩ ∧ size = ⟨1280, 720⟩)))

/-- What is inside at the desktop is inside at the sysmodule. -/
theorem SizeKnown.inside {s : DesktopInput} {size pos : ImVec2} (h : SizeKnown s size)
    (hpos : ¬Outside s.displaySize pos) : ¬Outside size pos := by
  unfold Outside at hpos ⊢
  push Not at hpos ⊢
  obtain ⟨hx, hy, hwidth, hheight⟩ := hpos
  rcases h with ⟨hdisplay, -, -⟩ | ⟨hdisplay, rfl | ⟨hlast, rfl⟩⟩
  · -- nothing lies inside the size that ImGui begins with
    rw [hdisplay] at hwidth
    exact absurd (hx.trans hwidth) (by norm_num)
  · rw [hdisplay] at hwidth hheight
    exact ⟨hx, hy, hwidth, hheight⟩
  · rw [hdisplay, hlast] at hwidth hheight
    exact ⟨hx, hy, hwidth.trans (by norm_num), hheight.trans (by norm_num)⟩

/-- Packets of the mouse, all with the position of the cursor. -/
theorem inside_sendMouseEvent {size displaySize cursorPos : ImVec2} (button : Int32) (pressed : Bool)
    (wheelX wheelY : ℚ) (padding : Vector UInt8 3) (hpos : cursorPos.IsFloat)
    (hinside : ¬Outside displaySize cursorPos → ¬Outside size cursorPos) :
    let calls := ((sendMouseEvent displaySize cursorPos button pressed wheelX wheelY).map
      fun packet => DesktopPacket.mouse packet padding).flatMap DesktopPacket.uiCalls
    PositionsInside size calls ∧ sizeAfter size calls = size := by
  rw [sendMouseEvent]
  split
  next => exact ⟨trivial, rfl⟩
  next hin =>
    rw [List.map_singleton, List.flatMap_singleton]
    exact inside_mouse hpos (hinside hin)

/-- The positions are inside so far, and the size is known. -/
structure Placed (desktop : DesktopInput) (sent : List DesktopPacket) : Prop where
  inside : PositionsInside ⟨1280, 720⟩ (sent.flatMap DesktopPacket.uiCalls)
  known : SizeKnown desktop (sizeAfter ⟨1280, 720⟩ (sent.flatMap DesktopPacket.uiCalls))
  cursorPos : desktop.cursorPos.IsFloat

/-- More packets. -/
theorem Placed.append {desktop desktop' : DesktopInput} {sent packets : List DesktopPacket}
    (h : Placed desktop sent) (hpos : desktop'.cursorPos.IsFloat)
    (hinside : let size := sizeAfter ⟨1280, 720⟩ (sent.flatMap DesktopPacket.uiCalls)
      PositionsInside size (packets.flatMap DesktopPacket.uiCalls) ∧
        SizeKnown desktop' (sizeAfter size (packets.flatMap DesktopPacket.uiCalls))) :
    Placed desktop' (sent ++ packets) := by
  refine ⟨?_, ?_, hpos⟩
  · rw [List.flatMap_append, positionsInside_append]
    exact ⟨h.inside, hinside.1⟩
  · rw [List.flatMap_append, sizeAfter_append]
    exact hinside.2

/-- The size, where a tick sends it, is known behind the tick. -/
theorem SizeKnown.tick {s : DesktopInput} {size windowSize : ImVec2} (h : SizeKnown s size)
    (hsize : windowSize.IsFloat) (s' : DesktopInput) (hdisplay : s'.displaySize = windowSize)
    (hlast : s'.sLastDisplaySize = windowSize) :
    let sizes : List DesktopPacket :=
      if s.sLastDisplaySize.x ≠ windowSize.x ∨ s.sLastDisplaySize.y ≠ windowSize.y then
        [.displaySize windowSize]
      else []
    PositionsInside size (sizes.flatMap DesktopPacket.uiCalls) ∧
      SizeKnown s' (sizeAfter size (sizes.flatMap DesktopPacket.uiCalls)) := by
  by_cases hchanged : s.sLastDisplaySize.x ≠ windowSize.x ∨ s.sLastDisplaySize.y ≠ windowSize.y
  · simp only [if_pos hchanged, List.flatMap_singleton]
    refine ⟨trivial, Or.inr ⟨hdisplay.trans hlast.symm, Or.inl ?_⟩⟩
    show vecOf _ _ = _
    rw [vecOf_floatWord hsize, hlast]
  · -- the size is the one noted before
    simp only [if_neg hchanged, List.flatMap_nil]
    push Not at hchanged
    have hsame : s.sLastDisplaySize = windowSize := by
      cases hs : s.sLastDisplaySize
      rw [hs] at hchanged
      cases windowSize
      exact congrArg₂ ImVec2.mk hchanged.1 hchanged.2
    refine ⟨trivial, Or.inr ⟨hdisplay.trans hlast.symm, ?_⟩⟩
    rw [hlast, ← hsame]
    rcases h with ⟨-, hzero, hbegin⟩ | ⟨-, hcases⟩
    · exact Or.inr ⟨hzero, hbegin⟩
    · exact hcases

/-- **The step**: an action of the desktop keeps the invariant. -/
theorem Placed.acts {desktop desktop' : DesktopInput} {sent packets : List DesktopPacket}
    (h : Placed desktop sent) (hacts : DesktopInput.Acts codes widen desktop desktop' packets) :
    Placed desktop' (sent ++ packets) := by
  have hpos := (hacts.ok h.cursorPos).2
  have hcursor := h.cursorPos
  refine h.append hpos ?_
  have hknown := h.known
  generalize sizeAfter ⟨1280, 720⟩ (sent.flatMap DesktopPacket.uiCalls) = size at hknown ⊢
  cases hacts with
  | quiet opened cursorPos clipboard hkeep packets hpackets =>
    obtain ⟨hin, hsize⟩ := (elsewhere_flatMap packets fun p hp => by
      rcases hpackets p hp with rfl | rfl | ⟨c, rfl⟩ <;> simp).inside size
    exact ⟨hin, by rw [hsize]; exact hknown⟩
  | mouse button pressed wheelX wheelY padding hx hy =>
    obtain ⟨hin, hsize⟩ := inside_sendMouseEvent button pressed wheelX wheelY padding hcursor
      hknown.inside
    exact ⟨hin, by rw [hsize]; exact hknown⟩
  | key keycode action padding =>
    obtain ⟨hin, hsize⟩ := (elsewhere_flatMap ((keyCallback codes
      (desktop.keys.stroke keycode action) keycode action).map
        fun packet => DesktopPacket.key packet padding) fun p hp => by
      obtain ⟨packet, -, rfl⟩ := List.mem_map.mp hp
      simp).inside size
    exact ⟨hin, by rw [hsize]; exact hknown⟩
  | tick windowSize padding texts hopened hfloat htexts =>
    -- the size first, then a position seen with it, then a text
    dsimp only
    rw [List.flatMap_append, List.flatMap_append, positionsInside_append, positionsInside_append,
      sizeAfter_append, sizeAfter_append]
    obtain ⟨hin, hknown'⟩ := hknown.tick hfloat { desktop with
        displaySize := windowSize
        sLastDisplaySize := windowSize
        sLastCursorPos := desktop.cursorPos
        sLastClipboardStringHash := Clipboards.clipboardStringHash widen desktop.clipboard } rfl rfl
    generalize sizeAfter size _ = size' at hknown' ⊢
    have hmouse : PositionsInside size' ((if desktop.sLastCursorPos.x ≠ desktop.cursorPos.x ∨
          desktop.sLastCursorPos.y ≠ desktop.cursorPos.y then
        (sendMouseEvent windowSize desktop.cursorPos).map fun packet =>
          DesktopPacket.mouse packet padding else []).flatMap DesktopPacket.uiCalls) ∧
      sizeAfter size' ((if desktop.sLastCursorPos.x ≠ desktop.cursorPos.x ∨
          desktop.sLastCursorPos.y ≠ desktop.cursorPos.y then
        (sendMouseEvent windowSize desktop.cursorPos).map fun packet =>
          DesktopPacket.mouse packet padding else []).flatMap DesktopPacket.uiCalls) = size' := by
      split
      next => exact inside_sendMouseEvent (-1) false 0 0 padding hcursor fun hin => hknown'.inside hin
      next => exact ⟨trivial, rfl⟩
    obtain ⟨htext, hsize⟩ := (elsewhere_flatMap texts fun p hp => by
      obtain ⟨text, rfl, -⟩ := DesktopInput.mem_sendClipboard htexts hp
      simp).inside size'
    rw [hmouse.2]
    exact ⟨⟨hin, hmouse.1, htext⟩, by rw [hsize]; exact hknown'⟩

namespace InputRun

/-- **The mouse stays inside.**  In every run, also while packets are on their way, every position
    that the sysmodule has added lay inside the display size it had then. -/
theorem positions_inside (codes : KeyCodes) (widen : Widen) (behind : Nat) (clipboard : Option Text)
    (mBuffer : Mem) (moves : List InputMove) (s : InputRun)
    (hrun : run (step codes widen behind) (init clipboard mBuffer) moves = some s) :
    PositionsInside LoopStatics.init.displaySize s.calls := by
  obtain ⟨hplaced, handled, rest, h⟩ := run_desktop Placed
    ⟨trivial, Or.inl ⟨rfl, rfl, rfl⟩, ⟨isFloat_zero, isFloat_zero⟩⟩
    (fun _ _ _ _ hinv _ hacts => hinv.acts hacts) hrun
  have hinside := hplaced.inside
  rw [h.sent, List.flatMap_append, positionsInside_append, ← h.calls] at hinside
  exact hinside.1

/-- The window is made smaller, and the cursor goes from its right part into its left one. -/
def shrunk : List InputMove :=
  [.act .openWindow, .act (.tick ⟨1280, 720⟩ (Vector.replicate 3 0)), .act (.move ⟨1000, 16⟩),
    .act (.tick ⟨1280, 720⟩ (Vector.replicate 3 0)), .act (.tick ⟨640, 360⟩ (Vector.replicate 3 0)),
    .act (.move ⟨320, 16⟩), .act (.tick ⟨640, 360⟩ (Vector.replicate 3 0))]

/-- What the sysmodule is told for it: the size twice and two positions. -/
def shrunkBytes : List UInt8 :=
  wireAll (([.displaySize ⟨1280, 720⟩, .mouse ⟨⟨1000, 16⟩, -1, false, 0, 0⟩ (Vector.replicate 3 0),
    .displaySize ⟨640, 360⟩, .mouse ⟨⟨320, 16⟩, -1, false, 0, 0⟩ (Vector.replicate 3 0)] :
      List DesktopPacket).map DesktopPacket.wirePacket)

theorem positions_inside_shrunk : ∃ s,
    run (step KeyCodes.named widenU8 0) (init none fun _ => 0)
        (shrunk ++ [.iterate (.bytes shrunkBytes), .iterate .wouldBlock, .iterate .wouldBlock,
          .iterate .wouldBlock, .iterate .wouldBlock]) = some s ∧
      PositionsInside LoopStatics.init.displaySize s.calls ∧ s.calls.length = 8 := by
  have hall : (run (step KeyCodes.named widenU8 0) (init none fun _ => 0)
      (shrunk ++ [.iterate (.bytes shrunkBytes), .iterate .wouldBlock, .iterate .wouldBlock,
        .iterate .wouldBlock, .iterate .wouldBlock])).map (fun s => s.calls.length) = some 8 := by
    decide +kernel
  obtain ⟨s, hrun, hs⟩ := Option.map_eq_some_iff.mp hall
  exact ⟨s, hrun, positions_inside KeyCodes.named widenU8 0 none (fun _ => 0) _ s hrun, hs⟩

end InputRun

end Nxdb
