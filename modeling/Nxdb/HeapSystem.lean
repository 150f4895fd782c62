/-
  The whole system, with the draw lists of every client on a heap.

  `ByteSystem` keeps the draw lists of a client as values.  Here each client has the heap and the
  pointers of `ListMemory` beside it: in a step in which the client's program handles draw data, the
  function with pointers runs on the same bytes, and the step is not possible if it strays.

  `never_strays`: it never does.  Every run of the system is a run with the heaps, whichever addresses
  the allocators hand out, and in every state the heap of a client consists of the lists on its screen
  and their copies.  The runs are those of `ByteSystem`, with all that is assumed there.
-/
import Nxdb.ByteSystem
import Nxdb.ListMemory

namespace Nxdb

open Lib Hash Sysmodule.Raw

/-! ## The code

  A memory goes with each client by its index, and follows it through the events that add, remove
  and change clients (`remember`). -/

/-- The memory of a client, as far as `DrawData.cpp` uses it. -/
structure ListMemory where
  statics : DrawDataPointers
  heap : Heap ImDrawList

namespace ListMemory

/-- No list yet. -/
def init : ListMemory := ⟨DrawDataPointers.init, Heap.empty⟩

/-- A call of `handlePacket`: of the packet types only one touches the draw lists. -/
def handleCall (A : Allocator) (io : ClientIo) (call : Call) (m : ListMemory) : Option ListMemory :=
  if PacketType.ofCode call.type = some .drawData then
    (handlePackedDrawDataAt A io m.statics m.heap call.data 0).map fun r => ⟨r.1.1.2, r.1.2⟩
  else some m

/-- The loop body of the client's `run`. -/
def iterate (A : Allocator) (b : Peer) (rem : RecvResult) (texId : Nat) (m : ListMemory) :
    Option ListMemory := do
  let (_, call) ← b.down.receive .desktop rem
  match call with
  | none => some m
  | some call => m.handleCall A ⟨b.desktop.displaySize, texId⟩ call

/-- The heap is what the statics of the client own. -/
def Holds (b : Peer) (m : ListMemory) : Prop := Represents m.heap m.statics b.statics

end ListMemory

/-- The system, and the memories of its clients. -/
structure HeapSystem where
  system : ByteSystem
  memories : List ListMemory

namespace HeapSystem

/-- Nobody is connected. -/
def init : HeapSystem := ⟨ByteSystem.init, []⟩

variable (A : Allocator) (E : Setup)

/-- What an event is to the memories. -/
def remember (s : HeapSystem) : ByteEvent → Option (List ListMemory)
  | .connect _ _ => some (s.memories ++ [ListMemory.init])
  | .leave i => some (s.memories.eraseIdx i)
  | .iterate i rem texId => do
    let b ← s.system.mClients[i]?
    let m ← s.memories[i]?
    let m' ← m.iterate A b rem texId
    some (s.memories.set i m')
  | _ => some s.memories

/-- One event, and the same one on the heaps. -/
def step (s : HeapSystem) (e : ByteEvent) : Option HeapSystem := do
  let system ← s.system.step E e
  let memories ← s.remember A e
  some ⟨system, memories⟩

end HeapSystem

/-! ## What an event does to the draw lists

  Of all that can happen to a client one thing touches its draw lists, a packet of draw data that is
  handled; there `ListMemory` says that the heap goes along.  Everything else leaves the statics as
  they are, and with them the heap. -/

section

variable {A : Allocator} {E : Setup} {b b' : Peer} {m : ListMemory}

theorem Peer.statics_puts {packets : List DesktopPacket} (h : b.puts packets = some b') :
    b'.statics = b.statics := by
  obtain ⟨up, -, rfl⟩ := Option.map_eq_some_iff.mp h
  rfl

theorem Peer.statics_act {codes : KeyCodes} {widen : Widen} {action : DesktopAction}
    (h : b.act codes widen action = some b') : b'.statics = b.statics := by
  unfold Peer.act at h
  split at h
  next => exact absurd h (Option.some_ne_none b').symm
  next =>
    obtain ⟨⟨desktop, packets⟩, -, hputs⟩ := Option.bind_eq_some_iff.mp h
    show b'.statics = ({ b with desktop := desktop } : Peer).statics
    exact Peer.statics_puts hputs

theorem Peer.statics_serve {behind : Nat} {rem : RecvResult} {calls : List UiCall}
    (h : b.serve behind rem = some (b', calls)) : b'.statics = b.statics := by
  obtain ⟨⟨up, call⟩, -, h⟩ := Option.bind_eq_some_iff.mp h
  cases call with
  | none =>
    cases h
    rfl
  | some call =>
    obtain ⟨_, -, h⟩ := Option.bind_eq_some_iff.mp h
    cases h
    rfl

theorem Peer.statics_sends {packets : List Packet} (h : b.sends packets = some b') :
    b'.statics = b.statics := by
  obtain ⟨down, -, rfl⟩ := Option.map_eq_some_iff.mp h
  rfl

theorem Peer.statics_sendDrawData {atlas : FontAtlas} {out : List UInt8}
    (h : b.sendDrawData atlas out = some b') : b'.statics = b.statics := by
  obtain ⟨b₁, hsends, rfl⟩ := Option.map_eq_some_iff.mp h
  show b₁.statics = b.statics
  exact Peer.statics_sends hsends

/-- What leaves the draw lists alone leaves them on their heap. -/
theorem ListMemory.Holds.of_statics (h : ListMemory.Holds b m) (heq : b'.statics = b.statics) :
    ListMemory.Holds b' m := by
  rw [ListMemory.Holds, heq]
  exact h

/-- Only draw data changes what a client shows. -/
theorem Peer.statics_apply {io : ClientIo} {gl : Desktop.Raw.OpenGl} {behind : Nat} {st : DrawDataStatics}
    {call : Call} {effect : Desktop.Raw.Effect}
    (hcall : Desktop.handleCall io gl st behind call = some effect) :
    (PacketType.ofCode call.type ≠ some .drawData ∧
        ∀ b : Peer, (b.apply effect).statics = b.statics) ∨
      PacketType.ofCode call.type = some .drawData ∧
        ∃ r, unpackDrawData io call.data call.size st = some r ∧
          ∀ b : Peer, (b.apply effect).statics = r.st := by
  unfold Desktop.handleCall at hcall
  cases htype : PacketType.ofCode call.type with
  | none =>
    rw [htype] at hcall
    cases hcall
    exact Or.inl ⟨(Option.some_ne_none _).symm, fun _ => rfl⟩
  | some type =>
    rw [htype] at hcall
    cases type with
    | drawData =>
      right
      obtain ⟨d, hd, rfl⟩ := Option.map_eq_some_iff.mp hcall
      obtain ⟨r, hr, rfl⟩ := Option.map_eq_some_iff.mp hd
      exact ⟨rfl, r, hr, fun _ => rfl⟩
    | setClipboardText =>
      left
      obtain ⟨text, -, rfl⟩ := Option.map_eq_some_iff.mp hcall
      refine ⟨by simp, fun b => ?_⟩
      rw [Peer.apply]
      split
      · rfl
      · rfl
    | _ =>
      cases hcall
      exact Or.inl ⟨by simp, fun _ => rfl⟩

/-- **An iteration of a client.**  The function with pointers comes through where the one on values
    does, and the heap holds what the client shows. -/
theorem ListMemory.Holds.iterate (h : ListMemory.Holds b m) {gl : Desktop.Raw.OpenGl}
    {behind texId : Nat}
    {rem : RecvResult} (hstep : b.iterate gl behind rem texId = some b') :
    ∃ m', m.iterate A b rem texId = some m' ∧ ListMemory.Holds b' m' := by
  obtain ⟨⟨down, call⟩, hreceive, hstep⟩ := Option.bind_eq_some_iff.mp hstep
  rw [ListMemory.iterate, hreceive, Option.bind_eq_bind, Option.bind_some]
  cases call with
  | none =>
    cases hstep
    exact ⟨m, rfl, h⟩
  | some call =>
    obtain ⟨effect, heffect, rfl⟩ := Option.map_eq_some_iff.mp hstep
    show ∃ m', m.handleCall A ⟨b.desktop.displaySize, texId⟩ call = some m' ∧ _
    rcases Peer.statics_apply heffect with ⟨hother, hkeep⟩ | ⟨hdraw, r, hr, hstatics⟩
    · refine ⟨m, if_neg hother, h.of_statics ?_⟩
      rw [hkeep]
    · rw [handleCall, if_pos hdraw]
      rcases handlePackedDrawDataAt_step (A := A)
          ⟨⟨b.desktop.displaySize, texId⟩, call.data, call.size⟩ h with
        ⟨hnone, -⟩ | ⟨r', ptrs, heap, hr', hprog, hrep⟩
      · exact absurd (hr.symm.trans hnone) (Option.some_ne_none r)
      · obtain rfl : r = r' := Option.some.inj (hr.symm.trans hr')
        refine ⟨⟨ptrs, heap⟩, ?_, ?_⟩
        · rw [hprog]
          rfl
        · rw [ListMemory.Holds, hstatics]
          exact hrep

/-- What every client does with its own packets. -/
theorem ListMemory.forall₂_iterateClients {func : Peer → Option Peer}
    (hfunc : ∀ b b', func b = some b' → b'.statics = b.statics) {bs : List Peer}
    {ms : List ListMemory} (h : List.Forall₂ ListMemory.Holds bs ms) :
    ∀ {bs' : List Peer}, ByteSystem.iterateClients func bs = some bs' →
      List.Forall₂ ListMemory.Holds bs' ms := by
  induction h with
  | nil =>
    intro bs' hstep
    cases hstep
    exact List.Forall₂.nil
  | cons hbm _ ih =>
    intro bs' hstep
    obtain ⟨b', hb', hstep⟩ := Option.bind_eq_some_iff.mp hstep
    obtain ⟨bs₁, hbs₁, rfl⟩ := Option.map_eq_some_iff.mp hstep
    exact List.Forall₂.cons (hbm.of_statics (hfunc _ _ hb')) (ih hbs₁)

end

/-! ## The whole system

  `Tidy` relates the memories to the clients one by one; it is the relation of the simulation, and
  the system without heaps has the same steps. -/

namespace HeapSystem

variable {A : Allocator} {E : Setup}

/-- Every client's draw lists are on its heap. -/
def Tidy (s : HeapSystem) : Prop := List.Forall₂ ListMemory.Holds s.system.mClients s.memories

/-- **One event.**  What the system can do it can do with the heaps. -/
theorem Tidy.step {s : HeapSystem} (h : s.Tidy) {e : ByteEvent} {system : ByteSystem}
    (hstep : s.system.step E e = some system) :
    ∃ memories, s.step A E e = some ⟨system, memories⟩ ∧ Tidy ⟨system, memories⟩ := by
  suffices hmem : ∃ memories, s.remember A e = some memories ∧ Tidy ⟨system, memories⟩ by
    obtain ⟨memories, hremember, htidy⟩ := hmem
    refine ⟨memories, ?_, htidy⟩
    rw [HeapSystem.step, hstep, hremember]
    rfl
  -- only an iteration touches a heap; the other events leave the statics alone
  cases e with
  | connect clipboard mBuffer =>
    cases hstep
    -- a new program owns no lists
    have hnew : ListMemory.Holds (Peer.connect clipboard mBuffer) ListMemory.init := represents_init
    exact ⟨_, rfl, List.rel_append h (List.Forall₂.cons hnew List.Forall₂.nil)⟩
  | leave i =>
    rw [ByteSystem.step] at hstep
    split at hstep
    next =>
      cases hstep
      exact ⟨_, rfl, forall₂_eraseIdx h i⟩
    next => exact absurd hstep (Option.some_ne_none system).symm
  | act i action =>
    obtain ⟨b, hb, hstep⟩ := Option.bind_eq_some_iff.mp hstep
    obtain ⟨b', hact, hstep⟩ := Option.bind_eq_some_iff.mp hstep
    cases hstep
    obtain ⟨m, hm, hbm⟩ := forall₂_getElem? h hb
    exact ⟨_, rfl, forall₂_set_left h hm (hbm.of_statics (Peer.statics_act hact))⟩
  | serve i rem =>
    obtain ⟨b, hb, hstep⟩ := Option.bind_eq_some_iff.mp hstep
    obtain ⟨⟨b', calls⟩, hserve, hstep⟩ := Option.bind_eq_some_iff.mp hstep
    cases hstep
    obtain ⟨m, hm, hbm⟩ := forall₂_getElem? h hb
    exact ⟨_, rfl, forall₂_set_left h hm (hbm.of_statics (Peer.statics_serve hserve))⟩
  | copy text =>
    rw [ByteSystem.step, ByteSystem.setClipboardText] at hstep
    split at hstep
    next =>
      obtain ⟨bs, hbs, rfl⟩ := Option.map_eq_some_iff.mp hstep
      exact ⟨_, rfl, ListMemory.forall₂_iterateClients (fun _ _ => Peer.statics_sends) h hbs⟩
    next => exact absurd hstep (Option.some_ne_none system).symm
  | frame f =>
    rw [ByteSystem.step, ByteSystem.frame] at hstep
    split at hstep
    next =>
      cases hstep
      exact ⟨_, rfl, h⟩
    next =>
      obtain ⟨⟨loop, out⟩, -, hstep⟩ := Option.bind_eq_some_iff.mp hstep
      cases out with
      | none =>
        cases hstep
        exact ⟨_, rfl, h⟩
      | some out =>
        obtain ⟨bs, hbs, rfl⟩ := Option.map_eq_some_iff.mp hstep
        exact ⟨_, rfl,
          ListMemory.forall₂_iterateClients (fun _ _ => Peer.statics_sendDrawData) h hbs⟩
  | iterate i rem texId =>
    obtain ⟨b, hb, hstep⟩ := Option.bind_eq_some_iff.mp hstep
    obtain ⟨b', hiterate, hstep⟩ := Option.bind_eq_some_iff.mp hstep
    cases hstep
    obtain ⟨m, hm, hbm⟩ := forall₂_getElem? h hb
    obtain ⟨m', hm', hbm'⟩ := hbm.iterate (A := A) hiterate
    refine ⟨s.memories.set i m', ?_, forall₂_set h hbm' i⟩
    rw [remember, hb, hm, Option.bind_eq_bind, Option.bind_some, Option.bind_eq_bind,
      Option.bind_some, hm']
    rfl

/-- Step by step, with the same events on both sides. -/
theorem simulates (A : Allocator) (E : Setup) : Simulates (ByteSystem.step E) (step A E)
    (fun e => [e]) (fun e => [e]) fun s t => t.system = s ∧ t.Tidy where
  step := by
    rintro _ t e s' ⟨rfl, htidy⟩ hstep
    obtain ⟨memories, hnext, hnext'⟩ := htidy.step (A := A) hstep
    exact ⟨[e], ⟨s', memories⟩, run_cons.mpr ⟨_, hnext, rfl⟩, rfl, rfl, hnext'⟩

/-- **No client strays.**  Every run of the system, byte for byte, is a run in which every client
    works on its heap with pointers, whichever addresses the allocator hands out: no draw list is
    read, written or deleted after its deletion; and in the end the heap of each client consists of
    the lists on its screen and their copies, and of nothing else. -/
theorem never_strays (A : Allocator) (E : Setup) (events : List ByteEvent) (s : ByteSystem)
    (hrun : run (ByteSystem.step E) ByteSystem.init events = some s) :
    ∃ memories, run (step A E) init events = some ⟨s, memories⟩ ∧
      List.Forall₂ (fun (b : Peer) (m : ListMemory) => Represents m.heap m.statics b.statics)
        s.mClients memories := by
  have hinit : init.system = ByteSystem.init ∧ init.Tidy := ⟨rfl, List.Forall₂.nil⟩
  obtain ⟨events', ⟨_, memories⟩, hrun', hseen, rfl, htidy⟩ := (simulates A E).run events hinit hrun
  rw [List.flatMap_singleton', List.flatMap_singleton'] at hseen
  exact ⟨memories, hseen ▸ hrun', htidy⟩

/-- One triangle is on the screen: there is its list, and its copy. -/
theorem never_strays_firstFrame : ∃ s memories,
    run (ByteSystem.step ByteSystem.plain) ByteSystem.init ByteSystem.firstFrame = some s ∧
      run (step Allocator.above ByteSystem.plain) init ByteSystem.firstFrame = some ⟨s, memories⟩ ∧
      memories.map (fun m => m.heap.cells.length) = [2] ∧
      List.Forall₂ (fun (b : Peer) (m : ListMemory) => Represents m.heap m.statics b.statics)
        s.mClients memories := by
  have hcells : (run (step Allocator.above ByteSystem.plain) init ByteSystem.firstFrame).map
      (fun t => t.memories.map fun m => m.heap.cells.length) = some [2] := by decide +kernel
  have hsome : (run (ByteSystem.step ByteSystem.plain) ByteSystem.init
      ByteSystem.firstFrame).isSome = true := by decide +kernel
  obtain ⟨s, hs⟩ := Option.isSome_iff_exists.mp hsome
  obtain ⟨memories, hrun, htidy⟩ := never_strays Allocator.above ByteSystem.plain _ s hs
  rw [hrun] at hcells
  exact ⟨s, memories, hs, hrun, Option.some.inj hcells, htidy⟩

end HeapSystem

end Nxdb
