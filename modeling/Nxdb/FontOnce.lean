/-
  The font texture of a connection: once, and directly behind the first draw data.

  `mHasSentFontTexture` is a member of the entry in `mClients`, which is copied when the client is
  accepted and when the vector grows or shrinks.  Each entry keeps the flag of the connection it
  belongs to, and the flag says of every entry what has been sent on its connection so far
  (`FontServer.Inv`): nothing but clipboard texts, or the first draw data with the font texture
  behind it.  `font_once` reads the law for all connections, those that have ended included, off the
  invariant, and what it means at the other end: a client that handles its packets in order has called
  `handlePackedDrawData` before `loadFontTextureRGBA32`.

  1. Program: `accept`, `handleClients` and `iterateClients` with the entries of `mClients` as
     values that are copied; `frame` is `render` with the copied texts before it.
  2. Specification: what was sent on a connection is `Unsent` or `Sent`, and `handlePacket` is what
     the desktop makes of it.
  3. The invariant says it with the flag (`Flagged`), so that it can be carried from one entry to
     its copy.
-/
import Nxdb.ServerLoop
import Nxdb.ImGuiLoop
import Nxdb.Lib.Run

namespace Nxdb

open Lib

/-! ## The server

  The entries of `mClients` with the flag, and beside them the packets that were sent, each with the
  number of its connection.  The loop over the clients is that of `ServerLoop`: where it erases an
  entry that is not the last, it reads one that is not there, and the run ends. -/

/-- An entry of `mClients`, and the number of its connection. -/
structure FontClient extends Sysmodule.Client where
  mHasSentFontTexture : Bool
  connection : Nat

/-- The server and its render loop; the connections there have been, and the types of the packets the
    render loop has sent, each with the number of its connection. -/
structure FontServer where
  loop : LoopStatics
  mClients : List FontClient
  connections : Nat
  sent : List (Nat × PacketType)

/-- What the server does. -/
inductive FontEvent where
  /-- A pass of `Server::run`: a client is accepted or not, and what the clients meet; the packets that
      are handled and reach the render loop. -/
  | pass (e : Sysmodule.Encounter) (handled : List ClientPacket)
  /-- The render loop: texts are copied in the windows, and the frame is rendered. -/
  | frame (copied : Nat) (f : Frame)

/-- A round of the loop over the clients, as `Sysmodule.Visit.round`. -/
def FontClient.round (v : Sysmodule.Meeting × FontClient) : (Sysmodule.Meeting × FontClient) × Bool :=
  let r := Sysmodule.Visit.round ⟨v.1, v.2.toClient⟩
  ((v.1, { v.2 with toClient := r.1.client }), r.2)

namespace FontServer

/-- Nobody is connected, and nothing was sent. -/
def init : FontServer := ⟨LoopStatics.init, [], 0, []⟩

/-- `Client client(this)`, `accept`, `push_back`. -/
def accept (s : FontServer) : Option (Int × Mem × Int) → FontServer
  | none => s
  | some (mFd, mBuffer, now) =>
    { s with
      mClients := s.mClients ++ [⟨Sysmodule.Client.accepted mFd mBuffer now, false, s.connections⟩]
      connections := s.connections + 1 }

/-- The loop over the clients; `none` when it reads an element that is no longer there, as it does
    when a client is removed that is not the last. -/
def handleClients (s : FontServer) (meetings : List Sysmodule.Meeting) : Option FontServer :=
  if meetings.length = s.mClients.length then
    (rangeFor FontClient.round s.mClients.length 0 (meetings.zip s.mClients)).2.map fun vs =>
      { s with mClients := vs.map Prod.snd }
  else none

/-- `Server::iterateClients`: what the function makes of a client, and the packets it sends to it. -/
def iterateClients (s : FontServer) (func : FontClient → FontClient × List PacketType) : FontServer :=
  { s with
    mClients := s.mClients.map fun client => (func client).1
    sent := s.sent ++ s.mClients.flatMap fun client =>
      (func client).2.map fun type => (client.connection, type) }

/-- `Platform_SetClipboardTextFn`. -/
def copyText (s : FontServer) : FontServer :=
  s.iterateClients fun client => (client, [.setClipboardText])

/-- A text is copied so many times. -/
def copyTexts (s : FontServer) : Nat → FontServer
  | 0 => s
  | copied + 1 => s.copyText.copyTexts copied

/-- The draw data for a client, and the font texture if it has not had it. -/
def sendDrawData (font out : List UInt8) (client : FontClient) : FontClient × List PacketType :=
  ({ client with mHasSentFontTexture := true },
    (sendFrame font client.mHasSentFontTexture out).map Packet.type)

/-- A round of the loop of `runImguiLoop`. -/
def frame (P : Platform) (font : List UInt8) (s : FontServer) (copied : Nat) (f : Frame) :
    Option FontServer :=
  if s.mClients.isEmpty then some s
  else
    (renderDrawData P f.mouseCursor f.data s.loop).map fun r =>
      match r.2 with
      | none => { s.copyTexts copied with loop := r.1 }
      | some out => { (s.copyTexts copied).iterateClients (sendDrawData font out) with loop := r.1 }

/-- One event. -/
def step (P : Platform) (font : List UInt8) (s : FontServer) : FontEvent → Option FontServer
  | .pass e handled =>
    ((s.accept e.accepted).handleClients e.meetings).map fun s =>
      { s with loop := handled.foldl Server.handlePacket s.loop }
  | .frame copied f => s.frame P font copied f

/-- The types of the packets sent on a connection. -/
def log (s : FontServer) (n : Nat) : List PacketType :=
  (s.sent.filter fun p => decide (p.1 = n)).map Prod.snd

/-! ## The law

  `Unsent`, `Sent` and `Flagged` are about the types of the packets of one connection.  What
  `render` sends turns the first into the second (`Flagged.sendFrame`), and what else is sent keeps
  both. -/

/-- No draw data and no font texture. -/
def Unsent (log : List PacketType) : Prop := .drawData ∉ log ∧ .fontTexture ∉ log

/-- One font texture, directly behind the first draw data. -/
def Sent (log : List PacketType) : Prop :=
  ∃ pre post, log = pre ++ .drawData :: .fontTexture :: post ∧ Unsent pre ∧ .fontTexture ∉ post

/-- What `mHasSentFontTexture` says of a connection. -/
def Flagged (mHasSentFontTexture : Bool) (log : List PacketType) : Prop :=
  if mHasSentFontTexture then Sent log else Unsent log

/-- Texts behind texts. -/
theorem Unsent.append {xs ys : List PacketType} (hxs : Unsent xs) (hys : Unsent ys) :
    Unsent (xs ++ ys) :=
  ⟨fun h => (List.mem_append.mp h).elim hxs.1 hys.1, fun h => (List.mem_append.mp h).elim hxs.2 hys.2⟩

/-- Behind the font texture there is no other. -/
theorem Sent.append {xs ys : List PacketType} (hxs : Sent xs) (hys : .fontTexture ∉ ys) :
    Sent (xs ++ ys) := by
  obtain ⟨pre, post, rfl, hpre, hpost⟩ := hxs
  refine ⟨pre, post ++ ys, by simp, hpre, fun h => ?_⟩
  exact (List.mem_append.mp h).elim hpost hys

/-- Whatever the flag is, the law holds. -/
theorem Flagged.law {b : Bool} {log : List PacketType} (h : Flagged b log) : Unsent log ∨ Sent log := by
  cases b with
  | true => exact Or.inr h
  | false => exact Or.inl h

/-- A clipboard text changes nothing. -/
theorem Flagged.text {b : Bool} {log : List PacketType} (h : Flagged b log) :
    Flagged b (log ++ [.setClipboardText]) := by
  cases b with
  | true => exact Sent.append h (by decide)
  | false => exact Unsent.append h ⟨by decide, by decide⟩

/-- **Draw data**, for a client with the flag and for one without. -/
theorem Flagged.sendFrame {b : Bool} {log : List PacketType} (h : Flagged b log)
    (font out : List UInt8) : Sent (log ++ (sendFrame font b out).map Packet.type) := by
  cases b with
  | true =>
    refine Sent.append h ?_
    show PacketType.fontTexture ∉ [PacketType.drawData]
    decide
  | false => exact ⟨log, [], rfl, h, List.not_mem_nil⟩

/-! ## The invariant

  That the log of one connection is what its entry was sent needs the entries to be of different
  connections; so the invariant says this as well.  `iterateClients` is treated once, for any
  function that keeps flag and packets in agreement (`Inv.iterateClients`). -/

/-- No two entries are of one connection, the flags are right, and all connections obey the law. -/
structure Inv (s : FontServer) : Prop where
  nodup : (s.mClients.map FontClient.connection).Nodup
  used : ∀ c ∈ s.mClients, c.connection < s.connections
  unused : ∀ n, s.connections ≤ n → s.log n = []
  flagged : ∀ c ∈ s.mClients, Flagged c.mHasSentFontTexture (s.log c.connection)
  law : ∀ n, Unsent (s.log n) ∨ Sent (s.log n)

theorem Inv.init : FontServer.init.Inv where
  nodup := List.nodup_nil
  used _ h := absurd h List.not_mem_nil
  unused _ _ := rfl
  flagged _ h := absurd h List.not_mem_nil
  law _ := Or.inl ⟨List.not_mem_nil, List.not_mem_nil⟩

/-- What is sent to the clients, seen on a connection without an entry. -/
theorem filter_flatMap_of_not_mem {cs : List FontClient} {g : FontClient → List PacketType} {n : Nat}
    (hn : n ∉ cs.map FontClient.connection) :
    (cs.flatMap fun c => (g c).map fun t => (c.connection, t)).filter
      (fun p => decide (p.1 = n)) = [] := by
  rw [List.filter_eq_nil_iff]
  intro p hp
  obtain ⟨c, hc, hpc⟩ := List.mem_flatMap.mp hp
  obtain ⟨t, -, rfl⟩ := List.mem_map.mp hpc
  rw [decide_eq_true_iff]
  rintro rfl
  exact hn (List.mem_map_of_mem hc)

/-- And on the connection of an entry. -/
theorem filter_flatMap_of_mem {g : FontClient → List PacketType} {c : FontClient}
    {cs : List FontClient} : (cs.map FontClient.connection).Nodup → c ∈ cs →
    ((cs.flatMap fun c => (g c).map fun t => (c.connection, t)).filter
      (fun p => decide (p.1 = c.connection))).map Prod.snd = g c := by
  induction cs with
  | nil => exact fun _ h => absurd h List.not_mem_nil
  | cons d cs ih =>
    intro hnodup hc
    rw [List.map_cons, List.nodup_cons] at hnodup
    rw [List.flatMap_cons, List.filter_append, List.map_append]
    rcases List.mem_cons.mp hc with rfl | hc
    · rw [filter_flatMap_of_not_mem hnodup.1, List.map_nil, List.append_nil, List.filter_map,
        List.map_map, List.filter_eq_self.mpr (by simp)]
      exact List.map_id' _
    · have hne : d.connection ≠ c.connection := fun h => hnodup.1 (h ▸ List.mem_map_of_mem hc)
      have hnone : ((g d).map fun t => (d.connection, t)).filter
          (fun p => decide (p.1 = c.connection)) = [] := by
        rw [List.filter_eq_nil_iff]
        intro p hp
        obtain ⟨t, -, rfl⟩ := List.mem_map.mp hp
        simpa using hne
      rw [hnone, List.map_nil, List.nil_append]
      exact ih hnodup.2 hc

/-- **`iterateClients` keeps the invariant**, if what the function sends and what it makes of the flag
    agree. -/
theorem Inv.iterateClients {s : FontServer} (hs : s.Inv)
    {func : FontClient → FontClient × List PacketType}
    (hconnection : ∀ c, (func c).1.connection = c.connection)
    (hflagged : ∀ c log, Flagged c.mHasSentFontTexture log →
      Flagged (func c).1.mHasSentFontTexture (log ++ (func c).2)) :
    (s.iterateClients func).Inv := by
  have hmap : (s.iterateClients func).mClients.map FontClient.connection =
      s.mClients.map FontClient.connection := by
    show (s.mClients.map fun c => (func c).1).map FontClient.connection = _
    rw [List.map_map]
    exact List.map_congr_left fun c _ => hconnection c
  have hlog : ∀ n, (s.iterateClients func).log n = s.log n ++
      (((s.mClients.flatMap fun c => (func c).2.map fun t => (c.connection, t)).filter
        fun p => decide (p.1 = n)).map Prod.snd) := by
    intro n
    rw [log, log, FontServer.iterateClients, List.filter_append, List.map_append]
  -- the connections differ, so a client finds its own packets in the log and no others
  have hself : ∀ c ∈ s.mClients, (s.iterateClients func).log c.connection =
      s.log c.connection ++ (func c).2 := by
    intro c hc
    rw [hlog, filter_flatMap_of_mem (g := fun c => (func c).2) hs.nodup hc]
  have hother : ∀ n, n ∉ s.mClients.map FontClient.connection →
      (s.iterateClients func).log n = s.log n := by
    intro n hn
    rw [hlog, filter_flatMap_of_not_mem (g := fun c => (func c).2) hn, List.map_nil,
      List.append_nil]
  constructor
  · rw [hmap]
    exact hs.nodup
  · intro c' hc'
    obtain ⟨c, hc, rfl⟩ := List.mem_map.mp hc'
    rw [hconnection]
    exact hs.used c hc
  · intro n hn
    rw [hother n fun hmem => ?_]
    · exact hs.unused n hn
    · obtain ⟨c, hc, rfl⟩ := List.mem_map.mp hmem
      exact Nat.not_lt_of_le hn (hs.used c hc)
  · intro c' hc'
    obtain ⟨c, hc, rfl⟩ := List.mem_map.mp hc'
    rw [hconnection, hself c hc]
    exact hflagged c _ (hs.flagged c hc)
  · intro n
    by_cases hn : n ∈ s.mClients.map FontClient.connection
    · obtain ⟨c, hc, rfl⟩ := List.mem_map.mp hn
      rw [hself c hc]
      exact (hflagged c _ (hs.flagged c hc)).law
    · rw [hother n hn]
      exact hs.law n

/-- Texts are neither draw data nor font textures. -/
theorem Inv.copyTexts (copied : Nat) : ∀ {s : FontServer}, s.Inv → (s.copyTexts copied).Inv := by
  induction copied with
  | zero => exact fun hs => hs
  | succ copied ih =>
    exact fun hs => ih (hs.iterateClients (fun _ => rfl) fun _ _ h => h.text)

/-- The loop variables are not among what the invariant is about. -/
theorem Inv.withLoop {s : FontServer} (hs : s.Inv) (loop : LoopStatics) :
    ({ s with loop := loop } : FontServer).Inv :=
  ⟨hs.nodup, hs.used, hs.unused, hs.flagged, hs.law⟩

/-- A frame: draw data for everyone, and the font texture for those without the flag. -/
theorem Inv.frame {P : Platform} {font : List UInt8} {s s' : FontServer} {copied : Nat} {f : Frame}
    (hs : s.Inv) (h : s.frame P font copied f = some s') : s'.Inv := by
  unfold FontServer.frame at h
  split at h
  next => exact Option.some.inj h ▸ hs
  next =>
    obtain ⟨⟨loop, out⟩, -, rfl⟩ := Option.map_eq_some_iff.mp h
    have hcopied := hs.copyTexts copied
    cases out with
    | none => exact hcopied.withLoop loop
    | some out =>
      refine Inv.withLoop (hcopied.iterateClients (fun _ => rfl) fun c log hc => ?_) loop
      exact hc.sendFrame font out

/-- A new connection has a number of its own, on which nothing has been sent. -/
theorem Inv.accept {s : FontServer} (hs : s.Inv) (accepted : Option (Int × Mem × Int)) :
    (s.accept accepted).Inv := by
  rcases accepted with _ | ⟨mFd, mBuffer, now⟩
  · exact hs
  have hmem : ∀ c ∈ (s.accept (some (mFd, mBuffer, now))).mClients,
      c ∈ s.mClients ∨ c.connection = s.connections ∧ c.mHasSentFontTexture = false := by
    intro c hc
    rcases List.mem_append.mp hc with hc | hc
    · exact Or.inl hc
    · rw [List.mem_singleton.mp hc]
      exact Or.inr ⟨rfl, rfl⟩
  constructor
  · show ((s.mClients ++ [_]).map FontClient.connection).Nodup
    rw [List.map_append]
    refine hs.nodup.append (List.nodup_singleton _) (List.disjoint_singleton.mpr fun hold => ?_)
    obtain ⟨c, hc, heq⟩ := List.mem_map.mp hold
    exact Nat.ne_of_lt (hs.used c hc) heq
  · intro c hc
    rcases hmem c hc with hc | ⟨heq, -⟩
    · exact Nat.lt_succ_of_lt (hs.used c hc)
    · rw [heq]
      exact Nat.lt_succ_self _
  · intro n hn
    exact hs.unused n (Nat.le_of_succ_le hn)
  · intro c hc
    rcases hmem c hc with hc | ⟨heq, hflag⟩
    · exact hs.flagged c hc
    · rw [hflag, heq]
      -- the number is a new one: its log is empty, as the flag says
      have hnil : (s.accept (some (mFd, mBuffer, now))).log s.connections = [] :=
        hs.unused _ (Nat.le_refl _)
      rw [hnil]
      exact ⟨List.not_mem_nil, List.not_mem_nil⟩
  · exact hs.law

/-- What `handleEvent` and the loop leave of an entry. -/
def FontClient.key (c : FontClient) : Bool × Nat := (c.mHasSentFontTexture, c.connection)

/-- The clients that are left are as they were. -/
theorem Inv.handleClients {s s' : FontServer} {meetings : List Sysmodule.Meeting} (hs : s.Inv)
    (h : s.handleClients meetings = some s') : s'.Inv := by
  unfold FontServer.handleClients at h
  split at h
  next hlen =>
    obtain ⟨vs, hvs, rfl⟩ := Option.map_eq_some_iff.mp h
    have hsub := rangeFor_sublist (f := FontClient.round)
      (g := fun v => FontClient.key v.2) (fun _ => rfl) _ _ hvs
    rw [Sysmodule.Server.map_zip_snd hlen FontClient.key] at hsub
    have hmem : ∀ c ∈ vs.map Prod.snd, ∃ d ∈ s.mClients,
        d.mHasSentFontTexture = c.mHasSentFontTexture ∧ d.connection = c.connection := by
      intro c hc
      obtain ⟨v, hv, rfl⟩ := List.mem_map.mp hc
      obtain ⟨d, hd, hkey⟩ := List.mem_map.mp
        (hsub.subset (List.mem_map_of_mem (f := fun v => FontClient.key v.2) hv))
      exact ⟨d, hd, congrArg Prod.fst hkey, congrArg Prod.snd hkey⟩
    constructor
    · have hconnections := hsub.map Prod.snd
      rw [List.map_map, List.map_map] at hconnections
      show ((vs.map Prod.snd).map FontClient.connection).Nodup
      rw [List.map_map]
      exact hconnections.nodup hs.nodup
    · intro c hc
      obtain ⟨d, hd, -, heq⟩ := hmem c hc
      exact heq ▸ hs.used d hd
    · exact hs.unused
    · intro c hc
      obtain ⟨d, hd, hflag, heq⟩ := hmem c hc
      rw [← hflag, ← heq]
      exact hs.flagged d hd
    · exact hs.law
  next => exact absurd h (Option.some_ne_none s').symm

/-- **The step.** -/
theorem Inv.step {P : Platform} {font : List UInt8} {s s' : FontServer} {e : FontEvent} (hs : s.Inv)
    (h : s.step P font e = some s') : s'.Inv := by
  cases e with
  | pass e handled =>
    obtain ⟨s₁, hs₁, rfl⟩ := Option.map_eq_some_iff.mp h
    exact ((hs.accept e.accepted).handleClients hs₁).withLoop _
  | frame copied f => exact hs.frame h

/-! ## The desktop

  At the other end the law is all that counts: a client that handles packets in the order of the log
  comes to the draw data before it comes to the font. -/

/-- `Client::handlePacket` of the desktop, as far as the renderer goes: whether `handlePackedDrawData`
    has been called, `none` when a font texture is loaded before it has. -/
def handlePacket (drawn : Bool) : PacketType → Option Bool
  | .drawData => some true
  | .fontTexture => if drawn then some drawn else none
  | _ => some drawn

/-- Packets that are neither draw data nor a font texture. -/
theorem run_handlePacket_unsent {log : List PacketType} (h : Unsent log) (drawn : Bool) :
    run handlePacket drawn log = some drawn := by
  induction log with
  | nil => rfl
  | cons type log ih =>
    have hrest : Unsent log :=
      ⟨fun hmem => h.1 (List.mem_cons_of_mem _ hmem), fun hmem => h.2 (List.mem_cons_of_mem _ hmem)⟩
    have hhead : handlePacket drawn type = some drawn := by
      cases type with
      | drawData => exact absurd List.mem_cons_self h.1
      | fontTexture => exact absurd List.mem_cons_self h.2
      | _ => rfl
    exact run_cons.mpr ⟨drawn, hhead, ih hrest⟩

/-- Once there has been draw data, every packet can be handled. -/
theorem run_handlePacket_drawn (log : List PacketType) : run handlePacket true log = some true := by
  induction log with
  | nil => rfl
  | cons type log ih =>
    have hhead : handlePacket true type = some true := by cases type <;> rfl
    exact run_cons.mpr ⟨true, hhead, ih⟩

/-- Under the law the desktop never loads a font texture too early. -/
theorem run_handlePacket_law {log : List PacketType} (h : Unsent log ∨ Sent log) :
    ∃ drawn, run handlePacket false log = some drawn := by
  rcases h with h | ⟨pre, post, rfl, hpre, -⟩
  · exact ⟨false, run_handlePacket_unsent h false⟩
  · refine ⟨true, ?_⟩
    rw [run_append, run_handlePacket_unsent hpre, Option.bind_some]
    exact run_handlePacket_drawn (.drawData :: .fontTexture :: post)

/-! ## The theorem -/

/-- **Font texture, once.**  In every run of the server, on every connection: neither draw data nor a
    font texture has been sent, or exactly one font texture, directly behind the first draw data.  And
    a client that has handled any number of the packets, in order, has not loaded a font texture before
    the first draw data. -/
theorem font_once {P : Platform} {font : List UInt8} {events : List FontEvent} {s : FontServer}
    (hrun : run (step P font) FontServer.init events = some s) (n : Nat) :
    (Unsent (s.log n) ∨ Sent (s.log n)) ∧
      ∀ handled, handled <+: s.log n → ∃ drawn, run handlePacket false handled = some drawn := by
  have hinv : s.Inv := run_invariant (fun _ _ _ hs h => Inv.step hs h) events Inv.init hrun
  refine ⟨hinv.law n, fun handled hpre => ?_⟩
  obtain ⟨drawn, hall⟩ := run_handlePacket_law (hinv.law n)
  exact run_prefix hall hpre

/-- One client is sent a frame, a second joins, a text is copied, and both are sent the next one. -/
def twoClients : List FontEvent :=
  let waits : Sysmodule.Meeting := ⟨0, 0, .wouldBlock⟩
  [.pass ⟨some (5, fun _ => 0, 0), [waits]⟩ [.hello], .frame 0 (triangles [1] one_fits),
   .pass ⟨some (6, fun _ => 0, 0), [waits, waits]⟩ [.hello], .frame 1 (triangles [2] one_fits)]

/-- The law holds of the run of two clients, which is sent a texture on each connection. -/
theorem font_twoClients :
    ∃ s, run (step Platform.lp64 []) FontServer.init twoClients = some s ∧
      s.log 0 = [.drawData, .fontTexture, .setClipboardText, .drawData] ∧
      s.log 1 = [.setClipboardText, .drawData, .fontTexture] ∧
      ∀ n, Unsent (s.log n) ∨ Sent (s.log n) := by
  have hlogs : (run (step Platform.lp64 []) FontServer.init twoClients).map
      (fun s => (s.log 0, s.log 1)) =
      some ([.drawData, .fontTexture, .setClipboardText, .drawData],
        [.setClipboardText, .drawData, .fontTexture]) := by decide +kernel
  obtain ⟨s, hrun, heq⟩ := Option.map_eq_some_iff.mp hlogs
  exact ⟨s, hrun, congrArg Prod.fst heq, congrArg Prod.snd heq, fun n => (font_once hrun n).1⟩

end FontServer

end Nxdb
