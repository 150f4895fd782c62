/-
  Sending: the two `sendPacketImpl` functions.

  Both write the header with one call and the payload with one (the server) or in pieces of at most
  `0x3000` bytes (the desktop).  A call may accept fewer bytes than it was asked to; neither function
  looks at the count, and the bytes that were not accepted are never sent.  `send_iff`: a packet gets
  on the wire as a whole iff every call accepts everything, and the payload's length fits the `u32`
  of the header.
-/
import Nxdb.Wire

namespace Nxdb

open Lib

/-- What `write` or `send` returns: the number of bytes accepted, or `-1`. -/
inductive SendResult where
  | accepted (n : Nat)
  | failed
deriving DecidableEq

/-- A call of `write` or `send`: the bytes it was asked to send, and its result. -/
structure SendCall where
  request : List UInt8
  result : SendResult
deriving DecidableEq

namespace SendCall

/-- The bytes the call puts on the connection. -/
def put (c : SendCall) : List UInt8 :=
  match c.result with
  | .accepted n => c.request.take n
  | .failed => []

/-- The call succeeds; unless it was asked nothing, it accepts something. -/
def Succeeds (c : SendCall) : Prop :=
  ∃ n, c.result = .accepted n ∧ n ≤ c.request.length ∧ (c.request ≠ [] → 1 ≤ n)

/-- The call accepts all it was asked to send. -/
def AcceptsAll (c : SendCall) : Prop := c.result = .accepted c.request.length

end SendCall

/-- The bytes some calls put on the connection. -/
def onWire (calls : List SendCall) : List UInt8 := calls.flatMap SendCall.put

/-! ## The code

  A send is a list of calls with their results.  A `-1` is logged, or noted in `mState`, and the calls
  behind it are made all the same; a count is looked at by neither function. -/

namespace Sysmodule

/-- `Client::sendPacketImpl` of the server: the calls it makes, given their results. -/
def sendPacketImpl (type : PacketType) (buffer : List UInt8) :
    List SendResult → Option (List SendCall)
  | [written, sent] =>
    some [⟨headerBytes buffer.length type.code, written⟩, ⟨buffer, sent⟩]
  | _ => none

end Sysmodule

namespace Desktop

/-- The largest piece. -/
def maxSendSize : Nat := 0x3000

/-- The loop of `sendPacketImpl`: the next piece starts `sizeLeft` before the end, and what is left
    is less by all that was asked for. -/
def sendLoop (buffer : List UInt8) : Nat → List SendResult → Option (List SendCall)
  | 0, [] => some []
  | 0, _ :: _ => none
  | _ + 1, [] => none
  | sizeLeft + 1, ret :: rets =>
    let sendSize := if sizeLeft + 1 < maxSendSize then sizeLeft + 1 else maxSendSize
    let offset := buffer.length - (sizeLeft + 1)
    (sendLoop buffer (sizeLeft + 1 - sendSize) rets).map fun calls =>
      ⟨(buffer.drop offset).take sendSize, ret⟩ :: calls

/-- `Client::sendPacketImpl` of the desktop; a call that fails sets `mState` to `State_NoSocket`. -/
def sendPacketImpl (type : PacketType) (buffer : List UInt8) :
    List SendResult → Option (List SendCall)
  | [] => none
  | ret :: rets =>
    (sendLoop buffer buffer.length rets).map fun calls =>
      ⟨headerBytes buffer.length type.code, ret⟩ :: calls

end Desktop

/-- The two senders. -/
inductive Sender where
  | sysmodule
  | desktop

/-- `sendPacketImpl` of either. -/
def Sender.sendPacketImpl : Sender → PacketType → List UInt8 → List SendResult →
    Option (List SendCall)
  | sysmodule => Sysmodule.sendPacketImpl
  | desktop => Desktop.sendPacketImpl

/-! ## What the calls ask for

  All calls together ask for the header and the payload, each byte once and in order, whatever they
  return. -/

/-- The bytes some calls were asked to send. -/
def requested (calls : List SendCall) : List UInt8 := calls.flatMap SendCall.request

/-- The lengths of the pieces the desktop sends a payload in. -/
def Desktop.pieceSizes (size : Nat) : List Nat :=
  List.replicate (size / Desktop.maxSendSize) Desktop.maxSendSize ++
    if size % Desktop.maxSendSize = 0 then [] else [size % Desktop.maxSendSize]

/-- The next piece: it is not empty, not longer than what is left, and the first of the pieces. -/
theorem Desktop.pieceSizes_next {size : Nat} (hpos : 0 < size) :
    ∃ sendSize, (if size < maxSendSize then size else maxSendSize) = sendSize ∧
      0 < sendSize ∧ sendSize ≤ size ∧ pieceSizes size = sendSize :: pieceSizes (size - sendSize) := by
  by_cases hlast : size < maxSendSize
  · refine ⟨size, if_pos hlast, hpos, Nat.le_refl _, ?_⟩
    rw [pieceSizes, Nat.div_eq_of_lt hlast, Nat.mod_eq_of_lt hlast, if_neg (by omega), Nat.sub_self]
    rfl
  · have hmax : 0 < maxSendSize := by decide
    have hle : maxSendSize ≤ size := Nat.le_of_not_lt hlast
    refine ⟨maxSendSize, if_neg hlast, hmax, hle, ?_⟩
    rw [pieceSizes, pieceSizes, Nat.div_eq_sub_div hmax hle, Nat.mod_eq_sub_mod hle,
      List.replicate_succ, List.cons_append]

/-- The loop makes one call for each piece of the rest of the buffer, in order and without gaps. -/
theorem calls_sendLoop (buffer : List UInt8) :
    ∀ (rets : List SendResult) {sizeLeft : Nat} {calls : List SendCall},
      sizeLeft ≤ buffer.length → Desktop.sendLoop buffer sizeLeft rets = some calls →
      calls.map SendCall.result = rets ∧
        calls.map (fun c => c.request.length) = Desktop.pieceSizes sizeLeft ∧
        requested calls = buffer.drop (buffer.length - sizeLeft) := by
  intro rets
  induction rets with
  | nil =>
    intro sizeLeft calls _ h
    cases sizeLeft with
    | zero =>
      cases h
      rw [Nat.sub_zero, List.drop_length]
      exact ⟨rfl, rfl, rfl⟩
    | succ _ => exact absurd h (Option.some_ne_none calls).symm
  | cons ret rets ih =>
    intro sizeLeft calls hle h
    cases sizeLeft with
    | zero => exact absurd h (Option.some_ne_none calls).symm
    | succ sizeLeft =>
      obtain ⟨rest, hrest, rfl⟩ := Option.map_eq_some_iff.mp h
      obtain ⟨sendSize, hsend, hpos, hmax, hpieces⟩ :=
        Desktop.pieceSizes_next (Nat.succ_pos sizeLeft)
      rw [hsend] at hrest ⊢
      obtain ⟨hresults, hsizes, hasked⟩ := ih (by omega) hrest
      refine ⟨?_, ?_, ?_⟩
      · rw [List.map_cons, hresults]
      · rw [List.map_cons, hsizes, List.length_take, List.length_drop, Nat.min_eq_left (by omega)]
        exact hpieces.symm
      · -- the next piece starts where this one ends
        have hnext : buffer.length - (sizeLeft + 1 - sendSize) =
            buffer.length - (sizeLeft + 1) + sendSize := by omega
        show (buffer.drop (buffer.length - (sizeLeft + 1))).take _ ++ requested rest = _
        rw [hasked, hnext, ← List.drop_drop, List.take_append_drop]

/-- How many bytes each call is asked to send, for a payload of some length. -/
def Sender.requestSizes (sender : Sender) (size : Nat) : List Nat :=
  packetHeaderSize ::
    match sender with
    | sysmodule => [size]
    | desktop => Desktop.pieceSizes size

/-- **Both functions ask for the header and the payload**, each byte once and in order. -/
theorem calls_sendPacketImpl {sender : Sender} {type : PacketType} {buffer : List UInt8}
    {rets : List SendResult} {calls : List SendCall}
    (h : sender.sendPacketImpl type buffer rets = some calls) :
    calls.map SendCall.result = rets ∧
      calls.map (fun c => c.request.length) = sender.requestSizes buffer.length ∧
      requested calls = headerBytes buffer.length type.code ++ buffer := by
  cases sender with
  | sysmodule =>
    replace h : Sysmodule.sendPacketImpl type buffer rets = some calls := h
    rw [Sysmodule.sendPacketImpl.eq_def] at h
    split at h
    next =>
      cases h
      refine ⟨rfl, rfl, ?_⟩
      show headerBytes buffer.length type.code ++ (buffer ++ []) = _
      rw [List.append_nil]
    next => exact absurd h (Option.some_ne_none calls).symm
  | desktop =>
    replace h : Desktop.sendPacketImpl type buffer rets = some calls := h
    cases rets with
    | nil => exact absurd h (Option.some_ne_none calls).symm
    | cons ret rets =>
      obtain ⟨rest, hrest, rfl⟩ := Option.map_eq_some_iff.mp h
      obtain ⟨hresults, hsizes, hasked⟩ := calls_sendLoop buffer rets (Nat.le_refl _) hrest
      rw [Nat.sub_self, List.drop_zero] at hasked
      refine ⟨?_, ?_, ?_⟩
      · rw [List.map_cons, hresults]
      · rw [List.map_cons, hsizes]
        rfl
      · show headerBytes buffer.length type.code ++ requested rest = _
        rw [hasked]

/-! ## What gets on the wire

  A call puts a prefix of what it was asked for on the wire.  Bytes are only lost, never made up
  for, so there are as many as there should be iff every call has accepted all; then they are the
  right ones. -/

/-- A call that accepts all puts all on the wire ... -/
theorem SendCall.put_of_acceptsAll {c : SendCall} (h : c.AcceptsAll) : c.put = c.request := by
  rw [put, h]
  exact List.take_length

/-- ... and so do all calls of a send. -/
theorem onWire_of_acceptsAll {calls : List SendCall} (h : ∀ c ∈ calls, c.AcceptsAll) :
    onWire calls = requested calls := by
  rw [onWire, requested, List.flatMap_def, List.flatMap_def]
  congr 1
  exact List.map_congr_left fun c hc => c.put_of_acceptsAll (h c hc)

/-- A successful call puts at most the bytes it was asked for, and all of them only if it accepts
    them all. -/
theorem SendCall.Succeeds.length_put {c : SendCall} (h : c.Succeeds) :
    c.put.length ≤ c.request.length ∧ (c.put.length = c.request.length → c.AcceptsAll) := by
  obtain ⟨n, hn, hle, -⟩ := h
  have hlen : c.put.length = n := by
    rw [put, hn]
    show (c.request.take n).length = n
    rw [List.length_take]
    omega
  rw [hlen]
  exact ⟨hle, fun heq => by rw [AcceptsAll, hn, heq]⟩

/-- Bytes are only lost: if as many arrive as were asked for, every call accepted all. -/
theorem acceptsAll_of_length {calls : List SendCall} (h : ∀ c ∈ calls, c.Succeeds) :
    (onWire calls).length ≤ (requested calls).length ∧
      ((onWire calls).length = (requested calls).length → ∀ c ∈ calls, c.AcceptsAll) := by
  induction calls with
  | nil => exact ⟨Nat.le_refl _, fun _ _ h => absurd h List.not_mem_nil⟩
  | cons c calls ih =>
    obtain ⟨hle, hall⟩ := (h c List.mem_cons_self).length_put
    obtain ⟨hle', hall'⟩ := ih fun d hd => h d (List.mem_cons_of_mem _ hd)
    have hwire : (onWire (c :: calls)).length = c.put.length + (onWire calls).length := by
      rw [onWire, List.flatMap_cons, List.length_append]
      rfl
    have hreq : (requested (c :: calls)).length = c.request.length + (requested calls).length := by
      rw [requested, List.flatMap_cons, List.length_append]
      rfl
    rw [hwire, hreq]
    refine ⟨Nat.add_le_add hle hle', fun heq d hd => ?_⟩
    rcases List.mem_cons.mp hd with rfl | hd
    · exact hall (by omega)
    · exact hall' (by omega) d hd

/-- The bytes are a header of this type and of the payload's length, followed by the payload. -/
def WholePacket (type : PacketType) (buffer bytes : List UInt8) : Prop :=
  ∃ header, header.length = packetHeaderSize ∧ headerSize header = buffer.length ∧
    headerType header = type.code ∧ bytes = header ++ buffer

/-- A type fits into its four bytes. -/
theorem PacketType.code_lt (type : PacketType) : type.code < 2 ^ 32 := by
  cases type <;> decide

/-- Every call accepts all it was asked to send iff the results are the lengths of the pieces. -/
theorem acceptsAll_iff {sender : Sender} {type : PacketType} {buffer : List UInt8}
    {rets : List SendResult} {calls : List SendCall}
    (h : sender.sendPacketImpl type buffer rets = some calls) :
    (∀ c ∈ calls, c.AcceptsAll) ↔
      rets = (sender.requestSizes buffer.length).map SendResult.accepted := by
  obtain ⟨hresults, hsizes, -⟩ := calls_sendPacketImpl h
  rw [← hresults, ← hsizes, List.map_map, List.map_inj_left]
  rfl

/-- **Sending puts the whole packet on the wire**: for both functions, every type and every payload,
    and all counts with which every call succeeds, iff the payload is shorter than 4 GiB and every
    call accepts all it was asked to send. -/
theorem send_iff (sender : Sender) (type : PacketType) (buffer : List UInt8)
    (rets : List SendResult) (calls : List SendCall)
    (hcalls : sender.sendPacketImpl type buffer rets = some calls)
    (hok : ∀ c ∈ calls, c.Succeeds) :
    WholePacket type buffer (onWire calls) ↔
      buffer.length < 2 ^ 32 ∧
        rets = (sender.requestSizes buffer.length).map SendResult.accepted := by
  obtain ⟨-, -, hreq⟩ := calls_sendPacketImpl hcalls
  rw [← acceptsAll_iff hcalls]
  constructor
  · -- as many bytes arrive as were asked for, so none was lost
    rintro ⟨header, hlen, hsize, -, hwire⟩
    have hall : ∀ c ∈ calls, c.AcceptsAll := by
      refine (acceptsAll_of_length hok).2 ?_
      rw [hwire, hreq, List.length_append, List.length_append, hlen, length_headerBytes]
    refine ⟨?_, hall⟩
    have heq : headerBytes buffer.length type.code = header := by
      rw [onWire_of_acceptsAll hall, hreq] at hwire
      exact (List.append_inj hwire (by rw [length_headerBytes, hlen])).1
    rw [← hsize]
    exact headerSize_lt header
  · rintro ⟨hlt, hall⟩
    have hsize : headerSize (headerBytes buffer.length type.code ++ []) = buffer.length :=
      headerSize_headerBytes hlt []
    have htype : headerType (headerBytes buffer.length type.code ++ []) = type.code :=
      headerType_headerBytes type.code_lt []
    rw [List.append_nil] at hsize htype
    exact ⟨headerBytes buffer.length type.code, length_headerBytes _ _, hsize, htype,
      (onWire_of_acceptsAll hall).trans hreq⟩

/-- The desktop's clipboard text, accepted as a whole. -/
theorem send_iff_accepted : ∃ calls,
    Sender.desktop.sendPacketImpl .setClipboardText [104, 105, 0] [.accepted 8, .accepted 3] =
      some calls ∧
    WholePacket .setClipboardText [104, 105, 0] (onWire calls) := by
  refine ⟨_, rfl, (send_iff .desktop .setClipboardText [104, 105, 0] [.accepted 8, .accepted 3]
    _ rfl ?_).mpr ⟨by decide, by decide⟩⟩
  intro c hc
  rcases List.mem_cons.mp hc with rfl | hc
  · exact ⟨8, rfl, by decide, fun _ => by decide⟩
  · rw [List.mem_singleton.mp hc]
    exact ⟨3, rfl, by decide, fun _ => by decide⟩

/-- With both functions, a text of which `send` accepts two bytes of three. -/
theorem send_fails : ∃ calls,
    Sysmodule.sendPacketImpl .setClipboardText [104, 105, 0] [.accepted 8, .accepted 2] =
        some calls ∧
      Desktop.sendPacketImpl .setClipboardText [104, 105, 0] [.accepted 8, .accepted 2] =
        some calls ∧
      (∀ c ∈ calls, c.Succeeds) ∧
      ¬ WholePacket .setClipboardText [104, 105, 0] (onWire calls) := by
  refine ⟨[⟨headerBytes 3 PacketType.setClipboardText.code, .accepted 8⟩,
    ⟨[104, 105, 0], .accepted 2⟩], rfl, rfl, fun c hc => ?_, ?_⟩
  · rcases List.mem_cons.mp hc with rfl | hc
    · exact ⟨8, rfl, by decide, fun _ => by decide⟩
    · rw [List.mem_singleton.mp hc]
      exact ⟨2, rfl, by decide, fun _ => by decide⟩
  · -- ten bytes arrive of eleven
    rintro ⟨header, hlen, -, -, hwire⟩
    have hten := congrArg List.length hwire
    rw [List.length_append, hlen] at hten
    exact absurd hten (by decide)

end Nxdb
