/-
  Messages over the frames.

  What one client writes with `AsyncWriteText` and `AsyncWriteData` is what another one is
  handed, a call for a call (`async_write_delivered`). A message may also come in fragments:
  the payloads are handed up one by one when the last has come. A control frame among the
  fragments takes along what is kept of the message: the bytes before it are answered or
  forgotten with it, and never handed up. While the fragments that have come are empty there
  are none to lose (`fragments_handed_up_iff`).
-/
import Bifrost.Ws.FrameRoundTrip

namespace Bifrost.Ws

open Bytes WebSocketFrame Receiver

/-! ## Whole messages -/

/-- A call of `AsyncWriteText` or `AsyncWriteData`. -/
inductive Write where
  | text (bytes : List UInt8)
  | data (bytes : List UInt8)
  deriving DecidableEq, Repr

namespace Write

def bytes : Write → List UInt8
  | .text bytes | .data bytes => bytes

def frame : Write → Frame
  | .text bytes => { fin := true, opcode := wsOpTextType, payload := bytes }
  | .data bytes => { fin := true, opcode := wsOpBinType, payload := bytes }

theorem opcode_lt (w : Write) : w.frame.opcode < 16 := by
  cases w with
  | text bytes => exact (by decide : wsOpTextType < 16)
  | data bytes => exact (by decide : wsOpBinType < 16)

/-- The call of the callback at the other end. -/
def received : Write → Output
  | .text bytes => .onReadText 0 bytes
  | .data bytes => .onReadData 0 bytes

end Write

/-- The bytes given to the TCP client. -/
def sentBytes (outs : List Output) : List UInt8 :=
  outs.flatMap fun
    | .send bytes => bytes
    | _ => []

namespace Session

variable {host : Host}

/-- `AsyncWriteText` and `AsyncWriteData`. -/
def asyncWrite (host : Host) (s : Session) : Write → Except Fault (Session × List Output)
  | .text bytes => s.sendWsFrame host bytes wsOpTextType
  | .data bytes => s.sendWsFrame host bytes wsOpBinType

/-- `SendWsFrame` writes a last frame with a masking key. -/
theorem send_encode (data : List UInt8) {opCode : UInt8} (h : opCode &&& 0x0f = opCode)
    (key : MaskingKey) :
    wsHeader data.length opCode ++ key.toList ++ masked key 0 data =
      Sent.encode
        { frame := { fin := true, opcode := opCode, payload := data }, key := some key } := by
  simp only [wsHeader, Sent.encode, Sent.lengthCode, Sent.keyCode, Sent.payloadCode, h, if_true,
    Option.isSome_some]
  split_ifs <;> simp only [List.cons_append, List.nil_append, List.append_assoc]

theorem asyncWrite_eq (s : Session) (w : Write) : ∃ (t : Session) (m : Sent),
    s.asyncWrite host w = .ok (t, [.send m.encode]) ∧ m.frame = w.frame := by
  cases w with
  | text bytes =>
      refine ⟨{ s with drawn := s.drawn + 1 },
        { frame := Write.frame (.text bytes), key := some (host.key s.drawn) }, ?_, rfl⟩
      rw [asyncWrite, sendWsFrame_eq, send_encode _ (by decide)]
      rfl
  | data bytes =>
      refine ⟨{ s with drawn := s.drawn + 1 },
        { frame := Write.frame (.data bytes), key := some (host.key s.drawn) }, ?_, rfl⟩
      rw [asyncWrite, sendWsFrame_eq, send_encode _ (by decide)]
      rfl

/-- The calls put the frames on the wire, one behind the other. -/
theorem asyncWrite_run (writes : List Write) : ∀ {s t : Session} {outs : List Output},
    Trace.runOut (asyncWrite host) s writes = .ok (t, outs) →
    ∃ sent : List Sent, sent.map Sent.frame = writes.map Write.frame ∧
      sentBytes outs = (sent.map Sent.encode).flatten := by
  induction writes with
  | nil =>
      intro s t outs h
      cases h
      exact ⟨[], rfl, rfl⟩
  | cons w writes ih =>
      intro s t outs h
      obtain ⟨s', out, rest, hok, hrun, rfl⟩ := Trace.runOut_cons_iff.mp h
      obtain ⟨s'', m, hok', hframe⟩ := @asyncWrite_eq host s w
      cases hok.symm.trans hok'
      obtain ⟨sent, hframes, hbytes⟩ := ih hrun
      refine ⟨m :: sent, ?_, ?_⟩
      · rw [List.map_cons, List.map_cons, hframe, hframes]
      · rw [List.map_cons, List.flatten_cons, ← hbytes]
        rfl

/-- A whole message is handed up at once. -/
theorem frameStep_write {s : Session} (hidle : s.recvBuffer = []) (w : Write) :
    ∃ t, s.frameStep host w.frame = .ok (t, [w.received]) ∧ t.recvBuffer = [] := by
  cases w with
  | text bytes =>
      refine ⟨{ s with lastOpCode := wsOpTextType, recvBuffer := [] }, ?_, rfl⟩
      simp [frameStep, handlePayload, dispatch, noteOpCode, Write.frame, Write.received, hidle,
        handleWsData, wsOpTextType, wsOpBinType, wsOpPingType, wsOpPongType, wsOpCloseType,
        wsOpContinueType, bind, Except.bind]
  | data bytes =>
      refine ⟨{ s with lastOpCode := wsOpBinType, recvBuffer := [] }, ?_, rfl⟩
      simp [frameStep, handlePayload, dispatch, noteOpCode, Write.frame, Write.received, hidle,
        handleWsData, wsOpTextType, wsOpBinType, wsOpPingType, wsOpPongType, wsOpCloseType,
        wsOpContinueType, bind, Except.bind]

theorem frameStep_writes (writes : List Write) : ∀ {s : Session}, s.recvBuffer = [] →
    ∃ t, Trace.runOut (frameStep host) s (writes.map Write.frame) =
      .ok (t, writes.map Write.received) := by
  induction writes with
  | nil => exact fun _ => ⟨_, rfl⟩
  | cons w writes ih =>
      intro s hidle
      obtain ⟨s', hok, hidle'⟩ := @frameStep_write host _ hidle w
      obtain ⟨t, hrun⟩ := ih hidle'
      exact ⟨t, Trace.runOut_cons_iff.mpr ⟨s', _, _, hok, hrun, rfl⟩⟩

end Session

/-- **What is written is what is read**: the messages one client writes, each short enough, are
    handed up at the other end of the connection one by one, as text or data, whatever pieces
    the bytes arrive in. -/
theorem async_write_delivered (host host' : Host) (s s' : Session) (hidle : s'.recvBuffer = [])
    {maxFrame maxPiece : Nat} (hfit : Fits maxFrame maxPiece) (writes : List Write)
    (hwrites : ∀ w ∈ writes, w.bytes.length + 14 ≤ maxFrame) {t : Session} {outs : List Output}
    (hsent : Trace.runOut (Session.asyncWrite host) s writes = .ok (t, outs))
    (pieces : List (List UInt8)) (hpieces : ∀ piece ∈ pieces, piece.length ≤ maxPiece)
    (hstream : pieces.flatten = sentBytes outs) :
    ∃ r', Trace.runOut (handleFrame host') { session := s' } pieces =
      .ok (r', writes.map Write.received) := by
  have hextra : extraLen = 10240 := rfl
  have hfit' : 2 * maxFrame + maxPiece + 2 * preReserveHeaderSize ≤ extraLen := hfit
  obtain ⟨sent, hframes, hbytes⟩ := Session.asyncWrite_run writes hsent
  have hwell : ∀ m ∈ sent, m.WellFormed ∧ m.encode.length ≤ maxFrame := by
    intro m hm
    have hmem : m.frame ∈ writes.map Write.frame :=
      hframes ▸ List.mem_map.mpr ⟨m, hm, rfl⟩
    obtain ⟨w, hw, hframe⟩ := List.mem_map.mp hmem
    have hlen := hwrites w hw
    have hpayload : m.frame.payload = w.bytes := by
      rw [← hframe]
      cases w <;> rfl
    have hencode := m.length_encode
    have hstart := m.start_le
    rw [hpayload] at hencode
    exact ⟨⟨hframe ▸ w.opcode_lt, by rw [hpayload]; omega⟩, by omega⟩
  have hstream' : pieces.flatten = (sent.map Sent.encode).flatten := hstream.trans hbytes
  obtain ⟨result, r', hrun, hok⟩ := calm_delivered host' s' hfit sent hwell pieces hpieces []
    (by rw [List.append_nil, hstream'])
  rw [hstream', Incremental.Decoder.drain_encoded sent
    fun m hm => Sent.reads_encode (hwell m hm).1, hframes] at hrun
  obtain ⟨t', hrun'⟩ := @Session.frameStep_writes host' writes _ hidle
  cases hrun.symm.trans hrun'
  exact ⟨r', hok⟩

theorem async_write_delivered_hi :
    ∃ r', Trace.runOut (handleFrame ⟨fun _ => #v[9, 9, 9, 9], fun _ => 0⟩) {}
      [[0x81, 0x82], [1, 2, 3], [4, 105, 107]] = .ok (r', [.onReadText 0 [104, 105]]) :=
  @async_write_delivered ⟨fun _ => #v[1, 2, 3, 4], fun _ => 0⟩
    ⟨fun _ => #v[9, 9, 9, 9], fun _ => 0⟩ {} {} rfl 20 100 (by decide) [.text [104, 105]]
    (by decide) { drawn := 1 } [.send [0x81, 0x82, 1, 2, 3, 4, 105, 107]] (by decide +kernel) _
    (by decide) rfl

/-! ## Fragments -/

/-- A frame of a message: the first of a text or of data, or one that goes on. -/
def Frame.isData (f : Frame) : Bool :=
  f.opcode = wsOpContinueType || f.opcode = wsOpTextType || f.opcode = wsOpBinType

/-- The bytes the callbacks are given. -/
def handedUp (outs : List Output) : List UInt8 :=
  outs.flatMap fun
    | .onReadText _ bytes | .onReadData _ bytes => bytes
    | _ => []

/-- The bytes of the messages in the frames. -/
def messageBytes (frames : List Frame) : List UInt8 :=
  frames.flatMap fun f => if f.isData then f.payload else []

/-- No control frame stands among the fragments of a message of which some bytes have come. -/
def Uninterrupted : List UInt8 → List Frame → Prop
  | _, [] => True
  | unfinished, f :: frames =>
    if f.isData then Uninterrupted (if f.fin then [] else unfinished ++ f.payload) frames
    else unfinished = [] ∧ Uninterrupted [] frames

instance Uninterrupted.decidable : ∀ unfinished frames, Decidable (Uninterrupted unfinished frames)
  | _, [] => isTrue trivial
  | unfinished, f :: frames =>
    have := Uninterrupted.decidable (if f.fin then [] else unfinished ++ f.payload) frames
    have := Uninterrupted.decidable [] frames
    inferInstanceAs (Decidable (if f.isData then _ else _ ∧ _))

section Fragments

variable {host : Host}

theorem handedUp_append (xs ys : List Output) : handedUp (xs ++ ys) = handedUp xs ++ handedUp ys :=
  List.flatMap_append

/-- The opcode a continuation takes over is one of a message. -/
def Session.Speaking (s : Session) : Prop :=
  s.lastOpCode = wsOpTextType ∨ s.lastOpCode = wsOpBinType

theorem handedUp_handleWsData {opCode : UInt8}
    (h : opCode = wsOpTextType ∨ opCode = wsOpBinType) (items : List (List UInt8)) :
    handedUp (items.flatMap fun data => Session.handleWsData data opCode) = items.flatten := by
  induction items with
  | nil => rfl
  | cons item items ih =>
      have hitem : handedUp (Session.handleWsData item opCode) = item := by
        rcases h with rfl | rfl
        · exact List.append_nil item
        · exact List.append_nil item
      rw [List.flatMap_cons, handedUp_append, hitem, ih, List.flatten_cons]

theorem dispatch_message {s : Session} {opCode : UInt8} (hs : s.Speaking)
    (hop : opCode = wsOpContinueType ∨ opCode = wsOpTextType ∨ opCode = wsOpBinType) :
    ∃ out, s.dispatch host opCode = .ok (s, out) ∧ handedUp out = s.recvBuffer.flatten := by
  rcases hop with rfl | hop
  · exact ⟨_, rfl, handedUp_handleWsData hs _⟩
  · refine ⟨_, ?_, handedUp_handleWsData hop _⟩
    rcases hop with rfl | rfl <;> rfl

theorem noteOpCode_cases (s : Session) (opCode : UInt8) :
    (s.noteOpCode opCode).recvBuffer = s.recvBuffer ∧
      (s.Speaking → (s.noteOpCode opCode).Speaking) := by
  rw [Session.noteOpCode]
  split
  · next hop => exact ⟨rfl, fun _ => hop⟩
  · exact ⟨rfl, id⟩

/-- A frame of a message hands up what has been kept, if it is the last. -/
theorem frameStep_data {s t : Session} {f : Frame} {out : List Output} (hdata : f.isData = true)
    (hs : s.Speaking) (hok : s.frameStep host f = .ok (t, out)) :
    t.Speaking ∧ handedUp out ++ t.recvBuffer.flatten = s.recvBuffer.flatten ++ f.payload ∧
      (f.fin = true → t.recvBuffer = []) ∧ (f.fin = false → out = []) := by
  obtain ⟨hkept, hspeaks⟩ := noteOpCode_cases s f.opcode
  have hop : f.opcode = wsOpContinueType ∨ f.opcode = wsOpTextType ∨ f.opcode = wsOpBinType := by
    simpa only [Frame.isData, Bool.or_eq_true, decide_eq_true_iff, or_assoc] using hdata
  rw [Session.frameStep, Session.handlePayload, hkept] at hok
  cases hfin : f.fin with
  | false =>
      rw [hfin, if_neg Bool.false_ne_true] at hok
      cases hok
      refine ⟨hspeaks hs, ?_, (fun h => by cases h), fun _ => rfl⟩
      show (s.recvBuffer ++ [f.payload]).flatten = _
      rw [List.flatten_append, List.flatten_singleton]
  | true =>
      obtain ⟨out', hdispatch, hhanded⟩ := @dispatch_message host
        { s.noteOpCode f.opcode with recvBuffer := s.recvBuffer ++ [f.payload] } _
        (hspeaks hs) hop
      rw [hfin, if_pos rfl, hdispatch] at hok
      cases hok
      refine ⟨hspeaks hs, ?_, (fun _ => rfl), fun h => by cases h⟩
      rw [hhanded]
      show (s.recvBuffer ++ [f.payload]).flatten ++ [] = _
      rw [List.append_nil, List.flatten_append, List.flatten_singleton]

/-- Nothing is given to a callback for data. -/
def Output.Silent : Output → Prop
  | .onReadText _ _ | .onReadData _ _ => False
  | _ => True

theorem handedUp_silent {outs : List Output} (h : ∀ o ∈ outs, o.Silent) : handedUp outs = [] := by
  refine List.flatMap_eq_nil_iff.mpr fun o ho => ?_
  have := h o ho
  cases o with
  | onReadText code text => exact this.elim
  | onReadData code data => exact this.elim
  | _ => rfl

theorem sendWsFrame_silent {s t : Session} {data : List UInt8} {opCode : UInt8}
    {out : List Output} (hok : s.sendWsFrame host data opCode = .ok (t, out)) :
    t.lastOpCode = s.lastOpCode ∧ ∀ o ∈ out, o.Silent := by
  rw [Session.sendWsFrame_eq] at hok
  cases hok
  exact ⟨rfl, List.forall_mem_singleton.mpr trivial⟩

theorem handleWsClose_silent {s t : Session} {data : List UInt8} {out : List Output}
    (hok : s.handleWsClose host data = .ok (t, out)) :
    t.lastOpCode = s.lastOpCode ∧ ∀ o ∈ out, o.Silent := by
  rw [Session.handleWsClose] at hok
  split at hok
  · cases hok
    exact ⟨rfl, List.forall_mem_nil _⟩
  · obtain ⟨⟨s', answer⟩, hanswer, hrest⟩ := bind_eq_ok.mp hok
    cases hrest
    obtain ⟨hop, hsilent⟩ : s'.lastOpCode = s.lastOpCode ∧ ∀ o ∈ answer, o.Silent := by
      rw [Session.answerClose] at hanswer
      split at hanswer
      · split at hanswer
        · exact sendWsFrame_silent hanswer
        · exact sendWsFrame_silent hanswer
      · exact sendWsFrame_silent hanswer
    refine ⟨hop, List.forall_mem_append.mpr ⟨hsilent, ?_⟩⟩
    exact List.forall_mem_cons.mpr ⟨trivial, List.forall_mem_singleton.mpr trivial⟩

theorem dispatch_silent {s t : Session} {f : Frame} {out : List Output}
    (hdata : f.isData = false) (hok : s.dispatch host f.opcode = .ok (t, out)) :
    t.lastOpCode = s.lastOpCode ∧ ∀ o ∈ out, o.Silent := by
  have hop : ¬ f.opcode = wsOpContinueType ∧
      ¬ (f.opcode = wsOpTextType ∨ f.opcode = wsOpBinType) := by
    simpa only [Frame.isData, Bool.or_eq_false_iff, decide_eq_false_iff_not, and_assoc, not_or]
      using hdata
  rw [Session.dispatch, if_neg hop.1, if_neg hop.2] at hok
  split_ifs at hok
  · exact Trace.runOut_invariant (I := fun t => t.lastOpCode = s.lastOpCode) (Q := fun _ => True)
      (fun u data u' out hu _ hstep => (sendWsFrame_silent hstep).imp_left (·.trans hu)) _ rfl
      (fun _ _ => trivial) hok
  · cases hok
    exact ⟨rfl, List.forall_mem_nil _⟩
  · exact Trace.runOut_invariant (I := fun t => t.lastOpCode = s.lastOpCode) (Q := fun _ => True)
      (fun u data u' out hu _ hstep => (handleWsClose_silent hstep).imp_left (·.trans hu)) _ rfl
      (fun _ _ => trivial) hok
  · cases hok
    exact ⟨rfl, List.forall_mem_nil _⟩

/-- Any other last frame throws away what has been kept. -/
theorem frameStep_control {s t : Session} {f : Frame} {out : List Output}
    (hdata : f.isData = false) (hfin : f.fin = true) (hs : s.Speaking)
    (hok : s.frameStep host f = .ok (t, out)) :
    t.Speaking ∧ handedUp out = [] ∧ t.recvBuffer = [] := by
  obtain ⟨-, hspeaks⟩ := noteOpCode_cases s f.opcode
  rw [Session.frameStep, Session.handlePayload, hfin, if_pos rfl] at hok
  obtain ⟨⟨s', out'⟩, hdispatch, hrest⟩ := bind_eq_ok.mp hok
  cases hrest
  obtain ⟨hop, hsilent⟩ := dispatch_silent hdata hdispatch
  refine ⟨?_, handedUp_silent hsilent, rfl⟩
  have := hspeaks hs
  rw [Session.Speaking] at this ⊢
  dsimp only at hop ⊢
  rwa [hop]

/-- Through any frames no more is handed up and kept than has come. -/
theorem handedUp_le (frames : List Frame) : ∀ {s t : Session} {outs : List Output}, s.Speaking →
    (∀ f ∈ frames, f.isData = true ∨ f.fin = true) →
    Trace.runOut (Session.frameStep host) s frames = .ok (t, outs) →
    (handedUp outs).length + t.recvBuffer.flatten.length ≤
      s.recvBuffer.flatten.length + (messageBytes frames).length := by
  induction frames with
  | nil =>
      intro s t outs _ _ hrun
      cases hrun
      exact Nat.le_of_eq (Nat.add_comm _ _)
  | cons f frames ih =>
      intro s t outs hs hframes hrun
      obtain ⟨hf, hframes⟩ := List.forall_mem_cons.mp hframes
      obtain ⟨s', out, rest, hok, hrun', rfl⟩ := Trace.runOut_cons_iff.mp hrun
      have hbytes : (messageBytes (f :: frames)).length =
          (if f.isData then f.payload else []).length + (messageBytes frames).length := by
        rw [messageBytes, List.flatMap_cons, List.length_append, messageBytes]
      rw [handedUp_append, List.length_append, hbytes]
      cases hdata : f.isData with
      | true =>
          obtain ⟨hs', hall, -⟩ := frameStep_data hdata hs hok
          have hlength := congrArg List.length hall
          rw [List.length_append, List.length_append] at hlength
          have := ih hs' hframes hrun'
          rw [if_pos rfl]
          omega
      | false =>
          obtain ⟨hs', hnone, hkept⟩ := frameStep_control hdata
            (hf.resolve_left (by rw [hdata]; exact Bool.false_ne_true)) hs hok
          have := ih hs' hframes hrun'
          rw [hkept, List.flatten_nil, List.length_nil] at this
          rw [hnone, if_neg Bool.false_ne_true, List.length_nil]
          omega

/-- **A fragmented message is handed up whole unless a control frame comes in between.** Of any
    frames of which the control frames are not fragments themselves, all bytes of messages are
    handed up in order, but for the fragments of a last message still to come, exactly when no
    control frame stands among the fragments of a message of which some bytes have come. -/
theorem fragments_handed_up_iff (host : Host) (frames : List Frame) : ∀ {s t : Session}
    {outs : List Output}, s.Speaking → (∀ f ∈ frames, f.isData = true ∨ f.fin = true) →
    Trace.runOut (Session.frameStep host) s frames = .ok (t, outs) →
    (handedUp outs ++ t.recvBuffer.flatten = s.recvBuffer.flatten ++ messageBytes frames ↔
      Uninterrupted s.recvBuffer.flatten frames) := by
  induction frames with
  | nil =>
      intro s t outs _ _ hrun
      cases hrun
      exact ⟨fun _ => trivial, fun _ => (List.append_nil _).symm⟩
  | cons f frames ih =>
      intro s t outs hs hframes hrun
      obtain ⟨hf, hframes⟩ := List.forall_mem_cons.mp hframes
      obtain ⟨s', out, rest, hok, hrun', rfl⟩ := Trace.runOut_cons_iff.mp hrun
      rw [handedUp_append, messageBytes, List.flatMap_cons, ← messageBytes, Uninterrupted]
      cases hdata : f.isData with
      | true =>
          obtain ⟨hs', hall, hlast, hmiddle⟩ := frameStep_data hdata hs hok
          have hkept : s'.recvBuffer.flatten =
              if f.fin then [] else s.recvBuffer.flatten ++ f.payload := by
            cases hfin : f.fin with
            | true => rw [hlast hfin, if_pos rfl, List.flatten_nil]
            | false => rw [← hall, hmiddle hfin, if_neg Bool.false_ne_true]; rfl
          rw [if_pos rfl, if_pos rfl, ← hkept, ← ih hs' hframes hrun', ← List.append_assoc, ← hall,
            List.append_assoc, List.append_assoc, List.append_cancel_left_eq]
      | false =>
          obtain ⟨hs', hnone, hkept⟩ := frameStep_control hdata
            (hf.resolve_left (by rw [hdata]; exact Bool.false_ne_true)) hs hok
          have hle := handedUp_le frames hs' hframes hrun'
          have hrest := ih hs' hframes hrun'
          rw [hkept, List.flatten_nil] at hle hrest
          rw [if_neg Bool.false_ne_true, if_neg Bool.false_ne_true, hnone, List.nil_append,
            List.nil_append, ← hrest]
          constructor
          · intro heq
            have hlength := congrArg List.length heq
            rw [List.length_append, List.length_append] at hlength
            have hnil : s.recvBuffer.flatten = [] := by
              rw [List.length_nil] at hle
              exact List.eq_nil_of_length_eq_zero (by omega)
            exact ⟨hnil, by rw [heq, hnil]⟩
          · rintro ⟨hnil, heq⟩
            rw [heq, hnil]

/-- A ping with a byte of its own after the first half of a text takes it along. -/
theorem fragments_handed_up_iff_ping : ∃ t outs,
    Trace.runOut (Session.frameStep ⟨fun _ => #v[1, 2, 3, 4], fun _ => 0⟩) {}
      [⟨false, wsOpTextType, [65]⟩, ⟨true, wsOpPingType, [7]⟩, ⟨true, wsOpContinueType, [66]⟩] =
        .ok (t, outs) ∧
    handedUp outs ++ t.recvBuffer.flatten ≠ [65, 66] := by
  obtain ⟨⟨t, outs⟩, hrun⟩ := Session.runOut_ok
    (@Session.frameStep_ok ⟨fun _ => #v[1, 2, 3, 4], fun _ => 0⟩)
    [⟨false, wsOpTextType, [65]⟩, ⟨true, wsOpPingType, [7]⟩, ⟨true, wsOpContinueType, [66]⟩] {}
  refine ⟨t, outs, hrun, fun heq => ?_⟩
  have hiff := fragments_handed_up_iff ⟨fun _ => #v[1, 2, 3, 4], fun _ => 0⟩ _ (.inl rfl)
    (by decide) hrun
  exact absurd (hiff.mp heq) (by decide)

end Fragments

end Bifrost.Ws
