/-
  `HandleFrame` does what the frames in the byte stream say, however the stream is cut.

  Through any calls it hands up what `frameStep` makes of the frames that `frames` finds in
  all the bytes together (`handleFrame_run`). It goes through as long as the buffer does not
  copy bytes over themselves and no frame with a hostile length has been reached. The
  length of such a frame does away with the client at once, or from some number of bytes on
  (`Killed`); before that nothing comes out any more.
-/
import Bifrost.Ws.WebSocketSession

namespace Bifrost.Ws

open Bytes WebSocketFrame

/-! ## A frame -/

namespace Session

variable {host : Host}

theorem sendWsFrame_eq (s : Session) (data : List UInt8) (opCode : UInt8) :
    s.sendWsFrame host data opCode = .ok ({ s with drawn := s.drawn + 1 },
      [.send (wsHeader data.length opCode ++ (host.key s.drawn).toList ++
        masked (host.key s.drawn) 0 data)]) := by
  rw [sendWsFrame, maskBytes_eq (Nat.le_refl _), List.take_length, List.drop_length,
    List.append_nil]
  rfl

/-- Steps that always complete make up a run that does. -/
theorem runOut_ok {σ ε ω φ : Type} {step : σ → ε → Except φ (σ × List ω)}
    (h : ∀ s e, ∃ r, step s e = .ok r) (es : List ε) :
    ∀ s, ∃ r, Trace.runOut step s es = .ok r := by
  induction es with
  | nil => exact fun s => ⟨_, rfl⟩
  | cons e es ih =>
      intro s
      obtain ⟨⟨s', out⟩, hok⟩ := h s e
      obtain ⟨⟨t, rest⟩, hrun⟩ := ih s'
      exact ⟨_, Trace.runOut_cons_iff.mpr ⟨s', out, rest, hok, hrun, rfl⟩⟩

theorem handleWsClose_ok (s : Session) (data : List UInt8) :
    ∃ r, s.handleWsClose host data = .ok r := by
  rw [handleWsClose]
  split
  · exact ⟨_, rfl⟩
  · obtain ⟨r, hanswer⟩ : ∃ r, s.answerClose host data = .ok r := by
      unfold answerClose
      split
      · split
        · exact ⟨_, sendWsFrame_eq _ _ _⟩
        · exact ⟨_, sendWsFrame_eq _ _ _⟩
      · exact ⟨_, sendWsFrame_eq _ _ _⟩
    rw [hanswer]
    exact ⟨_, rfl⟩

theorem dispatch_ok (s : Session) (opCode : UInt8) : ∃ r, s.dispatch host opCode = .ok r := by
  rw [dispatch]
  split_ifs
  · exact runOut_ok (fun s data => ⟨_, sendWsFrame_eq s data _⟩) _ _
  · exact ⟨_, rfl⟩
  · exact runOut_ok handleWsClose_ok _ _
  · exact ⟨_, rfl⟩
  · exact ⟨_, rfl⟩
  · exact ⟨_, rfl⟩

theorem handlePayload_ok (s : Session) (fin : Bool) (opCode : UInt8) (payload : List UInt8) :
    ∃ r, s.handlePayload host fin opCode payload = .ok r := by
  rw [handlePayload]
  split
  · obtain ⟨⟨s', out⟩, hok⟩ := @dispatch_ok host
      { s with recvBuffer := s.recvBuffer ++ [payload] } opCode
    rw [hok]
    exact ⟨_, rfl⟩
  · exact ⟨_, rfl⟩

/-- A frame never fails. -/
theorem frameStep_ok (s : Session) (frame : Frame) : ∃ r, s.frameStep host frame = .ok r :=
  handlePayload_ok _ _ _ _

end Session

namespace Receiver

section Handling

variable {host : Host} {r : Receiver} {bytes : List UInt8}

theorem lowInt_natCast {n : Nat} (h : n < 2 ^ 31) : lowInt n = n := by
  rw [lowInt, BitVec.toInt_ofInt, Int.bmod_eq_of_le (by omega) (by omega)]

/-- The payload goes through a buffer of its own. -/
theorem item_bytes {payload tail : List UInt8} (hsmall : payload.length + 2 * extraLen < 2 ^ 31) :
    ∃ new item, DataBuffer.new (sizeOf (payload.length + 1024)) = .ok new ∧
      new.appendData (payload ++ tail) (sizeOf payload.length) = .ok item ∧
      item.bytes = payload := by
  have hextra : extraLen = 10240 := rfl
  have hreserve : preReserveHeaderSize = 200 := rfl
  have hsize : sizeOf ((payload.length : Int) + 1024) = payload.length + 1024 := by
    rw [sizeOf]
    omega
  have hnew : DataBuffer.new (payload.length + 1024) = .ok (.make (payload.length + 1024)) := by
    rw [DataBuffer.new, if_neg (by omega), if_neg (by omega)]
  have hholds := @DataBuffer.holds_make (payload.length + 1024) (by omega) (by omega)
  have hlen : payload.length ≤ (payload ++ tail).length := by
    rw [List.length_append]
    exact Nat.le_add_right _ _
  rw [hsize, hnew, sizeOf_natCast (by omega)]
  rcases DataBuffer.appendData_holds hholds hlen (by rw [List.length_nil]; omega) with
    ⟨hover, -⟩ | ⟨-, item, hok, hitem, -⟩
  · refine absurd hover (DataBuffer.not_overlapping hholds ?_)
    show 2 * 0 + payload.length + 2 * preReserveHeaderSize ≤ payload.length + 1024
    omega
  · refine ⟨_, item, rfl, hok, ?_⟩
    rw [hitem.bytes, List.nil_append, List.take_left]

/-- A frame that has been parsed does what it says, and leaves what lies behind it. -/
theorem handleParsed_whole {frame : Frame} {used : Nat} (h : Whole r.frame frame used bytes)
    (hle : used ≤ bytes.length) (hroom : bytes.length + 2 * extraLen < 2 ^ 31) :
    ∃ f', Pending f' (bytes.drop used) ∧ f'.buffer.bufferSize = r.frame.buffer.bufferSize ∧
      r.handleParsed host = (r.session.frameStep host frame >>= fun so =>
        .ok ({ frame := f', session := so.1 }, so.2, true)) := by
  have hextra : extraLen = 10240 := rfl
  obtain ⟨taken, htaken, hrest⟩ := h.rest
  obtain ⟨tail, hpayload⟩ := h.payload
  have hends := h.ends
  have hlen := h.len
  have hdata := hrest.length
  rw [List.length_append, List.length_drop, htaken] at hdata
  obtain ⟨new, item, hnew, happend, hitem⟩ :=
    @item_bytes frame.payload tail (by omega)
  have hready : r.frame.payloadIsReady = true := by
    rw [payloadIsReady, hlen, lowInt_natCast (by omega)]
    exact decide_eq_true (by omega)
  have hused : lowInt (r.frame.payloadStart + r.frame.payloadLen) = used := by
    rw [hlen, ← Int.natCast_add, hends, lowInt_natCast (by omega)]
  obtain ⟨hconsumed, hsize⟩ := DataBuffer.consumeData_holds hrest
    (show used ≤ (taken ++ bytes.drop used).length by rw [List.length_append]; omega)
  rw [List.drop_left' htaken, ← hused] at hconsumed
  refine ⟨(r.frame.consume (r.frame.payloadStart + r.frame.payloadLen)).reset,
    ⟨hconsumed, fun hcached => by cases hcached⟩, ?_, ?_⟩
  · show (r.frame.buffer.consumeData (lowInt _)).bufferSize = _
    rw [hused]
    exact hsize
  · unfold handleParsed
    simp only [hready, if_true, hlen, hpayload, hnew, happend, bind, Except.bind, hitem, h.fin,
      h.opcode]
    rfl

/-! ## Hostile lengths -/

/-- Bytes that do away with the client: the header in front has a length with which the code
    runs over, at once or now that enough bytes are there. -/
def Killed (bytes : List UInt8) : Prop :=
  ∃ h, front bytes = .bad h ∧
    (0 ≤ h.len ∨ h.key ≠ none ∨ lowInt h.len ≤ (bytes.length : Int) - h.start)

theorem behind_error {input : List UInt8} {len : Nat} (h : input.length < len)
    (allocation : List UInt8) (size held : Nat) :
    DataBuffer.behind allocation size held input len = .error .outOfRange := by
  have hcopy : memcpy allocation (preReserveHeaderSize + held) input len = .error .outOfRange :=
    if_neg fun hfits => absurd hfits.2 (by omega)
  rw [DataBuffer.behind, hcopy]
  rfl

theorem appendData_error (b : DataBuffer) {input : List UInt8} {len : Nat}
    (h : input.length < len) : ∃ e, b.appendData input len = .error e := by
  have hcopy : memcpy b.buffer b.dataEnd input len = .error .outOfRange :=
    if_neg fun hfits => absurd hfits.2 (by omega)
  rw [DataBuffer.appendData, if_neg (by omega), hcopy]
  split_ifs
  · unfold DataBuffer.grow
    cases int (b.dataLen + toInt len + extraLen) with
    | error e => exact ⟨e, rfl⟩
    | ok newLen =>
        dsimp only [bind, Except.bind]
        cases DataBuffer.getNewSize newLen with
        | error e => exact ⟨e, rfl⟩
        | ok size =>
            dsimp only
            cases memcpy (List.replicate size.toNat 0) preReserveHeaderSize b.data b.dataLen with
            | error e => exact ⟨e, rfl⟩
            | ok allocation => exact ⟨_, behind_error h _ _ _⟩
  · unfold DataBuffer.compact
    dsimp only [bind, Except.bind]
    cases b.toFront with
    | error e => exact ⟨e, rfl⟩
    | ok allocation => exact ⟨_, behind_error h _ _ _⟩
  · exact ⟨_, rfl⟩

/-- A negative length is no more to the code than a large one when it allocates and copies. -/
theorem handleParsed_negative (h : r.frame.buffer.Holds bytes)
    (hmin : -2 ^ 63 ≤ r.frame.payloadLen) (hneg : r.frame.payloadLen < 0)
    (hready : r.frame.payloadIsReady = true) : ∃ e, r.handleParsed host = .error e := by
  have hwhole := h.whole
  have hsmall := h.small
  have hreserve : preReserveHeaderSize = 200 := rfl
  have hlong : r.frame.payloadData.length < sizeOf r.frame.payloadLen := by
    have : 2 ^ 63 ≤ sizeOf r.frame.payloadLen := by
      rw [sizeOf]
      omega
    rw [payloadData, DataBuffer.data, List.length_drop, List.length_drop]
    omega
  unfold handleParsed
  simp only [hready, if_true]
  cases DataBuffer.new (sizeOf (r.frame.payloadLen + 1024)) with
  | error e => exact ⟨e, rfl⟩
  | ok item =>
      obtain ⟨e, hfail⟩ := appendData_error item hlong
      dsimp only [bind, Except.bind]
      rw [hfail]
      exact ⟨e, rfl⟩

/-! ## A call of `HandleFrame` -/

/-- What a call has come to that leaves the bytes `rest`, the frames before them having done
    `result`. -/
def Handled (r : Receiver) (rest : List UInt8) (result : Session × List Output)
    (call : Except Fault (Receiver × List Output)) : Prop :=
  (Killed rest ∧ ∃ e, call = .error e) ∨
    (¬ Killed rest ∧ ∃ r', call = .ok (r', result.2) ∧ Pending r'.frame rest ∧
      r.frame.buffer.bufferSize ≤ r'.frame.buffer.bufferSize ∧
      (r'.session = result.1 ∨ ∃ h, front rest = .bad h))

/-- A header with a hostile length in front of all there is. -/
theorem handled_bad {header : Header} {input : List UInt8} {fuel : Nat}
    (hfront : front (bytes ++ input) = .bad header)
    (hparsed : Parsed (bytes ++ input) r.frame.buffer.bufferSize (r.frame.parse input)) :
    Handled r (bytes ++ input) (r.session, []) (r.loop host (fuel + 1) input) := by
  rw [Parsed, hfront] at hparsed
  obtain ⟨hover, hout, hstall⟩ := hparsed
  have hmin := header?_len_ge (front_bad_iff.mp hfront).1
  by_cases hpos : 0 ≤ header.len
  · refine .inl ⟨⟨header, hfront, .inl hpos⟩, .overflow, ?_⟩
    rw [loop, hover hpos]
    rfl
  · by_cases hkey : header.key = none
    · obtain ⟨f', hok, hpending, hheader, hsize⟩ := hstall (by omega) hkey
      have hlength := hpending.holds.length
      have hlen : f'.payloadLen = header.len := congrArg Header.len hheader
      have hstart : f'.payloadStart = header.start := congrArg Header.start hheader
      have hready : f'.payloadIsReady = true ↔
          lowInt header.len ≤ ((bytes ++ input).length : Int) - header.start := by
        rw [payloadIsReady, hlen, hlength, hstart, decide_eq_true_iff]
      by_cases hgo : f'.payloadIsReady = true
      · obtain ⟨e, hfail⟩ := @handleParsed_negative host { r with frame := f' } _
          hpending.holds (hlen ▸ hmin) (by dsimp only; omega) hgo
        refine .inl ⟨⟨header, hfront, .inr (.inr (hready.mp hgo))⟩, e, ?_⟩
        rw [loop, hok]
        simp only [bind, Except.bind, ne_eq, not_true, if_false, hfail]
      · refine .inr ⟨?_, { frame := f', session := r.session.noteOpCode f'.opcode }, ?_,
          hpending, hsize, .inr ⟨header, hfront⟩⟩
        · rintro ⟨header', hfront', hkill⟩
          cases hfront.symm.trans hfront'
          rcases hkill with hpos' | hkey' | hgo'
          · exact hpos hpos'
          · exact hkey' hkey
          · exact hgo (hready.mpr hgo')
        · rw [loop, hok]
          simp only [bind, Except.bind, ne_eq, not_true, if_false, handleParsed, hgo,
            Bool.false_eq_true, false_and]
    · refine .inl ⟨⟨header, hfront, .inr (.inl hkey)⟩, .outOfRange, ?_⟩
      rw [loop, hout (by omega) hkey]
      rfl

/-- The turns of the loop take the frames off one by one. -/
theorem loop_drain (fuel : Nat) : ∀ {r : Receiver} {bytes : List UInt8} {input : List UInt8},
    Pending r.frame bytes → (bytes ++ input).length + 2 * extraLen < 2 ^ 31 →
    ¬ r.frame.buffer.Overlapping input.length → (bytes ++ input).length < fuel →
    ∃ result, Trace.runOut (Session.frameStep host) r.session
        (frames.drain (bytes ++ input)).1 = .ok result ∧
      Handled r (frames.drain (bytes ++ input)).2 result (r.loop host fuel input) := by
  induction fuel with
  | zero => exact fun _ _ _ hfuel => absurd hfuel (Nat.not_lt_zero _)
  | succ fuel ih =>
      intro r bytes input hpending hroom hclear hfuel
      have hparsed := (parse_cases hpending input
        (by rwa [List.length_append] at hroom)).resolve_left (fun hover => hclear hover.1)
      replace hparsed := hparsed.2
      cases hfront : front (bytes ++ input) with
      | more =>
          rw [Parsed, hfront] at hparsed
          obtain ⟨f', hok, hpending', hsize⟩ := hparsed
          have hstuck : frames.Stuck (bytes ++ input) := fun a n h => by
            cases hfront.symm.trans h
          rw [Incremental.Decoder.drain_stuck hstuck]
          refine ⟨(r.session, []), rfl, .inr ⟨?_, { r with frame := f' }, ?_, hpending', hsize,
            .inl rfl⟩⟩
          · rintro ⟨header, hbad, -⟩
            cases hfront.symm.trans hbad
          · rw [loop, hok]
            rfl
      | bad header =>
          have hstuck : frames.Stuck (bytes ++ input) := fun a n h => by
            cases hfront.symm.trans h
          rw [Incremental.Decoder.drain_stuck hstuck]
          exact ⟨(r.session, []), rfl, handled_bad hfront hparsed⟩
      | item frame used =>
          rw [Parsed, hfront] at hparsed
          obtain ⟨f', hok, hwhole, hsize⟩ := hparsed
          have hpos := frames.used_pos hfront
          have hle := frames.used_le hfront
          obtain ⟨f'', hpending', hsize', hhandle⟩ :=
            @handleParsed_whole host { r with frame := f' } _ _ _ hwhole hle hroom
          obtain ⟨⟨s₁, out₁⟩, hstep⟩ := @Session.frameStep_ok host r.session frame
          have hlength := hpending'.holds.length
          have hgo : r.loop host (fuel + 1) input = if 0 < f''.buffer.dataLen then
              (loop host fuel { frame := f'', session := s₁ } [] >>= fun rest =>
                .ok (rest.1, out₁ ++ rest.2))
              else .ok ({ frame := f'', session := s₁ }, out₁) := by
            rw [loop, hok]
            simp only [bind, Except.bind, ne_eq, not_true, if_false, hhandle, hstep, true_and]
          rw [Incremental.Decoder.drain_item (d := frames) hfront, hgo]
          by_cases hmore : 0 < f''.buffer.dataLen
          · have hshort : ((bytes ++ input).drop used).length < fuel := by
              rw [List.length_drop]
              omega
            obtain ⟨⟨s, out⟩, hrun, hrest⟩ := @ih { frame := f'', session := s₁ }
              ((bytes ++ input).drop used) [] hpending'
              (by rw [List.append_nil, List.length_drop]; omega)
              (fun hover => absurd hover.1 (Nat.lt_irrefl 0)) (by rwa [List.append_nil])
            rw [List.append_nil] at hrun hrest
            rw [if_pos hmore]
            refine ⟨(s, out₁ ++ out),
              Trace.runOut_cons_iff.mpr ⟨s₁, out₁, out, hstep, hrun, rfl⟩, ?_⟩
            rcases hrest with ⟨hkilled, e, hfail⟩ | ⟨halive, r', hok', hleft, hsize'', hsession⟩
            · refine .inl ⟨hkilled, e, ?_⟩
              rw [hfail]
              rfl
            · refine .inr ⟨halive, r', ?_, hleft, ?_, hsession⟩
              · rw [hok']
                rfl
              · exact Nat.le_trans hsize (hsize' ▸ hsize'')
          · have hnil : (bytes ++ input).drop used = [] := List.eq_nil_of_length_eq_zero (by omega)
            rw [if_neg hmore, hnil, Incremental.Decoder.drain_stuck frames.stuck_nil]
            refine ⟨(s₁, out₁), ?_, .inr ⟨?_, _, rfl, hnil ▸ hpending', ?_, .inl rfl⟩⟩
            · exact Trace.runOut_cons_iff.mpr ⟨s₁, out₁, [], hstep, rfl, (List.append_nil _).symm⟩
            · rintro ⟨header, hbad, -⟩
              cases hbad
            · exact Nat.le_trans hsize (Nat.le_of_eq hsize'.symm)

/-- **A call of `HandleFrame`** takes the frames off what has been kept and what has come. -/
theorem handleFrame_cases (h : Pending r.frame bytes) (data : List UInt8)
    (hroom : (bytes ++ data).length + 2 * extraLen < 2 ^ 31) :
    (r.frame.buffer.Overlapping data.length ∧ r.handleFrame host data = .error .overlap) ∨
      (¬ r.frame.buffer.Overlapping data.length ∧
        ∃ result, Trace.runOut (Session.frameStep host) r.session
            (frames.drain (bytes ++ data)).1 = .ok result ∧
          Handled r (frames.drain (bytes ++ data)).2 result (r.handleFrame host data)) := by
  by_cases hover : r.frame.buffer.Overlapping data.length
  · rcases parse_cases h data (by rwa [List.length_append] at hroom) with ⟨-, hfail⟩ | ⟨hclear, -⟩
    · refine .inl ⟨hover, ?_⟩
      rw [handleFrame, loop, hfail]
      rfl
    · exact absurd hover hclear
  · refine .inr ⟨hover, loop_drain _ h hroom hover ?_⟩
    rw [List.length_append, h.holds.length]
    exact Nat.lt_succ_self _

end Handling

/-! ## Any calls of `HandleFrame` -/

/-- Where a call leads. -/
def next (host : Host) (r : Receiver) (data : List UInt8) : Except Fault Receiver :=
  (r.handleFrame host data).map Prod.fst

/-- The bytes kept and those that come are less than an `int` can count. -/
def Roomy (r : Receiver) (data : List UInt8) : Prop :=
  r.frame.buffer.dataLen + data.length + 2 * extraLen < 2 ^ 31

/-- The buffer does not copy bytes over themselves. -/
def Clear (r : Receiver) (data : List UInt8) : Prop :=
  ¬ r.frame.buffer.Overlapping data.length

instance (r : Receiver) (data : List UInt8) : Decidable (r.Roomy data) :=
  inferInstanceAs (Decidable (_ < _))

instance (r : Receiver) (data : List UInt8) : Decidable (r.Clear data) :=
  inferInstanceAs (Decidable (¬ _))

theorem pending_start (s : Session) : Pending { session := s : Receiver }.frame [] :=
  ⟨DataBuffer.holds_make (by decide) (by decide), fun h => by cases h⟩

theorem Killed.append {bytes : List UInt8} (h : Killed bytes) (rest : List UInt8) :
    Killed (frames.drain (bytes ++ rest)).2 := by
  obtain ⟨header, hbad, hkill⟩ := h
  have hbad' : front (bytes ++ rest) = .bad header := frames.bad_append rest hbad
  rw [Incremental.Decoder.drain_stuck fun a n hitem => by cases hbad'.symm.trans hitem]
  refine ⟨header, hbad', hkill.imp_right (Or.imp_right fun hgo => ?_)⟩
  rw [List.length_append]
  omega

/-- The calls from a state that keeps some bytes. What the session does next is told by a
    session `s` that is the same, unless it stands before a hostile length. -/
theorem handleFrame_run_from (host : Host) (chunks : List (List UInt8)) :
    ∀ {r : Receiver} {bytes : List UInt8} {s : Session}, Pending r.frame bytes →
      frames.Stuck bytes → ¬ Killed bytes → (r.session = s ∨ ∃ h, front bytes = .bad h) →
      Trace.EachStep (next host) Roomy r chunks →
      ∃ result, Trace.runOut (Session.frameStep host) s
          (frames.drain (bytes ++ chunks.flatten)).1 = .ok result ∧
        ((Trace.EachStep (next host) Clear r chunks ∧
            ¬ Killed (frames.drain (bytes ++ chunks.flatten)).2 ∧
            ∃ r', Trace.runOut (handleFrame host) r chunks = .ok (r', result.2)) ∨
          (¬ (Trace.EachStep (next host) Clear r chunks ∧
              ¬ Killed (frames.drain (bytes ++ chunks.flatten)).2) ∧
            ∃ e, Trace.runOut (handleFrame host) r chunks = .error e)) := by
  induction chunks with
  | nil =>
      intro r bytes s _ hstuck halive _ _
      rw [List.flatten_nil, List.append_nil, Incremental.Decoder.drain_stuck hstuck]
      exact ⟨(s, []), rfl, .inl ⟨trivial, halive, r, rfl⟩⟩
  | cons chunk chunks ih =>
      intro r bytes s hpending hstuck halive hsession hroom
      have hnow : r.frame.buffer.dataLen + chunk.length + 2 * extraLen < 2 ^ 31 := hroom.1
      rw [hpending.holds.length] at hnow
      have hfail {e : Fault} (h : r.handleFrame host chunk = .error e) :
          Trace.runOut (handleFrame host) r (chunk :: chunks) = .error e := by
        rw [Trace.runOut, h]
      rw [List.flatten_cons, ← List.append_assoc]
      rcases @handleFrame_cases host _ _ hpending chunk
          (by rw [List.length_append]; exact hnow) with
        ⟨hover, herror⟩ | ⟨hclear, ⟨s₁, out₁⟩, hrun₁, hhandled⟩
      · obtain ⟨result, hrun⟩ := Session.runOut_ok (@Session.frameStep_ok host)
          (frames.drain (bytes ++ chunk ++ chunks.flatten)).1 s
        exact ⟨result, hrun, .inr ⟨fun h => h.1.1 hover, _, hfail herror⟩⟩
      · rcases hhandled with ⟨hkilled, e, herror⟩ | ⟨halive', r', hok, hpending', -, hsession'⟩
        · obtain ⟨result, hrun⟩ := Session.runOut_ok (@Session.frameStep_ok host)
            (frames.drain (bytes ++ chunk ++ chunks.flatten)).1 s
          have hkilled' := hkilled.append chunks.flatten
          refine ⟨result, hrun, .inr ⟨fun h => h.2 ?_, _, hfail herror⟩⟩
          rw [Incremental.Decoder.drain_append]
          exact hkilled'
        · -- before a hostile length no frame is left to tell the two sessions apart
          obtain ⟨s₂, hrun₂, hrel⟩ : ∃ s₂, Trace.runOut (Session.frameStep host) s
              (frames.drain (bytes ++ chunk)).1 = .ok (s₂, out₁) ∧
              (r'.session = s₂ ∨ ∃ h, front (frames.drain (bytes ++ chunk)).2 = .bad h) := by
            rcases hsession with rfl | ⟨header, hbad⟩
            · exact ⟨s₁, hrun₁, hsession'⟩
            · have hbad' : front (bytes ++ chunk) = .bad header := frames.bad_append chunk hbad
              rw [Incremental.Decoder.drain_stuck fun a n hitem => by
                cases hbad'.symm.trans hitem] at hrun₁ ⊢
              cases hrun₁
              exact ⟨s, rfl, .inr ⟨header, hbad'⟩⟩
          have hnext : r.next host chunk = .ok r' := by
            rw [next, hok]
            rfl
          obtain ⟨⟨t, outs⟩, hrun, hcases⟩ :=
            ih hpending' (frames.stuck_rest _) halive' hrel (hroom.2 r' hnext)
          have hrest {q : Receiver} {all : List Output}
              (h : Trace.runOut (handleFrame host) r' chunks = .ok (q, all)) :
              Trace.runOut (handleFrame host) r (chunk :: chunks) = .ok (q, out₁ ++ all) :=
            Trace.runOut_cons_iff.mpr ⟨r', out₁, all, hok, h, rfl⟩
          rw [Incremental.Decoder.drain_append]
          refine ⟨(t, out₁ ++ outs), Trace.runOut_append hrun₂ hrun, ?_⟩
          rcases hcases with ⟨hall, halive'', q, hq⟩ | ⟨hnot, e, he⟩
          · refine .inl ⟨⟨hclear, fun r'' h => ?_⟩, halive'', q, hrest hq⟩
            cases hnext.symm.trans h
            exact hall
          · refine .inr ⟨fun h => hnot ⟨h.1.2 r' hnext, h.2⟩, e, ?_⟩
            rw [Trace.runOut, hok]
            dsimp only
            rw [he]

/-- **`HandleFrame` takes a byte stream as it comes.** Through calls with any pieces of it
    the client does what the frames in the stream say, one after the other, as long as the bytes
    kept are less than an `int` can count. The calls go through exactly when the buffer never
    copies bytes over themselves and no hostile length does away with the client. -/
theorem handleFrame_run (host : Host) (s : Session) (chunks : List (List UInt8))
    (hroom : Trace.EachStep (next host) Roomy { session := s } chunks) :
    ∃ result, Trace.runOut (Session.frameStep host) s (frames.drain chunks.flatten).1 =
        .ok result ∧
      ((Trace.EachStep (next host) Clear { session := s } chunks ∧
          ¬ Killed (frames.drain chunks.flatten).2 ∧
          ∃ r', Trace.runOut (handleFrame host) { session := s } chunks = .ok (r', result.2)) ∨
        (¬ (Trace.EachStep (next host) Clear { session := s } chunks ∧
            ¬ Killed (frames.drain chunks.flatten).2) ∧
          ∃ e, Trace.runOut (handleFrame host) { session := s } chunks = .error e)) :=
  handleFrame_run_from host chunks (pending_start s) frames.stuck_nil
    (fun ⟨_, hbad, _⟩ => by cases hbad) (.inl rfl) hroom

/-- A ping whose header says that -1 bytes follow does away with the client when the last byte
    of it has come. -/
theorem handleFrame_run_minus_one :
    ∃ e, Trace.runOut (handleFrame ⟨fun _ => #v[1, 2, 3, 4], fun _ => 0⟩) {}
      [[0x89], [0x7f, 0xff, 0xff, 0xff, 0xff], [0xff, 0xff, 0xff, 0xff]] = .error e := by
  have hfront : front [0x89, 0x7f, 0xff, 0xff, 0xff, 0xff, 0xff, 0xff, 0xff, 0xff] =
      .bad { fin := true, opcode := wsOpPingType, key := none, start := 10, len := -1 } := by
    decide +kernel
  have hstuck : frames.Stuck [0x89, 0x7f, 0xff, 0xff, 0xff, 0xff, 0xff, 0xff, 0xff, 0xff] :=
    fun a n hitem => by cases hfront.symm.trans hitem
  have hkilled : Killed [0x89, 0x7f, 0xff, 0xff, 0xff, 0xff, 0xff, 0xff, 0xff, 0xff] :=
    ⟨_, hfront, .inr (.inr (by decide +kernel))⟩
  obtain ⟨_, -, hcases⟩ := handleFrame_run ⟨fun _ => #v[1, 2, 3, 4], fun _ => 0⟩ {}
    [[0x89], [0x7f, 0xff, 0xff, 0xff, 0xff], [0xff, 0xff, 0xff, 0xff]] (by decide +kernel)
  rcases hcases with ⟨-, halive, -⟩ | ⟨-, hfail⟩
  · refine absurd ?_ halive
    have hrest := congrArg Prod.snd (Incremental.Decoder.drain_stuck hstuck)
    exact hrest ▸ hkilled
  · exact hfail

end Receiver

end Bifrost.Ws
