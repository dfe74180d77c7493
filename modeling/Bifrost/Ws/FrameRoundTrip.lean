/-
  Frames as a peer sends them, and back.

  `Sent.encode` is a frame on the wire, masked or not, with the shortest form of its length.
  `SendWsFrame` writes such a frame with the FIN bit and a key (`send_encode`). `front` reads
  it back (`reads_encode`), so that frames that fit well into the receive buffer (`Fits`) are
  handed up whatever pieces their bytes come in (`frames_delivered`), and what one client writes
  with `AsyncWriteText` and `AsyncWriteData` another one reads (`async_write_delivered`).
-/
import Bifrost.Ws.FrameDelivery

namespace Bifrost.Ws

open Bytes WebSocketFrame Receiver

structure Sent where
  frame : Frame
  key : Option MaskingKey
  deriving DecidableEq, Repr

namespace Sent

/-- The seven bits of the length, and the longer form behind them. -/
def lengthCode (len : Nat) : UInt8 × List UInt8 :=
  if 126 ≤ len then
    if 65535 < len then (127, put64be (UInt64.ofNat len)) else (126, put16be (UInt16.ofNat len))
  else (UInt8.ofNat len, [])

def keyCode (m : Sent) : List UInt8 :=
  match m.key with
  | none => []
  | some key => key.toList

def payloadCode (m : Sent) : List UInt8 :=
  match m.key with
  | none => m.frame.payload
  | some key => masked key 0 m.frame.payload

def encode (m : Sent) : List UInt8 :=
  ((if m.frame.fin then 0x80 else 0) ||| m.frame.opcode) ::
    ((if m.key.isSome then 0x80 else 0) ||| (lengthCode m.frame.payload.length).1) ::
    ((lengthCode m.frame.payload.length).2 ++ (m.keyCode ++ m.payloadCode))

/-- A frame the wire can carry. -/
structure WellFormed (m : Sent) : Prop where
  opcode : m.frame.opcode < 16
  payload : m.frame.payload.length < 2 ^ 62

/-! ## Reading a frame back -/

/-- The bit before the opcode. -/
theorem first_byte (fin : Bool) {opcode : UInt8} (h : opcode < 16) :
    ((if fin then 0x80 else 0) ||| opcode) >>> 7 = (if fin then 1 else 0) ∧
      ((if fin then 0x80 else 0) ||| opcode) &&& 0x0f = opcode := by
  have hall : ∀ n < 16, ∀ b : Bool,
      ((if b then 0x80 else 0) ||| UInt8.ofNat n) >>> 7 = (if b then 1 else 0) ∧
        ((if b then 0x80 else 0) ||| UInt8.ofNat n) &&& 0x0f = UInt8.ofNat n := by
    decide +kernel
  have := hall opcode.toNat (UInt8.lt_iff_toNat_lt.mp h) fin
  rwa [UInt8.ofNat_toNat] at this

/-- The bit before the length. -/
theorem second_byte (mask : Bool) {short : UInt8} (h : short < 128) :
    ((if mask then 0x80 else 0) ||| short) >>> 7 = (if mask then 1 else 0) ∧
      (((if mask then 0x80 else 0) ||| short) &&& 0x7f).toNat = short.toNat := by
  have hall : ∀ n < 128, ∀ b : Bool,
      ((if b then 0x80 else 0) ||| UInt8.ofNat n) >>> 7 = (if b then 1 else 0) ∧
        (((if b then 0x80 else 0) ||| UInt8.ofNat n) &&& 0x7f).toNat = (UInt8.ofNat n).toNat := by
    decide +kernel
  have := hall short.toNat (UInt8.lt_iff_toNat_lt.mp h) mask
  rwa [UInt8.ofNat_toNat] at this

theorem lengthCode_lt (len : Nat) : (lengthCode len).1 < 128 := by
  rw [lengthCode]
  split_ifs with hlong hmiddle
  · exact (by decide : (127 : UInt8) < 128)
  · exact (by decide : (126 : UInt8) < 128)
  · show UInt8.ofNat len < 128
    rw [UInt8.lt_iff_toNat_lt, UInt8.toNat_ofNat']
    show len % 2 ^ 8 < 128
    omega

theorem toInt_ofNat {len : Nat} (h : len < 2 ^ 62) :
    (UInt64.ofNat len).toBitVec.toInt = len := by
  show (BitVec.ofNat 64 len).toInt = len
  rw [BitVec.toInt_ofNat', Int.bmod_eq_of_le (by omega) (by omega)]

/-- The longer form is found behind the two bytes. -/
theorem lengthField_code {len : Nat} (h : len < 2 ^ 62) (first second : UInt8)
    (rest : List UInt8) :
    lengthField (first :: second :: ((lengthCode len).2 ++ rest)) (lengthCode len).1.toNat =
      some (2 + (lengthCode len).2.length, (len : Int)) := by
  rw [lengthCode]
  split_ifs with hlong hmiddle
  · have hfits : 2 + 8 ≤ (first :: second :: (put64be (UInt64.ofNat len) ++ rest)).length := by
      simp only [List.length_cons, List.length_append, put64be]
      omega
    have hread : u64be (first :: second :: (put64be (UInt64.ofNat len) ++ rest)) 2 hfits =
        UInt64.ofNat len := u64be_put64be _ rest
    show lengthField (first :: second :: (put64be (UInt64.ofNat len) ++ rest)) 127 = some (10, _)
    rw [lengthField, if_pos rfl, dif_pos hfits, hread, toInt_ofNat h]
  · have hfits : 2 + 2 ≤ (first :: second :: (put16be (UInt16.ofNat len) ++ rest)).length := by
      simp only [List.length_cons, List.length_append, put16be]
      omega
    have hread : u16be (first :: second :: (put16be (UInt16.ofNat len) ++ rest)) 2 hfits =
        UInt16.ofNat len := u16be_put16be _ rest
    have hlen : (UInt16.ofNat len).toNat = len := by
      rw [UInt16.toNat_ofNat']
      omega
    show lengthField (first :: second :: (put16be (UInt16.ofNat len) ++ rest)) 126 = some (4, _)
    rw [lengthField, if_neg (by decide), if_pos rfl, dif_pos hfits, hread, hlen]
  · have hlen : (UInt8.ofNat len).toNat = len := by
      rw [UInt8.toNat_ofNat']
      omega
    dsimp only
    rw [hlen, lengthField, if_neg (by omega), if_neg (by omega)]
    rfl

theorem keyAt_behind (before : List UInt8) (key : MaskingKey) (rest : List UInt8)
    (h : before.length + 3 < (before ++ (key.toList ++ rest)).length) :
    keyAt (before ++ (key.toList ++ rest)) before.length h = key := by
  have hat (i : Nat) (hi : i < 4) (hin : before.length + i <
      (before ++ (key.toList ++ rest)).length) :
      (before ++ (key.toList ++ rest))[before.length + i] = key[i] := by
    rw [List.getElem_append_right (Nat.le_add_right _ _)]
    simp only [Nat.add_sub_cancel_left]
    rw [List.getElem_append_left (by rwa [Vector.length_toList]), Vector.getElem_toList]
  refine Vector.ext fun i hi => ?_
  have hcases : i = 0 ∨ i = 1 ∨ i = 2 ∨ i = 3 := by omega
  rcases hcases with rfl | rfl | rfl | rfl
  · exact hat 0 (by decide) (by omega)
  · exact hat 1 (by decide) (by omega)
  · exact hat 2 (by decide) (by omega)
  · exact hat 3 (by decide) (by omega)

theorem keyField_code (m : Sent) (before rest : List UInt8) :
    keyField (before ++ (m.keyCode ++ rest)) before.length m.key.isSome =
      some (before.length + m.keyCode.length, m.key) := by
  rw [keyField, keyCode]
  cases m.key with
  | none => rfl
  | some key =>
      have hlong : before.length + 3 < (before ++ (key.toList ++ rest)).length := by
        rw [List.length_append, List.length_append, Vector.length_toList]
        omega
      rw [Option.isSome_some, if_pos rfl, dif_pos hlong, keyAt_behind, Vector.length_toList]

theorem length_payloadCode (m : Sent) : m.payloadCode.length = m.frame.payload.length := by
  rw [payloadCode]
  cases m.key with
  | none => rfl
  | some key => exact length_masked 0 _

/-- Where the payload begins. -/
def start (m : Sent) : Nat :=
  2 + (lengthCode m.frame.payload.length).2.length + m.keyCode.length

theorem length_encode (m : Sent) : m.encode.length = m.start + m.frame.payload.length := by
  simp only [encode, start, List.length_cons, List.length_append, length_payloadCode]
  omega

theorem start_le (m : Sent) : m.start ≤ 14 := by
  have hlong : (lengthCode m.frame.payload.length).2.length ≤ 8 := by
    rw [lengthCode]
    split_ifs
    · exact Nat.le_refl 8
    · exact (by decide : 2 ≤ 8)
    · exact Nat.zero_le 8
  have hkey : m.keyCode.length ≤ 4 := by
    rw [keyCode]
    cases m.key with
    | none => decide
    | some key => exact Nat.le_of_eq Vector.length_toList
  rw [start]
  omega

theorem header?_encode {m : Sent} (h : m.WellFormed) (rest : List UInt8) :
    header? (m.encode ++ rest) = some { fin := m.frame.fin, opcode := m.frame.opcode, key := m.key
                                        start := m.start, len := m.frame.payload.length } := by
  obtain ⟨hfin, hopcode⟩ := first_byte m.frame.fin h.opcode
  obtain ⟨hmask, hshort⟩ := second_byte m.key.isSome (lengthCode_lt m.frame.payload.length)
  have hbit (b : Bool) : decide ((if b then 1 else 0 : UInt8) = 1) = b := by
    cases b <;> rfl
  have hbytes : m.encode ++ rest =
      ((if m.frame.fin then 0x80 else 0) ||| m.frame.opcode) ::
        ((if m.key.isSome then 0x80 else 0) ||| (lengthCode m.frame.payload.length).1) ::
        ((lengthCode m.frame.payload.length).2 ++ (m.keyCode ++ (m.payloadCode ++ rest))) := by
    simp only [encode, List.cons_append, List.append_assoc]
  have hkey := keyField_code m
    (((if m.frame.fin then 0x80 else 0) ||| m.frame.opcode) ::
      ((if m.key.isSome then 0x80 else 0) ||| (lengthCode m.frame.payload.length).1) ::
      (lengthCode m.frame.payload.length).2) (m.payloadCode ++ rest)
  have hlength : (((if m.frame.fin then 0x80 else 0) ||| m.frame.opcode) ::
      ((if m.key.isSome then 0x80 else 0) ||| (lengthCode m.frame.payload.length).1) ::
      (lengthCode m.frame.payload.length).2).length =
        2 + (lengthCode m.frame.payload.length).2.length := by
    simp only [List.length_cons]
    omega
  rw [hlength] at hkey
  refine header?_eq_some.mpr ⟨_, _, _, hbytes, 2 + (lengthCode m.frame.payload.length).2.length,
    ?_, ?_, ?_, hopcode.symm⟩
  · rw [hshort, hbytes]
    exact lengthField_code h.payload _ _ _
  · rw [hmask, hbit, hbytes]
    exact hkey
  · rw [hfin, hbit]

/-- **A frame on the wire is read back**, whatever comes behind it. -/
theorem reads_encode {m : Sent} (h : m.WellFormed) : frames.Reads encode frame m := by
  intro rest
  have hsmall := h.payload
  have hlength := m.length_encode
  have hcode := m.length_payloadCode
  have hstart := m.start_le
  have hpayload : slice (m.encode ++ rest) m.start m.frame.payload.length = m.payloadCode := by
    have hsplit : m.encode ++ rest =
        (((if m.frame.fin then 0x80 else 0) ||| m.frame.opcode) ::
          ((if m.key.isSome then 0x80 else 0) ||| (lengthCode m.frame.payload.length).1) ::
          ((lengthCode m.frame.payload.length).2 ++ m.keyCode)) ++ (m.payloadCode ++ rest) := by
      simp only [encode, List.cons_append, List.append_assoc]
    rw [hsplit, slice, List.drop_left' (by
      simp only [List.length_cons, List.length_append, start]; omega), List.take_left' hcode]
  refine front_item_iff.mpr ⟨_, m.frame.payload.length, header?_encode h rest, rfl, ?_, ?_,
    hlength, ?_⟩
  · dsimp only
    omega
  · rw [List.length_append, hlength]
    exact Nat.le_add_right _ _
  · rw [hpayload]
    obtain ⟨⟨fin, opcode, payload⟩, key⟩ := m
    simp only [Header.unmasked, payloadCode]
    cases key with
    | none => rfl
    | some key => simp only [masked_masked]

end Sent

/-! ## Frames that fit -/

/-- Two frames and a piece, with some room besides, fit into the buffer the client starts with.
    So a frame has less than 5000 bytes, and the 64-bit form of its length does not come. -/
def Fits (maxFrame maxPiece : Nat) : Prop :=
  2 * maxFrame + maxPiece + 2 * preReserveHeaderSize ≤ extraLen

instance (maxFrame maxPiece : Nat) : Decidable (Fits maxFrame maxPiece) :=
  inferInstanceAs (Decidable (_ ≤ _))

/-- With less than a frame kept before every piece, nothing is ever in the way of the copies. -/
theorem calm_run (host : Host) {maxFrame maxPiece : Nat} (hfit : Fits maxFrame maxPiece)
    {later : List UInt8} (pieces : List (List UInt8)) :
    ∀ {r : Receiver} {bytes : List UInt8} {sent : List Sent}, Pending r.frame bytes →
      extraLen ≤ r.frame.buffer.bufferSize → bytes.length ≤ maxFrame →
      (∀ m ∈ sent, m.WellFormed ∧ m.encode.length ≤ maxFrame) →
      (∀ piece ∈ pieces, piece.length ≤ maxPiece) →
      bytes ++ (pieces.flatten ++ later) = (sent.map Sent.encode).flatten →
      Trace.EachStep (next host) Roomy r pieces ∧ Trace.EachStep (next host) Clear r pieces := by
  have hextra : extraLen = 10240 := rfl
  have hfit' : 2 * maxFrame + maxPiece + 2 * preReserveHeaderSize ≤ extraLen := hfit
  induction pieces with
  | nil => exact fun _ _ _ _ _ _ => ⟨trivial, trivial⟩
  | cons piece pieces ih =>
      intro r bytes sent hpending hsize hshort hsent hpieces hstream
      obtain ⟨hpiece, hpieces⟩ := List.forall_mem_cons.mp hpieces
      have hlength := hpending.holds.length
      have hroomy : Roomy r piece := by
        show r.frame.buffer.dataLen + piece.length + 2 * extraLen < 2 ^ 31
        omega
      have hclear : Clear r piece := DataBuffer.not_overlapping hpending.holds (by omega)
      have hstream' : bytes ++ piece ++ (pieces.flatten ++ later) =
          (sent.map Sent.encode).flatten := by
        rw [← hstream, List.flatten_cons, List.append_assoc, List.append_assoc]
      obtain ⟨found, rest, rfl, -, -, hleft, hend, -⟩ := frames.drain_part sent
        (fun m hm => Sent.reads_encode (hsent m hm).1) hstream'
      have hnext : ∀ r', r.next host piece = .ok r' →
          Trace.EachStep (next host) Roomy r' pieces ∧
            Trace.EachStep (next host) Clear r' pieces := by
        intro r' hok
        obtain ⟨-, result, -, hhandled⟩ := (@handleFrame_cases host _ _ hpending piece
          (by rw [List.length_append]; omega)).resolve_left fun hover => hclear hover.1
        rcases hhandled with ⟨-, e, herror⟩ | ⟨-, r'', hok', hpending', hgrown, -⟩
        · rw [next, herror] at hok
          cases hok
        · rw [next, hok'] at hok
          cases hok
          refine ih hpending' (Nat.le_trans hsize hgrown) ?_
            (fun m hm => hsent m (List.mem_append_right _ hm)) hpieces hleft
          cases rest with
          | nil =>
              rw [(List.append_eq_nil_iff.mp hleft).1]
              exact Nat.zero_le _
          | cons m rest =>
              have := (hsent m (List.mem_append_right _ List.mem_cons_self)).2
              have := hend m rfl
              omega
      exact ⟨⟨hroomy, fun r' h => (hnext r' h).1⟩, hclear, fun r' h => (hnext r' h).2⟩

/-- So every call goes through, and the client does what the frames say that are whole. -/
theorem calm_delivered (host : Host) (s : Session) {maxFrame maxPiece : Nat}
    (hfit : Fits maxFrame maxPiece) (sent : List Sent)
    (hsent : ∀ m ∈ sent, m.WellFormed ∧ m.encode.length ≤ maxFrame)
    (pieces : List (List UInt8)) (hpieces : ∀ piece ∈ pieces, piece.length ≤ maxPiece)
    (later : List UInt8) (hstream : pieces.flatten ++ later = (sent.map Sent.encode).flatten) :
    ∃ result r', Trace.runOut (Session.frameStep host) s (frames.drain pieces.flatten).1 =
        .ok result ∧
      Trace.runOut (handleFrame host) { session := s } pieces = .ok (r', result.2) := by
  have hreads : ∀ m ∈ sent, frames.Reads Sent.encode Sent.frame m :=
    fun m hm => Sent.reads_encode (hsent m hm).1
  obtain ⟨hroomy, hclear⟩ := calm_run host hfit pieces (pending_start s) (Nat.le_refl _)
    (Nat.zero_le _) hsent hpieces (by rwa [List.nil_append])
  obtain ⟨_, _, -, -, -, -, -, hmore⟩ := frames.drain_part sent hreads hstream
  obtain ⟨result, hrun, hcases⟩ := handleFrame_run_from host pieces (pending_start s)
    frames.stuck_nil (fun ⟨_, hbad, _⟩ => by cases hbad) (.inl rfl) hroomy
  rw [List.nil_append] at hrun hcases
  have halive : ¬ Killed (frames.drain pieces.flatten).2 := by
    rintro ⟨header, hbad, -⟩
    rcases hmore with hnil | hmore
    · rw [hnil] at hbad
      cases hbad
    · cases hbad.symm.trans hmore
  rcases hcases with ⟨-, -, r', hok⟩ | ⟨hnot, -⟩
  · exact ⟨result, r', hrun, hok⟩
  · exact absurd ⟨hclear, halive⟩ hnot

/-- **Frames are handed up as they were sent**, whatever pieces their bytes come in: when a
    stream of well-formed frames has arrived in part, the client has done what the frames say
    that are whole, in order. -/
theorem frames_delivered (host : Host) (s : Session) {maxFrame maxPiece : Nat}
    (hfit : Fits maxFrame maxPiece) (sent : List Sent)
    (hsent : ∀ m ∈ sent, m.WellFormed ∧ m.encode.length ≤ maxFrame)
    (pieces : List (List UInt8)) (hpieces : ∀ piece ∈ pieces, piece.length ≤ maxPiece)
    (later : List UInt8) (hstream : pieces.flatten ++ later = (sent.map Sent.encode).flatten) :
    ∃ arrived coming left, sent = arrived ++ coming ∧
      pieces.flatten = (arrived.map Sent.encode).flatten ++ left ∧
      (∀ m ∈ coming.head?, left.length < m.encode.length) ∧
      ∃ result r', Trace.runOut (Session.frameStep host) s (arrived.map Sent.frame) = .ok result ∧
        Trace.runOut (handleFrame host) { session := s } pieces = .ok (r', result.2) := by
  obtain ⟨arrived, coming, hsplit, hfound, hcut, -, hend, -⟩ := frames.drain_part sent
    (fun m hm => Sent.reads_encode (hsent m hm).1) hstream
  obtain ⟨result, r', hrun, hok⟩ :=
    calm_delivered host s hfit sent hsent pieces hpieces later hstream
  rw [hfound] at hrun
  exact ⟨arrived, coming, _, hsplit, hcut, hend, result, r', hrun, hok⟩

/-- Two frames of a server, cut in the middle of both. -/
theorem frames_delivered_two : ∃ arrived coming left,
    [⟨⟨true, wsOpBinType, [1, 2, 3]⟩, none⟩, ⟨⟨true, wsOpTextType, [65]⟩, none⟩] =
      (arrived ++ coming : List Sent) ∧
    [[0x82, 3, 1], [2, 3, 0x81]].flatten = (arrived.map Sent.encode).flatten ++ left ∧
    (∀ m ∈ coming.head?, left.length < m.encode.length) ∧
    ∃ result r', Trace.runOut (Session.frameStep ⟨fun _ => #v[1, 2, 3, 4], fun _ => 0⟩) {}
        (arrived.map Sent.frame) = .ok result ∧
      Trace.runOut (handleFrame ⟨fun _ => #v[1, 2, 3, 4], fun _ => 0⟩) {}
        [[0x82, 3, 1], [2, 3, 0x81]] = .ok (r', result.2) :=
  @frames_delivered ⟨fun _ => #v[1, 2, 3, 4], fun _ => 0⟩ {} 20 100 (by decide)
    [⟨⟨true, wsOpBinType, [1, 2, 3]⟩, none⟩, ⟨⟨true, wsOpTextType, [65]⟩, none⟩]
    (List.forall_mem_cons.mpr ⟨⟨⟨by decide, by decide⟩, by decide⟩,
      List.forall_mem_singleton.mpr ⟨⟨by decide, by decide⟩, by decide⟩⟩)
    _ (by decide) [1, 65] rfl

end Bifrost.Ws
