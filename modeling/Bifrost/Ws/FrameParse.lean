/-
  `Parse` finds what the bytes say: with no whole frame in front of what has arrived it waits,
  with one it leaves the unmasked payload where `HandleFrame` reads it. The header it has read
  before is the one the bytes still show (`Pending`).
-/
import Bifrost.Ws.WebSocketFrame

namespace Bifrost.Ws

open Bytes

namespace WebSocketFrame

/-- The header in the fields. -/
def header (f : WebSocketFrame) : Header :=
  { fin := f.fin, opcode := f.opcode, key := if f.maskEnable then some f.maskingKey else none
    start := f.payloadStart, len := f.payloadLen }

/-- Between two calls of `Parse`: the bytes in the buffer, and the header if it was read. -/
structure Pending (f : WebSocketFrame) (bytes : List UInt8) : Prop where
  holds : f.buffer.Holds bytes
  cached : f.headerReady = true → header? bytes = some f.header

section Reading

variable {f : WebSocketFrame} {bytes : List UInt8}

theorem data_eq_append {b : DataBuffer} (h : b.Holds bytes) :
    ∃ tail, b.data = bytes ++ tail := by
  refine ⟨b.data.drop b.dataLen, ?_⟩
  rw [← h.data_take, List.take_append_drop]

/-- The longer payload length is read when all of it has arrived. -/
theorem parseLength_eq (h : f.buffer.Holds bytes) {short : Nat} (hshort : f.payloadLen = short)
    (htwo : f.payloadStart = 2) : f.parseLength = match lengthField bytes short with
      | none => .ok (f, false)
      | some (lengthEnd, len) =>
        .ok ({ f with payloadLen := len, payloadStart := lengthEnd }, true) := by
  obtain ⟨tail, hdata⟩ := data_eq_append h
  have hlength := h.length
  have hlonger : bytes.length ≤ (bytes ++ tail).length := by
    rw [List.length_append]
    exact Nat.le_add_right _ _
  simp only [parseLength, hdata, hshort, htwo]
  rw [lengthField]
  by_cases hlong : short = 127
  · rw [if_pos hlong, if_pos (by omega)]
    by_cases hfits : 2 + 8 ≤ bytes.length
    · rw [dif_pos hfits, if_neg (by omega), dif_pos (by omega), u64be_append hfits]
    · rw [dif_neg hfits, if_pos (by omega)]
  · rw [if_neg hlong, if_neg (by omega)]
    by_cases hmiddle : short = 126
    · rw [if_pos hmiddle, if_pos (by omega)]
      by_cases hfits : 2 + 2 ≤ bytes.length
      · rw [dif_pos hfits, if_neg (by omega), dif_pos (by omega), u16be_append hfits]
      · rw [dif_neg hfits, if_pos (by omega)]
    · rw [if_neg hmiddle, if_neg (by omega)]
      dsimp only
      rw [← hshort, ← htwo]

/-- So is the masking key. -/
theorem parseMask_eq (h : f.buffer.Holds bytes) (mask : Bool) :
    f.parseMask mask = match keyField bytes f.payloadStart mask with
      | none => .ok ({ f with maskEnable := mask }, false)
      | some (start, key) => .ok ({ f with maskEnable := mask, payloadStart := start
                                           maskingKey := key.getD f.maskingKey
                                           headerReady := true }, true) := by
  obtain ⟨tail, hdata⟩ := data_eq_append h
  have hlength := h.length
  simp only [parseMask, hdata]
  rw [keyField]
  cases mask with
  | false => rfl
  | true =>
      rw [if_pos rfl, if_pos rfl]
      by_cases hfits : f.payloadStart + 3 < bytes.length
      · rw [dif_pos hfits, if_neg (by omega), dif_pos (by rw [List.length_append]; omega),
          keyAt_append hfits]
        rfl
      · rw [dif_neg hfits, if_pos (by omega)]

/-- What `Parse` has made of the header when it goes on to the payload, or stops. -/
theorem parseHeader_cases (h : f.buffer.Holds bytes) (htwo : 2 ≤ bytes.length)
    (hunread : f.headerReady = false) :
    (header? bytes = none ∧ ∃ f', f.parseHeader = .ok (f', false) ∧ f'.buffer = f.buffer ∧
      f'.headerReady = false) ∨
    ∃ f', header? bytes = some f'.header ∧ f.parseHeader = .ok (f', true) ∧
      f'.buffer = f.buffer ∧ f'.headerReady = true := by
  obtain ⟨tail, hdata⟩ := data_eq_append h
  obtain ⟨first, second, rest, rfl⟩ : ∃ a b l, bytes = a :: b :: l := by
    match bytes, htwo with
    | a :: b :: l, _ => exact ⟨a, b, l, rfl⟩
  let g : WebSocketFrame := { f with
    payloadLen := (second &&& 0x7f).toNat
    payloadStart := 2
    fin := first >>> 7 = 1
    opcode := first &&& 0x0f }
  have hparse : f.parseHeader = g.parseLength >>= fun r =>
      if r.2 then r.1.parseMask (second >>> 7 = 1) else .ok (r.1, false) := by
    rw [parseHeader, hdata]
    rfl
  have hlength := parseLength_eq (f := g) h rfl rfl
  rw [hparse, hlength]
  simp only [header?]
  cases hfield : lengthField (first :: second :: rest) (second &&& 0x7f).toNat with
  | none => exact .inl ⟨rfl, g, rfl, rfl, hunread⟩
  | some field =>
      obtain ⟨lengthEnd, len⟩ := field
      have hmask := parseMask_eq (f := { g with payloadLen := len, payloadStart := lengthEnd }) h
        (second >>> 7 = 1)
      dsimp only at hmask
      simp only [bind, Except.bind, Option.bind, if_true, hmask]
      cases hkey : keyField (first :: second :: rest) lengthEnd (second >>> 7 = 1) with
      | none => exact .inl ⟨rfl, _, rfl, rfl, hunread⟩
      | some field =>
          obtain ⟨start, key⟩ := field
          refine .inr ⟨_, ?_, rfl, rfl, rfl⟩
          -- a key is there exactly when the bit says so
          have hkey' : (if (decide (second >>> 7 = 1)) = true then some (key.getD g.maskingKey)
              else none) = key := by
            rw [keyField] at hkey
            split_ifs at hkey with hmasked
            · cases hkey
              rw [if_pos hmasked]
              rfl
            · cases hkey
              rw [if_neg hmasked]
          simp only [header, hkey']
          exact congrArg some rfl

/-- A length is an `int64_t`. -/
theorem lengthField_ge {short : Nat} {field : Nat × Int}
    (h : lengthField bytes short = some field) : -2 ^ 63 ≤ field.2 := by
  rw [lengthField] at h
  split_ifs at h with hlong hfits hmiddle hfits
  · cases h
    have := BitVec.le_two_mul_toInt (x := (u64be bytes 2 hfits).toBitVec)
    dsimp only
    omega
  · cases h
    dsimp only
    omega
  · cases h
    dsimp only
    omega

theorem header?_len_ge {h : Header} (hread : header? bytes = some h) : -2 ^ 63 ≤ h.len := by
  obtain ⟨_, _, _, rfl, _, hlength, -⟩ := header?_eq_some.mp hread
  exact lengthField_ge hlength

/-! ## The payload -/

/-- A frame has been parsed: `HandleFrame` finds its payload where it looks, and behind it
    what has arrived besides. -/
structure Whole (f : WebSocketFrame) (frame : Frame) (used : Nat) (bytes : List UInt8) :
    Prop where
  fin : f.fin = frame.fin
  opcode : f.opcode = frame.opcode
  len : f.payloadLen = frame.payload.length
  ends : f.payloadStart + frame.payload.length = used
  payload : ∃ tail, f.payloadData = frame.payload ++ tail
  rest : ∃ taken, taken.length = used ∧ f.buffer.Holds (taken ++ bytes.drop used)

theorem parsePayload_overflow (hend : 2 ^ 63 ≤ f.payloadStart + f.payloadLen) :
    f.parsePayload = .error .overflow := by
  have hint : int64 (f.payloadStart + f.payloadLen) = .error .overflow := if_neg (by omega)
  rw [parsePayload, hint]
  rfl

/-- Where the sum is an `int64_t`, the payload is waited for or unmasked. -/
theorem parsePayload_eq (hmin : -2 ^ 63 ≤ f.payloadLen)
    (hmax : f.payloadStart + f.payloadLen < 2 ^ 63) :
    f.parsePayload = if f.buffer.dataLen < f.payloadStart + f.payloadLen then .ok (f, 1)
      else if f.maskEnable then
        maskBytes f.maskingKey (sizeOf f.payloadLen)
          (f.buffer.buffer.drop (f.buffer.start + f.payloadStart)) >>= fun p =>
        .ok ({ f with buffer := { f.buffer with
          buffer := f.buffer.buffer.take (f.buffer.start + f.payloadStart) ++ p } }, 0)
      else .ok (f, 0) := by
  have hint : int64 (f.payloadStart + f.payloadLen) = .ok (f.payloadStart + f.payloadLen) :=
    if_pos (by omega)
  rw [parsePayload, hint]
  rfl

/-- The loops over a payload of negative length run out of the allocation. -/
theorem parsePayload_negative (h : f.buffer.Holds bytes) (hmin : -2 ^ 63 ≤ f.payloadLen)
    (hneg : f.payloadLen < 0) (hstart : f.payloadStart ≤ bytes.length)
    (hmask : f.maskEnable = true) : f.parsePayload = .error .outOfRange := by
  have hlength := h.length
  have hends := h.ends
  have hinside := h.inside
  have hwhole := h.whole
  have hsmall := h.small
  have hreserve : preReserveHeaderSize = 200 := rfl
  have hsize : 2 ^ 63 ≤ sizeOf f.payloadLen := by
    rw [sizeOf]
    omega
  have hout := @maskBytes_error f.maskingKey (sizeOf f.payloadLen)
    (f.buffer.buffer.drop (f.buffer.start + f.payloadStart)) (by rw [List.length_drop]; omega)
  rw [parsePayload_eq hmin (by omega), if_neg (by omega), if_pos hmask, hout]
  rfl

theorem sizeOf_natCast {n : Nat} (h : n < 2 ^ 63) : sizeOf n = n := by
  rw [sizeOf]
  omega

/-- A payload all there is unmasked in place. -/
theorem parsePayload_whole (h : f.buffer.Holds bytes) {len : Nat} (hlen : f.payloadLen = len)
    (hfits : f.payloadStart + len ≤ bytes.length) :
    ∃ f', f.parsePayload = .ok (f', 0) ∧ f'.buffer.bufferSize = f.buffer.bufferSize ∧
      Whole f' { fin := f.fin, opcode := f.opcode
                 payload := f.header.unmasked (slice bytes f.payloadStart len) }
        (f.payloadStart + len) bytes := by
  have hlength := h.length
  have hends := h.ends
  have hinside := h.inside
  have hsize := h.size
  have hsmall := h.small
  have hslice : (slice bytes f.payloadStart len).length = len := length_slice hfits
  obtain ⟨tail, hdata⟩ := data_eq_append h
  have hpayload : f.payloadData = slice bytes f.payloadStart len ++
      ((bytes.drop f.payloadStart).drop len ++ tail) := by
    rw [payloadData, hdata, List.drop_append_of_le_length (by omega), ← List.append_assoc, slice,
      List.take_append_drop]
  rw [parsePayload_eq (by omega) (by omega), if_neg (by omega)]
  cases hmask : f.maskEnable with
  | false =>
      rw [if_neg Bool.false_ne_true]
      have hplain : f.header.unmasked (slice bytes f.payloadStart len) =
          slice bytes f.payloadStart len := by
        simp only [header, hmask, Header.unmasked]
        rfl
      rw [hplain]
      refine ⟨f, rfl, rfl, rfl, rfl, ?_, ?_, ⟨_, hpayload⟩, ?_⟩
      · rw [hlen, hslice]
      · rw [hslice]
      · refine ⟨bytes.take (f.payloadStart + len), List.length_take_of_le hfits, ?_⟩
        rw [List.take_append_drop]
        exact h
  | true =>
      rw [if_pos rfl]
      have hplain : f.header.unmasked (slice bytes f.payloadStart len) =
          masked f.maskingKey 0 (slice bytes f.payloadStart len) := by
        simp only [header, hmask, Header.unmasked]
        rfl
      have hmasked : (masked f.maskingKey 0 (slice bytes f.payloadStart len)).length = len := by
        rw [length_masked, hslice]
      have hmemory : (f.buffer.buffer.drop (f.buffer.start + f.payloadStart)).take len =
          slice bytes f.payloadStart len := by
        rw [← List.drop_drop]
        show f.payloadData.take len = _
        rw [hpayload, List.take_left' hslice]
      have hloops := @maskBytes_eq f.maskingKey len
        (f.buffer.buffer.drop (f.buffer.start + f.payloadStart)) (by rw [List.length_drop]; omega)
      rw [hmemory] at hloops
      have hplace : f.buffer.start + f.payloadStart +
          (masked f.maskingKey 0 (slice bytes f.payloadStart len)).length ≤
            f.buffer.buffer.length := by omega
      -- the unmasked payload over the masked one
      have hpatch : f.buffer.buffer.take (f.buffer.start + f.payloadStart) ++
          (masked f.maskingKey 0 (slice bytes f.payloadStart len) ++
            (f.buffer.buffer.drop (f.buffer.start + f.payloadStart)).drop len) =
          patch f.buffer.buffer (f.buffer.start + f.payloadStart)
            (masked f.maskingKey 0 (slice bytes f.payloadStart len)) := by
        rw [patch, hmasked, List.drop_drop, List.append_assoc]
      rw [hlen, sizeOf_natCast (by omega), hloops, hplain]
      refine ⟨_, rfl, rfl, rfl, rfl, ?_, ?_, ?_, ?_⟩
      · dsimp only
        rw [hmasked]
      · dsimp only
        rw [hmasked]
      · refine ⟨f.buffer.buffer.drop (f.buffer.start + f.payloadStart + len), ?_⟩
        show ((_ : List UInt8).drop f.buffer.start).drop f.payloadStart = _
        rw [hpatch, List.drop_drop, drop_patch (by omega), hmasked]
      · refine ⟨bytes.take f.payloadStart ++
          masked f.maskingKey 0 (slice bytes f.payloadStart len), ?_, ?_⟩
        · rw [List.length_append, hmasked, List.length_take_of_le (by omega)]
        · have hbytes : bytes.take f.payloadStart ++
              masked f.maskingKey 0 (slice bytes f.payloadStart len) ++
              bytes.drop (f.payloadStart + len) = patch bytes f.payloadStart
                (masked f.maskingKey 0 (slice bytes f.payloadStart len)) := by
            rw [patch, hmasked]
          rw [hbytes]
          dsimp only
          rw [hpatch]
          refine ⟨?_, hends, hinside, h.reserved, ?_, ?_, hsmall, ?_⟩
          · rw [length_patch (by omega)]
            exact hlength
          · show f.buffer.bufferSize ≤ (patch _ _ _).length
            rw [length_patch hplace]
            exact hsize
          · show (patch _ _ _).length ≤ _
            rw [length_patch hplace]
            exact h.whole
          · show slice (patch _ _ _) f.buffer.start f.buffer.dataLen = _
            rw [slice_patch_within (by omega) (by omega)]
            exact congrArg (patch · _ _) h.bytes

/-! ## A call -/

/-- What `Parse` has come to when the bytes `bytes` have arrived and the allocation is at least
    `size` long. -/
def Parsed (bytes : List UInt8) (size : Nat) (result : Except Fault (WebSocketFrame × Int)) :
    Prop :=
  match front bytes with
  | .more => ∃ f', result = .ok (f', 1) ∧ Pending f' bytes ∧ size ≤ f'.buffer.bufferSize
  | .item frame used =>
    ∃ f', result = .ok (f', 0) ∧ Whole f' frame used bytes ∧ size ≤ f'.buffer.bufferSize
  | .bad h => (0 ≤ h.len → result = .error .overflow) ∧
    (h.len < 0 → h.key ≠ none → result = .error .outOfRange) ∧
    (h.len < 0 → h.key = none → ∃ f', result = .ok (f', 0) ∧ Pending f' bytes ∧
      f'.header = h ∧ size ≤ f'.buffer.bufferSize)

theorem Parsed.mono {size size' : Nat} {result : Except Fault (WebSocketFrame × Int)}
    (hle : size ≤ size') (h : Parsed bytes size' result) : Parsed bytes size result := by
  cases hfront : front bytes with
  | more =>
      rw [Parsed, hfront] at h ⊢
      obtain ⟨f', hok, hpending, hsize⟩ := h
      exact ⟨f', hok, hpending, Nat.le_trans hle hsize⟩
  | item frame used =>
      rw [Parsed, hfront] at h ⊢
      obtain ⟨f', hok, hwhole, hsize⟩ := h
      exact ⟨f', hok, hwhole, Nat.le_trans hle hsize⟩
  | bad header =>
      rw [Parsed, hfront] at h ⊢
      obtain ⟨hover, hout, hstall⟩ := h
      refine ⟨hover, hout, fun hneg hkey => ?_⟩
      obtain ⟨f', hok, hpending, hheader, hsize⟩ := hstall hneg hkey
      exact ⟨f', hok, hpending, hheader, Nat.le_trans hle hsize⟩

/-- The header read, `Parse` comes to what the bytes say. -/
theorem parsed_payload (h : f.buffer.Holds bytes) (hread : header? bytes = some f.header) :
    Parsed bytes f.buffer.bufferSize f.parsePayload := by
  have hlength := h.length
  have hends := h.ends
  have hinside := h.inside
  have hsmall := h.small
  have hmin : -2 ^ 63 ≤ f.payloadLen := header?_len_ge hread
  have hstart : f.payloadStart ≤ bytes.length := (header?_le hread).2
  have hpending : Pending f bytes := ⟨h, fun _ => hread⟩
  rw [Parsed]
  cases hfront : front bytes with
  | more =>
      obtain ⟨hfair, hshort⟩ := front_more_iff.mp hfront _ hread
      have hfair' : ¬ (f.payloadLen < 0 ∨ 2 ^ 63 ≤ f.payloadStart + f.payloadLen) := hfair
      have hshort' : (bytes.length : Int) < f.payloadStart + f.payloadLen := hshort
      refine ⟨f, ?_, hpending, Nat.le_refl _⟩
      rw [parsePayload_eq hmin (by omega), if_pos (by omega)]
  | item frame used =>
      obtain ⟨header, len, hread', hlen, -, hfits, rfl, rfl⟩ := front_item_iff.mp hfront
      cases hread.symm.trans hread'
      obtain ⟨f', hok, hsize, hwhole⟩ := parsePayload_whole h hlen hfits
      exact ⟨f', hok, hwhole, Nat.le_of_eq hsize.symm⟩
  | bad header =>
      obtain ⟨hread', hhostile⟩ := front_bad_iff.mp hfront
      cases hread.symm.trans hread'
      have hhostile' : f.payloadLen < 0 ∨ 2 ^ 63 ≤ f.payloadStart + f.payloadLen := hhostile
      refine ⟨fun hpos => ?_, fun hneg hkey => ?_, fun hneg hkey => ?_⟩
      · have hpos' : 0 ≤ f.payloadLen := hpos
        exact parsePayload_overflow (by omega)
      · refine parsePayload_negative h hmin hneg hstart ?_
        cases hmask : f.maskEnable with
        | true => rfl
        | false => exact absurd (by simp only [WebSocketFrame.header, hmask]; rfl) hkey
      · have hneg' : f.payloadLen < 0 := hneg
        refine ⟨f, ?_, hpending, rfl, Nat.le_refl _⟩
        have hmask : f.maskEnable = false := by
          cases hmask : f.maskEnable with
          | false => rfl
          | true => simp [WebSocketFrame.header, hmask] at hkey
        rw [parsePayload_eq hmin (by omega), if_neg (by omega), hmask,
          if_neg Bool.false_ne_true]

/-- **`Parse` finds what the bytes say**, whatever part of them came in earlier calls. -/
theorem parse_cases (h : Pending f bytes) (input : List UInt8)
    (hroom : bytes.length + input.length + 2 * extraLen < 2 ^ 31) :
    (f.buffer.Overlapping input.length ∧ f.parse input = .error .overlap) ∨
      (¬ f.buffer.Overlapping input.length ∧
        Parsed (bytes ++ input) f.buffer.bufferSize (f.parse input)) := by
  rcases DataBuffer.appendData_holds h.holds (Nat.le_refl input.length) hroom with
    ⟨hover, hfail⟩ | ⟨hclear, buffer, hok, hholds, hsize⟩
  · refine .inl ⟨hover, ?_⟩
    rw [parse, hfail]
    rfl
  · rw [List.take_length] at hholds
    refine .inr ⟨hclear, ?_⟩
    have hlength := hholds.length
    have hparse : f.parse input = if buffer.dataLen < 2 then .ok ({ f with buffer := buffer }, 1)
        else if f.headerReady then parsePayload { f with buffer := buffer }
        else parseHeader { f with buffer := buffer } >>= fun r =>
          if r.2 then r.1.parsePayload else .ok (r.1, 1) := by
      rw [parse, hok]
      rfl
    rw [hparse]
    -- no header yet
    have hwait {f' : WebSocketFrame} (hnone : header? (bytes ++ input) = none)
        (hbuffer : f'.buffer = buffer) (hunread : f'.headerReady = false) :
        Parsed (bytes ++ input) f.buffer.bufferSize (.ok (f', 1)) := by
      have hmore : front (bytes ++ input) = .more :=
        front_more_iff.mpr fun _ hread => by cases hnone.symm.trans hread
      rw [Parsed, hmore]
      exact ⟨f', rfl, ⟨hbuffer ▸ hholds, fun hread => by cases hunread.symm.trans hread⟩,
        hbuffer ▸ hsize⟩
    by_cases hready : f.headerReady = true
    · have hread := header?_append (h.cached hready) input
      have htwo := (header?_le hread)
      rw [if_neg (by omega), if_pos hready]
      exact Parsed.mono hsize
        (parsed_payload (f := { f with buffer := buffer }) hholds hread)
    · have hunread := Bool.eq_false_iff.mpr hready
      by_cases htwo : buffer.dataLen < 2
      · rw [if_pos htwo]
        refine hwait ?_ rfl hunread
        match hbytes : bytes ++ input with
        | [] | [_] => rfl
        | _ :: _ :: _ =>
            rw [hbytes] at hlength
            simp only [List.length_cons] at hlength
            omega
      · rw [if_neg htwo, if_neg hready]
        rcases parseHeader_cases (f := { f with buffer := buffer }) hholds (by omega) hunread with
          ⟨hnone, f', hok', hbuffer, hunread'⟩ | ⟨f', hread, hok', hbuffer, hready'⟩
        · rw [hok']
          exact hwait hnone hbuffer hunread'
        · rw [hok']
          have hbuffer' : f'.buffer = buffer := hbuffer
          refine Parsed.mono hsize ?_
          rw [← hbuffer']
          exact parsed_payload (hbuffer' ▸ hholds) hread

end Reading

end WebSocketFrame

end Bifrost.Ws
