/-
  `WebSocketFrame`: taking frames off the bytes received.

  `Parse` appends what has arrived to the buffer, reads the header as soon as it is whole
  (`header_ready_` says that it has been read) and then waits for the payload, which it
  unmasks in place. What it finds is told by the bytes alone: `front` is the frame at the
  front of a byte string, and `frames` the decoder made of it.
-/
import Bifrost.Lib.Incremental
import Bifrost.Ws.DataBuffer

namespace Bifrost.Ws

open Bytes

abbrev MaskingKey := Vector UInt8 4

/-- A byte of memory. -/
def byteAt (p : List UInt8) (i : Nat) : Except Fault UInt8 :=
  match p[i]? with
  | some b => .ok b
  | none => .error .outOfRange

def keyAt (p : List UInt8) (i : Nat) (h : i + 3 < p.length) : MaskingKey :=
  #v[p[i], p[i + 1], p[i + 2], p[i + 3]]

/-- An `int64_t` result. -/
def int64 (i : Int) : Except Fault Int :=
  if -2 ^ 63 ≤ i ∧ i < 2 ^ 63 then .ok i else .error .overflow

/-- An `int64_t` taken as a `size_t`. -/
def sizeOf (i : Int) : Nat := (i % 2 ^ 64).toNat

/-- An `int64_t` taken as an `int`. -/
def lowInt (i : Int) : Int := (BitVec.ofInt 32 i).toInt

structure WebSocketFrame where
  buffer : DataBuffer := .make extraLen
  payloadStart : Nat := 0
  payloadLen : Int := 0
  opcode : UInt8 := 0
  maskEnable : Bool := false
  fin : Bool := false
  headerReady : Bool := false
  maskingKey : MaskingKey := #v[0, 0, 0, 0]
  deriving DecidableEq, Repr

theorem zero_lt_key : 0 < 4 := by decide

theorem one_lt_key : 1 < 4 := by decide

theorem two_lt_key : 2 < 4 := by decide

theorem three_lt_key : 3 < 4 := by decide

/-- The loop over four bytes at a time. -/
def maskGroups (key : MaskingKey) : Nat → List UInt8 → Except Fault (List UInt8)
  | 0, p => .ok p
  | n + 1, a :: b :: c :: d :: p => do
    let rest ← maskGroups key n p
    .ok ((a ^^^ getElem key 0 zero_lt_key) :: (b ^^^ getElem key 1 one_lt_key) ::
      (c ^^^ getElem key 2 two_lt_key) :: (d ^^^ getElem key 3 three_lt_key) :: rest)
  | _ + 1, _ => .error .outOfRange

/-- The loop over the last `n` bytes, from the place `i` on. -/
def maskTail (key : MaskingKey) : Nat → Nat → List UInt8 → Except Fault (List UInt8)
  | _, 0, p => .ok p
  | i, n + 1, b :: p => do
    let rest ← maskTail key (i + 1) n p
    .ok ((b ^^^ key[i % 4]) :: rest)
  | _, _ + 1, [] => .error .outOfRange

/-- Both loops over the first `len` bytes of the memory `p`. `len & ~3` is the greatest
    multiple of 4 up to `len`. -/
def maskBytes (key : MaskingKey) (len : Nat) (p : List UInt8) : Except Fault (List UInt8) := do
  let tempLen := len / 4 * 4
  let p ← maskGroups key (len / 4) p
  let tail ← maskTail key tempLen (len - tempLen) (p.drop tempLen)
  .ok (p.take tempLen ++ tail)

namespace WebSocketFrame

/-- The part of `Parse` that reads a longer payload length. Like the parts below it says
    whether the bytes it needs are there. -/
def parseLength (f : WebSocketFrame) : Except Fault (WebSocketFrame × Bool) :=
  let p := f.buffer.data
  if f.payloadLen = 127 then
    if f.buffer.dataLen < 10 then .ok (f, false)
    else if h : 2 + 8 ≤ p.length then
      .ok ({ f with payloadLen := (u64be p 2 h).toBitVec.toInt
                    payloadStart := f.payloadStart + 8 }, true)
    else .error .outOfRange
  else if f.payloadLen = 126 then
    if f.buffer.dataLen < 4 then .ok (f, false)
    else if h : 2 + 2 ≤ p.length then
      .ok ({ f with payloadLen := (u16be p 2 h).toNat
                    payloadStart := f.payloadStart + 2 }, true)
    else .error .outOfRange
  else .ok (f, true)

/-- The part that reads the masking key. -/
def parseMask (f : WebSocketFrame) (mask : Bool) : Except Fault (WebSocketFrame × Bool) :=
  let p := f.buffer.data
  if mask then
    if f.buffer.dataLen < f.payloadStart + 4 then .ok ({ f with maskEnable := mask }, false)
    else if h : f.payloadStart + 3 < p.length then
      .ok ({ f with
        maskEnable := mask
        payloadStart := f.payloadStart + 4
        maskingKey := keyAt p f.payloadStart h
        headerReady := true }, true)
    else .error .outOfRange
  else .ok ({ f with maskEnable := mask, headerReady := true }, true)

def parseHeader (f : WebSocketFrame) : Except Fault (WebSocketFrame × Bool) := do
  let first ← byteAt f.buffer.data 0
  let second ← byteAt f.buffer.data 1
  let (f, whole) ← parseLength { f with
    payloadLen := (second &&& 0x7f).toNat
    payloadStart := 2
    fin := first >>> 7 = 1
    opcode := first &&& 0x0f }
  if whole then f.parseMask (second >>> 7 = 1) else .ok (f, false)

/-- The part that waits for the payload and unmasks it. -/
def parsePayload (f : WebSocketFrame) : Except Fault (WebSocketFrame × Int) := do
  let frameEnd ← int64 (f.payloadStart + f.payloadLen)
  if f.buffer.dataLen < frameEnd then .ok (f, 1)
  else if f.maskEnable then do
    let place := f.buffer.start + f.payloadStart
    let p ← maskBytes f.maskingKey (sizeOf f.payloadLen) (f.buffer.buffer.drop place)
    .ok ({ f with buffer := { f.buffer with buffer := f.buffer.buffer.take place ++ p } }, 0)
  else .ok (f, 0)

def parse (f : WebSocketFrame) (input : List UInt8) : Except Fault (WebSocketFrame × Int) := do
  let buffer ← f.buffer.appendData input input.length
  let f := { f with buffer := buffer }
  if buffer.dataLen < 2 then .ok (f, 1)
  else if f.headerReady then f.parsePayload
  else do
    let (f, whole) ← f.parseHeader
    if whole then f.parsePayload else .ok (f, 1)

/-- `GetPayloadData`: the memory it points to. -/
def payloadData (f : WebSocketFrame) : List UInt8 := f.buffer.data.drop f.payloadStart

def payloadIsReady (f : WebSocketFrame) : Bool :=
  lowInt f.payloadLen ≤ (f.buffer.dataLen : Int) - f.payloadStart

def consume (f : WebSocketFrame) (len : Int) : WebSocketFrame :=
  { f with buffer := f.buffer.consumeData (lowInt len) }

def reset (f : WebSocketFrame) : WebSocketFrame :=
  { f with payloadStart := 0, payloadLen := 0, headerReady := false }

end WebSocketFrame

/-! ## What the bytes say -/

structure Frame where
  fin : Bool
  opcode : UInt8
  payload : List UInt8
  deriving DecidableEq, Repr

structure Header where
  fin : Bool
  opcode : UInt8
  key : Option MaskingKey
  start : Nat
  len : Int
  deriving DecidableEq, Repr

/-- Where the length of the payload ends, and the length. -/
def lengthField (bytes : List UInt8) (short : Nat) : Option (Nat × Int) :=
  if short = 127 then
    if h : 2 + 8 ≤ bytes.length then some (10, (u64be bytes 2 h).toBitVec.toInt) else none
  else if short = 126 then
    if h : 2 + 2 ≤ bytes.length then some (4, (u16be bytes 2 h).toNat) else none
  else some (2, short)

/-- The masking key, and where it ends. -/
def keyField (bytes : List UInt8) (start : Nat) (mask : Bool) : Option (Nat × Option MaskingKey) :=
  if mask then
    if h : start + 3 < bytes.length then some (start + 4, some (keyAt bytes start h)) else none
  else some (start, none)

def header? : List UInt8 → Option Header
  | first :: second :: rest => do
    let (lengthEnd, len) ← lengthField (first :: second :: rest) (second &&& 0x7f).toNat
    let (start, key) ← keyField (first :: second :: rest) lengthEnd (second >>> 7 = 1)
    some { fin := first >>> 7 = 1, opcode := first &&& 0x0f, key, start, len }
  | _ => none

/-- Every byte with its byte of the key, the first being the `i`th. -/
def masked (key : MaskingKey) (i : Nat) (bytes : List UInt8) : List UInt8 :=
  bytes.mapIdx fun j b => b ^^^ key[(i + j) % 4]

def Header.unmasked (h : Header) (bytes : List UInt8) : List UInt8 :=
  match h.key with
  | none => bytes
  | some key => masked key 0 bytes

/-- No payload has this length: the code takes it as negative, or the place of the payload's
    end is beyond an `int64_t`. -/
def Header.Hostile (h : Header) : Prop := h.len < 0 ∨ 2 ^ 63 ≤ h.start + h.len

instance (h : Header) : Decidable h.Hostile := inferInstanceAs (Decidable (_ ∨ _))

/-- The frame at the front of the bytes. -/
def front (bytes : List UInt8) : Incremental.Front Frame Header :=
  match header? bytes with
  | none => .more
  | some h =>
    if h.Hostile then .bad h
    else if bytes.length < h.start + h.len then .more
    else .item { fin := h.fin, opcode := h.opcode
                 payload := h.unmasked (slice bytes h.start h.len.toNat) }
      (h.start + h.len.toNat)

/-! ## Masking -/

section Masking

variable {key : MaskingKey}

theorem masked_cons (i : Nat) (b : UInt8) (bytes : List UInt8) :
    masked key i (b :: bytes) = (b ^^^ key[i % 4]) :: masked key (i + 1) bytes := by
  rw [masked, List.mapIdx_cons, masked]
  simp only [Nat.add_zero, Nat.add_assoc, Nat.add_comm 1]

theorem length_masked (i : Nat) (bytes : List UInt8) :
    (masked key i bytes).length = bytes.length := List.length_mapIdx

theorem masked_add_four (i : Nat) (bytes : List UInt8) :
    masked key (i + 4) bytes = masked key i bytes := by
  rw [masked, masked]
  congr 1
  funext j b
  simp only [Nat.add_right_comm i 4 j, Nat.add_mod_right]

theorem masked_append (xs : List UInt8) : ∀ (i : Nat) (ys : List UInt8),
    masked key i (xs ++ ys) = masked key i xs ++ masked key (i + xs.length) ys := by
  induction xs with
  | nil => exact fun _ _ => rfl
  | cons x xs ih =>
      intro i ys
      rw [List.cons_append, masked_cons, masked_cons, ih, List.cons_append, List.length_cons,
        Nat.add_assoc i 1, Nat.add_comm 1]

/-- Masking twice is not masking. -/
theorem masked_masked (bytes : List UInt8) : ∀ i : Nat,
    masked key i (masked key i bytes) = bytes := by
  induction bytes with
  | nil => exact fun _ => rfl
  | cons b bytes ih =>
      intro i
      rw [masked_cons, masked_cons, ih, UInt8.xor_assoc, UInt8.xor_self, UInt8.xor_zero]

theorem maskGroups_eq (n : Nat) : ∀ {p : List UInt8}, 4 * n ≤ p.length →
    maskGroups key n p = .ok (masked key 0 (p.take (4 * n)) ++ p.drop (4 * n)) := by
  induction n with
  | zero => exact fun _ => rfl
  | succ n ih =>
      intro p h
      obtain ⟨a, b, c, d, p, rfl⟩ : ∃ a b c d q, p = a :: b :: c :: d :: q := by
        match p, h with
        | a :: b :: c :: d :: q, _ => exact ⟨a, b, c, d, q, rfl⟩
      have hrest := ih (show 4 * n ≤ p.length by simp only [List.length_cons] at h; omega)
      have hfour : 4 * (n + 1) = 4 * n + 1 + 1 + 1 + 1 := rfl
      rw [maskGroups, hrest, hfour]
      simp only [List.take_succ_cons, List.drop_succ_cons, masked_cons, List.cons_append]
      rw [masked_add_four 0]
      rfl

theorem maskTail_eq (n : Nat) : ∀ {i : Nat} {p : List UInt8}, n ≤ p.length →
    maskTail key i n p = .ok (masked key i (p.take n) ++ p.drop n) := by
  induction n with
  | zero => exact fun _ => by rw [maskTail]; rfl
  | succ n ih =>
      intro i p h
      cases p with
      | nil => exact absurd h (Nat.not_succ_le_zero n)
      | cons b p =>
          rw [maskTail, ih (Nat.le_of_succ_le_succ h), List.take_succ_cons, masked_cons,
            List.drop_succ_cons, List.cons_append]
          rfl

/-- The loops unmask the first `len` bytes. -/
theorem maskBytes_eq {len : Nat} {p : List UInt8} (h : len ≤ p.length) :
    maskBytes key len p = .ok (masked key 0 (p.take len) ++ p.drop len) := by
  have hfour : len / 4 * 4 = 4 * (len / 4) := Nat.mul_comm _ _
  have hle : 4 * (len / 4) ≤ len := Nat.mul_div_le len 4
  have htake : (p.take (4 * (len / 4))).length = 4 * (len / 4) :=
    List.length_take_of_le (by omega)
  have hdrop : (masked key 0 (p.take (4 * (len / 4))) ++ p.drop (4 * (len / 4))).drop
      (4 * (len / 4)) = p.drop (4 * (len / 4)) :=
    List.drop_left' (by rw [length_masked, htake])
  have hsplit : p.take len = p.take (4 * (len / 4)) ++
      (p.drop (4 * (len / 4))).take (len - 4 * (len / 4)) := by
    rw [← List.take_add, Nat.add_sub_cancel' hle]
  have hmod : (4 * (len / 4)).mod 4 = 0 := Nat.mul_mod_right 4 _
  have hoffset : masked key (4 * (len / 4)) = masked key 0 := by
    have hall (n : Nat) : masked key (4 * n) = masked key 0 := by
      induction n with
      | zero => rfl
      | succ n ih =>
          funext bytes
          rw [Nat.mul_succ, masked_add_four, ih]
    exact hall _
  have htail := @maskTail_eq key (len - 4 * (len / 4)) (4 * (len / 4)) (p.drop (4 * (len / 4)))
    (by rw [List.length_drop]; omega)
  rw [hsplit, masked_append, Nat.zero_add, htake]
  unfold maskBytes
  rw [hfour, maskGroups_eq _ (by omega)]
  dsimp only [bind, Except.bind]
  rw [hdrop, htail, List.take_left' (by rw [length_masked, htake]), List.drop_drop,
    Nat.add_sub_cancel' hle, List.append_assoc]

theorem maskGroups_error (n : Nat) : ∀ {p : List UInt8}, p.length < 4 * n →
    maskGroups key n p = .error .outOfRange := by
  induction n with
  | zero => exact fun h => absurd h (Nat.not_lt_zero _)
  | succ n ih =>
      intro p h
      match p, h with
      | [], _ | [_], _ | [_, _], _ | [_, _, _], _ => rfl
      | a :: b :: c :: d :: p, h =>
          rw [maskGroups, ih (by simp only [List.length_cons] at h; omega)]
          rfl

theorem maskTail_error (n : Nat) : ∀ {i : Nat} {p : List UInt8}, p.length < n →
    maskTail key i n p = .error .outOfRange := by
  induction n with
  | zero => exact fun h => absurd h (Nat.not_lt_zero _)
  | succ n ih =>
      intro i p h
      cases p with
      | nil => rw [maskTail]
      | cons b p =>
          rw [maskTail, ih (Nat.lt_of_succ_lt_succ h)]
          rfl

/-- They leave the allocation when it ends before. -/
theorem maskBytes_error {len : Nat} {p : List UInt8} (h : p.length < len) :
    maskBytes key len p = .error .outOfRange := by
  have hle : 4 * (len / 4) ≤ len := Nat.mul_div_le len 4
  unfold maskBytes
  rw [Nat.mul_comm (len / 4) 4]
  by_cases hgroups : p.length < 4 * (len / 4)
  · rw [maskGroups_error _ hgroups]
    rfl
  · have htake : (p.take (4 * (len / 4))).length = 4 * (len / 4) :=
      List.length_take_of_le (by omega)
    rw [maskGroups_eq _ (by omega)]
    dsimp only [bind, Except.bind]
    rw [List.drop_left' (by rw [length_masked, htake]),
      maskTail_error _ (by rw [List.length_drop]; omega)]

end Masking

/-! ## The decoder -/

section Stable

variable {bytes : List UInt8}

theorem lengthField_append {short : Nat} {field : Nat × Int}
    (h : lengthField bytes short = some field) (rest : List UInt8) :
    lengthField (bytes ++ rest) short = some field := by
  have hlength : bytes.length ≤ (bytes ++ rest).length := by
    rw [List.length_append]
    exact Nat.le_add_right _ _
  rw [lengthField] at h
  split_ifs at h with hlong hfits hmiddle hfits
  · rw [lengthField, if_pos hlong, dif_pos (Nat.le_trans hfits hlength), u64be_append hfits, h]
  · rw [lengthField, if_neg hlong, if_pos hmiddle, dif_pos (Nat.le_trans hfits hlength),
      u16be_append hfits, h]
  · rw [lengthField, if_neg hlong, if_neg hmiddle, h]

theorem lengthField_le {short : Nat} {field : Nat × Int} (htwo : 2 ≤ bytes.length)
    (h : lengthField bytes short = some field) : 2 ≤ field.1 ∧ field.1 ≤ bytes.length := by
  rw [lengthField] at h
  split_ifs at h with hlong hfits hmiddle hfits
  all_goals
    cases h
    dsimp only
    omega

theorem keyAt_append {i : Nat} (h : i + 3 < bytes.length) (rest : List UInt8)
    (h' : i + 3 < (bytes ++ rest).length) : keyAt (bytes ++ rest) i h' = keyAt bytes i h := by
  rw [keyAt, List.getElem_append_left (by omega), List.getElem_append_left (by omega),
    List.getElem_append_left (by omega), List.getElem_append_left (by omega), keyAt]

theorem keyField_append {start : Nat} {mask : Bool} {field : Nat × Option MaskingKey}
    (h : keyField bytes start mask = some field) (rest : List UInt8) :
    keyField (bytes ++ rest) start mask = some field := by
  rw [keyField] at h
  split_ifs at h with hmask hfits
  · rw [keyField, if_pos hmask, dif_pos (by rw [List.length_append]; omega),
      keyAt_append hfits, h]
  · rw [keyField, if_neg hmask, h]

theorem keyField_le {start : Nat} {mask : Bool} {field : Nat × Option MaskingKey}
    (hstart : start ≤ bytes.length) (h : keyField bytes start mask = some field) :
    start ≤ field.1 ∧ field.1 ≤ bytes.length := by
  rw [keyField] at h
  split_ifs at h with hmask hfits
  all_goals
    cases h
    dsimp only
    omega

/-- The header of two bytes and more is read field by field. -/
theorem header?_eq_some {h : Header} : header? bytes = some h ↔
    ∃ first second rest, bytes = first :: second :: rest ∧
      ∃ lengthEnd, lengthField bytes (second &&& 0x7f).toNat = some (lengthEnd, h.len) ∧
        keyField bytes lengthEnd (second >>> 7 = 1) = some (h.start, h.key) ∧
        h.fin = decide (first >>> 7 = 1) ∧ h.opcode = first &&& 0x0f := by
  constructor
  · intro hread
    match bytes, hread with
    | first :: second :: rest, hread =>
        obtain ⟨⟨lengthEnd, len⟩, hlength, hread⟩ := Option.bind_eq_some_iff.mp hread
        obtain ⟨⟨start, key⟩, hkey, hread⟩ := Option.bind_eq_some_iff.mp hread
        cases hread
        exact ⟨first, second, rest, rfl, lengthEnd, hlength, hkey, rfl, rfl⟩
  · rintro ⟨first, second, rest, rfl, lengthEnd, hlength, hkey, hfin, hopcode⟩
    obtain ⟨fin, opcode, key, start, len⟩ := h
    cases hfin
    cases hopcode
    exact Option.bind_eq_some_iff.mpr ⟨_, hlength, Option.bind_eq_some_iff.mpr ⟨_, hkey, rfl⟩⟩

theorem header?_append {h : Header} (hread : header? bytes = some h) (rest : List UInt8) :
    header? (bytes ++ rest) = some h := by
  obtain ⟨first, second, tail, rfl, lengthEnd, hlength, hkey, hfin, hopcode⟩ :=
    header?_eq_some.mp hread
  exact header?_eq_some.mpr ⟨first, second, tail ++ rest, rfl, lengthEnd,
    lengthField_append hlength rest, keyField_append hkey rest, hfin, hopcode⟩

theorem header?_le {h : Header} (hread : header? bytes = some h) :
    2 ≤ h.start ∧ h.start ≤ bytes.length := by
  obtain ⟨first, second, tail, rfl, lengthEnd, hlength, hkey, -⟩ := header?_eq_some.mp hread
  have hend := lengthField_le (by simp only [List.length_cons]; omega) hlength
  have hstart := keyField_le hend.2 hkey
  exact ⟨Nat.le_trans hend.1 hstart.1, hstart.2⟩

theorem front_bad_iff {h : Header} :
    front bytes = .bad h ↔ header? bytes = some h ∧ h.Hostile := by
  rw [front]
  cases hread : header? bytes with
  | none => simp
  | some h' =>
      dsimp only
      split_ifs with hhostile hshort
      · constructor
        · intro heq
          cases heq
          exact ⟨rfl, hhostile⟩
        · rintro ⟨heq, -⟩
          cases heq
          rfl
      all_goals
        constructor
        · exact fun heq => by cases heq
        · rintro ⟨heq, hbad⟩
          cases heq
          exact absurd hbad hhostile

theorem front_item_iff {f : Frame} {n : Nat} : front bytes = .item f n ↔
    ∃ h len : _, header? bytes = some h ∧ h.len = (len : Nat) ∧ h.start + len < 2 ^ 63 ∧
      h.start + len ≤ bytes.length ∧ n = h.start + len ∧
      f = { fin := h.fin, opcode := h.opcode,
            payload := h.unmasked (slice bytes h.start len) } := by
  rw [front]
  cases hread : header? bytes with
  | none => simp
  | some h =>
      have hmeans : h.Hostile ↔ h.len < 0 ∨ 2 ^ 63 ≤ h.start + h.len := Iff.rfl
      dsimp only
      constructor
      · intro heq
        split_ifs at heq with hhostile hshort
        cases heq
        rw [hmeans] at hhostile
        exact ⟨h, h.len.toNat, rfl, by omega, by omega, by omega, rfl, rfl⟩
      · rintro ⟨h', len, heq, hlen, hmax, hfits, rfl, rfl⟩
        cases heq
        rw [if_neg (hmeans.not.mpr (by omega)), if_neg (by omega), hlen, Int.toNat_natCast]

theorem front_more_iff : front bytes = .more ↔
    ∀ h, header? bytes = some h → ¬ h.Hostile ∧ bytes.length < h.start + h.len := by
  rw [front]
  cases hread : header? bytes with
  | none => simp
  | some h =>
      dsimp only
      split_ifs with hhostile hshort <;> simp [*]

end Stable

theorem front_used_pos {xs : List UInt8} {f : Frame} {n : Nat} (h : front xs = .item f n) :
    0 < n := by
  obtain ⟨_, _, hread, -, -, -, rfl, -⟩ := front_item_iff.mp h
  have := (header?_le hread).1
  omega

theorem front_used_le {xs : List UInt8} {f : Frame} {n : Nat} (h : front xs = .item f n) :
    n ≤ xs.length := by
  obtain ⟨_, _, -, -, -, hfits, rfl, -⟩ := front_item_iff.mp h
  exact hfits

theorem front_item_append {xs : List UInt8} {f : Frame} {n : Nat} (ys : List UInt8)
    (h : front xs = .item f n) : front (xs ++ ys) = .item f n := by
  obtain ⟨header, len, hread, hlen, hmax, hfits, rfl, rfl⟩ := front_item_iff.mp h
  refine front_item_iff.mpr ⟨header, len, header?_append hread ys, hlen, hmax, ?_, rfl, ?_⟩
  · rw [List.length_append]
    exact Nat.le_add_right_of_le hfits
  · rw [slice, slice, List.drop_append_of_le_length (by omega),
      List.take_append_of_le_length (by rw [List.length_drop]; omega)]

theorem front_bad_append {xs : List UInt8} {header : Header} (ys : List UInt8)
    (h : front xs = .bad header) : front (xs ++ ys) = .bad header := by
  obtain ⟨hread, hhostile⟩ := front_bad_iff.mp h
  exact front_bad_iff.mpr ⟨header?_append hread ys, hhostile⟩

/-- Frames taken off the front of the bytes received. -/
def frames : Incremental.Decoder UInt8 Frame Header where
  front := front
  used_pos := front_used_pos
  used_le := front_used_le
  item_append := front_item_append
  bad_append := front_bad_append

end Bifrost.Ws
