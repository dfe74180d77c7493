/-
  `DataBuffer` of the websocket library: the bytes received and not consumed yet.

  They lie in one allocation from `start` to `dataEnd`, at first behind 200 reserved bytes.
  Bytes are appended in place, or behind the old ones moved to the front of the same
  allocation, or of a larger one (`appendData`). Moving within the allocation, the source
  goes over a temporary copy when `data_len_ >= start_` and calls `memcpy` otherwise, which
  overlaps when the bytes reach back over the reserved ones (`Overlapping`). As long as this
  does not happen the buffer is a queue of bytes (`Holds`, `queue_run`).

  The calls of a run (`Call`) consume lengths from 0 on, in a buffer smaller than 2 ^ 31 bytes
  at the start: the branch of `ConsumeData` that gives bytes back for a negative length is in
  `consumeData` and in no such run.
-/
import Bifrost.Lib.Bytes
import Bifrost.Lib.Text
import Bifrost.Lib.Trace

namespace Bifrost.Ws

open Bytes Text

/-- How a call of this library can leave what the language defines: bytes copied over
    themselves, an access outside an allocation, an `int` past its range, an allocation no
    machine has, a loop that does not end. An `assert` that fails and an exception that
    nothing catches end it as well. -/
inductive Fault where
  | overlap
  | outOfRange
  | overflow
  | badAlloc
  | endlessLoop
  | assertion
  | exception
  deriving DecidableEq, Repr

/-- `n` bytes from `src` to the place `i` of another allocation. -/
def memcpy (dst : List UInt8) (i : Nat) (src : List UInt8) (n : Nat) :
    Except Fault (List UInt8) :=
  if i + n ≤ dst.length ∧ n ≤ src.length then .ok (patch dst i (src.take n))
  else .error .outOfRange

/-- The same within one allocation, from the place `j`. -/
def memcpyWithin (data : List UInt8) (i j n : Nat) : Except Fault (List UInt8) :=
  if n = 0 ∨ i + n ≤ j ∨ j + n ≤ i then memcpy data i (data.drop j) n else .error .overlap

/-- `(int)len` of a `size_t`. -/
def toInt (len : Nat) : Int := (BitVec.ofNat 32 len).toInt

/-- An `int` result. -/
def int (i : Int) : Except Fault Int :=
  if -2 ^ 31 ≤ i ∧ i < 2 ^ 31 then .ok i else .error .overflow

def extraLen : Nat := 10 * 1024
def preReserveHeaderSize : Nat := 200

structure DataBuffer where
  buffer : List UInt8
  bufferSize : Nat
  dataLen : Nat
  start : Nat
  dataEnd : Nat
  deriving DecidableEq, Repr

namespace DataBuffer

/-- The fields the constructor sets. The bytes `memset` does not reach are unspecified. -/
def make (dataSize : Nat) : DataBuffer :=
  { buffer := List.replicate (dataSize + preReserveHeaderSize) 0
    bufferSize := dataSize
    dataLen := 0
    start := preReserveHeaderSize
    dataEnd := preReserveHeaderSize }

/-- The constructor. -/
def new (dataSize : Nat) : Except Fault DataBuffer :=
  if 2 ^ 63 ≤ (dataSize + preReserveHeaderSize) % 2 ^ 64 then .error .badAlloc
  else if (dataSize + preReserveHeaderSize) % 2 ^ 64 < dataSize then .error .outOfRange
  else .ok (make dataSize)

/-- The memory from `Data()` on. -/
def data (b : DataBuffer) : List UInt8 := b.buffer.drop b.start

/-- The bytes held. -/
def bytes (b : DataBuffer) : List UInt8 := slice b.buffer b.start b.dataLen

def getNewSize (newLen : Int) : Except Fault Int :=
  if newLen ≤ 50 * 1024 then .ok (50 * 1024)
  else if newLen ≤ 100 * 1024 then .ok (100 * 1024)
  else if newLen ≤ 200 * 1024 then .ok (200 * 1024)
  else if newLen ≤ 500 * 1024 then .ok (500 * 1024)
  else int (newLen + 10 * 1024)

/-- The input behind the bytes already copied to the front of the allocation. -/
def behind (allocation : List UInt8) (bufferSize dataLen : Nat) (input : List UInt8)
    (len : Nat) : Except Fault DataBuffer := do
  let buffer ← memcpy allocation (preReserveHeaderSize + dataLen) input len
  let _ ← int (preReserveHeaderSize + dataLen + len)
  .ok { buffer := buffer, bufferSize := bufferSize, dataLen := dataLen + len,
        start := preReserveHeaderSize, dataEnd := preReserveHeaderSize + (dataLen + len) }

/-- The branch of `AppendData` with a larger allocation. `new` leaves its bytes unspecified. -/
def grow (b : DataBuffer) (input : List UInt8) (len : Nat) : Except Fault DataBuffer := do
  let newLen ← int (b.dataLen + toInt len + extraLen)
  let size ← getNewSize newLen
  let allocation ← memcpy (List.replicate size.toNat 0) preReserveHeaderSize b.data b.dataLen
  behind allocation size.toNat b.dataLen input len

/-- The bytes moved to the front of the allocation they are in, over a temporary copy when
    there are many. -/
def toFront (b : DataBuffer) : Except Fault (List UInt8) :=
  if b.start ≤ b.dataLen then memcpy b.buffer preReserveHeaderSize b.bytes b.dataLen
  else memcpyWithin b.buffer preReserveHeaderSize b.start b.dataLen

/-- The branch that stays in the allocation. -/
def compact (b : DataBuffer) (input : List UInt8) (len : Nat) : Except Fault DataBuffer := do
  let allocation ← b.toFront
  behind allocation b.bufferSize b.dataLen input len

/-- `AppendData`, the input being the memory from `input_data` on. -/
def appendData (b : DataBuffer) (input : List UInt8) (len : Nat) : Except Fault DataBuffer :=
  if len = 0 then .ok b
  else if sizeSub b.bufferSize preReserveHeaderSize < (b.dataEnd + len) % 2 ^ 64 then
    if sizeSub b.bufferSize preReserveHeaderSize ≤ (b.dataLen + len) % 2 ^ 64 then
      b.grow input len
    else b.compact input len
  else do
    let buffer ← memcpy b.buffer b.dataEnd input len
    let _ ← int (b.dataEnd + len)
    .ok { b with buffer := buffer, dataLen := b.dataLen + len, dataEnd := b.dataEnd + len }

/-- `ConsumeData`. The pointer returned is not used. -/
def consumeData (b : DataBuffer) (consumeLen : Int) : DataBuffer :=
  if consumeLen > b.dataLen then b
  else if consumeLen < 0 ∧ b.start + consumeLen < 0 then b
  else { b with start := (b.start + consumeLen).toNat
                dataLen := (b.dataLen - consumeLen).toNat }

def reset (b : DataBuffer) : DataBuffer :=
  { b with start := preReserveHeaderSize, dataEnd := preReserveHeaderSize, dataLen := 0 }

/-! ## A queue of bytes -/

/-- The buffer holds the bytes `queued`. -/
structure Holds (b : DataBuffer) (queued : List UInt8) : Prop where
  length : b.dataLen = queued.length
  ends : b.start + b.dataLen = b.dataEnd
  inside : b.dataEnd ≤ b.bufferSize
  reserved : preReserveHeaderSize ≤ b.bufferSize
  size : b.bufferSize ≤ b.buffer.length
  whole : b.buffer.length ≤ b.bufferSize + preReserveHeaderSize
  small : b.bufferSize < 2 ^ 31
  bytes : b.bytes = queued

/-- The bytes are moved to the front over themselves: fewer are held than lie before them,
    but more than lie between them and the reserved ones. -/
def Overlapping (b : DataBuffer) (len : Nat) : Prop :=
  0 < len ∧ b.bufferSize < b.dataEnd + len + preReserveHeaderSize ∧
    b.dataLen + len + preReserveHeaderSize < b.bufferSize ∧
    0 < b.dataLen ∧ b.dataLen < b.start ∧
    b.start < b.dataLen + preReserveHeaderSize ∧ preReserveHeaderSize < b.start + b.dataLen

instance (b : DataBuffer) (len : Nat) : Decidable (b.Overlapping len) :=
  inferInstanceAs (Decidable (_ ∧ _))

theorem not_overlapping {b : DataBuffer} {queued : List UInt8} (h : Holds b queued) {len : Nat}
    (hshort : 2 * queued.length + len + 2 * preReserveHeaderSize ≤ b.bufferSize) :
    ¬ b.Overlapping len := by
  have := h.length
  have := h.ends
  rintro ⟨-, hfull, -, -, -, hover, -⟩
  omega

theorem holds_make {dataSize : Nat} (hmin : preReserveHeaderSize ≤ dataSize)
    (hmax : dataSize < 2 ^ 31) : Holds (make dataSize) [] where
  length := rfl
  ends := rfl
  inside := hmin
  reserved := hmin
  size := by
    show dataSize ≤ (List.replicate (dataSize + preReserveHeaderSize) (0 : UInt8)).length
    rw [List.length_replicate]
    omega
  whole := by
    show (List.replicate (dataSize + preReserveHeaderSize) (0 : UInt8)).length ≤ _
    exact Nat.le_of_eq List.length_replicate
  small := hmax
  bytes := rfl

section Holding

variable {b : DataBuffer} {queued : List UInt8}

theorem memcpy_ok {dst src : List UInt8} {i n : Nat} (hdst : i + n ≤ dst.length)
    (hsrc : n ≤ src.length) : memcpy dst i src n = .ok (patch dst i (src.take n)) :=
  if_pos ⟨hdst, hsrc⟩

theorem int_ok {i : Int} (hmin : -2 ^ 31 ≤ i) (hmax : i < 2 ^ 31) : int i = .ok i :=
  if_pos ⟨hmin, hmax⟩

/-- Input written right behind the bytes held. -/
theorem bytes_patch {buffer input : List UInt8} {start dataLen len : Nat}
    (hlen : input.length = len) (hfits : start + dataLen + input.length ≤ buffer.length) :
    slice (patch buffer (start + dataLen) input) start (dataLen + len) =
      slice buffer start dataLen ++ input := by
  subst hlen
  rw [slice, ← Nat.add_sub_cancel_left start (dataLen + input.length), ← List.drop_take,
    ← Nat.add_assoc, take_patch hfits, List.drop_append_of_le_length, List.drop_take,
    Nat.add_sub_cancel_left, slice]
  rw [List.length_take]
  omega

theorem behind_holds {allocation input : List UInt8} {bufferSize len : Nat}
    (hheld : slice allocation preReserveHeaderSize queued.length = queued)
    (hsize : bufferSize ≤ allocation.length)
    (hwhole : allocation.length ≤ bufferSize + preReserveHeaderSize) (hsmall : bufferSize < 2 ^ 31)
    (hfits : preReserveHeaderSize + queued.length + len ≤ bufferSize)
    (hlen : len ≤ input.length) :
    ∃ b', behind allocation bufferSize queued.length input len = .ok b' ∧
      Holds b' (queued ++ input.take len) ∧ b'.bufferSize = bufferSize := by
  have htake : (input.take len).length = len := List.length_take_of_le hlen
  have hpatch : preReserveHeaderSize + queued.length + (input.take len).length ≤
      allocation.length := by omega
  refine ⟨_, bind_eq_ok.mpr ⟨_, memcpy_ok (by omega) hlen,
    bind_eq_ok.mpr ⟨_, int_ok (by omega) (by omega), rfl⟩⟩, ?_, rfl⟩
  constructor
  · show queued.length + len = _
    rw [List.length_append, htake]
  · rfl
  · show preReserveHeaderSize + (queued.length + len) ≤ bufferSize
    omega
  · show preReserveHeaderSize ≤ bufferSize
    omega
  · show bufferSize ≤ (patch allocation _ _).length
    rw [length_patch hpatch]
    exact hsize
  · show (patch allocation _ _).length ≤ _
    rw [length_patch hpatch]
    exact hwhole
  · exact hsmall
  · show slice (patch allocation _ _) preReserveHeaderSize (queued.length + len) = _
    rw [bytes_patch htake hpatch, hheld]

theorem toInt_of_lt {len : Nat} (h : len < 2 ^ 31) : toInt len = len := by
  rw [toInt, BitVec.toInt_ofNat', Int.bmod_eq_of_le (by omega) (by omega)]

theorem getNewSize_ok {newLen : Int} (hmax : newLen + 10 * 1024 < 2 ^ 31) (hmin : 0 ≤ newLen) :
    ∃ size, getNewSize newLen = .ok size ∧ newLen ≤ size ∧ size < 2 ^ 31 := by
  unfold getNewSize
  split
  · exact ⟨_, rfl, by omega, by omega⟩
  · split
    · exact ⟨_, rfl, by omega, by omega⟩
    · split
      · exact ⟨_, rfl, by omega, by omega⟩
      · split
        · exact ⟨_, rfl, by omega, by omega⟩
        · exact ⟨_, int_ok (by omega) hmax, by omega, hmax⟩

theorem Holds.data_take (h : Holds b queued) : b.data.take b.dataLen = queued := h.bytes

theorem Holds.le_data (h : Holds b queued) : b.dataLen ≤ b.data.length := by
  have := h.ends
  have := h.inside
  have := h.size
  rw [data, List.length_drop]
  omega

/-- What `memcpy` has put behind the reserved bytes. -/
theorem slice_patch {buffer : List UInt8} (hfits : preReserveHeaderSize + queued.length ≤
    buffer.length) :
    slice (patch buffer preReserveHeaderSize queued) preReserveHeaderSize queued.length =
      queued := by
  rw [slice, drop_patch (by omega), List.take_left]

theorem grow_holds (h : Holds b queued) {input : List UInt8} {len : Nat}
    (hlen : len ≤ input.length) (hroom : queued.length + len + 2 * extraLen < 2 ^ 31)
    (hneed : b.bufferSize ≤ b.dataLen + len + preReserveHeaderSize) :
    ∃ b', b.grow input len = .ok b' ∧ Holds b' (queued ++ input.take len) ∧
      b.bufferSize ≤ b'.bufferSize := by
  have hqueued := h.length
  have hextra : extraLen = 10240 := rfl
  have hreserve : preReserveHeaderSize = 200 := rfl
  obtain ⟨size, hsize, hle, hlt⟩ := @getNewSize_ok (b.dataLen + len + extraLen) (by omega)
    (by omega)
  have hreplicate : (List.replicate size.toNat (0 : UInt8)).length = size.toNat :=
    List.length_replicate
  have hfits : preReserveHeaderSize + queued.length ≤
      (List.replicate size.toNat (0 : UInt8)).length := by omega
  obtain ⟨b', hbehind, hholds, hbuffer⟩ := behind_holds (slice_patch hfits)
    (by rw [length_patch hfits, hreplicate]) (by rw [length_patch hfits, hreplicate]; omega)
    (show size.toNat < 2 ^ 31 by omega)
    (show preReserveHeaderSize + queued.length + len ≤ size.toNat by omega) hlen
  have hcopy : memcpy (List.replicate size.toNat 0) preReserveHeaderSize b.data b.dataLen =
      .ok (patch (List.replicate size.toNat 0) preReserveHeaderSize queued) := by
    rw [memcpy_ok (by omega) h.le_data, h.data_take]
  have hnew : int (b.dataLen + toInt len + extraLen) = .ok (b.dataLen + len + extraLen) := by
    rw [toInt_of_lt (by omega)]
    exact int_ok (by omega) (by omega)
  refine ⟨b', bind_eq_ok.mpr ⟨_, hnew, bind_eq_ok.mpr ⟨_, hsize, bind_eq_ok.mpr ⟨_, hcopy, ?_⟩⟩⟩,
    hholds, ?_⟩
  · rw [hqueued]
    exact hbehind
  · omega

/-- The bytes get to the front, unless they are copied over themselves. -/
theorem compact_holds (h : Holds b queued) {input : List UInt8} {len : Nat} (hpos : 0 < len)
    (hlen : len ≤ input.length)
    (hfull : b.bufferSize < b.dataEnd + len + preReserveHeaderSize)
    (hroom : b.dataLen + len + preReserveHeaderSize < b.bufferSize) :
    (b.Overlapping len ∧ b.compact input len = .error .overlap) ∨
      (¬ b.Overlapping len ∧ ∃ b', b.compact input len = .ok b' ∧
        Holds b' (queued ++ input.take len) ∧ b'.bufferSize = b.bufferSize) := by
  have hqueued := h.length
  have hsize := h.size
  have hfits : preReserveHeaderSize + queued.length ≤ b.buffer.length := by omega
  obtain ⟨b', hbehind, hholds, hbuffer⟩ := behind_holds (slice_patch hfits)
    (by rw [length_patch hfits]; exact hsize) (by rw [length_patch hfits]; exact h.whole) h.small
    (show preReserveHeaderSize + queued.length + len ≤ b.bufferSize by omega) hlen
  have hfront : memcpy b.buffer preReserveHeaderSize b.data b.dataLen =
      .ok (patch b.buffer preReserveHeaderSize queued) := by
    rw [memcpy_ok (by omega) h.le_data, h.data_take]
  have hmoved (hcopy : b.toFront = .ok (patch b.buffer preReserveHeaderSize queued)) :
      b.compact input len = .ok b' := by
    refine bind_eq_ok.mpr ⟨_, hcopy, ?_⟩
    rw [hqueued]
    exact hbehind
  by_cases htemp : b.start ≤ b.dataLen
  · refine .inr ⟨fun hover => ?_, b', hmoved ?_, hholds, hbuffer⟩
    · obtain ⟨-, -, -, -, hlt, -⟩ := hover
      omega
    · rw [toFront, if_pos htemp, h.bytes, memcpy_ok (by omega) (by omega), hqueued,
        List.take_length]
  · by_cases hapart : b.dataLen = 0 ∨ preReserveHeaderSize + b.dataLen ≤ b.start ∨
      b.start + b.dataLen ≤ preReserveHeaderSize
    · refine .inr ⟨fun hover => ?_, b', hmoved ?_, hholds, hbuffer⟩
      · obtain ⟨-, -, -, hheld, -, hback, hahead⟩ := hover
        omega
      · rw [toFront, if_neg htemp, memcpyWithin, if_pos hapart]
        exact hfront
    · refine .inl ⟨⟨hpos, hfull, hroom, by omega, by omega, by omega, by omega⟩, ?_⟩
      rw [compact, toFront, if_neg htemp, memcpyWithin, if_neg hapart]
      rfl

/-- What a call of `AppendData` does to a buffer that is not near the range of an `int`. -/
theorem appendData_holds (h : Holds b queued) {input : List UInt8} {len : Nat}
    (hlen : len ≤ input.length) (hroom : queued.length + len + 2 * extraLen < 2 ^ 31) :
    (b.Overlapping len ∧ b.appendData input len = .error .overlap) ∨
      (¬ b.Overlapping len ∧ ∃ b', b.appendData input len = .ok b' ∧
        Holds b' (queued ++ input.take len) ∧ b.bufferSize ≤ b'.bufferSize) := by
  have hqueued := h.length
  have hends := h.ends
  have hinside := h.inside
  have hreserved := h.reserved
  have hsmall := h.small
  have hsize := h.size
  have hextra : extraLen = 10240 := rfl
  have hsub : sizeSub b.bufferSize preReserveHeaderSize = b.bufferSize - preReserveHeaderSize :=
    if_pos hreserved
  have hend : (b.dataEnd + len) % 2 ^ 64 = b.dataEnd + len := Nat.mod_eq_of_lt (by omega)
  have hheld : (b.dataLen + len) % 2 ^ 64 = b.dataLen + len := Nat.mod_eq_of_lt (by omega)
  rw [appendData, hsub, hend, hheld]
  split
  · next hzero =>
      refine .inr ⟨fun hover => ?_, b, rfl, ?_, Nat.le_refl _⟩
      · have := hover.1
        omega
      · rw [hzero, List.take_zero, List.append_nil]
        exact h
  · next hzero =>
      split
      · next hfull =>
          split
          · next hneed =>
              refine .inr ⟨fun hover => ?_, grow_holds h hlen hroom (by omega)⟩
              have := hover.2.2.1
              omega
          · next hneed =>
              rcases compact_holds h (by omega) hlen (by omega) (by omega) with
                hover | ⟨hclear, b', hok, hholds, heq⟩
              · exact .inl hover
              · exact .inr ⟨hclear, b', hok, hholds, heq ▸ Nat.le_refl _⟩
      · next hfits =>
          have htake : (input.take len).length = len := List.length_take_of_le hlen
          have hpatch : b.start + b.dataLen + (input.take len).length ≤ b.buffer.length := by
            omega
          refine .inr ⟨fun hover => ?_, _, bind_eq_ok.mpr ⟨_, memcpy_ok (by omega) hlen,
            bind_eq_ok.mpr ⟨_, int_ok (by omega) (by omega), rfl⟩⟩, ?_, Nat.le_refl _⟩
          · have := hover.2.1
            omega
          constructor
          · show b.dataLen + len = _
            rw [List.length_append, htake, hqueued]
          · show b.start + (b.dataLen + len) = b.dataEnd + len
            omega
          · show b.dataEnd + len ≤ b.bufferSize
            omega
          · exact hreserved
          · show b.bufferSize ≤ (patch b.buffer b.dataEnd (input.take len)).length
            rw [length_patch (by omega)]
            exact hsize
          · show (patch b.buffer b.dataEnd (input.take len)).length ≤ _
            rw [length_patch (by omega)]
            exact h.whole
          · exact hsmall
          · show slice (patch b.buffer b.dataEnd (input.take len)) b.start (b.dataLen + len) = _
            rw [← hends, bytes_patch htake hpatch]
            exact congrArg (· ++ _) h.bytes

theorem consumeData_holds (h : Holds b queued) {n : Nat} (hn : n ≤ queued.length) :
    Holds (b.consumeData n) (queued.drop n) ∧ (b.consumeData n).bufferSize = b.bufferSize := by
  have hqueued := h.length
  have hends := h.ends
  have hconsume : b.consumeData n = { b with start := b.start + n, dataLen := b.dataLen - n } := by
    rw [consumeData, if_neg (by omega), if_neg (by omega), DataBuffer.mk.injEq]
    exact ⟨rfl, rfl, by omega, by omega, rfl⟩
  rw [hconsume]
  refine ⟨⟨?_, ?_, h.inside, h.reserved, h.size, h.whole, h.small, ?_⟩, rfl⟩
  · show b.dataLen - n = _
    rw [List.length_drop, hqueued]
  · show b.start + n + (b.dataLen - n) = b.dataEnd
    omega
  · show slice b.buffer (b.start + n) (b.dataLen - n) = _
    rw [← h.bytes, bytes, slice, slice, List.drop_take, List.drop_drop]

theorem consumeData_more (h : Holds b queued) {n : Nat} (hn : queued.length < n) :
    b.consumeData n = b := by
  have := h.length
  exact if_pos (by omega)

theorem reset_holds (h : Holds b queued) : Holds b.reset [] :=
  ⟨rfl, rfl, h.reserved, h.reserved, h.size, h.whole, h.small, rfl⟩

end Holding

/-! ## Calls of a run -/

inductive Call where
  | append (data : List UInt8)
  | consume (len : Nat)
  | reset
  deriving DecidableEq, Repr

def call (b : DataBuffer) : Call → Except Fault DataBuffer
  | .append data => b.appendData data data.length
  | .consume len => .ok (b.consumeData len)
  | .reset => .ok b.reset

/-- The call does not copy bytes over themselves. -/
def Clear (b : DataBuffer) : Call → Prop
  | .append data => ¬ b.Overlapping data.length
  | _ => True

instance (b : DataBuffer) : ∀ c, Decidable (b.Clear c)
  | .append data => inferInstanceAs (Decidable (¬ b.Overlapping data.length))
  | .consume _ | .reset => isTrue trivial

/-- What the call does to a queue of bytes. It takes nothing out when asked for more than
    there is. -/
def queue (queued : List UInt8) : Call → List UInt8
  | .append data => queued ++ data
  | .consume len => if len ≤ queued.length then queued.drop len else queued
  | .reset => []

/-- The bytes the calls append. -/
def appended : List Call → Nat
  | [] => 0
  | .append data :: calls => data.length + appended calls
  | .consume _ :: calls | .reset :: calls => appended calls

theorem length_queue (queued : List UInt8) (c : Call) (calls : List Call) :
    (queue queued c).length + appended calls ≤ queued.length + appended (c :: calls) := by
  cases c with
  | append data =>
      rw [queue, appended, List.length_append]
      omega
  | consume len =>
      rw [queue, appended]
      split
      · rw [List.length_drop]
        omega
      · omega
  | reset =>
      rw [queue, appended, List.length_nil]
      omega

theorem call_holds {b : DataBuffer} {queued : List UInt8} (h : Holds b queued) (c : Call)
    (hroom : queued.length + appended [c] + 2 * extraLen < 2 ^ 31) :
    (b.Clear c ∧ ∃ b', b.call c = .ok b' ∧ Holds b' (queue queued c)) ∨
      (¬ b.Clear c ∧ b.call c = .error .overlap) := by
  cases c with
  | append data =>
      rw [appended, appended] at hroom
      rcases appendData_holds h (Nat.le_refl data.length) (by omega) with
        ⟨hover, hfail⟩ | ⟨hclear, b', hok, hholds, -⟩
      · exact .inr ⟨fun hclear => hclear hover, hfail⟩
      · rw [List.take_length] at hholds
        exact .inl ⟨hclear, b', hok, hholds⟩
  | consume len =>
      refine .inl ⟨trivial, _, rfl, ?_⟩
      rw [queue]
      split
      · next hle => exact (consumeData_holds h hle).1
      · next hgt =>
          rw [consumeData_more h (by omega)]
          exact h
  | reset => exact .inl ⟨trivial, _, rfl, reset_holds h⟩

/-- **The buffer is a queue of bytes**, through any calls that append less than an `int` can
    count: what it holds at the end are the bytes of the queue, in order. The only way out is
    a `memcpy` over overlapping bytes, which happens exactly at a call that is not `Clear`. -/
theorem data_buffer_run (dataSize : Nat) (hmin : preReserveHeaderSize ≤ dataSize)
    (hmax : dataSize < 2 ^ 31) (calls : List Call)
    (hroom : appended calls + 2 * extraLen < 2 ^ 31) :
    (Trace.EachStep call Clear (make dataSize) calls ∧
      ∃ b, Trace.runE call (make dataSize) calls = .ok b ∧ Holds b (calls.foldl queue [])) ∨
    (¬ Trace.EachStep call Clear (make dataSize) calls ∧
      Trace.runE call (make dataSize) calls = .error .overlap) := by
  -- what is held now and what is still to come give the queue at the end
  let Along (b : DataBuffer) (post : List Call) : Prop := ∃ queued, Holds b queued ∧
    queued.length + appended post + 2 * extraLen < 2 ^ 31 ∧
    post.foldl queue queued = calls.foldl queue []
  have hstep : ∀ b c post, Along b (c :: post) →
      (b.Clear c ∧ ∃ b', b.call c = .ok b' ∧ Along b' post) ∨
        (¬ b.Clear c ∧ b.call c = .error .overlap) := by
    rintro b c post ⟨queued, hholds, hpost, hend⟩
    have hnext := length_queue queued c post
    have hnow : appended [c] ≤ appended (c :: post) := by
      cases c <;> simp [appended]
    rcases call_holds hholds c (by omega) with ⟨hclear, b', hok, hholds'⟩ | hfail
    · exact .inl ⟨hclear, b', hok, _, hholds', by omega, hend⟩
    · exact .inr hfail
  have hstart : Along (make dataSize) calls :=
    ⟨[], holds_make hmin hmax, by rw [List.length_nil]; omega, rfl⟩
  rcases Trace.completes_or_fails hstep calls hstart with
    ⟨hall, b, hrun, queued, hholds, -, hend⟩ | hfail
  · exact .inl ⟨hall, b, hrun, hend ▸ hholds⟩
  · exact .inr hfail

/-- With 600 bytes: 250 go in and 100 out, so that 150 lie behind 100 free ones, and the next
    byte finds no place behind them. After 30 more have gone out it does no harm. -/
theorem data_buffer_run_short :
    Trace.runE call (make 600) [.append (List.replicate 250 1), .consume 100, .append [2]] =
      .error .overlap ∧
    ∃ b, Trace.runE call (make 600) [.append (List.replicate 250 1), .consume 130, .append [2],
      .consume 119] = .ok b ∧ Holds b [1, 2] := by
  have hqueue : List.foldl queue [] [.append (List.replicate 250 1), .consume 130, .append [2],
      .consume 119] = [1, 2] := by decide +kernel
  constructor
  · exact ((data_buffer_run 600 (by decide) (by decide) _ (by decide +kernel)).resolve_left
      fun h => absurd h.1 (by decide +kernel)).2
  · rw [← hqueue]
    exact ((data_buffer_run 600 (by decide) (by decide) _ (by decide +kernel)).resolve_right
      fun h => h.1 (by decide +kernel)).2

end DataBuffer

end Bifrost.Ws
