/-
  `CoreIO::Buffer` (`io/tcp_buffer.h`): bytes between a read and a write position in a vector
  that grows or is compacted in place.

  Indices are numbers without bound, since no vector gets near the bound of `size_t`; their
  differences are taken as in `size_t`, which wraps below 0. The initial size is any `size_t`
  and has no vector behind it yet, so the constructor's sum wraps as well. A failing `assert`
  and an access outside the vector end a call.

  Readers see a queue of bytes. `Holds` ties the positions to what is queued; every operation
  keeps it (`append_holds`, `retrieve_holds`), so that over a whole run the readable bytes
  are those appended less those retrieved, and no `assert` fails, as long as the vector of
  the constructor has the bytes in front (`queue_iff`).
-/
import Bifrost.Lib.Bytes
import Bifrost.Lib.Text
import Bifrost.Lib.Trace

namespace Bifrost.Io

open Text (sizeSub)

/-- The ways a call can go wrong. -/
inductive BufferFault where
  | assertion
  | outOfRange
  deriving DecidableEq

structure Buffer where
  buffer : List UInt8
  readerIndex : Nat
  writerIndex : Nat
  deriving DecidableEq

namespace Buffer

def kCheapPrepend : Nat := 8
def kInitialSize : Nat := 65536 - kCheapPrepend

/-- `Buffer(initialSize)`. -/
def create (initialSize : UInt64) : Buffer :=
  { buffer := List.replicate ((kCheapPrepend + initialSize.toNat) % 2 ^ 64) 0
    readerIndex := kCheapPrepend
    writerIndex := kCheapPrepend }

def readableBytes (b : Buffer) : Nat := sizeSub b.writerIndex b.readerIndex
def writableBytes (b : Buffer) : Nat := sizeSub b.buffer.length b.writerIndex
def prependableBytes (b : Buffer) : Nat := b.readerIndex

/-- The bytes from `peek()` on, to the end of the vector. -/
def peek (b : Buffer) : List UInt8 := b.buffer.drop b.readerIndex

def retrieveAll (b : Buffer) : Buffer :=
  { b with readerIndex := kCheapPrepend, writerIndex := kCheapPrepend }

def retrieve (b : Buffer) (len : Nat) : Except BufferFault Buffer :=
  if len ≤ b.readableBytes then
    if len < b.readableBytes then .ok { b with readerIndex := b.readerIndex + len }
    else .ok b.retrieveAll
  else .error .assertion

def hasWritten (b : Buffer) (len : Nat) : Except BufferFault Buffer :=
  if len ≤ b.writableBytes then .ok { b with writerIndex := b.writerIndex + len }
  else .error .assertion

/-- `buffer_.resize(size)`. -/
def resize (data : List UInt8) (size : Nat) : List UInt8 :=
  data.take size ++ List.replicate (size - data.length) 0

/-- `std::copy` within the vector. -/
def moveBytes (data : List UInt8) (first last dst : Nat) : Except BufferFault (List UInt8) :=
  match Bytes.copyForward (last - first) first dst data with
  | some data => .ok data
  | none => .error .outOfRange

def makeSpace (b : Buffer) (len : Nat) : Except BufferFault Buffer :=
  if b.writableBytes + b.prependableBytes < len + kCheapPrepend then
    .ok { b with buffer := resize b.buffer (b.writerIndex + len) }
  else if kCheapPrepend < b.readerIndex then do
    let readable := b.readableBytes
    let buffer ← moveBytes b.buffer b.readerIndex b.writerIndex kCheapPrepend
    let b : Buffer :=
      { buffer, readerIndex := kCheapPrepend, writerIndex := kCheapPrepend + readable }
    if readable = b.readableBytes then .ok b else .error .assertion
  else .error .assertion

def ensureWritableBytes (b : Buffer) (len : Nat) : Except BufferFault Buffer := do
  let b ← if b.writableBytes < len then b.makeSpace len else .ok b
  if b.writableBytes ≥ len then .ok b else .error .assertion

/-- `std::copy` of the bytes to `beginWrite()`. -/
def writeBytes (b : Buffer) (data : List UInt8) : Except BufferFault Buffer :=
  if b.writerIndex + data.length ≤ b.buffer.length then
    .ok { b with buffer := Bytes.patch b.buffer b.writerIndex data }
  else .error .outOfRange

def append (b : Buffer) (data : List UInt8) : Except BufferFault Buffer := do
  let b ← b.ensureWritableBytes data.length
  let b ← b.writeBytes data
  b.hasWritten data.length

/-! ## Runs -/

inductive Call where
  | append (data : List UInt8)
  | retrieve (len : Nat)
  deriving DecidableEq

def call (b : Buffer) : Call → Except BufferFault Buffer
  | .append data => b.append data
  | .retrieve len => b.retrieve len

/-- A call takes out no more than there is. -/
def WithinReadable (b : Buffer) : Call → Prop
  | .append _ => True
  | .retrieve len => len ≤ b.readableBytes

instance (b : Buffer) : ∀ c, Decidable (b.WithinReadable c)
  | .append _ => isTrue trivial
  | .retrieve len => inferInstanceAs (Decidable (len ≤ b.readableBytes))

/-- The bytes from `peek()` over `readableBytes()`. -/
def readable (b : Buffer) : List UInt8 := b.peek.take b.readableBytes

/-- All bytes that the calls append, in order. -/
def appended (calls : List Call) : List UInt8 :=
  calls.flatMap fun
    | .append data => data
    | .retrieve _ => []

/-- How many bytes the calls retrieve. -/
def retrieved (calls : List Call) : Nat :=
  (calls.map fun
    | .append _ => 0
    | .retrieve len => len).sum

/-! ## The queue -/

/-- The positions are in order, and between them is what is queued. -/
structure Holds (b : Buffer) (queued : List UInt8) : Prop where
  front : kCheapPrepend ≤ b.readerIndex
  order : b.readerIndex ≤ b.writerIndex
  back : b.writerIndex ≤ b.buffer.length
  bytes : b.readable = queued

section Positions

variable {b : Buffer} {queued : List UInt8}

theorem Holds.readableBytes (h : Holds b queued) :
    b.readableBytes = b.writerIndex - b.readerIndex := if_pos h.order

theorem Holds.writableBytes (h : Holds b queued) :
    b.writableBytes = b.buffer.length - b.writerIndex := if_pos h.back

theorem Holds.length (h : Holds b queued) : queued.length = b.readableBytes := by
  have horder := h.order
  have hback := h.back
  rw [← h.bytes, readable, peek, List.length_take, List.length_drop, h.readableBytes]
  omega

/-- In terms of the positions. -/
theorem holds_iff : Holds b queued ↔
    kCheapPrepend ≤ b.readerIndex ∧ b.readerIndex ≤ b.writerIndex ∧
      b.writerIndex ≤ b.buffer.length ∧
      (b.buffer.take b.writerIndex).drop b.readerIndex = queued := by
  have hread (horder : b.readerIndex ≤ b.writerIndex) :
      b.readable = (b.buffer.take b.writerIndex).drop b.readerIndex := by
    rw [readable, Buffer.readableBytes, sizeSub, if_pos horder, peek, List.drop_take]
  constructor
  · rintro ⟨hfront, horder, hback, hbytes⟩
    exact ⟨hfront, horder, hback, hread horder ▸ hbytes⟩
  · rintro ⟨hfront, horder, hback, hbytes⟩
    exact ⟨hfront, horder, hback, (hread horder).trans hbytes⟩

/-- The new buffer is in order unless the size with the bytes in front wraps. -/
theorem holds_create_iff (initialSize : UInt64) :
    Holds (create initialSize) [] ↔ kCheapPrepend + initialSize.toNat < 2 ^ 64 := by
  have hsize := initialSize.toNat_lt
  have hlength : (create initialSize).buffer.length =
      (kCheapPrepend + initialSize.toNat) % 2 ^ 64 := List.length_replicate
  have hfront : kCheapPrepend = 8 := rfl
  constructor
  · intro h
    have hback : kCheapPrepend ≤ (create initialSize).buffer.length := h.back
    omega
  · intro hfits
    refine holds_iff.mpr ⟨Nat.le_refl _, Nat.le_refl _, ?_, List.drop_take_self⟩
    show kCheapPrepend ≤ (create initialSize).buffer.length
    omega

/-! ## Taking out -/

theorem retrieve_holds (h : Holds b queued) {len : Nat} (hlen : len ≤ b.readableBytes) :
    ∃ b', b.retrieve len = .ok b' ∧ Holds b' (queued.drop len) := by
  have hsize := h.length
  obtain ⟨hfront, horder, hback, hbytes⟩ := holds_iff.mp h
  rw [retrieve, if_pos hlen]
  split
  · next hlt =>
      rw [h.readableBytes] at hlt
      refine ⟨_, rfl, holds_iff.mpr ⟨?_, ?_, hback, ?_⟩⟩
      · show kCheapPrepend ≤ b.readerIndex + len
        omega
      · show b.readerIndex + len ≤ b.writerIndex
        omega
      · show (b.buffer.take b.writerIndex).drop (b.readerIndex + len) = queued.drop len
        rw [← hbytes, List.drop_drop]
  · -- all of it: both positions go back to the front
    refine ⟨_, rfl, holds_iff.mpr ⟨Nat.le_refl _, Nat.le_refl _, ?_, ?_⟩⟩
    · show kCheapPrepend ≤ b.buffer.length
      omega
    · show (b.buffer.take kCheapPrepend).drop kCheapPrepend = queued.drop len
      rw [List.drop_take_self, List.drop_eq_nil_of_le (by omega)]

/-! ## Making space -/

theorem take_resize {data : List UInt8} {size n : Nat} (hn : n ≤ data.length) (hle : n ≤ size) :
    (resize data size).take n = data.take n := by
  rw [resize, List.take_append_of_le_length (by rw [List.length_take]; omega), List.take_take,
    Nat.min_eq_left hle]

theorem length_resize {data : List UInt8} {size : Nat} (h : data.length ≤ size) :
    (resize data size).length = size := by
  rw [resize, List.length_append, List.length_take, List.length_replicate]
  omega

/-- The vector grows behind the bytes, or they slide to the front, which makes enough space
    when the test of the source says so. -/
theorem makeSpace_holds (h : Holds b queued) {len : Nat} (hneed : b.writableBytes < len) :
    ∃ b', b.makeSpace len = .ok b' ∧ Holds b' queued ∧ len ≤ b'.writableBytes := by
  obtain ⟨hfront, horder, hback, hbytes⟩ := holds_iff.mp h
  have hreadable := h.readableBytes
  have hwritable := h.writableBytes
  rw [makeSpace, prependableBytes]
  split
  · next hgrow =>
      have hlength := @length_resize b.buffer (b.writerIndex + len) (by omega)
      have hholds : Holds { b with buffer := resize b.buffer (b.writerIndex + len) } queued := by
        refine holds_iff.mpr ⟨hfront, horder, ?_, ?_⟩
        · show b.writerIndex ≤ (resize b.buffer (b.writerIndex + len)).length
          omega
        · show ((resize b.buffer (b.writerIndex + len)).take b.writerIndex).drop b.readerIndex = _
          rw [take_resize hback (Nat.le_add_right _ _), hbytes]
      refine ⟨_, rfl, hholds, ?_⟩
      rw [hholds.writableBytes]
      show len ≤ (resize b.buffer (b.writerIndex + len)).length - b.writerIndex
      omega
  · next hslide =>
      have hmoved : kCheapPrepend < b.readerIndex := by omega
      have hlen : queued.length = b.writerIndex - b.readerIndex := by rw [h.length, hreadable]
      have hslice : (b.buffer.drop b.readerIndex).take (b.writerIndex - b.readerIndex) =
          queued := by
        rw [← List.drop_take, hbytes]
      have hfits : kCheapPrepend + queued.length ≤ b.buffer.length := by omega
      have hcopy : moveBytes b.buffer b.readerIndex b.writerIndex kCheapPrepend =
          .ok (Bytes.patch b.buffer kCheapPrepend queued) := by
        rw [moveBytes, Bytes.copyForward_eq _ hfront (by omega), hslice]
      have hholds : Holds
          { buffer := Bytes.patch b.buffer kCheapPrepend queued
            readerIndex := kCheapPrepend
            writerIndex := kCheapPrepend + b.readableBytes } queued := by
        refine holds_iff.mpr ⟨Nat.le_refl _, Nat.le_add_right _ _, ?_, ?_⟩
        · show kCheapPrepend + b.readableBytes ≤ (Bytes.patch b.buffer kCheapPrepend queued).length
          rw [Bytes.length_patch hfits, ← h.length]
          exact hfits
        · show ((Bytes.patch b.buffer kCheapPrepend queued).take
            (kCheapPrepend + b.readableBytes)).drop kCheapPrepend = queued
          rw [← h.length, Bytes.take_patch hfits, List.drop_left']
          rw [List.length_take]
          omega
      refine ⟨_, ?_, hholds, ?_⟩
      · rw [if_pos hmoved]
        simp only [bind_eq_ok]
        exact ⟨_, hcopy, if_pos (h.length.symm.trans hholds.length)⟩
      · rw [hholds.writableBytes]
        show len ≤ (Bytes.patch b.buffer kCheapPrepend queued).length -
          (kCheapPrepend + b.readableBytes)
        rw [Bytes.length_patch hfits]
        omega

/-! ## Putting in -/

theorem ensureWritableBytes_holds (h : Holds b queued) (len : Nat) :
    ∃ b', b.ensureWritableBytes len = .ok b' ∧ Holds b' queued ∧ len ≤ b'.writableBytes := by
  by_cases hneed : b.writableBytes < len
  · obtain ⟨b', hspace, hholds, hroom⟩ := makeSpace_holds h hneed
    refine ⟨b', ?_, hholds, hroom⟩
    rw [ensureWritableBytes, if_pos hneed, bind_eq_ok]
    exact ⟨b', hspace, if_pos hroom⟩
  · refine ⟨b, ?_, h, by omega⟩
    rw [ensureWritableBytes, if_neg hneed, bind_eq_ok]
    exact ⟨b, rfl, if_pos (by omega)⟩

theorem append_holds (h : Holds b queued) (data : List UInt8) :
    ∃ b', b.append data = .ok b' ∧ Holds b' (queued ++ data) := by
  obtain ⟨b₁, hensure, h₁, hroom⟩ := ensureWritableBytes_holds h data.length
  obtain ⟨hfront, horder, hback, hbytes⟩ := holds_iff.mp h₁
  rw [h₁.writableBytes] at hroom
  have hfits : b₁.writerIndex + data.length ≤ b₁.buffer.length := by omega
  have hlength := Bytes.length_patch hfits
  have hwritable : data.length ≤
      writableBytes { b₁ with buffer := Bytes.patch b₁.buffer b₁.writerIndex data } := by
    show data.length ≤ sizeSub (Bytes.patch b₁.buffer b₁.writerIndex data).length b₁.writerIndex
    rw [hlength, sizeSub, if_pos hback]
    exact hroom
  refine ⟨{ b₁ with
    buffer := Bytes.patch b₁.buffer b₁.writerIndex data
    writerIndex := b₁.writerIndex + data.length }, ?_, holds_iff.mpr ⟨hfront, ?_, ?_, ?_⟩⟩
  · simp only [append, bind_eq_ok]
    exact ⟨b₁, hensure, _, if_pos hfits, if_pos hwritable⟩
  · show b₁.readerIndex ≤ b₁.writerIndex + data.length
    omega
  · show b₁.writerIndex + data.length ≤ (Bytes.patch b₁.buffer b₁.writerIndex data).length
    rw [hlength]
    exact hfits
  · show ((Bytes.patch b₁.buffer b₁.writerIndex data).take (b₁.writerIndex + data.length)).drop
      b₁.readerIndex = queued ++ data
    rw [Bytes.take_patch hfits, List.drop_append_of_le_length, hbytes]
    rw [List.length_take]
    omega

end Positions

/-! ## The whole run -/

theorem appended_concat (calls : List Call) (c : Call) :
    appended (calls ++ [c]) = appended calls ++ appended [c] := List.flatMap_append

theorem retrieved_concat (calls : List Call) (c : Call) :
    retrieved (calls ++ [c]) = retrieved calls + retrieved [c] := by
  rw [retrieved, List.map_append, List.sum_append]
  rfl

/-- The buffer after some calls: it holds what they have appended, less what they have
    retrieved. -/
structure Queued (calls : List Call) (b : Buffer) : Prop where
  holds : Holds b ((appended calls).drop (retrieved calls))
  enough : retrieved calls ≤ (appended calls).length

theorem queued_call {calls : List Call} {b : Buffer} (h : Queued calls b) {c : Call}
    (hc : b.WithinReadable c) : ∃ b', b.call c = .ok b' ∧ Queued (calls ++ [c]) b' := by
  have henough := h.enough
  cases c with
  | append data =>
      obtain ⟨b', hok, hholds⟩ := append_holds h.holds data
      have hdata : appended [.append data] = data := List.append_nil data
      refine ⟨b', hok, ?_, ?_⟩
      · rw [appended_concat, retrieved_concat, hdata]
        show Holds b' ((appended calls ++ data).drop (retrieved calls))
        rw [List.drop_append_of_le_length henough]
        exact hholds
      · rw [appended_concat, retrieved_concat, List.length_append]
        show retrieved calls ≤ _
        omega
  | retrieve len =>
      obtain ⟨b', hok, hholds⟩ := retrieve_holds h.holds hc
      have hlen : len ≤ b.readableBytes := hc
      have hsize := h.holds.length
      rw [List.length_drop] at hsize
      have hnone : appended [.retrieve len] = [] := rfl
      have hsome : retrieved [.retrieve len] = len := Nat.add_zero len
      refine ⟨b', hok, ?_, ?_⟩
      · rw [appended_concat, retrieved_concat, hnone, hsome, List.append_nil, ← List.drop_drop]
        exact hholds
      · rw [appended_concat, retrieved_concat, hnone, hsome, List.append_nil]
        omega

/-- **The buffer is a queue of bytes**: through any calls that take out no more than there is,
    no `assert` fails, and the readable bytes are those appended less those retrieved. -/
theorem queue_run {initialSize : UInt64} (hsize : kCheapPrepend + initialSize.toNat < 2 ^ 64)
    {calls : List Call} (hcalls : Trace.EachStep call WithinReadable (create initialSize) calls)
    (before after : List Call) (hsplit : calls = before ++ after) :
    ∃ b, Trace.runE call (create initialSize) before = .ok b ∧
      Holds b ((appended before).drop (retrieved before)) := by
  obtain ⟨b, hrun, hqueued⟩ := Trace.completes_along
    (show Queued [] (create initialSize) from
      ⟨(holds_create_iff initialSize).mpr hsize, Nat.le_refl 0⟩)
    (fun _ _ _ _ hsplit hrun h => queued_call h ((hsplit ▸ hcalls).of_append hrun).1) before hsplit
  exact ⟨b, hrun, hqueued.holds⟩

/-- **A run finds the queue in order all along exactly when the constructor's sum does not
    wrap**: where it does, the positions lie behind the end of the vector from the start. -/
theorem queue_iff (initialSize : UInt64) (calls : List Call)
    (hcalls : Trace.EachStep call WithinReadable (create initialSize) calls) :
    (∀ before after, calls = before ++ after →
      ∃ b, Trace.runE call (create initialSize) before = .ok b ∧
        Holds b ((appended before).drop (retrieved before))) ↔
    kCheapPrepend + initialSize.toNat < 2 ^ 64 := by
  constructor
  · intro h
    obtain ⟨b, hrun, hholds⟩ := h [] calls rfl
    cases hrun
    exact (holds_create_iff initialSize).mp hholds
  · exact fun hsize before after => queue_run hsize hcalls before after

/-- Eight bytes of room: the second append slides the bytes left, the third grows the vector. -/
theorem queue_iff_nine :
    Trace.EachStep call WithinReadable (create 8)
      [.append [1, 2, 3, 4, 5, 6], .retrieve 4, .append [7, 8, 9, 10, 11, 12], .append [13]] ∧
    ∃ b, Trace.runE call (create 8)
        [.append [1, 2, 3, 4, 5, 6], .retrieve 4, .append [7, 8, 9, 10, 11, 12], .append [13]] =
          .ok b ∧
      Holds b [5, 6, 7, 8, 9, 10, 11, 12, 13] :=
  ⟨by decide, (queue_iff 8
    [.append [1, 2, 3, 4, 5, 6], .retrieve 4, .append [7, 8, 9, 10, 11, 12], .append [13]]
    (by decide)).mpr (by decide) _ [] (List.append_nil _).symm⟩

/-- A size of `2^64 - 8`: the vector is empty, both positions are 8, and a byte that is
    appended lands outside. -/
theorem not_queue :
    ¬ Holds (create 18446744073709551608) [] ∧
    (create 18446744073709551608).buffer = [] ∧ (create 18446744073709551608).writerIndex = 8 ∧
    (create 18446744073709551608).append [1] = .error .outOfRange := by
  have hbuffer : (create 18446744073709551608).buffer = [] :=
    List.eq_nil_of_length_eq_zero List.length_replicate
  refine ⟨fun h => ?_, hbuffer, rfl, by decide⟩
  have hback : 8 ≤ (create 18446744073709551608).buffer.length := h.back
  rw [hbuffer] at hback
  exact absurd hback (by decide)

end Buffer

end Bifrost.Io
