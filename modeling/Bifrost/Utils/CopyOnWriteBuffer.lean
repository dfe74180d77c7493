/-
  `RTCUtils::CopyOnWriteBuffer` (`utils/copy_on_write_buffer.h`, `.cc`), over `RTCUtils::Buffer`
  (`utils/buffer.h`) and `scoped_refptr` (`utils/scoped_refptr.h`).

  Copies and slices share one `Buffer` and count the references to it. A call that changes the
  contents of one first makes a copy of its own, unless it holds the only reference. So every
  object behaves as if it had its bytes to itself (`value_semantics`), no buffer that is gone is
  referred to, and none is left that nobody refers to.

  New memory holds anything (`Junk`). A call with bytes gets bytes of elsewhere: `AppendData` of
  a buffer to itself would read what it has just let go. Left out: `size_t` overflow, and two
  threads that call at once.
-/
import Bifrost.Lib.RefCount

namespace Bifrost.Utils

open RefCount

/-- What newly allocated memory holds. -/
abbrev Junk := Nat → UInt8

/-- `Buffer`: `data_` with its `capacity_` bytes. -/
structure Buffer where
  data : List UInt8
  size : Nat
  size_le : size ≤ data.length

namespace Buffer

def capacity (b : Buffer) : Nat := b.data.length

/-- `new T[n]`. -/
def allocate (junk : Junk) (n : Nat) : List UInt8 := (List.range n).map junk

theorem length_allocate (junk : Junk) (n : Nat) : (allocate junk n).length = n := by
  rw [allocate, List.length_map, List.length_range]

/-- `Buffer(size, capacity)`. -/
def ofSize (junk : Junk) (size capacity : Nat) : Buffer where
  data := allocate junk (max size capacity)
  size := size
  size_le := by rw [length_allocate]; exact Nat.le_max_left _ _

/-- `Buffer(data, size, capacity)`. -/
def ofData (junk : Junk) (bytes : List UInt8) (capacity : Nat) : Buffer where
  data := bytes ++ (allocate junk (max bytes.length capacity)).drop bytes.length
  size := bytes.length
  size_le := by rw [List.length_append]; exact Nat.le_add_right _ _

def ensureCapacityWithHeadroom (b : Buffer) (junk : Junk) (capacity : Nat)
    (extraHeadroom : Bool) : Buffer :=
  if capacity ≤ b.capacity then b
  else
    let newCapacity :=
      if extraHeadroom then max capacity (b.capacity + b.capacity / 2) else capacity
    { data := b.data.take b.size ++ (allocate junk newCapacity).drop b.size
      size := b.size
      size_le := by
        rw [List.length_append, List.length_take_of_le b.size_le]
        exact Nat.le_add_right _ _ }

theorem ensureCapacity_spec (b : Buffer) (junk : Junk) (capacity : Nat) (extraHeadroom : Bool) :
    (b.ensureCapacityWithHeadroom junk capacity extraHeadroom).size = b.size ∧
    (b.ensureCapacityWithHeadroom junk capacity extraHeadroom).data.take b.size =
      b.data.take b.size ∧
    capacity ≤ (b.ensureCapacityWithHeadroom junk capacity extraHeadroom).data.length := by
  have hsize := b.size_le
  unfold ensureCapacityWithHeadroom
  split
  · next h => exact ⟨rfl, rfl, h⟩
  · next h =>
      have hlt : b.data.length < capacity := Nat.lt_of_not_le h
      refine ⟨rfl, ?_, ?_⟩
      · exact List.take_left' (List.length_take_of_le b.size_le)
      · dsimp only
        rw [List.length_append, List.length_take_of_le b.size_le, List.length_drop,
          length_allocate]
        split <;> omega

def setSize (b : Buffer) (junk : Junk) (size : Nat) : Buffer where
  data := (b.ensureCapacityWithHeadroom junk size true).data
  size := size
  size_le := (b.ensureCapacity_spec junk size true).2.2

def clear (b : Buffer) : Buffer where
  data := b.data
  size := 0
  size_le := Nat.zero_le _

def appendData (b : Buffer) (junk : Junk) (bytes : List UInt8) : Buffer where
  data :=
    let grown := b.ensureCapacityWithHeadroom junk (b.size + bytes.length) true
    grown.data.take b.size ++ bytes ++ grown.data.drop (b.size + bytes.length)
  size := b.size + bytes.length
  size_le := by
    have hlen := (b.ensureCapacity_spec junk (b.size + bytes.length) true).2.2
    dsimp only
    rw [List.length_append, List.length_append, List.length_take_of_le (by omega)]
    omega

def setData (b : Buffer) (junk : Junk) (bytes : List UInt8) : Buffer :=
  b.clear.appendData junk bytes

/-- `data()[k] = byte`. -/
def setByte (b : Buffer) (k : Nat) (byte : UInt8) : Buffer where
  data := b.data.set k byte
  size := b.size
  size_le := by rw [List.length_set]; exact b.size_le

/-- The bytes that a handle with this window sees. -/
def window (b : Buffer) (offset size : Nat) : List UInt8 := (b.data.drop offset).take size

end Buffer

inductive CowFault where
  | nullPointer
  | outOfRange
  | dangling (d : Dangling)
  deriving DecidableEq, Repr

/-- The `CopyOnWriteBuffer`s `ι` of a program. -/
structure Cows (ι : Type) where
  /-- The heap, and `buffer_` of each. -/
  store : Store ι Buffer := {}
  offset : ι → Nat := fun _ => 0
  size : ι → Nat := fun _ => 0

namespace Cows

variable {ι : Type} [DecidableEq ι]

/-- `buffer_->`: what `buffer_` points to, if not null. -/
def buffer (s : Cows ι) (i : ι) : Except CowFault (Option (Nat × Buffer)) :=
  match s.store.ptr i with
  | none => .ok none
  | some a =>
    match s.store.content a with
    | none => .error (.dangling ⟨a⟩)
    | some b => .ok (some (a, b))

/-- The members of one object are set. -/
def place (s : Cows ι) (i : ι) (store : Store ι Buffer) (offset size : Nat) : Cows ι :=
  { store, offset := Function.update s.offset i offset, size := Function.update s.size i size }

/-- `buffer_ = p`, with the other members. -/
def assign (s : Cows ι) (i : ι) (p : Option Nat) (offset size : Nat) :
    Except CowFault (Cows ι) := do
  .ok (s.place i (← (s.store.assign i p).mapError .dangling) offset size)

/-- `buffer_ = new RefCountedBuffer(..)`. -/
def assignNew (s : Cows ι) (i : ι) (b : Buffer) (offset size : Nat) : Except CowFault (Cows ι) := do
  .ok (s.place i (← (s.store.assignNew i b).mapError .dangling) offset size)

/-- A call of a member of `buffer_` that changes it. -/
def modify (s : Cows ι) (i : ι) (f : Buffer → Buffer) : Except CowFault (Cows ι) := do
  match ← s.buffer i with
  | none => .error .nullPointer
  | some (a, b) => .ok { s with store := s.store.write a (f b) }

/-- `capacity()` of an object with this buffer. -/
def capacity (s : Cows ι) (i : ι) (b : Buffer) : Nat := b.capacity - s.offset i

def unshareAndEnsureCapacity (s : Cows ι) (junk : Junk) (i : ι) (newCapacity : Nat) :
    Except CowFault (Cows ι) := do
  match ← s.buffer i with
  | none => .error .nullPointer
  | some (a, b) =>
    if s.store.refs a = 1 ∧ newCapacity ≤ s.capacity i b then .ok s
    else s.assignNew i (.ofData junk (b.window (s.offset i) (s.size i)) newCapacity) 0 (s.size i)

/-! ## The calls -/

/-- `i = j`, and `i.SetData(j)`. -/
def copy (s : Cows ι) (i j : ι) : Except CowFault (Cows ι) :=
  if i = j then .ok s else s.assign i (s.store.ptr j) (s.offset j) (s.size j)

/-- `i = std::move(j)`. -/
def move (s : Cows ι) (i j : ι) : Except CowFault (Cows ι) := do
  let store ← (s.store.move i j).mapError .dangling
  .ok ((s.place i store (s.offset j) (s.size j)).place j store 0 0)

/-- `i = CopyOnWriteBuffer(data, size, capacity)`. -/
def construct (s : Cows ι) (junk : Junk) (i : ι) (bytes : List UInt8) (capacity : Nat) :
    Except CowFault (Cows ι) :=
  if 0 < bytes.length ∨ 0 < capacity then
    s.assignNew i (.ofData junk bytes capacity) 0 bytes.length
  else s.assign i none 0 0

/-- `i = CopyOnWriteBuffer(size, capacity)`. -/
def constructSize (s : Cows ι) (junk : Junk) (i : ι) (size capacity : Nat) :
    Except CowFault (Cows ι) :=
  if 0 < size ∨ 0 < capacity then s.assignNew i (.ofSize junk size capacity) 0 size
  else s.assign i none 0 0

/-- The destructor, and an empty buffer under the same name. -/
def destroy (s : Cows ι) (i : ι) : Except CowFault (Cows ι) := s.assign i none 0 0

/-- `i = j.Slice(offset, length)`, for a slice within `j`. -/
def slice (s : Cows ι) (i j : ι) (offset length : Nat) : Except CowFault (Cows ι) :=
  if offset + length ≤ s.size j then s.assign i (s.store.ptr j) (s.offset j + offset) length
  else .error .outOfRange

def swap (s : Cows ι) (i j : ι) : Cows ι :=
  { store := s.store.swap i j
    offset := s.offset ∘ Equiv.swap i j
    size := s.size ∘ Equiv.swap i j }

def setData (s : Cows ι) (junk : Junk) (i : ι) (bytes : List UInt8) : Except CowFault (Cows ι) := do
  match ← s.buffer i with
  | none =>
    if 0 < bytes.length then s.assignNew i (.ofData junk bytes bytes.length) 0 bytes.length
    else .ok (s.place i s.store 0 bytes.length)
  | some (a, b) =>
    if s.store.refs a = 1 then
      .ok (s.place i (s.store.write a (b.setData junk bytes)) 0 bytes.length)
    else s.assignNew i (.ofData junk bytes (s.capacity i b)) 0 bytes.length

def appendData (s : Cows ι) (junk : Junk) (i : ι) (bytes : List UInt8) :
    Except CowFault (Cows ι) := do
  match ← s.buffer i with
  | none => s.assignNew i (.ofData junk bytes bytes.length) 0 bytes.length
  | some (_, b) =>
    let s ← s.unshareAndEnsureCapacity junk i
      (max (s.capacity i b) (s.size i + bytes.length))
    -- what stands to the right of the slice goes first
    let s ← s.modify i fun b =>
      (b.setSize junk (s.offset i + s.size i)).appendData junk bytes
    .ok (s.place i s.store (s.offset i) (s.size i + bytes.length))

def setSize (s : Cows ι) (junk : Junk) (i : ι) (size : Nat) : Except CowFault (Cows ι) := do
  match ← s.buffer i with
  | none => if 0 < size then s.assignNew i (.ofSize junk size size) 0 size else .ok s
  | some (_, b) =>
    if size ≤ s.size i then .ok (s.place i s.store (s.offset i) size)
    else
      let s ← s.unshareAndEnsureCapacity junk i (max (s.capacity i b) size)
      let s ← s.modify i fun b => b.setSize junk (size + s.offset i)
      .ok (s.place i s.store (s.offset i) size)

def ensureCapacity (s : Cows ι) (junk : Junk) (i : ι) (newCapacity : Nat) :
    Except CowFault (Cows ι) := do
  match ← s.buffer i with
  | none =>
    if 0 < newCapacity then s.assignNew i (.ofSize junk 0 newCapacity) 0 0 else .ok s
  | some (_, b) =>
    if newCapacity ≤ s.capacity i b then .ok s
    else s.unshareAndEnsureCapacity junk i newCapacity

def clear (s : Cows ι) (junk : Junk) (i : ι) : Except CowFault (Cows ι) := do
  match ← s.buffer i with
  | none => .ok s
  | some (a, b) =>
    if s.store.refs a = 1 then .ok (s.place i (s.store.write a b.clear) 0 0)
    else s.assignNew i (.ofSize junk 0 (s.capacity i b)) 0 0

/-- `i.MutableData()[k] = byte`, for a byte of `i`. -/
def setByte (s : Cows ι) (junk : Junk) (i : ι) (k : Nat) (byte : UInt8) :
    Except CowFault (Cows ι) := do
  if k < s.size i then
    match ← s.buffer i with
    | none => .error .nullPointer
    | some (_, b) =>
      let s ← s.unshareAndEnsureCapacity junk i (s.capacity i b)
      s.modify i fun b => b.setByte (s.offset i + k) byte
  else .error .outOfRange

end Cows

/-- A call on the objects `ι`. -/
inductive CowCall (ι : Type) where
  | copy (i j : ι)
  | move (i j : ι)
  | construct (i : ι) (bytes : List UInt8) (capacity : Nat)
  | constructSize (i : ι) (size capacity : Nat)
  | destroy (i : ι)
  | slice (i j : ι) (offset length : Nat)
  | swap (i j : ι)
  | setData (i : ι) (bytes : List UInt8)
  | appendData (i : ι) (bytes : List UInt8)
  | setSize (i : ι) (size : Nat)
  | ensureCapacity (i : ι) (newCapacity : Nat)
  | clear (i : ι)
  | setByte (i : ι) (k : Nat) (byte : UInt8)
  deriving DecidableEq, Repr

/-- A call, with what the memory it allocates holds. -/
def Cows.step {ι : Type} [DecidableEq ι] (s : Cows ι) (c : CowCall ι × Junk) :
    Except CowFault (Cows ι) :=
  match c.1 with
  | .copy i j => s.copy i j
  | .move i j => s.move i j
  | .construct i bytes capacity => s.construct c.2 i bytes capacity
  | .constructSize i size capacity => s.constructSize c.2 i size capacity
  | .destroy i => s.destroy i
  | .slice i j offset length => s.slice i j offset length
  | .swap i j => .ok (s.swap i j)
  | .setData i bytes => s.setData c.2 i bytes
  | .appendData i bytes => s.appendData c.2 i bytes
  | .setSize i size => s.setSize c.2 i size
  | .ensureCapacity i newCapacity => s.ensureCapacity c.2 i newCapacity
  | .clear i => s.clear c.2 i
  | .setByte i k byte => s.setByte c.2 i k byte

end Bifrost.Utils
