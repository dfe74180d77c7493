/-
  Copy-on-write cannot be seen.

  The abstract level is a list of bytes for every object: a call changes the lists of the objects
  it names and no others (`CowCall.Gives`). The heap with its shared buffers refines it in every
  run (`value_semantics`): the counts are right, every window lies within its buffer (`Sound`), and
  before contents change in place the count is 1, so that only one object sees it.
-/
import Bifrost.Utils.CopyOnWriteBuffer

namespace Bifrost.Utils

open RefCount

/-! ## Buffers -/

namespace Buffer

theorem window_take (b : Buffer) {offset size n : Nat} (h : offset + size ≤ n) :
    ((b.data.take n).drop offset).take size = b.window offset size := by
  rw [window, List.drop_take, List.take_take, Nat.min_eq_left (by omega)]

theorem length_window {b : Buffer} {offset size : Nat} (h : offset + size ≤ b.size) :
    (b.window offset size).length = size := by
  have := b.size_le
  rw [window, List.length_take_of_le]
  rw [List.length_drop]
  omega

/-- The bytes up to the size decide what a window within it shows. -/
theorem window_congr {b b' : Buffer} {offset size n : Nat} (h : offset + size ≤ n)
    (heq : b'.data.take n = b.data.take n) : b'.window offset size = b.window offset size := by
  rw [← window_take b' h, heq, window_take b h]

theorem window_ofData (junk : Junk) (bytes : List UInt8) (capacity : Nat) :
    (ofData junk bytes capacity).window 0 bytes.length = bytes := by
  rw [window, ofData, List.drop_zero, List.take_left]

theorem take_appendData (b : Buffer) (junk : Junk) (bytes : List UInt8) :
    (b.appendData junk bytes).data.take (b.size + bytes.length) =
      b.data.take b.size ++ bytes := by
  obtain ⟨-, hsame, hlen⟩ := b.ensureCapacity_spec junk (b.size + bytes.length) true
  have hprefix : ((b.ensureCapacityWithHeadroom junk (b.size + bytes.length) true).data.take
      b.size ++ bytes).length = b.size + bytes.length := by
    rw [List.length_append, List.length_take_of_le (by omega)]
  show List.take _ (_ ++ _ ++ _) = _
  rw [← hsame]
  exact List.take_left' hprefix

theorem take_setSize (b : Buffer) (junk : Junk) {size n : Nat} (h : n ≤ b.size) :
    (b.setSize junk size).data.take n = b.data.take n := by
  have hsame := (b.ensureCapacity_spec junk size true).2.1
  show ((b.ensureCapacityWithHeadroom junk size true).data).take n = _
  rw [← Nat.min_eq_left h, ← List.take_take, hsame, List.take_take]

theorem take_window (b : Buffer) (offset : Nat) {n size : Nat} (h : n ≤ size) :
    (b.window offset size).take n = b.window offset n := by
  rw [window, List.take_take, Nat.min_eq_left h, window]

theorem window_appendData (b : Buffer) (junk : Junk) (bytes : List UInt8) {offset size : Nat}
    (h : offset + size = b.size) :
    (b.appendData junk bytes).window offset (size + bytes.length) =
      b.window offset size ++ bytes := by
  have hlen := b.size_le
  have hprefix : (b.data.take b.size).length = b.size := List.length_take_of_le hlen
  have hwindow : ((b.data.take b.size).drop offset) = b.window offset size := by
    rw [List.drop_take, window, ← h, Nat.add_sub_cancel_left]
  rw [← window_take _ (Nat.le_of_eq (Nat.add_assoc _ _ _).symm), h, take_appendData,
    List.drop_append_of_le_length (by omega), hwindow]
  refine List.take_of_length_le ?_
  rw [List.length_append, length_window (Nat.le_of_eq h)]

theorem window_setByte (b : Buffer) (offset size k : Nat) (byte : UInt8) :
    (b.setByte (offset + k) byte).window offset size = (b.window offset size).set k byte := by
  rw [window, setByte, List.drop_set, if_neg (by omega), Nat.add_sub_cancel_left, List.take_set,
    window]

end Buffer

/-! ## What a buffer holds for an object -/

/-- The bytes of an object with this buffer and this window. -/
def contents : Option Buffer → Nat → Nat → List UInt8
  | none, _, _ => []
  | some b, offset, size => b.window offset size

/-- `IsConsistent()`, but for the capacity, which may be 0. -/
def Fits : Option Buffer → Nat → Nat → Prop
  | none, offset, size => offset = 0 ∧ size = 0
  | some b, offset, size => offset + size ≤ b.size

theorem length_contents {b : Option Buffer} {offset size : Nat} (h : Fits b offset size) :
    (contents b offset size).length = size := by
  cases b with
  | none => exact h.2.symm
  | some b => exact Buffer.length_window h

namespace Cows

variable {ι : Type}

def val (s : Cows ι) (i : ι) : List UInt8 := contents (s.store.view i) (s.offset i) (s.size i)

structure Sound [Fintype ι] (s : Cows ι) : Prop where
  counted : Counted s.store []
  fits : ∀ i, Fits (s.store.view i) (s.offset i) (s.size i)

variable {s : Cows ι} {i : ι}

theorem val_of_view {b : Buffer} (hview : s.store.view i = some b) :
    s.val i = b.window (s.offset i) (s.size i) := by
  rw [val, hview]
  rfl

theorem val_of_null (hview : s.store.view i = none) : s.val i = [] := by
  rw [val, hview]
  rfl

variable [Fintype ι]

theorem Sound.length_val (h : s.Sound) (i : ι) : (s.val i).length = s.size i :=
  length_contents (h.fits i)

theorem sound_init : Sound ({} : Cows ι) := ⟨.init, fun _ => ⟨rfl, rfl⟩⟩

/-- `buffer_` is null, or what it points to is there. -/
theorem Sound.buffer_cases (h : s.Sound) (i : ι) :
    s.buffer i = .ok none ∧ s.store.ptr i = none ∧ s.store.view i = none ∨
    ∃ a b, s.buffer i = .ok (some (a, b)) ∧ s.store.ptr i = some a ∧ s.store.view i = some b := by
  cases hptr : s.store.ptr i with
  | none =>
      refine .inl ⟨?_, rfl, ?_⟩
      · rw [buffer, hptr]
      · rw [Store.view, hptr]
        rfl
  | some a =>
      obtain ⟨c, hc⟩ := h.counted.exists_cell_of_ptr hptr
      have hcontent : s.store.content a = some c.value := by
        rw [Store.content, hc]
        rfl
      refine .inr ⟨a, c.value, ?_, rfl, ?_⟩
      · rw [buffer, hptr]
        dsimp only
        rw [hcontent]
      · rw [Store.view, hptr]
        exact hcontent

theorem Sound.fits_of_view (h : s.Sound) {b : Buffer} (hview : s.store.view i = some b) :
    s.offset i + s.size i ≤ b.size := by
  have hfits := h.fits i
  rwa [hview] at hfits

variable [DecidableEq ι]

/-- **One object is given a buffer and a window**: it has what that shows, and the others what
    they had. -/
theorem Sound.place (h : s.Sound) {store : Store ι Buffer} {b : Option Buffer} {offset size : Nat}
    (hcounted : Counted store [])
    (hview : ∀ k, store.view k = if k = i then b else s.store.view k)
    (hfits : Fits b offset size) :
    (s.place i store offset size).Sound ∧
      (s.place i store offset size).val = Function.update s.val i (contents b offset size) := by
  have hself : store.view i = b := by rw [hview i, if_pos rfl]
  have hoffset : (s.place i store offset size).offset i = offset := Function.update_self ..
  have hsize : (s.place i store offset size).size i = size := Function.update_self ..
  have hother : ∀ k, k ≠ i → store.view k = s.store.view k ∧
      (s.place i store offset size).offset k = s.offset k ∧
      (s.place i store offset size).size k = s.size k := fun k hk =>
    ⟨by rw [hview k, if_neg hk], Function.update_of_ne hk _ _, Function.update_of_ne hk _ _⟩
  refine ⟨⟨hcounted, fun k => ?_⟩, funext fun k => ?_⟩
  · show Fits (store.view k) _ _
    by_cases hk : k = i
    · rw [hk, hself, hoffset, hsize]
      exact hfits
    · obtain ⟨hv, ho, hz⟩ := hother k hk
      rw [hv, ho, hz]
      exact h.fits k
  · show contents (store.view k) _ _ = _
    by_cases hk : k = i
    · rw [hk, hself, hoffset, hsize, Function.update_self]
    · obtain ⟨hv, ho, hz⟩ := hother k hk
      rw [hv, ho, hz, Function.update_of_ne hk]
      rfl

theorem Sound.assign (h : s.Sound) (i : ι) {p : Option Nat} {offset size : Nat}
    (hp : ∀ a, p = some a → ∃ j, s.store.ptr j = some a)
    (hfits : Fits (p.bind s.store.content) offset size) :
    ∃ s', s.assign i p offset size = .ok s' ∧ s'.Sound ∧
      s'.val = Function.update s.val i (contents (p.bind s.store.content) offset size) := by
  obtain ⟨store, hok, hcounted, -, hview⟩ := h.counted.assign i hp
  refine ⟨s.place i store offset size, ?_, h.place hcounted hview hfits⟩
  rw [Cows.assign, hok]
  rfl

theorem Sound.assignNew (h : s.Sound) (i : ι) (b : Buffer) {offset size : Nat}
    (hfits : offset + size ≤ b.size) :
    ∃ s', s.assignNew i b offset size = .ok s' ∧ s'.Sound ∧
      s'.val = Function.update s.val i (b.window offset size) ∧
      (∃ a, s'.store.ptr i = some a ∧ s'.store.refs a = 1) ∧ s'.store.view i = some b ∧
      s'.offset i = offset ∧ s'.size = Function.update s.size i size := by
  obtain ⟨store, hok, hcounted, hptr, hone, hview⟩ := h.counted.assignNew i b
  have hb : Fits (some b) offset size := hfits
  obtain ⟨hsound, hval⟩ := h.place hcounted hview hb
  refine ⟨s.place i store offset size, ?_, hsound, hval, ⟨s.store.next, ?_, hone⟩, ?_,
    Function.update_self .., rfl⟩
  · rw [Cows.assignNew, hok]
    rfl
  · show store.ptr i = _
    rw [hptr]
    exact Function.update_self ..
  · show store.view i = _
    rw [hview i, if_pos rfl]

/-- A new buffer with given bytes. -/
theorem Sound.assignBytes (h : s.Sound) (i : ι) (junk : Junk) (bytes : List UInt8)
    (capacity : Nat) :
    ∃ s', s.assignNew i (.ofData junk bytes capacity) 0 bytes.length = .ok s' ∧ s'.Sound ∧
      s'.val = Function.update s.val i bytes := by
  have hfits : 0 + bytes.length ≤ (Buffer.ofData junk bytes capacity).size :=
    Nat.le_of_eq (Nat.zero_add _)
  obtain ⟨s', hok, h', hval, -⟩ := h.assignNew i _ hfits
  rw [Buffer.window_ofData] at hval
  exact ⟨s', hok, h', hval⟩

/-- A new buffer with whatever its memory held. -/
theorem Sound.assignSize (h : s.Sound) (i : ι) (junk : Junk) (size capacity : Nat) :
    ∃ s', s.assignNew i (.ofSize junk size capacity) 0 size = .ok s' ∧ s'.Sound ∧
      ∃ w, w.length = size ∧ s'.val = Function.update s.val i w := by
  have hfits : 0 + size ≤ (Buffer.ofSize junk size capacity).size :=
    Nat.le_of_eq (Nat.zero_add _)
  obtain ⟨s', hok, h', hval, -⟩ := h.assignNew i _ hfits
  exact ⟨s', hok, h', _, Buffer.length_window hfits, hval⟩

/-- Another window on the same buffer. -/
theorem Sound.resize (h : s.Sound) {i : ι} {offset size : Nat}
    (hfits : Fits (s.store.view i) offset size) :
    (s.place i s.store offset size).Sound ∧ (s.place i s.store offset size).val =
      Function.update s.val i (contents (s.store.view i) offset size) := by
  refine h.place h.counted (fun k => ?_) hfits
  split
  · next hk => rw [hk]
  · rfl

/-- A change in place, where no other object refers to the buffer. -/
theorem Sound.write (h : s.Sound) {a : Nat} (hptr : s.store.ptr i = some a)
    (hone : s.store.refs a = 1) (b : Buffer) {offset size : Nat} (hfits : offset + size ≤ b.size) :
    (s.place i (s.store.write a b) offset size).Sound ∧
      (s.place i (s.store.write a b) offset size).val =
        Function.update s.val i (b.window offset size) := by
  have hb : Fits (some b) offset size := hfits
  obtain ⟨hcounted, hview⟩ := h.counted.write hone hptr b
  exact h.place hcounted hview hb

/-- The object gets a buffer of its own, with the same bytes. -/
theorem Sound.unshare (h : s.Sound) {a : Nat} {b : Buffer}
    (hbuffer : s.buffer i = .ok (some (a, b))) (hptr : s.store.ptr i = some a)
    (hview : s.store.view i = some b) (junk : Junk) (newCapacity : Nat) :
    ∃ s' a' b', s.unshareAndEnsureCapacity junk i newCapacity = .ok s' ∧ s'.Sound ∧
      s'.val = s.val ∧ s'.size = s.size ∧ s'.buffer i = .ok (some (a', b')) ∧
      s'.store.ptr i = some a' ∧ s'.store.refs a' = 1 ∧ s'.store.view i = some b' := by
  by_cases hsole : s.store.refs a = 1 ∧ newCapacity ≤ s.capacity i b
  · refine ⟨s, a, b, ?_, h, rfl, rfl, hbuffer, hptr, hsole.1, hview⟩
    rw [unshareAndEnsureCapacity, hbuffer]
    exact if_pos hsole
  · have hlen : (b.window (s.offset i) (s.size i)).length = s.size i :=
      Buffer.length_window (h.fits_of_view hview)
    have hfits : 0 + s.size i ≤
        (Buffer.ofData junk (b.window (s.offset i) (s.size i)) newCapacity).size := by
      rw [Nat.zero_add]
      exact Nat.le_of_eq hlen.symm
    obtain ⟨s', hok, h', hval, ⟨a', hptr', hone⟩, hview', -, hsize⟩ := h.assignNew i _ hfits
    refine ⟨s', a', _, ?_, h', ?_, ?_, ?_, hptr', hone, hview'⟩
    · rw [unshareAndEnsureCapacity, hbuffer]
      exact (if_neg hsole).trans hok
    · have hsame : (Buffer.ofData junk (b.window (s.offset i) (s.size i)) newCapacity).window 0
          (s.size i) = s.val i := by
        have hwindow := Buffer.window_ofData junk (b.window (s.offset i) (s.size i)) newCapacity
        rw [hlen] at hwindow
        rw [val_of_view hview, hwindow]
      rw [hval, hsame, Function.update_eq_self]
    · rw [hsize, Function.update_eq_self]
    · rcases h'.buffer_cases i with ⟨-, hnull, -⟩ | ⟨a'', b'', hbuffer', hptr'', hview''⟩
      · cases hptr'.symm.trans hnull
      · cases hptr'.symm.trans hptr''
        cases hview'.symm.trans hview''
        exact hbuffer'

/-! ## Every call -/

theorem Sound.copy (h : s.Sound) (i j : ι) : ∃ s', s.copy i j = .ok s' ∧ s'.Sound ∧
    s'.val = Function.update s.val i (s.val j) := by
  by_cases hij : i = j
  · refine ⟨s, if_pos hij, h, ?_⟩
    rw [hij, Function.update_eq_self]
  · obtain ⟨s', hok, h', hval⟩ := h.assign i (fun a ha => ⟨j, ha⟩) (h.fits j)
    exact ⟨s', (if_neg hij).trans hok, h', hval⟩

theorem Sound.null (h : s.Sound) (i : ι) : ∃ s', s.assign i none 0 0 = .ok s' ∧ s'.Sound ∧
    s'.val = Function.update s.val i [] :=
  h.assign i (p := none) (fun _ ha => by cases ha) ⟨rfl, rfl⟩

theorem Sound.construct (h : s.Sound) (junk : Junk) (i : ι) (bytes : List UInt8)
    (capacity : Nat) : ∃ s', s.construct junk i bytes capacity = .ok s' ∧ s'.Sound ∧
    s'.val = Function.update s.val i bytes := by
  unfold Cows.construct
  split
  · exact h.assignBytes i junk bytes capacity
  · next hempty =>
      have hnil : bytes = [] := List.eq_nil_of_length_eq_zero (by omega)
      rw [hnil]
      exact h.null i

theorem Sound.constructSize (h : s.Sound) (junk : Junk) (i : ι) (size capacity : Nat) :
    ∃ s', s.constructSize junk i size capacity = .ok s' ∧ s'.Sound ∧
      ∃ w, w.length = size ∧ s'.val = Function.update s.val i w := by
  unfold Cows.constructSize
  split
  · exact h.assignSize i junk size capacity
  · next hempty =>
      obtain ⟨s', hok, h', hval⟩ := h.null i
      exact ⟨s', hok, h', [], (by rw [List.length_nil]; omega), hval⟩

theorem Sound.slice (h : s.Sound) (i j : ι) {offset length : Nat}
    (hin : offset + length ≤ s.size j) : ∃ s', s.slice i j offset length = .ok s' ∧ s'.Sound ∧
    s'.val = Function.update s.val i (((s.val j).drop offset).take length) := by
  have hfits : Fits (s.store.view j) (s.offset j + offset) length := by
    have hj := h.fits j
    cases hview : s.store.view j with
    | none =>
        rw [hview] at hj
        obtain ⟨ho, hz⟩ := hj
        exact ⟨by omega, by omega⟩
    | some b =>
        rw [hview] at hj
        have hj' : s.offset j + s.size j ≤ b.size := hj
        show s.offset j + offset + length ≤ b.size
        omega
  obtain ⟨s', hok, h', hval⟩ := h.assign i (fun a ha => ⟨j, ha⟩) hfits
  refine ⟨s', (if_pos hin).trans hok, h', ?_⟩
  rw [hval]
  congr 1
  show contents (s.store.view j) _ _ = _
  cases hview : s.store.view j with
  | none =>
      rw [val, hview]
      simp [contents]
  | some b =>
      rw [val_of_view hview]
      show ((b.data.drop _).take _) = _
      rw [Buffer.window, List.drop_take, List.take_take, List.drop_drop,
        Nat.min_eq_left (by omega)]

theorem Sound.swap (h : s.Sound) (i j : ι) :
    (s.swap i j).Sound ∧ (s.swap i j).val = s.val ∘ Equiv.swap i j :=
  ⟨⟨h.counted.swap i j, fun k => h.fits (Equiv.swap i j k)⟩, rfl⟩

theorem Sound.move (h : s.Sound) (i j : ι) : ∃ s', s.move i j = .ok s' ∧ s'.Sound ∧
    s'.val = Function.update (Function.update s.val i (s.val j)) j [] := by
  obtain ⟨store, hok, hcounted, -, hview⟩ := h.counted.move i j
  have hmoved : s.move i j = .ok ((s.place i store (s.offset j) (s.size j)).place j store 0 0) := by
    rw [Cows.move, hok]
    rfl
  -- of each object: its window, and what it has of what there was
  have hevery : ∀ k, Fits (store.view k)
        (Function.update (Function.update s.offset i (s.offset j)) j 0 k)
        (Function.update (Function.update s.size i (s.size j)) j 0 k) ∧
      contents (store.view k) (Function.update (Function.update s.offset i (s.offset j)) j 0 k)
          (Function.update (Function.update s.size i (s.size j)) j 0 k) =
        Function.update (Function.update s.val i (s.val j)) j [] k := by
    intro k
    rw [hview k]
    by_cases hj : k = j
    · rw [hj, Function.update_self, Function.update_self, Function.update_self]
      cases hb : (if j = i then s.store.view j else if j = j then none else s.store.view j) with
      | none => exact ⟨⟨rfl, rfl⟩, rfl⟩
      | some b => exact ⟨Nat.zero_le _, rfl⟩
    · rw [Function.update_of_ne hj, Function.update_of_ne hj, Function.update_of_ne hj]
      by_cases hi : k = i
      · rw [if_pos hi, hi, Function.update_self, Function.update_self, Function.update_self]
        exact ⟨h.fits j, rfl⟩
      · rw [if_neg hi, if_neg hj, Function.update_of_ne hi, Function.update_of_ne hi,
          Function.update_of_ne hi]
        exact ⟨h.fits k, rfl⟩
  exact ⟨_, hmoved, ⟨hcounted, fun k => (hevery k).1⟩, funext fun k => (hevery k).2⟩

theorem Sound.setData (h : s.Sound) (junk : Junk) (i : ι) (bytes : List UInt8) :
    ∃ s', s.setData junk i bytes = .ok s' ∧ s'.Sound ∧ s'.val = Function.update s.val i bytes := by
  rcases h.buffer_cases i with ⟨hbuffer, -, hview⟩ | ⟨a, b, hbuffer, hptr, hview⟩
  · by_cases hlen : 0 < bytes.length
    · obtain ⟨s', hok, hs'⟩ := h.assignBytes i junk bytes bytes.length
      refine ⟨s', ?_, hs'⟩
      rw [Cows.setData, hbuffer]
      exact (if_pos hlen).trans hok
    · have hnil : bytes = [] := List.eq_nil_of_length_eq_zero (by omega)
      have hfits : Fits (s.store.view i) 0 bytes.length := by
        rw [hview]
        exact ⟨rfl, by omega⟩
      obtain ⟨h', hval⟩ := h.resize hfits
      refine ⟨_, ?_, h', ?_⟩
      · rw [Cows.setData, hbuffer]
        exact if_neg hlen
      · rw [hval, hview, hnil]
        rfl
  · by_cases hone : s.store.refs a = 1
    · have hfits : 0 + bytes.length ≤ (b.setData junk bytes).size := Nat.le_refl _
      obtain ⟨h', hval⟩ := h.write hptr hone _ hfits
      have hwindow := b.clear.window_appendData junk bytes (Nat.zero_add 0)
      refine ⟨_, ?_, h', ?_⟩
      · rw [Cows.setData, hbuffer]
        exact if_pos hone
      · rw [Nat.zero_add] at hwindow
        rw [hval, Buffer.setData, hwindow]
        rfl
    · obtain ⟨s', hok, hs'⟩ := h.assignBytes i junk bytes (s.capacity i b)
      refine ⟨s', ?_, hs'⟩
      rw [Cows.setData, hbuffer]
      exact (if_neg hone).trans hok

/-- With the buffer to itself, an object changes it in place. -/
theorem Sound.modify (h : s.Sound) {a : Nat} {b : Buffer} (hbuffer : s.buffer i = .ok (some (a, b)))
    (hptr : s.store.ptr i = some a) (hone : s.store.refs a = 1) (f : Buffer → Buffer)
    {size : Nat} (hfits : s.offset i + size ≤ (f b).size) :
    ∃ s', s.modify i f = .ok s' ∧ s'.offset = s.offset ∧ s'.size = s.size ∧
      (s'.place i s'.store (s.offset i) size).Sound ∧
      (s'.place i s'.store (s.offset i) size).val =
        Function.update s.val i ((f b).window (s.offset i) size) := by
  refine ⟨{ s with store := s.store.write a (f b) }, ?_, rfl, rfl, h.write hptr hone _ hfits⟩
  rw [Cows.modify, hbuffer]
  rfl

theorem Sound.appendData (h : s.Sound) (junk : Junk) (i : ι) (bytes : List UInt8) :
    ∃ s', s.appendData junk i bytes = .ok s' ∧ s'.Sound ∧
      s'.val = Function.update s.val i (s.val i ++ bytes) := by
  rcases h.buffer_cases i with ⟨hbuffer, -, hview⟩ | ⟨a, b, hbuffer, hptr, hview⟩
  · obtain ⟨s', hok, h', hval⟩ := h.assignBytes i junk bytes bytes.length
    refine ⟨s', ?_, h', ?_⟩
    · rw [Cows.appendData, hbuffer]
      exact hok
    · rw [val_of_null hview]
      exact hval
  · obtain ⟨s₁, a', b', hok₁, h₁, hval₁, -, hbuffer', hptr', hone, hview'⟩ :=
      h.unshare hbuffer hptr hview junk (max (s.capacity i b) (s.size i + bytes.length))
    have hin := h₁.fits_of_view hview'
    let f : Buffer → Buffer := fun b =>
      (b.setSize junk (s₁.offset i + s₁.size i)).appendData junk bytes
    have hfits : s₁.offset i + (s₁.size i + bytes.length) ≤ (f b').size :=
      Nat.le_of_eq (Nat.add_assoc _ _ _).symm
    obtain ⟨s₂, hok₂, hoffset, hsize, h₂, hval₂⟩ := h₁.modify hbuffer' hptr' hone f hfits
    refine ⟨_, ?_, h₂, ?_⟩
    · rw [Cows.appendData, hbuffer]
      show (s.unshareAndEnsureCapacity junk i _ >>= _) = _
      rw [hok₁]
      show (s₁.modify i f >>= _) = _
      rw [hok₂, ← hoffset, ← hsize]
      rfl
    · have hwindow : (f b').window (s₁.offset i) (s₁.size i + bytes.length) =
          s₁.val i ++ bytes := by
        rw [Buffer.window_appendData _ _ _ rfl, val_of_view hview',
          Buffer.window_congr (Nat.le_refl _) (b'.take_setSize junk hin)]
      rw [hval₂, hwindow, hval₁]

theorem Sound.setSize (h : s.Sound) (junk : Junk) (i : ι) (size : Nat) :
    ∃ s', s.setSize junk i size = .ok s' ∧ s'.Sound ∧
      ∃ w, w.length = size - (s.val i).length ∧
        s'.val = Function.update s.val i ((s.val i).take size ++ w) := by
  have hlen := h.length_val i
  rcases h.buffer_cases i with ⟨hbuffer, -, hview⟩ | ⟨a, b, hbuffer, hptr, hview⟩
  · have hnil := val_of_null hview
    rw [hnil, List.take_nil]
    by_cases hpos : 0 < size
    · obtain ⟨s', hok, h', hval⟩ := h.assignSize i junk size size
      refine ⟨s', ?_, h', hval⟩
      rw [Cows.setSize, hbuffer]
      exact (if_pos hpos).trans hok
    · refine ⟨s, ?_, h, [], ?_, ?_⟩
      · rw [Cows.setSize, hbuffer]
        exact if_neg hpos
      · rw [List.length_nil]
        omega
      · rw [List.append_nil, ← hnil, Function.update_eq_self]
  · by_cases hshrink : size ≤ s.size i
    · have hfits : Fits (s.store.view i) (s.offset i) size := by
        have := h.fits_of_view hview
        rw [hview]
        show s.offset i + size ≤ b.size
        omega
      obtain ⟨h', hval⟩ := h.resize hfits
      refine ⟨_, ?_, h', [], ?_, ?_⟩
      · rw [Cows.setSize, hbuffer]
        exact if_pos hshrink
      · rw [List.length_nil]
        omega
      · rw [hval, hview, List.append_nil, val_of_view hview, Buffer.take_window _ _ hshrink]
        rfl
    · obtain ⟨s₁, a', b', hok₁, h₁, hval₁, hsize₁, hbuffer', hptr', hone, hview'⟩ :=
        h.unshare hbuffer hptr hview junk (max (s.capacity i b) size)
      have hin := h₁.fits_of_view hview'
      let f : Buffer → Buffer := fun b => b.setSize junk (size + s₁.offset i)
      have hfits : s₁.offset i + size ≤ (f b').size := Nat.le_of_eq (Nat.add_comm _ _)
      obtain ⟨s₂, hok₂, hoffset, -, h₂, hval₂⟩ := h₁.modify hbuffer' hptr' hone f hfits
      refine ⟨_, ?_, h₂, ((f b').window (s₁.offset i) size).drop (s.size i), ?_, ?_⟩
      · rw [Cows.setSize, hbuffer]
        refine (if_neg hshrink).trans ?_
        show (s.unshareAndEnsureCapacity junk i _ >>= _) = _
        rw [hok₁]
        show (s₁.modify i f >>= _) = _
        rw [hok₂, ← hoffset]
        rfl
      · rw [List.length_drop, Buffer.length_window hfits, hlen]
      · have hkept : ((f b').window (s₁.offset i) size).take (s.size i) = s.val i := by
          rw [Buffer.take_window _ _ (by omega), ← hval₁, val_of_view hview', hsize₁]
          rw [hsize₁] at hin
          exact Buffer.window_congr (Nat.le_refl _) (b'.take_setSize junk hin)
        have hwindow : (s.val i).take size ++
            ((f b').window (s₁.offset i) size).drop (s.size i) =
            (f b').window (s₁.offset i) size := by
          rw [List.take_of_length_le (by omega)]
          conv_lhs => rw [← hkept]
          exact List.take_append_drop _ _
        rw [hval₂, hwindow, hval₁]

theorem Sound.ensureCapacity (h : s.Sound) (junk : Junk) (i : ι) (newCapacity : Nat) :
    ∃ s', s.ensureCapacity junk i newCapacity = .ok s' ∧ s'.Sound ∧ s'.val = s.val := by
  rcases h.buffer_cases i with ⟨hbuffer, -, hview⟩ | ⟨a, b, hbuffer, hptr, hview⟩
  · by_cases hpos : 0 < newCapacity
    · obtain ⟨s', hok, h', w, hlen, hval⟩ := h.assignSize i junk 0 newCapacity
      refine ⟨s', ?_, h', ?_⟩
      · rw [Cows.ensureCapacity, hbuffer]
        exact (if_pos hpos).trans hok
      · rw [hval, List.eq_nil_of_length_eq_zero hlen, ← val_of_null hview,
          Function.update_eq_self]
    · refine ⟨s, ?_, h, rfl⟩
      rw [Cows.ensureCapacity, hbuffer]
      exact if_neg hpos
  · by_cases henough : newCapacity ≤ s.capacity i b
    · refine ⟨s, ?_, h, rfl⟩
      rw [Cows.ensureCapacity, hbuffer]
      exact if_pos henough
    · obtain ⟨s', a', b', hok, h', hval, -⟩ := h.unshare hbuffer hptr hview junk newCapacity
      refine ⟨s', ?_, h', hval⟩
      rw [Cows.ensureCapacity, hbuffer]
      exact (if_neg henough).trans hok

theorem Sound.clear (h : s.Sound) (junk : Junk) (i : ι) :
    ∃ s', s.clear junk i = .ok s' ∧ s'.Sound ∧ s'.val = Function.update s.val i [] := by
  rcases h.buffer_cases i with ⟨hbuffer, -, hview⟩ | ⟨a, b, hbuffer, hptr, hview⟩
  · refine ⟨s, ?_, h, ?_⟩
    · rw [Cows.clear, hbuffer]
      rfl
    · rw [← val_of_null hview, Function.update_eq_self]
  · by_cases hone : s.store.refs a = 1
    · have hfits : 0 + 0 ≤ b.clear.size := Nat.le_refl _
      obtain ⟨h', hval⟩ := h.write hptr hone _ hfits
      refine ⟨_, ?_, h', hval⟩
      rw [Cows.clear, hbuffer]
      exact if_pos hone
    · obtain ⟨s', hok, h', w, hlen, hval⟩ := h.assignSize i junk 0 (s.capacity i b)
      rw [List.eq_nil_of_length_eq_zero hlen] at hval
      refine ⟨s', ?_, h', hval⟩
      rw [Cows.clear, hbuffer]
      exact (if_neg hone).trans hok

theorem Sound.setByte (h : s.Sound) (junk : Junk) {i : ι} {k : Nat} (hk : k < s.size i)
    (byte : UInt8) : ∃ s', s.setByte junk i k byte = .ok s' ∧ s'.Sound ∧
    s'.val = Function.update s.val i ((s.val i).set k byte) := by
  rcases h.buffer_cases i with ⟨-, -, hview⟩ | ⟨a, b, hbuffer, hptr, hview⟩
  · have hlen := h.length_val i
    rw [val_of_null hview, List.length_nil] at hlen
    omega
  · obtain ⟨s₁, a', b', hok₁, h₁, hval₁, -, hbuffer', hptr', hone, hview'⟩ :=
      h.unshare hbuffer hptr hview junk (s.capacity i b)
    let f : Buffer → Buffer := fun b => b.setByte (s₁.offset i + k) byte
    have hin := h₁.fits_of_view hview'
    have hfits : s₁.offset i + s₁.size i ≤ (f b').size := hin
    obtain ⟨s₂, hok₂, hoffset, hsize, h₂, hval₂⟩ := h₁.modify hbuffer' hptr' hone f hfits
    have hplace : s₂.place i s₂.store (s₁.offset i) (s₁.size i) = s₂ := by
      rw [Cows.place, ← hoffset, ← hsize, Function.update_eq_self, Function.update_eq_self]
    rw [hplace] at h₂ hval₂
    refine ⟨s₂, ?_, h₂, ?_⟩
    · rw [Cows.setByte, if_pos hk, hbuffer]
      show (s.unshareAndEnsureCapacity junk i _ >>= _) = _
      rw [hok₁]
      exact hok₂
    · rw [hval₂, Buffer.window_setByte, ← val_of_view hview', hval₁]

end Cows

/-! ## Runs -/

/-- What a call does to what the objects have. New bytes that no one gave are any bytes. -/
def CowCall.Gives {ι : Type} [DecidableEq ι] (v v' : ι → List UInt8) : CowCall ι → Prop
  | .copy i j => v' = Function.update v i (v j)
  | .move i j => v' = Function.update (Function.update v i (v j)) j []
  | .construct i bytes _ => v' = Function.update v i bytes
  | .constructSize i size _ => ∃ w, w.length = size ∧ v' = Function.update v i w
  | .destroy i => v' = Function.update v i []
  | .slice i j offset length => v' = Function.update v i (((v j).drop offset).take length)
  | .swap i j => v' = v ∘ Equiv.swap i j
  | .setData i bytes => v' = Function.update v i bytes
  | .appendData i bytes => v' = Function.update v i (v i ++ bytes)
  | .setSize i size =>
    ∃ w, w.length = size - (v i).length ∧ v' = Function.update v i ((v i).take size ++ w)
  | .ensureCapacity _ _ => v' = v
  | .clear i => v' = Function.update v i []
  | .setByte i k byte => v' = Function.update v i ((v i).set k byte)

/-- The bytes that the call names are there. -/
def CowCall.InRange {ι : Type} (v : ι → List UInt8) : CowCall ι → Prop
  | .slice _ j offset length => offset + length ≤ (v j).length
  | .setByte i k _ => k < (v i).length
  | _ => True

/-- `v'` is what the objects have after the calls when each has its bytes to itself. -/
def Follows {ι : Type} [DecidableEq ι] (v : ι → List UInt8) :
    List (CowCall ι) → (ι → List UInt8) → Prop
  | [], v' => v' = v
  | c :: calls, v' => c.InRange v ∧ ∃ m, c.Gives v m ∧ Follows m calls v'

namespace Cows

variable {ι : Type} [Fintype ι] [DecidableEq ι] {s : Cows ι}

/-- **One call** does to the objects what it says, or names bytes that are not there. -/
theorem Sound.step (h : s.Sound) (c : CowCall ι) (junk : Junk) :
    (∃ s', s.step (c, junk) = .ok s' ∧ s'.Sound ∧ c.InRange s.val ∧ c.Gives s.val s'.val) ∨
      s.step (c, junk) = .error .outOfRange ∧ ¬ c.InRange s.val := by
  cases c with
  | copy i j =>
      obtain ⟨s', hok, h', hval⟩ := h.copy i j
      exact .inl ⟨s', hok, h', trivial, hval⟩
  | move i j =>
      obtain ⟨s', hok, h', hval⟩ := h.move i j
      exact .inl ⟨s', hok, h', trivial, hval⟩
  | construct i bytes capacity =>
      obtain ⟨s', hok, h', hval⟩ := h.construct junk i bytes capacity
      exact .inl ⟨s', hok, h', trivial, hval⟩
  | constructSize i size capacity =>
      obtain ⟨s', hok, h', hval⟩ := h.constructSize junk i size capacity
      exact .inl ⟨s', hok, h', trivial, hval⟩
  | destroy i =>
      obtain ⟨s', hok, h', hval⟩ := h.null i
      exact .inl ⟨s', hok, h', trivial, hval⟩
  | slice i j offset length =>
      have hlen := h.length_val j
      by_cases hin : offset + length ≤ s.size j
      · obtain ⟨s', hok, h', hval⟩ := h.slice i j hin
        exact .inl ⟨s', hok, h', hin.trans_eq hlen.symm, hval⟩
      · exact .inr ⟨if_neg hin, fun hrange => hin (hrange.trans_eq hlen)⟩
  | swap i j =>
      obtain ⟨h', hval⟩ := h.swap i j
      exact .inl ⟨s.swap i j, rfl, h', trivial, hval⟩
  | setData i bytes =>
      obtain ⟨s', hok, h', hval⟩ := h.setData junk i bytes
      exact .inl ⟨s', hok, h', trivial, hval⟩
  | appendData i bytes =>
      obtain ⟨s', hok, h', hval⟩ := h.appendData junk i bytes
      exact .inl ⟨s', hok, h', trivial, hval⟩
  | setSize i size =>
      obtain ⟨s', hok, h', hval⟩ := h.setSize junk i size
      exact .inl ⟨s', hok, h', trivial, hval⟩
  | ensureCapacity i newCapacity =>
      obtain ⟨s', hok, h', hval⟩ := h.ensureCapacity junk i newCapacity
      exact .inl ⟨s', hok, h', trivial, hval⟩
  | clear i =>
      obtain ⟨s', hok, h', hval⟩ := h.clear junk i
      exact .inl ⟨s', hok, h', trivial, hval⟩
  | setByte i k byte =>
      have hlen := h.length_val i
      by_cases hk : k < s.size i
      · obtain ⟨s', hok, h', hval⟩ := h.setByte junk hk byte
        exact .inl ⟨s', hok, h', hk.trans_eq hlen.symm, hval⟩
      · exact .inr ⟨if_neg hk, fun hrange => hk (hrange.trans_eq hlen)⟩

theorem Sound.run (h : s.Sound) (calls : List (CowCall ι × Junk)) :
    (∀ s', Trace.runE Cows.step s calls = .ok s' →
      s'.Sound ∧ Follows s.val (calls.map Prod.fst) s'.val) ∧
    ∀ f, Trace.runE Cows.step s calls = .error f → f = .outOfRange ∧
      ∃ pre c post t, calls = pre ++ c :: post ∧ Trace.runE Cows.step s pre = .ok t ∧
        ¬ c.1.InRange t.val := by
  induction calls generalizing s with
  | nil =>
      refine ⟨fun s' hrun => ?_, fun f hrun => ?_⟩
      · cases hrun
        exact ⟨h, rfl⟩
      · cases hrun
  | cons e calls ih =>
      obtain ⟨c, junk⟩ := e
      rcases h.step c junk with ⟨m, hok, hm, hrange, hgives⟩ | ⟨herror, hrange⟩
      · have hnext : ∀ rest, Trace.runE Cows.step s ((c, junk) :: rest) =
            Trace.runE Cows.step m rest := fun rest => by rw [Trace.runE, hok]
        refine ⟨fun s' hrun => ?_, fun f hrun => ?_⟩
        · rw [hnext] at hrun
          obtain ⟨hsound, hfollows⟩ := (ih hm).1 s' hrun
          exact ⟨hsound, hrange, m.val, hgives, hfollows⟩
        · rw [hnext] at hrun
          obtain ⟨hf, pre, c', post, t, hsplit, hpre, hout⟩ := (ih hm).2 f hrun
          refine ⟨hf, (c, junk) :: pre, c', post, t, by rw [hsplit]; rfl, ?_, hout⟩
          rw [hnext, hpre]
      · refine ⟨fun s' hrun => ?_, fun f hrun => ?_⟩
        · rw [Trace.runE, herror] at hrun
          cases hrun
        · rw [Trace.runE, herror] at hrun
          cases hrun
          exact ⟨rfl, [], (c, junk), calls, s, rfl, rfl, hrange⟩

/-- **Copy-on-write is value semantics.** In every run each object has the bytes it would have
    with a buffer of its own, a buffer is held by as many objects as its count says and goes with
    the last, and only a call that names bytes that are not there fails. -/
theorem value_semantics (calls : List (CowCall ι × Junk)) :
    (∀ s : Cows ι, Trace.runE Cows.step {} calls = .ok s →
      Follows (fun _ => []) (calls.map Prod.fst) s.val ∧
      ∀ a c, s.store.cells a = some c → 0 < c.refs ∧ c.refs = (s.store.holders a).card) ∧
    ∀ f, Trace.runE Cows.step {} calls = .error f → f = .outOfRange ∧
      ∃ pre c post s, calls = pre ++ c :: post ∧ Trace.runE Cows.step {} pre = .ok s ∧
        ¬ c.1.InRange s.val := by
  obtain ⟨hcompletes, hfails⟩ := sound_init.run calls
  refine ⟨fun s hrun => ?_, hfails⟩
  obtain ⟨hsound, hfollows⟩ := hcompletes s hrun
  refine ⟨hfollows, fun a c hc => ⟨hsound.counted.pos a c hc, ?_⟩⟩
  rw [← Store.refs_of_cells hc, hsound.counted.count, List.count_nil, Nat.add_zero]

/-- A copy is made of two bytes and a third is appended to it. -/
def copyAppended : List (CowCall Bool × Junk) :=
  [(.construct false [1, 2] 0, fun _ => 0), (.copy true false, fun _ => 0),
    (.appendData true [3], fun _ => 0)]

/-- The other object is left as it was. -/
theorem value_semantics_copy : ∃ s : Cows Bool, Trace.runE Cows.step {} copyAppended = .ok s ∧
    s.val false = [1, 2] ∧ s.val true = [1, 2, 3] := by
  obtain ⟨s, hs⟩ : ∃ s : Cows Bool, Trace.runE Cows.step {} copyAppended = .ok s := ⟨_, rfl⟩
  obtain ⟨⟨-, m₁, h₁, -, m₂, h₂, -, m₃, h₃, hval⟩, -⟩ := (value_semantics copyAppended).1 s hs
  have hfinal : s.val = Function.update (Function.update (Function.update (fun _ => []) false
      [1, 2]) true [1, 2]) true [1, 2, 3] := by
    rw [hval, h₃, h₂, h₁]
    rfl
  refine ⟨s, hs, ?_, ?_⟩ <;> rw [hfinal] <;> rfl

end Cows

end Bifrost.Utils
