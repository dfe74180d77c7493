/-
  The class `sha1`, and the digest it should compute.

  The class takes bytes in pieces of any length, keeps those that do not fill a block in
  `buf`, and expands the sixteen words of a block in place, in an array taken modulo 16.
  `digest` is the standard's function of a whole message: the message padded, cut into
  blocks, each block expanded to eighty words and mixed into the state. The class computes it,
  and `print_base64` writes what `Base64Encode` writes of its bytes (`sha1_base64`), the way the
  other build of `GenWebSocketHashcode` goes.
-/
import Bifrost.Lib.Incremental
import Bifrost.Ws.Base64

namespace Bifrost.Ws

open Bytes Text

/-- The five words of the state, and the working variables. -/
structure Words where
  a : UInt32
  b : UInt32
  c : UInt32
  d : UInt32
  e : UInt32
  deriving DecidableEq, Repr

def rol32 (x n : UInt32) : UInt32 := (x <<< n) ||| (x >>> (32 - n))

/-- A word of a block, whose bytes are all there. -/
def makeWord (p : List UInt8) (i : Nat) : UInt32 :=
  ((p.getD i 0).toUInt32 <<< 24) ||| ((p.getD (i + 1) 0).toUInt32 <<< 16) |||
    ((p.getD (i + 2) 0).toUInt32 <<< 8) ||| (p.getD (i + 3) 0).toUInt32

def firstState : Words :=
  { a := 0x67452301, b := 0xEFCDAB89, c := 0x98BADCFE, d := 0x10325476, e := 0xC3D2E1F0 }

def Words.add (r s : Words) : Words :=
  { a := r.a + s.a, b := r.b + s.b, c := r.c + s.c, d := r.d + s.d, e := r.e + s.e }

namespace Sha1

/-! ## The class -/

/-- The expression of the macro for round `i`, without the word and the rotated variable. -/
def mix (i : Nat) (u x y : UInt32) : UInt32 :=
  if i < 20 then (u &&& (x ^^^ y)) ^^^ y
  else if i < 40 then u ^^^ x ^^^ y
  else if i < 60 then ((u ||| x) &&& y) ||| (u &&& x)
  else u ^^^ x ^^^ y

def constant (i : Nat) : UInt32 :=
  if i < 20 then 0x5a827999
  else if i < 40 then 0x6ed9eba1
  else if i < 60 then 0x8f1bbcdc
  else 0xca62c1d6

/-- `SHA1_LOAD`. `i & 15` is `i % 16`. -/
def load (w : Vector UInt32 16) (i : Nat) : Vector UInt32 16 :=
  w.set (i % 16)
    (rol32 (w[(i + 13) % 16] ^^^ w[(i + 8) % 16] ^^^ w[(i + 2) % 16] ^^^ w[i % 16]) 1)

/-- A round. The macro names the five variables anew in every call, `z` being the last of them
    before and the first after it: here they are moved on instead. -/
def round (i : Nat) (s : Vector UInt32 16 × Words) : Vector UInt32 16 × Words :=
  let w := if i < 16 then s.1 else load s.1 i
  let r := s.2
  (w, { a := r.e + (mix i r.b r.c r.d + w[i % 16] + constant i + rol32 r.a 5)
        b := r.a, c := rol32 r.b 30, d := r.c, e := r.d })

/-- The first `n` rounds. -/
def rounds (w : Vector UInt32 16) (r : Words) : Nat → Vector UInt32 16 × Words
  | 0 => (w, r)
  | n + 1 => round n (rounds w r n)

/-- `process_block`. -/
def processBlock (state : Words) (block : List UInt8) : Words :=
  state.add (rounds (Vector.ofFn fun i => makeWord block (i * 4)) state 80).2

/-- The members, `buf` being the bytes below the index `i`. -/
structure Hasher where
  state : Words := firstState
  buf : List UInt8 := []
  nBits : UInt64 := 0
  deriving DecidableEq, Repr

/-- `add_byte_dont_count_bits`. -/
def addByteDontCountBits (s : Hasher) (x : UInt8) : Hasher :=
  if 64 ≤ (s.buf ++ [x]).length then
    { s with state := processBlock s.state (s.buf ++ [x]), buf := [] }
  else { s with buf := s.buf ++ [x] }

/-- `add` of a byte. -/
def addByte (s : Hasher) (x : UInt8) : Hasher :=
  let s := addByteDontCountBits s x
  { s with nBits := s.nBits + 8 }

/-- The loop that fills up a block. -/
def fillUp (s : Hasher) : List UInt8 → Hasher × List UInt8
  | [] => (s, [])
  | x :: data => if s.buf.length % 64 ≠ 0 then fillUp (addByte s x) data else (s, x :: data)

/-- `n` turns of the loop over full blocks. -/
def fullBlocks : Nat → Hasher → List UInt8 → Hasher × List UInt8
  | 0, s, data => (s, data)
  | n + 1, s, data =>
    fullBlocks n { s with state := processBlock s.state (data.take 64), nBits := s.nBits + 512 }
      (data.drop 64)

/-- `add` of a piece, whose length is a `uint32_t`. -/
def add (s : Hasher) (data : List UInt8) : Hasher :=
  let (s, data) := fillUp s data
  let (s, data) := fullBlocks (data.length / 64) s data
  data.foldl addByte s

/-- The loop of `finalize` over zeros, at most `fuel` times. -/
def padZeros : Nat → Hasher → Hasher
  | 0, s => s
  | fuel + 1, s => if s.buf.length % 64 ≠ 56 then padZeros fuel (addByteDontCountBits s 0) else s

/-- `finalize`. The zeros are never more than fill a block. -/
def finalize (s : Hasher) : Hasher :=
  (put64be s.nBits).foldl addByteDontCountBits (padZeros 64 (addByteDontCountBits s 0x80))

/-! ## The standard -/

/-- Choice, parity and majority. -/
def function (t : Nat) (x y z : UInt32) : UInt32 :=
  if t < 20 then (x &&& y) ^^^ (~~~x &&& z)
  else if t < 40 then x ^^^ y ^^^ z
  else if t < 60 then (x &&& y) ^^^ (x &&& z) ^^^ (y &&& z)
  else x ^^^ y ^^^ z

/-- The message schedule of a block. -/
def schedule (block : List UInt8) (t : Nat) : UInt32 :=
  if t < 16 then makeWord block (t * 4)
  else rol32 (schedule block (t - 3) ^^^ schedule block (t - 8) ^^^ schedule block (t - 14) ^^^
    schedule block (t - 16)) 1
termination_by t
decreasing_by all_goals omega

def compressRounds (block : List UInt8) (h : Words) : Nat → Words
  | 0 => h
  | t + 1 =>
    let r := compressRounds block h t
    { a := rol32 r.a 5 + function t r.b r.c r.d + r.e + constant t + schedule block t
      b := r.a, c := rol32 r.b 30, d := r.c, e := r.d }

def compress (h : Words) (block : List UInt8) : Words := h.add (compressRounds block h 80)

/-- The padding of a message: a bit, zeros up to a multiple of 64 less 8, and the length. -/
def padding (length : Nat) : List UInt8 :=
  0x80 :: List.replicate ((119 - length % 64) % 64) 0 ++ put64be (UInt64.ofNat (8 * length))

/-- Blocks of 64 bytes. -/
def blocks : Incremental.Decoder UInt8 (List UInt8) Empty where
  front xs := if 64 ≤ xs.length then .item (xs.take 64) 64 else .more
  used_pos h := by
    split at h
    · cases h
      decide
    · cases h
  used_le h := by
    split at h
    · next hle =>
        cases h
        exact hle
    · cases h
  item_append ys h := by
    split at h
    · next hle =>
        cases h
        rw [if_pos (by rw [List.length_append]; omega), List.take_append_of_le_length hle]
    · cases h
  bad_append ys h := by
    split at h
    · cases h
    · cases h

/-- The digest of a message. -/
def digest (message : List UInt8) : Words :=
  (blocks.drain (message ++ padding message.length)).1.foldl compress firstState

/-! ## A block -/

/-- On every bit the macros compute what the standard says. -/
theorem mix_eq (t : Nat) (x y z : UInt32) : mix t x y z = function t x y z := by
  have hch : (x &&& (y ^^^ z)) ^^^ z = (x &&& y) ^^^ (~~~x &&& z) := by
    rw [← UInt32.toBitVec_inj]
    refine BitVec.eq_of_getLsbD_eq fun i hi => ?_
    simp only [UInt32.toBitVec_xor, UInt32.toBitVec_and, UInt32.toBitVec_not, BitVec.getLsbD_xor,
      BitVec.getLsbD_and, BitVec.getLsbD_not, hi, decide_true, Bool.true_and]
    cases x.toBitVec.getLsbD i <;> cases y.toBitVec.getLsbD i <;> cases z.toBitVec.getLsbD i <;> rfl
  have hmaj : ((x ||| y) &&& z) ||| (x &&& y) = (x &&& y) ^^^ (x &&& z) ^^^ (y &&& z) := by
    rw [← UInt32.toBitVec_inj]
    refine BitVec.eq_of_getLsbD_eq fun i _ => ?_
    simp only [UInt32.toBitVec_xor, UInt32.toBitVec_and, UInt32.toBitVec_or, BitVec.getLsbD_xor,
      BitVec.getLsbD_and, BitVec.getLsbD_or]
    cases x.toBitVec.getLsbD i <;> cases y.toBitVec.getLsbD i <;> cases z.toBitVec.getLsbD i <;> rfl
  rw [mix, function, hch, hmaj]

/-- The array holds the last sixteen words of the schedule. -/
def Rolling (block : List UInt8) (w : Vector UInt32 16) (n : Nat) : Prop :=
  ∀ t, n ≤ t + 16 → t < max n 16 → w[t % 16] = schedule block t

theorem rolling_load {block : List UInt8} {w : Vector UInt32 16} {n : Nat}
    (h : Rolling block w n) (hn : 16 ≤ n) : Rolling block (load w n) (n + 1) := by
  intro t hge hlt
  have hword (k : Nat) (hk : k = 3 ∨ k = 8 ∨ k = 14 ∨ k = 16) (i : Nat) (hi : i < 16)
      (hplace : i = (n - k) % 16) : w[i] = schedule block (n - k) := by
    subst hplace
    exact h (n - k) (by omega) (by omega)
  simp only [load, Vector.getElem_set]
  by_cases ht : t = n
  · subst ht
    rw [if_pos rfl, hword 3 (by omega) _ _ (by omega), hword 8 (by omega) _ _ (by omega),
      hword 14 (by omega) _ _ (by omega), hword 16 (by omega) _ _ (by omega)]
    conv_rhs => rw [schedule, if_neg (by omega)]
  · rw [if_neg (by omega)]
    exact h t (by omega) (by omega)

/-- The rounds of the macros are those of the standard. -/
theorem rounds_eq (block : List UInt8) (state : Words) (n : Nat) :
    (rounds (Vector.ofFn fun i => makeWord block (i * 4)) state n).2 =
        compressRounds block state n ∧
      Rolling block (rounds (Vector.ofFn fun i => makeWord block (i * 4)) state n).1 n := by
  induction n with
  | zero =>
      refine ⟨rfl, fun t _ ht => ?_⟩
      have ht' : t < 16 := by omega
      show (Vector.ofFn fun i : Fin 16 => makeWord block (i * 4))[t % 16] = _
      rw [Vector.getElem_ofFn, schedule, if_pos ht']
      exact congrArg (fun k => makeWord block (k * 4)) (Nat.mod_eq_of_lt ht')
  | succ n ih =>
      obtain ⟨hwords, hrolling⟩ := ih
      have hrolling' : Rolling block (round n
          (rounds (Vector.ofFn fun i => makeWord block (i * 4)) state n)).1 (n + 1) := by
        rw [round]
        dsimp only
        split
        · exact fun t _ ht => hrolling t (by omega) (by omega)
        · exact rolling_load hrolling (by omega)
      refine ⟨?_, hrolling'⟩
      have hword := hrolling' n (by omega) (by omega)
      rw [round] at hword
      dsimp only at hword
      rw [rounds, round, compressRounds]
      dsimp only
      rw [hword, hwords, mix_eq, Words.mk.injEq]
      refine ⟨?_, rfl, rfl, rfl, rfl⟩
      ac_rfl

theorem processBlock_eq (state : Words) (block : List UInt8) :
    processBlock state block = compress state block := by
  rw [processBlock, (rounds_eq block state 80).1, compress]

/-! ## A message in pieces -/

/-- What the class has made of the bytes so far, apart from counting them. -/
structure Taken (s : Hasher) (bytes : List UInt8) : Prop where
  state : s.state = (blocks.drain bytes).1.foldl compress firstState
  buf : s.buf = (blocks.drain bytes).2

/-- Besides, it has counted their bits. -/
structure Counted (s : Hasher) (bytes : List UInt8) : Prop extends Taken s bytes where
  nBits : s.nBits = UInt64.ofNat (8 * bytes.length)

section Pieces

variable {s : Hasher} {bytes : List UInt8}

theorem Taken.short (h : Taken s bytes) : s.buf.length < 64 := by
  have hstuck := blocks.stuck_rest bytes
  by_contra hlong
  exact hstuck _ _ (if_pos (by rw [← h.buf]; omega))

/-- A block is put in with nothing before it in the buffer. -/
theorem drain_block {block : List UInt8} (h : block.length = 64) :
    blocks.drain block = ([block], []) := by
  have hitem : blocks.front block = .item block 64 := by
    show (if 64 ≤ block.length then Incremental.Front.item (block.take 64) 64 else .more) = _
    rw [if_pos (Nat.le_of_eq h.symm), List.take_of_length_le (Nat.le_of_eq h)]
  rw [Incremental.Decoder.drain_item hitem, List.drop_eq_nil_of_le (Nat.le_of_eq h),
    Incremental.Decoder.drain_stuck blocks.stuck_nil]

theorem length_drain (bytes : List UInt8) : (blocks.drain bytes).2.length = bytes.length % 64 := by
  induction bytes using blocks.drain_induction with
  | stuck xs h =>
      have hshort : xs.length < 64 := by
        by_contra hlong
        exact h _ _ (if_pos (by omega))
      rw [Incremental.Decoder.drain_stuck h, Nat.mod_eq_of_lt hshort]
  | item xs a n h ih =>
      have hitem : (if 64 ≤ xs.length then Incremental.Front.item (xs.take 64) 64 else .more) =
          (.item a n : Incremental.Front (List UInt8) Empty) := h
      split at hitem
      · cases hitem
        rw [Incremental.Decoder.drain_item h, ih, List.length_drop]
        omega
      · cases hitem

theorem Taken.length_buf (h : Taken s bytes) : s.buf.length = bytes.length % 64 := by
  rw [h.buf, length_drain]

theorem taken_byte (h : Taken s bytes) (x : UInt8) :
    Taken (addByteDontCountBits s x) (bytes ++ [x]) := by
  have hshort := h.short
  have hlength : (s.buf ++ [x]).length = s.buf.length + 1 := List.length_append
  rw [addByteDontCountBits]
  split
  · have hdrain := drain_block (show (s.buf ++ [x]).length = 64 by omega)
    constructor
    · rw [Incremental.Decoder.drain_append, ← h.buf, hdrain, List.foldl_append, ← h.state]
      exact processBlock_eq _ _
    · rw [Incremental.Decoder.drain_append, ← h.buf, hdrain]
  · have hstuck : blocks.Stuck (s.buf ++ [x]) := by
      intro a n hitem
      have hmore : (if 64 ≤ (s.buf ++ [x]).length then
          Incremental.Front.item ((s.buf ++ [x]).take 64) 64 else .more) =
          (.item a n : Incremental.Front (List UInt8) Empty) := hitem
      rw [if_neg (by omega)] at hmore
      cases hmore
    constructor
    · rw [Incremental.Decoder.drain_append, ← h.buf, Incremental.Decoder.drain_stuck hstuck,
        List.append_nil]
      exact h.state
    · rw [Incremental.Decoder.drain_append, ← h.buf, Incremental.Decoder.drain_stuck hstuck]

theorem taken_bytes (data : List UInt8) : ∀ {s : Hasher} {bytes : List UInt8}, Taken s bytes →
    Taken (data.foldl addByteDontCountBits s) (bytes ++ data) := by
  induction data with
  | nil => exact fun h => (List.append_nil _).symm ▸ h
  | cons x data ih =>
      intro s bytes h
      rw [List.foldl_cons, List.append_cons]
      exact ih (taken_byte h x)

theorem counted_byte (h : Counted s bytes) (x : UInt8) : Counted (addByte s x) (bytes ++ [x]) := by
  have htaken := taken_byte h.toTaken x
  refine ⟨⟨htaken.state, htaken.buf⟩, ?_⟩
  have hbits : (addByteDontCountBits s x).nBits = s.nBits := by
    rw [addByteDontCountBits]
    split <;> rfl
  show (addByteDontCountBits s x).nBits + 8 = _
  rw [hbits, h.nBits, List.length_append, Nat.mul_add]
  exact (UInt64.ofNat_add _ _).symm

theorem counted_bytes (data : List UInt8) : ∀ {s : Hasher} {bytes : List UInt8}, Counted s bytes →
    Counted (data.foldl addByte s) (bytes ++ data) := by
  induction data with
  | nil => exact fun h => (List.append_nil _).symm ▸ h
  | cons x data ih =>
      intro s bytes h
      rw [List.foldl_cons, List.append_cons]
      exact ih (counted_byte h x)

/-- The buffer is filled up, or the piece comes to its end before. -/
theorem counted_fillUp (data : List UInt8) : ∀ {s : Hasher} {bytes : List UInt8}, Counted s bytes →
    ∃ used, data = used ++ (fillUp s data).2 ∧ Counted (fillUp s data).1 (bytes ++ used) ∧
      ((fillUp s data).2 = [] ∨ (fillUp s data).1.buf = []) := by
  induction data with
  | nil => exact fun {s bytes} h => ⟨[], rfl, by rwa [List.append_nil], .inl rfl⟩
  | cons x data ih =>
      intro s bytes h
      rw [fillUp]
      split
      · obtain ⟨used, hdata, hcounted, hend⟩ := ih (counted_byte h x)
        refine ⟨x :: used, by rw [List.cons_append, ← hdata], ?_, hend⟩
        rwa [List.append_cons]
      · next hfull =>
          have hshort := h.short
          have hempty : s.buf.length = 0 := by omega
          exact ⟨[], rfl, by rwa [List.append_nil], .inr (List.eq_nil_of_length_eq_zero hempty)⟩

/-- Full blocks go into the state directly. -/
theorem counted_fullBlocks (n : Nat) : ∀ {s : Hasher} {bytes data : List UInt8}, Counted s bytes →
    s.buf = [] → n ≤ data.length / 64 →
    Counted (fullBlocks n s data).1 (bytes ++ data.take (64 * n)) ∧
      (fullBlocks n s data).2 = data.drop (64 * n) := by
  induction n with
  | zero =>
      intro s bytes data h _ _
      exact ⟨(List.append_nil _).symm ▸ h, rfl⟩
  | succ n ih =>
      intro s bytes data h hnil hn
      have hlong : 64 ≤ data.length := by omega
      have htake : (data.take 64).length = 64 := List.length_take_of_le hlong
      have hdrain := drain_block htake
      have hrest := h.buf
      rw [hnil] at hrest
      have hnext : Counted { s with state := processBlock s.state (data.take 64)
                                    nBits := s.nBits + 512 } (bytes ++ data.take 64) := by
        refine ⟨⟨?_, ?_⟩, ?_⟩
        · rw [Incremental.Decoder.drain_append, ← hrest, List.nil_append, hdrain,
            List.foldl_append, ← h.state]
          exact processBlock_eq _ _
        · rw [Incremental.Decoder.drain_append, ← hrest, List.nil_append, hdrain]
          exact hnil
        · show s.nBits + 512 = _
          rw [h.nBits, List.length_append, htake, Nat.mul_add]
          exact (UInt64.ofNat_add _ _).symm
      obtain ⟨hcounted, hleft⟩ := @ih _ _ (data.drop 64) hnext hnil
        (by rw [List.length_drop]; omega)
      have hsplit : data.take (64 * (n + 1)) = data.take 64 ++ (data.drop 64).take (64 * n) := by
        rw [← List.take_add, Nat.mul_succ, Nat.add_comm]
      rw [fullBlocks, hsplit, ← List.append_assoc]
      refine ⟨hcounted, ?_⟩
      rw [hleft, List.drop_drop, Nat.mul_succ, Nat.add_comm]

/-- A piece of any length. -/
theorem counted_add (h : Counted s bytes) (data : List UInt8) :
    Counted (add s data) (bytes ++ data) := by
  obtain ⟨used, hdata, hfilled, hend⟩ := counted_fillUp data h
  have hadd : add s data = (fullBlocks ((fillUp s data).2.length / 64) (fillUp s data).1
      (fillUp s data).2).2.foldl addByte (fullBlocks ((fillUp s data).2.length / 64)
        (fillUp s data).1 (fillUp s data).2).1 := rfl
  generalize (fillUp s data).2 = left at *
  generalize (fillUp s data).1 = filled at *
  rw [hadd, hdata, ← List.append_assoc]
  rcases hend with rfl | hnil
  · exact (List.append_nil _).symm ▸ hfilled
  · obtain ⟨hfull, hleft⟩ := counted_fullBlocks (left.length / 64) hfilled hnil (Nat.le_refl _)
    have hlast := counted_bytes (left.drop (64 * (left.length / 64))) hfull
    rw [List.append_assoc, List.take_append_drop] at hlast
    rw [hleft]
    exact hlast

theorem counted_adds (pieces : List (List UInt8)) : ∀ {s : Hasher} {bytes : List UInt8},
    Counted s bytes → Counted (pieces.foldl add s) (bytes ++ pieces.flatten) := by
  induction pieces with
  | nil => exact fun h => (List.append_nil _).symm ▸ h
  | cons piece pieces ih =>
      intro s bytes h
      rw [List.foldl_cons, List.flatten_cons, ← List.append_assoc]
      exact ih (counted_add h piece)

/-- The zeros up to the length. -/
theorem taken_padZeros (fuel : Nat) : ∀ {s : Hasher} {bytes : List UInt8}, Taken s bytes →
    (120 - bytes.length % 64) % 64 < fuel →
    Taken (padZeros fuel s)
      (bytes ++ List.replicate ((120 - bytes.length % 64) % 64) 0) := by
  induction fuel with
  | zero => exact fun _ h => absurd h (Nat.not_lt_zero _)
  | succ fuel ih =>
      intro s bytes h hfuel
      have hlength := h.length_buf
      rw [padZeros]
      split
      · next hmore =>
          have hcount : (120 - bytes.length % 64) % 64 =
              (120 - (bytes ++ [(0 : UInt8)]).length % 64) % 64 + 1 := by
            rw [List.length_append, List.length_singleton]
            omega
          rw [hcount, List.replicate_succ, List.append_cons]
          exact ih (taken_byte h 0) (by omega)
      · next hdone =>
          have hnone : (120 - bytes.length % 64) % 64 = 0 := by omega
          rw [hnone]
          exact (List.append_nil _).symm ▸ h

end Pieces

/-- The state at the end is the digest of the bytes given, in whatever pieces. -/
theorem finalize_state (pieces : List (List UInt8)) :
    (finalize (pieces.foldl add {})).state = digest pieces.flatten := by
  have hstart : Counted {} [] := by
    refine ⟨⟨?_, ?_⟩, rfl⟩
    · rw [Incremental.Decoder.drain_stuck blocks.stuck_nil]
      rfl
    · rw [Incremental.Decoder.drain_stuck blocks.stuck_nil]
  have hcounted := counted_adds pieces hstart
  rw [List.nil_append] at hcounted
  have hpadded := taken_padZeros 64 (taken_byte hcounted.toTaken 0x80) (Nat.mod_lt _ (by decide))
  have hall := taken_bytes (put64be (UInt64.ofNat (8 * pieces.flatten.length))) hpadded
  have hzeros : (120 - (pieces.flatten ++ [(0x80 : UInt8)]).length % 64) % 64 =
      (119 - pieces.flatten.length % 64) % 64 := by
    rw [List.length_append, List.length_singleton]
    omega
  rw [finalize, hcounted.nBits, hall.state, digest, padding, hzeros, List.append_assoc,
    List.append_assoc]
  rfl

end Sha1

/-! ## The digest as text -/

/-- The twenty bytes of the state, as the standard writes them. -/
def Words.bytes (s : Words) : List UInt8 :=
  put32be s.a ++ put32be s.b ++ put32be s.c ++ put32be s.d ++ put32be s.e

/-- The four characters of a triple. -/
def tripleChars (x : UInt32) : List UInt8 :=
  [base64Chars.getD ((x >>> 18) % 64).toNat 0, base64Chars.getD ((x >>> 12) % 64).toNat 0,
    base64Chars.getD ((x >>> 6) % 64).toNat 0, base64Chars.getD (x % 64).toNat 0]

/-- `print_base64`, without the NUL. -/
def printBase64 (s : Words) : List UInt8 :=
  (([(s.a &&& 0xffffff00) >>> 8,
    ((s.a &&& 0x000000ff) <<< 16) ||| ((s.b &&& 0xffff0000) >>> 16),
    ((s.b &&& 0x0000ffff) <<< 8) ||| ((s.c &&& 0xff000000) >>> 24),
    s.c &&& 0x00ffffff,
    (s.d &&& 0xffffff00) >>> 8,
    ((s.d &&& 0x000000ff) <<< 16) ||| ((s.e &&& 0xffff0000) >>> 16),
    (s.e &&& 0x0000ffff) <<< 8] : List UInt32).flatMap tripleChars).set 27 61

/-- The characters of a triple are those the encoder makes of its three bytes. -/
theorem tripleChars_eq {x : UInt32} {a b c : UInt8}
    (h : x.toNat = a.toNat * 2 ^ 16 + b.toNat * 2 ^ 8 + c.toNat) :
    tripleChars x = quad [a, b, c] := by
  have hquad : quad [a, b, c] = ((values a b c).map UInt8.toNat).map (base64Chars.getD · 0) := rfl
  have := a.toNat_lt
  have := b.toNat_lt
  have := c.toNat_lt
  rw [hquad, values_toNat, tripleChars]
  have h0 : x.toNat / 2 ^ 18 % 64 = a.toNat / 4 := by omega
  have h1 : x.toNat / 2 ^ 12 % 64 = a.toNat % 4 * 16 + b.toNat / 16 := by omega
  have h2 : x.toNat / 2 ^ 6 % 64 = b.toNat % 16 * 4 + c.toNat / 64 := by omega
  have h3 : x.toNat % 64 = c.toNat % 64 := by omega
  simp only [UInt32.toNat_mod, UInt32.toNat_shiftRight, UInt32.reduceToNat, Nat.reduceMod,
    Nat.shiftRight_eq_div_pow, List.map_cons, List.map_nil, h0, h1, h2, h3]

/-- The parts of a word the triples take. -/
theorem word_parts (x : UInt32) :
    ((x &&& 0xffffff00) >>> 8).toNat = x.toNat / 2 ^ 8 ∧
    ((x &&& 0xffff0000) >>> 16).toNat = x.toNat / 2 ^ 16 ∧
    ((x &&& 0xff000000) >>> 24).toNat = x.toNat / 2 ^ 24 ∧
    ((x &&& 0x000000ff) <<< 16).toNat = x.toNat % 2 ^ 8 * 2 ^ 16 ∧
    ((x &&& 0x0000ffff) <<< 8).toNat = x.toNat % 2 ^ 16 * 2 ^ 8 ∧
    (x &&& 0x00ffffff).toNat = x.toNat % 2 ^ 24 := by
  have := x.toNat_lt
  have hlow (n : Nat) : x.toNat &&& (2 ^ n - 1) = x.toNat % 2 ^ n :=
    Nat.and_two_pow_sub_one_eq_mod _ n
  have hhigh (n : Nat) (hn : n ≤ 32) :
      (x.toNat / 2 ^ n) &&& (2 ^ (32 - n) - 1) = x.toNat / 2 ^ n := by
    rw [Nat.and_two_pow_sub_one_eq_mod]
    refine Nat.mod_eq_of_lt (Nat.div_lt_of_lt_mul ?_)
    rw [← Nat.pow_add, Nat.add_sub_cancel' hn]
    exact x.toNat_lt
  refine ⟨?_, ?_, ?_, ?_, ?_, ?_⟩
  · rw [UInt32.toNat_shiftRight, UInt32.toNat_and, Nat.shiftRight_and_distrib]
    exact (congrArg (· &&& _) (Nat.shiftRight_eq_div_pow _ _)).trans (hhigh 8 (by decide))
  · rw [UInt32.toNat_shiftRight, UInt32.toNat_and, Nat.shiftRight_and_distrib]
    exact (congrArg (· &&& _) (Nat.shiftRight_eq_div_pow _ _)).trans (hhigh 16 (by decide))
  · rw [UInt32.toNat_shiftRight, UInt32.toNat_and, Nat.shiftRight_and_distrib]
    exact (congrArg (· &&& _) (Nat.shiftRight_eq_div_pow _ _)).trans (hhigh 24 (by decide))
  · rw [UInt32.toNat_shiftLeft, UInt32.toNat_and, Nat.shiftLeft_eq,
      show (0x000000ff : UInt32).toNat = 2 ^ 8 - 1 from rfl, hlow]
    exact Nat.mod_eq_of_lt (show x.toNat % 2 ^ 8 * 2 ^ 16 < 2 ^ 32 by omega)
  · rw [UInt32.toNat_shiftLeft, UInt32.toNat_and, Nat.shiftLeft_eq,
      show (0x0000ffff : UInt32).toNat = 2 ^ 16 - 1 from rfl, hlow]
    exact Nat.mod_eq_of_lt (show x.toNat % 2 ^ 16 * 2 ^ 8 < 2 ^ 32 by omega)
  · rw [UInt32.toNat_and]
    exact hlow 24

/-- Two parts of words side by side. -/
theorem toNat_beside {x y : UInt32} {a b n : Nat} (hx : x.toNat = a * 2 ^ n) (hy : y.toNat = b)
    (hb : b < 2 ^ n) : (x ||| y).toNat = a * 2 ^ n + b := by
  rw [UInt32.toNat_or, hx, hy, Nat.or_comm, or_eq_add_of_lt hb, Nat.add_comm]

/-- The bytes of a word, as numbers. -/
theorem toNat_bytes (x : UInt32) :
    (x >>> 24).toUInt8.toNat = x.toNat / 2 ^ 24 ∧
      (x >>> 16).toUInt8.toNat = x.toNat / 2 ^ 16 % 256 ∧
      (x >>> 8).toUInt8.toNat = x.toNat / 2 ^ 8 % 256 ∧ x.toUInt8.toNat = x.toNat % 256 := by
  have := x.toNat_lt
  simp only [UInt32.toNat_toUInt8, UInt32.toNat_shiftRight, UInt32.reduceToNat,
    Nat.shiftRight_eq_div_pow, Nat.reduceMod, and_true]
  omega

/-- What is printed is the encoding of the twenty bytes. The last triple has two bytes, and the
    character of its third is overwritten. -/
theorem print_base64_eq (s : Words) : printBase64 s = base64Encode s.bytes := by
  obtain ⟨ha, -, -, ha', -⟩ := word_parts s.a
  obtain ⟨-, hb, -, -, hb', -⟩ := word_parts s.b
  obtain ⟨-, -, hc, -, -, hc'⟩ := word_parts s.c
  obtain ⟨hd, -, -, hd', -⟩ := word_parts s.d
  obtain ⟨-, he, -, -, he', -⟩ := word_parts s.e
  obtain ⟨ha0, ha1, ha2, ha3⟩ := toNat_bytes s.a
  obtain ⟨hb0, hb1, hb2, hb3⟩ := toNat_bytes s.b
  obtain ⟨hc0, hc1, hc2, hc3⟩ := toNat_bytes s.c
  obtain ⟨hd0, hd1, hd2, hd3⟩ := toNat_bytes s.d
  obtain ⟨he0, he1, he2, he3⟩ := toNat_bytes s.e
  have hb_lt := s.b.toNat_lt
  have hc_lt := s.c.toNat_lt
  have he_lt := s.e.toNat_lt
  have hencode : base64Encode s.bytes =
      quad [(s.a >>> 24).toUInt8, (s.a >>> 16).toUInt8, (s.a >>> 8).toUInt8] ++
      (quad [s.a.toUInt8, (s.b >>> 24).toUInt8, (s.b >>> 16).toUInt8] ++
      (quad [(s.b >>> 8).toUInt8, s.b.toUInt8, (s.c >>> 24).toUInt8] ++
      (quad [(s.c >>> 16).toUInt8, (s.c >>> 8).toUInt8, s.c.toUInt8] ++
      (quad [(s.d >>> 24).toUInt8, (s.d >>> 16).toUInt8, (s.d >>> 8).toUInt8] ++
      (quad [s.d.toUInt8, (s.e >>> 24).toUInt8, (s.e >>> 16).toUInt8] ++
      (quad [(s.e >>> 8).toUInt8, s.e.toUInt8, 0]).set 3 61))))) := rfl
  rw [hencode, printBase64]
  simp only [List.flatMap_cons, List.flatMap_nil]
  rw [@tripleChars_eq _ (s.a >>> 24).toUInt8 (s.a >>> 16).toUInt8 (s.a >>> 8).toUInt8 (by omega),
    @tripleChars_eq _ s.a.toUInt8 (s.b >>> 24).toUInt8 (s.b >>> 16).toUInt8
      (by rw [toNat_beside ha' hb (by omega)]; omega),
    @tripleChars_eq _ (s.b >>> 8).toUInt8 s.b.toUInt8 (s.c >>> 24).toUInt8
      (by rw [toNat_beside hb' hc (by omega)]; omega),
    @tripleChars_eq _ (s.c >>> 16).toUInt8 (s.c >>> 8).toUInt8 s.c.toUInt8 (by omega),
    @tripleChars_eq _ (s.d >>> 24).toUInt8 (s.d >>> 16).toUInt8 (s.d >>> 8).toUInt8 (by omega),
    @tripleChars_eq _ s.d.toUInt8 (s.e >>> 24).toUInt8 (s.e >>> 16).toUInt8
      (by rw [toNat_beside hd' he (by omega)]; omega),
    @tripleChars_eq _ (s.e >>> 8).toUInt8 s.e.toUInt8 0
      (by rw [he', show (0 : UInt8).toNat = 0 from rfl]; omega)]
  rfl

/-- **The class prints the digest** of the bytes it is given, in whatever pieces, the way
    `Base64Encode` encodes it. -/
theorem sha1_base64 (pieces : List (List UInt8)) :
    printBase64 (Sha1.finalize (pieces.foldl Sha1.add {})).state =
      base64Encode (Sha1.digest pieces.flatten).bytes := by
  rw [Sha1.finalize_state, print_base64_eq]

end Bifrost.Ws
