/-
  `RTCUtils::MemBuffer` (`utils/utils.h`): a byte buffer that grows by doubling.

  `data` is the part of the allocation that is in use, the first `size` bytes; it never
  exceeds the allocation (`fits`). `size_t` is taken as a number without bound, `uint` is
  32 bits, as `membuf_reserve` computes in it: a new size that does not fit there is cut,
  and what is then written past the allocation is a fault. Allocations succeed, as the
  asserts say. `sufficient_iff`: the sizes for which a reserve makes room.

  `membuf_trunc`, `membuf_append_format`, `membuf_insert`, `membuf_remove` and the flag byte
  are left out.
-/
import Bifrost.Rtc.Runtime
import Mathlib.Tactic.Ring

namespace Bifrost.Utils

open Bifrost.Rtc

structure MemBuffer where
  data : List UInt8
  bufferSize : Nat
  fits : data.length ≤ bufferSize

namespace MemBuffer

def getLen (b : MemBuffer) : Nat := b.data.length

def membufInit (initialBufferSize : Nat) : MemBuffer :=
  { data := [], bufferSize := initialBufferSize, fits := Nat.zero_le _ }

def membufClear (b : MemBuffer) (maxSize : Nat) : MemBuffer :=
  if b.data = [] then b
  else if 1 < maxSize ∧ maxSize < b.bufferSize then
    { data := [], bufferSize := maxSize, fits := Nat.zero_le _ }
  else { b with data := [], fits := Nat.zero_le _ }

/-- The loop `while (new_buffer_size < new_data_size) new_buffer_size <<= 1`. -/
def growLoop : Nat → UInt32 → UInt32 → Except Fault UInt32
  | 0, _, _ => .error .endlessLoop
  | fuel + 1, newBufferSize, newDataSize =>
    if newBufferSize < newDataSize then growLoop fuel (newBufferSize <<< 1) newDataSize
    else .ok newBufferSize

/-- After 32 doublings the size is 0, and then it stays 0. -/
def kGrowRounds : Nat := 33

def membufReserve (b : MemBuffer) (extraSize : Nat) : Except Fault MemBuffer :=
  if b.bufferSize - b.data.length < extraSize then do
    let newBufferSize ← growLoop kGrowRounds
      (if b.bufferSize = 0 then UInt32.ofNat extraSize else UInt32.ofNat (b.bufferSize <<< 1))
      (UInt32.ofNat (b.data.length + extraSize))
    -- the `memset` behind the data
    if h : b.data.length ≤ newBufferSize.toNat then
      .ok { b with bufferSize := newBufferSize.toNat, fits := h }
    else .error .outOfRange
  else .ok b

def membufAppendData (b : MemBuffer) (data : List UInt8) : Except Fault MemBuffer :=
  if data = [] then .ok b
  else do
    let b ← b.membufReserve data.length
    if h : b.data.length + data.length ≤ b.bufferSize then
      .ok { b with data := b.data ++ data, fits := by rw [List.length_append]; exact h }
    else .error .outOfRange

/-! ## The loop -/

theorem growLoop_zero {newDataSize : UInt32} (h : 0 < newDataSize) (fuel : Nat) :
    growLoop fuel 0 newDataSize = .error .endlessLoop := by
  induction fuel with
  | zero => rfl
  | succ fuel ih =>
      rw [growLoop, if_pos h]
      exact ih

/-- The rounds are enough: with more of them the loop ends where it did, or not at all. -/
theorem growLoop_fuel (n k : Nat) : ∀ {a b : UInt32}, 2 ^ (32 - k) ∣ a.toNat → k ≤ 32 →
    growLoop (k + 1 + n) a b = growLoop (k + 1) a b := by
  induction k with
  | zero =>
      intro a b hdvd _
      have ha : a = 0 := by
        have := a.toNat_lt
        rw [← UInt32.toNat_inj]
        exact Nat.eq_zero_of_dvd_of_lt hdvd this
      subst ha
      by_cases hb : (0 : UInt32) < b
      · rw [growLoop_zero hb, growLoop_zero hb]
      · rw [show 0 + 1 + n = n + 1 by omega, growLoop, growLoop, if_neg hb, if_neg hb]
  | succ k ih =>
      intro a b hdvd hk
      have hshift : (a <<< 1).toNat = 2 * a.toNat % 2 ^ 32 := by
        rw [UInt32.toNat_shiftLeft, Nat.shiftLeft_eq]
        show a.toNat * 2 ^ 1 % 2 ^ 32 = _
        omega
      have hdvd' : 2 ^ (32 - k) ∣ (a <<< 1).toNat := by
        rw [hshift, show 32 - k = 32 - (k + 1) + 1 by omega]
        rw [Nat.dvd_mod_iff (Nat.pow_dvd_pow 2 (by omega)), Nat.pow_succ, Nat.mul_comm]
        exact Nat.mul_dvd_mul_left 2 hdvd
      rw [show k + 1 + 1 + n = k + 1 + n + 1 by omega, growLoop, growLoop.eq_def (k + 1 + 1)]
      dsimp only
      rw [ih hdvd' (by omega)]

theorem growLoop_rounds (n : Nat) (a b : UInt32) :
    growLoop (kGrowRounds + n) a b = growLoop kGrowRounds a b :=
  growLoop_fuel n 32 (Nat.one_dvd _) (Nat.le_refl _)

/-- From a positive size the loop ends at a size that is enough and not twice too much. -/
theorem growLoop_ok (fuel : Nat) : ∀ {a b : UInt32}, b.toNat ≤ a.toNat * 2 ^ fuel →
    b.toNat ≤ 2 ^ 31 →
    ∃ c, growLoop (fuel + 1) a b = .ok c ∧ b ≤ c ∧ (c = a ∨ c.toNat < 2 * b.toNat) := by
  induction fuel with
  | zero =>
      intro a b hle _
      refine ⟨a, ?_, UInt32.le_iff_toNat_le.mpr (by omega), Or.inl rfl⟩
      rw [growLoop, if_neg]
      rw [UInt32.lt_iff_toNat_lt]
      omega
  | succ fuel ih =>
      intro a b hle hb
      rw [growLoop]
      by_cases hlt : a < b
      · have hlt' := UInt32.lt_iff_toNat_lt.mp hlt
        have hshift : (a <<< 1).toNat = 2 * a.toNat := by
          rw [UInt32.toNat_shiftLeft, Nat.shiftLeft_eq]
          show a.toNat * 2 ^ 1 % 2 ^ 32 = _
          omega
        obtain ⟨c, hok, hle', hor⟩ := @ih (a <<< 1) b
          (by rw [hshift]; calc
            b.toNat ≤ a.toNat * 2 ^ (fuel + 1) := hle
            _ = 2 * a.toNat * 2 ^ fuel := by ring) hb
        rw [if_pos hlt]
        refine ⟨c, hok, hle', Or.inr ?_⟩
        rcases hor with rfl | hlt₂
        · omega
        · exact hlt₂
      · rw [if_neg hlt]
        exact ⟨a, rfl, UInt32.not_lt.mp hlt, Or.inl rfl⟩

/-! ## Appending -/

/-- Below 2 GiB a reserve makes room, and at most twice the room that is needed. -/
theorem membufReserve_ok {b : MemBuffer} (hpos : 0 < b.bufferSize) (hsize : b.bufferSize < 2 ^ 31)
    {extraSize : Nat} (hextra : b.data.length + extraSize ≤ 2 ^ 31) :
    ∃ b', b.membufReserve extraSize = .ok b' ∧ b'.data = b.data ∧
      b.data.length + extraSize ≤ b'.bufferSize ∧ b.bufferSize ≤ b'.bufferSize ∧
      b'.bufferSize ≤ max b.bufferSize (2 * (b.data.length + extraSize)) := by
  have hfits := b.fits
  unfold membufReserve
  by_cases hroom : b.bufferSize - b.data.length < extraSize
  · have hdouble : (UInt32.ofNat (b.bufferSize <<< 1)).toNat = 2 * b.bufferSize := by
      rw [UInt32.toNat_ofNat', Nat.shiftLeft_eq]
      omega
    have hneed : (UInt32.ofNat (b.data.length + extraSize)).toNat = b.data.length + extraSize := by
      rw [UInt32.toNat_ofNat']
      omega
    obtain ⟨c, hok, hle, hor⟩ := @growLoop_ok 32 (UInt32.ofNat (b.bufferSize <<< 1))
      (UInt32.ofNat (b.data.length + extraSize)) (by rw [hdouble, hneed]; omega)
      (by rw [hneed]; omega)
    have hle' := UInt32.le_iff_toNat_le.mp hle
    rw [hneed] at hle'
    have hbound : c.toNat ≤ 2 * (b.data.length + extraSize) := by
      rcases hor with rfl | hlt
      · rw [hdouble]
        omega
      · rw [hneed] at hlt
        omega
    refine ⟨{ b with bufferSize := c.toNat, fits := by omega }, ?_, rfl, hle', ?_, ?_⟩
    · rw [if_pos hroom, if_neg (by omega), bind_eq_ok]
      exact ⟨c, hok, dif_pos (by omega)⟩
    · show b.bufferSize ≤ c.toNat
      omega
    · show c.toNat ≤ _
      omega
  · rw [if_neg hroom]
    exact ⟨b, rfl, rfl, by omega, Nat.le_refl _, Nat.le_max_left _ _⟩

/-- So an append keeps all bytes, in order. -/
theorem membufAppendData_ok {b : MemBuffer} (hpos : 0 < b.bufferSize)
    (hsize : b.bufferSize < 2 ^ 31) {data : List UInt8}
    (hlen : b.data.length + data.length ≤ 2 ^ 31) :
    ∃ b', b.membufAppendData data = .ok b' ∧ b'.data = b.data ++ data ∧
      b.bufferSize ≤ b'.bufferSize ∧
      b'.bufferSize ≤ max b.bufferSize (2 * (b.data.length + data.length)) := by
  unfold membufAppendData
  by_cases hnil : data = []
  · subst hnil
    rw [if_pos rfl]
    exact ⟨b, rfl, (List.append_nil _).symm, Nat.le_refl _, Nat.le_max_left _ _⟩
  · obtain ⟨b₁, hok, hdata, hroom, hle, hmax⟩ := membufReserve_ok hpos hsize hlen
    have hroom₁ : b₁.data.length + data.length ≤ b₁.bufferSize := by
      rw [hdata]
      exact hroom
    refine ⟨{ b₁ with data := b₁.data ++ data, fits := by rw [List.length_append]; exact hroom₁ },
      ?_, ?_, hle, hmax⟩
    · rw [if_neg hnil, bind_eq_ok]
      exact ⟨b₁, hok, dif_pos hroom₁⟩
    · show b₁.data ++ data = _
      rw [hdata]

/-- What an append that completes leaves: never less than was there. -/
theorem data_of_membufAppendData {b b' : MemBuffer} {data : List UInt8}
    (hok : b.membufAppendData data = .ok b') : b'.data = b.data ++ data := by
  unfold membufAppendData at hok
  split at hok
  · next hnil =>
      cases hok
      rw [hnil, List.append_nil]
  · obtain ⟨b₁, hreserve, hok⟩ := bind_eq_ok.mp hok
    have hdata : b₁.data = b.data := by
      unfold membufReserve at hreserve
      split at hreserve
      · obtain ⟨c, -, hreserve⟩ := bind_eq_ok.mp hreserve
        split at hreserve
        · cases hreserve
          rfl
        · cases hreserve
      · cases hreserve
        rfl
    split at hok
    · cases hok
      exact congrArg (· ++ data) hdata
    · cases hok

theorem membufClear_zero (b : MemBuffer) :
    (b.membufClear 0).data = [] ∧ (b.membufClear 0).bufferSize = b.bufferSize := by
  unfold membufClear
  split
  · next hnil => exact ⟨hnil, rfl⟩
  · rw [if_neg (by simp)]
    exact ⟨rfl, rfl⟩

/-! ## Every state and every length

`uint` is narrower than the sizes it is computed from, and the doubling is cut with it. So
the loop ends at the first of the cut doublings that is not below the needed size, if there
is one; once the bits of the first size are shifted out it goes on with 0 for ever. -/

theorem growLoop_isOk_iff (fuel : Nat) : ∀ {a b : UInt32},
    (∃ c, growLoop fuel a b = .ok c) ↔ ∃ j < fuel, b.toNat ≤ a.toNat * 2 ^ j % 2 ^ 32 := by
  induction fuel with
  | zero =>
      intro a b
      constructor
      · rintro ⟨c, hok⟩
        cases hok
      · rintro ⟨j, hj, -⟩
        omega
  | succ fuel ih =>
      intro a b
      have ha : a.toNat * 2 ^ 0 % 2 ^ 32 = a.toNat := by
        rw [Nat.pow_zero, Nat.mul_one, Nat.mod_eq_of_lt a.toNat_lt]
      -- a doubling of the cut number is cut to the same number
      have hshift : ∀ j, (a <<< 1).toNat * 2 ^ j % 2 ^ 32 = a.toNat * 2 ^ (j + 1) % 2 ^ 32 := by
        intro j
        rw [UInt32.toNat_shiftLeft, Nat.shiftLeft_eq]
        show a.toNat * 2 ^ 1 % 2 ^ 32 * 2 ^ j % 2 ^ 32 = _
        rw [Nat.mod_mul_mod, Nat.mul_assoc, ← Nat.pow_add, Nat.add_comm 1 j]
      rw [growLoop]
      by_cases hlt : a < b
      · have hlt' := UInt32.lt_iff_toNat_lt.mp hlt
        rw [if_pos hlt, ih]
        constructor
        · rintro ⟨j, hj, hle⟩
          exact ⟨j + 1, by omega, hshift j ▸ hle⟩
        · rintro ⟨j, hj, hle⟩
          cases j with
          | zero => omega
          | succ j => exact ⟨j, by omega, (hshift j).symm ▸ hle⟩
      · have hge := UInt32.le_iff_toNat_le.mp (UInt32.not_lt.mp hlt)
        rw [if_neg hlt]
        exact ⟨fun _ => ⟨0, by omega, by omega⟩, fun _ => ⟨a, rfl⟩⟩

theorem le_of_growLoop (fuel : Nat) : ∀ {a b c : UInt32}, growLoop fuel a b = .ok c → b ≤ c := by
  induction fuel with
  | zero =>
      intro a b c hok
      cases hok
  | succ fuel ih =>
      intro a b c hok
      rw [growLoop] at hok
      split at hok
      · exact ih hok
      · next hnot =>
          cases hok
          exact UInt32.not_lt.mp hnot

/-- The first size the loop tries, before it is cut. -/
def firstSize (b : MemBuffer) (extraSize : Nat) : Nat :=
  if b.bufferSize = 0 then extraSize else 2 * b.bufferSize

/-- The sizes fit: the allocation has room, or a cut doubling of it has. -/
def Roomy (b : MemBuffer) (extraSize : Nat) : Prop :=
  extraSize ≤ b.bufferSize - b.data.length ∨
    (b.data.length + extraSize < 2 ^ 32 ∧
      ∃ j ≤ 32, b.data.length + extraSize ≤ b.firstSize extraSize * 2 ^ j % 2 ^ 32)

/-- A reserve ends with room for the bytes to come, and the append that follows completes. -/
structure Sufficient (b : MemBuffer) (extraSize : Nat) : Prop where
  reserve : ∃ b', b.membufReserve extraSize = .ok b' ∧ b'.data = b.data ∧
    extraSize ≤ b'.bufferSize - b'.data.length
  append (data : List UInt8) (hlen : data.length = extraSize) :
    ∃ b', b.membufAppendData data = .ok b'

section Grow

variable {b : MemBuffer} {extraSize : Nat}

theorem membufReserve_grow (hroom : ¬ extraSize ≤ b.bufferSize - b.data.length) :
    b.membufReserve extraSize = (do
      let newBufferSize ← growLoop kGrowRounds (UInt32.ofNat (b.firstSize extraSize))
        (UInt32.ofNat (b.data.length + extraSize))
      if h : b.data.length ≤ newBufferSize.toNat then
        .ok { b with bufferSize := newBufferSize.toNat, fits := h }
      else .error .outOfRange) := by
  have hfirst : (if b.bufferSize = 0 then UInt32.ofNat extraSize
      else UInt32.ofNat (b.bufferSize <<< 1)) = UInt32.ofNat (b.firstSize extraSize) := by
    unfold firstSize
    split
    · rfl
    · rw [Nat.shiftLeft_eq, Nat.pow_one, Nat.mul_comm]
  rw [membufReserve, if_pos (by omega), hfirst]

/-- The loop ends, for a total of 32 bits, as soon as one of the cut doublings is enough. -/
theorem growLoop_total_iff (htotal : b.data.length + extraSize < 2 ^ 32) :
    (∃ c, growLoop kGrowRounds (UInt32.ofNat (b.firstSize extraSize))
        (UInt32.ofNat (b.data.length + extraSize)) = .ok c) ↔
      ∃ j ≤ 32, b.data.length + extraSize ≤ b.firstSize extraSize * 2 ^ j % 2 ^ 32 := by
  rw [growLoop_isOk_iff, UInt32.toNat_ofNat_of_lt' htotal, UInt32.toNat_ofNat']
  simp only [Nat.mod_mul_mod, kGrowRounds, Nat.lt_succ_iff]

theorem reserve_iff : (∃ b', b.membufReserve extraSize = .ok b' ∧ b'.data = b.data ∧
    extraSize ≤ b'.bufferSize - b'.data.length) ↔ b.Roomy extraSize := by
  by_cases hroom : extraSize ≤ b.bufferSize - b.data.length
  · refine iff_of_true ⟨b, ?_, rfl, hroom⟩ (Or.inl hroom)
    rw [membufReserve, if_neg (by omega)]
  · rw [Roomy, or_iff_right hroom, membufReserve_grow hroom]
    constructor
    · rintro ⟨b', hok, -, hle⟩
      obtain ⟨c, hloop, hok⟩ := bind_eq_ok.mp hok
      split at hok
      · cases hok
        have hc := c.toNat_lt
        have htotal : b.data.length + extraSize < 2 ^ 32 := by
          have : extraSize ≤ c.toNat - b.data.length := hle
          omega
        exact ⟨htotal, (growLoop_total_iff htotal).mp ⟨c, hloop⟩⟩
      · cases hok
    · rintro ⟨htotal, hdoubled⟩
      obtain ⟨c, hloop⟩ := (growLoop_total_iff htotal).mpr hdoubled
      have hle := UInt32.le_iff_toNat_le.mp (le_of_growLoop _ hloop)
      rw [UInt32.toNat_ofNat_of_lt' htotal] at hle
      refine ⟨{ b with bufferSize := c.toNat, fits := by omega }, ?_, rfl, ?_⟩
      · rw [bind_eq_ok]
        exact ⟨c, hloop, dif_pos (by omega)⟩
      · show extraSize ≤ c.toNat - b.data.length
        omega

end Grow

theorem sufficient_iff (b : MemBuffer) (extraSize : Nat) :
    b.Sufficient extraSize ↔ b.Roomy extraSize := by
  constructor
  · exact fun h => reserve_iff.mp h.reserve
  · intro hroomy
    obtain ⟨b', hok, hdata, hle⟩ := reserve_iff.mpr hroomy
    refine ⟨⟨b', hok, hdata, hle⟩, ?_⟩
    intro data hlen
    unfold membufAppendData
    by_cases hnil : data = []
    · exact ⟨b, if_pos hnil⟩
    · have hfits := b'.fits
      refine ⟨{ b' with data := b'.data ++ data, fits := by rw [List.length_append]; omega }, ?_⟩
      rw [if_neg hnil, bind_eq_ok]
      exact ⟨b', hlen ▸ hok, dif_pos (by omega)⟩

/-- Up to a total of 2 GiB the sizes fit, from any positive size below it. -/
theorem roomy_of_le {b : MemBuffer} {extraSize : Nat} (hpos : 0 < b.bufferSize)
    (hsize : b.bufferSize < 2 ^ 31) (htotal : b.data.length + extraSize ≤ 2 ^ 31) :
    b.Roomy extraSize := by
  obtain ⟨b', hok, hdata, hle, -, -⟩ := membufReserve_ok hpos hsize htotal
  refine reserve_iff.mp ⟨b', hok, hdata, ?_⟩
  rw [hdata]
  omega

/-- A buffer without room. -/
def full (n : Nat) : MemBuffer :=
  { data := List.replicate n 0, bufferSize := n, fits := Nat.le_of_eq List.length_replicate }

theorem not_sufficient : ¬ ∀ (b : MemBuffer) (extraSize : Nat), b.Sufficient extraSize := by
  intro h
  have hlen : (full (2 ^ 31)).data.length = 2 ^ 31 := List.length_replicate
  rcases reserve_iff.mp (h (full (2 ^ 31)) 4096).reserve with hroom | ⟨-, j, hj, hle⟩
  · rw [hlen] at hroom
    exact absurd hroom (by decide)
  · -- twice the size is cut to 0
    have hzero : (full (2 ^ 31)).firstSize 4096 * 2 ^ j % 2 ^ 32 = 0 :=
      Nat.mul_mod_right (2 ^ 32) (2 ^ j)
    rw [hlen, hzero] at hle
    omega

end MemBuffer

end Bifrost.Utils
