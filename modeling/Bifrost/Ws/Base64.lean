/-
  `Base64Encode` and `Base64Decode`.

  Both collect bytes in a small array and turn it over when it is full: three bytes into four
  characters, four characters into three bytes. What is left at the end is filled up, by the
  encoder with zeros and by the decoder with what `find` says of a character that is not
  there, which does not get into the bytes it returns. The decoder counts in `int`: from
  2 ^ 31 characters on its counters leave the text or overflow. Up to there it decodes all
  characters (`decodeLoop_eq`), and takes back what encoding has made (`base64_round_trip`).
-/
import Bifrost.Lib.Bytes
import Bifrost.Lib.Text

namespace Bifrost.Ws

open Text

def base64Chars : List UInt8 :=
  ascii "ABCDEFGHIJKLMNOPQRSTUVWXYZabcdefghijklmnopqrstuvwxyz0123456789+/"

/-- `base64_chars[value]`, for a value of six bits. -/
def base64Char (value : UInt8) : UInt8 := base64Chars.getD value.toNat 0

/-- `(unsigned char)base64_chars.find(c)`, which makes 255 of `npos`. -/
def base64Value (c : UInt8) : UInt8 :=
  match find [c] base64Chars with
  | some pos => UInt8.ofNat pos
  | none => 255

/-- `is_base64`, with the characters of the C locale. -/
def isBase64 (c : UInt8) : Bool :=
  (65 ≤ c && c ≤ 90) || (97 ≤ c && c ≤ 122) || (48 ≤ c && c ≤ 57) || c = 43 || c = 47

/-! ## Encoding -/

/-- `char_array_4` made of `char_array_3`, as characters. -/
def quad (group : List UInt8) : List UInt8 :=
  let b0 := group.getD 0 0
  let b1 := group.getD 1 0
  let b2 := group.getD 2 0
  [base64Char ((b0 &&& 0xfc) >>> 2), base64Char (((b0 &&& 0x03) <<< 4) + ((b1 &&& 0xf0) >>> 4)),
    base64Char (((b1 &&& 0x0f) <<< 2) + ((b2 &&& 0xc0) >>> 6)), base64Char (b2 &&& 0x3f)]

/-- The loop over the bytes, `group` being the first `i` bytes of `char_array_3`. -/
def encodeLoop (group : List UInt8) : List UInt8 → List UInt8
  | b :: bytes =>
    if (group ++ [b]).length = 3 then quad (group ++ [b]) ++ encodeLoop [] bytes
    else encodeLoop (group ++ [b]) bytes
  | [] =>
    if group = [] then []
    else (quad group).take (group.length + 1) ++ List.replicate (3 - group.length) 61

def base64Encode (bytes : List UInt8) : List UInt8 := encodeLoop [] bytes

/-! ## Decoding -/

/-- `char_array_3` made of the values in `char_array_4`. -/
def triple (values : List UInt8) : List UInt8 :=
  let v0 := values.getD 0 0
  let v1 := values.getD 1 0
  let v2 := values.getD 2 0
  let v3 := values.getD 3 0
  [(v0 <<< 2) + ((v1 &&& 0x30) >>> 4), ((v1 &&& 0x0f) <<< 4) + ((v2 &&& 0x3c) >>> 2),
    ((v2 &&& 0x03) <<< 6) + v3]

/-- The end of the loop. The rest of `char_array_4` is set to 0 and looked up like the
    characters before it. -/
def decodeEnd (group : List UInt8) : List UInt8 :=
  if group = [] then []
  else (triple ((group ++ List.replicate (4 - group.length) 0).map base64Value)).take
    (group.length - 1)

/-- The loop over the characters, `in_` of them read and `group` being the first `i` of
    `char_array_4`. `none` is an `int` that overflows. -/
def decodeLoop (inLen in_ : Int) (group : List UInt8) : List UInt8 → Option (List UInt8)
  | c :: text =>
    if inLen = -2 ^ 31 then none
    else if inLen = 0 then some (decodeEnd group)
    else if c ≠ 61 ∧ isBase64 c then
      if in_ = 2 ^ 31 - 1 then none
      else if (group ++ [c]).length = 4 then
        (decodeLoop (inLen - 1) (in_ + 1) [] text).map
          (triple ((group ++ [c]).map base64Value) ++ ·)
      else decodeLoop (inLen - 1) (in_ + 1) (group ++ [c]) text
    else some (decodeEnd group)
  -- behind the last character `operator[]` reads '\0'
  | [] => if inLen = -2 ^ 31 then none else some (decodeEnd group)

def base64Decode (text : List UInt8) : Option (List UInt8) :=
  decodeLoop (Int.bmod text.length (2 ^ 32)) 0 [] text

/-- The characters decoded without a count. -/
def decodeChars (group : List UInt8) : List UInt8 → List UInt8
  | c :: text =>
    if c ≠ 61 ∧ isBase64 c then
      if (group ++ [c]).length = 4 then
        triple ((group ++ [c]).map base64Value) ++ decodeChars [] text
      else decodeChars (group ++ [c]) text
    else decodeEnd group
  | [] => decodeEnd group

/-- The counters do not show as long as the text ends before them. -/
theorem decodeLoop_eq (text : List UInt8) : ∀ (in_ : Nat) (group : List UInt8),
    in_ + text.length < 2 ^ 31 →
    decodeLoop text.length in_ group text = some (decodeChars group text) := by
  induction text with
  | nil => exact fun _ _ _ => rfl
  | cons c text ih =>
      intro in_ group h
      rw [List.length_cons] at h
      have hnext : ∀ group', decodeLoop (((c :: text).length : Int) - 1) (in_ + 1) group' text =
          some (decodeChars group' text) := by
        intro group'
        have hlen : ((c :: text).length : Int) - 1 = text.length := by
          rw [List.length_cons]
          omega
        rw [hlen]
        exact ih (in_ + 1) group' (by omega)
      rw [decodeLoop, if_neg (by omega), if_neg (by simp only [List.length_cons]; omega),
        decodeChars]
      by_cases hc : c ≠ 61 ∧ isBase64 c = true
      · rw [if_pos hc, if_pos hc, if_neg (by omega), hnext, hnext]
        split <;> rfl
      · rw [if_neg hc, if_neg hc]

theorem base64Decode_eq {text : List UInt8} (h : text.length < 2 ^ 31) :
    base64Decode text = some (decodeChars [] text) := by
  have hlen : Int.bmod text.length (2 ^ 32) = text.length :=
    Int.bmod_eq_of_le (by omega) (by omega)
  rw [base64Decode, hlen]
  exact decodeLoop_eq text 0 [] (by omega)

/-! ## There and back -/

/-- The characters of the table are looked up by the value they stand for. -/
theorem base64Value_base64Char {v : UInt8} (h : v < 64) :
    base64Value (base64Char v) = v ∧ base64Char v ≠ 61 ∧ isBase64 (base64Char v) = true := by
  have hall : ∀ n < 64, base64Value (base64Char (UInt8.ofNat n)) = UInt8.ofNat n ∧
      base64Char (UInt8.ofNat n) ≠ 61 ∧ isBase64 (base64Char (UInt8.ofNat n)) = true := by
    decide +kernel
  have := hall v.toNat (UInt8.lt_iff_toNat_lt.mp h)
  rwa [UInt8.ofNat_toNat] at this

theorem base64Value_zero : base64Value 0 = 255 := by decide +kernel

/-- The parts of a byte the encoder takes, as numbers. -/
theorem parts (b : UInt8) :
    ((b &&& 0xfc) >>> 2).toNat = b.toNat / 4 ∧ ((b &&& 0x03) <<< 4).toNat = b.toNat % 4 * 16 ∧
    ((b &&& 0xf0) >>> 4).toNat = b.toNat / 16 ∧ ((b &&& 0x0f) <<< 2).toNat = b.toNat % 16 * 4 ∧
    ((b &&& 0xc0) >>> 6).toNat = b.toNat / 64 ∧ (b &&& 0x3f).toNat = b.toNat % 64 := by
  have hall : ∀ n < 256, ((UInt8.ofNat n &&& 0xfc) >>> 2).toNat = n / 4 ∧
      ((UInt8.ofNat n &&& 0x03) <<< 4).toNat = n % 4 * 16 ∧
      ((UInt8.ofNat n &&& 0xf0) >>> 4).toNat = n / 16 ∧
      ((UInt8.ofNat n &&& 0x0f) <<< 2).toNat = n % 16 * 4 ∧
      ((UInt8.ofNat n &&& 0xc0) >>> 6).toNat = n / 64 ∧
      (UInt8.ofNat n &&& 0x3f).toNat = n % 64 := by decide +kernel
  have := hall b.toNat b.toNat_lt
  rwa [UInt8.ofNat_toNat] at this

/-- The parts of a value the decoder takes. -/
theorem value_parts (v : UInt8) :
    (v <<< 2).toNat = v.toNat % 64 * 4 ∧ ((v &&& 0x30) >>> 4).toNat = v.toNat / 16 % 4 ∧
    ((v &&& 0x0f) <<< 4).toNat = v.toNat % 16 * 16 ∧ ((v &&& 0x3c) >>> 2).toNat = v.toNat / 4 % 16 ∧
    ((v &&& 0x03) <<< 6).toNat = v.toNat % 4 * 64 := by
  have hall : ∀ n < 256, (UInt8.ofNat n <<< 2).toNat = n % 64 * 4 ∧
      ((UInt8.ofNat n &&& 0x30) >>> 4).toNat = n / 16 % 4 ∧
      ((UInt8.ofNat n &&& 0x0f) <<< 4).toNat = n % 16 * 16 ∧
      ((UInt8.ofNat n &&& 0x3c) >>> 2).toNat = n / 4 % 16 ∧
      ((UInt8.ofNat n &&& 0x03) <<< 6).toNat = n % 4 * 64 := by decide +kernel
  have := hall v.toNat v.toNat_lt
  rwa [UInt8.ofNat_toNat] at this

/-- The four values of three bytes. -/
def values (a b c : UInt8) : List UInt8 :=
  [(a &&& 0xfc) >>> 2, ((a &&& 0x03) <<< 4) + ((b &&& 0xf0) >>> 4),
    ((b &&& 0x0f) <<< 2) + ((c &&& 0xc0) >>> 6), c &&& 0x3f]

theorem values_toNat (a b c : UInt8) :
    (values a b c).map UInt8.toNat = [a.toNat / 4, a.toNat % 4 * 16 + b.toNat / 16,
      b.toNat % 16 * 4 + c.toNat / 64, c.toNat % 64] := by
  obtain ⟨ha, ha', -⟩ := parts a
  obtain ⟨-, -, hb, hb', -⟩ := parts b
  obtain ⟨-, -, -, -, hc, hc'⟩ := parts c
  have := a.toNat_lt
  have := b.toNat_lt
  have := c.toNat_lt
  simp only [values, List.map_cons, List.map_nil, UInt8.toNat_add, ha, ha', hb, hb', hc, hc']
  rw [Nat.mod_eq_of_lt (show a.toNat % 4 * 16 + b.toNat / 16 < 2 ^ 8 by omega),
    Nat.mod_eq_of_lt (show b.toNat % 16 * 4 + c.toNat / 64 < 2 ^ 8 by omega)]

theorem values_lt (a b c : UInt8) : ∀ v ∈ values a b c, v < 64 := by
  intro v hv
  have hmem : v.toNat ∈ (values a b c).map UInt8.toNat := List.mem_map.mpr ⟨v, hv, rfl⟩
  have := a.toNat_lt
  have := b.toNat_lt
  have := c.toNat_lt
  rw [values_toNat] at hmem
  simp only [List.mem_cons, List.not_mem_nil, or_false] at hmem
  rw [UInt8.lt_iff_toNat_lt]
  show v.toNat < 64
  omega

/-- The first byte the decoder makes takes its two values alone. -/
theorem triple_first {v0 v1 : UInt8} (h0 : v0.toNat < 64) (h1 : v1.toNat < 64) :
    ((v0 <<< 2) + ((v1 &&& 0x30) >>> 4)).toNat = v0.toNat * 4 + v1.toNat / 16 := by
  obtain ⟨hhigh, -⟩ := value_parts v0
  obtain ⟨-, hlow, -⟩ := value_parts v1
  rw [UInt8.toNat_add, hhigh, hlow]
  omega

theorem triple_second {v1 v2 : UInt8} (h2 : v2.toNat < 64) :
    (((v1 &&& 0x0f) <<< 4) + ((v2 &&& 0x3c) >>> 2)).toNat =
      v1.toNat % 16 * 16 + v2.toNat / 4 := by
  obtain ⟨-, -, hhigh, -⟩ := value_parts v1
  obtain ⟨-, -, -, hlow, -⟩ := value_parts v2
  rw [UInt8.toNat_add, hhigh, hlow]
  omega

theorem triple_third {v2 v3 : UInt8} (h3 : v3.toNat < 64) :
    (((v2 &&& 0x03) <<< 6) + v3).toNat = v2.toNat % 4 * 64 + v3.toNat := by
  obtain ⟨-, -, -, -, hhigh⟩ := value_parts v2
  rw [UInt8.toNat_add, hhigh]
  omega

/-- The decoder's arithmetic takes back the encoder's, as far as the values are there. -/
theorem triple_values (a b c : UInt8) :
    (triple (values a b c) = [a, b, c]) ∧
      (∀ v, (triple ((values a b c).take 3 ++ [v])).take 2 = [a, b]) ∧
      (∀ v w, (triple ((values a b c).take 2 ++ [v, w])).take 1 = [a]) := by
  have hnat := values_toNat a b c
  have hlt := values_lt a b c
  obtain ⟨v0, v1, v2, v3, hvalues⟩ : ∃ v0 v1 v2 v3, values a b c = [v0, v1, v2, v3] :=
    ⟨_, _, _, _, rfl⟩
  rw [hvalues] at hnat hlt ⊢
  simp only [List.map_cons, List.map_nil, List.cons.injEq, and_true] at hnat
  obtain ⟨hv0, hv1, hv2, hv3⟩ := hnat
  have := a.toNat_lt
  have := b.toNat_lt
  have := c.toNat_lt
  have hfirst : (v0 <<< 2) + ((v1 &&& 0x30) >>> 4) = a := by
    rw [← UInt8.toNat_inj, triple_first (by omega) (by omega)]
    omega
  have hsecond : ((v1 &&& 0x0f) <<< 4) + ((v2 &&& 0x3c) >>> 2) = b := by
    rw [← UInt8.toNat_inj, triple_second (by omega)]
    omega
  have hthird : ((v2 &&& 0x03) <<< 6) + v3 = c := by
    rw [← UInt8.toNat_inj, triple_third (by omega)]
    omega
  refine ⟨?_, fun v => ?_, fun v w => ?_⟩
  · show [_, _, _] = _
    exact congrArg₂ _ hfirst (congrArg₂ _ hsecond (congrArg₂ _ hthird rfl))
  · show [_, _] = _
    exact congrArg₂ _ hfirst (congrArg₂ _ hsecond rfl)
  · show [_] = _
    exact congrArg₂ _ hfirst rfl

/-- A character of the table goes into the array. -/
theorem decodeChars_char {v : UInt8} (h : v < 64) (group text : List UInt8) :
    decodeChars group (base64Char v :: text) = if (group ++ [base64Char v]).length = 4 then
      triple ((group ++ [base64Char v]).map base64Value) ++ decodeChars [] text
      else decodeChars (group ++ [base64Char v]) text := by
  obtain ⟨-, hpad, halphabet⟩ := base64Value_base64Char h
  rw [decodeChars, if_pos ⟨hpad, halphabet⟩]

/-- The four characters of three bytes are decoded to them. -/
theorem decodeChars_quad (a b c : UInt8) (text : List UInt8) :
    decodeChars [] (quad [a, b, c] ++ text) = [a, b, c] ++ decodeChars [] text := by
  obtain ⟨hthree, -⟩ := triple_values a b c
  have hlt := values_lt a b c
  have hquad : quad [a, b, c] = (values a b c).map base64Char := rfl
  obtain ⟨v0, v1, v2, v3, hvalues⟩ : ∃ v0 v1 v2 v3, values a b c = [v0, v1, v2, v3] :=
    ⟨_, _, _, _, rfl⟩
  rw [hquad]
  rw [hvalues] at hthree hlt ⊢
  simp only [List.forall_mem_cons, List.not_mem_nil, false_imp_iff, implies_true, and_true] at hlt
  obtain ⟨h0, h1, h2, h3⟩ := hlt
  simp only [List.map_cons, List.map_nil, List.cons_append, List.nil_append, decodeChars_char h0,
    decodeChars_char h1, decodeChars_char h2, decodeChars_char h3, List.length_cons,
    List.length_nil, Nat.reduceAdd, Nat.reduceEqDiff, if_false, if_true, (base64Value_base64Char h0).1,
    (base64Value_base64Char h1).1, (base64Value_base64Char h2).1, (base64Value_base64Char h3).1,
    hthree]

/-- So are the characters of two bytes and of one, up to the padding. -/
theorem decodeChars_two (a b : UInt8) :
    decodeChars [] ((quad [a, b]).take 3 ++ [61]) = [a, b] := by
  obtain ⟨-, htwo, -⟩ := triple_values a b 0
  have hlt := values_lt a b 0
  have hquad : quad [a, b] = (values a b 0).map base64Char := rfl
  obtain ⟨v0, v1, v2, v3, hvalues⟩ : ∃ v0 v1 v2 v3, values a b 0 = [v0, v1, v2, v3] :=
    ⟨_, _, _, _, rfl⟩
  rw [hquad]
  rw [hvalues] at htwo hlt ⊢
  simp only [List.forall_mem_cons, List.not_mem_nil, false_imp_iff, implies_true, and_true] at hlt
  obtain ⟨h0, h1, h2, -⟩ := hlt
  have hend : decodeChars [base64Char v0, base64Char v1, base64Char v2] [61] = [a, b] := by
    rw [decodeChars, if_neg fun h => h.1 rfl, decodeEnd, if_neg (List.cons_ne_nil _ _), ← htwo 255]
    simp only [List.length_cons, List.length_nil, Nat.reduceAdd, Nat.reduceSub, List.replicate_one,
      List.cons_append, List.nil_append, List.map_cons, List.map_nil, List.take_succ_cons,
      List.take_zero, (base64Value_base64Char h0).1, (base64Value_base64Char h1).1,
      (base64Value_base64Char h2).1, base64Value_zero]
  simp only [List.map_cons, List.map_nil, List.take_succ_cons, List.take_zero, List.cons_append,
    List.nil_append, decodeChars_char h0, decodeChars_char h1, decodeChars_char h2,
    List.length_cons, List.length_nil, Nat.reduceAdd, Nat.reduceEqDiff, if_false, hend]

theorem decodeChars_one (a : UInt8) :
    decodeChars [] ((quad [a]).take 2 ++ [61, 61]) = [a] := by
  obtain ⟨-, -, hone⟩ := triple_values a 0 0
  have hlt := values_lt a 0 0
  have hquad : quad [a] = (values a 0 0).map base64Char := rfl
  obtain ⟨v0, v1, v2, v3, hvalues⟩ : ∃ v0 v1 v2 v3, values a 0 0 = [v0, v1, v2, v3] :=
    ⟨_, _, _, _, rfl⟩
  rw [hquad]
  rw [hvalues] at hone hlt ⊢
  simp only [List.forall_mem_cons, List.not_mem_nil, false_imp_iff, implies_true, and_true] at hlt
  obtain ⟨h0, h1, -, -⟩ := hlt
  have hend : decodeChars [base64Char v0, base64Char v1] [61, 61] = [a] := by
    rw [decodeChars, if_neg fun h => h.1 rfl, decodeEnd, if_neg (List.cons_ne_nil _ _),
      ← hone 255 255]
    simp only [List.length_cons, List.length_nil, Nat.reduceAdd, Nat.reduceSub,
      List.replicate_succ, List.replicate_zero, List.cons_append, List.nil_append, List.map_cons,
      List.map_nil, List.take_succ_cons, List.take_zero, (base64Value_base64Char h0).1,
      (base64Value_base64Char h1).1, base64Value_zero]
  simp only [List.map_cons, List.map_nil, List.take_succ_cons, List.take_zero, List.cons_append,
    List.nil_append, decodeChars_char h0, decodeChars_char h1, List.length_cons, List.length_nil,
    Nat.reduceAdd, Nat.reduceEqDiff, if_false, hend]

/-- All characters of what encoding has made are decoded to the bytes. -/
theorem decodeChars_encode : ∀ bytes : List UInt8,
    decodeChars [] (base64Encode bytes) = bytes
  | [] => rfl
  | [a] => decodeChars_one a
  | [a, b] => decodeChars_two a b
  | a :: b :: c :: bytes => by
      show decodeChars [] (quad [a, b, c] ++ base64Encode bytes) = _
      rw [decodeChars_quad]
      exact congrArg ([a, b, c] ++ ·) (decodeChars_encode bytes)

/-- Four characters stand for three bytes or the rest of them. -/
theorem base64Encode_length : ∀ bytes : List UInt8,
    (base64Encode bytes).length = 4 * ((bytes.length + 2) / 3)
  | [] => rfl
  | [a] => by
      show ((quad [a]).take 2 ++ [61, 61]).length = 4 * ((1 + 2) / 3)
      rfl
  | [a, b] => by
      show ((quad [a, b]).take 3 ++ [61]).length = 4 * ((2 + 2) / 3)
      rfl
  | a :: b :: c :: bytes => by
      show (quad [a, b, c] ++ base64Encode bytes).length = _
      have hquad : (quad [a, b, c]).length = 4 := rfl
      rw [List.length_append, hquad, base64Encode_length bytes]
      simp only [List.length_cons]
      omega

/-- **Decoding takes back what encoding has made**, as long as the text's length is an
    `int`. -/
theorem base64_round_trip (bytes : List UInt8) (h : 4 * ((bytes.length + 2) / 3) < 2 ^ 31) :
    base64Decode (base64Encode bytes) = some bytes := by
  rw [base64Decode_eq (by rw [base64Encode_length]; exact h), decodeChars_encode]

theorem base64_round_trip_two : base64Decode (base64Encode [255, 16]) = some [255, 16] :=
  base64_round_trip [255, 16] (by decide)

end Bifrost.Ws
