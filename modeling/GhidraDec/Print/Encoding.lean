import GhidraDec.Print.CharacterData

/-!
# Writing Characters and Binary Numbers

Two writers of `PrintLanguage` (`printlanguage.cc`) that put the bits of a number on the output
stream. `writeUtf8` encodes a codepoint in one to four bytes of UTF-8 after the position of its
most significant bit, and throws for a negative codepoint or one of more than 21 bits.
`formatBinary` prints a `uintb` as `'0'` and `'1'` digits, padded out after the position of its
most significant bit: below bit 7 to eight digits, below bit 15 to sixteen, below bit 31 to
thirty-two, and otherwise to sixty-four.

The model returns the bytes and the characters written. `mostsigbit_set`, which both call, is
defined outside the sources; it is modelled as the position of the highest bit set in a 64-bit
word, `-1` for zero.

## Main results

* `getCodepoint_writeUtf8`: what `writeUtf8` writes for a codepoint below `2 ^ 21` is its
  shortest UTF-8 form, which `getCodepoint` reads back with its length, surrogates apart;
* `writeUtf8_error_iff`: the writer throws exactly for negative codepoints and for those of
  more than 21 bits, so it writes codepoints beyond `0x10FFFF` up to `0x1FFFFF`;
* `escapeCharacterData_writeUtf8`: a run of codepoints written by `writeUtf8` and ended by a NUL
  is read back by `escapeCharacterData` as exactly those codepoints and the terminator;
* `formatBinary_spec`: the digits `formatBinary` prints read back as the value, and their number
  is 8, 16, 32 or 64 after the first of bits 7, 15 and 31 above the value's top bit, so a value
  whose top bit is bit 7, 15 or 31 is printed at twice the width.
-/

namespace GhidraDec

namespace Print

/-! ### The most significant bit -/

/-- The position of the highest bit set among the low `n` bits of `val`, `-1` if none is. -/
def highBit (val : Nat) : Nat → Int
  | 0 => -1
  | n + 1 => if val.testBit n then n else highBit val n

/-- `mostsigbit_set` (defined outside the sources): the position of the most significant bit
set in a `uintb`, `-1` for zero. -/
def mostsigbitSet (val : Nat) : Int := highBit val 64

theorem highBit_zero (n : Nat) : highBit 0 n = -1 := by
  induction n with
  | zero => rfl
  | succ n ih => simp only [highBit, Nat.zero_testBit, Bool.false_eq_true, if_false, ih]

/-- Below its top bit a number is below the power of that bit. -/
theorem lt_two_pow_of_testBit {val n : Nat} (h : val < 2 ^ (n + 1)) (hb : val.testBit n = false) :
    val < 2 ^ n :=
  Nat.lt_pow_two_of_testBit val fun i hi => by
    rcases Nat.eq_or_lt_of_le hi with rfl | hi
    · exact hb
    · exact Nat.testBit_lt_two_pow (Nat.lt_of_lt_of_le h (Nat.pow_le_pow_right Nat.two_pos hi))

theorem highBit_eq_log2 {val : Nat} (h0 : val ≠ 0) :
    ∀ {n}, val < 2 ^ n → highBit val n = val.log2
  | 0, h => absurd h (by omega)
  | n + 1, h => by
    rw [highBit]
    cases hb : val.testBit n
    · exact highBit_eq_log2 h0 (lt_two_pow_of_testBit h hb)
    · have hlo : 2 ^ n ≤ val := Nat.le_of_not_lt fun hl => by
        rw [Nat.testBit_lt_two_pow hl] at hb; cases hb
      rw [if_pos rfl, Nat.le_antisymm ((Nat.le_log2 h0).2 hlo)
        (Nat.lt_succ_iff.1 ((Nat.log2_lt h0).2 h))]

/-- The most significant bit lies below `k` exactly when the value lies below `2 ^ k`. -/
theorem mostsigbitSet_lt_iff {val : Nat} (h0 : val ≠ 0) (h : val < 2 ^ 64) (k : Nat) :
    mostsigbitSet val < k ↔ val < 2 ^ k := by
  rw [mostsigbitSet, highBit_eq_log2 h0 h, Int.ofNat_lt, Nat.log2_lt h0]

/-! ### Bytes as numbers -/

/-- An exclusive or of a multiple of `2 ^ i` and a number below `2 ^ i` is their sum. -/
theorem xor_eq_add {a b : Nat} (i : Nat) (ha : 2 ^ i ∣ a) (hb : b < 2 ^ i) : a ^^^ b = a + b := by
  obtain ⟨q, rfl⟩ := ha
  refine Nat.eq_of_testBit_eq fun j => ?_
  rw [Nat.testBit_xor, Nat.testBit_mul_pow_two_add q hb, Nat.testBit_mul_pow_two]
  by_cases hj : j < i
  · simp [hj, Nat.not_le.2 hj]
  · have : b < 2 ^ j := Nat.lt_of_lt_of_le hb (Nat.pow_le_pow_right Nat.two_pos (by omega))
    simp [hj, Nat.le_of_not_lt hj, Nat.testBit_lt_two_pow this]

theorem xor_0xc0 (x : Nat) : 0xc0 ^^^ x % 0x20 = 0xc0 + x % 0x20 :=
  xor_eq_add 5 ⟨6, rfl⟩ (Nat.mod_lt _ (by decide))
theorem xor_0xe0 (x : Nat) : 0xe0 ^^^ x % 0x10 = 0xe0 + x % 0x10 :=
  xor_eq_add 4 ⟨14, rfl⟩ (Nat.mod_lt _ (by decide))
theorem xor_0xf0 (x : Nat) : 0xf0 ^^^ x % 8 = 0xf0 + x % 8 :=
  xor_eq_add 3 ⟨30, rfl⟩ (Nat.mod_lt _ (by decide))
theorem xor_0x80 (x : Nat) : 0x80 ^^^ x % 0x40 = 0x80 + x % 0x40 :=
  xor_eq_add 6 ⟨2, rfl⟩ (Nat.mod_lt _ (by decide))

@[simp] theorem byteAt_cons_zero (b : UInt8) (l : List UInt8) : byteAt (b :: l) 0 = b.toNat := rfl

@[simp] theorem byteAt_cons_succ (b : UInt8) (l : List UInt8) (k : Nat) :
    byteAt (b :: l) (k + 1) = byteAt l k := rfl

theorem toNat_toUInt8 {n : Nat} (h : n < 256) : n.toUInt8.toNat = n := UInt8.toNat_ofNat_of_lt h

/-! ### The UTF-8 writer -/

/-- `PrintLanguage::writeUtf8`: the bytes written for a codepoint, or the error thrown. -/
def writeUtf8 (codepoint : Int) : Except String (List UInt8) :=
  if codepoint < 0 then .error "Negative unicode codepoint"
  else if codepoint < 128 then .ok [codepoint.toNat.toUInt8]
  else
    let cp := codepoint.toNat
    let bits := mostsigbitSet cp + 1
    if bits > 21 then .error "Bad unicode codepoint"
    else if bits < 12 then
      .ok [(0xc0 ^^^ ((cp >>> 6) &&& 0x1f)).toUInt8, (0x80 ^^^ (cp &&& 0x3f)).toUInt8]
    else if bits < 17 then
      .ok [(0xe0 ^^^ ((cp >>> 12) &&& 0xf)).toUInt8, (0x80 ^^^ ((cp >>> 6) &&& 0x3f)).toUInt8,
        (0x80 ^^^ (cp &&& 0x3f)).toUInt8]
    else
      .ok [(0xf0 ^^^ ((cp >>> 18) &&& 7)).toUInt8, (0x80 ^^^ ((cp >>> 12) &&& 0x3f)).toUInt8,
        (0x80 ^^^ ((cp >>> 6) &&& 0x3f)).toUInt8, (0x80 ^^^ (cp &&& 0x3f)).toUInt8]

/-- The UTF-8 form of a codepoint below `2 ^ 21` written arithmetically: the lead byte's high
bits give the length, and each continuation byte carries six bits. -/
def utf8Encode (c : Nat) : List Nat :=
  if c < 0x80 then [c]
  else if c < 0x800 then [0xC0 + c / 0x40, 0x80 + c % 0x40]
  else if c < 0x10000 then [0xE0 + c / 0x1000, 0x80 + c / 0x40 % 0x40, 0x80 + c % 0x40]
  else [0xF0 + c / 0x40000, 0x80 + c / 0x1000 % 0x40, 0x80 + c / 0x40 % 0x40, 0x80 + c % 0x40]

theorem length_utf8Encode (c : Nat) : (utf8Encode c).length = utf8Length c := by
  unfold utf8Encode utf8Length
  split_ifs <;> rfl

/-- The masks, shifts and exclusive ors of the writer compute the arithmetic form. -/
theorem writeUtf8_eq_encode {codepoint : Int} (h0 : 0 ≤ codepoint) (h21 : codepoint < 2 ^ 21) :
    writeUtf8 codepoint = .ok ((utf8Encode codepoint.toNat).map Nat.toUInt8) := by
  lift codepoint to Nat using h0 with c
  rw [Int.toNat_natCast]
  by_cases ha : c < 128
  · rw [writeUtf8, if_neg (by omega), if_pos (by omega), utf8Encode, if_pos ha]; rfl
  have hlt := mostsigbitSet_lt_iff (show c ≠ 0 by omega) (show c < 2 ^ 64 by omega)
  have h₁ := hlt 21
  have h₂ := hlt 11
  have h₃ := hlt 16
  simp only [Nat.reducePow] at h₁ h₂ h₃
  simp (disch := omega) only [writeUtf8, utf8Encode, if_pos, if_neg, Int.toNat_natCast,
    Nat.shiftRight_eq_div_pow, Nat.reducePow, land_0x1f, land_0x3f, land_0xf, land_7, xor_0xc0,
    xor_0xe0, xor_0xf0, xor_0x80, List.map_cons, List.map_nil, Except.ok.injEq, List.cons.injEq,
    and_true]
  split_ifs <;> first
    | omega
    | simp (disch := omega) only [Nat.mod_eq_of_lt, List.map_cons, List.map_nil]

/-- The arithmetic reading at a lead byte of each length. -/
theorem utf8Payload_one {buf : List UInt8} (h : byteAt buf 0 < 0x80) :
    utf8Payload buf = some (byteAt buf 0, 1) :=
  if_pos h

theorem utf8Payload_two {buf : List UInt8} (h₀ : 0xC0 ≤ byteAt buf 0 ∧ byteAt buf 0 < 0xE0)
    (h₁ : IsCont (byteAt buf 1)) :
    utf8Payload buf = some ((byteAt buf 0 - 0xC0) * 0x40 + (byteAt buf 1 - 0x80), 2) := by
  rw [utf8Payload, if_neg (by omega), if_pos h₀, if_pos h₁]

theorem utf8Payload_three {buf : List UInt8} (h₀ : 0xE0 ≤ byteAt buf 0 ∧ byteAt buf 0 < 0xF0)
    (h₁ : IsCont (byteAt buf 1)) (h₂ : IsCont (byteAt buf 2)) :
    utf8Payload buf = some ((byteAt buf 0 - 0xE0) * 0x1000 + (byteAt buf 1 - 0x80) * 0x40 +
      (byteAt buf 2 - 0x80), 3) := by
  rw [utf8Payload, if_neg (by omega), if_neg (by omega), if_pos h₀, if_pos ⟨h₁, h₂⟩]

theorem utf8Payload_four {buf : List UInt8} (h₀ : 0xF0 ≤ byteAt buf 0 ∧ byteAt buf 0 < 0xF8)
    (h₁ : IsCont (byteAt buf 1)) (h₂ : IsCont (byteAt buf 2)) (h₃ : IsCont (byteAt buf 3)) :
    utf8Payload buf = some ((byteAt buf 0 - 0xF0) * 0x40000 + (byteAt buf 1 - 0x80) * 0x1000 +
      (byteAt buf 2 - 0x80) * 0x40 + (byteAt buf 3 - 0x80), 4) := by
  rw [utf8Payload, if_neg (by omega), if_neg (by omega), if_neg (by omega), if_pos h₀,
    if_pos ⟨h₁, h₂, h₃⟩]

/-- The arithmetic form reads back as the codepoint with its length. -/
theorem utf8Payload_encode {c : Nat} (h : c < 2 ^ 21) (rest : List UInt8) :
    utf8Payload ((utf8Encode c).map Nat.toUInt8 ++ rest) = some (c, utf8Length c) := by
  unfold utf8Encode utf8Length
  split_ifs <;> simp only [List.map_cons, List.map_nil, List.cons_append, List.nil_append] <;>
    [rw [utf8Payload_one]; rw [utf8Payload_two]; rw [utf8Payload_three]; rw [utf8Payload_four]] <;>
    simp (disch := omega) only [byteAt_cons_zero, byteAt_cons_succ, toNat_toUInt8, IsCont,
      Option.some.injEq, Prod.mk.injEq, and_true] <;> omega

/-- `getCodepoint` reads the arithmetic form of a codepoint outside the surrogates back. -/
theorem getCodepoint_encode {c : Nat} (h : c < 2 ^ 21) (hs : c < 0xD800 ∨ 0xDFFF < c)
    (rest : List UInt8) (bigend : Bool) (skip : Nat) :
    getCodepoint ((utf8Encode c).map Nat.toUInt8 ++ rest) 1 bigend skip =
      ((c : Int), utf8Length c) := by
  refine getCodepoint_of_decode ?_ (by omega) skip
  rw [decodeCodepoint, if_neg (by decide), if_pos rfl, utf8Codepoint_eq_payload,
    utf8Payload_encode h]
  rfl

/-- A surrogate is written, and `getCodepoint` rejects what is written. -/
theorem getCodepoint_encode_surrogate {c : Nat} (h₁ : 0xD800 ≤ c) (h₂ : c ≤ 0xDFFF)
    (rest : List UInt8) (bigend : Bool) (skip : Nat) :
    getCodepoint ((utf8Encode c).map Nat.toUInt8 ++ rest) 1 bigend skip = (-1, skip) := by
  have hd : decodeCodepoint ((utf8Encode c).map Nat.toUInt8 ++ rest) 1 bigend =
      some ((c : Int), utf8Length c) := by
    rw [decodeCodepoint, if_neg (by decide), if_pos rfl, utf8Codepoint_eq_payload,
      utf8Payload_encode (by omega)]
    rfl
  simp only [getCodepoint, hd]
  exact if_pos ⟨by omega, by omega⟩

/-- The arithmetic form is the shortest form, so the standard reading takes a scalar value
back. -/
theorem standardUtf8_encode {c : Nat} (hc : IsScalar c) (rest : List UInt8) :
    standardUtf8 ((utf8Encode c).map Nat.toUInt8 ++ rest) = some (c, utf8Length c) := by
  rw [standardUtf8, utf8Payload_encode (by unfold IsScalar at hc; omega)]
  simp [hc]

/-- **What `writeUtf8` writes reads back**: for a codepoint below `2 ^ 21` the writer succeeds
with the shortest UTF-8 form of the codepoint, which `getCodepoint` reads back with its length
(a surrogate is written but read as invalid), and which the standard reading takes back for a
scalar value. -/
theorem getCodepoint_writeUtf8 {codepoint : Int} (h0 : 0 ≤ codepoint) (h21 : codepoint < 2 ^ 21)
    (rest : List UInt8) (bigend : Bool) (skip : Nat) :
    ∃ bytes, writeUtf8 codepoint = .ok bytes ∧ bytes.length = utf8Length codepoint.toNat ∧
      getCodepoint (bytes ++ rest) 1 bigend skip =
        (if 0xD800 ≤ codepoint ∧ codepoint ≤ 0xDFFF then (-1, skip)
          else (codepoint, bytes.length)) ∧
      (IsScalar codepoint.toNat →
        standardUtf8 (bytes ++ rest) = some (codepoint.toNat, bytes.length)) := by
  lift codepoint to Nat using h0 with c
  have hlen : ((utf8Encode c).map Nat.toUInt8).length = utf8Length c := by
    rw [List.length_map, length_utf8Encode]
  have hw := writeUtf8_eq_encode (Int.natCast_nonneg c) h21
  simp only [Int.toNat_natCast] at hw ⊢
  refine ⟨_, hw, hlen, ?_, fun hs => hlen ▸ standardUtf8_encode hs rest⟩
  rw [hlen]
  split_ifs with hs
  · exact getCodepoint_encode_surrogate (by omega) (by omega) rest bigend skip
  · exact getCodepoint_encode (by omega) (by omega) rest bigend skip

theorem getCodepoint_writeUtf8_euro :
    (0 ≤ (0x20AC : Int) ∧ (0x20AC : Int) < 2 ^ 21) ∧
      ∃ bytes, writeUtf8 0x20AC = .ok bytes ∧ bytes.length = utf8Length 0x20AC ∧
        getCodepoint (bytes ++ [0x41]) 1 false 1 =
          (if 0xD800 ≤ (0x20AC : Int) ∧ (0x20AC : Int) ≤ 0xDFFF then (-1, 1)
            else (0x20AC, bytes.length)) ∧
        (IsScalar 0x20AC → standardUtf8 (bytes ++ [0x41]) = some (0x20AC, bytes.length)) :=
  ⟨⟨by decide, by decide⟩, getCodepoint_writeUtf8 (by decide) (by decide) [0x41] false 1⟩

/-- **Which codepoints the writer refuses**: an `int4` codepoint is refused exactly when it is
negative or has more than 21 bits, each with its own message; every other one, including those
from `0x110000` to `0x1FFFFF` beyond the last Unicode character, is written. -/
theorem writeUtf8_error_iff {codepoint : Int} (h : codepoint < 2 ^ 31) (e : String) :
    writeUtf8 codepoint = .error e ↔
      codepoint < 0 ∧ e = "Negative unicode codepoint" ∨
        2 ^ 21 ≤ codepoint ∧ e = "Bad unicode codepoint" := by
  by_cases h0 : codepoint < 0
  · simp only [writeUtf8, h0, if_true, Except.error.injEq, true_and,
      show ¬(2 ^ 21 ≤ codepoint) by omega, false_and, or_false]
    exact eq_comm
  by_cases h21 : codepoint < 2 ^ 21
  · simp only [writeUtf8_eq_encode (by omega) h21, reduceCtorEq, false_iff]
    rintro (⟨h, -⟩ | ⟨h, -⟩) <;> omega
  lift codepoint to Nat using (by omega) with c
  have h₁ := mostsigbitSet_lt_iff (show c ≠ 0 by omega) (show c < 2 ^ 64 by omega) 21
  simp only [Nat.reducePow] at h₁
  simp (disch := omega) only [writeUtf8, Int.toNat_natCast, if_pos, if_neg, Except.error.injEq,
    show ¬((c : Int) < 0) by omega, if_false, show (2 ^ 21 : Int) ≤ c by omega, false_and,
    true_and, false_or]
  exact eq_comm

/-- The first codepoint with 22 bits is refused, the last one with 21 is written. -/
example : writeUtf8 0x200000 = .error "Bad unicode codepoint" ∧ (writeUtf8 0x1FFFFF).isOk :=
  ⟨rfl, rfl⟩

/-! ### Reading written text back -/

theorem writeUtf8_eq_ok {codepoint : Int} {bytes : List UInt8} (h0 : 0 ≤ codepoint)
    (h21 : codepoint < 2 ^ 21) (h : writeUtf8 codepoint = .ok bytes) :
    bytes = (utf8Encode codepoint.toNat).map Nat.toUInt8 := by
  rw [writeUtf8_eq_encode h0 h21] at h
  exact (Except.ok.inj h).symm

theorem utf8Length_pos (c : Nat) : 0 < utf8Length c := by
  unfold utf8Length; split_ifs <;> decide

/-- The loop of `escapeCharacterData` from the start of a run of written codepoints ended by a
NUL reads the codepoints and stops at the NUL. -/
theorem escapeLoop_writeUtf8 {cs : List Int} {chunks : List (List UInt8)}
    (hw : List.Forall₂ (fun c b => writeUtf8 c = .ok b) cs chunks)
    (hc : ∀ c ∈ cs, 0 < c ∧ c < 2 ^ 21 ∧ (c < 0xD800 ∨ 0xDFFF < c))
    (rest : List UInt8) (count : Int) (bigend : Bool) :
    ∀ (pre : List UInt8) (fuel skip : Nat) (codepoint : Int), chunks.flatten.length < fuel →
      ((pre ++ chunks.flatten).length : Int) < count →
      escapeLoop (pre ++ (chunks.flatten ++ 0 :: rest)) count 1 bigend fuel pre.length skip
        codepoint = (cs, 0) := by
  induction hw with
  | nil =>
    intro pre fuel skip codepoint hf hn
    obtain ⟨f, rfl⟩ : ∃ f, fuel = f + 1 := ⟨fuel - 1, by omega⟩
    have h0 := getCodepoint_encode (c := 0) (by decide) (by decide) rest bigend skip
    rw [show (utf8Encode 0).map Nat.toUInt8 ++ rest = 0 :: rest from rfl] at h0
    simp only [List.flatten_nil, List.nil_append, List.append_nil] at hn ⊢
    rw [escapeLoop, if_pos hn, List.drop_left]
    simp [h0]
  | @cons c b cs chunks hcb _ ih =>
    intro pre fuel skip codepoint hf hn
    obtain ⟨hc0, hc21, hcs⟩ := hc c (List.mem_cons_self _ _)
    have hb := writeUtf8_eq_ok (Int.le_of_lt hc0) hc21 hcb
    have hlen : b.length = utf8Length c.toNat := by rw [hb, List.length_map, length_utf8Encode]
    have hr := getCodepoint_encode (c := c.toNat) (by omega) (by omega)
      (chunks.flatten ++ 0 :: rest) bigend skip
    rw [Int.toNat_of_nonneg (Int.le_of_lt hc0), ← hlen, ← hb] at hr
    have hpos := utf8Length_pos c.toNat
    obtain ⟨f, rfl⟩ : ∃ f, fuel = f + 1 := ⟨fuel - 1, by omega⟩
    simp only [List.flatten_cons, List.length_append] at hf hn
    rw [escapeLoop, if_pos (by omega), List.flatten_cons, List.append_assoc, List.drop_left, hr]
    simp only [if_neg (show ¬(c = 0 ∨ c = -1) by omega)]
    have := ih (fun c' hc' => hc c' (List.mem_cons_of_mem _ hc')) (pre ++ b) f b.length c
      (by omega) (by simp only [List.length_append]; omega)
    rw [List.length_append, List.append_assoc] at this
    rw [this]

/-- **Written text reads back**: the bytes `writeUtf8` writes for a run of codepoints, each
nonzero, below `2 ^ 21` and outside the surrogates, followed by a NUL within `count`, are read
back by `escapeCharacterData` as exactly those codepoints, and the NUL is reported as the
terminator. -/
theorem escapeCharacterData_writeUtf8 {cs : List Int} {chunks : List (List UInt8)}
    (hw : List.Forall₂ (fun c b => writeUtf8 c = .ok b) cs chunks)
    (hc : ∀ c ∈ cs, 0 < c ∧ c < 2 ^ 21 ∧ (c < 0xD800 ∨ 0xDFFF < c))
    {count : Int} (hcount : (chunks.flatten.length : Int) < count) (rest : List UInt8)
    (bigend : Bool) :
    escapeCharacterData (chunks.flatten ++ 0 :: rest) count 1 bigend = (cs, true) := by
  have h := escapeLoop_writeUtf8 hw hc rest count bigend [] count.toNat 1 0 (by omega)
    (by simpa using hcount)
  simp only [escapeCharacterData, List.nil_append, List.length_nil] at h ⊢
  rw [show (1 : Int).toNat = 1 from rfl, h]
  rfl

theorem escapeCharacterData_writeUtf8_euro :
    List.Forall₂ (fun c b => writeUtf8 c = .ok b) [0x41, 0xE9, 0x20AC, 0x1F600]
        [[0x41], [0xC3, 0xA9], [0xE2, 0x82, 0xAC], [0xF0, 0x9F, 0x98, 0x80]] ∧
      escapeCharacterData
          ([[0x41], [0xC3, 0xA9], [0xE2, 0x82, 0xAC], [0xF0, 0x9F, 0x98, 0x80]].flatten ++ [0])
          11 1 false = ([0x41, 0xE9, 0x20AC, 0x1F600], true) :=
  have hw : List.Forall₂ (fun c b => writeUtf8 c = .ok b) [0x41, 0xE9, 0x20AC, 0x1F600]
      [[0x41], [0xC3, 0xA9], [0xE2, 0x82, 0xAC], [0xF0, 0x9F, 0x98, 0x80]] :=
    .cons rfl (.cons rfl (.cons rfl (.cons rfl .nil)))
  ⟨hw, escapeCharacterData_writeUtf8 hw (by decide) (by decide) [] false⟩

/-! ### Binary numbers -/

/-- The loop of `PrintLanguage::formatBinary` from the mask `1 << (n - 1)` down: a `'1'` for each
mask bit set in `val` and a `'0'` for each clear one, until the mask is shifted out. -/
def formatBinaryLoop (val : Nat) : Nat → List Char
  | 0 => []
  | n + 1 => (if (1 <<< n) &&& val ≠ 0 then '1' else '0') :: formatBinaryLoop val n

/-- `PrintLanguage::formatBinary`: the characters printed for a `uintb`. -/
def formatBinary (val : Nat) : List Char :=
  let pos := mostsigbitSet val
  if pos < 0 then ['0']
  else
    let pos : Nat := if pos < 7 then 7 else if pos < 15 then 15 else if pos < 31 then 31 else 63
    formatBinaryLoop val (pos + 1)

/-- A string of binary digits read as a number, the most significant first. -/
def binaryValue (s : List Char) : Nat :=
  s.foldl (fun n d => 2 * n + if d = '1' then 1 else 0) 0

/-- A mask of one bit meets a value exactly when the value has that bit. -/
theorem mask_and_ne_zero (val n : Nat) : (1 <<< n) &&& val ≠ 0 ↔ val.testBit n := by
  rw [Nat.one_shiftLeft]
  constructor
  · intro h
    by_contra hb
    refine h (Nat.eq_of_testBit_eq fun j => ?_)
    rw [Nat.testBit_and, Nat.testBit_two_pow, Nat.zero_testBit]
    by_cases hj : n = j
    · subst hj; simpa using hb
    · simp [hj]
  · intro hb h0
    have := congrArg (Nat.testBit · n) h0
    simp [Nat.testBit_and, Nat.testBit_two_pow_self, hb] at this

/-- The digit the loop prints for a bit is that bit. -/
theorem digit_formatBinaryLoop (val n : Nat) :
    (if (if (1 <<< n) &&& val ≠ 0 then '1' else '0') = '1' then 1 else 0) = val / 2 ^ n % 2 := by
  by_cases hb : val.testBit n
  · rw [if_pos ((mask_and_ne_zero val n).2 hb), if_pos rfl]
    exact (of_decide_eq_true (Nat.testBit_to_div_mod ▸ hb)).symm
  · rw [if_neg (fun h => hb ((mask_and_ne_zero val n).1 h)), if_neg (by decide)]
    have : val / 2 ^ n % 2 ≠ 1 := fun h => hb (Nat.testBit_to_div_mod ▸ decide_eq_true h)
    omega

theorem foldl_formatBinaryLoop (val : Nat) : ∀ (n acc : Nat),
    (formatBinaryLoop val n).foldl (fun n d => 2 * n + if d = '1' then 1 else 0) acc =
      acc * 2 ^ n + val % 2 ^ n
  | 0, acc => by simp [formatBinaryLoop, Nat.mod_one]
  | n + 1, acc => by
    rw [formatBinaryLoop, List.foldl_cons, foldl_formatBinaryLoop val n, digit_formatBinaryLoop,
      Nat.mod_pow_succ, Nat.pow_succ]
    generalize 2 ^ n = p
    rw [Nat.mul_comm p 2, ← Nat.mul_assoc, Nat.mul_comm acc 2, Nat.add_mul,
      Nat.mul_comm (val / p % 2) p]
    omega

theorem length_formatBinaryLoop (val : Nat) : ∀ n, (formatBinaryLoop val n).length = n
  | 0 => rfl
  | n + 1 => by rw [formatBinaryLoop, List.length_cons, length_formatBinaryLoop val n]

theorem mem_formatBinaryLoop {val : Nat} {d : Char} :
    ∀ {n}, d ∈ formatBinaryLoop val n → d = '0' ∨ d = '1'
  | 0, hd => by cases hd
  | n + 1, hd => by
    rw [formatBinaryLoop, List.mem_cons] at hd
    rcases hd with rfl | hd
    · split_ifs <;> simp
    · exact mem_formatBinaryLoop hd

/-- The loop over as many bits as the value needs prints its digits. -/
theorem formatBinaryLoop_spec (val n : Nat) (h : val < 2 ^ n) :
    (∀ d ∈ formatBinaryLoop val n, d = '0' ∨ d = '1') ∧
      binaryValue (formatBinaryLoop val n) = val ∧ (formatBinaryLoop val n).length = n :=
  ⟨fun _ => mem_formatBinaryLoop, by
    rw [binaryValue, foldl_formatBinaryLoop, Nat.mod_eq_of_lt h, Nat.zero_mul, Nat.zero_add],
    length_formatBinaryLoop val n⟩

/-- **The printed digits are the value**: for every `uintb`, `formatBinary` prints binary digits
that read back as the value. Their number is 1 for zero and otherwise 8, 16, 32 or 64, the first
of these above the position of the top bit plus one: a value whose top bit is bit 7, 15 or 31,
which fits in 8, 16 or 32 digits, is printed with twice as many. -/
theorem formatBinary_spec {val : Nat} (h : val < 2 ^ 64) :
    (∀ d ∈ formatBinary val, d = '0' ∨ d = '1') ∧ binaryValue (formatBinary val) = val ∧
      (formatBinary val).length =
        if val = 0 then 1 else if val < 2 ^ 7 then 8 else if val < 2 ^ 15 then 16
        else if val < 2 ^ 31 then 32 else 64 := by
  by_cases h0 : val = 0
  · subst h0
    simp only [formatBinary, mostsigbitSet, highBit_zero]
    decide
  have hlt := mostsigbitSet_lt_iff h0 h
  have h₀ : ¬mostsigbitSet val < 0 := fun h' => h0 (by have := (hlt 0).1 h'; omega)
  have h₇ : mostsigbitSet val < 7 ↔ val < 2 ^ 7 := hlt 7
  have h₁₅ : mostsigbitSet val < 15 ↔ val < 2 ^ 15 := hlt 15
  have h₃₁ : mostsigbitSet val < 31 ↔ val < 2 ^ 31 := hlt 31
  simp only [formatBinary, if_neg h₀, h₇, h₁₅, h₃₁, if_neg h0]
  split_ifs <;> exact formatBinaryLoop_spec val _ (by omega)

theorem formatBinary_spec_byte :
    0xFF < 2 ^ 64 ∧
      (∀ d ∈ formatBinary 0xFF, d = '0' ∨ d = '1') ∧
        binaryValue (formatBinary 0xFF) = 0xFF ∧
        (formatBinary 0xFF).length =
          if 0xFF = 0 then 1 else if 0xFF < 2 ^ 7 then 8 else if 0xFF < 2 ^ 15 then 16
          else if 0xFF < 2 ^ 31 then 32 else 64 :=
  ⟨by decide, formatBinary_spec (by decide)⟩

example :
    formatBinary 0x7F = "01111111".toList ∧ formatBinary 0x80 = "0000000010000000".toList := by
  decide

end Print

end GhidraDec
