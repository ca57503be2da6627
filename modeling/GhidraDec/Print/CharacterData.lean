import Mathlib.Algebra.Group.Int
import Mathlib.Data.List.GetD

/-!
# Escaping Character Data

`PrintLanguage::escapeCharacterData` (`printlanguage.cc`) prints a buffer of character data:
it decodes one codepoint at a time with `getCodepoint`, in UTF-8, UTF-16 or UTF-32 after the
character size, passes each to `printUnicode`, and stops at the first invalid encoding, at a
NUL, or once `count` bytes are consumed; it reports whether it stopped at a NUL.

The model reads the buffer as a list of bytes that continues with zeros, and keeps the `int4`
arithmetic of the source: a UTF-32 word with its top bit set wraps to a negative codepoint.
Beside it stands the standard reading of the same bytes (`standardEscape`): the characters of
shortest-form UTF-8, of UTF-16 with surrogate pairs and of UTF-32 that are Unicode scalar
values, each lying within the first `count` bytes, up to the first that is not one or is NUL.

## Main results

* `getCodepoint_of_standard`: `getCodepoint` reads every standard character as the standard
  does, with its value and length;
* `escapeLoop_fuel`: `count` rounds are enough for the loop of `escapeCharacterData`;
* `escapeCharacterData_extends_standard`: the standard reading is a prefix of what the code
  prints, and where the standard finds a NUL, the code prints exactly the standard run and
  reports the NUL;
* `escapeCharacterData_beyond_standard`: the code also prints a four-byte form above
  `0x10FFFF`, a character that straddles `count` and a UTF-32 word with its top bit set, and
  reports an overlong two-byte NUL as a terminator.
-/

namespace GhidraDec

namespace Print

/-- The byte at `k` of a character buffer; the buffer continues with zeros past the list. -/
def byteAt (buf : List UInt8) (k : Nat) : Nat := (buf.getD k 0).toNat

theorem byteAt_lt (buf : List UInt8) (k : Nat) : byteAt buf k < 256 :=
  UInt8.toNat_lt_size _

/-- The signed 32-bit value of a word, as `int4` arithmetic wraps it. -/
def toInt4 (x : Nat) : Int := Int.bmod x (2 ^ 32)

/-- `PrintLanguage::readUtf16`: the first two bytes combined in the given byte order. -/
def readUtf16 (buf : List UInt8) (bigend : Bool) : Nat :=
  if bigend then (byteAt buf 0 <<< 8) + byteAt buf 1 else (byteAt buf 1 <<< 8) + byteAt buf 0

/-- The UTF-16 branch of `PrintLanguage::getCodepoint`: the codepoint and the bytes it takes,
`none` where the source returns `-1`. -/
def utf16Codepoint (buf : List UInt8) (bigend : Bool) : Option (Int × Nat) :=
  let codepoint : Int := readUtf16 buf bigend
  if 0xD800 ≤ codepoint ∧ codepoint ≤ 0xDBFF then
    let trail : Int := readUtf16 (buf.drop 2) bigend
    if trail < 0xDC00 ∨ trail > 0xDFFF then none
    else some (codepoint * 2 ^ 10 + trail + (0x10000 - 0xD800 * 2 ^ 10 - 0xDC00), 4)
  else if 0xDC00 ≤ codepoint ∧ codepoint ≤ 0xDFFF then none
  else some (codepoint, 2)

/-- The UTF-8 branch of `PrintLanguage::getCodepoint`: the lead byte's high bits give the
length, and each continuation byte must be `10xxxxxx`; there is no other check. -/
def utf8Codepoint (buf : List UInt8) : Option (Nat × Nat) :=
  let val := byteAt buf 0
  let val2 := byteAt buf 1
  let val3 := byteAt buf 2
  let val4 := byteAt buf 3
  if val &&& 0x80 = 0 then some (val, 1)
  else if val &&& 0xe0 = 0xc0 then
    if val2 &&& 0xc0 ≠ 0x80 then none
    else some (((val &&& 0x1f) <<< 6) ||| (val2 &&& 0x3f), 2)
  else if val &&& 0xf0 = 0xe0 then
    if val2 &&& 0xc0 ≠ 0x80 ∨ val3 &&& 0xc0 ≠ 0x80 then none
    else some (((val &&& 0xf) <<< 12) ||| ((val2 &&& 0x3f) <<< 6) ||| (val3 &&& 0x3f), 3)
  else if val &&& 0xf8 = 0xf0 then
    if val2 &&& 0xc0 ≠ 0x80 ∨ val3 &&& 0xc0 ≠ 0x80 ∨ val4 &&& 0xc0 ≠ 0x80 then none
    else some (((val &&& 7) <<< 18) ||| ((val2 &&& 0x3f) <<< 12) ||| ((val3 &&& 0x3f) <<< 6) |||
      (val4 &&& 0x3f), 4)
  else none

/-- The UTF-32 branch of `PrintLanguage::getCodepoint`: four bytes in the given byte order,
as an `int4`. -/
def utf32Codepoint (buf : List UInt8) (bigend : Bool) : Int :=
  if bigend then
    toInt4 ((byteAt buf 0 <<< 24) + (byteAt buf 1 <<< 16) + (byteAt buf 2 <<< 8) + byteAt buf 3)
  else
    toInt4 ((byteAt buf 3 <<< 24) + (byteAt buf 2 <<< 16) + (byteAt buf 1 <<< 8) + byteAt buf 0)

/-- The character-size dispatch of `PrintLanguage::getCodepoint`, before its surrogate check:
the codepoint and the bytes it takes, `none` where the source returns `-1`. -/
def decodeCodepoint (buf : List UInt8) (charsize : Int) (bigend : Bool) : Option (Int × Nat) :=
  if charsize = 2 then utf16Codepoint buf bigend
  else if charsize = 1 then (utf8Codepoint buf).map fun d => (d.1, d.2)
  else if charsize = 4 then some (utf32Codepoint buf bigend, 4)
  else none

/-- `PrintLanguage::getCodepoint`: the codepoint at the front of `buf` and the new `skip`, the
number of bytes it takes. An invalid encoding, a surrogate or a character size other than 1,
2 or 4 gives `-1` and leaves `skip` alone. -/
def getCodepoint (buf : List UInt8) (charsize : Int) (bigend : Bool) (skip : Nat) : Int × Nat :=
  match decodeCodepoint buf charsize bigend with
  | some (codepoint, sk) =>
    if codepoint ≥ 0xd800 ∧ codepoint ≤ 0xdfff then (-1, skip) else (codepoint, sk)
  | none => (-1, skip)

/-- The loop of `PrintLanguage::escapeCharacterData` from byte `i`, for at most `fuel` rounds:
the codepoints passed to `printUnicode`, and the value of `codepoint` when the loop ends. -/
def escapeLoop (buf : List UInt8) (count charsize : Int) (bigend : Bool) :
    Nat → Nat → Nat → Int → List Int × Int
  | 0, _, _, codepoint => ([], codepoint)
  | fuel + 1, i, skip, codepoint =>
    if (i : Int) < count then
      let r := getCodepoint (buf.drop i) charsize bigend skip
      if r.1 = 0 ∨ r.1 = -1 then ([], r.1)
      else
        let rest := escapeLoop buf count charsize bigend fuel (i + r.2) r.2 r.1
        (r.1 :: rest.1, rest.2)
    else ([], codepoint)

/-- `PrintLanguage::escapeCharacterData`: the codepoints passed to `printUnicode`, and whether
the loop stopped at a terminator. Every round takes at least one byte, so `count` rounds are
enough (`escapeLoop_fuel`). -/
def escapeCharacterData (buf : List UInt8) (count charsize : Int) (bigend : Bool) :
    List Int × Bool :=
  let r := escapeLoop buf count charsize bigend count.toNat 0 charsize.toNat 0
  (r.1, r.2 = 0)

/-! ### The standard reading -/

/-- A UTF-8 continuation byte, `0x80` to `0xBF`. -/
def IsCont (b : Nat) : Prop := 0x80 ≤ b ∧ b < 0xC0

instance (b : Nat) : Decidable (IsCont b) := inferInstanceAs (Decidable (_ ∧ _))

/-- The Unicode scalar values: `0` to `0x10FFFF` without the surrogates. -/
def IsScalar (c : Nat) : Prop := c ≤ 0x10FFFF ∧ (c < 0xD800 ∨ 0xDFFF < c)

instance (c : Nat) : Decidable (IsScalar c) := inferInstanceAs (Decidable (_ ∧ _))

/-- The length of the shortest UTF-8 form of a codepoint. -/
def utf8Length (c : Nat) : Nat :=
  if c < 0x80 then 1 else if c < 0x800 then 2 else if c < 0x10000 then 3 else 4

/-- The UTF-8 sequence at the front of `buf` read arithmetically: the lead byte's range gives
the length, the continuation bytes lie in `0x80` to `0xBF`, and each byte gives its low
bits. -/
def utf8Payload (buf : List UInt8) : Option (Nat × Nat) :=
  let b := byteAt buf
  if b 0 < 0x80 then some (b 0, 1)
  else if 0xC0 ≤ b 0 ∧ b 0 < 0xE0 then
    if IsCont (b 1) then some ((b 0 - 0xC0) * 0x40 + (b 1 - 0x80), 2) else none
  else if 0xE0 ≤ b 0 ∧ b 0 < 0xF0 then
    if IsCont (b 1) ∧ IsCont (b 2) then
      some ((b 0 - 0xE0) * 0x1000 + (b 1 - 0x80) * 0x40 + (b 2 - 0x80), 3)
    else none
  else if 0xF0 ≤ b 0 ∧ b 0 < 0xF8 then
    if IsCont (b 1) ∧ IsCont (b 2) ∧ IsCont (b 3) then
      some ((b 0 - 0xF0) * 0x40000 + (b 1 - 0x80) * 0x1000 + (b 2 - 0x80) * 0x40 + (b 3 - 0x80), 4)
    else none
  else none

/-- The standard UTF-8 reading of the character at the front of `buf`: its scalar value and
its length, or `none` where the bytes there are not the shortest form of a scalar value. -/
def standardUtf8 (buf : List UInt8) : Option (Nat × Nat) :=
  (utf8Payload buf).filter fun d => utf8Length d.1 = d.2 ∧ IsScalar d.1

/-- The standard UTF-16 reading: a unit outside the surrogates, or a high surrogate followed by
a low one. -/
def standardUtf16 (buf : List UInt8) (bigend : Bool) : Option (Nat × Nat) :=
  let u := readUtf16 buf bigend
  if 0xD800 ≤ u ∧ u < 0xDC00 then
    let w := readUtf16 (buf.drop 2) bigend
    if 0xDC00 ≤ w ∧ w < 0xE000 then some (0x10000 + (u - 0xD800) * 0x400 + (w - 0xDC00), 4)
    else none
  else if 0xDC00 ≤ u ∧ u < 0xE000 then none
  else some (u, 2)

/-- The standard UTF-32 reading: a word that is a scalar value. -/
def standardUtf32 (buf : List UInt8) (bigend : Bool) : Option (Nat × Nat) :=
  let b := byteAt buf
  let w := if bigend then b 0 * 0x1000000 + b 1 * 0x10000 + b 2 * 0x100 + b 3
    else b 3 * 0x1000000 + b 2 * 0x10000 + b 1 * 0x100 + b 0
  if IsScalar w then some (w, 4) else none

/-- The standard reading of the character at the front of `buf` for a character size. -/
def standardCodepoint (buf : List UInt8) (charsize : Int) (bigend : Bool) : Option (Nat × Nat) :=
  if charsize = 1 then standardUtf8 buf
  else if charsize = 2 then standardUtf16 buf bigend
  else if charsize = 4 then standardUtf32 buf bigend
  else none

/-- The standard reading of the first `count` bytes from byte `i`: the run of complete,
well-formed characters other than NUL, and whether a complete NUL follows it. Each character
takes a byte at least, so `count` rounds are enough. -/
def standardRun (buf : List UInt8) (count charsize : Int) (bigend : Bool) :
    Nat → Nat → List Nat × Bool
  | 0, _ => ([], false)
  | fuel + 1, i =>
    match standardCodepoint (buf.drop i) charsize bigend with
    | some (c, len) =>
      if (i + len : Int) ≤ count then
        if c = 0 then ([], true)
        else
          let rest := standardRun buf count charsize bigend fuel (i + len)
          (c :: rest.1, rest.2)
      else ([], false)
    | none => ([], false)

/-- The standard reading of a whole buffer. -/
def standardEscape (buf : List UInt8) (count charsize : Int) (bigend : Bool) : List Nat × Bool :=
  standardRun buf count charsize bigend count.toNat 0

/-! ### Reading one character -/

set_option maxRecDepth 4000 in
/-- What the masks of the UTF-8 branch say about a byte. -/
theorem utf8_masks : ∀ b < 256,
    (b &&& 0x80 = 0 ↔ b < 0x80) ∧ (b &&& 0xe0 = 0xc0 ↔ 0xC0 ≤ b ∧ b < 0xE0) ∧
      (b &&& 0xf0 = 0xe0 ↔ 0xE0 ≤ b ∧ b < 0xF0) ∧ (b &&& 0xf8 = 0xf0 ↔ 0xF0 ≤ b ∧ b < 0xF8) ∧
      (b &&& 0xc0 = 0x80 ↔ IsCont b) := by
  decide

theorem land_0x3f (b : Nat) : b &&& 0x3f = b % 0x40 := Nat.and_pow_two_sub_one_eq_mod b 6
theorem land_0x1f (b : Nat) : b &&& 0x1f = b % 0x20 := Nat.and_pow_two_sub_one_eq_mod b 5
theorem land_0xf (b : Nat) : b &&& 0xf = b % 0x10 := Nat.and_pow_two_sub_one_eq_mod b 4
theorem land_7 (b : Nat) : b &&& 7 = b % 8 := Nat.and_pow_two_sub_one_eq_mod b 3

/-- An `or` of a multiple of `2 ^ i` and a number below `2 ^ i` is their sum. -/
theorem lor_eq_add {a b : Nat} (i : Nat) (ha : 2 ^ i ∣ a) (hb : b < 2 ^ i) : a ||| b = a + b := by
  obtain ⟨q, rfl⟩ := ha
  refine Nat.eq_of_testBit_eq fun j => ?_
  rw [Nat.testBit_or, Nat.testBit_mul_pow_two_add q hb, Nat.testBit_mul_pow_two]
  by_cases hj : j < i
  · simp [hj]
  · have : b < 2 ^ j := Nat.lt_of_lt_of_le hb (Nat.pow_le_pow_right Nat.two_pos (by omega))
    simp [hj, Nat.le_of_not_lt hj, Nat.testBit_lt_two_pow this]

theorem utf8_two (x y : Nat) : (x <<< 6) ||| y % 0x40 = x * 0x40 + y % 0x40 := by
  simp only [Nat.shiftLeft_eq]
  exact lor_eq_add 6 (Nat.dvd_mul_left _ _) (Nat.mod_lt _ (by decide))

theorem utf8_three (x y z : Nat) :
    (x <<< 12) ||| ((y % 0x40) <<< 6) ||| z % 0x40 = x * 0x1000 + y % 0x40 * 0x40 + z % 0x40 := by
  simp only [Nat.shiftLeft_eq]
  rw [lor_eq_add 12 (a := x * 0x1000) (Nat.dvd_mul_left _ _) (by omega),
    lor_eq_add 6 ⟨x * 0x40 + y % 0x40, by omega⟩ (by omega)]

theorem utf8_four (x y z w : Nat) :
    (x <<< 18) ||| ((y % 0x40) <<< 12) ||| ((z % 0x40) <<< 6) ||| w % 0x40 =
      x * 0x40000 + y % 0x40 * 0x1000 + z % 0x40 * 0x40 + w % 0x40 := by
  simp only [Nat.shiftLeft_eq]
  rw [lor_eq_add 18 (a := x * 0x40000) (Nat.dvd_mul_left _ _) (by omega),
    lor_eq_add 12 (a := x * 0x40000 + y % 0x40 * 0x1000) ⟨x * 0x40 + y % 0x40, by omega⟩ (by omega),
    lor_eq_add 6 ⟨x * 0x1000 + y % 0x40 * 0x40 + z % 0x40, by omega⟩ (by omega)]

/-- The masks and shifts of the UTF-8 branch compute the arithmetic reading of the bytes. -/
theorem utf8Codepoint_eq_payload (buf : List UInt8) : utf8Codepoint buf = utf8Payload buf := by
  obtain ⟨a₀, b₀, c₀, d₀, -⟩ := utf8_masks _ (byteAt_lt buf 0)
  have c₁ := (utf8_masks _ (byteAt_lt buf 1)).2.2.2.2
  have c₂ := (utf8_masks _ (byteAt_lt buf 2)).2.2.2.2
  have c₃ := (utf8_masks _ (byteAt_lt buf 3)).2.2.2.2
  simp only [utf8Codepoint, utf8Payload, a₀, b₀, c₀, d₀, c₁, c₂, c₃, ne_eq, ← not_and_or, ite_not,
    land_0x3f, land_0x1f, land_0xf, land_7, utf8_two, utf8_three, utf8_four]
  clear a₀ b₀ c₀ d₀ c₁ c₂ c₃
  split_ifs <;> simp only [IsCont, Option.some.injEq, Prod.mk.injEq, and_true] at * <;> omega

/-- The UTF-8 branch reads exactly the standard characters, and more: the standard reading is
the code's, kept where it is the shortest form of a scalar value. -/
theorem standardUtf8_eq_filter (buf : List UInt8) :
    standardUtf8 buf = (utf8Codepoint buf).filter fun d => utf8Length d.1 = d.2 ∧ IsScalar d.1 := by
  rw [utf8Codepoint_eq_payload, standardUtf8]

theorem utf16Codepoint_of_standard {buf : List UInt8} {bigend : Bool} {c len : Nat}
    (h : standardUtf16 buf bigend = some (c, len)) :
    utf16Codepoint buf bigend = some ((c : Int), len) ∧ (c < 0xD800 ∨ 0xDFFF < c) := by
  simp only [standardUtf16] at h
  simp only [utf16Codepoint]
  split_ifs at h with h₁ h₂ h₃ <;> simp only [Option.some.injEq, Prod.mk.injEq] at h <;>
    obtain ⟨rfl, rfl⟩ := h
  · rw [if_pos (by omega), if_neg (by omega)]
    exact ⟨by simp only [Option.some.injEq, Prod.mk.injEq, and_true]; omega, by omega⟩
  · rw [if_neg (by omega), if_neg (by omega)]
    exact ⟨rfl, by omega⟩

theorem toInt4_of_lt {x : Nat} (h : x < 2 ^ 31) : toInt4 x = x := by
  rw [toInt4, Int.bmod_pos _ _ (by omega), Int.emod_eq_of_lt (by omega) (by omega)]

theorem utf32Codepoint_of_standard {buf : List UInt8} {bigend : Bool} {c len : Nat}
    (h : standardUtf32 buf bigend = some (c, len)) :
    utf32Codepoint buf bigend = c ∧ len = 4 ∧ IsScalar c := by
  cases bigend <;>
  · simp only [standardUtf32, Bool.false_eq_true, if_true, if_false] at h
    split_ifs at h with hs
    cases h
    have := hs.1
    refine ⟨?_, rfl, hs⟩
    simp only [utf32Codepoint, Nat.shiftLeft_eq, Bool.false_eq_true, if_true, if_false]
    rw [toInt4_of_lt (by omega)]

/-- `getCodepoint` after its dispatch: a decoded codepoint outside the surrogates is returned
with its length. -/
theorem getCodepoint_of_decode {buf : List UInt8} {charsize : Int} {bigend : Bool} {c : Int}
    {sk : Nat} (h : decodeCodepoint buf charsize bigend = some (c, sk))
    (hs : c < 0xD800 ∨ 0xDFFF < c) (skip : Nat) :
    getCodepoint buf charsize bigend skip = (c, sk) := by
  simp only [getCodepoint, h]
  exact if_neg (by omega)

/-- **`getCodepoint` reads every standard character as the standard does**, with its value and
its length. -/
theorem getCodepoint_of_standard {buf : List UInt8} {charsize : Int} {bigend : Bool} {c len : Nat}
    (h : standardCodepoint buf charsize bigend = some (c, len)) (skip : Nat) :
    getCodepoint buf charsize bigend skip = ((c : Int), len) := by
  simp only [standardCodepoint] at h
  split_ifs at h with h₁ h₂ h₄
  · rw [standardUtf8_eq_filter, Option.filter_eq_some] at h
    refine getCodepoint_of_decode ?_ (by simp only [IsScalar, decide_eq_true_eq] at h; omega) skip
    rw [decodeCodepoint, if_neg (by omega), if_pos h₁, Option.mem_def.1 h.1]; rfl
  · obtain ⟨hd, hs⟩ := utf16Codepoint_of_standard h
    exact getCodepoint_of_decode (by rw [decodeCodepoint, if_pos h₂, hd]) (by omega) skip
  · obtain ⟨hd, rfl, hs⟩ := utf32Codepoint_of_standard h
    refine getCodepoint_of_decode ?_ (by simp only [IsScalar] at hs; omega) skip
    rw [decodeCodepoint, if_neg (by omega), if_neg (by omega), if_pos h₄, hd]

theorem decodeCodepoint_pos {buf : List UInt8} {charsize : Int} {bigend : Bool} {c : Int}
    {sk : Nat} (h : decodeCodepoint buf charsize bigend = some (c, sk)) : 0 < sk := by
  simp only [decodeCodepoint] at h
  split_ifs at h
  · simp only [utf16Codepoint] at h
    split_ifs at h <;> simp only [Option.some.injEq, Prod.mk.injEq, reduceCtorEq] at h <;> omega
  · obtain ⟨d, hd, hdc⟩ := Option.map_eq_some'.1 h
    simp only [Prod.mk.injEq] at hdc
    rw [utf8Codepoint_eq_payload, utf8Payload] at hd
    split_ifs at hd <;> simp only [Option.some.injEq, reduceCtorEq] at hd <;> subst hd <;> omega
  · simp only [Option.some.injEq, Prod.mk.injEq] at h; omega

/-- A round that reads a codepoint takes a byte at least. -/
theorem getCodepoint_skip_pos {buf : List UInt8} {charsize : Int} {bigend : Bool} {skip : Nat}
    (h : (getCodepoint buf charsize bigend skip).1 ≠ -1) :
    0 < (getCodepoint buf charsize bigend skip).2 := by
  simp only [getCodepoint] at h ⊢
  rcases hd : decodeCodepoint buf charsize bigend with _ | ⟨c, sk⟩
  · simp only [hd, ne_eq, not_true_eq_false] at h
  · simp only [hd] at h ⊢
    split_ifs at h ⊢
    · exact absurd rfl h
    · exact decodeCodepoint_pos hd

/-! ### The loop -/

section Loop

variable (buf : List UInt8) (count charsize : Int) (bigend : Bool)

/-- **`count` rounds are enough**: with fuel for as many rounds as bytes remain, one round
more changes nothing, so the fuelled loop is the loop of the source. -/
theorem escapeLoop_fuel : ∀ (n i skip : Nat) (codepoint : Int), (count - i).toNat ≤ n →
    escapeLoop buf count charsize bigend (n + 1) i skip codepoint =
      escapeLoop buf count charsize bigend n i skip codepoint
  | 0, i, skip, codepoint, h => by
    simp only [escapeLoop, if_neg (show ¬(i : Int) < count by omega)]
  | n + 1, i, skip, codepoint, h => by
    rw [escapeLoop.eq_2 _ _ _ _ i skip codepoint (n + 1),
      escapeLoop.eq_2 _ _ _ _ i skip codepoint n]
    dsimp only
    split_ifs with hi hr
    · rfl
    · have := getCodepoint_skip_pos (not_or.1 hr).2
      rw [escapeLoop_fuel n _ _ _ (by omega)]
    · rfl

/-- The loop reads the standard run as the standard does: the standard run is a prefix of the
codepoints printed, and where the standard run ends at a NUL, the loop prints exactly that run
and ends on codepoint `0`. -/
theorem escapeLoop_extends_standardRun : ∀ (n i skip : Nat) (codepoint : Int),
    (standardRun buf count charsize bigend n i).1.map (fun c : Nat => (c : Int)) <+:
        (escapeLoop buf count charsize bigend n i skip codepoint).1 ∧
      ((standardRun buf count charsize bigend n i).2 = true →
        escapeLoop buf count charsize bigend n i skip codepoint =
          ((standardRun buf count charsize bigend n i).1.map fun c : Nat => (c : Int), 0))
  | 0, i, skip, codepoint => by simp [standardRun]
  | n + 1, i, skip, codepoint => by
    simp only [standardRun]
    rcases hs : standardCodepoint (buf.drop i) charsize bigend with _ | ⟨c, len⟩
    · simp
    · have hr := getCodepoint_of_standard hs skip
      have hlen : 0 < len := by
        have := @getCodepoint_skip_pos (buf.drop i) charsize bigend skip
        rw [hr] at this
        exact this (by omega)
      simp only
      split_ifs with hfit hc
      · subst hc
        simp only [escapeLoop, if_pos (show (i : Int) < count by omega), hr]
        simp
      · have ih := escapeLoop_extends_standardRun n (i + len) len c
        simp only [escapeLoop, if_pos (show (i : Int) < count by omega), hr]
        rw [if_neg (show ¬((c : Int) = 0 ∨ (c : Int) = -1) by omega)]
        exact ⟨List.prefix_cons_inj _ |>.2 ih.1, fun h => by rw [ih.2 h]; rfl⟩
      · simp

end Loop

/-- **The code reads the standard run and more**: the standard reading of a buffer is a prefix
of the codepoints `escapeCharacterData` passes to `printUnicode`, and where the standard
reading ends at a NUL, the code prints exactly that run and reports the terminator. -/
theorem escapeCharacterData_extends_standard (buf : List UInt8) (count charsize : Int)
    (bigend : Bool) :
    (standardEscape buf count charsize bigend).1.map (fun c : Nat => (c : Int)) <+:
        (escapeCharacterData buf count charsize bigend).1 ∧
      ((standardEscape buf count charsize bigend).2 = true →
        escapeCharacterData buf count charsize bigend =
          ((standardEscape buf count charsize bigend).1.map fun c : Nat => (c : Int), true)) := by
  have h := escapeLoop_extends_standardRun buf count charsize bigend count.toNat 0 charsize.toNat 0
  refine ⟨h.1, fun hs => ?_⟩
  simp only [escapeCharacterData, standardEscape] at hs ⊢
  rw [h.2 hs]
  rfl

example :
    escapeCharacterData [0xE2, 0x82, 0xAC, 0x41, 0, 0x42] 6 1 false = ([0x20AC, 0x41], true) := by
  decide

/-- Four buffers the code reads past the standard: a four-byte form of `0x110000`, above the
last scalar value, is printed; an overlong two-byte NUL is taken for a terminator; a UTF-16
character of which only the first byte lies within `count` is printed; and a UTF-32 word with
its top bit set is printed as a negative codepoint. The standard reads nothing from any. -/
theorem escapeCharacterData_beyond_standard :
    escapeCharacterData [0xF4, 0x90, 0x80, 0x80] 4 1 false = ([0x110000], false) ∧
      standardEscape [0xF4, 0x90, 0x80, 0x80] 4 1 false = ([], false) ∧
    escapeCharacterData [0xC0, 0x80] 2 1 false = ([], true) ∧
      standardEscape [0xC0, 0x80] 2 1 false = ([], false) ∧
    escapeCharacterData [0x41, 0x00] 1 2 false = ([0x41], false) ∧
      standardEscape [0x41, 0x00] 1 2 false = ([], false) ∧
    escapeCharacterData [0, 0, 0, 0x80] 4 4 false = ([-0x80000000], false) ∧
      standardEscape [0, 0, 0, 0x80] 4 4 false = ([], false) := by
  decide

end Print

end GhidraDec
