import Mathlib.Tactic.Ring

/-!
# Numeric Attributes, Written and Read Back

`a_v_u` (`xml.hh`) writes an unsigned attribute as `attr="0x…"`, but it formats the value
with `std::dec`: the digits after the `0x` prefix are decimal. The restore code reads a
numeric attribute from an `istringstream` whose base flags it has cleared
(`RawBinaryArchitecture::restoreXml` reads `adjustvma` this way), so the base follows the
text's prefix — and `0x` selects hexadecimal.

The stream is modelled by what `operator>>` does for an unsigned 64-bit value once the
basefield is cleared: the base is taken from the prefix (`0x`/`0X` hexadecimal, a leading
`0` octal, decimal otherwise), digits of that base are accumulated, and a value past the
64-bit range reads as the largest 64-bit value. Signs and leading blanks, which `a_v_u`
never writes, are left out.

## Main results

* `readDigits_decimal_ten`: the decimal text reads back in base 10;
* `extractUintb_aVU_iff`: the value `a_v_u` writes reads back exactly when it is below 10,
  or the largest 64-bit value (which the overflow clamp happens to restore).
-/

namespace GhidraDec

namespace Xml

/-! ### Writing -/

/-- The text `std::dec << n` writes: the decimal digits of `n`, most significant first;
`fuel` bounds the number of digits. -/
def decimalDigits : Nat → Nat → List Char
  | 0, _ => []
  | fuel + 1, n =>
    if n < 10 then [Nat.digitChar n] else decimalDigits fuel (n / 10) ++ [Nat.digitChar (n % 10)]

/-- The decimal text of `n`. -/
def decimalText (n : Nat) : List Char := decimalDigits (n + 1) n

/-- The attribute value `a_v_u` writes for `val`: `0x`, then `val` in decimal. -/
def aVUValue (val : Nat) : List Char := '0' :: 'x' :: decimalText val

/-- `a_v_u`: the attribute as it appears in the tag. -/
def aVU (attr : String) (val : Nat) : String :=
  " " ++ attr ++ "=\"" ++ String.mk (aVUValue val) ++ "\""

/-! ### Reading -/

/-- The value of a character as a digit (`0`–`9`, `a`–`f`, `A`–`F`). -/
def charDigit (c : Char) : Option Nat :=
  if '0' ≤ c ∧ c ≤ '9' then some (c.toNat - '0'.toNat)
  else if 'a' ≤ c ∧ c ≤ 'f' then some (c.toNat - 'a'.toNat + 10)
  else if 'A' ≤ c ∧ c ≤ 'F' then some (c.toNat - 'A'.toNat + 10)
  else none

/-- The value of a character as a digit of `base`, if it is one. -/
def digitValue (base : Nat) (c : Char) : Option Nat := (charDigit c).filter (· < base)

/-- Accumulate the digits of `base` at the front of the text. -/
def readDigits (base : Nat) : List Char → Nat → Nat
  | [], acc => acc
  | c :: cs, acc =>
    match digitValue base c with
    | some d => readDigits base cs (acc * base + d)
    | none => acc

/-- The base of a stream whose basefield is cleared, from the text's prefix, and the text
after the prefix. -/
def detectBase : List Char → Nat × List Char
  | '0' :: x :: rest => if x = 'x' ∨ x = 'X' then (16, rest) else (8, x :: rest)
  | cs => (10, cs)

/-- `s >> val` for a 64-bit unsigned `val` on a stream whose basefield is cleared. -/
def extractUintb (text : List Char) : Nat :=
  let (base, digits) := detectBase text
  let v := readDigits base digits 0
  if v < 2 ^ 64 then v else 2 ^ 64 - 1

/-! ### Decimal digits -/

/-- Enough fuel gives the same digits. -/
theorem decimalDigits_fuel : ∀ {f1 f2 n : Nat}, n < f1 → n < f2 →
    decimalDigits f1 n = decimalDigits f2 n
  | 0, _, _, h1, _ => absurd h1 (Nat.not_lt_zero _)
  | _, 0, _, _, h2 => absurd h2 (Nat.not_lt_zero _)
  | f1 + 1, f2 + 1, n, h1, h2 => by
    simp only [decimalDigits]
    split_ifs
    · rfl
    · rw [@decimalDigits_fuel f1 f2 (n / 10) (by omega) (by omega)]

/-- The decimal text, one digit at a time. -/
theorem decimalText_eq (n : Nat) :
    decimalText n = if n < 10 then [Nat.digitChar n]
      else decimalText (n / 10) ++ [Nat.digitChar (n % 10)] := by
  unfold decimalText
  rw [decimalDigits]
  split_ifs
  · rfl
  · rw [@decimalDigits_fuel n (n / 10 + 1) (n / 10) (by omega) (by omega)]

theorem charDigit_digitChar : ∀ d < 10, charDigit (Nat.digitChar d) = some d := by decide

theorem digitValue_digitChar {base d : Nat} (hb : 10 ≤ base) (hd : d < 10) :
    digitValue base (Nat.digitChar d) = some d := by
  simp [digitValue, charDigit_digitChar d hd, Option.filter, show d < base by omega]

theorem readDigits_append_digit {base d : Nat} (hb : 10 ≤ base) (hd : d < 10) (l : List Char)
    (acc : Nat) (hl : ∀ c ∈ l, (digitValue base c).isSome) :
    readDigits base (l ++ [Nat.digitChar d]) acc = readDigits base l acc * base + d := by
  induction l generalizing acc with
  | nil => simp [readDigits, digitValue_digitChar hb hd]
  | cons c l ih =>
    obtain ⟨e, he⟩ := Option.isSome_iff_exists.mp (hl c (List.mem_cons_self c l))
    simp only [List.cons_append, readDigits, he]
    exact ih _ fun c' hc' => hl c' (List.mem_cons_of_mem c hc')

theorem digitValue_isSome_of_decimal {base : Nat} (hb : 10 ≤ base) (n : Nat) :
    ∀ c ∈ decimalText n, (digitValue base c).isSome := by
  induction n using Nat.strongRecOn with
  | ind n ih =>
    rw [decimalText_eq]
    split_ifs with h
    · simp [digitValue_digitChar hb h]
    · intro c hc
      rcases List.mem_append.mp hc with hc | hc
      · exact ih (n / 10) (by omega) c hc
      · simp only [List.mem_singleton] at hc
        simp [hc, digitValue_digitChar hb (Nat.mod_lt n (by decide : 10 > 0))]

/-- The decimal text of `n` read in a base from 10 up: its digits as digits of that base. -/
theorem readDigits_decimal {base : Nat} (hb : 10 ≤ base) (n : Nat) :
    readDigits base (decimalText n) 0 = if n < 10 then n
      else readDigits base (decimalText (n / 10)) 0 * base + n % 10 := by
  rw [decimalText_eq]
  split_ifs with h
  · simp [readDigits, digitValue_digitChar hb h]
  · exact readDigits_append_digit hb (Nat.mod_lt n (by decide)) _ _
      (digitValue_isSome_of_decimal hb _)

/-- The decimal text reads back in base 10. -/
theorem readDigits_decimal_ten (n : Nat) : readDigits 10 (decimalText n) 0 = n := by
  induction n using Nat.strongRecOn with
  | ind n ih =>
    rw [readDigits_decimal le_rfl]
    split_ifs with h
    · rfl
    · rw [ih (n / 10) (by omega)]; omega

/-- Read in base 16, the decimal text of `n` is worth more than `n` from two digits on. -/
theorem readDigits_decimal_hex (n : Nat) :
    n ≤ readDigits 16 (decimalText n) 0 ∧ (10 ≤ n → n < readDigits 16 (decimalText n) 0) := by
  induction n using Nat.strongRecOn with
  | ind n ih =>
    rw [readDigits_decimal (by decide)]
    split_ifs with h
    · omega
    · have := (ih (n / 10) (by omega)).1
      omega

/-! ### The round trip -/

theorem extractUintb_aVUValue (v : Nat) :
    extractUintb (aVUValue v) =
      if readDigits 16 (decimalText v) 0 < 2 ^ 64 then readDigits 16 (decimalText v) 0
      else 2 ^ 64 - 1 := rfl

/-- **The value `a_v_u` writes reads back only below 10**, and at the largest 64-bit value,
where the hexadecimal reading overflows and the clamp lands on the value by chance. Every
other 64-bit value reads back as a different number. -/
theorem extractUintb_aVU_iff {v : Nat} (hv : v < 2 ^ 64) :
    extractUintb (aVUValue v) = v ↔ v < 10 ∨ v = 2 ^ 64 - 1 := by
  rw [extractUintb_aVUValue]
  obtain ⟨hle, hlt⟩ := readDigits_decimal_hex v
  constructor
  · intro h
    split_ifs at h with hr
    · by_contra hne; have := hlt (by omega); omega
    · omega
  · rintro (h | h)
    · have heq : readDigits 16 (decimalText v) 0 = v := by
        rw [readDigits_decimal (by decide), if_pos h]
      rw [heq, if_pos hv]
    · rw [if_neg (by have := hlt (by omega); omega), h]

/-- The failing input: `adjustvma = 10` is written as `0x10` and read back as 16. -/
theorem extractUintb_aVU_ten : aVU "adjustvma" 10 = " adjustvma=\"0x10\"" ∧
    extractUintb (aVUValue 10) = 16 ∧ extractUintb (aVUValue 10) ≠ 10 :=
  ⟨by decide, by decide, fun h => absurd ((extractUintb_aVU_iff (by decide)).mp h) (by decide)⟩

end Xml

end GhidraDec
