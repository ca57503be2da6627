import Mathlib.Tactic.NormNum.Pow
import Mathlib.Tactic.Positivity
import GhidraDec.Funcdata.Linked

/-!
# Rewriting `<=` Comparisons to `<`

`Funcdata::replaceLessequal` rewrites a comparison against a constant in place:
`#c <= x` becomes `#c-1 < x` and `x <= #c` becomes `x < #c+1`, for the unsigned
(`INT_LESSEQUAL`) and the signed (`INT_SLESSEQUAL`) forms. It refuses the rewrite where the
adjusted constant would overflow, and it decides overflow on the constant sign-extended to
a 64-bit `intb`.

The model keeps the source's arithmetic: the constant's offset is sign-extended from its
top bit (`signExtend`), moved by one in 64-bit arithmetic (`wrap64`), checked, and masked
back to the constant's size (`calcMask`). `sign_extend` and `calc_mask` live in
`address.cc`, which is not part of the sources; they are modelled by their meaning, a
two's-complement reading and a byte mask.

## Main results

* `lessequalAdjust_unsigned_sound`: the unsigned rewrite is sound at every size up to
  eight bytes;
* `lessequalAdjust_signed_sound`: the signed rewrite is sound whenever the adjusted value
  fits the constant's size, which the 64-bit overflow check guarantees for 8-byte
  constants only (`lessequalAdjust_fits_of_size_eight`);
* `replaceLessequal_slessequal_top`: for a constant of one to seven bytes the check misses
  the overflow, and `x <=s MAX` (always true) becomes `x <s MIN` (always false);
* `replaceLessequal_spec`: what the store looks like after a rewrite, so that the results
  above are results about `replaceLessequal` itself.
-/

namespace GhidraDec

/-! ### The arithmetic of `replaceLessequal` -/

/-- `calc_mask`: the mask of the low `size` bytes of a 64-bit word. -/
def calcMask (size : Nat) : Nat := 2 ^ (8 * min size 8) - 1

/-- `sign_extend(val, bit)` on a 64-bit word, read as an `intb`: bit `bit` is copied into
every higher bit, so the low `bit + 1` bits are read as a two's-complement integer. -/
def signExtend (val bit : Nat) : Int := (val : Int).bmod (2 ^ (bit + 1))

/-- An `intb` sum as the 64-bit machine computes it. -/
def wrap64 (x : Int) : Int := x.bmod (2 ^ 64)

/-- An `intb` converted to `uintb`. -/
def toUintb (x : Int) : Nat := (x % 2 ^ 64).toNat

/-- The arithmetic of `replaceLessequal` on a constant of `size` bytes at offset `off`,
moved by `diff` (`-1` for a constant in slot 0, `1` in slot 1): the new op-code and the
new constant, or `none` where the source returns `false`. Every op-code but
`INT_SLESSEQUAL` takes the unsigned branch. -/
def lessequalAdjust (code : OpCode) (size : Nat) (diff : Int) (off : Nat) :
    Option (OpCode × Nat) :=
  let val := signExtend off (8 * size - 1)
  let sum := wrap64 (val + diff)
  let res := toUintb sum &&& calcMask size
  if code = .intSlessequal then
    if val < 0 ∧ 0 < sum ∨ 0 < val ∧ sum < 0 then none else some (.intSless, res)
  else
    if diff = -1 ∧ val = 0 ∨ diff = 1 ∧ val = -1 then none else some (.intLess, res)

/-! ### The meaning of a comparison -/

/-- A `size`-byte word read as a two's-complement integer. -/
def toSigned (size x : Nat) : Int := (x : Int).bmod (2 ^ (8 * size))

/-- The p-code meaning of the integer comparisons on two `size`-byte operands (only the low
`size` bytes of an operand count). -/
def evalCompare (code : OpCode) (size a b : Nat) : Bool :=
  match code with
  | .intLess => decide (a % 2 ^ (8 * size) < b % 2 ^ (8 * size))
  | .intLessequal => decide (a % 2 ^ (8 * size) ≤ b % 2 ^ (8 * size))
  | .intSless => decide (toSigned size a < toSigned size b)
  | .intSlessequal => decide (toSigned size a ≤ toSigned size b)
  | .intEqual => a % 2 ^ (8 * size) == b % 2 ^ (8 * size)
  | .intNotequal => a % 2 ^ (8 * size) != b % 2 ^ (8 * size)
  | _ => false

/-! ### Arithmetic lemmas

Throughout, `M = 2 ^ (8 * size)` is the modulus of a `size`-byte word and
`H = 2 ^ (8 * size - 1)` its signed bound; proofs name the two powers and reason linearly
about them. -/

section Arith

variable {size : Nat}

theorem two_pow_size_eq (hs : 1 ≤ size) : 2 ^ (8 * size) = 2 * 2 ^ (8 * size - 1) := by
  rw [← Nat.pow_succ']; congr 1; omega

theorem signExtend_eq_toSigned (hs : 1 ≤ size) (off : Nat) :
    signExtend off (8 * size - 1) = toSigned size off := by
  unfold signExtend toSigned; congr 2; omega

/-- An integer of the signed range, reduced modulo `M`. -/
theorem emod_of_signed {M H : Nat} (hM : M = 2 * H) {y : Int} (hy : -(H : Int) ≤ y ∧ y < H) :
    y % (M : Int) = if 0 ≤ y then y else y + M := by
  split_ifs with h
  · exact Int.emod_eq_of_lt h (by omega)
  · rw [← Int.add_emod_self]; exact Int.emod_eq_of_lt (by omega) (by omega)

/-- A word below the modulus, read as two's complement. -/
theorem toSigned_of_lt (hs : 1 ≤ size) {a : Nat} (ha : a < 2 ^ (8 * size)) :
    toSigned size a =
      if a < 2 ^ (8 * size - 1) then (a : Int) else (a : Int) - (2 ^ (8 * size) : Nat) := by
  have hM := two_pow_size_eq hs
  unfold toSigned
  generalize 2 ^ (8 * size) = M at *
  generalize 2 ^ (8 * size - 1) = H at *
  rw [Int.bmod_def, Int.emod_eq_of_lt (by omega) (by omega)]
  split_ifs <;> omega

/-- Two's complement keeps the residue. -/
theorem toSigned_emod (a : Nat) :
    toSigned size a % ((2 ^ (8 * size) : Nat) : Int) = (a : Int) % ((2 ^ (8 * size) : Nat) : Int) :=
  Int.bmod_emod

/-- The signed reading lies in `[-H, H)`. -/
theorem toSigned_bounds (hs : 1 ≤ size) (a : Nat) :
    -((2 ^ (8 * size - 1) : Nat) : Int) ≤ toSigned size a ∧
      toSigned size a < ((2 ^ (8 * size - 1) : Nat) : Int) := by
  have hM := two_pow_size_eq hs
  have h1 := Int.le_bmod (x := a) (Nat.two_pow_pos (8 * size))
  have h2 := Int.bmod_lt (x := a) (Nat.two_pow_pos (8 * size))
  unfold toSigned
  generalize 2 ^ (8 * size) = M at *
  generalize 2 ^ (8 * size - 1) = H at *
  omega

/-- The signed reading of `a` is the integer of the signed range with `a`'s residue. -/
theorem toSigned_eq_of_emod (hs : 1 ≤ size) (a : Nat) {y : Int}
    (hy : -((2 ^ (8 * size - 1) : Nat) : Int) ≤ y ∧ y < ((2 ^ (8 * size - 1) : Nat) : Int))
    (h : y % ((2 ^ (8 * size) : Nat) : Int) = (a : Int) % ((2 ^ (8 * size) : Nat) : Int)) :
    toSigned size a = y := by
  have hM := two_pow_size_eq hs
  have hb := toSigned_bounds hs a
  have he := (toSigned_emod a).trans h.symm
  generalize toSigned size a = z at *
  generalize 2 ^ (8 * size) = M at *
  generalize 2 ^ (8 * size - 1) = H at *
  rw [emod_of_signed hM hb, emod_of_signed hM hy] at he
  split_ifs at he <;> omega

/-- The adjusted constant is the moved value reduced to `size` bytes. -/
theorem res_eq_emod (hs : size ≤ 8) (y : Int) :
    ((toUintb (wrap64 y) &&& calcMask size : Nat) : Int) = y % ((2 ^ (8 * size) : Nat) : Int) := by
  have h64 : (2 : Int) ^ 64 = ((2 ^ 64 : Nat) : Int) := by norm_num
  unfold toUintb wrap64 calcMask
  rw [Nat.min_eq_left hs, Nat.and_pow_two_sub_one_eq_mod, Int.ofNat_emod,
    Int.toNat_of_nonneg (Int.emod_nonneg _ (by positivity)), h64, Int.bmod_emod]
  exact Int.emod_emod_of_dvd y (by exact_mod_cast Nat.pow_dvd_pow 2 (by omega : 8 * size ≤ 64))

end Arith

/-! ### Soundness of the adjustment -/

section Sound

variable {size off x res : Nat} {diff : Int} {code code' : OpCode}

/-- **The unsigned rewrite is sound**: `x <= #c` and `x < #c+1` (or `#c <= x` and
`#c-1 < x`) agree on every operand whenever the source performs the rewrite. -/
theorem lessequalAdjust_unsigned_sound (hs : 1 ≤ size ∧ size ≤ 8) (hoff : off < 2 ^ (8 * size))
    (hcode : code ≠ .intSlessequal) (hdiff : diff = 1 ∨ diff = -1)
    (h : lessequalAdjust code size diff off = some (code', res)) :
    code' = .intLess ∧
      (diff = 1 → evalCompare code' size x res = evalCompare .intLessequal size x off) ∧
      (diff = -1 → evalCompare code' size res x = evalCompare .intLessequal size off x) := by
  simp only [lessequalAdjust, hcode, if_false, signExtend_eq_toSigned hs.1] at h
  split_ifs at h with hg
  obtain ⟨rfl, rfl⟩ := Option.some.inj h
  have hM := two_pow_size_eq hs.1
  have hr := res_eq_emod hs.2 (toSigned size off + diff)
  rw [Int.add_emod, toSigned_emod, ← Int.add_emod] at hr
  have hv := toSigned_of_lt hs.1 hoff
  have hxm := Nat.mod_lt x (Nat.two_pow_pos (8 * size))
  refine ⟨rfl, ?_⟩
  simp only [evalCompare, Nat.mod_eq_of_lt hoff]
  generalize toUintb _ &&& _ = r at hr ⊢
  generalize toSigned size off = v at hv hg
  generalize 2 ^ (8 * size) = M at *
  generalize 2 ^ (8 * size - 1) = H at *
  have hr' : (r : Int) = off + diff := by
    rw [hr]; exact Int.emod_eq_of_lt (by split_ifs at hv <;> omega) (by split_ifs at hv <;> omega)
  refine ⟨fun hd => ?_, fun hd => ?_⟩ <;> subst hd <;>
    rw [Nat.mod_eq_of_lt (by omega : r < M)] <;> simp only [decide_eq_decide] <;> omega

/-- **The signed rewrite is sound when the adjusted value fits** the constant's size. -/
theorem lessequalAdjust_signed_sound (hs : 1 ≤ size ∧ size ≤ 8)
    (hfit : -((2 ^ (8 * size - 1) : Nat) : Int) ≤ toSigned size off + diff ∧
      toSigned size off + diff < ((2 ^ (8 * size - 1) : Nat) : Int))
    (h : lessequalAdjust .intSlessequal size diff off = some (code', res)) :
    code' = .intSless ∧
      (diff = 1 → evalCompare code' size x res = evalCompare .intSlessequal size x off) ∧
      (diff = -1 → evalCompare code' size res x = evalCompare .intSlessequal size off x) := by
  simp only [lessequalAdjust, if_true, signExtend_eq_toSigned hs.1] at h
  split_ifs at h
  obtain ⟨rfl, rfl⟩ := Option.some.inj h
  have hres : toSigned size (toUintb (wrap64 (toSigned size off + diff)) &&& calcMask size) =
      toSigned size off + diff := by
    refine toSigned_eq_of_emod hs.1 _ hfit ?_
    rw [res_eq_emod hs.2, Int.emod_emod_of_dvd _ (Int.dvd_refl _)]
  refine ⟨rfl, fun hd => ?_, fun hd => ?_⟩ <;> subst hd <;>
    simp only [evalCompare, hres, decide_eq_decide] <;> omega

/-- The 64-bit overflow check guarantees the fit for 8-byte constants. -/
theorem lessequalAdjust_fits_of_size_eight (hdiff : diff = 1 ∨ diff = -1)
    (h : (lessequalAdjust .intSlessequal 8 diff off).isSome) :
    -((2 ^ (8 * 8 - 1) : Nat) : Int) ≤ toSigned 8 off + diff ∧
      toSigned 8 off + diff < ((2 ^ (8 * 8 - 1) : Nat) : Int) := by
  simp only [lessequalAdjust, if_true, signExtend_eq_toSigned (by norm_num : 1 ≤ 8)] at h
  have hb := toSigned_bounds (by norm_num : 1 ≤ 8) off
  generalize toSigned 8 off = v at h hb
  split_ifs at h with hg
  · simp at h
  simp only [wrap64, Int.bmod_def] at hg
  norm_num at hb hg ⊢
  split_ifs at hg <;> omega

/-- The overflow the 64-bit check misses: below eight bytes, the largest signed constant
moved up by one is accepted, and wraps to the smallest. -/
theorem lessequalAdjust_top (hs : 1 ≤ size ∧ size < 8) :
    lessequalAdjust .intSlessequal size 1 (2 ^ (8 * size - 1) - 1) =
      some (.intSless, 2 ^ (8 * size - 1)) := by
  have hM := two_pow_size_eq hs.1
  have hH : 2 ^ (8 * size - 1) < 2 ^ 56 := Nat.pow_lt_pow_right (by norm_num) (by omega)
  have hH1 : 1 ≤ 2 ^ (8 * size - 1) := Nat.one_le_two_pow
  have hv : toSigned size (2 ^ (8 * size - 1) - 1) = ((2 ^ (8 * size - 1) - 1 : Nat) : Int) := by
    rw [toSigned_of_lt hs.1 (by omega), if_pos (by omega)]
  have hr := res_eq_emod (by omega : size ≤ 8) (((2 ^ (8 * size - 1) - 1 : Nat) : Int) + 1)
  have hw : wrap64 (((2 ^ (8 * size - 1) - 1 : Nat) : Int) + 1) =
      ((2 ^ (8 * size - 1) : Nat) : Int) := by
    have h64 : ((2 ^ 64 : Nat) : Int) = 18446744073709551616 := rfl
    unfold wrap64; rw [Int.bmod_def, h64]
    generalize 2 ^ (8 * size - 1) = H at *
    norm_num at hH
    rw [Int.emod_eq_of_lt (by omega) (by omega), if_pos (by omega)]; omega
  have he : ((2 ^ (8 * size - 1) - 1 : Nat) : Int) + 1 = ((2 ^ (8 * size - 1) : Nat) : Int) := by
    omega
  simp only [lessequalAdjust, if_true, signExtend_eq_toSigned hs.1, hv]
  rw [hw] at hr ⊢
  rw [if_neg (by omega), Option.some.injEq, Prod.mk.injEq]
  refine ⟨rfl, ?_⟩
  rw [he, Int.emod_eq_of_lt (by omega) (by omega)] at hr
  exact_mod_cast hr

/-- The mirror image at the bottom of the range: the smallest signed constant in slot 0,
moved down by one, is accepted and wraps to the largest. -/
theorem lessequalAdjust_bottom (hs : 1 ≤ size ∧ size < 8) :
    lessequalAdjust .intSlessequal size (-1) (2 ^ (8 * size - 1)) =
      some (.intSless, 2 ^ (8 * size - 1) - 1) := by
  have hM := two_pow_size_eq hs.1
  have hH : 2 ^ (8 * size - 1) < 2 ^ 56 := Nat.pow_lt_pow_right (by norm_num) (by omega)
  have hH1 : 1 ≤ 2 ^ (8 * size - 1) := Nat.one_le_two_pow
  have hv : toSigned size (2 ^ (8 * size - 1)) = -((2 ^ (8 * size - 1) : Nat) : Int) := by
    rw [toSigned_of_lt hs.1 (by omega), if_neg (lt_irrefl _)]; omega
  have hr := res_eq_emod (by omega : size ≤ 8) (-((2 ^ (8 * size - 1) : Nat) : Int) + -1)
  have hw : wrap64 (-((2 ^ (8 * size - 1) : Nat) : Int) + -1) =
      -((2 ^ (8 * size - 1) : Nat) : Int) - 1 := by
    have h64 : ((2 ^ 64 : Nat) : Int) = 18446744073709551616 := rfl
    unfold wrap64; rw [Int.bmod_def, h64]
    generalize 2 ^ (8 * size - 1) = H at *
    norm_num at hH
    rw [← Int.add_emod_self, Int.emod_eq_of_lt (by omega) (by omega), if_neg (by omega)]; omega
  simp only [lessequalAdjust, if_true, signExtend_eq_toSigned hs.1, hv]
  rw [hw] at hr ⊢
  rw [if_neg (by omega), Option.some.injEq, Prod.mk.injEq]
  refine ⟨rfl, ?_⟩
  rw [← Int.add_emod_self, Int.emod_eq_of_lt (by omega) (by omega)] at hr
  omega

end Sound

/-! ### The store-level rewrite -/

namespace Funcdata

variable (s : Funcdata)

/-- The varnode in slot `i` of `o` when it is a constant. -/
def constantIn (o i : Nat) : Option Varnode :=
  ((s.getIn o i).bind s.vn).filter Varnode.isConstant

/-- The constant `replaceLessequal` adjusts: slot 0 if it holds one, moved down by one,
else slot 1, moved up by one. -/
def lessequalConstant (o : Nat) : Option (Nat × Varnode × Int) :=
  match s.constantIn o 0 with
  | some x => some (0, x, -1)
  | none => (s.constantIn o 1).map fun x => (1, x, 1)

/-- `Funcdata::replaceLessequal`: rewrite `o` in place, returning whether it did. The new
constant gets the old one's size (`copySymbol` only carries the data-type over). -/
def replaceLessequal (o : Nat) : Funcdata × Bool :=
  match s.lessequalConstant o with
  | none => (s, false)
  | some (i, x, diff) =>
    match lessequalAdjust (s.codeOf o) x.size diff x.offset with
    | none => (s, false)
    | some (code, res) =>
      let (s', nv) := (s.opSetOpcode o code).newConstant x.size res
      (s'.opSetInput o nv i, true)

/-- The value an input slot holds when every varnode that is not a constant takes its value
from `env`: a constant's value is its offset. -/
def slotValue (env : Nat → Nat) (o i : Nat) : Nat :=
  match s.getIn o i with
  | some v =>
    match s.storageOf v with
    | some (a, _) => if a.space.type = .constant then a.offset else env v
    | none => env v
  | none => 0

/-- The boolean a comparison op on `size`-byte operands computes under `env`. -/
def compareValue (env : Nat → Nat) (size o : Nat) : Bool :=
  evalCompare (s.codeOf o) size (s.slotValue env o 0) (s.slotValue env o 1)

variable {s} {o : Nat}

theorem lessequalConstant_spec {i : Nat} {x : Varnode} {diff : Int}
    (h : s.lessequalConstant o = some (i, x, diff)) :
    (i = 0 ∧ diff = -1 ∨ i = 1 ∧ diff = 1 ∧ s.constantIn o 0 = none) ∧
      s.constantIn o i = some x := by
  unfold lessequalConstant at h
  split at h
  · cases h; simp_all
  · obtain ⟨y, hy, hxy⟩ := Option.map_eq_some'.mp h
    cases hxy; simp_all

theorem getIn_of_constantIn {i : Nat} {x : Varnode} (h : s.constantIn o i = some x) :
    ∃ v, s.getIn o i = some v ∧ s.vn v = some x ∧ x.isConstant = true := by
  unfold constantIn at h
  cases hv : s.getIn o i with
  | none => simp [hv] at h
  | some v =>
    cases hx : s.vn v with
    | none => simp [hv, hx] at h
    | some y =>
      simp only [hv, hx, Option.some_bind, Option.filter] at h
      split_ifs at h with hc
      cases h; exact ⟨v, rfl, hx, hc⟩

/-- A slot holding a constant reads as the constant's offset. -/
theorem slotValue_of_constantIn (env : Nat → Nat) {i : Nat} {x : Varnode}
    (h : s.constantIn o i = some x) : s.slotValue env o i = x.offset := by
  obtain ⟨v, hv, hx, hc⟩ := getIn_of_constantIn h
  simp [slotValue, hv, storageOf, hx, Varnode.offset, show x.loc.space.type = .constant by
    simpa [Varnode.isConstant] using hc]

/-- **What a rewrite does to the store**: the op-code is the new one, the adjusted slot
holds a new constant whose offset is the adjusted value, and every other slot reads as
before. -/
theorem replaceLessequal_spec (h : ReadersMatch s) {t : Funcdata}
    (hr : s.replaceLessequal o = (t, true)) :
    ∃ i x diff code res, s.lessequalConstant o = some (i, x, diff) ∧
      lessequalAdjust (s.codeOf o) x.size diff x.offset = some (code, res) ∧
      t.codeOf o = code ∧
      (∀ env, t.slotValue env o i = res) ∧
      (∀ env j, j ≠ i → t.slotValue env o j = s.slotValue env o j) := by
  unfold replaceLessequal at hr
  split at hr
  · cases hr
  next i x diff hc =>
  split at hr
  · cases hr
  next code res hadj =>
  obtain rfl : t = ((s.opSetOpcode o code).newConstant x.size res).1.opSetInput o
      s.vbank.length i := (Prod.mk.inj hr).1.symm
  obtain ⟨v, hv, hx, -⟩ := getIn_of_constantIn (lessequalConstant_spec hc).2
  have hlt : v < s.vbank.length := by
    by_contra hle; simp [vn_eq_none_of_le (Nat.le_of_not_lt hle)] at hx
  have hop : (s.op o).isSome := by
    by_contra hn; simp [getIn, inrefsOf, Option.not_isSome_iff_eq_none.mp hn] at hv
  set s1 := ((s.opSetOpcode o code).newConstant x.size res).1 with hs1
  have hne : s1.getIn o i ≠ some s.vbank.length := by
    simp [hs1, Funcdata.newConstant, hv, Nat.ne_of_lt hlt]
  have hget : ∀ j, (s1.opSetInput o s.vbank.length i).getIn o j =
      if j = i then some s.vbank.length else s.getIn o j := by
    intro j
    rw [getIn_opSetInput hne, inputCandidate_of_descend_nil fun y hy => by
      simp [hs1, Funcdata.newConstant] at hy; simp [← hy]]
    by_cases hj : j = i
    · subst hj; simp [hs1, Funcdata.newConstant, lt_of_getIn hv]
    · simp [hj, hs1, Funcdata.newConstant]
  have hst : ∀ w, w ≤ s.vbank.length → (s1.opSetInput o s.vbank.length i).storageOf w =
      if w = s.vbank.length then some (⟨s.glb.constantSpace, res⟩, x.size) else s.storageOf w := by
    intro w hw
    rw [storageOf_opSetInput (by simp [hs1, Funcdata.newConstant]; omega)]
    simp [hs1, Funcdata.newConstant]
  refine ⟨i, x, diff, code, res, hc, hadj, ?_, fun env => ?_, fun env j hj => ?_⟩
  · simp [hs1, Funcdata.newConstant, codeOf_opSetOpcode hop]
  · simp only [slotValue, hget, if_true, hst _ le_rfl, s.glb.constantSpace_type]
  · simp only [slotValue, hget, hj, if_false]
    cases hw : s.getIn o j with
    | none => rfl
    | some w =>
      have hwl : w < s.vbank.length := by
        have := h.vn_isSome hw
        by_contra hle; simp [vn_eq_none_of_le (Nat.le_of_not_lt hle)] at this
      simp only [hst w hwl.le, Nat.ne_of_lt hwl, if_false]

/-- A rewrite that is refused leaves the store as it was. -/
theorem replaceLessequal_of_false {t : Funcdata} (hr : s.replaceLessequal o = (t, false)) :
    t = s := by
  unfold replaceLessequal at hr
  split at hr
  · exact (Prod.mk.inj hr).1.symm
  · split at hr
    · exact (Prod.mk.inj hr).1.symm
    · simp at hr

/-- **The overflow the check misses.** For a signed `x <= #MAX` with a constant of one to
seven bytes in slot 1, `replaceLessequal` rewrites, and the comparison that is true for
every `x` becomes `x < #MIN`, false for every `x`. -/
theorem replaceLessequal_slessequal_top (h : ReadersMatch s) {x : Varnode}
    (hcode : s.codeOf o = .intSlessequal) (h0 : s.constantIn o 0 = none)
    (h1 : s.constantIn o 1 = some x) (hs : 1 ≤ x.size ∧ x.size < 8)
    (hoff : x.offset = 2 ^ (8 * x.size - 1) - 1) :
    (s.replaceLessequal o).2 = true ∧ ∀ env,
      s.compareValue env x.size o = true ∧
        (s.replaceLessequal o).1.compareValue env x.size o = false := by
  have hlc : s.lessequalConstant o = some (1, x, 1) := by
    unfold lessequalConstant; rw [h0, h1]; rfl
  have hadj := lessequalAdjust_top hs
  rw [← hoff] at hadj
  have htrue : (s.replaceLessequal o).2 = true := by
    unfold replaceLessequal; rw [hlc]; dsimp only; rw [hcode, hadj]
  obtain ⟨i, y, diff, code, res, hc, ha, hcode', hi, hj⟩ :=
    replaceLessequal_spec h (Prod.ext rfl htrue : s.replaceLessequal o = (_, true))
  obtain ⟨rfl, hyx, rfl⟩ : i = 1 ∧ y = x ∧ diff = 1 := by simpa [hlc] using hc.symm
  have hxy := hyx.symm
  subst hxy
  rw [hcode, hadj] at ha
  obtain ⟨rfl, rfl⟩ := Prod.mk.inj (Option.some.inj ha).symm
  refine ⟨htrue, fun env => ⟨?_, ?_⟩⟩
  · have hb := toSigned_bounds hs.1 (s.slotValue env o 0)
    have hv := toSigned_of_lt hs.1 (a := x.offset) (by rw [hoff, two_pow_size_eq hs.1]; omega)
    simp only [compareValue, hcode, evalCompare, slotValue_of_constantIn env h1, decide_eq_true_eq]
    rw [hv, if_pos (by rw [hoff]; omega)]
    omega
  · have hb := toSigned_bounds hs.1 ((s.replaceLessequal o).1.slotValue env o 0)
    have hv : toSigned x.size (2 ^ (8 * x.size - 1)) = -((2 ^ (8 * x.size - 1) : Nat) : Int) := by
      rw [toSigned_of_lt hs.1 (by rw [two_pow_size_eq hs.1]; omega), if_neg (lt_irrefl _),
        two_pow_size_eq hs.1]
      push_cast; omega
    simp only [compareValue, hcode', evalCompare, hi env, decide_eq_false_iff_not, not_lt, hv]
    omega

/-- A store holding one comparison `code` of a one-byte register with the one-byte
constant `c`. -/
def byteCompare (code : OpCode) (c : Nat) : Funcdata where
  glb := ⟨⟨0, .constant, 2 ^ 64 - 1, false, 1⟩, ⟨1, .internal, 2 ^ 64 - 1, false, 1⟩,
    ⟨2, .iop, 2 ^ 64 - 1, false, 1⟩, rfl, rfl, rfl⟩
  vbank := [some { loc := ⟨⟨3, .processor, 2 ^ 16 - 1, false, 1⟩, 0⟩, size := 1, descend := [0] },
    some { loc := ⟨⟨0, .constant, 2 ^ 64 - 1, false, 1⟩, c⟩, size := 1, descend := [0] }]
  obank := [some
    { code := code, addr := ⟨⟨3, .processor, 2 ^ 16 - 1, false, 1⟩, 0⟩,
      inrefs := [some 0, some 1] }]
  bblocks := []
  uniqId := 0

/-- The failing input: `r <=s #0x7f` on a one-byte register `r`, true for every `r`, is
rewritten to `r <s #0x80`, false for every `r`. -/
theorem replaceLessequal_slessequal_top_byte :
    ((byteCompare .intSlessequal 0x7f).replaceLessequal 0).2 = true ∧ ∀ env,
      (byteCompare .intSlessequal 0x7f).compareValue env 1 0 = true ∧
        ((byteCompare .intSlessequal 0x7f).replaceLessequal 0).1.compareValue env 1 0 = false :=
  replaceLessequal_slessequal_top (s := byteCompare .intSlessequal 0x7f) (o := 0)
    (x := { loc := ⟨⟨0, .constant, 2 ^ 64 - 1, false, 1⟩, 0x7f⟩, size := 1, descend := [0] })
    (Linked.of_check (by decide)).readers rfl rfl rfl (by decide) rfl

end Funcdata

end GhidraDec
