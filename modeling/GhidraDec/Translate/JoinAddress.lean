import GhidraDec.Translate.JoinSpace
import GhidraDec.Funcdata.InputVarnode

/-!
# Join Addresses

`AddrSpaceManager::constructJoinAddress` (`translate.cc`) names the value made of a most
significant piece at `hiaddr` and a least significant piece at `loaddr`, both in a processor or
spacebase space. When the pieces are contiguous, the value is the range starting at the earlier
of the two, the most significant piece in a big-endian space: that address is returned as is
in a spacebase space or the default space, and in another (register) space when the translator
names a register of the whole size there. Otherwise the two pieces get a join record, and the
value is named by the record's address in the `join` space. `constructFloatExtensionAddress`
does the same for a floating-point value held in a larger register: a single-piece join of the
logical size, unless the two sizes agree.

`Address::isContiguous` and `VarnodeData::operator<` are declared outside the sources and are
modelled from their definitions in `address.cc` and `pcoderaw.hh`. The translator's register
lookup is a parameter (whether it names a register of a given size at an address); the default
space and the join space are parameters too, and spaces are compared as values.

## Main results

* `constructJoinAddress_spec`: the result is the earlier address of two contiguous pieces, or
  the join-space address of a record of the two pieces;
* `constructJoinAddress_findJoin`: along a run of join requests that fit, the address returned
  for two pieces that fit resolves through `findJoin` to a record of exactly those two pieces,
  and the manager stays such a run.
-/

namespace GhidraDec

namespace Address

/-- `Address::isContiguous` (`address.cc`): this address holds the most significant `sz` bytes
and `loaddr` the least significant `losz` bytes of one range, in the byte order of the space. -/
def isContiguous (a : Address) (sz : Nat) (loaddr : Address) (losz : Nat) : Bool :=
  a.space == loaddr.space &&
    if a.space.bigEndian then a.space.wrapOffset (a.offset + sz) == loaddr.offset
    else a.space.wrapOffset (loaddr.offset + losz) == a.offset

end Address

namespace Translate

/-- `VarnodeData::operator<` (`pcoderaw.hh`): by space index, then by offset, then the larger
size first. -/
def varnodeDataLt (a b : VarnodeData) : Bool :=
  if a.space ≠ b.space then a.space < b.space
  else if a.offset ≠ b.offset then a.offset < b.offset
  else b.size < a.size

theorem varnodeDataLt_total {a b : VarnodeData} (h : a ≠ b) :
    varnodeDataLt a b = true ∨ varnodeDataLt b a = true := by
  unfold varnodeDataLt
  by_cases hs : a.space = b.space
  · by_cases ho : a.offset = b.offset
    · have hz : a.size ≠ b.size := fun hz => h (by cases a; cases b; simp_all)
      simp only [hs, ho, ne_eq, not_true_eq_false, if_false, decide_eq_true_eq]
      omega
    · simp only [hs, ho, ne_eq, not_true_eq_false, not_false_eq_true, Ne.symm ho, if_false,
        if_true, decide_eq_true_eq]
      omega
  · simp only [hs, Ne.symm hs, ne_eq, not_false_eq_true, if_true, decide_eq_true_eq]
    omega

/-- The piece of `size` bytes at `a`, its space named by index. -/
def pieceAt (a : Address) (size : Nat) : VarnodeData := ⟨a.space.index, a.offset, size⟩

variable (pieceLt : VarnodeData → VarnodeData → Bool) (joinspace defaultSpace : AddrSpace)
  (hasRegister : AddrSpace → Nat → Nat → Bool)

/-- `AddrSpaceManager::constructFloatExtensionAddress`. -/
def constructFloatExtensionAddress (m : JoinManager) (realaddr : Address)
    (realsize logicalsize : Nat) : Except String (JoinManager × Address) :=
  if logicalsize = realsize then .ok (m, realaddr)
  else do
    let (m, join) ← findAddJoin pieceLt m [pieceAt realaddr realsize] logicalsize
    pure (m, ⟨joinspace, join.offset⟩)

/-- `AddrSpaceManager::constructJoinAddress`, with the manager's join state `m`. -/
def constructJoinAddress (m : JoinManager) (hiaddr : Address) (hisz : Nat) (loaddr : Address)
    (losz : Nat) : Except String (JoinManager × Address) :=
  let hitp := hiaddr.space.type
  let lotp := loaddr.space.type
  if (hitp ≠ .spacebase ∧ hitp ≠ .processor) ∨ (lotp ≠ .spacebase ∧ lotp ≠ .processor) then
    .error "Trying to join in appropriate locations"
  else
    let usejoinspace := !(hitp == .spacebase || lotp == .spacebase ||
      hiaddr.space == defaultSpace || loaddr.space == defaultSpace)
    let earliest := if hiaddr.space.bigEndian then hiaddr else loaddr
    let named := hasRegister earliest.space earliest.offset (hisz + losz)
    if hiaddr.isContiguous hisz loaddr losz && (!usejoinspace || named) then .ok (m, earliest)
    else do
      let (m, join) ← findAddJoin pieceLt m [pieceAt hiaddr hisz, pieceAt loaddr losz] 0
      pure (m, ⟨joinspace, join.offset⟩)

/-! ### Records found again -/

variable {pieceLt}

section Total

variable (htri : ∀ a b : VarnodeData, a ≠ b → pieceLt a b = true ∨ pieceLt b a = true)
include htri

/-- Under a total order on pieces, two piece lists neither of which precedes the other are
equal. -/
theorem eq_of_piecesLt_false :
    ∀ {l₁ l₂ : List VarnodeData}, piecesLt pieceLt l₁ l₂ = false →
      piecesLt pieceLt l₂ l₁ = false → l₁ = l₂
  | [], [], _, _ => rfl
  | [], _ :: _, h, _ => by simp [piecesLt] at h
  | _ :: _, [], _, h => by simp [piecesLt] at h
  | a :: l₁, b :: l₂, h₁, h₂ => by
    by_cases hab : a = b
    · subst hab
      simp only [piecesLt, ne_eq, not_true_eq_false, if_false] at h₁ h₂
      rw [eq_of_piecesLt_false h₁ h₂]
    · simp only [piecesLt, ne_eq, hab, Ne.symm hab, not_false_eq_true, if_true] at h₁ h₂
      rcases htri a b hab with h | h <;> simp_all

/-- The record a request returns, found or made, has the pieces and size asked for. -/
theorem findAddJoin_record {m m' : JoinManager} {pieces : List VarnodeData}
    {logicalsize totalsize : Nat} {r : JoinRecord}
    (hs : joinSize pieces logicalsize = .ok totalsize)
    (h : findAddJoin pieceLt m pieces logicalsize = .ok (m', r)) :
    r.pieces = pieces ∧ r.size = totalsize := by
  rcases findAddJoin_spec hs h with ⟨hf, -⟩ | ⟨-, rfl, -⟩
  · have hr := List.find?_some hf
    simp only [Bool.and_eq_true, Bool.not_eq_true'] at hr
    obtain ⟨h₁, h₂⟩ := hr
    unfold JoinRecord.lt at h₁ h₂
    by_cases hsz : r.size = totalsize
    · simp only [hsz, ne_eq, not_true_eq_false, if_false] at h₁ h₂
      exact ⟨eq_of_piecesLt_false htri h₁ h₂, hsz⟩
    · simp only [hsz, Ne.symm hsz, ne_eq, not_false_eq_true, if_true, decide_eq_false_iff_not]
        at h₁ h₂
      omega
  · exact ⟨rfl, rfl⟩

end Total

/-! ### The three outcomes -/

variable {joinspace defaultSpace hasRegister}

/-- What `constructJoinAddress` returns: the earlier of two contiguous pieces, leaving the
manager alone, or the join-space address of the record a request for the two pieces gives. -/
theorem constructJoinAddress_spec {m m' : JoinManager} {hi lo a : Address} {hisz losz : Nat}
    (h : constructJoinAddress pieceLt joinspace defaultSpace hasRegister m hi hisz lo losz =
      .ok (m', a)) :
    (hi.isContiguous hisz lo losz = true ∧ m' = m ∧ a = if hi.space.bigEndian then hi else lo) ∨
      ∃ r, findAddJoin pieceLt m [pieceAt hi hisz, pieceAt lo losz] 0 = .ok (m', r) ∧
        a = ⟨joinspace, r.offset⟩ := by
  unfold constructJoinAddress at h
  cases hb : hi.space.bigEndian <;> simp only [hb, Bool.false_eq_true, ↓reduceIte] at h ⊢ <;>
  · split at h
    · cases h
    split at h
    next hjoin =>
      cases h
      exact .inl ⟨(Bool.and_eq_true _ _ ▸ hjoin).1, rfl, rfl⟩
    next =>
      rcases hf : findAddJoin pieceLt m [pieceAt hi hisz, pieceAt lo losz] 0 with e | ⟨m₁, r⟩
      · simp [hf, bind, Except.bind] at h
      · simp only [hf, bind, Except.bind, pure, Except.pure, Except.ok.injEq, Prod.mk.injEq]
          at h
        obtain ⟨rfl, rfl⟩ := h
        exact .inr ⟨r, rfl, rfl⟩

/-- **A join address resolves to its pieces.** Along a run of join requests that fit, with a
total order on pieces, a call for two pieces whose joined range fits returns either the earlier
of the two contiguous pieces, leaving the manager alone, or an address in the join space that
`findJoin` maps back to a record of exactly the two pieces and their total size; the manager it
leaves is again a run of fitting requests. -/
theorem constructJoinAddress_findJoin
    (htri : ∀ a b : VarnodeData, a ≠ b → pieceLt a b = true ∨ pieceLt b a = true)
    {m m' : JoinManager} {hi lo a : Address} {hisz losz : Nat}
    (hrun : Relation.ReflTransGen (FitStep pieceLt) ⟨[], 0⟩ m)
    (hfit : hisz + losz + 15 < 2 ^ 32) (hend : m.joinallocate + (hisz + losz) + 15 < 2 ^ 64)
    (h : constructJoinAddress pieceLt joinspace defaultSpace hasRegister m hi hisz lo losz =
      .ok (m', a)) :
    Relation.ReflTransGen (FitStep pieceLt) ⟨[], 0⟩ m' ∧
      ((hi.isContiguous hisz lo losz = true ∧ m' = m ∧
          a = if hi.space.bigEndian then hi else lo) ∨
        a.space = joinspace ∧ ∃ r, findJoin m' a.offset = .ok r ∧
          r.pieces = [pieceAt hi hisz, pieceAt lo losz] ∧ r.size = hisz + losz) := by
  rcases constructJoinAddress_spec h with ⟨hc, rfl, ha⟩ | ⟨r, hf, rfl⟩
  · exact ⟨hrun, .inl ⟨hc, rfl, ha⟩⟩
  have hs : joinSize [pieceAt hi hisz, pieceAt lo losz] 0 = .ok (hisz + losz) := by
    have hpos : hisz + losz ≠ 0 := by
      rintro h0
      simp [findAddJoin, joinSize, pieceAt, h0, bind, Except.bind] at hf
    simp only [joinSize, pieceAt, List.isEmpty_cons, List.length_cons, List.map_cons,
      List.map_nil, List.sum_cons, List.sum_nil, Nat.reducePow]
    rw [if_neg Bool.false_ne_true, if_neg (by simp), if_neg (by simp),
      Nat.add_zero, Nat.mod_eq_of_lt (show hisz + losz < 4294967296 by omega), if_neg hpos]
  have hrun' := hrun.tail ⟨_, 0, r, hisz + losz, hf, hs, hfit, by omega⟩
  obtain ⟨hp, hsz⟩ := findAddJoin_record htri hs hf
  exact ⟨hrun', .inr ⟨rfl, r, (findJoin_of_run hrun').2.1 r (mem_splitlist_findAddJoin hf), hp,
    hsz⟩⟩

/-- A little-endian register space, the default space and the join space of a small
translator. -/
def registerSpace : AddrSpace := ⟨2, .processor, 0xffff, false, 1⟩

def defaultRam : AddrSpace := ⟨1, .processor, 0xffffffff, false, 1⟩

def joinSpace : AddrSpace := ⟨5, .join, 0xffffffff, false, 1⟩

/-- The join manager after one join of two 4-byte registers. -/
def twoRegisterJoin : JoinManager := ⟨[⟨[⟨2, 0x10, 4⟩, ⟨2, 0x20, 4⟩], 0, 8⟩], 16⟩

theorem constructJoinAddress_findJoin_registers :
    (∀ a b : VarnodeData, a ≠ b → varnodeDataLt a b = true ∨ varnodeDataLt b a = true) ∧
      Relation.ReflTransGen (FitStep varnodeDataLt) ⟨[], 0⟩ ⟨[], 0⟩ ∧
      4 + 4 + 15 < 2 ^ 32 ∧ 0 + (4 + 4) + 15 < 2 ^ 64 ∧
      constructJoinAddress varnodeDataLt joinSpace defaultRam (fun _ _ _ => false) ⟨[], 0⟩
          ⟨registerSpace, 0x10⟩ 4 ⟨registerSpace, 0x20⟩ 4 = .ok (twoRegisterJoin, ⟨joinSpace, 0⟩) ∧
      Relation.ReflTransGen (FitStep varnodeDataLt) ⟨[], 0⟩ twoRegisterJoin ∧
      ((Address.isContiguous ⟨registerSpace, 0x10⟩ 4 ⟨registerSpace, 0x20⟩ 4 = true ∧
          twoRegisterJoin = ⟨[], 0⟩ ∧ (⟨joinSpace, 0⟩ : Address) = ⟨registerSpace, 0x20⟩) ∨
        joinSpace = joinSpace ∧ ∃ r, findJoin twoRegisterJoin 0 = .ok r ∧
          r.pieces = [pieceAt ⟨registerSpace, 0x10⟩ 4, pieceAt ⟨registerSpace, 0x20⟩ 4] ∧
          r.size = 4 + 4) :=
  have htri : ∀ a b : VarnodeData, a ≠ b → varnodeDataLt a b = true ∨ varnodeDataLt b a = true :=
    fun _ _ => varnodeDataLt_total
  have hc : constructJoinAddress varnodeDataLt joinSpace defaultRam (fun _ _ _ => false) ⟨[], 0⟩
      ⟨registerSpace, 0x10⟩ 4 ⟨registerSpace, 0x20⟩ 4 = .ok (twoRegisterJoin, ⟨joinSpace, 0⟩) :=
    rfl
  ⟨htri, .refl, by decide, by decide, hc,
    constructJoinAddress_findJoin htri .refl (by decide) (by decide) hc⟩

/-- **A float extension resolves to its register.** Along a run of join requests that fit, with
a total order on pieces, `constructFloatExtensionAddress` returns the register's address when
the two sizes agree, and otherwise an address in the join space that `findJoin` maps back to a
one-piece record of the whole register with the logical size; the manager it leaves is again
a run of fitting requests. -/
theorem constructFloatExtensionAddress_findJoin
    (htri : ∀ a b : VarnodeData, a ≠ b → pieceLt a b = true ∨ pieceLt b a = true)
    {m m' : JoinManager} {realaddr a : Address} {realsize logicalsize : Nat}
    (hrun : Relation.ReflTransGen (FitStep pieceLt) ⟨[], 0⟩ m)
    (hfit : logicalsize + 15 < 2 ^ 32) (hend : m.joinallocate + logicalsize + 15 < 2 ^ 64)
    (h : constructFloatExtensionAddress pieceLt joinspace m realaddr realsize logicalsize =
      .ok (m', a)) :
    Relation.ReflTransGen (FitStep pieceLt) ⟨[], 0⟩ m' ∧
      ((logicalsize = realsize ∧ m' = m ∧ a = realaddr) ∨
        a.space = joinspace ∧ ∃ r, findJoin m' a.offset = .ok r ∧
          r.pieces = [pieceAt realaddr realsize] ∧ r.size = logicalsize) := by
  unfold constructFloatExtensionAddress at h
  split_ifs at h with heq
  · cases h
    exact ⟨hrun, .inl ⟨heq, rfl, rfl⟩⟩
  rcases hf : findAddJoin pieceLt m [pieceAt realaddr realsize] logicalsize with e | ⟨m₁, r⟩
  · simp [hf, bind, Except.bind] at h
  simp only [hf, bind, Except.bind, pure, Except.pure, Except.ok.injEq, Prod.mk.injEq] at h
  obtain ⟨rfl, rfl⟩ := h
  have hs : joinSize [pieceAt realaddr realsize] logicalsize = .ok logicalsize := by
    by_cases h0 : logicalsize = 0
    · simp [findAddJoin, joinSize, h0, bind, Except.bind] at hf
    · simp [joinSize, h0]
  have hrun' := hrun.tail ⟨_, logicalsize, r, logicalsize, hf, hs, hfit, hend⟩
  obtain ⟨hp, hsz⟩ := findAddJoin_record htri hs hf
  exact ⟨hrun', .inr ⟨rfl, r, (findJoin_of_run hrun').2.1 r (mem_splitlist_findAddJoin hf), hp,
    hsz⟩⟩

/-- An 8-byte logical value in a 10-byte floating-point register. -/
theorem constructFloatExtensionAddress_findJoin_extended :
    Relation.ReflTransGen (FitStep varnodeDataLt) ⟨[], 0⟩ ⟨[], 0⟩ ∧ 8 + 15 < 2 ^ 32 ∧
      0 + 8 + 15 < 2 ^ 64 ∧
      constructFloatExtensionAddress varnodeDataLt joinSpace ⟨[], 0⟩ ⟨registerSpace, 0x40⟩ 10 8 =
        .ok (⟨[⟨[⟨2, 0x40, 10⟩], 0, 8⟩], 16⟩, ⟨joinSpace, 0⟩) ∧
      Relation.ReflTransGen (FitStep varnodeDataLt) ⟨[], 0⟩ ⟨[⟨[⟨2, 0x40, 10⟩], 0, 8⟩], 16⟩ ∧
      ((8 = 10 ∧ (⟨[⟨[⟨2, 0x40, 10⟩], 0, 8⟩], 16⟩ : JoinManager) = ⟨[], 0⟩ ∧
          (⟨joinSpace, 0⟩ : Address) = ⟨registerSpace, 0x40⟩) ∨
        joinSpace = joinSpace ∧ ∃ r, findJoin ⟨[⟨[⟨2, 0x40, 10⟩], 0, 8⟩], 16⟩ 0 = .ok r ∧
          r.pieces = [pieceAt ⟨registerSpace, 0x40⟩ 10] ∧ r.size = 8) :=
  ⟨.refl, by decide, by decide, rfl,
    constructFloatExtensionAddress_findJoin (fun _ _ => varnodeDataLt_total) .refl (by decide)
      (by decide) rfl⟩

end Translate

end GhidraDec
