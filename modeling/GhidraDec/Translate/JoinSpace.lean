import Mathlib.Data.List.GetD
import Mathlib.Logic.Relation
import GhidraDec.Pcode.PackedOp

/-!
# Join Records and the Join Space

A varnode split over several storage locations is represented by one address in the `join`
space: `AddrSpaceManager::findAddJoin` (`translate.cc`) looks the piece list up in
`splitset`, ordered by `JoinRecord::operator<`, and allocates a new record otherwise: its
offset is the running counter `joinallocate`, which then grows by the record's size rounded
up to a multiple of 16. `findJoin` maps a join offset back to its record by a binary search
over `splitlist`, the records in the order they were made.

Sizes are `uint4` in the source: the size of a join is the sum of its pieces' sizes, or the
logical size of a single piece, modulo `2 ^ 32`, and the rounding is computed in `uint4`
too. The order on pieces (`VarnodeData::operator<`) is declared outside the sources and is
a parameter; the counter `joinallocate` is a 64-bit value.

## Main results

* `findAddJoin_again`: after any run of requests, a request already made returns its record
  and leaves the manager alone;
* `findJoin_of_sorted`: while the offsets of `splitlist` increase strictly, `findJoin` maps
  the offset of every record to that record and throws on every other offset;
* `findJoin_of_run`: along requests whose rounded size fits in `uint4`, the ranges stay
  disjoint and in order, so `findJoin` finds every record;
* `findAddJoin_rounding_wrap`: a join of size `0xfffffff8` rounds to zero, so the next join
  gets the same offset and `findJoin` no longer finds it.
-/

namespace GhidraDec

namespace Translate

/-- A `JoinRecord`: the pieces, and the unified varnode's offset in the join space and
size. -/
structure JoinRecord where
  pieces : List VarnodeData
  offset : Nat
  size : Nat
  deriving DecidableEq, Repr

/-- The join state of an `AddrSpaceManager`: the records in the order they were made
(`splitlist`; `splitset` holds the same records) and the next free join offset. -/
structure JoinManager where
  splitlist : List JoinRecord
  joinallocate : Nat
  deriving DecidableEq, Repr

variable (pieceLt : VarnodeData → VarnodeData → Bool)

/-- The lexicographic part of `JoinRecord::operator<`: a proper prefix comes first. -/
def piecesLt : List VarnodeData → List VarnodeData → Bool
  | [], l => !l.isEmpty
  | _ :: _, [] => false
  | a :: l₁, b :: l₂ => if a ≠ b then pieceLt a b else piecesLt l₁ l₂

/-- `JoinRecord::operator<`: by size, then by pieces. -/
def JoinRecord.lt (r₁ r₂ : JoinRecord) : Bool :=
  if r₁.size ≠ r₂.size then r₁.size < r₂.size else piecesLt pieceLt r₁.pieces r₂.pieces

/-- `splitset.find`: the record that neither precedes nor follows the test record. -/
def findSplit (m : JoinManager) (test : JoinRecord) : Option JoinRecord :=
  m.splitlist.find? fun r => !JoinRecord.lt pieceLt r test && !JoinRecord.lt pieceLt test r

/-- The size of a join as `findAddJoin` computes it in `uint4`, after its checks. -/
def joinSize (pieces : List VarnodeData) (logicalsize : Nat) : Except String Nat :=
  if pieces.isEmpty then .error "Cannot create a join without pieces"
  else if pieces.length = 1 ∧ logicalsize = 0 then
    .error "Cannot create a single piece join without a logical size"
  else if logicalsize ≠ 0 then
    if pieces.length ≠ 1 then .error "Cannot specify logical size for multiple piece join"
    else .ok logicalsize
  else
    let totalsize := (pieces.map VarnodeData.size).sum % 2 ^ 32
    if totalsize = 0 then .error "Cannot create a zero size join" else .ok totalsize

/-- `(totalsize + 15) & ~0xf` in `uint4`: the next multiple of 16, modulo `2 ^ 32`. -/
def roundSize (totalsize : Nat) : Nat := (totalsize + 15) % 2 ^ 32 / 16 * 16

/-- `AddrSpaceManager::findAddJoin` (`logicalsize` a `uint4`). -/
def findAddJoin (m : JoinManager) (pieces : List VarnodeData) (logicalsize : Nat) :
    Except String (JoinManager × JoinRecord) := do
  let totalsize ← joinSize pieces logicalsize
  match findSplit pieceLt m ⟨pieces, 0, totalsize⟩ with
  | some r => pure (m, r)
  | none =>
    let newjoin : JoinRecord := ⟨pieces, m.joinallocate, totalsize⟩
    pure (⟨m.splitlist ++ [newjoin], (m.joinallocate + roundSize totalsize) % 2 ^ 64⟩, newjoin)

/-- The binary search of `findJoin` between `min` and `max`; `fuel` bounds the rounds. -/
def findJoinSearch (l : List JoinRecord) (offset : Nat) :
    Nat → Int → Int → Except String JoinRecord
  | 0, _, _ => .error "Unlinked join address"
  | fuel + 1, min, max =>
    if min ≤ max then
      let mid := (min + max) / 2
      let r := l.getD mid.toNat ⟨[], 0, 0⟩
      if r.offset = offset then .ok r
      else if r.offset < offset then findJoinSearch l offset fuel (mid + 1) max
      else findJoinSearch l offset fuel min (mid - 1)
    else .error "Unlinked join address"

/-- `AddrSpaceManager::findJoin`; each round narrows the range, so `length + 1` rounds do. -/
def findJoin (m : JoinManager) (offset : Nat) : Except String JoinRecord :=
  findJoinSearch m.splitlist offset (m.splitlist.length + 1) 0 (m.splitlist.length - 1)

/-- A successful request of the join manager. -/
def JoinStep (m m' : JoinManager) : Prop :=
  ∃ pieces logicalsize r, findAddJoin pieceLt m pieces logicalsize = .ok (m', r)

/-- A successful request whose size, rounded up, fits in `uint4` and whose range ends below
`2 ^ 64`. -/
def FitStep (m m' : JoinManager) : Prop :=
  ∃ pieces logicalsize r totalsize, findAddJoin pieceLt m pieces logicalsize = .ok (m', r) ∧
    joinSize pieces logicalsize = .ok totalsize ∧ totalsize + 15 < 2 ^ 32 ∧
      m.joinallocate + totalsize + 15 < 2 ^ 64

/-- The layout `findJoin` relies on: each record's range `[offset, offset + size)` is non-empty
and ends by the next record's offset, and every range ends by `joinallocate`. -/
structure JoinManager.Laid (m : JoinManager) : Prop where
  ordered : m.splitlist.Pairwise fun r₁ r₂ => r₁.offset + r₁.size ≤ r₂.offset
  bounded : ∀ r ∈ m.splitlist, 0 < r.size ∧ r.offset + r.size ≤ m.joinallocate

/-! ### Looking a join up again -/

variable {pieceLt}

theorem piecesLt_irrefl : ∀ l : List VarnodeData, piecesLt pieceLt l l = false
  | [] => rfl
  | a :: l => by simp [piecesLt, piecesLt_irrefl l]

theorem findSplit_append {m : JoinManager} {test r : JoinRecord}
    (h : findSplit pieceLt m test = some r) (l : List JoinRecord) :
    findSplit pieceLt ⟨m.splitlist ++ l, m.joinallocate⟩ test = some r := by
  simp only [findSplit] at h ⊢
  rw [List.find?_append, h]; rfl

/-- What a request does: a request already made returns its record and leaves the manager
alone; a new one appends its record, placed at `joinallocate`, which grows by the rounded
size. -/
theorem findAddJoin_spec {m m' : JoinManager} {pieces : List VarnodeData}
    {logicalsize totalsize : Nat} {r : JoinRecord}
    (hs : joinSize pieces logicalsize = .ok totalsize)
    (h : findAddJoin pieceLt m pieces logicalsize = .ok (m', r)) :
    findSplit pieceLt m ⟨pieces, 0, totalsize⟩ = some r ∧ m' = m ∨
      findSplit pieceLt m ⟨pieces, 0, totalsize⟩ = none ∧ r = ⟨pieces, m.joinallocate, totalsize⟩ ∧
        m' = ⟨m.splitlist ++ [r], (m.joinallocate + roundSize totalsize) % 2 ^ 64⟩ := by
  simp only [findAddJoin, hs, bind, Except.bind] at h
  cases hf : findSplit pieceLt m ⟨pieces, 0, totalsize⟩ with
  | some r' => rw [hf] at h; cases h; exact .inl ⟨rfl, rfl⟩
  | none => rw [hf] at h; cases h; exact .inr ⟨rfl, rfl, rfl⟩

/-- After a successful request, `splitset` answers the same request with the record
returned, and the records made before are kept in their order. -/
theorem findSplit_of_findAddJoin {m m' : JoinManager} {pieces : List VarnodeData}
    {logicalsize totalsize : Nat} {r : JoinRecord}
    (hs : joinSize pieces logicalsize = .ok totalsize)
    (h : findAddJoin pieceLt m pieces logicalsize = .ok (m', r)) :
    findSplit pieceLt m' ⟨pieces, 0, totalsize⟩ = some r ∧
      ∃ l, m'.splitlist = m.splitlist ++ l := by
  rcases findAddJoin_spec hs h with ⟨hf, rfl⟩ | ⟨hf, rfl, rfl⟩
  · exact ⟨hf, [], (List.append_nil _).symm⟩
  · refine ⟨?_, _, rfl⟩
    simp only [findSplit] at hf ⊢
    rw [List.find?_append, hf]
    simp [JoinRecord.lt, piecesLt_irrefl]

/-- **A join once made is returned again**: after any run of successful requests, the same
pieces and logical size give the same record, and the manager is left alone. -/
theorem findAddJoin_again {m₀ m₁ m₂ : JoinManager} {pieces : List VarnodeData}
    {logicalsize : Nat} {r : JoinRecord}
    (h : findAddJoin pieceLt m₀ pieces logicalsize = .ok (m₁, r))
    (hrun : Relation.ReflTransGen (JoinStep pieceLt) m₁ m₂) :
    findAddJoin pieceLt m₂ pieces logicalsize = .ok (m₂, r) := by
  cases hs : joinSize pieces logicalsize with
  | error e => simp [findAddJoin, hs, bind, Except.bind] at h
  | ok totalsize =>
    have hf₂ : findSplit pieceLt m₂ ⟨pieces, 0, totalsize⟩ = some r := by
      induction hrun with
      | refl => exact (findSplit_of_findAddJoin hs h).1
      | tail _ hstep ih =>
        obtain ⟨pieces', logicalsize', _, hstep⟩ := hstep
        cases hs' : joinSize pieces' logicalsize' with
        | error e => simp [findAddJoin, hs', bind, Except.bind] at hstep
        | ok _ =>
          obtain ⟨l, hl⟩ := (findSplit_of_findAddJoin hs' hstep).2
          have := findSplit_append ih l
          rwa [← hl] at this
    simp [findAddJoin, hs, hf₂, bind, Except.bind, pure, Except.pure]

/-! ### The binary search -/

section Search

variable {l : List JoinRecord} {off : Nat}

/-- Where no record in range has the offset, the search throws. -/
theorem findJoinSearch_absent : ∀ (fuel : Nat) (lo hi : Int), 0 ≤ lo → hi < l.length →
    (∀ (k : Nat) (hk : k < l.length), lo ≤ k → k ≤ hi → l[k].offset ≠ off) →
      findJoinSearch l off fuel lo hi = .error "Unlinked join address"
  | 0, _, _, _, _, _ => rfl
  | fuel + 1, lo, hi, hlo, hhi, habs => by
    dsimp only [findJoinSearch]
    split_ifs with hle heq hlt
    · have hmid : ((lo + hi) / 2).toNat < l.length := by omega
      rw [List.getD_eq_getElem _ _ hmid] at heq
      exact absurd heq (habs _ hmid (by omega) (by omega))
    · exact findJoinSearch_absent fuel _ _ (by omega) hhi
        fun k hk h₁ h₂ => habs k hk (by omega) h₂
    · exact findJoinSearch_absent fuel _ _ hlo (by omega)
        fun k hk h₁ h₂ => habs k hk h₁ (by omega)
    · rfl

theorem offset_lt_offset_iff (hs : l.Pairwise (·.offset < ·.offset)) {i j : Nat}
    (hi : i < l.length) (hj : j < l.length) : l[i].offset < l[j].offset ↔ i < j := by
  refine ⟨fun h => ?_, List.pairwise_iff_getElem.1 hs i j hi hj⟩
  rcases Nat.lt_trichotomy i j with hij | rfl | hji
  · exact hij
  · exact absurd h (Nat.lt_irrefl _)
  · exact absurd (List.pairwise_iff_getElem.1 hs j i hj hi hji) (Nat.lt_asymm h)

/-- On strictly increasing offsets, the search finds every record in range, given more rounds
than the range is wide. -/
theorem findJoinSearch_found (hs : l.Pairwise (·.offset < ·.offset)) {k : Nat}
    (hk : k < l.length) : ∀ (fuel : Nat) (lo hi : Int), 0 ≤ lo → hi < l.length → lo ≤ k →
      k ≤ hi → hi - lo < fuel → findJoinSearch l l[k].offset fuel lo hi = .ok l[k]
  | 0, _, _, _, _, h₁, h₂, hf => by omega
  | fuel + 1, lo, hi, hlo, hhi, h₁, h₂, hf => by
    have hmid : ((lo + hi) / 2).toNat < l.length := by omega
    dsimp only [findJoinSearch]
    rw [if_pos (by omega), List.getD_eq_getElem _ _ hmid]
    split_ifs with heq hlt
    · have : ((lo + hi) / 2).toNat = k := by
        have := offset_lt_offset_iff hs hmid hk
        have := offset_lt_offset_iff hs hk hmid
        omega
      simp only [this]
    · have := (offset_lt_offset_iff hs hmid hk).1 hlt
      exact findJoinSearch_found hs hk fuel _ _ (by omega) hhi (by omega) h₂ (by omega)
    · have := (offset_lt_offset_iff hs hk hmid).1 (by omega)
      exact findJoinSearch_found hs hk fuel _ _ hlo (by omega) h₁ (by omega) (by omega)

end Search

/-- `findJoin` over strictly increasing offsets: every record is found at its offset, and
every other offset throws. -/
theorem findJoin_of_sorted {m : JoinManager} (hs : m.splitlist.Pairwise (·.offset < ·.offset)) :
    (∀ r ∈ m.splitlist, findJoin m r.offset = .ok r) ∧
      ∀ off, (∀ r ∈ m.splitlist, r.offset ≠ off) →
        findJoin m off = .error "Unlinked join address" := by
  refine ⟨fun r hr => ?_, fun off hoff => ?_⟩
  · obtain ⟨k, hk, rfl⟩ := List.mem_iff_getElem.1 hr
    exact findJoinSearch_found hs hk _ _ _ le_rfl (by omega) (by omega) (by omega) (by omega)
  · exact findJoinSearch_absent _ _ _ le_rfl (by omega)
      fun k hk _ _ => hoff _ (List.getElem_mem hk)

/-! ### The layout of the join space -/

theorem joinSize_pos {pieces : List VarnodeData} {logicalsize totalsize : Nat}
    (h : joinSize pieces logicalsize = .ok totalsize) : 0 < totalsize := by
  simp only [joinSize] at h
  split_ifs at h <;> cases h <;> omega

/-- Without a `uint4` wrap the rounding lands between the size and 15 more. -/
theorem roundSize_bounds {totalsize : Nat} (h : totalsize + 15 < 2 ^ 32) :
    totalsize ≤ roundSize totalsize ∧ roundSize totalsize ≤ totalsize + 15 := by
  unfold roundSize
  rw [Nat.mod_eq_of_lt h]
  omega

theorem JoinManager.Laid.sorted {m : JoinManager} (h : m.Laid) :
    m.splitlist.Pairwise (·.offset < ·.offset) :=
  h.ordered.imp_of_mem fun ha _ hab => by have := (h.bounded _ ha).1; omega

theorem laid_empty : (⟨[], 0⟩ : JoinManager).Laid :=
  ⟨.nil, fun _ h => absurd h (List.not_mem_nil _)⟩

/-- A request that fits keeps the layout: the new record starts at `joinallocate`, past every
range made, and `joinallocate` moves past its end. -/
theorem JoinManager.Laid.fitStep {m m' : JoinManager} (h : m.Laid) (hstep : FitStep pieceLt m m') :
    m'.Laid := by
  obtain ⟨pieces, logicalsize, r, totalsize, hf, hs, hts, hend⟩ := hstep
  have hpos := joinSize_pos hs
  have hround := roundSize_bounds hts
  rcases findAddJoin_spec hs hf with ⟨_, rfl⟩ | ⟨_, rfl, rfl⟩
  · exact h
  · have hnew : (m.joinallocate + roundSize totalsize) % 2 ^ 64 =
        m.joinallocate + roundSize totalsize := Nat.mod_eq_of_lt (by omega)
    refine ⟨List.pairwise_append.2 ⟨h.ordered, List.pairwise_singleton _ _, ?_⟩, ?_⟩
    · intro a ha b hb
      rw [List.mem_singleton.1 hb]
      exact (h.bounded a ha).2
    · intro a ha
      dsimp only
      rw [hnew]
      rcases List.mem_append.1 ha with ha | ha
      · have := h.bounded a ha; omega
      · rw [List.mem_singleton.1 ha]; dsimp only; omega

/-- **Joins are found again by offset**: along every run of fitting requests from the empty
manager, the records' ranges are disjoint and in order, `findJoin` maps the offset of every
record made to that record, and it throws on every other offset. -/
theorem findJoin_of_run {m : JoinManager}
    (hrun : Relation.ReflTransGen (FitStep pieceLt) ⟨[], 0⟩ m) :
    m.Laid ∧ (∀ r ∈ m.splitlist, findJoin m r.offset = .ok r) ∧
      ∀ off, (∀ r ∈ m.splitlist, r.offset ≠ off) →
        findJoin m off = .error "Unlinked join address" := by
  have hl : m.Laid := by
    induction hrun with
    | refl => exact laid_empty
    | tail _ hstep ih => exact ih.fitStep hstep
  exact ⟨hl, findJoin_of_sorted hl.sorted⟩

/-- Every record a request returns is in `splitlist`, where `findJoin` looks. -/
theorem mem_splitlist_findAddJoin {m m' : JoinManager} {pieces : List VarnodeData}
    {logicalsize : Nat} {r : JoinRecord}
    (h : findAddJoin pieceLt m pieces logicalsize = .ok (m', r)) : r ∈ m'.splitlist := by
  cases hs : joinSize pieces logicalsize with
  | error e => simp [findAddJoin, hs, bind, Except.bind] at h
  | ok _ => exact List.mem_of_find?_eq_some (findSplit_of_findAddJoin hs h).1

/-- A join of size `0xfffffff8` rounds to zero in `uint4`, so the next join is placed at the
same offset, inside the first one's range, and `findJoin` maps that offset to the first. -/
theorem findAddJoin_rounding_wrap (pieceLt : VarnodeData → VarnodeData → Bool) :
    findAddJoin pieceLt ⟨[], 0⟩ [⟨1, 0, 4⟩] 0xfffffff8 =
        .ok (⟨[⟨[⟨1, 0, 4⟩], 0, 0xfffffff8⟩], 0⟩, ⟨[⟨1, 0, 4⟩], 0, 0xfffffff8⟩) ∧
      findAddJoin pieceLt ⟨[⟨[⟨1, 0, 4⟩], 0, 0xfffffff8⟩], 0⟩ [⟨1, 8, 4⟩] 16 =
        .ok (⟨[⟨[⟨1, 0, 4⟩], 0, 0xfffffff8⟩, ⟨[⟨1, 8, 4⟩], 0, 16⟩], 16⟩,
          ⟨[⟨1, 8, 4⟩], 0, 16⟩) ∧
      findJoin ⟨[⟨[⟨1, 0, 4⟩], 0, 0xfffffff8⟩, ⟨[⟨1, 8, 4⟩], 0, 16⟩], 16⟩ 0 =
        .ok ⟨[⟨1, 0, 4⟩], 0, 0xfffffff8⟩ :=
  ⟨rfl, rfl, rfl⟩

end Translate

end GhidraDec
