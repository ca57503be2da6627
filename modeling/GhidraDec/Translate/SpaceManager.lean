import Mathlib.Data.List.OfFn
import Mathlib.Logic.Relation
import GhidraDec.Pcode.Store

/-!
# The Address Space Manager

`AddrSpaceManager` (`translate.cc`) owns the address spaces of a processor. They are added
one at a time during initialization by `insertSpace`, which caches each space of a special
type (`const`, `unique`, `fspec`, `join`, `iop`, and the spacebase space named `stack`) in a
slot of its own and checks a set of naming and indexing conventions; `setDefaultSpace` then
picks the default space. `restoreXmlSpaces` builds the translator's manager from the
`<spaces>` tag, `copySpaces` copies it into the architecture's, and
`Architecture::restoreFromSpec` adds the `fspec`, `iop` and `join` spaces. Spaces are found
by name, by shortcut character, and in index order by `getNextSpaceInOrder`.

The space class itself is declared outside the sources: a space is modelled by the fields
the manager reads. A slot of the manager holds the position in `baselist` of the space it
points to. A failed call throws, and the model drops the manager with it.

## Main results

* `reachable_wellFormed`: every manager built by successful calls keeps each space at its
  index, caches in each slot the only space of its type, keeps the reserved names of the
  special spaces, and lets a later space repeat an earlier name only when it is special;
* `getSpaceByName_of_reachable`: `getSpaceByName` finds every space by its name, except a
  special space behind an earlier processor or spacebase space of the same name;
* `getNextSpaceInOrder_walk`: from the null pointer, `getNextSpaceInOrder` runs through
  `baselist` in order, then gives the end marker and the null pointer, and never reads past
  the end of `baselist`;
* `copySpaces_of_reachable`: copying a manager with a default space into an empty one
  rebuilds it exactly;
* `assignShortcut_fresh`: with fewer than 25 spaces, `assignShortcut` gives a character no
  space has, and `getSpaceByShortcut` then finds the new space by it;
* `restoreFromSpec_spaces`: after the translator's spaces are read from XML, the
  architecture's copy and its `fspec`, `iop` and `join` spaces are always accepted.
-/

namespace GhidraDec

namespace Translate

/-- An address space as `AddrSpaceManager` reads it: its name, type, index and shortcut
character; the index of the space an overlay lies over (`OverlaySpace::getBaseSpace`),
`none` for a space that is no overlay; and the `overlaybase` flag, set on a space some
overlay lies over. -/
structure Space where
  name : String
  type : SpaceType
  index : Nat
  shortcut : Char
  baseSpace : Option Nat := none
  overlaybase : Bool := false
  deriving DecidableEq, Repr

/-- The spaces of an `AddrSpaceManager`: `baselist`, and the slots caching the default space
and the spaces of special type. -/
structure AddrSpaceManager where
  baselist : List Space := []
  defaultspace : Option Nat := none
  constantspace : Option Nat := none
  iopspace : Option Nat := none
  fspecspace : Option Nat := none
  joinspace : Option Nat := none
  stackspace : Option Nat := none
  uniqspace : Option Nat := none
  deriving DecidableEq, Repr

namespace AddrSpaceManager

variable (m : AddrSpaceManager)

/-- The mark `insertSpace` sets on the base space of an overlay. -/
def markOverlay (spc : Space) (l : List Space) : List Space :=
  match spc.baseSpace with
  | some b => l.modify (fun s => { s with overlaybase := true }) b
  | none => l

/-- The processor branch of `insertSpace`, which a spacebase space falls through to: an
overlay marks its base space, and a space named like one already in `baselist` is a
duplicate. -/
def processorCase (spc : Space) : AddrSpaceManager × Bool :=
  let m := { m with baselist := markOverlay spc m.baselist }
  (m, m.baselist.any (·.name == spc.name))

/-- The `switch` of `AddrSpaceManager::insertSpace`: the manager with the space cached, and
the flags `nametype_mismatch` and `duplicatedefine`. -/
def insertSwitch (spc : Space) : Except String (AddrSpaceManager × Bool × Bool) :=
  match spc.type with
  | .constant =>
    if m.baselist.length ≠ 0 then .error "const space must be initialized first"
    else .ok ({ m with constantspace := some spc.index }, spc.name != "const", false)
  | .internal =>
    .ok ({ m with uniqspace := some spc.index }, spc.name != "unique", m.uniqspace.isSome)
  | .fspec =>
    .ok ({ m with fspecspace := some spc.index }, spc.name != "fspec", m.fspecspace.isSome)
  | .join => .ok ({ m with joinspace := some spc.index }, spc.name != "join", m.joinspace.isSome)
  | .iop => .ok ({ m with iopspace := some spc.index }, spc.name != "iop", m.iopspace.isSome)
  | .spacebase =>
    let (m, stackdup) :=
      if spc.name = "stack" then ({ m with stackspace := some spc.index }, m.stackspace.isSome)
      else (m, false)
    let (m, namedup) := m.processorCase spc
    .ok (m, false, stackdup || namedup)
  | .processor =>
    let (m, namedup) := m.processorCase spc
    .ok (m, false, namedup)

/-- `AddrSpaceManager::insertSpace`. -/
def insertSpace (spc : Space) : Except String AddrSpaceManager :=
  match m.insertSwitch spc with
  | .error e => .error e
  | .ok (m, nametypeMismatch, duplicatedefine) =>
    if nametypeMismatch then .error ("Space " ++ spc.name ++ " was initialized with wrong type")
    else if duplicatedefine then
      .error ("Space " ++ spc.name ++ " was initialized more than once")
    else if m.baselist.length ≠ spc.index then
      .error ("Space " ++ spc.name ++ " was initialized with a bad id")
    else .ok { m with baselist := m.baselist ++ [spc] }

/-- `AddrSpaceManager::setDefaultSpace`. -/
def setDefaultSpace (index : Nat) : Except String AddrSpaceManager :=
  if m.defaultspace.isSome then .error "Default space std::set multiple times"
  else if m.baselist.length ≤ index then .error "Bad index for default space"
  else .ok { m with defaultspace := some index }

/-- `getDefaultSpace`: the space the default slot points to. -/
def getDefaultSpace : Option Space := m.defaultspace.bind (m.baselist[·]?)

/-- `AddrSpaceManager::getSpaceByName`: the first space of the name. -/
def getSpaceByName (nm : String) : Option Space := m.baselist.find? (·.name == nm)

/-- `AddrSpaceManager::getSpaceByShortcut`: the first space with the shortcut. -/
def getSpaceByShortcut (sc : Char) : Option Space := m.baselist.find? (·.shortcut == sc)

/-- The shortcut `assignShortcut` tries first for a type. -/
def typeShortcut : SpaceType → Char
  | .constant => '#'
  | .processor => 'r'
  | .spacebase => 's'
  | .internal => 'u'
  | .fspec => 'f'
  | .join => 'j'
  | .iop => 'i'

/-- The character `assignShortcut` tries for a code: `(char) i`, with `'a'` read as `'%'`. -/
def shortcutOf (i : Nat) : Char := if Char.ofNat i = 'a' then '%' else Char.ofNat i

/-- The loop of `assignShortcut` over the codes `is`: the shortcut is returned once no space
has it, and is replaced otherwise by the character of the next code. -/
def shortcutLoop : List Nat → Char → Char
  | [], shortcut => shortcut
  | i :: is, shortcut =>
    if m.baselist.all (·.shortcut != shortcut) then shortcut
    else shortcutLoop is (shortcutOf i)

/-- `AddrSpaceManager::assignShortcut`: the loop runs over the codes `0x61` to `0x79`. -/
def assignShortcut (tp : SpaceType) : Char :=
  m.shortcutLoop (List.range' 0x61 (0x7a - 0x61)) (typeShortcut tp)

/-- `AddrSpaceManager::copySpaces`: insert every space of `op2` in order, then take its
default space. The source dereferences a null pointer where `op2` has no default space. -/
def copySpaces (op2 : AddrSpaceManager) : Except String AddrSpaceManager := do
  let m ← op2.baselist.foldlM insertSpace m
  match op2.getDefaultSpace with
  | some spc => m.setDefaultSpace spc.index
  | none => .error "null default space"

end AddrSpaceManager

/-- What `getNextSpaceInOrder` takes and returns: the null pointer, a space, or the
all-ones pointer `~0` that ends the order. -/
inductive SpaceRef
  | null
  | space (spc : Space)
  | last
  deriving DecidableEq, Repr

namespace AddrSpaceManager

variable (m : AddrSpaceManager)

/-- `AddrSpaceManager::getNextSpaceInOrder`, `none` where the source reads past the end of
`baselist`; the comparison `index < baselist.size() - 1` is made in `size_t`. -/
def getNextSpaceInOrder : SpaceRef → Option SpaceRef
  | .null => m.baselist[0]?.map .space
  | .last => some .null
  | .space spc =>
    if spc.index < (m.baselist.length + 2 ^ 64 - 1) % 2 ^ 64 then
      m.baselist[spc.index + 1]?.map .space
    else some .last

end AddrSpaceManager

/-- The type `restoreXmlSpace` gives the space of a tag: `space_base` makes a
`SpacebaseSpace`, `space_unique` a `UniqueSpace`, and any other tag a processor space,
`space_overlay` an overlay. -/
def restoreXmlSpace (tp : String) (el : Space) : Space :=
  if tp = "space_base" then { el with type := .spacebase, baseSpace := none }
  else if tp = "space_unique" then { el with type := .internal, baseSpace := none }
  else if tp = "space_overlay" then { el with type := .processor }
  else { el with type := .processor, baseSpace := none }

namespace AddrSpaceManager

variable (m : AddrSpaceManager)

/-- `AddrSpaceManager::restoreXmlSpaces`: the constant space first, then the space of each
child tag, then the default space by name. Each child is its tag name and the fields
`AddrSpace::restoreXml` reads from it; the constant space gets the shortcut `sc`. The source
dereferences a null pointer where no space has the default name. -/
def restoreXmlSpaces (sc : Char) (children : List (String × Space)) (defname : String) :
    Except String AddrSpaceManager := do
  let m ← m.insertSpace ⟨"const", .constant, 0, sc, none, false⟩
  let m ← (children.map fun el => restoreXmlSpace el.1 el.2).foldlM insertSpace m
  match m.getSpaceByName defname with
  | some spc => m.setDefaultSpace spc.index
  | none => .error "null default space"

end AddrSpaceManager

/-- The address-space steps of `Architecture::restoreFromSpec`, on the architecture's empty
manager: copy the translator's spaces, then insert the `fspec`, `iop` and `join` spaces, each
at index `numSpaces()`, with the shortcuts their constructors give them. -/
def restoreFromSpec (trans : AddrSpaceManager) (scf sci scj : Char) :
    Except String AddrSpaceManager := do
  let m ← ({} : AddrSpaceManager).copySpaces trans
  let m ← m.insertSpace ⟨"fspec", .fspec, m.baselist.length, scf, none, false⟩
  let m ← m.insertSpace ⟨"iop", .iop, m.baselist.length, sci, none, false⟩
  m.insertSpace ⟨"join", .join, m.baselist.length, scj, none, false⟩

namespace AddrSpaceManager

/-! ### What one insertion does -/

/-- The name `insertSpace` demands of a space of special type; a processor or spacebase space
may have any name. -/
def reservedName : SpaceType → Option String
  | .constant => some "const"
  | .internal => some "unique"
  | .fspec => some "fspec"
  | .join => some "join"
  | .iop => some "iop"
  | .processor | .spacebase => none

/-- The slot caching the space of a special type. -/
def slot (m : AddrSpaceManager) : SpaceType → Option Nat
  | .constant => m.constantspace
  | .internal => m.uniqspace
  | .fspec => m.fspecspace
  | .join => m.joinspace
  | .iop => m.iopspace
  | .processor | .spacebase => none

/-- The checks of `insertSpace`, met: the index is the next position, a special space has
its reserved name and an empty slot (the constant space an empty manager), any other space a
name no space has yet, and a spacebase space named `stack` an empty stack slot. -/
structure Admits (m : AddrSpaceManager) (spc : Space) : Prop where
  index : spc.index = m.baselist.length
  reserved : ∀ r, reservedName spc.type = some r → spc.name = r
  constant : spc.type = .constant → m.baselist = []
  slot_free : spc.type ≠ .constant → m.slot spc.type = none
  name_free : reservedName spc.type = none → ∀ q ∈ m.baselist, q.name ≠ spc.name
  stack_free : spc.type = .spacebase → spc.name = "stack" → m.stackspace = none

/-- The manager `insertSpace` returns, seen through `baselist` and the slots: the space
appended (an overlay's base marked first), and cached in the slot of its type. -/
structure Views (m : AddrSpaceManager) (spc : Space) (m' : AddrSpaceManager) : Prop where
  baselist : m'.baselist =
    (if (reservedName spc.type).isSome then m.baselist else markOverlay spc m.baselist) ++ [spc]
  slot : ∀ t, m'.slot t =
    if t = spc.type ∧ (reservedName t).isSome then some spc.index else m.slot t
  stackspace : m'.stackspace =
    if spc.type = .spacebase ∧ spc.name = "stack" then some spc.index else m.stackspace
  defaultspace : m'.defaultspace = m.defaultspace

theorem length_markOverlay (spc : Space) (l : List Space) :
    (markOverlay spc l).length = l.length := by
  unfold markOverlay; split <;> simp

theorem getElem_markOverlay (spc : Space) (l : List Space) (i : Nat) (h : i < l.length)
    {h' : i < (markOverlay spc l).length} :
    (markOverlay spc l)[i] =
      if spc.baseSpace = some i then { l[i] with overlaybase := true } else l[i] := by
  cases hb : spc.baseSpace <;> simp [markOverlay, hb, List.getElem_modify]

theorem map_markOverlay {α : Type} (f : Space → α)
    (hf : ∀ s : Space, f { s with overlaybase := true } = f s)
    (spc : Space) (l : List Space) : (markOverlay spc l).map f = l.map f := by
  refine List.ext_getElem (by simp [length_markOverlay]) fun i h₁ h₂ => ?_
  simp only [List.getElem_map, getElem_markOverlay _ _ _ (by simpa using h₂)]
  split <;> simp [hf]

variable {m m' : AddrSpaceManager} {spc : Space}

theorem any_markOverlay_name (spc : Space) (l : List Space) (n : String) :
    (markOverlay spc l).any (·.name == n) = l.any (·.name == n) := by
  have h := map_markOverlay Space.name (fun _ => rfl) spc l
  apply Bool.eq_iff_iff.2
  simp only [List.any_eq_true, beq_iff_eq]
  rw [← List.mem_map (f := Space.name), h, List.mem_map]

theorem insertSpace_views (h : m.insertSpace spc = .ok m') : Admits m spc ∧ Views m spc m' := by
  cases ht : spc.type
  case constant =>
    by_cases h₀ : m.baselist.length = 0
    swap
    · simp [insertSpace, insertSwitch, ht, h₀] at h
    simp only [insertSpace, insertSwitch, ht, h₀, ne_eq, not_true_eq_false, Bool.false_eq_true,
      if_false] at h
    split_ifs at h with h₂ h₁
    cases h
    refine ⟨⟨h₁.symm.trans h₀.symm, fun r hr => ?_, fun _ => List.length_eq_zero.1 h₀,
      fun hc => (hc ht).elim, fun hn => ?_, fun hc => (nomatch ht.symm.trans hc)⟩,
      ⟨by rw [ht]; rfl, fun t => by rw [ht]; cases t <;> rfl, by rw [ht]; rfl, rfl⟩⟩
    · rw [ht] at hr; cases hr; simpa using h₂
    · rw [ht] at hn; cases hn
  case processor =>
    simp only [insertSpace, insertSwitch, processorCase, ht, any_markOverlay_name,
      Bool.false_eq_true, if_false] at h
    split_ifs at h with h₂ h₃
    cases h
    refine ⟨⟨by rw [← length_markOverlay spc]; exact (not_not.1 h₃).symm, fun r hr => ?_,
      fun hc => (nomatch ht.symm.trans hc), fun _ => by rw [ht]; rfl,
      fun _ q hq hn => h₂ (List.any_eq_true.2 ⟨q, hq, by simp [hn]⟩),
      fun hc => (nomatch ht.symm.trans hc)⟩,
      ⟨by rw [ht]; rfl, fun t => by rw [ht]; cases t <;> rfl, by rw [ht]; rfl, rfl⟩⟩
    rw [ht] at hr; cases hr
  case spacebase =>
    by_cases hs : spc.name = "stack" <;>
      simp only [insertSpace, insertSwitch, processorCase, ht, hs, any_markOverlay_name,
        Bool.false_eq_true, Bool.or_eq_true, false_or, if_true, if_false] at h <;>
      split_ifs at h with h₂ h₃ <;> cases h
    · refine ⟨⟨by rw [← length_markOverlay spc]; exact (not_not.1 h₃).symm,
        fun r hr => (by rw [ht] at hr; cases hr), fun hc => (nomatch ht.symm.trans hc),
        fun _ => by rw [ht]; rfl,
        fun _ q hq hn => h₂ (.inr (List.any_eq_true.2 ⟨q, hq, by simp [hn, hs]⟩)),
        fun _ _ => Option.not_isSome_iff_eq_none.1 fun h' => h₂ (.inl h')⟩,
        ⟨by rw [ht]; rfl, fun t => by rw [ht]; cases t <;> rfl, by simp [ht, hs], rfl⟩⟩
    · refine ⟨⟨by rw [← length_markOverlay spc]; exact (not_not.1 h₃).symm,
        fun r hr => (by rw [ht] at hr; cases hr), fun hc => (nomatch ht.symm.trans hc),
        fun _ => by rw [ht]; rfl,
        fun _ q hq hn => h₂ (List.any_eq_true.2 ⟨q, hq, by simp [hn]⟩),
        fun _ hst => (hs hst).elim⟩,
        ⟨by rw [ht]; rfl, fun t => by rw [ht]; cases t <;> rfl, by simp [hs], rfl⟩⟩
  all_goals
    simp only [insertSpace, insertSwitch, ht] at h
    split_ifs at h with h₁ h₂ h₃
    cases h
    refine ⟨⟨(not_not.1 h₃).symm, fun r hr => ?_, fun hc => (nomatch ht.symm.trans hc),
      fun _ => by rw [ht]; exact Option.not_isSome_iff_eq_none.1 h₂, fun hn => ?_,
      fun hc => (nomatch ht.symm.trans hc)⟩,
      ⟨by rw [ht]; rfl, fun t => by rw [ht]; cases t <;> rfl, by rw [ht]; rfl, rfl⟩⟩
    · rw [ht] at hr; cases hr; simpa using h₁
    · rw [ht] at hn; cases hn

/-- A space that meets the checks is accepted. -/
theorem insertSpace_of_admits (ha : Admits m spc) : ∃ m', m.insertSpace spc = .ok m' := by
  have hi := ha.index.symm
  have hnf : reservedName spc.type = none → m.baselist.any (·.name == spc.name) = false :=
    fun hn => List.any_eq_false.2 fun q hq => by simpa using ha.name_free hn q hq
  cases ht : spc.type
  case constant =>
    have h0 := ha.constant ht
    have hr := ha.reserved "const" (by rw [ht]; rfl)
    simp [insertSpace, insertSwitch, ht, h0, hr, ← hi]
  case processor =>
    simp [insertSpace, insertSwitch, processorCase, ht, any_markOverlay_name,
      hnf (by rw [ht]; rfl), length_markOverlay, hi]
  case spacebase =>
    have hn := hnf (by rw [ht]; rfl)
    by_cases hs : spc.name = "stack"
    · rw [hs] at hn
      simp [insertSpace, insertSwitch, processorCase, ht, hs, ha.stack_free ht hs,
        any_markOverlay_name, hn, length_markOverlay, hi]
    · simp [insertSpace, insertSwitch, processorCase, ht, hs, any_markOverlay_name, hn,
        length_markOverlay, hi]
  all_goals
    have hr := ha.reserved _ (by rw [ht]; rfl)
    have hs := ha.slot_free (by rw [ht]; decide)
    rw [ht] at hs
    simp only [slot] at hs
    simp [insertSpace, insertSwitch, ht, hr, hs, hi]

/-- The conventions `insertSpace` enforces, as they hold of a whole manager. -/
structure WellFormed (m : AddrSpaceManager) : Prop where
  index_eq : ∀ i (h : i < m.baselist.length), m.baselist[i].index = i
  slot_iff : ∀ t i, m.slot t = some i ↔
    (reservedName t).isSome ∧ ∃ h : i < m.baselist.length, m.baselist[i].type = t
  stack_iff : ∀ i, m.stackspace = some i ↔
    ∃ h : i < m.baselist.length, m.baselist[i].type = .spacebase ∧ m.baselist[i].name = "stack"
  reserved : ∀ i (h : i < m.baselist.length) r, reservedName m.baselist[i].type = some r →
    m.baselist[i].name = r
  constant_first : ∀ i (h : i < m.baselist.length), m.baselist[i].type = .constant → i = 0
  names : ∀ i j (hij : i < j) (hj : j < m.baselist.length),
    m.baselist[i].name = m.baselist[j].name → (reservedName m.baselist[j].type).isSome
  overlay : ∀ j (hj : j < m.baselist.length) b (hb : b < j),
    reservedName m.baselist[j].type = none →
    m.baselist[j].baseSpace = some b → m.baselist[b].overlaybase = true
  default_lt : ∀ d, m.defaultspace = some d → d < m.baselist.length

theorem Views.length (hv : Views m spc m') : m'.baselist.length = m.baselist.length + 1 := by
  rw [hv.baselist]; split <;> simp [length_markOverlay]

theorem Views.getElem_self (hv : Views m spc m') {h : m.baselist.length < m'.baselist.length} :
    m'.baselist[m.baselist.length] = spc := by
  simp only [hv.baselist]
  rw [List.getElem_append_right (by split <;> simp [length_markOverlay])]
  split <;> simp [length_markOverlay]

/-- An older space is kept, its `overlaybase` flag perhaps set. -/
theorem Views.getElem_of_lt (hv : Views m spc m') {i : Nat} (hi : i < m.baselist.length)
    {hi' : i < m'.baselist.length} :
    m'.baselist[i] = m.baselist[i] ∨
      m'.baselist[i] = { m.baselist[i] with overlaybase := true } := by
  simp only [hv.baselist]
  rw [List.getElem_append_left (by split <;> simp [length_markOverlay, hi])]
  split
  · exact .inl rfl
  · rw [getElem_markOverlay _ _ _ hi]; split
    · exact .inr rfl
    · exact .inl rfl

/-- What the mark leaves alone of an older space. -/
theorem Views.proj (hv : Views m spc m') {α : Type} (f : Space → α)
    (hf : ∀ s : Space, f { s with overlaybase := true } = f s) {i : Nat}
    (hi : i < m.baselist.length) {hi' : i < m'.baselist.length} :
    f m'.baselist[i] = f m.baselist[i] := by
  rcases hv.getElem_of_lt hi with h | h <;> rw [h]
  exact hf _

theorem Views.overlaybase_of_lt (hv : Views m spc m') {i : Nat} (hi : i < m.baselist.length)
    (h : m.baselist[i].overlaybase = true) {hi' : i < m'.baselist.length} :
    m'.baselist[i].overlaybase = true := by
  rcases hv.getElem_of_lt hi with h' | h' <;> rw [h']
  exact h

/-- An overlay inserted marks its base space. -/
theorem Views.overlaybase_base (hv : Views m spc m') (hn : reservedName spc.type = none) {b : Nat}
    (hb : spc.baseSpace = some b) (hlt : b < m.baselist.length) {hb' : b < m'.baselist.length} :
    m'.baselist[b].overlaybase = true := by
  simp only [hv.baselist, hn, Option.isSome_none, Bool.false_eq_true, if_false]
  rw [List.getElem_append_left (by rwa [length_markOverlay]), getElem_markOverlay _ _ _ hlt,
    if_pos hb]

/-- A space of special type is the first of its type. -/
theorem Admits.not_lt_of_slot (ha : Admits m spc) (hw : WellFormed m)
    (hs : (reservedName spc.type).isSome) {i : Nat} (hi : i < m.baselist.length)
    (hty : m.baselist[i].type = spc.type) : False := by
  by_cases hc : spc.type = .constant
  · simp [ha.constant hc] at hi
  · have := ha.slot_free hc
    rw [(hw.slot_iff _ i).2 ⟨hs, hi, hty⟩] at this
    cases this

section Insert

variable (hw : WellFormed m) (ha : Admits m spc) (hv : Views m spc m')
include hw ha hv

theorem WellFormed.insert : WellFormed m' where
  index_eq i h := by
    rcases Nat.lt_succ_iff_lt_or_eq.1 (hv.length ▸ h) with hi | rfl
    · rw [hv.proj Space.index (fun _ => rfl) hi, hw.index_eq i hi]
    · rw [hv.getElem_self]; exact ha.index
  slot_iff t i := by
    rw [hv.slot t]
    split_ifs with ht
    · obtain ⟨rfl, hs⟩ := ht
      refine ⟨?_, ?_⟩
      · rintro ⟨⟩
        refine ⟨hs, by rw [hv.length, ha.index]; omega, ?_⟩
        simp only [ha.index, hv.getElem_self]
      · rintro ⟨-, h, hty⟩
        rcases Nat.lt_succ_iff_lt_or_eq.1 (hv.length ▸ h) with hi | rfl
        · rw [hv.proj Space.type (fun _ => rfl) hi] at hty
          exact (ha.not_lt_of_slot hw hs hi hty).elim
        · rw [ha.index]
    · rw [hw.slot_iff]
      refine ⟨fun ⟨hs, hi, hty⟩ => ⟨hs, by rw [hv.length]; omega, ?_⟩,
        fun ⟨hs, h, hty⟩ => ?_⟩
      · rw [hv.proj Space.type (fun _ => rfl) hi]; exact hty
      · rcases Nat.lt_succ_iff_lt_or_eq.1 (hv.length ▸ h) with hi | rfl
        · exact ⟨hs, hi, by rwa [hv.proj Space.type (fun _ => rfl) hi] at hty⟩
        · rw [hv.getElem_self] at hty
          exact (ht ⟨hty.symm, hs⟩).elim
  stack_iff i := by
    rw [hv.stackspace]
    split_ifs with hst
    · refine ⟨?_, ?_⟩
      · rintro ⟨⟩
        refine ⟨by rw [hv.length, ha.index]; omega, ?_⟩
        simp only [ha.index, hv.getElem_self]; exact hst
      · rintro ⟨h, hty, hnm⟩
        rcases Nat.lt_succ_iff_lt_or_eq.1 (hv.length ▸ h) with hi | rfl
        · rw [hv.proj Space.type (fun _ => rfl) hi] at hty
          rw [hv.proj Space.name (fun _ => rfl) hi] at hnm
          have := ha.stack_free hst.1 hst.2
          rw [(hw.stack_iff i).2 ⟨hi, hty, hnm⟩] at this
          cases this
        · rw [ha.index]
    · rw [hw.stack_iff]
      refine ⟨fun ⟨hi, hty, hnm⟩ => ⟨by rw [hv.length]; omega, ?_⟩,
        fun ⟨h, hty, hnm⟩ => ?_⟩
      · rw [hv.proj Space.type (fun _ => rfl) hi, hv.proj Space.name (fun _ => rfl) hi]
        exact ⟨hty, hnm⟩
      · rcases Nat.lt_succ_iff_lt_or_eq.1 (hv.length ▸ h) with hi | rfl
        · rw [hv.proj Space.type (fun _ => rfl) hi] at hty
          rw [hv.proj Space.name (fun _ => rfl) hi] at hnm
          exact ⟨hi, hty, hnm⟩
        · rw [hv.getElem_self] at hty hnm
          exact (hst ⟨hty, hnm⟩).elim
  reserved i h r := by
    rcases Nat.lt_succ_iff_lt_or_eq.1 (hv.length ▸ h) with hi | rfl
    · rw [hv.proj Space.type (fun _ => rfl) hi, hv.proj Space.name (fun _ => rfl) hi]
      exact hw.reserved i hi r
    · rw [hv.getElem_self]; exact ha.reserved r
  constant_first i h hty := by
    rcases Nat.lt_succ_iff_lt_or_eq.1 (hv.length ▸ h) with hi | rfl
    · rw [hv.proj Space.type (fun _ => rfl) hi] at hty
      exact hw.constant_first i hi hty
    · rw [hv.getElem_self] at hty
      simp [ha.constant hty]
  names i j hij hj hnm := by
    rcases Nat.lt_succ_iff_lt_or_eq.1 (hv.length ▸ hj) with hj' | rfl
    · rw [hv.proj Space.name (fun _ => rfl) (hij.trans hj'),
        hv.proj Space.name (fun _ => rfl) hj'] at hnm
      rw [hv.proj Space.type (fun _ => rfl) hj']
      exact hw.names i j hij hj' hnm
    · rw [hv.proj Space.name (fun _ => rfl) hij, hv.getElem_self] at hnm
      rw [hv.getElem_self, Option.isSome_iff_ne_none]
      exact fun hn => ha.name_free hn _ (List.getElem_mem hij) hnm
  overlay j hj b hb hn hbase := by
    rcases Nat.lt_succ_iff_lt_or_eq.1 (hv.length ▸ hj) with hj' | rfl
    · rw [hv.proj Space.type (fun _ => rfl) hj'] at hn
      rw [hv.proj Space.baseSpace (fun _ => rfl) hj'] at hbase
      exact hv.overlaybase_of_lt (hb.trans hj') (hw.overlay j hj' b hb hn hbase)
    · rw [hv.getElem_self] at hn hbase
      exact hv.overlaybase_base hn hbase hb
  default_lt d hd := by
    rw [hv.defaultspace] at hd
    rw [hv.length]
    exact Nat.lt_succ_of_lt (hw.default_lt d hd)

end Insert

theorem WellFormed.setDefaultSpace (hw : WellFormed m) {i : Nat}
    (h : m.setDefaultSpace i = .ok m') : WellFormed m' := by
  simp only [AddrSpaceManager.setDefaultSpace] at h
  split_ifs at h with h₁ h₂
  cases h
  exact { hw with default_lt := fun d hd => by cases hd; exact Nat.lt_of_not_le h₂ }

theorem wellFormed_empty : WellFormed {} where
  index_eq _ h := absurd h (Nat.not_lt_zero _)
  slot_iff t i := by cases t <;> simp [slot, reservedName]
  stack_iff i := by simp
  reserved _ h := absurd h (Nat.not_lt_zero _)
  constant_first _ h := absurd h (Nat.not_lt_zero _)
  names _ _ _ hj := absurd hj (Nat.not_lt_zero _)
  overlay _ hj := absurd hj (Nat.not_lt_zero _)
  default_lt _ hd := by cases hd

/-- One successful call of the initialization: a space inserted, or the default space set. -/
inductive Step : AddrSpaceManager → AddrSpaceManager → Prop
  | insertSpace {m m' : AddrSpaceManager} (spc : Space) : m.insertSpace spc = .ok m' → Step m m'
  | setDefaultSpace {m m' : AddrSpaceManager} (index : Nat) :
    m.setDefaultSpace index = .ok m' → Step m m'

/-- A manager built from the empty one by successful calls. -/
def Reachable (m : AddrSpaceManager) : Prop := Relation.ReflTransGen Step {} m

theorem Reachable.wellFormed (h : Reachable m) : WellFormed m := by
  induction h with
  | refl => exact wellFormed_empty
  | tail _ hstep ih =>
    cases hstep with
    | insertSpace spc h =>
      obtain ⟨ha, hv⟩ := insertSpace_views h
      exact ih.insert ha hv
    | setDefaultSpace index h => exact ih.setDefaultSpace h

theorem Reachable.insertSpace (hm : Reachable m) (h : m.insertSpace spc = .ok m') : Reachable m' :=
  hm.tail (.insertSpace spc h)

theorem Reachable.foldlM : ∀ {l : List Space} {m m' : AddrSpaceManager}, Reachable m →
    l.foldlM AddrSpaceManager.insertSpace m = .ok m' → Reachable m'
  | [], _, _, hm, h => by cases h; exact hm
  | spc :: l, m, _, hm, h => by
    rw [List.foldlM_cons] at h
    cases h₁ : m.insertSpace spc with
    | error e => rw [h₁] at h; cases h
    | ok m₁ =>
      rw [h₁] at h
      exact (hm.insertSpace h₁).foldlM h

/-- **The conventions hold of every manager built.** Along every run of successful
`insertSpace` and `setDefaultSpace` calls from the empty manager, each space sits at its
index, each special slot points at the only space of its type, special spaces keep their
reserved names, the constant space is first, a later space repeats an earlier name only when
it is special, an overlay inserted marks its base space, and the default slot points into
`baselist`. -/
theorem reachable_wellFormed (h : Reachable m) : WellFormed m := h.wellFormed

/-- A translator whose processor space is named `iop`. -/
def iopTranslator : AddrSpaceManager where
  baselist := [⟨"const", .constant, 0, '#', none, false⟩,
    ⟨"iop", .processor, 1, 'r', none, false⟩]
  defaultspace := some 1
  constantspace := some 0

/-- A manager in which a processor space has taken the name `iop` before the `iop` space was
inserted: both were accepted. -/
def iopShadowed : AddrSpaceManager where
  baselist := [⟨"const", .constant, 0, '#', none, false⟩,
    ⟨"iop", .processor, 1, 'r', none, false⟩, ⟨"iop", .iop, 2, 'i', none, false⟩]
  defaultspace := some 1
  constantspace := some 0
  iopspace := some 2

theorem iopShadowed_reachable : Reachable iopShadowed :=
  .tail (.tail (.tail (.tail .refl (.insertSpace ⟨"const", .constant, 0, '#', none, false⟩ rfl))
    (.insertSpace ⟨"iop", .processor, 1, 'r', none, false⟩ rfl)) (.setDefaultSpace 1 rfl))
    (.insertSpace ⟨"iop", .iop, 2, 'i', none, false⟩ rfl)

theorem reachable_wellFormed_iopShadowed : Reachable iopShadowed ∧ WellFormed iopShadowed :=
  ⟨iopShadowed_reachable, reachable_wellFormed iopShadowed_reachable⟩

/-! ### Looking spaces up -/

theorem reservedName_inj {t t' : SpaceType} {r : String} (h : reservedName t = some r)
    (h' : reservedName t' = some r) : t = t' := by
  cases t <;> cases t' <;> simp only [reservedName, Option.some.injEq, reduceCtorEq] at h h' <;>
    first | rfl | (subst h; exact absurd h' (by decide))

/-- `find?` stops no later than any element that passes. -/
theorem find?_le {α : Type} {l : List α} {p : α → Bool} {j : Nat} (hj : j < l.length)
    (hp : p l[j]) : ∃ k, ∃ hk : k ≤ j, l.find? p = some l[k] := by
  obtain ⟨x, hx⟩ :=
    Option.isSome_iff_exists.1 (List.find?_isSome.2 ⟨_, List.getElem_mem hj, hp⟩)
  obtain ⟨-, k, hk, rfl, hfirst⟩ := List.find?_eq_some_iff_getElem.1 hx
  exact ⟨k, Nat.le_of_not_lt fun hlt => by simpa [hp] using hfirst j hlt, hx⟩

/-- **Spaces are found by name.** In every manager built, `getSpaceByName` returns each space
for its own name, unless the space is of a special type and an earlier processor or spacebase
space has taken its reserved name: `insertSpace` checks the names of processor and spacebase
spaces against the spaces before them, but a special space only against its slot. -/
theorem getSpaceByName_of_reachable (hm : Reachable m) {spc : Space} (hspc : spc ∈ m.baselist) :
    m.getSpaceByName spc.name = some spc ∨
      (reservedName spc.type).isSome ∧ ∃ q ∈ m.baselist, q.index < spc.index ∧
        reservedName q.type = none ∧ m.getSpaceByName spc.name = some q := by
  have hw := hm.wellFormed
  obtain ⟨j, hj, rfl⟩ := List.getElem_of_mem hspc
  obtain ⟨k, hk, hfind⟩ := find?_le hj (p := (·.name == m.baselist[j].name)) (by simp)
  rcases Nat.lt_or_eq_of_le hk with hlt | rfl
  · have hname : m.baselist[k].name = m.baselist[j].name := by
      simpa using List.find?_some hfind
    have hs := hw.names k j hlt hj hname
    refine .inr ⟨hs, _, List.getElem_mem _, by rwa [hw.index_eq, hw.index_eq], ?_, hfind⟩
    obtain ⟨r, hr⟩ := Option.isSome_iff_exists.1 hs
    cases hk' : reservedName m.baselist[k].type with
    | none => rfl
    | some r' =>
      have hrr : r' = r := by rw [← hw.reserved k _ r' hk', hname, hw.reserved j hj r hr]
      subst hrr
      have h₁ := (hw.slot_iff _ k).2 ⟨by rw [hk']; rfl, _, rfl⟩
      have h₂ := (hw.slot_iff _ j).2 ⟨by rw [hk']; rfl, hj, (reservedName_inj hk' hr).symm⟩
      rw [h₁] at h₂
      cases h₂
      exact absurd hlt (lt_irrefl _)
  · exact .inl hfind

/-- The `iop` space of `iopShadowed` is not found by its name: the processor space is. -/
theorem getSpaceByName_iopShadowed : Reachable iopShadowed ∧
    (⟨"iop", .iop, 2, 'i', none, false⟩ : Space) ∈ iopShadowed.baselist ∧
    (iopShadowed.getSpaceByName "iop" = some ⟨"iop", .iop, 2, 'i', none, false⟩ ∨
      (reservedName SpaceType.iop).isSome ∧ ∃ q ∈ iopShadowed.baselist, q.index < 2 ∧
        reservedName q.type = none ∧ iopShadowed.getSpaceByName "iop" = some q) :=
  ⟨iopShadowed_reachable, by decide, getSpaceByName_of_reachable iopShadowed_reachable
    (show (⟨"iop", .iop, 2, 'i', none, false⟩ : Space) ∈ iopShadowed.baselist by decide)⟩

/-! ### Spaces in index order -/

theorem size_sub_one {n : Nat} (hn : 0 < n) (h64 : n < 2 ^ 64) :
    (n + 2 ^ 64 - 1) % 2 ^ 64 = n - 1 := by
  rw [show n + 2 ^ 64 - 1 = n - 1 + 2 ^ 64 by omega, Nat.add_mod_right, Nat.mod_eq_of_lt (by omega)]

/-- From a space, the next in `baselist`, or the end marker after the last. -/
theorem getNextSpaceInOrder_space (hw : WellFormed m) (h64 : m.baselist.length < 2 ^ 64)
    {k : Nat} (hk : k < m.baselist.length) :
    m.getNextSpaceInOrder (.space m.baselist[k]) =
      if h : k + 1 < m.baselist.length then some (.space m.baselist[k + 1]) else some .last := by
  simp only [getNextSpaceInOrder, hw.index_eq k hk, size_sub_one (by omega) h64]
  split_ifs with h₁ h₂ h₂
  · simp [List.getElem?_eq_getElem h₂]
  all_goals first | omega | rfl

/-- **The order of spaces.** In every manager built, with a space at least, the calls of
`getNextSpaceInOrder` from the null pointer give the spaces of `baselist` in order, then the
end marker `~0`, then the null pointer again; none reads past the end of `baselist`. -/
theorem getNextSpaceInOrder_walk (hm : Reachable m) (hn : 0 < m.baselist.length)
    (h64 : m.baselist.length < 2 ^ 64) :
    (∀ k (hk : k < m.baselist.length),
      (fun r => Option.bind r m.getNextSpaceInOrder)^[k + 1] (some .null) =
        some (.space m.baselist[k])) ∧
      (fun r => Option.bind r m.getNextSpaceInOrder)^[m.baselist.length + 1] (some .null) =
        some .last ∧
      (fun r => Option.bind r m.getNextSpaceInOrder)^[m.baselist.length + 2] (some .null) =
        some .null := by
  have hw := hm.wellFormed
  have hwalk : ∀ k (hk : k < m.baselist.length),
      (fun r => Option.bind r m.getNextSpaceInOrder)^[k + 1] (some .null) =
        some (.space m.baselist[k]) := by
    intro k hk
    induction k with
    | zero => simp [getNextSpaceInOrder, List.getElem?_eq_getElem hn]
    | succ k ih =>
      rw [Function.iterate_succ_apply', ih (by omega), Option.some_bind,
        getNextSpaceInOrder_space hw h64 (by omega), dif_pos hk]
  obtain ⟨k, hk⟩ : ∃ k, m.baselist.length = k + 1 :=
    ⟨_, (Nat.succ_pred_eq_of_pos hn).symm⟩
  have hlast : (fun r => Option.bind r m.getNextSpaceInOrder)^[m.baselist.length + 1]
      (some .null) = some .last := by
    rw [Function.iterate_succ_apply', hk, hwalk k (by omega), Option.some_bind,
      getNextSpaceInOrder_space hw h64, dif_neg (by omega)]
  refine ⟨hwalk, hlast, ?_⟩
  rw [Function.iterate_succ_apply', hlast]
  rfl

theorem getNextSpaceInOrder_walk_iopShadowed : Reachable iopShadowed ∧
    0 < iopShadowed.baselist.length ∧ iopShadowed.baselist.length < 2 ^ 64 ∧
    (∀ k (hk : k < iopShadowed.baselist.length),
      (fun r => Option.bind r iopShadowed.getNextSpaceInOrder)^[k + 1] (some .null) =
        some (.space iopShadowed.baselist[k])) ∧
      (fun r => Option.bind r iopShadowed.getNextSpaceInOrder)^[iopShadowed.baselist.length + 1]
        (some .null) = some .last ∧
      (fun r => Option.bind r iopShadowed.getNextSpaceInOrder)^[iopShadowed.baselist.length + 2]
        (some .null) = some .null :=
  ⟨iopShadowed_reachable, by decide, by decide,
    getNextSpaceInOrder_walk iopShadowed_reachable (by decide) (by decide)⟩

/-! ### Copying a manager -/

/-- The first `j` spaces of `m` and the slots that point among them: what `copySpaces` has
built after `j` insertions. -/
def prefixOf (m : AddrSpaceManager) (j : Nat) : AddrSpaceManager where
  baselist := m.baselist.take j
  constantspace := m.constantspace.filter (· < j)
  iopspace := m.iopspace.filter (· < j)
  fspecspace := m.fspecspace.filter (· < j)
  joinspace := m.joinspace.filter (· < j)
  stackspace := m.stackspace.filter (· < j)
  uniqspace := m.uniqspace.filter (· < j)

theorem slot_prefixOf (m : AddrSpaceManager) (j : Nat) (t : SpaceType) :
    (m.prefixOf j).slot t = (m.slot t).filter (· < j) := by
  cases t <;> rfl

/-- A manager is fixed by `baselist`, the default slot, the slots of the special types and the
stack slot. -/
theorem ext_slots {m₁ m₂ : AddrSpaceManager} (hb : m₁.baselist = m₂.baselist)
    (hd : m₁.defaultspace = m₂.defaultspace) (hs : ∀ t, m₁.slot t = m₂.slot t)
    (hst : m₁.stackspace = m₂.stackspace) : m₁ = m₂ := by
  have h₁ := hs .constant
  have h₂ := hs .iop
  have h₃ := hs .fspec
  have h₄ := hs .join
  have h₅ := hs .internal
  cases m₁
  cases m₂
  simp_all only [slot]

/-- Two spaces of one special type are one space. -/
theorem WellFormed.eq_of_slot (hw : WellFormed m) {t : SpaceType} {i j : Nat}
    (h : m.slot t = some i) (hj : j < m.baselist.length) (hty : m.baselist[j].type = t) :
    i = j := by
  have hs := ((hw.slot_iff t i).1 h).1
  rw [(hw.slot_iff t j).2 ⟨hs, hj, hty⟩] at h
  exact (Option.some.inj h).symm

theorem mark_eq_self {s : Space} (h : s.overlaybase = true) :
    { s with overlaybase := true } = s := by
  cases s
  cases h
  rfl

/-- The mark changes nothing where the base is marked already. -/
theorem markOverlay_eq_self {spc : Space} {l : List Space}
    (h : ∀ b (hb : b < l.length), spc.baseSpace = some b → l[b].overlaybase = true) :
    markOverlay spc l = l := by
  refine List.ext_getElem (length_markOverlay spc l) fun i h₁ h₂ => ?_
  rw [getElem_markOverlay _ _ _ h₂]
  split_ifs with hb
  · exact mark_eq_self (h i h₂ hb)
  · rfl

theorem Admits.of_prefixOf (hw : WellFormed m) {j : Nat} (hj : j < m.baselist.length) :
    Admits (m.prefixOf j) m.baselist[j] where
  index := by simp [prefixOf, hw.index_eq j hj]; omega
  reserved := hw.reserved j hj
  constant hc := by
    cases hw.constant_first j hj hc
    rfl
  slot_free _ := by
    rw [slot_prefixOf]
    cases h : m.slot m.baselist[j].type with
    | none => rfl
    | some i => simp [hw.eq_of_slot h hj rfl]
  name_free hn q hq hname := by
    obtain ⟨i, hi, rfl⟩ := List.getElem_of_mem hq
    simp only [prefixOf, List.getElem_take] at hname
    have hi' : i < j := by simp [prefixOf] at hi; omega
    have hs := hw.names i j hi' hj hname
    rw [hn] at hs
    cases hs
  stack_free hsb hst := by
    simp [prefixOf, (hw.stack_iff j).2 ⟨hj, hsb, hst⟩]

theorem filter_lt_succ {i j : Nat} (h : i ≠ j) :
    (some i).filter (· < j) = (some i).filter (· < j + 1) := by
  simp only [Option.filter, decide_eq_true_eq]
  split_ifs <;> first | rfl | omega

/-- The step of `copySpaces`: the next space of a well-formed manager extends the prefix. -/
theorem insertSpace_prefixOf (hw : WellFormed m) {j : Nat} (hj : j < m.baselist.length) :
    (m.prefixOf j).insertSpace m.baselist[j] = .ok (m.prefixOf (j + 1)) := by
  obtain ⟨m', h⟩ := insertSpace_of_admits (Admits.of_prefixOf hw hj)
  obtain ⟨-, hv⟩ := insertSpace_views h
  rw [h]
  congr 1
  refine ext_slots ?_ hv.defaultspace (fun t => ?_) ?_
  · rw [hv.baselist]
    simp only [prefixOf]
    rw [List.take_succ, List.getElem?_eq_getElem hj, Option.toList_some]
    congr 1
    split_ifs with hs
    · rfl
    · refine markOverlay_eq_self fun b hb hbase => ?_
      simp only [List.length_take] at hb
      simp only [List.getElem_take]
      exact hw.overlay j hj b (by omega) (Option.not_isSome_iff_eq_none.1 hs) hbase
  · rw [hv.slot, slot_prefixOf, slot_prefixOf, hw.index_eq j hj]
    split_ifs with ht
    · obtain ⟨rfl, hs⟩ := ht
      rw [(hw.slot_iff _ j).2 ⟨hs, hj, rfl⟩]
      simp [Option.filter]
    · cases hsl : m.slot t with
      | none => rfl
      | some i =>
        obtain ⟨hs, hi, hty⟩ := (hw.slot_iff t i).1 hsl
        exact filter_lt_succ
          (show i ≠ j from fun hij => ht ⟨by subst hij; exact hty.symm, hs⟩)
  · rw [hv.stackspace, hw.index_eq j hj]
    simp only [prefixOf]
    split_ifs with hst
    · rw [(hw.stack_iff j).2 ⟨hj, hst⟩]
      simp [Option.filter]
    · cases hsl : m.stackspace with
      | none => rfl
      | some i =>
        obtain ⟨hi, hty, hnm⟩ := (hw.stack_iff i).1 hsl
        exact filter_lt_succ
          (show i ≠ j from fun hij => hst (by subst hij; exact ⟨hty, hnm⟩))

theorem foldlM_prefixOf (hw : WellFormed m) : ∀ k j, j + k = m.baselist.length →
    (m.baselist.drop j).foldlM insertSpace (m.prefixOf j) = .ok (m.prefixOf m.baselist.length)
  | 0, j, h => by
    rw [List.drop_of_length_le (by omega), ← h]
    rfl
  | k + 1, j, h => by
    rw [List.drop_eq_getElem_cons (by omega), List.foldlM_cons, insertSpace_prefixOf hw (by omega)]
    exact foldlM_prefixOf hw k (j + 1) (by omega)

theorem filter_lt_zero (o : Option Nat) : o.filter (· < 0) = none := by
  cases o <;> rfl

theorem prefixOf_zero (m : AddrSpaceManager) : m.prefixOf 0 = {} :=
  ext_slots rfl rfl (fun t => by rw [slot_prefixOf, filter_lt_zero]; cases t <;> rfl)
    (filter_lt_zero _)

theorem prefixOf_length (hw : WellFormed m) :
    m.prefixOf m.baselist.length = { m with defaultspace := none } := by
  refine ext_slots (List.take_length _) rfl (fun t => ?_) ?_
  · rw [slot_prefixOf, show ({ m with defaultspace := none } : AddrSpaceManager).slot t = m.slot t
      by cases t <;> rfl]
    cases h : m.slot t with
    | none => rfl
    | some i => simp [Option.filter, ((hw.slot_iff t i).1 h).2.1]
  · show m.stackspace.filter _ = m.stackspace
    cases h : m.stackspace with
    | none => rfl
    | some i => simp [Option.filter, ((hw.stack_iff i).1 h).1]

/-- `copySpaces` from the empty manager rebuilds a well-formed manager with a default space. -/
theorem copySpaces_eq (hw : WellFormed m) {d : Nat} (hd : m.defaultspace = some d) :
    ({} : AddrSpaceManager).copySpaces m = .ok m := by
  have hfold := foldlM_prefixOf hw m.baselist.length 0 (by omega)
  rw [List.drop_zero, prefixOf_zero, prefixOf_length hw] at hfold
  have hdl := hw.default_lt d hd
  simp only [copySpaces, hfold, getDefaultSpace, hd, Option.some_bind,
    List.getElem?_eq_getElem hdl, hw.index_eq d hdl, bind, Except.bind, setDefaultSpace,
    Option.isSome_none, Bool.false_eq_true, if_false, if_neg (Nat.not_le.2 hdl)]
  rw [← hd]

/-- **A manager copied is the same manager.** `copySpaces` from an empty manager rebuilds every
manager built with a default space: the same spaces at the same indices, with the same slots
and the same default space. -/
theorem copySpaces_of_reachable (hm : Reachable m) (hd : m.defaultspace.isSome) :
    ({} : AddrSpaceManager).copySpaces m = .ok m := by
  obtain ⟨d, hd⟩ := Option.isSome_iff_exists.1 hd
  exact copySpaces_eq hm.wellFormed hd

theorem copySpaces_iopShadowed : Reachable iopShadowed ∧ iopShadowed.defaultspace.isSome ∧
    ({} : AddrSpaceManager).copySpaces iopShadowed = .ok iopShadowed :=
  ⟨iopShadowed_reachable, rfl, copySpaces_of_reachable iopShadowed_reachable rfl⟩

/-! ### Shortcut characters -/

/-- The loop either returns a shortcut no space has, or every character it tried, the one
returned included, is taken. -/
theorem shortcutLoop_spec : ∀ (is : List Nat) (c : Char),
    (∀ q ∈ m.baselist, q.shortcut ≠ m.shortcutLoop is c) ∨
      ∀ x ∈ c :: is.map shortcutOf, ∃ q ∈ m.baselist, q.shortcut = x
  | [], c => by
    by_cases h : ∃ q ∈ m.baselist, q.shortcut = c
    · exact .inr fun x hx => by rw [List.mem_singleton.1 hx]; exact h
    · exact .inl fun q hq hc => h ⟨q, hq, hc⟩
  | i :: is, c => by
    simp only [shortcutLoop]
    split_ifs with h
    · exact .inl fun q hq hc => by simpa [hc] using List.all_eq_true.1 h q hq
    · rcases shortcutLoop_spec is (shortcutOf i) with h' | h'
      · exact .inl h'
      · refine .inr fun x hx => ?_
        rcases List.mem_cons.1 hx with rfl | hx
        · simpa using h
        · exact h' x (by simpa using hx)

/-- The characters `assignShortcut` tries after the first are 24 different ones, and the one it
falls back on a 25th. -/
theorem nodup_shortcutOf : ((List.range' 0x61 (0x7a - 0x61)).map shortcutOf).Nodup := by
  decide

/-- With fewer than 25 spaces, `assignShortcut` gives a character no space has. -/
theorem assignShortcut_fresh (h25 : m.baselist.length < 25) (tp : SpaceType) :
    ∀ q ∈ m.baselist, q.shortcut ≠ m.assignShortcut tp := by
  rcases m.shortcutLoop_spec (List.range' 0x61 (0x7a - 0x61)) (typeShortcut tp) with h | h
  · exact h
  · have hsub :
        (List.range' 0x61 (0x7a - 0x61)).map shortcutOf ⊆ m.baselist.map Space.shortcut :=
      fun x hx => by
        obtain ⟨q, hq, rfl⟩ := h x (List.mem_cons_of_mem _ hx)
        exact List.mem_map_of_mem _ hq
    have := (List.subperm_of_subset nodup_shortcutOf hsub).length_le
    simp only [List.length_map, List.length_range'] at this
    omega

/-- **Shortcuts find their spaces.** With fewer than 25 spaces, the shortcut `assignShortcut`
gives is one no space has, so once a space with it is inserted, `getSpaceByShortcut` finds that
space by it. -/
theorem getSpaceByShortcut_assignShortcut (h25 : m.baselist.length < 25)
    (hsc : spc.shortcut = m.assignShortcut spc.type) (h : m.insertSpace spc = .ok m') :
    (∀ q ∈ m.baselist, q.shortcut ≠ spc.shortcut) ∧
      m'.getSpaceByShortcut spc.shortcut = some spc := by
  have hfresh : ∀ q ∈ m.baselist, q.shortcut ≠ spc.shortcut := fun q hq => by
    rw [hsc]; exact assignShortcut_fresh h25 _ q hq
  refine ⟨hfresh, ?_⟩
  obtain ⟨-, hv⟩ := insertSpace_views h
  have hmap : (if (reservedName spc.type).isSome then m.baselist
      else markOverlay spc m.baselist).map Space.shortcut = m.baselist.map Space.shortcut := by
    split
    · rfl
    · exact map_markOverlay Space.shortcut (fun _ => rfl) spc m.baselist
  have hnone : ∀ q ∈ (if (reservedName spc.type).isSome then m.baselist
      else markOverlay spc m.baselist), q.shortcut ≠ spc.shortcut := fun q hq => by
    obtain ⟨q', hq', he⟩ := List.mem_map.1 (hmap ▸ List.mem_map_of_mem Space.shortcut hq)
    rw [← he]
    exact hfresh q' hq'
  simp only [getSpaceByShortcut, hv.baselist, List.find?_append]
  rw [List.find?_eq_none.2 fun q hq => by simpa using hnone q hq]
  simp

/-- The `iop` space added to `iopTranslator` gets `'i'`, and is found by it, though not by its
name. -/
theorem getSpaceByShortcut_assignShortcut_iopShadowed :
    iopTranslator.baselist.length < 25 ∧
      (⟨"iop", .iop, 2, 'i', none, false⟩ : Space).shortcut =
        iopTranslator.assignShortcut .iop ∧
      iopTranslator.insertSpace ⟨"iop", .iop, 2, 'i', none, false⟩ = .ok iopShadowed ∧
      (∀ q ∈ iopTranslator.baselist, q.shortcut ≠ 'i') ∧
      iopShadowed.getSpaceByShortcut 'i' = some ⟨"iop", .iop, 2, 'i', none, false⟩ :=
  have h : iopTranslator.insertSpace ⟨"iop", .iop, 2, 'i', none, false⟩ = .ok iopShadowed := rfl
  ⟨by decide, by rfl, h, getSpaceByShortcut_assignShortcut (by decide) (by rfl) h⟩

/-! ### Initialization -/

theorem Views.types (hv : Views m spc m') :
    m'.baselist.map Space.type = m.baselist.map Space.type ++ [spc.type] := by
  rw [hv.baselist, List.map_append]
  split
  · rfl
  · rw [map_markOverlay Space.type (fun _ => rfl)]
    rfl

theorem foldlM_types : ∀ {l : List Space} {m m' : AddrSpaceManager},
    l.foldlM insertSpace m = .ok m' →
      m'.baselist.map Space.type = m.baselist.map Space.type ++ l.map Space.type
  | [], _, _, h => by cases h; simp
  | spc :: l, m, _, h => by
    rw [List.foldlM_cons] at h
    cases h₁ : m.insertSpace spc with
    | error e => rw [h₁] at h; cases h
    | ok m₁ =>
      rw [h₁] at h
      rw [foldlM_types h, (insertSpace_views h₁).2.types]
      simp

theorem restoreXmlSpace_type (tp : String) (el : Space) :
    (restoreXmlSpace tp el).type = .spacebase ∨ (restoreXmlSpace tp el).type = .internal ∨
      (restoreXmlSpace tp el).type = .processor := by
  unfold restoreXmlSpace
  split_ifs <;> simp

theorem setDefaultSpace_ok {i : Nat} (h : m.setDefaultSpace i = .ok m') :
    m' = { m with defaultspace := some i } := by
  simp only [AddrSpaceManager.setDefaultSpace] at h
  split_ifs at h
  cases h
  rfl

/-- What `restoreXmlSpaces` builds from the empty manager: a manager built by successful
calls, with a default space, holding no `fspec`, `iop` or `join` space. -/
theorem restoreXmlSpaces_spec {sc : Char} {children : List (String × Space)} {defname : String}
    (h : ({} : AddrSpaceManager).restoreXmlSpaces sc children defname = .ok m) :
    Reachable m ∧ m.defaultspace.isSome ∧
      ∀ t ∈ m.baselist.map Space.type, t ≠ .fspec ∧ t ≠ .iop ∧ t ≠ .join := by
  simp only [restoreXmlSpaces, bind, Except.bind] at h
  cases h₁ : ({} : AddrSpaceManager).insertSpace ⟨"const", .constant, 0, sc, none, false⟩ with
  | error e => simp [h₁] at h
  | ok m₁ =>
    cases h₂ : (children.map fun el => restoreXmlSpace el.1 el.2).foldlM insertSpace m₁ with
    | error e => simp [h₁, h₂] at h
    | ok m₂ =>
      cases h₃ : m₂.getSpaceByName defname with
      | none => simp [h₁, h₂, h₃] at h
      | some spc =>
        simp only [h₁, h₂, h₃] at h
        have hreach := ((show Reachable {} from .refl).insertSpace h₁).foldlM h₂
        refine ⟨hreach.tail (.setDefaultSpace _ h), by rw [setDefaultSpace_ok h]; rfl, ?_⟩
        rw [setDefaultSpace_ok h]
        intro t ht
        rw [foldlM_types h₂, (insertSpace_views h₁).2.types] at ht
        simp only [List.map_append, List.map_nil, List.map_cons, List.nil_append,
          List.singleton_append, List.mem_cons, List.mem_map, List.map_map, Function.comp] at ht
        rcases ht with rfl | ⟨el, -, rfl⟩
        · simp
        · rcases restoreXmlSpace_type el.1 el.2 with h | h | h <;> simp [h]

/-- A space of special type whose slot is empty is accepted. -/
theorem insertSpace_special (spc : Space) (hr : reservedName spc.type = some spc.name)
    (hc : spc.type ≠ .constant) (hi : spc.index = m.baselist.length)
    (hslot : m.slot spc.type = none) : ∃ m', m.insertSpace spc = .ok m' ∧ Views m spc m' := by
  obtain ⟨m', h⟩ := insertSpace_of_admits (show Admits m spc from
    ⟨hi, fun r h' => Option.some.inj (hr.symm.trans h'), fun h' => (hc h').elim,
      fun _ => hslot, fun hn => (by rw [hn] at hr; cases hr),
      fun hsb => (by rw [hsb] at hr; cases hr)⟩)
  exact ⟨m', h, (insertSpace_views h).2⟩

/-- **The architecture's spaces.** For every translator manager `restoreXmlSpaces` builds,
the space steps of `Architecture::restoreFromSpec` never throw: the copy is the translator's
manager, and the `fspec`, `iop` and `join` spaces follow it at the next three indices, each
cached in its slot, the default space kept. -/
theorem restoreFromSpec_spaces {sc : Char} {children : List (String × Space)} {defname : String}
    {trans : AddrSpaceManager}
    (h : ({} : AddrSpaceManager).restoreXmlSpaces sc children defname = .ok trans)
    (scf sci scj : Char) :
    ∃ m, restoreFromSpec trans scf sci scj = .ok m ∧
      m.baselist = trans.baselist ++
        [⟨"fspec", .fspec, trans.baselist.length, scf, none, false⟩,
          ⟨"iop", .iop, trans.baselist.length + 1, sci, none, false⟩,
          ⟨"join", .join, trans.baselist.length + 2, scj, none, false⟩] ∧
      m.fspecspace = some trans.baselist.length ∧
      m.iopspace = some (trans.baselist.length + 1) ∧
      m.joinspace = some (trans.baselist.length + 2) ∧ m.defaultspace = trans.defaultspace := by
  obtain ⟨hreach, hd, htypes⟩ := restoreXmlSpaces_spec h
  have hw := hreach.wellFormed
  obtain ⟨d, hd⟩ := Option.isSome_iff_exists.1 hd
  have hfree : ∀ t, t = .fspec ∨ t = .iop ∨ t = .join → trans.slot t = none := by
    intro t ht
    cases hs : trans.slot t with
    | none => rfl
    | some i =>
      obtain ⟨-, hi, hty⟩ := (hw.slot_iff t i).1 hs
      have := htypes _ (List.mem_map_of_mem Space.type (List.getElem_mem hi))
      rw [hty] at this
      rcases ht with rfl | rfl | rfl <;> simp at this
  obtain ⟨m₁, h₁, hv₁⟩ := insertSpace_special (m := trans)
    ⟨"fspec", .fspec, trans.baselist.length, scf, none, false⟩ rfl (by simp) rfl
    (hfree _ (.inl rfl))
  obtain ⟨m₂, h₂, hv₂⟩ := insertSpace_special (m := m₁)
    ⟨"iop", .iop, m₁.baselist.length, sci, none, false⟩ rfl (by simp) rfl
    (by rw [hv₁.slot]; exact hfree _ (.inr (.inl rfl)))
  obtain ⟨m₃, h₃, hv₃⟩ := insertSpace_special (m := m₂)
    ⟨"join", .join, m₂.baselist.length, scj, none, false⟩ rfl (by simp) rfl
    (by rw [hv₂.slot, hv₁.slot]; exact hfree _ (.inr (.inr rfl)))
  have hl₁ := hv₁.length
  have hl₂ := hv₂.length
  refine ⟨m₃, ?_, ?_, ?_, ?_, ?_, ?_⟩
  · simp only [restoreFromSpec, copySpaces_eq hw hd, bind, Except.bind, h₁, h₂, h₃]
  · simp [hv₃.baselist, hv₂.baselist, hv₁.baselist, reservedName]
  · show m₃.slot .fspec = _
    rw [hv₃.slot, hv₂.slot, hv₁.slot]
    rfl
  · show m₃.slot .iop = _
    rw [hv₃.slot, hv₂.slot, hl₁]
    rfl
  · show m₃.slot .join = _
    rw [hv₃.slot, hl₂, hl₁]
    rfl
  · rw [hv₃.defaultspace, hv₂.defaultspace, hv₁.defaultspace]

/-- The architecture built on `iopTranslator` accepts its `iop` space behind the processor
space of that name. -/
theorem restoreFromSpec_spaces_iopTranslator :
    ({} : AddrSpaceManager).restoreXmlSpaces '#'
        [("space", ⟨"iop", .processor, 1, 'r', none, false⟩)] "iop" = .ok iopTranslator ∧
      ∃ m, restoreFromSpec iopTranslator 'f' 'i' 'j' = .ok m ∧
        m.baselist = iopTranslator.baselist ++
          [⟨"fspec", .fspec, 2, 'f', none, false⟩, ⟨"iop", .iop, 2 + 1, 'i', none, false⟩,
            ⟨"join", .join, 2 + 2, 'j', none, false⟩] ∧
        m.fspecspace = some 2 ∧ m.iopspace = some (2 + 1) ∧ m.joinspace = some (2 + 2) ∧
        m.defaultspace = iopTranslator.defaultspace :=
  have h : ({} : AddrSpaceManager).restoreXmlSpaces '#'
      [("space", ⟨"iop", .processor, 1, 'r', none, false⟩)] "iop" = .ok iopTranslator := rfl
  ⟨h, restoreFromSpec_spaces h 'f' 'i' 'j'⟩

end AddrSpaceManager

end Translate

end GhidraDec
