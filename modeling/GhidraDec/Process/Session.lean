import GhidraDec.Process.Command

/-!
# Architectures over a Whole Session

The decompiler process serves one client for a whole session: `main` hands each command to
its object until one returns a non-zero status (`serve`). The architecture objects it works
with are created by `registerProgram`, held in `archlist` and in the `ghidra` field of the
command objects, and deleted by `deregisterProgram`, which is also the one command that
returns a non-zero status.

This module follows the architecture objects over every sequence of commands the client can
send, with any burst missing and any id, in range or not.

## Main results

* `Sound`: between two commands every architecture that `archlist` or a command object holds
  has been created, and none has been deleted; every command keeps it (`doit_sound`);
* `serve_architectures`: in every session, every use of an architecture object comes after the
  `registerProgram` that created it, and a deletion is the last thing the session does, so no
  command ever works with a deleted architecture.
-/

namespace GhidraDec

namespace GhidraProcess

/-- The architecture an effect uses: clearing or reading its warnings, working with it, or
deleting it. -/
def Effect.arch : Effect → Option Nat
  | .clearWarnings a | .act a | .getWarnings a | .printMessage a _ | .delete a => some a
  | .create _ | .clearSlot _ => none

/-- Every use of an architecture in a log comes after the effect that creates it. -/
def UsedAfterCreate (log : List Effect) : Prop :=
  ∀ (i a : Nat), (log[i]?).bind Effect.arch = some a →
    ∃ j < i, log[j]? = some (Effect.create a)

/-- A deletion, if a log has one, is its last effect. -/
def DeleteLast (log : List Effect) : Prop :=
  ∀ (i a : Nat), log[i]? = some (.delete a) → i + 1 = log.length

/-- The state between two commands: every architecture that `archlist` or a command object
holds has been created, the log uses architectures only after creating them, and nothing has
been deleted. -/
structure Sound (p : Process) : Prop where
  slots : ∀ j a, p.archlist.getD j none = some a → .create a ∈ p.log
  fields : ∀ c a, p.ghidra c = some a → .create a ∈ p.log
  used : UsedAfterCreate p.log
  kept : ∀ a, .delete a ∉ p.log

/-! ### Appending to the log -/

theorem UsedAfterCreate.append {log es : List Effect} (h : UsedAfterCreate log)
    (hes : ∀ (k a : Nat), (es[k]?).bind Effect.arch = some a →
      .create a ∈ log ∨ ∃ j < k, es[j]? = some (Effect.create a)) :
    UsedAfterCreate (log ++ es) := by
  intro i a hi
  by_cases hl : i < log.length
  · rw [List.getElem?_append_left hl] at hi
    obtain ⟨j, hj, hc⟩ := h i a hi
    exact ⟨j, hj, by rw [List.getElem?_append_left (by omega), hc]⟩
  · rw [List.getElem?_append_right (by omega)] at hi
    rcases hes _ a hi with hc | ⟨j, hj, hc⟩
    · obtain ⟨j, hj, hc⟩ := List.getElem_of_mem hc
      exact ⟨j, by omega, by rw [List.getElem?_append_left hj, List.getElem?_eq_getElem hj, hc]⟩
    · exact ⟨log.length + j, by omega, by
        rw [List.getElem?_append_right (by omega), Nat.add_sub_cancel_left, hc]⟩

/-- Effects on architectures the log has created keep the log sound. -/
theorem UsedAfterCreate.append_created {log es : List Effect} (h : UsedAfterCreate log)
    (hes : ∀ e ∈ es, ∀ a, e.arch = some a → .create a ∈ log) :
    UsedAfterCreate (log ++ es) :=
  h.append fun k a hk => by
    obtain ⟨e, he, hea⟩ := Option.bind_eq_some.1 hk
    exact .inl (hes e (List.getElem?_mem he) a hea)

theorem deleteLast_of_not_mem {log : List Effect} (h : ∀ a, .delete a ∉ log) : DeleteLast log :=
  fun _ a hi => absurd (List.getElem?_mem hi) (h a)

/-! ### Sound states -/

/-- A step that keeps `archlist` and the command objects to architectures the log has created
and appends effects on those only, deleting none, keeps a state sound. -/
theorem Sound.of_step {p q : Process} (hp : Sound p) (es : List Effect)
    (hlog : q.log = p.log ++ es)
    (hes : ∀ e ∈ es, (∀ a, e.arch = some a → .create a ∈ p.log) ∧
      ∀ a, e ≠ .delete a)
    (hslots : ∀ j a, q.archlist.getD j none = some a → .create a ∈ p.log)
    (hfields : ∀ c a, q.ghidra c = some a → .create a ∈ p.log) : Sound q where
  slots j a h := hlog ▸ List.mem_append_left _ (hslots j a h)
  fields c a h := hlog ▸ List.mem_append_left _ (hfields c a h)
  used := hlog ▸ hp.used.append_created fun e he => (hes e he).1
  kept a := by
    rw [hlog, List.mem_append, not_or]
    exact ⟨hp.kept a, fun h => (hes _ h).2 a rfl⟩

/-- A step that appends nothing and changes no slot keeps a state sound if the fields it sets
hold created architectures. -/
theorem Sound.of_eq {p q : Process} (hp : Sound p) (hl : q.log = p.log)
    (ha : q.archlist = p.archlist) (hg : ∀ c a, q.ghidra c = some a → .create a ∈ p.log) :
    Sound q :=
  hp.of_step [] (by rw [hl, List.append_nil]) (by simp) (fun j a h => hp.slots j a (ha ▸ h)) hg

/-- What a command selects has been created. -/
theorem Sound.select {p : Process} (hp : Sound p) {c : CommandKind} {id : Int} {a : Nat}
    (h : p.select c id = some a) : .create a ∈ p.log := by
  unfold Process.select at h
  split_ifs at h
  · exact hp.slots _ a h
  · exact hp.fields c a h

/-- Setting the field of one command object to what it selects keeps the fields created. -/
theorem Sound.update_select {p : Process} (hp : Sound p) (c : CommandKind) (id : Int) :
    ∀ c' a, Function.update p.ghidra c (p.select c id) c' = some a → .create a ∈ p.log := by
  intro c' a h
  rw [Function.update_apply] at h
  split_ifs at h
  · exact hp.select h
  · exact hp.fields c' a h

theorem getD_set_some {l : List (Option Nat)} {k j a b : Nat}
    (h : (l.set k (some a)).getD j none = some b) : b = a ∨ l.getD j none = some b := by
  rw [List.getD_eq_getElem?_getD, List.getElem?_set] at h
  rw [List.getD_eq_getElem?_getD]
  split_ifs at h
  · exact .inl (Option.some.inj h).symm
  · exact absurd h (by simp)
  · exact .inr h

theorem getD_append_none (l : List (Option Nat)) (j : Nat) :
    (l ++ [none]).getD j none = l.getD j none := by
  rw [List.getD_eq_getElem?_getD, List.getD_eq_getElem?_getD]
  by_cases hj : j < l.length
  · rw [List.getElem?_append_left hj]
  · have hn : l[j]? = none := List.getElem?_eq_none (by omega)
    rw [List.getElem?_append_right (by omega), hn]
    cases j - l.length <;> rfl

/-- A deletion appended to a log without one is the last effect if it is the last appended. -/
theorem Sound.deleteLast_append {p : Process} (hp : Sound p) {es : List Effect}
    (hes : DeleteLast es) : DeleteLast (p.log ++ es) := by
  intro i a hi
  by_cases hl : i < p.log.length
  · rw [List.getElem?_append_left hl] at hi
    exact absurd (List.getElem?_mem hi) (hp.kept a)
  · rw [List.getElem?_append_right (by omega)] at hi
    have := hes _ a hi
    rw [List.length_append]
    omega

theorem readArchId_noStart {c : CommandKind} {sm em : String} {save : Int → Process → Process}
    {r : Request} (h : r.idStart = false) (p : Process) :
    (readArchId c sm em save r).run p = .error (.java ⟨"alignment", sm⟩) p := by
  simp [readArchId, h]; rfl

theorem readArchId_noEnd {c : CommandKind} {sm em : String} {save : Int → Process → Process}
    {r : Request} (hs : r.idStart = true) (h : r.idEnd = false) (p : Process) :
    (readArchId c sm em save r).run p = .error (.java ⟨"alignment", em⟩) (save r.id p) := by
  simp [readArchId, hs, h]; rfl

/-- A slot `placeArch` leaves holds what it held, or the new architecture. -/
theorem getD_placeArch {l : List (Option Nat)} {a j b : Nat}
    (h : (placeArch l a).1.getD j none = some b) : b = a ∨ l.getD j none = some b := by
  unfold placeArch at h
  split at h
  · exact getD_set_some h
  · rcases getD_set_some h with hb | hb
    · exact .inl hb
    · rw [getD_append_none] at hb; exact .inr hb

/-- A step that creates architecture `a` and then has effects on `a` only, deleting nothing,
keeps a state sound if it leaves in `archlist` and in the command objects only architectures
they held before, and `a`. -/
theorem Sound.of_create {p q : Process} (hp : Sound p) (a : Nat) (es : List Effect)
    (hlog : q.log = p.log ++ .create a :: es)
    (hes : ∀ e ∈ es, (∀ b, e.arch = some b → b = a) ∧ ∀ b, e ≠ .delete b)
    (hslots : ∀ j b, q.archlist.getD j none = some b → b = a ∨ p.archlist.getD j none = some b)
    (hfields : ∀ c b, q.ghidra c = some b → b = a ∨ p.ghidra c = some b) : Sound q := by
  have hmem : ∀ b, b = a ∨ .create b ∈ p.log → .create b ∈ q.log := by
    rintro b (rfl | hb)
    · simp [hlog]
    · simp [hlog, hb]
  refine ⟨fun j b h => hmem b ?_, fun c b h => hmem b ?_, ?_, fun b => ?_⟩
  · exact (hslots j b h).imp_right (hp.slots j b)
  · exact (hfields c b h).imp_right (hp.fields c b)
  · rw [hlog, ← List.singleton_append, ← List.append_assoc]
    refine (hp.used.append fun k b hk => ?_).append fun k b hk => ?_
    · rcases k with _ | k <;> simp [Effect.arch] at hk
    · obtain ⟨e, he, hea⟩ := Option.bind_eq_some.1 hk
      obtain rfl := (hes e (List.getElem?_mem he)).1 b hea
      exact .inl (by simp)
  · rw [hlog, List.mem_append, not_or, List.mem_cons, not_or]
    exact ⟨hp.kept b, by simp, fun h => (hes _ h).2 b rfl⟩

/-- **Every command keeps the process sound**, whatever bursts it is missing, whatever id it
reads and whatever `init` makes of the documents of a `registerProgram`, unless it ends the
session: a `deregisterProgram` that deletes its architecture returns status 1 with the
deletion as the last effect of the log. -/
theorem doit_sound (init : SpecDocs → Option ArchError) {p : Process} (hp : Sound p)
    (r : Request) :
    ∃ resp q, (doit init r).run p = .ok resp q ∧
      ((q.status = 0 ∧ Sound q) ∨
        (q.status = 1 ∧ UsedAfterCreate q.log ∧ DeleteLast q.log)) := by
  obtain ⟨k, id, specs, idStart, idEnd, commandEnd⟩ := r
  have hfield : ∀ c a, Function.update p.ghidra .registerProgram (some p.nextArch) c = some a →
      a = p.nextArch ∨ p.ghidra c = some a := fun c a h => by
    rw [Function.update_apply] at h
    split_ifs at h
    · exact .inl (Option.some.inj h).symm
    · exact .inr h
  by_cases hk : k = .registerProgram
  · subst hk
    cases commandEnd
    · rw [run_doit, run_doitTry]
      exact ⟨_, _, rfl, .inl ⟨rfl, hp.of_eq rfl rfl fun _ _ h => hp.fields _ _ h⟩⟩
    rw [run_registerProgram init p rfl rfl]
    rcases init specs with _ | e
    · exact ⟨_, _, rfl, .inl ⟨rfl, hp.of_create p.nextArch [.getWarnings p.nextArch] (by simp)
        (by simp [Effect.arch]) (fun j b h => getD_placeArch h) hfield⟩⟩
    · exact ⟨_, _, rfl, .inl ⟨rfl, hp.of_create p.nextArch
        [.printMessage p.nextArch e.message, .getWarnings p.nextArch] (by simp)
        (by simp [Effect.arch]) (fun j b h => .inr h) hfield⟩⟩
  by_cases hd : k = .deregisterProgram
  · subst hd
    rw [run_doit, run_doitTry]
    simp only [loadParameters, DeregisterProgram.loadParameters, run_bind, run_modify]
    cases idStart
    · rw [readArchId_noStart rfl]
      exact ⟨_, _, rfl, .inl ⟨rfl, hp.of_eq rfl rfl fun _ _ h => hp.fields _ _ h⟩⟩
    cases idEnd
    · rw [readArchId_noEnd rfl rfl]
      exact ⟨_, _, rfl, .inl ⟨rfl, hp.of_eq rfl rfl fun _ _ h => hp.fields _ _ h⟩⟩
    simp only [readArchId_run _ _ _ _ ⟨.deregisterProgram, id, specs, true, true, commandEnd⟩
      rfl rfl, select_mk]
    have hsf := hp.update_select .deregisterProgram id
    cases hsel : p.select .deregisterProgram id with
    | none =>
      refine ⟨_, _, rfl, .inl ⟨rfl, hp.of_eq rfl rfl ?_⟩⟩
      simpa only [hsel] using hsf
    | some a =>
      have ha := hp.select hsel
      rw [hsel] at hsf
      cases commandEnd
      · exact ⟨_, _, rfl, .inl ⟨rfl, hp.of_step [.clearWarnings a] rfl
          (by simp [Effect.arch, ha]) hp.slots hsf⟩⟩
      · simp only [if_true, rawAction, run_deregister_rawAction, Function.update_same,
          Process.useArch]
        refine ⟨_, _, rfl, .inr ⟨rfl, ?_, ?_⟩⟩ <;>
          simp only [List.append_assoc, List.singleton_append]
        · exact hp.used.append_created (by simp [Effect.arch, ha])
        · refine hp.deleteLast_append fun i b hi => ?_
          rcases i with _ | _ | _ | i <;> simp at hi ⊢
  rw [run_doit, run_doitTry]
  simp only [loadParameters_generic hk hd, GhidraCommand.loadParameters]
  cases idStart
  · rw [readArchId_noStart rfl]
    exact ⟨_, _, rfl, .inl ⟨rfl, hp.of_eq rfl rfl fun _ _ h => hp.fields _ _ h⟩⟩
  cases idEnd
  · rw [readArchId_noEnd rfl rfl]
    exact ⟨_, _, rfl, .inl ⟨rfl, hp.of_eq rfl rfl fun _ _ h => hp.fields _ _ h⟩⟩
  simp only [readArchId_run _ _ _ _ ⟨k, id, specs, true, true, commandEnd⟩ rfl rfl, select_mk]
  have hsf := hp.update_select k id
  cases hsel : p.select k id with
  | none =>
    refine ⟨_, _, rfl, .inl ⟨rfl, hp.of_eq rfl rfl ?_⟩⟩
    simpa only [hsel] using hsf
  | some a =>
    have ha := hp.select hsel
    rw [hsel] at hsf
    cases commandEnd
    · exact ⟨_, _, rfl, .inl ⟨rfl, hp.of_step [.clearWarnings a] rfl
        (by simp [Effect.arch, ha]) hp.slots hsf⟩⟩
    · simp only [if_true, rawAction_generic init hk hd, actOnArchitecture, run_modify,
        Process.useArch, Function.update_same]
      exact ⟨_, _, rfl, .inl ⟨rfl, hp.of_step [.clearWarnings a, .act a, .getWarnings a]
        (by simp) (by simp [Effect.arch, ha]) hp.slots hsf⟩⟩

theorem sound_empty : Sound {} where
  slots _ _ h := by simp at h
  fields _ _ h := nomatch h
  used _ _ h := by simp at h
  kept _ h := nomatch h

/-- A session from a sound state uses architectures only after creating them and deletes one
only as its last effect. -/
theorem serve_of_sound (init : SpecDocs → Option ArchError) :
    ∀ (rs : List Request) {p : Process}, Sound p →
      UsedAfterCreate (serve init rs p).2.log ∧ DeleteLast (serve init rs p).2.log
  | [], _, hp => ⟨hp.used, deleteLast_of_not_mem hp.kept⟩
  | r :: rs, p, hp => by
    obtain ⟨resp, q, hrun, hq⟩ := doit_sound init hp r
    simp only [serve, hrun]
    split_ifs with h0
    · rcases hq with ⟨-, hq⟩ | ⟨h1, -⟩
      · exact serve_of_sound init rs hq
      · omega
    · rcases hq with ⟨h1, -⟩ | ⟨-, hq⟩
      · exact absurd h1 h0
      · exact hq

/-- **No architecture is used before it is created or after it is deleted.** Over every
sequence of commands the client sends, with any burst missing and any id, and whatever `init`
makes of the documents of each `registerProgram`, every effect of the process on an
architecture object (clearing or reading its warnings, printing an error through it, working
with it, deleting it) comes after the `registerProgram` that created it, and a deletion is the
last effect of the session: `deregisterProgram` ends the command loop when it deletes. -/
theorem serve_architectures (init : SpecDocs → Option ArchError) (rs : List Request) :
    UsedAfterCreate (serve init rs {}).2.log ∧ DeleteLast (serve init rs {}).2.log :=
  serve_of_sound init rs sound_empty

/-! ### Registering a program -/

theorem foldl_openSlot (l : List (Option Nat)) {i : Nat} :
    ∀ (xs : List Nat) (o : Option Nat),
      xs.foldl (fun o i => if l.getD i none = none then some i else o) o = some i →
        o = some i ∨ (i ∈ xs ∧ l.getD i none = none)
  | [], _, h => .inl h
  | x :: xs, o, h => by
    rw [List.foldl_cons] at h
    rcases foldl_openSlot l xs _ h with h | h
    · split_ifs at h with hx
      · cases h; exact .inr ⟨List.mem_cons_self _ _, hx⟩
      · exact .inl h
    · exact .inr ⟨List.mem_cons_of_mem _ h.1, h.2⟩

/-- The slot `RegisterProgram::rawAction`'s loop finds is an empty slot of `archlist`. -/
theorem openSlot_spec {l : List (Option Nat)} {i : Nat} (h : openSlot l = some i) :
    i < l.length ∧ l.getD i none = none := by
  rcases foldl_openSlot l _ none h with h | ⟨hi, hn⟩
  · cases h
  · exact ⟨List.mem_range.1 hi, hn⟩

theorem getD_set_self {l : List (Option Nat)} {k : Nat} (h : k < l.length) (a : Nat) :
    (l.set k (some a)).getD k none = some a := by
  rw [List.getD_eq_getElem?_getD, List.getElem?_set_self h]; rfl

theorem getD_set_ne {l : List (Option Nat)} {k j : Nat} (h : k ≠ j) (a : Nat) :
    (l.set k (some a)).getD j none = l.getD j none := by
  rw [List.getD_eq_getElem?_getD, List.getD_eq_getElem?_getD, List.getElem?_set_ne h]

/-- **What `registerProgram` answers.** A complete `registerProgram` always answers, and the
command object keeps the documents. When `init` accepts them, the id it returns (`archid`)
names a slot of `archlist` that now holds the new architecture, so every command sent with
that id selects it, and every other slot is as it was. When `init` throws, `archlist` and
`archid` are as they were: the id it returns is the one the last successful registration
returned (or -1), and it still selects, for every other command, what it selected before;
the error is printed through the new architecture, which nothing else holds. -/
theorem doit_register_select (init : SpecDocs → Option ArchError) (p : Process) {r : Request}
    (hk : r.kind = .registerProgram) (hce : r.commandEnd = true) :
    ∃ q, (doit init r).run p = .ok .done q ∧ q.specs = r.specs ∧
      match init r.specs with
      | none => 0 ≤ q.archid ∧ (∀ c, q.select c q.archid = some p.nextArch) ∧
          ∀ j : Nat, (j : Int) ≠ q.archid → q.archlist.getD j none = p.archlist.getD j none
      | some e => q.archlist = p.archlist ∧ q.archid = p.archid ∧
          (∀ c, c ≠ .registerProgram → q.select c q.archid = p.select c p.archid) ∧
          q.log = p.log ++ [.create p.nextArch, .printMessage p.nextArch e.message,
            .getWarnings p.nextArch] := by
  rw [run_registerProgram init p hk hce]
  refine ⟨_, rfl, ?_⟩
  cases init r.specs with
  | some e =>
    refine ⟨rfl, rfl, rfl, fun c hc => ?_, rfl⟩
    simp only [Process.select, Process.slot, Function.update_noteq hc]
  | none =>
    refine ⟨rfl, Int.ofNat_nonneg _, fun c => ?_, fun j hj => ?_⟩
    · rcases ho : openSlot p.archlist with _ | i
      · simp only [placeArch, ho, Process.select, Process.slot, Int.toNat_ofNat,
          List.length_set, List.length_append, List.length_singleton]
        rw [if_pos ⟨Int.ofNat_nonneg _, by omega⟩, getD_set_self (by simp)]
      · obtain ⟨hi, -⟩ := openSlot_spec ho
        simp only [placeArch, ho, Process.select, Process.slot, Int.toNat_ofNat, List.length_set]
        rw [if_pos ⟨Int.ofNat_nonneg _, by omega⟩, getD_set_self hi]
    · rcases ho : openSlot p.archlist with _ | i <;> simp only [placeArch, ho] at hj ⊢
      · rw [getD_set_ne (by omega), getD_append_none]
      · rw [getD_set_ne (by omega)]

/-- A process after one registration, in slot 0. -/
def registered : Process :=
  { archlist := [some 0], archid := 0, nextArch := 1, log := [.create 0, .getWarnings 0] }

/-- An `init` that throws on an empty processor specification. -/
def noProcessorSpec (d : SpecDocs) : Option ArchError :=
  if d.pspec = "" then some (.lowlevelError "No processor configuration tag found") else none

/-- A second registration with no processor specification answers with the id of the first,
which still selects architecture 0. -/
theorem doit_register_select_noProcessorSpec :
    ∃ q, (doit noProcessorSpec { kind := .registerProgram }).run registered = .ok .done q ∧
      q.specs = {} ∧
      match noProcessorSpec {} with
      | none => 0 ≤ q.archid ∧ (∀ c, q.select c q.archid = some registered.nextArch) ∧
          ∀ j : Nat, (j : Int) ≠ q.archid →
            q.archlist.getD j none = registered.archlist.getD j none
      | some e => q.archlist = registered.archlist ∧ q.archid = registered.archid ∧
          (∀ c, c ≠ .registerProgram →
            q.select c q.archid = registered.select c registered.archid) ∧
          q.log = registered.log ++ [.create registered.nextArch,
            .printMessage registered.nextArch e.message, .getWarnings registered.nextArch] :=
  doit_register_select noProcessorSpec registered rfl rfl

/-- The architecture the failed registration created is printed to, and no slot holds it. -/
example :
    (serve noProcessorSpec [{ kind := .registerProgram }, { kind := .decompileAt, id := 0 }]
      registered).2.log =
      [.create 0, .getWarnings 0, .create 1,
        .printMessage 1 "Low-level Error: No processor configuration tag found", .getWarnings 1,
        .clearWarnings 0, .act 0, .getWarnings 0] := by
  decide

end GhidraProcess

end GhidraDec
