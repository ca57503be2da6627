import Mathlib.Logic.Function.Basic

/-!
# The Command Loop of the Decompiler Process

`ghidra_process.cc` runs the decompiler as a process serving one client. Each command is a
long-lived object, one per command name (`GhidraDecompCapability::initialize`), and `main`
hands every incoming command to its object's `doit` until one returns a non-zero status.
The architectures the client registers live in the global `archlist`; a command names one
by its index there. `GhidraCommand::loadParameters` reads the id and selects
`archlist[id]` — but only when the id is in range. Out of range, the command object's
`ghidra` field keeps the architecture an earlier run of the same command selected, and
the null check meant to reject the id passes.

`registerProgram` reads four specification documents and builds a new architecture from them;
`Architecture::init` throws on a document it cannot use. `doit` catches that error, prints it
through the command's architecture and still sends the result, so the id `registerProgram`
answers with is then the one an earlier registration left in `archid`.

The model keeps, of each command, what it does to architectures and to `archlist`: an
`Effect` log records every use of an architecture object, named by its identity. The
parameters a command reads after the id (an address, an XML document, option strings) and
the payloads it writes back touch neither and are left out; the work a command does with
its architecture (the decompilation, the flush, the option change, the restored block
graph) is one `act` effect. What `ArchitectureGhidra::init` raises on the documents is the
parameter `init`: its code (the loader, the SLEIGH translator and the specification parsers)
is not part of the sources. The command objects' constructors, in `ghidra_process.hh`, which
is not part of the sources, start every `ghidra` field null.

## Main results

* `doit_uses_selected`: a command that reads an id acts only on the architecture it
  selects — `archlist[id]` for an id in range, and for an id out of range the one its
  `ghidra` field still holds — and fails with "No architecture registered with decompiler",
  touching nothing, when there is none;
* `decompileAt_stale_architecture`: after `decompileAt` on id 0, `decompileAt` on the
  unregistered id 1 decompiles with architecture 0;
* `run_registerProgram`: what a complete `registerProgram` does, when `init` accepts the
  documents and when it throws.
-/

namespace GhidraDec

namespace GhidraProcess

/-- The commands of `GhidraDecompCapability::initialize`, one long-lived object each. -/
inductive CommandKind
  | registerProgram | deregisterProgram | flushNative | decompileAt | structureGraph
  | setAction | setOptions
  deriving DecidableEq, Repr

/-- The four specification documents of `RegisterProgram`: processor, compiler, data types
and core types. -/
structure SpecDocs where
  pspec : String := ""
  cspec : String := ""
  tspec : String := ""
  corespec : String := ""
  deriving DecidableEq, Repr

/-- A command as the client sends it: the arch id in its parameters, the documents of a
`registerProgram`, and whether the bursts around the id (types 14 and 15) and at the end of
the command (type 3) are where the command reads them. -/
structure Request where
  kind : CommandKind
  id : Int := 0
  specs : SpecDocs := {}
  idStart : Bool := true
  idEnd : Bool := true
  commandEnd : Bool := true
  deriving DecidableEq, Repr

/-- A `JavaError`: the error class and explanation passed back to the client. -/
structure JavaError where
  type : String
  explain : String
  deriving DecidableEq, Repr

/-- The errors `doit` catches besides `JavaError` (`xml.hh`, and `error.hh`, which is not part
of the sources): an `XmlError`, a `RecovError`, or another `LowlevelError`, with its
explanation. -/
inductive ArchError
  | xmlError (explain : String)
  | recovError (explain : String)
  | lowlevelError (explain : String)
  deriving DecidableEq, Repr

/-- The message `doit`'s handler prints for an error. -/
def ArchError.message : ArchError → String
  | .xmlError e => "XML processing error: " ++ e
  | .recovError e => "Recoverable Error: " ++ e
  | .lowlevelError e => "Low-level Error: " ++ e

/-- What a command throws. -/
inductive CommandError
  | java (err : JavaError)
  | arch (err : ArchError)
  deriving DecidableEq, Repr

/-- A use of an architecture object, or a write of an `archlist` slot. -/
inductive Effect
  /-- `new ArchitectureGhidra`. -/
  | create (a : Nat)
  /-- `ghidra->clearWarnings()` in `loadParameters`. -/
  | clearWarnings (a : Nat)
  /-- The command's own work with `ghidra`. -/
  | act (a : Nat)
  /-- `ghidra->getWarnings()` in `GhidraCommand::sendResult`. -/
  | getWarnings (a : Nat)
  /-- `ghidra->printMessage(errmsg)` in a handler of `doit`. -/
  | printMessage (a : Nat) (msg : String)
  /-- `archlist[inid] = 0`. -/
  | clearSlot (i : Int)
  /-- `delete ghidra`. -/
  | delete (a : Nat)
  deriving DecidableEq, Repr

/-- What `doit` reports: a finished command, or the `JavaError` that aborted it. -/
inductive Response
  | done
  | javaError (err : JavaError)
  deriving DecidableEq, Repr

/-- The process: `archlist`, the `ghidra` field of each command object,
`DeregisterProgram::inid`, `RegisterProgram::archid` and its documents, the status of the last
command, the identity the next architecture object gets, and the log of effects. -/
structure Process where
  archlist : List (Option Nat) := []
  ghidra : CommandKind → Option Nat := fun _ => none
  inid : Int := -1
  archid : Int := -1
  specs : SpecDocs := {}
  status : Nat := 0
  nextArch : Nat := 0
  log : List Effect := []

/-- A command runs over the process state and may throw, keeping the state it reached. -/
abbrev CommandM := EStateM CommandError Process

/-- The error a command raises when it has no architecture. -/
def noArchitecture : JavaError := ⟨"decompiler", "No architecture registered with decompiler"⟩

/-- Record an effect. -/
def emit (e : Effect) : CommandM Unit := modify fun p => { p with log := p.log ++ [e] }

/-- Set the `ghidra` field of command `c`. -/
def setGhidra (c : CommandKind) (a : Option Nat) : CommandM Unit :=
  modify fun p => { p with ghidra := Function.update p.ghidra c a }

/-- `archlist[id]`. -/
def Process.slot (p : Process) (id : Int) : Option Nat := p.archlist.getD id.toNat none

/-- The id reading shared by `GhidraCommand::loadParameters` and
`DeregisterProgram::loadParameters`: the id between its two bursts, kept by `save`;
`archlist[id]` selected when the id is in range; the error when the command object then has
no architecture. -/
def readArchId (c : CommandKind) (startMsg endMsg : String) (save : Int → Process → Process)
    (r : Request) : CommandM Unit := do
  if !r.idStart then throw (.java ⟨"alignment", startMsg⟩)
  modify (save r.id)
  if !r.idEnd then throw (.java ⟨"alignment", endMsg⟩)
  let p ← get
  if 0 ≤ r.id ∧ r.id < p.archlist.length then setGhidra c (p.slot r.id)
  match (← get).ghidra c with
  | none => throw (.java noArchitecture)
  | some a => emit (.clearWarnings a)

/-- `GhidraCommand::loadParameters`. -/
def GhidraCommand.loadParameters (c : CommandKind) (r : Request) : CommandM Unit :=
  readArchId c "Expecting arch id start" "Expecting arch id end" (fun _ p => p) r

/-- `DeregisterProgram::loadParameters`: as `GhidraCommand::loadParameters`, with the id
kept in `inid`. -/
def DeregisterProgram.loadParameters (r : Request) : CommandM Unit := do
  modify fun p => { p with inid := -1 }
  readArchId .deregisterProgram "Expecting deregister id start" "Expecting deregister id end"
    (fun i p => { p with inid := i }) r

/-- The empty slot of `archlist` that `RegisterProgram::rawAction`'s loop leaves in `open`:
the last one. -/
def openSlot (l : List (Option Nat)) : Option Nat :=
  (List.range l.length).foldl (fun o i => if l.getD i none = none then some i else o) none

/-- `RegisterProgram::loadParameters`: the four documents, kept by the command object. -/
def RegisterProgram.loadParameters (r : Request) : CommandM Unit :=
  modify fun p => { p with specs := r.specs }

/-- `archlist` with `a` in the open slot, or in a new slot at its end, and that slot. -/
def placeArch (l : List (Option Nat)) (a : Nat) : List (Option Nat) × Nat :=
  match openSlot l with
  | some i => (l.set i (some a), i)
  | none => ((l ++ [none]).set l.length (some a), l.length)

/-- `RegisterProgram::rawAction`: a new architecture from the documents, held by the command
object, and `ghidra->init(store)`; once `init` returns, the architecture goes into
`archlist` and its slot into `archid`. When `init` throws, neither is written. -/
def RegisterProgram.rawAction (init : SpecDocs → Option ArchError) : CommandM Unit := do
  let p ← get
  let a := p.nextArch
  emit (.create a)
  modify fun q => { q with nextArch := a + 1 }
  setGhidra .registerProgram (some a)
  match init p.specs with
  | some e => throw (.arch e)
  | none =>
    modify fun q => { q with archlist := (placeArch p.archlist a).1,
                             archid := (placeArch p.archlist a).2 }

/-- `DeregisterProgram::rawAction`: clear `archlist[inid]` and delete the architecture. -/
def DeregisterProgram.rawAction : CommandM Unit := do
  let p ← get
  match p.ghidra .deregisterProgram with
  | some a =>
    emit (.clearSlot p.inid)
    emit (.delete a)
    modify fun q => { q with
      archlist := if 0 ≤ p.inid then q.archlist.set p.inid.toNat none else q.archlist,
      status := 1 }
    setGhidra .deregisterProgram none
  | none => pure ()

/-- The `loadParameters` of each command; `RegisterProgram` reads the specification
documents and no id. -/
def loadParameters : CommandKind → Request → CommandM Unit
  | .registerProgram, r => RegisterProgram.loadParameters r
  | .deregisterProgram, r => DeregisterProgram.loadParameters r
  | c, r => GhidraCommand.loadParameters c r

/-- The process after the effect `f` on the architecture that the `ghidra` field of command
`c` holds, when it holds one. -/
def Process.useArch (p : Process) (c : CommandKind) (f : Nat → Effect) : Process :=
  match p.ghidra c with
  | some a => { p with log := p.log ++ [f a] }
  | none => p

/-- The `rawAction` of `flushNative`, `decompileAt`, `structureGraph`, `setAction` and
`setOptions`: their work with `ghidra` (`StructureGraph` uses it when its `loadParameters`
restores the block graph). -/
def actOnArchitecture (c : CommandKind) : CommandM Unit :=
  modify (·.useArch c .act)

/-- The `rawAction` of each command. -/
def rawAction (init : SpecDocs → Option ArchError) : CommandKind → CommandM Unit
  | .registerProgram => RegisterProgram.rawAction init
  | .deregisterProgram => DeregisterProgram.rawAction
  | c => actOnArchitecture c

/-- `GhidraCommand::sendResult`: the warnings of `ghidra`, when there is one (`registerProgram`
and `deregisterProgram` write `archid` and `res` before them). -/
def sendResult (c : CommandKind) : CommandM Unit :=
  modify (·.useArch c .getWarnings)

/-- `ghidra->printMessage(errmsg)`. The source follows the pointer unchecked; the model throws
no error before the command object holds an architecture. -/
def printMessage (c : CommandKind) (msg : String) : CommandM Unit :=
  modify (·.useArch c (.printMessage · msg))

/-- The handlers of `GhidraCommand::doit`: a `JavaError` is passed to the client and aborts
the command; an `XmlError`, `RecovError` or `LowlevelError` is printed through the command's
architecture, and the command goes on to send its result. -/
def handleError (c : CommandKind) : CommandError → CommandM (Option JavaError)
  | .java err => pure (some err)
  | .arch err => do
    printMessage c err.message
    pure none

/-- The `try` block of `GhidraCommand::doit`: parameters, the end-of-command burst and the
action. -/
def doitTry (init : SpecDocs → Option ArchError) (r : Request) : CommandM Unit := do
  loadParameters r.kind r
  if !r.commandEnd then throw (.java ⟨"alignment", "Missing end of command"⟩)
  rawAction init r.kind

/-- `GhidraCommand::doit`: the `try` block and its handlers, then the result unless a
`JavaError` aborted the command. -/
def doit (init : SpecDocs → Option ArchError) (r : Request) : CommandM Response := do
  modify fun p => { p with status := 0 }
  match ← tryCatch (do doitTry init r; pure none) (handleError r.kind) with
  | some err => pure (.javaError err)
  | none => do
    sendResult r.kind
    pure .done

/-- `main`: every request handed to its command, until a command returns a non-zero
status. -/
def serve (init : SpecDocs → Option ArchError) : List Request → Process → List Response × Process
  | [], p => ([], p)
  | r :: rs, p =>
    match (doit init r).run p with
    | .ok resp q =>
      if q.status = 0 then
        let (resps, q') := serve init rs q
        (resp :: resps, q')
      else ([resp], q)
    | .error _ q => ([], q)

/-- The architecture command `c` works with after reading `id`: `archlist[id]` when the id
is in range, and otherwise whatever its `ghidra` field already holds. -/
def Process.select (p : Process) (c : CommandKind) (id : Int) : Option Nat :=
  if 0 ≤ id ∧ id < p.archlist.length then p.slot id else p.ghidra c

/-- An effect on architecture `a` or on `archlist[i]`. -/
def Effect.concerns (a : Nat) (i : Int) : Effect → Bool
  | .create _ => false
  | .clearWarnings b | .act b | .getWarnings b | .printMessage b _ | .delete b => b == a
  | .clearSlot j => j == i

/-! ### Running a command -/

/-- One step of a command after another: the state the first reaches, or its error. -/
theorem run_bind {α β : Type} (x : CommandM α) (f : α → CommandM β) (p : Process) :
    (x >>= f).run p = match x.run p with
      | .ok a q => (f a).run q
      | .error e q => .error e q := by
  show EStateM.bind x f p = _
  delta EStateM.run
  simp only [EStateM.bind]
  cases x p <;> rfl

theorem run_pure {α : Type} (x : α) (p : Process) :
    (pure x : CommandM α).run p = .ok x p := rfl

theorem run_get (p : Process) : (get : CommandM Process).run p = .ok p p := rfl

/-- `doit`'s handler sees the error and the state the command reached. -/
theorem run_tryCatch {α : Type} (x : CommandM α) (h : CommandError → CommandM α) (p : Process) :
    (tryCatch x h).run p = match x.run p with
      | .ok a q => .ok a q
      | .error e q => (h e).run q := by
  show EStateM.tryCatch x h p = _
  delta EStateM.run
  simp only [EStateM.tryCatch]
  cases x p <;> rfl

theorem run_modify (f : Process → Process) (p : Process) :
    (modify f : CommandM Unit).run p = .ok () (f p) := rfl

theorem run_throw {α : Type} (e : CommandError) (p : Process) :
    (throw e : CommandM α).run p = .error e p := rfl

/-- **Reading the id.** With both bursts in place, the command object ends up holding the
selected architecture, and fails with "No architecture registered with decompiler" when
there is none; only then is the architecture's warning list cleared. -/
theorem readArchId_run (c : CommandKind) (sm em : String) (save : Int → Process → Process)
    (r : Request) (hs : r.idStart) (he : r.idEnd) (p : Process) :
    let q := save r.id p
    (readArchId c sm em save r).run p =
      match q.select c r.id with
      | none => .error (.java noArchitecture)
          { q with ghidra := Function.update q.ghidra c none }
      | some a => .ok () { q with ghidra := Function.update q.ghidra c (some a),
                                  log := q.log ++ [.clearWarnings a] } := by
  delta EStateM.run
  simp only [readArchId, hs, he, Bool.not_true, Bool.false_eq_true, ite_false, bind,
    EStateM.bind, modify, modifyGet, MonadStateOf.modifyGet, EStateM.modifyGet, get, getThe,
    MonadStateOf.get, EStateM.get, pure, EStateM.pure, throw, throwThe, MonadExceptOf.throw,
    EStateM.throw, setGhidra, emit, Process.select]
  split_ifs with hin
  · cases (save r.id p).slot r.id <;>
      simp only [EStateM.bind, EStateM.modifyGet, EStateM.get, EStateM.throw, Function.update_same]
  · have hu : ∀ a, (save r.id p).ghidra c = a →
        Function.update (save r.id p).ghidra c a = (save r.id p).ghidra := fun a h => by
      rw [← h]; exact Function.update_eq_self _ _
    cases h : (save r.id p).ghidra c <;>
      simp only [EStateM.bind, EStateM.pure, EStateM.get, EStateM.throw, EStateM.modifyGet, h,
        hu _ h]

theorem run_deregister_rawAction (p : Process) :
    DeregisterProgram.rawAction.run p = .ok ()
      (match p.ghidra .deregisterProgram with
       | some a =>
         { p with
           archlist := if 0 ≤ p.inid then p.archlist.set p.inid.toNat none else p.archlist,
           status := 1, ghidra := Function.update p.ghidra .deregisterProgram none,
           log := p.log ++ [.clearSlot p.inid] ++ [.delete a] }
       | none => p) := by
  simp only [DeregisterProgram.rawAction, run_bind, run_get]
  cases p.ghidra .deregisterProgram <;> rfl

/-- **`doit`**: the `try` block from status 0; then a `JavaError` is the response, with no
result sent, and otherwise, after printing the error the block threw if it threw one, the
warnings of the command's architecture are sent. -/
theorem run_doit (init : SpecDocs → Option ArchError) (r : Request) (p : Process) :
    (doit init r).run p =
      match (doitTry init r).run { p with status := 0 } with
      | .ok _ q => .ok .done (q.useArch r.kind .getWarnings)
      | .error (.java e) q => .ok (.javaError e) q
      | .error (.arch e) q =>
        .ok .done ((q.useArch r.kind (.printMessage · e.message)).useArch r.kind .getWarnings) := by
  simp only [doit, run_bind, run_modify, run_tryCatch]
  rcases (doitTry init r).run { p with status := 0 } with ⟨_, q⟩ | ⟨e | e, q⟩ <;> rfl

theorem run_doitTry (init : SpecDocs → Option ArchError) (r : Request) (p : Process) :
    (doitTry init r).run p =
      match (loadParameters r.kind r).run p with
      | .ok _ q => if r.commandEnd then (rawAction init r.kind).run q
          else .error (.java ⟨"alignment", "Missing end of command"⟩) q
      | .error e q => .error e q := by
  simp only [doitTry, run_bind]
  rcases (loadParameters r.kind r).run p with ⟨_, q⟩ | ⟨e, q⟩
  · cases r.commandEnd <;> rfl
  · rfl

/-- Every command other than `registerProgram` and `deregisterProgram` reads its id with
`GhidraCommand::loadParameters` and then works with its architecture. -/
theorem loadParameters_generic {c : CommandKind} (h1 : c ≠ .registerProgram)
    (h2 : c ≠ .deregisterProgram) (r : Request) :
    loadParameters c r = GhidraCommand.loadParameters c r := by
  cases c <;> first | exact absurd rfl h1 | exact absurd rfl h2 | rfl

theorem rawAction_generic (init : SpecDocs → Option ArchError) {c : CommandKind}
    (h1 : c ≠ .registerProgram) (h2 : c ≠ .deregisterProgram) :
    rawAction init c = actOnArchitecture c := by
  cases c <;> first | exact absurd rfl h1 | exact absurd rfl h2 | rfl

/-- **A complete `registerProgram`.** The command object keeps the documents and holds a new
architecture. When `init` accepts the documents, the architecture goes into the slot
`placeArch` picks and `archid` names that slot; when `init` throws, `archlist` and `archid`
are as they were, and the error is printed through the new architecture. Either way the
warnings of the new architecture are sent. -/
theorem run_registerProgram (init : SpecDocs → Option ArchError) (p : Process) {r : Request}
    (hk : r.kind = .registerProgram) (hce : r.commandEnd = true) :
    (doit init r).run p = .ok .done
      (match init r.specs with
       | none =>
         { p with
           status := 0, specs := r.specs, nextArch := p.nextArch + 1,
           ghidra := Function.update p.ghidra .registerProgram (some p.nextArch),
           archlist := (placeArch p.archlist p.nextArch).1,
           archid := (placeArch p.archlist p.nextArch).2,
           log := p.log ++ [.create p.nextArch, .getWarnings p.nextArch] }
       | some e =>
         { p with
           status := 0, specs := r.specs, nextArch := p.nextArch + 1,
           ghidra := Function.update p.ghidra .registerProgram (some p.nextArch),
           log := p.log ++ [.create p.nextArch, .printMessage p.nextArch e.message,
             .getWarnings p.nextArch] }) := by
  obtain ⟨k, id, specs, idStart, idEnd, commandEnd⟩ := r
  dsimp only at hk hce
  subst hk hce
  rw [run_doit, run_doitTry]
  simp only [loadParameters, RegisterProgram.loadParameters, run_modify, if_true, rawAction,
    RegisterProgram.rawAction, run_bind, run_get, emit, setGhidra]
  cases init specs <;>
    simp [Process.useArch, List.append_assoc, run_modify, run_throw]

/-- The selection reads `archlist` and the `ghidra` fields only. -/
theorem select_mk (p : Process) (i ai : Int) (sp : SpecDocs) (st na : Nat) (lg : List Effect)
    (c : CommandKind) (id : Int) :
    ({ archlist := p.archlist, ghidra := p.ghidra, inid := i, archid := ai, specs := sp,
       status := st, nextArch := na, log := lg } : Process).select c id = p.select c id := rfl

/-- **A command acts only on the architecture it selects.** A command that reads an arch id
either fails with "No architecture registered with decompiler", touching no architecture
and no slot of `archlist`, or has every effect on the architecture it selects and writes no
slot of `archlist` but the id's. For an id in range that architecture is `archlist[id]`;
for an id out of range it is the one the command object selected the last time it ran. -/
theorem doit_uses_selected (init : SpecDocs → Option ArchError) (p : Process) {r : Request}
    (hk : r.kind ≠ .registerProgram) (hs : r.idStart) (he : r.idEnd) :
    ∃ resp q es, (doit init r).run p = .ok resp q ∧ q.log = p.log ++ es ∧
      match p.select r.kind r.id with
      | none => resp = .javaError noArchitecture ∧ es = [] ∧ q.archlist = p.archlist
      | some a => (∀ e ∈ es, e.concerns a r.id) ∧
          ∀ j : Nat, (j : Int) ≠ r.id → q.archlist.getD j none = p.archlist.getD j none := by
  by_cases hd : r.kind = .deregisterProgram
  · obtain ⟨k, id, specs, idStart, idEnd, commandEnd⟩ := r
    dsimp only at hd
    subst hd
    rw [run_doit, run_doitTry]
    simp only [loadParameters, DeregisterProgram.loadParameters, run_bind, run_modify,
      readArchId_run _ _ _ _ _ hs he, select_mk]
    cases hsel : p.select .deregisterProgram id with
    | none => exact ⟨_, _, [], rfl, (List.append_nil _).symm, rfl, rfl, rfl⟩
    | some a =>
      cases commandEnd
      · exact ⟨_, _, [.clearWarnings a], rfl, rfl, by simp [Effect.concerns], fun j _ => rfl⟩
      · simp only [if_true, rawAction, run_deregister_rawAction, Function.update_same]
        refine ⟨_, _, [.clearWarnings a, .clearSlot id, .delete a], rfl,
          by simp [Process.useArch], by simp [Effect.concerns], fun j hj => ?_⟩
        simp only [Process.useArch, Function.update_same]
        split_ifs
        · rw [List.getD_eq_getElem?_getD, List.getD_eq_getElem?_getD,
            List.getElem?_set_ne (by omega)]
        · rfl
  · rw [run_doit, run_doitTry]
    simp only [loadParameters_generic hk hd, GhidraCommand.loadParameters,
      readArchId_run _ _ _ _ _ hs he, select_mk]
    cases hsel : p.select r.kind r.id with
    | none => exact ⟨_, _, [], rfl, (List.append_nil _).symm, rfl, rfl, rfl⟩
    | some a =>
      cases hce : r.commandEnd
      · exact ⟨_, _, [.clearWarnings a], rfl, rfl, by simp [Effect.concerns], fun j _ => rfl⟩
      · simp only [if_true, rawAction_generic init hk hd, actOnArchitecture, run_modify]
        exact ⟨_, _, [.clearWarnings a, .act a, .getWarnings a], rfl,
          by simp [Process.useArch], by simp [Effect.concerns], fun j _ => by
            simp [Process.useArch]⟩

/-! ### A stale architecture -/

/-- Architecture 0 registered in slot 0 and decompiled at, then `decompileAt` on id 1, which
`archlist` has no slot for. -/
def staleSession : List Request :=
  [{ kind := .registerProgram }, { kind := .decompileAt, id := 0 },
    { kind := .decompileAt, id := 1 }]

/-- **An unregistered id reaches a registered architecture.** In `staleSession` every
command succeeds, and the last one decompiles with architecture 0 instead of failing. -/
theorem decompileAt_stale_architecture :
    (serve (fun _ => none) staleSession {}).1 = [.done, .done, .done] ∧
      (serve (fun _ => none) staleSession {}).2.archlist = [some 0] ∧
      (serve (fun _ => none) staleSession {}).2.log = [.create 0, .getWarnings 0,
        .clearWarnings 0, .act 0, .getWarnings 0, .clearWarnings 0, .act 0, .getWarnings 0] := by
  decide

end GhidraProcess

end GhidraDec
