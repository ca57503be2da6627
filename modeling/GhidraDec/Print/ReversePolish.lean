import Mathlib.Data.List.Basic

/-!
# The Reverse-Polish Stack of the Printer

`PrintLanguage` (`printlanguage.cc`) prints an expression from the prefix order of its tree:
`pushOp(tok, op)` for each operator and `pushAtom(atom)` for each leaf. The operators wait on
an RPN stack `revpol`; each entry counts the operands it has `visited`. Before each operand,
and once more after its last one, the entry on top is handed to `emitOp`, which emits the
token's own text at the place its kind gives it: a binary token between its operands, a
unary prefix before its operand, the two characters of a surround token around its first
(`presurround`) or second (`postsurround`) operand, and for a `space` token only the spacing
between its operands. Each operator is one group of the emitter, a parenthesis when
`OpToken::parentheses` asks for one at its place. An atom completes the entry on top, and
each entry that has visited `stage` operands is closed and popped, completing the one below.

The token, the stack entry, the atom and the emitter are declared in `printlanguage.hh` and
`prettyprint.hh`, outside the sources; they are modelled with the fields these functions read.
The emitter is a log of the calls made on it, an open handing out the next id of a counter.
An atom is its text. `pushOp` and `pushAtom` first recurse into pending implied varnodes; the
model is of pushes with none pending.

## Main results

* `run_pushes`: pushing a tree from any RPN stack emits what the recursive printer
  `printTree` emits for it, then completes the entry below;
* `pushTree_prints`: from an empty stack, pushing a tree emits exactly `printTree`'s calls,
  balanced and properly nested, every close naming the innermost open group, with the print
  text of each binary and unary token once, and `revpol` is empty after the last push and
  after no earlier one.
-/

namespace GhidraDec

namespace Print

/-- Modelled from the spec: `OpToken::tokentype` (`printlanguage.hh`, outside the sources). -/
inductive TokenType
  | binary | unaryPrefix | postsurround | presurround | space | hiddenfunction
  deriving DecidableEq, Repr

/-- Modelled from the spec: `OpToken` (`printlanguage.hh`, outside the sources), with the fields
`printlanguage.cc` reads. A token is a static object; `ident` stands for its address, which
`parentheses` compares. -/
structure OpToken where
  print : String
  stage : Nat
  precedence : Int
  associative : Bool
  type : TokenType
  spacing : Int
  bump : Int
  ident : Nat
  deriving DecidableEq, Repr

namespace OpToken

/-- `print[i]`: a character of the token's text, the terminating NUL past its end. -/
def printChar (t : OpToken) (i : Nat) : Char := t.print.toList.getD i (Char.ofNat 0)

/-- `OpToken::parentheses`: whether `op2`, met as an operand of this token after `stage`
operands, is put in parentheses. -/
def parentheses (t op2 : OpToken) (stage : Nat) : Bool :=
  match t.type with
  | .space | .binary =>
    if t.precedence > op2.precedence then true
    else if t.precedence < op2.precedence then false
    else if t.associative && t.ident == op2.ident then false
    else !(op2.type == .postsurround && stage == 0)
  | .unaryPrefix =>
    if t.precedence > op2.precedence then true
    else if t.precedence < op2.precedence then false
    else !(op2.type == .unaryPrefix || op2.type == .presurround)
  | .postsurround =>
    if stage == 1 then false
    else if t.precedence > op2.precedence then true
    else if t.precedence < op2.precedence then false
    else !(op2.type == .postsurround || op2.type == .binary)
  | .presurround =>
    if stage == 0 then false
    else if t.precedence > op2.precedence then true
    else if t.precedence < op2.precedence then false
    else !(op2.type == .unaryPrefix || op2.type == .presurround)
  | .hiddenfunction => true

end OpToken

/-- Modelled from the spec: `ReversePolish` (`printlanguage.hh`, outside the sources): the
token, the operands visited, whether its group is a parenthesis, the p-code op, and the ids
of its group and of a surround token's parenthesis. -/
structure ReversePolish where
  tok : OpToken
  visited : Nat
  paren : Bool
  op : Nat
  id : Nat
  id2 : Nat
  deriving DecidableEq, Repr

/-- Modelled from the spec: the calls `PrintLanguage` makes on its emitter (`Emit`,
`prettyprint.hh`, outside the sources). -/
inductive EmitEvent
  | openGroup (id : Nat)
  | closeGroup (id : Nat)
  | openParen (c : Char) (id : Nat)
  | closeParen (c : Char) (id : Nat)
  | spaces (num bump : Int)
  | tagOp (text : String) (op : Nat)
  | atom (text : String)
  deriving DecidableEq, Repr

/-- Modelled from the spec: the emitter (`EmitPrettyPrint`, outside the sources) as the log of
the calls made on it and the counter its opens take their ids from. -/
structure Emitter where
  nextId : Nat
  log : List EmitEvent
  deriving DecidableEq, Repr

namespace Emitter

/-- Log one call. -/
def record (em : Emitter) (ev : EmitEvent) : Emitter := { em with log := em.log ++ [ev] }

/-- `openGroup()`: a new group, with the next id. -/
def openGroup (em : Emitter) : Emitter × Nat :=
  (⟨em.nextId + 1, em.log ++ [.openGroup em.nextId]⟩, em.nextId)

/-- `openParen(c)`: a new parenthesis group, with the next id. -/
def openParen (em : Emitter) (c : Char) : Emitter × Nat :=
  (⟨em.nextId + 1, em.log ++ [.openParen c em.nextId]⟩, em.nextId)

@[simp] theorem openParen_snd (em : Emitter) (c : Char) : (em.openParen c).2 = em.nextId := rfl

def closeGroup (em : Emitter) (id : Nat) : Emitter := em.record (.closeGroup id)

def closeParen (em : Emitter) (c : Char) (id : Nat) : Emitter := em.record (.closeParen c id)

def spaces (em : Emitter) (num bump : Int) : Emitter := em.record (.spaces num bump)

def tagOp (em : Emitter) (text : String) (op : Nat) : Emitter := em.record (.tagOp text op)

/-- The group of an operator: `openParen('(')` when it is a parenthesis, else `openGroup()`. -/
def openGroupOf (em : Emitter) (paren : Bool) : Emitter × Nat :=
  if paren then em.openParen '(' else em.openGroup

/-- The close of an operator's group: `closeParen(')', id)` or `closeGroup(id)`. -/
def closeGroupOf (em : Emitter) (paren : Bool) (id : Nat) : Emitter :=
  if paren then em.closeParen ')' id else em.closeGroup id

end Emitter

/-- `PrintLanguage::emitOp`: what an entry emits when it is looked at after `visited` operands,
and the entry with the id of a surround token's parenthesis recorded in it. -/
def emitOp (em : Emitter) (entry : ReversePolish) : Emitter × ReversePolish :=
  let t := entry.tok
  match t.type with
  | .binary =>
    if entry.visited ≠ 1 then (em, entry)
    else (((em.spaces t.spacing t.bump).tagOp t.print entry.op).spaces t.spacing t.bump, entry)
  | .unaryPrefix =>
    if entry.visited ≠ 0 then (em, entry)
    else ((em.tagOp t.print entry.op).spaces t.spacing t.bump, entry)
  | .postsurround =>
    if entry.visited = 0 then (em, entry)
    else if entry.visited = 1 then
      let (em, id2) := (em.spaces t.spacing t.bump).openParen (t.printChar 0)
      (em.spaces 0 t.bump, { entry with id2 := id2 })
    else (em.closeParen (t.printChar 1) entry.id2, entry)
  | .presurround =>
    if entry.visited = 2 then (em, entry)
    else if entry.visited = 0 then
      let (em, id2) := em.openParen (t.printChar 0)
      (em, { entry with id2 := id2 })
    else ((em.closeParen (t.printChar 1) entry.id2).spaces t.spacing t.bump, entry)
  | .space => if entry.visited ≠ 1 then (em, entry) else (em.spaces t.spacing t.bump, entry)
  | .hiddenfunction => (em, entry)

/-- The printer: the RPN stack `revpol`, top first, and the emitter. -/
structure Printer where
  revpol : List ReversePolish
  emit : Emitter

/-- The loop ending `pushAtom`: the entry on top has visited one more operand; when that makes
`stage` of them it is emitted a last time, its group is closed and it is popped, and the loop
goes on with the entry below. -/
def complete : List ReversePolish → Emitter → Printer
  | [], em => ⟨[], em⟩
  | e :: rest, em =>
    let e := { e with visited := e.visited + 1 }
    if e.visited = e.tok.stage then
      let (em, e) := emitOp em e
      complete rest (em.closeGroupOf e.paren e.id)
    else ⟨e :: rest, em⟩

/-- `PrintLanguage::pushOp`: the entry on top is emitted before its new operand, which opens a
group, a parenthesis if that entry's token asks for one, and goes on the stack unvisited. -/
def pushOp (p : Printer) (tok : OpToken) (op : Nat) : Printer :=
  match p.revpol with
  | [] =>
    let (em, id) := p.emit.openGroup
    ⟨[⟨tok, 0, false, op, id, 0⟩], em⟩
  | top :: rest =>
    let (em, top) := emitOp p.emit top
    let paren := top.tok.parentheses tok top.visited
    let (em, id) := em.openGroupOf paren
    ⟨⟨tok, 0, paren, op, id, 0⟩ :: top :: rest, em⟩

/-- `PrintLanguage::pushAtom`: the entry on top is emitted before the atom, the atom is
emitted, and the entries it completes are closed. -/
def pushAtom (p : Printer) (atom : String) : Printer :=
  match p.revpol with
  | [] => ⟨[], p.emit.record (.atom atom)⟩
  | top :: rest =>
    let (em, top) := emitOp p.emit top
    complete (top :: rest) (em.record (.atom atom))

/-- A call on the printer: `pushOp` or `pushAtom`. -/
inductive Push
  | op (tok : OpToken) (op : Nat)
  | atom (text : String)

/-- One call. -/
def Printer.push (p : Printer) : Push → Printer
  | .op tok op => pushOp p tok op
  | .atom a => pushAtom p a

/-- A sequence of calls. -/
def Printer.run (p : Printer) (ps : List Push) : Printer := ps.foldl Printer.push p

/-- An expression tree: atoms at the leaves, a token of one operand or of two over them. -/
inductive ExprTree
  | atom (text : String)
  | unary (tok : OpToken) (op : Nat) (e : ExprTree)
  | binary (tok : OpToken) (op : Nat) (e₁ e₂ : ExprTree)

namespace ExprTree

/-- The calls of a tree in prefix order. -/
def pushes : ExprTree → List Push
  | atom a => [.atom a]
  | unary tok op e => .op tok op :: e.pushes
  | binary tok op e₁ e₂ => .op tok op :: (e₁.pushes ++ e₂.pushes)

/-- The tokens of a tree have the stage of their operands: a unary prefix of stage 1 over one,
and a binary, space or surround token of stage 2 over two. -/
def staged : ExprTree → Bool
  | atom _ => true
  | unary tok _ e => tok.type == .unaryPrefix && tok.stage == 1 && e.staged
  | binary tok _ e₁ e₂ =>
    (tok.type == .binary || tok.type == .space || tok.type == .presurround ||
      tok.type == .postsurround) && tok.stage == 2 && e₁.staged && e₂.staged

/-- The print texts a tree's tokens emit through `tagOp`, in order: those of its binary and
unary tokens. -/
def opTexts : ExprTree → List String
  | atom _ => []
  | unary tok _ e => tok.print :: e.opTexts
  | binary tok _ e₁ e₂ =>
    e₁.opTexts ++ (if tok.type = .binary then [tok.print] else []) ++ e₂.opTexts

end ExprTree

/-- Whether an operator is put in parentheses, given the token it is an operand of and that
token's operands before it. -/
def needsParen (parent : Option (OpToken × Nat)) (tok : OpToken) : Bool :=
  parent.any fun pk => pk.1.parentheses tok pk.2

/-- The recursive printer the RPN stack implements. An operator is one group around its
operands; a binary token's text goes between them, a unary token's before its operand, a
presurround token's two characters around its first operand and a postsurround token's around
its second, and a space token puts only its spacing between them. -/
def printTree : Option (OpToken × Nat) → ExprTree → Emitter → Emitter
  | _, .atom a, em => em.record (.atom a)
  | parent, .unary tok op e, em =>
    let paren := needsParen parent tok
    let (em, id) := em.openGroupOf paren
    let em := (em.tagOp tok.print op).spaces tok.spacing tok.bump
    (printTree (some (tok, 0)) e em).closeGroupOf paren id
  | parent, .binary tok op e₁ e₂, em =>
    let paren := needsParen parent tok
    let (em, id) := em.openGroupOf paren
    let em := match tok.type with
      | .binary =>
        let em := printTree (some (tok, 0)) e₁ em
        let em := ((em.spaces tok.spacing tok.bump).tagOp tok.print op).spaces tok.spacing tok.bump
        printTree (some (tok, 1)) e₂ em
      | .presurround =>
        let (em, id2) := em.openParen (tok.printChar 0)
        let em := printTree (some (tok, 0)) e₁ em
        let em := (em.closeParen (tok.printChar 1) id2).spaces tok.spacing tok.bump
        printTree (some (tok, 1)) e₂ em
      | .postsurround =>
        let em := printTree (some (tok, 0)) e₁ em
        let (em, id2) := (em.spaces tok.spacing tok.bump).openParen (tok.printChar 0)
        let em := printTree (some (tok, 1)) e₂ (em.spaces 0 tok.bump)
        em.closeParen (tok.printChar 1) id2
      | _ =>
        let em := printTree (some (tok, 0)) e₁ em
        printTree (some (tok, 1)) e₂ (em.spaces tok.spacing tok.bump)
    em.closeGroupOf paren id

/-! ### `emitOp` by token kind -/

section EmitOp

variable {em : Emitter} {e : ReversePolish}

/-- `emitOp` keeps an entry's token, visit count, kind of group and group id. -/
theorem emitOp_snd (em : Emitter) (e : ReversePolish) :
    (emitOp em e).2 = { e with id2 := (emitOp em e).2.id2 } := by
  cases h : e.tok.type <;> simp only [emitOp, h] <;> split_ifs <;> rfl

@[simp] theorem emitOp_tok (em : Emitter) (e : ReversePolish) : (emitOp em e).2.tok = e.tok :=
  by rw [emitOp_snd]

@[simp] theorem emitOp_visited (em : Emitter) (e : ReversePolish) :
    (emitOp em e).2.visited = e.visited :=
  by rw [emitOp_snd]

@[simp] theorem emitOp_paren (em : Emitter) (e : ReversePolish) : (emitOp em e).2.paren = e.paren :=
  by rw [emitOp_snd]

@[simp] theorem emitOp_id (em : Emitter) (e : ReversePolish) : (emitOp em e).2.id = e.id :=
  by rw [emitOp_snd]

theorem emitOp_binary (h : e.tok.type = .binary) :
    emitOp em e = if e.visited = 1 then
      (((em.spaces e.tok.spacing e.tok.bump).tagOp e.tok.print e.op).spaces e.tok.spacing
        e.tok.bump, e) else (em, e) := by
  by_cases hv : e.visited = 1 <;> simp [emitOp, h, hv]

theorem emitOp_unaryPrefix (h : e.tok.type = .unaryPrefix) :
    emitOp em e = if e.visited = 0 then
      ((em.tagOp e.tok.print e.op).spaces e.tok.spacing e.tok.bump, e) else (em, e) := by
  by_cases hv : e.visited = 0 <;> simp [emitOp, h, hv]

theorem emitOp_space (h : e.tok.type = .space) :
    emitOp em e = if e.visited = 1 then (em.spaces e.tok.spacing e.tok.bump, e) else (em, e) := by
  by_cases hv : e.visited = 1 <;> simp [emitOp, h, hv]

theorem emitOp_presurround (h : e.tok.type = .presurround) :
    emitOp em e = if e.visited = 2 then (em, e)
      else if e.visited = 0 then
        ((em.openParen (e.tok.printChar 0)).1, { e with id2 := em.nextId })
      else ((em.closeParen (e.tok.printChar 1) e.id2).spaces e.tok.spacing e.tok.bump, e) := by
  simp only [emitOp, h]; rfl

theorem emitOp_postsurround (h : e.tok.type = .postsurround) :
    emitOp em e = if e.visited = 0 then (em, e)
      else if e.visited = 1 then
        ((((em.spaces e.tok.spacing e.tok.bump).openParen (e.tok.printChar 0)).1).spaces 0
          e.tok.bump, { e with id2 := (em.spaces e.tok.spacing e.tok.bump).nextId })
      else (em.closeParen (e.tok.printChar 1) e.id2, e) := by
  simp only [emitOp, h]; rfl

end EmitOp

/-! ### The calls in one form -/

/-- `emitOp(revpol.back())`, before an operand of the entry on top and after its last. -/
def Printer.emitTop : Printer → Printer
  | ⟨[], em⟩ => ⟨[], em⟩
  | ⟨e :: rest, em⟩ => ⟨(emitOp em e).2 :: rest, (emitOp em e).1⟩

/-- The entry on top as the parent of the operand pushed next: its token and the operands it
has visited. -/
def operandContext (S : List ReversePolish) : Option (OpToken × Nat) :=
  S.head?.map fun r => (r.tok, r.visited)

theorem length_revpol_emitTop (p : Printer) : p.emitTop.revpol.length = p.revpol.length := by
  rcases p with ⟨_ | _, _⟩ <;> rfl

/-- `pushOp` with and without an entry on the stack: the new entry's group is a parenthesis
when the parent's token asks for one. -/
theorem pushOp_eq (p : Printer) (tok : OpToken) (op : Nat) :
    pushOp p tok op =
      let q := p.emitTop
      let paren := needsParen (operandContext q.revpol) tok
      ⟨⟨tok, 0, paren, op, (q.emit.openGroupOf paren).2, 0⟩ :: q.revpol,
        (q.emit.openGroupOf paren).1⟩ := by
  rcases p with ⟨_ | ⟨top, rest⟩, em⟩
  · rfl
  · simp only [pushOp, Printer.emitTop, operandContext, needsParen, List.head?_cons,
      Option.map_some', Option.any_some, emitOp_tok, emitOp_visited]

theorem pushAtom_eq (p : Printer) (a : String) :
    pushAtom p a = complete p.emitTop.revpol (p.emitTop.emit.record (.atom a)) := by
  rcases p with ⟨_ | _, _⟩ <;> rfl

theorem complete_of_lt {e : ReversePolish} (h : e.visited + 1 ≠ e.tok.stage)
    (rest : List ReversePolish) (em : Emitter) :
    complete (e :: rest) em = ⟨{ e with visited := e.visited + 1 } :: rest, em⟩ := by
  simp [complete, h]

theorem complete_of_eq {e : ReversePolish} (h : e.visited + 1 = e.tok.stage)
    (rest : List ReversePolish) (em : Emitter) :
    complete (e :: rest) em =
      complete rest
        ((emitOp em { e with visited := e.visited + 1 }).1.closeGroupOf e.paren e.id) := by
  simp [complete, h]

@[simp] theorem run_nil (p : Printer) : p.run [] = p := rfl

@[simp] theorem run_cons (p : Printer) (c : Push) (cs : List Push) :
    p.run (c :: cs) = (p.push c).run cs := rfl

theorem run_append (p : Printer) (cs ds : List Push) : p.run (cs ++ ds) = (p.run cs).run ds :=
  List.foldl_append _ _ _ _

/-! ### The pushes of a tree -/

/-- **The RPN stack prints a tree as the recursive printer does.** From any stack, the calls
of a tree emit what `printTree` emits for the tree as the next operand of the entry on top,
after that entry has been looked at, and then complete that entry. -/
theorem run_pushes (e : ExprTree) (he : e.staged = true) (p : Printer) :
    p.run e.pushes =
      complete p.emitTop.revpol (printTree (operandContext p.emitTop.revpol) e p.emitTop.emit) := by
  induction e generalizing p with
  | atom a => exact pushAtom_eq p a
  | unary tok op c ih =>
    simp only [ExprTree.staged, Bool.and_eq_true, beq_iff_eq] at he
    obtain ⟨⟨hty, hst⟩, hc⟩ := he
    rw [ExprTree.pushes, run_cons, Printer.push, pushOp_eq, ih hc]
    simp [Printer.emitTop, emitOp_unaryPrefix, complete_of_eq, hty, hst, operandContext,
      printTree]
  | binary tok op c₁ c₂ ih₁ ih₂ =>
    simp only [ExprTree.staged, Bool.and_eq_true, Bool.or_eq_true, beq_iff_eq] at he
    obtain ⟨⟨⟨hty, hst⟩, hc₁⟩, hc₂⟩ := he
    rw [ExprTree.pushes, run_cons, Printer.push, pushOp_eq, run_append, ih₁ hc₁]
    generalize p.emitTop = q
    obtain ⟨S, em⟩ := q
    simp only [Printer.emitTop]
    rw [complete_of_lt (by simp [hst]), ih₂ hc₂]
    simp only [Printer.emitTop]
    rw [complete_of_eq (by simp [hst]), printTree]
    generalize needsParen (operandContext S) tok = paren
    generalize em.openGroupOf paren = g
    rcases hty with ((hty | hty) | hty) | hty <;>
      simp [emitOp_binary, emitOp_space, emitOp_presurround, emitOp_postsurround, hty,
        operandContext]

/-! ### Balance and nesting -/

/-- One call replayed against the groups still open, innermost first, each with whether it is
a parenthesis: an open pushes its id; a close must name the innermost open group, of its own
kind, and pops it, or the replay fails. -/
def closeStep (opens : List (Bool × Nat)) : EmitEvent → Option (List (Bool × Nat))
  | .openGroup id => some ((false, id) :: opens)
  | .openParen _ id => some ((true, id) :: opens)
  | .closeGroup id => if opens.head? = some (false, id) then some opens.tail else none
  | .closeParen _ id => if opens.head? = some (true, id) then some opens.tail else none
  | _ => some opens

/-- The groups a log leaves open, `none` when one of its closes does not name the innermost
open group. -/
def openGroups (log : List EmitEvent) : Option (List (Bool × Nat)) :=
  log.foldl (fun acc ev => acc.bind (closeStep · ev)) (some [])

section OpenGroups

variable (em : Emitter)

theorem openGroups_record (ev : EmitEvent) :
    openGroups (em.record ev).log = (openGroups em.log).bind (closeStep · ev) := by
  simp [Emitter.record, openGroups, List.foldl_append]

@[simp] theorem openGroups_spaces (num bump : Int) :
    openGroups (em.spaces num bump).log = openGroups em.log := by
  simp [Emitter.spaces, openGroups_record, closeStep]

@[simp] theorem openGroups_tagOp (text : String) (op : Nat) :
    openGroups (em.tagOp text op).log = openGroups em.log := by
  simp [Emitter.tagOp, openGroups_record, closeStep]

@[simp] theorem openGroups_atom (text : String) :
    openGroups (em.record (.atom text)).log = openGroups em.log := by
  simp [openGroups_record, closeStep]

@[simp] theorem openGroups_openParen (c : Char) :
    openGroups (em.openParen c).1.log = (openGroups em.log).map (List.cons (true, em.nextId)) := by
  simp [Emitter.openParen, openGroups, List.foldl_append, closeStep, Option.bind_eq_bind,
    Option.map_eq_bind]

@[simp] theorem openGroups_openGroupOf (paren : Bool) :
    openGroups (em.openGroupOf paren).1.log =
      (openGroups em.log).map (List.cons (paren, em.nextId)) := by
  cases paren
  · simp [Emitter.openGroupOf, Emitter.openGroup, openGroups, List.foldl_append, closeStep,
      Option.bind_eq_bind, Option.map_eq_bind]
  · exact openGroups_openParen em _

@[simp] theorem openGroupOf_snd (paren : Bool) : (em.openGroupOf paren).2 = em.nextId := by
  cases paren <;> rfl

/-- Closing the innermost open group. -/
theorem openGroups_closeParen {o : Option (List (Bool × Nat))} {c : Char} {id : Nat}
    (h : openGroups em.log = o.map (List.cons (true, id))) :
    openGroups (em.closeParen c id).log = o := by
  rw [Emitter.closeParen, openGroups_record, h]
  cases o <;> simp [closeStep]

theorem openGroups_closeGroupOf {o : Option (List (Bool × Nat))} {paren : Bool} {id : Nat}
    (h : openGroups em.log = o.map (List.cons (paren, id))) :
    openGroups (em.closeGroupOf paren id).log = o := by
  cases paren
  · rw [Emitter.closeGroupOf, if_neg Bool.false_ne_true, Emitter.closeGroup, openGroups_record, h]
    cases o <;> simp [closeStep]
  · exact openGroups_closeParen em h

end OpenGroups

/-- **The recursive printer is balanced and properly nested**: every group it opens it closes,
each close naming the innermost group still open, so it leaves the open groups as it found
them. -/
theorem printTree_openGroups (parent : Option (OpToken × Nat)) (e : ExprTree) (em : Emitter) :
    openGroups (printTree parent e em).log = openGroups em.log := by
  induction e generalizing parent em with
  | atom a => exact openGroups_atom em a
  | unary tok op c ih =>
    simp only [printTree]
    exact openGroups_closeGroupOf _ (by simp [ih])
  | binary tok op c₁ c₂ ih₁ ih₂ =>
    simp only [printTree]
    refine openGroups_closeGroupOf _ ?_
    cases tok.type
    case presurround =>
      rw [ih₂, openGroups_spaces]
      exact openGroups_closeParen _ (by simp [ih₁])
    case postsurround => exact openGroups_closeParen _ (by simp [ih₁, ih₂])
    all_goals simp [ih₁, ih₂]

/-- The texts of the `tagOp` calls of a log. -/
def tagTexts (log : List EmitEvent) : List String :=
  log.filterMap fun
    | .tagOp text _ => some text
    | _ => none

section TagTexts

variable (em : Emitter)

@[simp] theorem tagTexts_spaces (num bump : Int) :
    tagTexts (em.spaces num bump).log = tagTexts em.log := by
  simp [Emitter.spaces, Emitter.record, tagTexts]

@[simp] theorem tagTexts_tagOp (text : String) (op : Nat) :
    tagTexts (em.tagOp text op).log = tagTexts em.log ++ [text] := by
  simp [Emitter.tagOp, Emitter.record, tagTexts]

@[simp] theorem tagTexts_atom (text : String) :
    tagTexts (em.record (.atom text)).log = tagTexts em.log := by
  simp [Emitter.record, tagTexts]

@[simp] theorem tagTexts_openParen (c : Char) :
    tagTexts (em.openParen c).1.log = tagTexts em.log := by
  simp [Emitter.openParen, tagTexts]

@[simp] theorem tagTexts_closeParen (c : Char) (id : Nat) :
    tagTexts (em.closeParen c id).log = tagTexts em.log := by
  simp [Emitter.closeParen, Emitter.record, tagTexts]

@[simp] theorem tagTexts_openGroupOf (paren : Bool) :
    tagTexts (em.openGroupOf paren).1.log = tagTexts em.log := by
  cases paren
  · simp [Emitter.openGroupOf, Emitter.openGroup, tagTexts]
  · exact tagTexts_openParen em _

@[simp] theorem tagTexts_closeGroupOf (paren : Bool) (id : Nat) :
    tagTexts (em.closeGroupOf paren id).log = tagTexts em.log := by
  cases paren
  · simp [Emitter.closeGroupOf, Emitter.closeGroup, Emitter.record, tagTexts]
  · exact tagTexts_closeParen em _ _

end TagTexts

/-- **Each binary and unary token's text once.** The `tagOp` calls of the recursive printer
are the texts of the tree's binary and unary tokens, in order; a space or surround token
makes none. -/
theorem printTree_tagTexts (parent : Option (OpToken × Nat)) (e : ExprTree) (em : Emitter) :
    tagTexts (printTree parent e em).log = tagTexts em.log ++ e.opTexts := by
  induction e generalizing parent em with
  | atom a => simp [printTree, ExprTree.opTexts]
  | unary tok op c ih => simp [printTree, ih, ExprTree.opTexts]
  | binary tok op c₁ c₂ ih₁ ih₂ =>
    simp only [printTree, tagTexts_closeGroupOf, ExprTree.opTexts]
    cases tok.type <;> simp [ih₁, ih₂]

/-! ### When the stack is empty -/

theorem length_revpol_pushOp (p : Printer) (tok : OpToken) (op : Nat) :
    (pushOp p tok op).revpol.length = p.revpol.length + 1 := by
  rw [pushOp_eq]
  exact congrArg (· + 1) (length_revpol_emitTop p)

/-- After the first operand of a token of stage 2, its entry is still on the stack. -/
theorem length_revpol_run_first {tok : OpToken} (hst : tok.stage = 2) (op : Nat) {c : ExprTree}
    (hc : c.staged = true) (p : Printer) :
    ((pushOp p tok op).run c.pushes).revpol.length = p.revpol.length + 1 := by
  rw [run_pushes c hc, pushOp_eq]
  simp only [Printer.emitTop]
  rw [complete_of_lt (by simp [hst])]
  exact congrArg (· + 1) (length_revpol_emitTop p)

theorem prefix_append_cases {α : Type} {l₁ l₂ q : List α} (h : q <+: l₁ ++ l₂) :
    q <+: l₁ ∨ ∃ r, r <+: l₂ ∧ q = l₁ ++ r := by
  rcases List.prefix_or_prefix_of_prefix h (List.prefix_append l₁ l₂) with h' | ⟨r, rfl⟩
  · exact .inl h'
  · exact .inr ⟨r, (List.prefix_append_right_inj l₁).mp h, rfl⟩

/-- Part of the calls of a tree leaves its root's entry, at least, above the stack it started
from. -/
theorem length_revpol_lt_run (e : ExprTree) (he : e.staged = true) (p : Printer)
    {q : List Push} (hq : q <+: e.pushes) (hne : q ≠ []) (hall : q ≠ e.pushes) :
    p.revpol.length < (p.run q).revpol.length := by
  induction e generalizing p q with
  | atom a =>
    rcases List.prefix_cons_iff.mp hq with rfl | ⟨t, rfl, ht⟩
    · exact absurd rfl hne
    · exact absurd (by rw [List.prefix_nil.mp ht]; rfl) hall
  | unary tok op c ih =>
    simp only [ExprTree.staged, Bool.and_eq_true] at he
    rcases List.prefix_cons_iff.mp hq with rfl | ⟨t, rfl, ht⟩
    · exact absurd rfl hne
    rw [run_cons, Printer.push]
    by_cases ht₀ : t = []
    · subst ht₀; simp [length_revpol_pushOp]
    · have ht₁ : t ≠ c.pushes := fun h => hall (by rw [h]; rfl)
      have := ih he.2 (pushOp p tok op) ht ht₀ ht₁
      have := length_revpol_pushOp p tok op
      omega
  | binary tok op c₁ c₂ ih₁ ih₂ =>
    simp only [ExprTree.staged, Bool.and_eq_true, beq_iff_eq] at he
    obtain ⟨⟨⟨-, hst⟩, hc₁⟩, hc₂⟩ := he
    rcases List.prefix_cons_iff.mp hq with rfl | ⟨t, rfl, ht⟩
    · exact absurd rfl hne
    rw [run_cons, Printer.push]
    have hop := length_revpol_pushOp p tok op
    have hfirst := length_revpol_run_first hst op hc₁ p
    rcases prefix_append_cases ht with ht | ⟨r, hr, rfl⟩
    · by_cases ht₀ : t = []
      · subst ht₀; simp [hop]
      · by_cases ht₁ : t = c₁.pushes
        · subst ht₁; omega
        · have := ih₁ hc₁ (pushOp p tok op) ht ht₀ ht₁
          omega
    · rw [run_append]
      by_cases hr₀ : r = []
      · subst hr₀; simp only [run_nil]; omega
      · have hr₁ : r ≠ c₂.pushes := fun h => hall (by rw [h]; rfl)
        have := ih₂ hc₂ ((pushOp p tok op).run c₁.pushes) hr hr₀ hr₁
        omega

/-! ### Pushing a tree -/

/-- **Pushing a tree from an empty stack.** The calls of a tree in prefix order, from an empty
RPN stack, emit exactly the calls of the recursive printer and leave the stack empty; those
calls are balanced and properly nested, every close naming the innermost group still open;
their `tagOp` texts are those of the tree's binary and unary tokens, each once; and the stack
is empty after no earlier call. -/
theorem pushTree_prints (e : ExprTree) (he : e.staged = true) (em : Emitter) :
    Printer.run ⟨[], em⟩ e.pushes = ⟨[], printTree none e em⟩ ∧
      openGroups (printTree none e em).log = openGroups em.log ∧
      tagTexts (printTree none e em).log = tagTexts em.log ++ e.opTexts ∧
      ∀ q, q <+: e.pushes → q ≠ [] → q ≠ e.pushes →
        (Printer.run ⟨[], em⟩ q).revpol ≠ [] :=
  ⟨run_pushes e he ⟨[], em⟩, printTree_openGroups none e em, printTree_tagTexts none e em,
    fun _ hq hne hall h => by simpa [h] using length_revpol_lt_run e he ⟨[], em⟩ hq hne hall⟩

/-! ### A small C-like language -/

/-- A binary `+`. -/
def plusToken : OpToken := ⟨"+", 2, 20, true, .binary, 1, 0, 0⟩

/-- A unary `-`. -/
def negToken : OpToken := ⟨"-", 1, 22, false, .unaryPrefix, 0, 0, 1⟩

/-- A call `f(x)`: the parentheses around the second operand. -/
def callToken : OpToken := ⟨"()", 2, 26, false, .postsurround, 0, 0, 2⟩

/-- A cast `(t)x`: the parentheses around the first operand. -/
def castToken : OpToken := ⟨"()", 2, 22, false, .presurround, 0, 0, 3⟩

/-- A space token with the text `x`. -/
def spaceToken : OpToken := ⟨"x", 2, 1, false, .space, 1, 0, 4⟩

/-- `-a + f((t)(b c))`, with a token of every kind. -/
def sampleTree : ExprTree :=
  .binary plusToken 0 (.unary negToken 1 (.atom "a"))
    (.binary callToken 2 (.atom "f")
      (.binary castToken 3 (.atom "t") (.binary spaceToken 4 (.atom "b") (.atom "c"))))

theorem pushTree_prints_sample :
    sampleTree.staged = true ∧
      (Printer.run ⟨[], ⟨0, []⟩⟩ sampleTree.pushes =
          ⟨[], printTree none sampleTree ⟨0, []⟩⟩ ∧
      openGroups (printTree none sampleTree ⟨0, []⟩).log = openGroups [] ∧
      tagTexts (printTree none sampleTree ⟨0, []⟩).log = tagTexts [] ++ sampleTree.opTexts ∧
      ∀ q, q <+: sampleTree.pushes → q ≠ [] → q ≠ sampleTree.pushes →
        (Printer.run ⟨[], ⟨0, []⟩⟩ q).revpol ≠ []) :=
  ⟨by decide, pushTree_prints sampleTree (by decide) ⟨0, []⟩⟩

example : openGroups (printTree none sampleTree ⟨0, []⟩).log = some [] ∧
    sampleTree.opTexts = ["-", "+"] := by decide

/-- `a x b`, for the space token `x`. -/
def spaceTree : ExprTree := .binary spaceToken 0 (.atom "a") (.atom "b")

/-- **A space token's text is not emitted.** For the space token `x` over `a` and `b`, the
calls are the group, `a`, the spacing and `b`: no `tagOp` of `x`. -/
theorem pushTree_space_text :
    spaceTree.staged = true ∧ spaceToken.print = "x" ∧
      (Printer.run ⟨[], ⟨0, []⟩⟩ spaceTree.pushes).emit.log =
        [.openGroup 0, .atom "a", .spaces 1 0, .atom "b", .closeGroup 0] := by
  decide

end Print

end GhidraDec
