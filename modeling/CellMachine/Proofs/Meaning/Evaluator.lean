import Mathlib.Tactic
import CellMachine.Script.Run
import CellMachine.Standard.Opcodes

/-!
What the functions of a script mean, by name.

A term stands for a value that nobody has asked for yet: a slot of memory, a cell of a function
applied to an argument, or two terms of a reduction. Asking for its value evaluates it from scratch,
each time it is asked for; nothing is remembered, and nothing is allocated.
-/

namespace CellMachine

/-- A value that was not asked for yet. -/
inductive Term where
  /-- A slot that has its value from the start. -/
  | slot (a : Address)
  /-- A cell of a function that is applied to an argument. -/
  | cell (function : Callable) (argument : Term) (index : Nat)
  /-- Two terms of a reduction, combined by an opcode into a value of a type. -/
  | combined (mnemonic : String) (type : Ty) (left right : Term)

/-- A value up to its members, which are left as terms. -/
inductive Head where
  | native (n : Native)
  | key (k : String)
  | list (items : List Term)
  | record (members : List (String × Term))
  | callable (c : Callable)

namespace Head

/-- A value of memory. -/
def ofValue : Value → Head
  | .native n => native n
  | .key k => key k
  | .iterable items => list (items.toList.map .slot)
  | .structured members => record (members.toList.map fun e => (e.1, .slot e.2))
  | .callable c => callable c

/-- The members of a value. -/
def terms : Head → List Term
  | list items => items
  | record members => members.map Prod.snd
  | _ => []

/-- The name of a member, given as a key or as text. -/
def asKey? : Head → Option String
  | key k => some k
  | native n => n.asString?
  | _ => none

end Head

/-- What the application of an opcode comes to. -/
inductive Answer where
  | value (h : Head)
  /-- The value of another term. -/
  | same (t : Term)
  /-- The fold of the elements of a term with an opcode. -/
  | fold (mnemonic : String) (items initial : Term)

/-- What evaluation reads. -/
structure Program where
  opcodes : Opcodes
  modules : KeyMap String Module
  types : Registry
  /-- The memory of the constants. -/
  constants : Memory
  /-- Memory with the argument of the run as well. -/
  memory : Memory

namespace Program

def typeOf (p : Program) : Term → Ty
  | .slot a => p.memory.typeOf a
  | .cell f _ i => ((f.cell? i).map Cell.type).getD .runtimeDetermined
  | .combined _ type _ _ => type

/-- The slot of a constant. -/
def constant? (p : Program) (moduleName name : String) : Option Address :=
  (p.constants.lookup moduleName name).bind p.constants.address?

/-- What a reference to a cell of an applied function stands for. -/
def reference (p : Program) (f : Callable) (x : Term) (i : Nat) : Term :=
  match (f.cell? i).map Cell.kind with
  | some (.external _) => x
  | some (.constant moduleName name) =>
    match p.constant? moduleName name with
    | some a => .slot a
    | none => .cell f x i
  | _ => .cell f x i

/-- Whether one type can stand where another is expected. -/
def suits (p : Program) (actual expected : Ty) : Bool :=
  (p.types.fresh.matchTypes none actual (some expected)).1.isOk

/-- Whether a function compiles. -/
def compiles (p : Program) (f : Callable) (argument result : Ty) : Bool :=
  ((CompileEnv.mk p.opcodes p.modules p.constants f).compile none argument result
    p.types.fresh).1.isOk

/-- Whether a function of a type compiles and accepts an argument of a type. -/
def accepts (p : Program) (f : Callable) (type argument : Ty) : Bool :=
  match type with
  | .callable _ _ expected result =>
    match p.types.resolve expected, p.types.resolve result with
    | .ok expected, .ok result =>
      p.compiles f expected result && (argument.isRuntimeDetermined || p.suits argument expected)
    | _, _ => false
  | _ => false

/-! ### Opcodes -/

/-- The native value of an argument that has to be of a native type. -/
def native? (p : Program) (expected : Ty) : Term × Option Head → Option Native
  | (t, some (.native n)) =>
    if ((p.typeOf t).isRuntimeDetermined || (p.typeOf t).tag? == expected.tag?) &&
      expected.admits n then some n else none
  | _ => none

def int? (p : Program) (e : Term × Option Head) : Option Int64 :=
  (p.native? Standard.integer e).bind Native.asInt?

def number? (p : Program) (e : Term × Option Head) : Option Float :=
  (p.native? Standard.number e).bind Native.asNumber?

def string? (p : Program) (e : Term × Option Head) : Option String :=
  (p.native? Standard.string e).bind Native.asString?

/-- The elements between two bounds, if they are in order. -/
def sliced (items : List Term) (start stop : Int64) : Option (List Term) :=
  if start.toInt < 0 ∨ (0 ≤ stop.toInt ∧ stop.toInt < start.toInt) then none
  else
    match Span.resolve ⟨some start.toNatClampNeg, some stop⟩ items.length with
    | some (low, high) => some (items.extract low high)
    | none => some []

/-- The slot of a constant that may stand for a value of a type. -/
def loaded (p : Program) (type : Ty) (moduleName name : String) : Option Address :=
  (p.modules.get? moduleName).bind fun m =>
    (m.constants.get? name).bind fun c =>
      if type.isRuntimeDetermined || p.suits c.type type then p.constant? moduleName name else none

/-- What a standard opcode comes to, for a cell of a type and arguments as far as they are evaluated. -/
def denote (p : Program) (mnemonic : String) (type : Ty) (args : List (Term × Option Head)) :
    Option Answer :=
  match mnemonic, args with
  | "iadd", [a, b] =>
    (p.int? a).bind fun x => (p.int? b).map fun y => .value (.native (.int (x + y)))
  | "nadd", [a, b] =>
    (p.number? a).bind fun x => (p.number? b).map fun y => .value (.native (.number (x + y)))
  | "concat", [a, b] =>
    (p.string? a).bind fun x => (p.string? b).map fun y => .value (.native (.string (x ++ y)))
  | "isum", [items, initial] => some (.fold "iadd" items.1 initial.1)
  | "nsum", [items, initial] => some (.fold "nadd" items.1 initial.1)
  | "peek", [(_, some (.list items)), (otherwise, _)] => some (.same (items.headD otherwise))
  | "slice", [(_, some (.list items)), start, stop] =>
    (p.int? start).bind fun low => (p.int? stop).bind fun high =>
      (sliced items low high).map fun items => .value (.list items)
  | "kload", [(_, some (.record members)), (_, some key)] =>
    (key.asKey?.bind fun k => KeyMap.get? members k).map .same
  | "cload", [moduleName, name] =>
    (p.string? moduleName).bind fun moduleName => (p.string? name).bind fun name =>
      (p.loaded type moduleName name).map fun a => .same (.slot a)
  | _, _ => none

section Step

variable (p : Program) (head : Term → Option Head) (tree : Term → Option Tree)

/-- An argument as far as an opcode wants it evaluated. -/
def argument : Evaluation → Term → Option (Option Head)
  | .evaluated, t => (tree t).bind fun _ => (head t).map some
  | .shallow, t => (head t).map some
  | .lazy, _ => some none

/-- The arguments of an opcode. -/
def arguments : List Argument → List Term → Option (List (Option Head))
  | a :: declared, t :: ts =>
    (argument head tree a.evaluation t).bind fun h =>
      (arguments declared ts).map fun hs => h :: hs
  | [], [] => some []
  | _, _ => none

/-- The value of an opcode applied to terms. -/
def apply (mnemonic : String) (type : Ty) (ts : List Term) : Option Head :=
  (p.opcodes.get? mnemonic).bind fun op =>
    (arguments head tree op.signature.arguments ts).bind fun hs =>
      (p.denote mnemonic type (ts.zip hs)).bind fun
        | .value h => some h
        | .same t => head t
        | .fold adding items initial =>
          (head items).bind fun
            | .list ts => head (ts.foldl (.combined adding type) initial)
            | _ => none

/-- The members of a structure cell, in the order in which its type stores them. -/
def members (f : Callable) (x : Term) (type : Ty) (members : KeyMap String Nat) :
    List (String × Term) :=
  type.stores.keys.filterMap fun k =>
    ((KeyMap.ofList members).get? k).map fun i => (k, p.reference f x i)

/-- The value of a cell of a function that is applied to an argument. -/
def ofCell (f : Callable) (x : Term) (cell : Cell) : Option Head :=
  match cell.kind with
  | .external _ => head x
  | .constant moduleName name => (p.constant? moduleName name).bind fun a => head (.slot a)
  | .structured members => some (.record (p.members f x cell.type members))
  | .iterable items => some (.list (items.map (p.reference f x)))
  | .opcode mnemonic arguments _ =>
    p.apply head tree mnemonic cell.type (arguments.map (p.reference f x))
  | .call callable argument =>
    let g := p.reference f x callable
    let y := p.reference f x argument
    (head g).bind fun
      | .callable c =>
        if p.accepts c (p.typeOf g) (p.typeOf y) then head (p.reference c y Callable.resultCell)
        else none
      | _ => none

/-- The value of a term, given those of others. -/
def headStep : Term → Option Head
  | .slot a => (p.memory.value? a).map Head.ofValue
  | .cell f x i => (f.cell? i).bind fun cell => p.ofCell head tree f x cell
  | .combined mnemonic type left right => p.apply head tree mnemonic type [left, right]

/-- The trees of several terms. -/
def trees (ts : List Term) : Option (List Tree) := ts.mapM tree

/-- A value with its members written out, given those of its members. -/
def treeOf : Head → Option Tree
  | .native n => some (.native n)
  | .key k => some (.key k)
  | .callable c => some (.callable c)
  | .list items => (trees tree items).map fun ts => .list (ts.map some)
  | .record members =>
    (trees tree (members.map Prod.snd)).map fun ts =>
      .record ((members.map Prod.fst).zip (ts.map some))

end Step

mutual

/-- The value of a term up to its members; `none` when there is none, or the fuel does not last. -/
def head (p : Program) : Nat → Term → Option Head
  | 0, _ => none
  | fuel + 1, t => p.headStep (fun t => p.head fuel t) (fun t => p.tree fuel t) t

/-- The value of a term with all its members. -/
def tree (p : Program) : Nat → Term → Option Tree
  | 0, _ => none
  | fuel + 1, t => (p.head fuel t).bind fun h => treeOf (fun t => p.tree fuel t) h

end

/-! ### More fuel -/

section Mono

variable {p : Program} {head head' : Term → Option Head} {tree tree' : Term → Option Tree}

lemma argument_mono (hh : ∀ t h, head t = some h → head' t = some h)
    (ht : ∀ t r, tree t = some r → tree' t = some r) {e : Evaluation} {t : Term} {o : Option Head}
    (h : argument head tree e t = some o) : argument head' tree' e t = some o := by
  cases e with
  | evaluated =>
    obtain ⟨r, hr, h⟩ := Option.bind_eq_some_iff.mp h
    obtain ⟨v, hv, rfl⟩ := Option.map_eq_some_iff.mp h
    simp only [argument, ht _ _ hr, hh _ _ hv, Option.bind_some, Option.map_some]
  | shallow =>
    obtain ⟨v, hv, rfl⟩ := Option.map_eq_some_iff.mp h
    simp only [argument, hh _ _ hv, Option.map_some]
  | lazy => exact h

lemma arguments_cons_iff {a : Argument} {declared : List Argument} {t : Term} {ts : List Term}
    {r : List (Option Head)} :
    arguments head tree (a :: declared) (t :: ts) = some r ↔ ∃ o hs,
      argument head tree a.evaluation t = some o ∧ arguments head tree declared ts = some hs ∧
        r = o :: hs := by
  rw [arguments]
  constructor
  · intro h
    obtain ⟨o, ho, h⟩ := Option.bind_eq_some_iff.mp h
    obtain ⟨hs, hhs, rfl⟩ := Option.map_eq_some_iff.mp h
    exact ⟨o, hs, ho, hhs, rfl⟩
  · rintro ⟨o, hs, ho, hhs, rfl⟩
    rw [ho, Option.bind_some, hhs, Option.map_some]

lemma arguments_mono (hh : ∀ t h, head t = some h → head' t = some h)
    (ht : ∀ t r, tree t = some r → tree' t = some r) {declared : List Argument} {ts : List Term}
    {hs : List (Option Head)} (h : arguments head tree declared ts = some hs) :
    arguments head' tree' declared ts = some hs := by
  induction declared generalizing ts hs with
  | nil =>
    cases ts with
    | nil => exact h
    | cons t ts => cases h
  | cons a declared ih =>
    cases ts with
    | nil => cases h
    | cons t ts =>
      obtain ⟨o, hs', ho, hhs, rfl⟩ := arguments_cons_iff.mp h
      exact arguments_cons_iff.mpr ⟨o, hs', argument_mono hh ht ho, ih hhs, rfl⟩

/-- An opcode applied to terms has a value when its arguments are evaluated as declared and what it
comes to has one. -/
lemma apply_eq_some_iff {mnemonic : String} {type : Ty} {ts : List Term} {h : Head} :
    p.apply head tree mnemonic type ts = some h ↔ ∃ op hs answer,
      p.opcodes.get? mnemonic = some op ∧
      arguments head tree op.signature.arguments ts = some hs ∧
      p.denote mnemonic type (ts.zip hs) = some answer ∧
      match answer with
      | .value v => v = h
      | .same t => head t = some h
      | .fold adding items initial => ∃ elements, head items = some (.list elements) ∧
          head (elements.foldl (.combined adding type) initial) = some h := by
  rw [apply]
  constructor
  · intro ha
    obtain ⟨op, hop, ha⟩ := Option.bind_eq_some_iff.mp ha
    obtain ⟨hs, hhs, ha⟩ := Option.bind_eq_some_iff.mp ha
    obtain ⟨answer, hanswer, ha⟩ := Option.bind_eq_some_iff.mp ha
    refine ⟨op, hs, answer, hop, hhs, hanswer, ?_⟩
    cases answer with
    | value v => exact Option.some.inj ha
    | same t => exact ha
    | fold adding items initial =>
      obtain ⟨v, hv, ha⟩ := Option.bind_eq_some_iff.mp ha
      cases v with
      | list elements => exact ⟨elements, hv, ha⟩
      | _ => cases ha
  · rintro ⟨op, hs, answer, hop, hhs, hanswer, ha⟩
    rw [hop, Option.bind_some, hhs, Option.bind_some, hanswer, Option.bind_some]
    cases answer with
    | value v => exact congrArg some ha
    | same t => exact ha
    | fold adding items initial =>
      obtain ⟨elements, hitems, ha⟩ := ha
      dsimp only
      rw [hitems]
      exact ha

lemma apply_mono (hh : ∀ t h, head t = some h → head' t = some h)
    (ht : ∀ t r, tree t = some r → tree' t = some r) {mnemonic : String} {type : Ty}
    {ts : List Term} {h : Head} (ha : p.apply head tree mnemonic type ts = some h) :
    p.apply head' tree' mnemonic type ts = some h := by
  obtain ⟨op, hs, answer, hop, hhs, hanswer, ha⟩ := apply_eq_some_iff.mp ha
  refine apply_eq_some_iff.mpr ⟨op, hs, answer, hop, arguments_mono hh ht hhs, hanswer, ?_⟩
  cases answer with
  | value v => exact ha
  | same t => exact hh _ _ ha
  | fold adding items initial =>
    obtain ⟨elements, hitems, ha⟩ := ha
    exact ⟨elements, hh _ _ hitems, hh _ _ ha⟩

/-- A called cell has a value when the callable accepts its argument and its result has one. -/
lemma ofCell_call_iff {f : Callable} {x : Term} {cell : Cell} {callable argument : Nat}
    (hkind : cell.kind = .call callable argument) {h : Head} :
    p.ofCell head tree f x cell = some h ↔ ∃ c,
      head (p.reference f x callable) = some (.callable c) ∧
      p.accepts c (p.typeOf (p.reference f x callable)) (p.typeOf (p.reference f x argument)) =
        true ∧
      head (p.reference c (p.reference f x argument) Callable.resultCell) = some h := by
  simp only [ofCell, hkind]
  constructor
  · intro ha
    obtain ⟨v, hv, ha⟩ := Option.bind_eq_some_iff.mp ha
    cases v with
    | callable c =>
      dsimp only at ha
      split at ha
      · next hacc => exact ⟨c, hv, hacc, ha⟩
      · cases ha
    | _ => cases ha
  · rintro ⟨c, hc, hacc, ha⟩
    rw [hc, Option.bind_some]
    dsimp only
    rw [if_pos hacc, ha]

lemma headStep_mono (hh : ∀ t h, head t = some h → head' t = some h)
    (ht : ∀ t r, tree t = some r → tree' t = some r) {t : Term} {h : Head}
    (ha : p.headStep head tree t = some h) : p.headStep head' tree' t = some h := by
  cases t with
  | slot a => exact ha
  | combined mnemonic type left right => exact apply_mono hh ht ha
  | cell f x i =>
    rw [headStep] at ha ⊢
    obtain ⟨cell, hcell, ha⟩ := Option.bind_eq_some_iff.mp ha
    rw [hcell, Option.bind_some]
    cases hkind : cell.kind with
    | call callable argument =>
      obtain ⟨c, hc, hacc, ha⟩ := (ofCell_call_iff hkind).mp ha
      exact (ofCell_call_iff hkind).mpr ⟨c, hh _ _ hc, hacc, hh _ _ ha⟩
    | external name =>
      simp only [ofCell, hkind] at ha ⊢
      exact hh _ _ ha
    | constant moduleName name =>
      simp only [ofCell, hkind] at ha ⊢
      obtain ⟨a, haddr, ha⟩ := Option.bind_eq_some_iff.mp ha
      rw [haddr]
      exact hh _ _ ha
    | opcode mnemonic arguments bindings =>
      simp only [ofCell, hkind] at ha ⊢
      exact apply_mono hh ht ha
    | structured members =>
      simp only [ofCell, hkind] at ha ⊢
      exact ha
    | iterable items =>
      simp only [ofCell, hkind] at ha ⊢
      exact ha

lemma trees_eq_some_iff {ts : List Term} {rs : List Tree} :
    trees tree ts = some rs ↔ List.Forall₂ (fun t r => tree t = some r) ts rs := by
  induction ts generalizing rs with
  | nil =>
    rw [trees, List.mapM_nil, List.forall₂_nil_left_iff]
    exact ⟨fun h => (Option.some.inj h).symm, fun h => h ▸ rfl⟩
  | cons t ts ih =>
    rw [trees, List.mapM_cons]
    constructor
    · intro h
      obtain ⟨r, hr, h⟩ := Option.bind_eq_some_iff.mp h
      obtain ⟨rs', hrs, h⟩ := Option.bind_eq_some_iff.mp h
      cases h
      exact .cons hr (ih.mp hrs)
    · rintro (_ | ⟨hr, hrs⟩)
      have hrs := ih.mpr hrs
      rw [trees] at hrs
      rw [hr, hrs]
      rfl

lemma treeOf_mono (ht : ∀ t r, tree t = some r → tree' t = some r) {v : Head} {r : Tree}
    (h : treeOf tree v = some r) : treeOf tree' v = some r := by
  have hall : ∀ ts rs, trees tree ts = some rs → trees tree' ts = some rs := fun ts rs h =>
    trees_eq_some_iff.mpr ((trees_eq_some_iff.mp h).imp fun t r => ht t r)
  cases v with
  | list items =>
    obtain ⟨rs, hrs, rfl⟩ := Option.map_eq_some_iff.mp h
    simp only [treeOf, hall _ _ hrs, Option.map_some]
  | record members =>
    obtain ⟨rs, hrs, rfl⟩ := Option.map_eq_some_iff.mp h
    simp only [treeOf, hall _ _ hrs, Option.map_some]
  | _ => exact h

end Mono

variable {p : Program}

lemma head_succ (fuel : Nat) (t : Term) :
    p.head (fuel + 1) t = p.headStep (p.head fuel) (p.tree fuel) t := by
  rw [head]

lemma tree_succ (fuel : Nat) (t : Term) :
    p.tree (fuel + 1) t = (p.head fuel t).bind (treeOf (p.tree fuel)) := by
  rw [tree]

lemma mono_succ (fuel : Nat) :
    (∀ t h, p.head fuel t = some h → p.head (fuel + 1) t = some h) ∧
      ∀ t r, p.tree fuel t = some r → p.tree (fuel + 1) t = some r := by
  induction fuel with
  | zero =>
    refine ⟨fun t h ha => ?_, fun t r ha => ?_⟩
    · rw [head] at ha
      cases ha
    · rw [tree] at ha
      cases ha
  | succ fuel ih =>
    refine ⟨fun t h ha => ?_, fun t r ha => ?_⟩
    · rw [head_succ] at ha ⊢
      exact headStep_mono ih.1 ih.2 ha
    · rw [tree_succ] at ha ⊢
      obtain ⟨v, hv, ha⟩ := Option.bind_eq_some_iff.mp ha
      rw [ih.1 _ _ hv, Option.bind_some]
      exact treeOf_mono ih.2 ha

lemma head_mono {fuel fuel' : Nat} (hle : fuel ≤ fuel') {t : Term} {h : Head}
    (ha : p.head fuel t = some h) : p.head fuel' t = some h := by
  induction hle with
  | refl => exact ha
  | step _ ih => exact (mono_succ _).1 _ _ ih

lemma tree_mono {fuel fuel' : Nat} (hle : fuel ≤ fuel') {t : Term} {r : Tree}
    (ha : p.tree fuel t = some r) : p.tree fuel' t = some r := by
  induction hle with
  | refl => exact ha
  | step _ ih => exact (mono_succ _).2 _ _ ih

/-! ### Values -/

/-- A term has a value, with its members left as terms. -/
def Yields (p : Program) (t : Term) (h : Head) : Prop := ∃ fuel, p.head fuel t = some h

/-- A term has a value with all its members. -/
def Unfolds (p : Program) (t : Term) (r : Tree) : Prop := ∃ fuel, p.tree fuel t = some r

/-- A term has a value as far as an opcode wants it. -/
def Serves (p : Program) (e : Evaluation) (t : Term) (o : Option Head) : Prop :=
  ∃ fuel, argument (p.head fuel) (p.tree fuel) e t = some o

lemma Yields.unique {t : Term} {h h' : Head} (ha : p.Yields t h) (hb : p.Yields t h') : h = h' := by
  obtain ⟨n, hn⟩ := ha
  obtain ⟨n', hn'⟩ := hb
  have h₁ := head_mono (le_max_left n n') hn
  have h₂ := head_mono (le_max_right n n') hn'
  exact Option.some.inj (h₁.symm.trans h₂)

lemma yields_of_headStep {n : Nat} {t : Term} {h : Head}
    (ha : p.headStep (p.head n) (p.tree n) t = some h) : p.Yields t h :=
  ⟨n + 1, (head_succ n t).trans ha⟩

lemma serves_lazy (t : Term) : p.Serves .lazy t none := ⟨0, rfl⟩

lemma serves_shallow {t : Term} {h : Head} (ha : p.Yields t h) : p.Serves .shallow t (some h) := by
  obtain ⟨n, hn⟩ := ha
  exact ⟨n, by rw [argument, hn, Option.map_some]⟩

lemma serves_evaluated {t : Term} {h : Head} {r : Tree} (ha : p.Yields t h) (hr : p.Unfolds t r) :
    p.Serves .evaluated t (some h) := by
  obtain ⟨n, hn⟩ := ha
  obtain ⟨n', hn'⟩ := hr
  refine ⟨max n n', ?_⟩
  rw [argument, tree_mono (le_max_right n n') hn', Option.bind_some,
    head_mono (le_max_left n n') hn, Option.map_some]

lemma exists_arguments {declared : List Argument} {ts : List Term} {hs : List (Option Head)}
    (h : List.Forall₂ (fun (a : Argument × Term) o => p.Serves a.1.evaluation a.2 o)
      (declared.zip ts) hs) (hlen : declared.length = ts.length) :
    ∃ fuel, arguments (p.head fuel) (p.tree fuel) declared ts = some hs := by
  induction declared generalizing ts hs with
  | nil =>
    cases ts with
    | nil =>
      cases h
      exact ⟨0, rfl⟩
    | cons => cases hlen
  | cons a declared ih =>
    cases ts with
    | nil => cases hlen
    | cons t ts =>
      obtain _ | ⟨⟨n, hn⟩, h⟩ := h
      obtain ⟨n', hn'⟩ := ih h (Nat.succ.inj hlen)
      -- The fuel that lasts for all of them is the greatest.
      refine ⟨max n n', arguments_cons_iff.mpr ⟨_, _, ?_, ?_, rfl⟩⟩
      · exact argument_mono (fun _ _ => head_mono (le_max_left n n'))
          (fun _ _ => tree_mono (le_max_left n n')) hn
      · exact arguments_mono (fun _ _ => head_mono (le_max_right n n'))
          (fun _ _ => tree_mono (le_max_right n n')) hn'

/-- What the answer of an opcode for a cell of a type comes to. -/
def AnswerYields (p : Program) (type : Ty) (h : Head) : Answer → Prop
  | .value v => v = h
  | .same t => p.Yields t h
  | .fold adding items initial => ∃ elements, p.Yields items (.list elements) ∧
      p.Yields (elements.foldl (.combined adding type) initial) h

/-- **An opcode applied to terms**: the arguments as far as they are wanted, then the answer. -/
lemma exists_apply {mnemonic : String} {type : Ty} {ts : List Term} {op : Opcode}
    (hop : p.opcodes.get? mnemonic = some op) {hs : List (Option Head)}
    (hargs : List.Forall₂ (fun (a : Argument × Term) o => p.Serves a.1.evaluation a.2 o)
      (op.signature.arguments.zip ts) hs) (hlen : op.signature.arguments.length = ts.length)
    {answer : Answer} (hanswer : p.denote mnemonic type (ts.zip hs) = some answer) {h : Head}
    (hyields : p.AnswerYields type h answer) :
    ∃ fuel, p.apply (p.head fuel) (p.tree fuel) mnemonic type ts = some h := by
  obtain ⟨n, hn⟩ := exists_arguments hargs hlen
  have more : ∀ {k}, n ≤ k → arguments (p.head k) (p.tree k) op.signature.arguments ts = some hs :=
    fun hk => arguments_mono (fun _ _ => head_mono hk) (fun _ _ => tree_mono hk) hn
  cases answer with
  | value v => exact ⟨n, apply_eq_some_iff.mpr ⟨op, hs, _, hop, hn, hanswer, hyields⟩⟩
  | same t =>
    obtain ⟨n', hn'⟩ := hyields
    exact ⟨max n n', apply_eq_some_iff.mpr ⟨op, hs, _, hop, more (le_max_left n n'), hanswer,
      head_mono (le_max_right n n') hn'⟩⟩
  | fold adding items initial =>
    obtain ⟨elements, ⟨n₁, hn₁⟩, n₂, hn₂⟩ := hyields
    refine ⟨max n (max n₁ n₂), apply_eq_some_iff.mpr ⟨op, hs, _, hop, more (le_max_left _ _),
      hanswer, elements, head_mono ?_ hn₁, head_mono ?_ hn₂⟩⟩
    · exact (le_max_left _ _).trans (le_max_right _ _)
    · exact (le_max_right _ _).trans (le_max_right _ _)

lemma exists_tree {t : Term} {h : Head} (hy : p.Yields t h) {rs : List Tree}
    (hrs : List.Forall₂ p.Unfolds h.terms rs) : ∃ r, p.Unfolds t r := by
  obtain ⟨n, hn⟩ := hy
  have together : ∃ k, trees (p.tree k) h.terms = some rs := by
    clear hn
    generalize h.terms = ts at hrs
    induction hrs with
    | nil => exact ⟨0, rfl⟩
    | @cons t r ts rs ht _ ih =>
      obtain ⟨k, hk⟩ := ht
      obtain ⟨k', hk'⟩ := ih
      refine ⟨max k k', trees_eq_some_iff.mpr (.cons (tree_mono (le_max_left k k') hk) ?_)⟩
      exact (trees_eq_some_iff.mp hk').imp fun _ _ => tree_mono (le_max_right k k')
  obtain ⟨k, hk⟩ := together
  have hhead := head_mono (le_max_left n k) hn
  have hall : trees (p.tree (max n k)) h.terms = some rs := trees_eq_some_iff.mpr
    ((trees_eq_some_iff.mp hk).imp fun _ _ => tree_mono (le_max_right n k))
  have hsome : ∃ r, treeOf (p.tree (max n k)) h = some r := by
    cases h with
    | list items => exact ⟨_, by rw [treeOf]; exact congrArg _ hall⟩
    | record members => exact ⟨_, by rw [treeOf]; exact congrArg _ hall⟩
    | _ => exact ⟨_, rfl⟩
  obtain ⟨r, hr⟩ := hsome
  exact ⟨r, max n k + 1, by rw [tree_succ, hhead, Option.bind_some, hr]⟩

/-! ### Callables -/

lemma denote_ne_callable {mnemonic : String} {type : Ty} {args : List (Term × Option Head)}
    {c : Callable} : p.denote mnemonic type args ≠ some (.value (.callable c)) := by
  intro h
  unfold denote at h
  split at h <;> simp [Option.bind_eq_some_iff, Option.map_eq_some_iff] at h

lemma exists_slot_of_callable {n : Nat} {t : Term} {c : Callable}
    (h : p.head n t = some (.callable c)) : ∃ a, p.memory.value? a = some (.callable c) := by
  induction n generalizing t with
  | zero =>
    rw [head] at h
    cases h
  | succ n ih =>
    rw [head_succ] at h
    -- No opcode makes a callable: what it gives is that of another term.
    have applied : ∀ {mnemonic type ts},
        p.apply (p.head n) (p.tree n) mnemonic type ts = some (.callable c) →
          ∃ a, p.memory.value? a = some (.callable c) := by
      intro mnemonic type ts ha
      obtain ⟨op, hs, answer, -, -, hanswer, ha⟩ := apply_eq_some_iff.mp ha
      cases answer with
      | value v =>
        subst ha
        exact absurd hanswer denote_ne_callable
      | same t => exact ih ha
      | fold adding items initial =>
        obtain ⟨elements, -, ha⟩ := ha
        exact ih ha
    cases t with
    | slot a =>
      obtain ⟨v, hv, hc⟩ := Option.map_eq_some_iff.mp h
      cases v with
      | callable c' =>
        cases hc
        exact ⟨a, hv⟩
      | _ => cases hc
    | combined mnemonic type left right => exact applied h
    | cell f x i =>
      rw [headStep] at h
      obtain ⟨cell, -, h⟩ := Option.bind_eq_some_iff.mp h
      cases hkind : cell.kind with
      | call callable argument =>
        obtain ⟨c', -, -, h⟩ := (ofCell_call_iff hkind).mp h
        exact ih h
      | external name =>
        simp only [ofCell, hkind] at h
        exact ih h
      | constant moduleName name =>
        simp only [ofCell, hkind] at h
        obtain ⟨a, -, h⟩ := Option.bind_eq_some_iff.mp h
        exact ih h
      | opcode mnemonic arguments bindings =>
        simp only [ofCell, hkind] at h
        exact applied h
      | structured members =>
        simp only [ofCell, hkind] at h
        cases h
      | iterable items =>
        simp only [ofCell, hkind] at h
        cases h

end Program

namespace Script

/-- The value of a function of a script for an argument, with all its members: that of its cell 0,
once the function compiles and the argument was converted. -/
def meaning (s : Script) (fuel : Nat) (moduleName name : String) (argument : KeyMap String Stored) :
    Option Tree :=
  (s.memory.lookup moduleName name).bind fun index =>
    match s.memory.typeOf (.at index), s.memory.value? (.at index) with
    | .callable _ _ expected _, some (.callable f) =>
      match s.types.resolve expected with
      | .ok type =>
        match Conversion.convert s.types (argumentsCell type) (.record argument) s.memory with
        | (.ok a, memory) =>
          let p : Program := ⟨s.opcodes, s.modules, s.types, s.memory, memory⟩
          if p.accepts f (s.memory.typeOf (.at index)) type then
            p.tree fuel (p.reference f (.slot a) Callable.resultCell)
          else none
        | _ => none
      | _ => none
    | _, _ => none

end Script

end CellMachine
