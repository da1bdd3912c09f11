import CellMachine.Memory.Store

/-!
Building values during a run: sequences, records and deferred calls. Whatever is built is allocated
in memory, so later cells can refer to it by index.
-/

namespace CellMachine

namespace Build

def partCell (name : String) (type : Ty) : Cell :=
  ⟨.external name, type, some (.internal "constructed")⟩

def evaluated (a : Address) : Attempt Value := do
  match ← StoreM.value? a with
  | some v => pure v
  | none =>
    let source ← StoreM.sourceOf a
    let type ← StoreM.typeOf a
    Attempt.fail ((Problem.mk .nonEvaluatedValue source []).set "type" type.name)

def wrongKind (source : Option Position) (expected actual : String) : Problem :=
  ((Problem.mk .wrongValueType source []).set "expected" expected).set "actual" actual

/-- Whether a reference is written out as the type that is only known when the value is. -/
def isOpenRef : TyRef → Bool
  | .inline t => t.isRuntimeDetermined
  | _ => false

/-- A member must match its declared type, unless one of the two is still open. -/
def checkMember (a : Address) (expected : TyRef) : Attempt Unit := do
  let type ← StoreM.typeOf a
  if expected.isGeneric || type.isRuntimeDetermined || isOpenRef expected then pure ()
  else Attempt.matchRefs (← StoreM.sourceOf a) (.inline type) expected

/-! ### Sequences -/

def ropeOf (a : Address) : Attempt (Rope Address) := do
  match ← evaluated a with
  | .iterable items => pure items.toRope
  | other => Attempt.fail (wrongKind (← StoreM.sourceOf a) "iterable" other.kindName)

def ofMembers (members : List Address) : Value := .iterable (.rope (.ofList members))

/-- A slot for each value. -/
def allocateItems (element : Ty) : Nat → List Value → StoreM (List Address)
  | _, [] => pure []
  | i, v :: rest => do
    let a ← StoreM.allocate (partCell ("iterable." ++ toString i) element) (some v)
    let others ← allocateItems element (i + 1) rest
    pure (a :: others)

def ofValues (values : List Value) (element : Ty) : StoreM Value := do
  pure (ofMembers (← allocateItems element 0 values))

def append (first second : Address) : Attempt Value := do
  let r ← ropeOf first
  let s ← ropeOf second
  pure (.iterable (.rope (r.append s)))

def push (items item : Address) : Attempt Value := do
  let r ← ropeOf items
  pure (.iterable (.rope (r.push item)))

def replace (items : Address) (index : Int) (item : Address) : Attempt Value := do
  let r ← ropeOf items
  let r ← Attempt.ofOutcome (r.replace index item)
  pure (.iterable (.rope r))

def sub (items : Address) (start stop : Nat) : Attempt Value := do
  let r ← ropeOf items
  let r ← Attempt.ofOutcome (r.sub start stop)
  pure (.iterable (.rope r))

def insert (first second : Address) (index : Nat) : Attempt Value := do
  let r ← ropeOf first
  let s ← ropeOf second
  let r ← Attempt.ofOutcome (r.insert index s)
  pure (.iterable (.rope r))

/-! ### Records -/

/-- Every entry must be stored by the structure and match its type there. -/
def checkEntries (type : Ty) : List (String × Address) → Attempt Unit
  | [] => pure ()
  | (key, a) :: rest => do
    match type.stores.get? key with
    | none =>
      Attempt.fail (((Problem.mk .typeMismatch (← StoreM.sourceOf a) []).set "unexpected_key"
        key).set "expected" type.name)
    | some r =>
      (checkMember a r).explain fun p => p.add "key" key
      checkEntries type rest

def checkRecord (type : Ty) (entries : List (String × Address)) : Attempt Unit :=
  match type with
  | .structured .. => checkEntries type entries
  | other => Attempt.fail (wrongKind other.source "structured" other.category.name)

def memberType (types : Registry) (type : Ty) (key : String) : Outcome Ty :=
  match type.stores.get? key with
  | some r => if r.isGeneric then .ok .runtimeDetermined else types.resolve r
  | none => .ok .runtimeDetermined

/-- A slot for each entry, up to the first whose type is unknown. -/
def allocateEntries (type : Ty) : List (String × Value) → Attempt (List (String × Address))
  | [] => pure []
  | (key, v) :: rest => do
    let member ← Attempt.ofOutcome (memberType (← StoreM.types) type key)
    let a ← StoreM.allocate (partCell ("structure." ++ key) member) (some v)
    let others ← allocateEntries type rest
    pure ((key, a) :: others)

def recordOfMembers (entries : List (String × Address)) (type : Ty) : Attempt Value := do
  checkRecord type entries
  pure (.structured (.ofLayer (.ofList entries) type))

def recordOfValues (entries : List (String × Value)) (type : Ty) : Attempt Value := do
  recordOfMembers (← allocateEntries type entries) type

/-- The layers and the type of the record held by a slot; a flat record is one layer of the slot's
own type. -/
def layersOf (base : Address) : Attempt (List (KeyMap String Address) × Ty) := do
  match ← evaluated base with
  | .structured (.layered layers type) => pure (layers, type)
  | .structured (.flat entries) => pure ([entries], ← StoreM.typeOf base)
  | other => Attempt.fail (wrongKind (← StoreM.sourceOf base) "structured" other.kindName)

/-- The record with some entries written anew, possibly as a record of another type. -/
def updateWithMembers (base : Address) (entries : List (String × Address)) (type : Option Ty) :
    Attempt Value := do
  let (layers, own) ← layersOf base
  let type := type.getD own
  checkRecord type entries
  pure (.structured (.child layers type (.ofList entries)))

def updateWithValues (base : Address) (entries : List (String × Value)) (type : Option Ty) :
    Attempt Value := do
  let target := type.getD (← StoreM.typeOf base)
  updateWithMembers base (← allocateEntries target entries) type

/-! ### Calls -/

def resultType (types : Registry) : TyRef → Outcome Ty
  | .generic .. => .ok .runtimeDetermined
  | r => types.resolve r

/-- A slot that applies one slot to another when its value is asked for. -/
def call (callable argument : Address) : Attempt Address := do
  let source ← StoreM.sourceOf callable
  match ← StoreM.typeOf callable with
  | .callable _ _ expected result =>
    checkMember argument expected
    match callable, argument with
    | .at f, .at x =>
      let type ← Attempt.ofOutcome (resultType (← StoreM.types) result)
      StoreM.allocate ⟨.call f x, type, source⟩ none
    | _, _ =>
      Attempt.fail ((Problem.mk .structureCorrupt source []).set "reason"
        "call values must live in memory")
  | other => Attempt.fail (wrongKind source "callable" other.category.name)

end Build

end CellMachine
