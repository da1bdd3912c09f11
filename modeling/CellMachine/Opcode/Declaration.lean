import CellMachine.Opcode.Basic

/-!
Checks of opcode declarations. They are made once, before any script is loaded, and report every
defect of every signature.
-/

namespace CellMachine

mutual

def Ty.genericCount : Ty → Nat
  | .native .. => 0
  | .iterable _ _ e _ => e.genericCount
  | .structured _ _ m => genericCountStores m
  | .callable _ _ a r => a.genericCount + r.genericCount
  | .keyOf _ _ o => o.genericCount

def TyRef.genericCount : TyRef → Nat
  | .inline t => t.genericCount
  | .named _ => 0
  | .generic .. => 1

def genericCountStores : List (String × TyRef) → Nat
  | [] => 0
  | (_, r) :: m => r.genericCount + genericCountStores m

end

/-- Whether no generic occurs in a type. -/
def Ty.isConcrete (t : Ty) : Bool := t.genericCount == 0

mutual

def Ty.nativeTags : Ty → List String
  | .native _ _ tag _ => [tag]
  | .iterable _ _ e _ => e.nativeTags
  | .structured _ _ m => nativeTagsStores m
  | .callable _ _ a r => a.nativeTags ++ r.nativeTags
  | .keyOf _ _ o => o.nativeTags

def TyRef.nativeTags : TyRef → List String
  | .inline t => t.nativeTags
  | .named _ => []
  | .generic .. => []

def nativeTagsStores : List (String × TyRef) → List String
  | [] => []
  | (_, r) :: m => r.nativeTags ++ nativeTagsStores m

end

def sizeRefs : List TyRef → Nat
  | [] => 0
  | r :: rs => r.size + sizeRefs rs

theorem sizeRefs_append (rs rs' : List TyRef) :
    sizeRefs (rs ++ rs') = sizeRefs rs + sizeRefs rs' := by
  induction rs with
  | nil => rw [List.nil_append, sizeRefs, Nat.zero_add]
  | cons r rs ih => rw [List.cons_append, sizeRefs, sizeRefs, ih, Nat.add_assoc]

theorem sizeRefs_reverse (rs : List TyRef) : sizeRefs rs.reverse = sizeRefs rs := by
  induction rs with
  | nil => rfl
  | cons r rs ih =>
    rw [List.reverse_cons, sizeRefs_append, ih, sizeRefs, sizeRefs, sizeRefs]
    omega

theorem sizeRefs_stores (m : List (String × TyRef)) :
    sizeRefs (m.map Prod.snd) = sizeStores m := by
  induction m with
  | nil => rfl
  | cons e m ih => rw [List.map_cons, sizeRefs, ih, sizeStores]

theorem Ty.sizeRefs_lt (t : Ty) : sizeRefs t.refs < t.size := by
  cases t with
  | structured n s m =>
    rw [refs, sizeRefs_stores, size]
    omega
  | _ =>
    simp only [refs, size, sizeRefs]
    omega

/-- A walk over the references of a stack and what is written below them, which are entered when they
are met. Each reference comes with whether a generic may stand there; the generics that may not are
noted. -/
def TyRef.walk : List (TyRef × Bool) → List String
  | [] => []
  | (.generic id _, allowed) :: stack => if allowed then walk stack else id :: walk stack
  | (.named _, _) :: stack => walk stack
  | (.inline t, _) :: stack => walk ((t.refs.map fun r => (r, false)).reverse ++ stack)
termination_by stack => sizeRefs (stack.map Prod.fst)
decreasing_by
  · simp [TyRef.size, sizeRefs]
  · simp [TyRef.size, sizeRefs]
  · simp [TyRef.size, sizeRefs]
  · have below : (t.refs.map fun r => (r, false)).map Prod.fst = t.refs := by
      rw [List.map_map]
      exact List.map_id _
    have := t.sizeRefs_lt
    rw [List.map_append, List.map_reverse, below, sizeRefs_append, sizeRefs_reverse,
      List.map_cons, sizeRefs, TyRef.size]
    omega

/-- The generics of a declared type that stand neither at its top nor directly below a top-level
iterable or key-of. -/
def TyRef.deepGenerics : TyRef → List String
  | .inline t =>
    let allowed := t.category == .iterable || t.category == .keyOf
    TyRef.walk (t.refs.map fun r => (r, allowed)).reverse
  | _ => []

namespace Registry

def known? (reg : Registry) : TyRef → Option Ty
  | .inline t => some t
  | .named n => reg.get? n
  | .generic .. => none

end Registry

namespace Signature

def bindingProblem (s : Signature) (cause : Cause) (g : Generic) : Problem :=
  ((Problem.mk cause (some s.source) []).set "opcode" s.mnemonic).set "genericId" g.id

def argumentProblem (s : Signature) (cause : Cause) (index : Nat) (a : Argument) : Problem :=
  ((((Problem.mk cause (some s.source) []).set "opcode" s.mnemonic).set "position"
    "argument").set "argIndex" index).set "argName" a.displayName

def resultProblem (s : Signature) (cause : Cause) : Problem :=
  ((Problem.mk cause (some s.source) []).set "opcode" s.mnemonic).set "position" "return"

/-- The generics by id; of several with one id, the last. -/
def bindings (s : Signature) : KeyMap String Generic :=
  .ofList (s.generics.map fun g => (g.id, g))

/-- What is wrong with the argument that a generic is bound by, if it has to satisfy `suits`. -/
def bindingSourceCauses (s : Signature) (types : Registry) (index : Option Nat) (suits : Ty → Bool)
    (cause : Cause) : List Cause :=
  match index with
  | none => []
  | some i =>
    match s.arguments[i]? with
    | none => [.genericBindingIndex]
    | some a =>
      if a.type.isGeneric then [.genericBindingDeep]
      else if (types.known? a.type).any suits then [] else [cause]

/-- What is wrong with a generic that comes after those in `earlier`. -/
def genericCauses (s : Signature) (types : Registry) (earlier : List Generic) (g : Generic) :
    List Cause :=
  (if earlier.any fun e => e.id == g.id then [.duplicateGenericBinding] else []) ++
  (if g.fromArgument.isSome && g.keyedBy.isSome then [.genericBindingState] else []) ++
  s.bindingSourceCauses types g.fromArgument (fun t => t.tag? == some "meta-type")
    .genericBindingFromType ++
  s.bindingSourceCauses types g.keyedBy (fun t => t.category == .keyOf) .genericBindingKeyedType

def checkGenerics (s : Signature) (types : Registry) (earlier : List Generic) :
    List Generic → List Problem
  | [] => []
  | g :: rest =>
    (s.genericCauses types earlier g).map (s.bindingProblem · g) ++
      checkGenerics s types (earlier ++ [g]) rest

/-- What is wrong with a generic directly below the top of a type. -/
def shallowCauses (s : Signature) : Ty → List Cause
  | .iterable _ _ (.generic id _) _ => if s.bindings.contains id then [] else [.unboundGeneric]
  | .keyOf _ _ (.generic id hint) =>
    match s.bindings.get? id with
    | none => [.unboundGeneric]
    | some g =>
      if hint = .structured ∧ g.hint = .structured then [] else [.argumentRequiresStructBinding]
  | _ => []

/-- What is wrong with a declared type, whether of an argument or of the result. -/
def typeCauses (s : Signature) (types : Registry) (extra : Ty → List Cause) (r : TyRef) :
    List Cause :=
  (match r with
    | .generic id _ => if s.bindings.contains id then [] else [.unboundGeneric]
    | r =>
      match types.known? r with
      | none => []
      | some t => extra t ++ s.shallowCauses t) ++
  r.deepGenerics.map fun _ => .genericBindingDeep

def argumentCauses (a : Argument) (t : Ty) : List Cause :=
  (if t.isRuntimeDetermined then [.argumentRuntimeType] else []) ++
  (if a.evaluation = .shallow ∧ t.category ≠ .iterable ∧ t.category ≠ .structured then
    [.argumentEvalShallowSimple] else [])

def numbered (s : Signature) : List (Nat × Argument) :=
  s.arguments.zipIdx.map fun e => (e.2, e.1)

def check (s : Signature) (types : Registry) : List Problem :=
  s.checkGenerics types [] s.generics ++
  s.numbered.flatMap (fun e =>
    (s.typeCauses types (argumentCauses e.2) e.2.type).map (s.argumentProblem · e.1 e.2)) ++
  (s.typeCauses types (fun _ => []) s.result).map s.resultProblem

/-- The tags of the native types that a signature mentions, ascending. -/
def nativeTags (s : Signature) : List String :=
  (KeyMap.ofList ((s.declared.flatMap TyRef.nativeTags).map fun tag => (tag, ()))).keys

end Signature

namespace Opcodes

/-- A problem for each mnemonic that several opcodes share. -/
def duplicates (opcodes : List Opcode) : List Problem :=
  (KeyMap.ofList (opcodes.map fun o => (o.mnemonic, ()))).keys.filterMap fun (mnemonic : String) =>
    match opcodes.filter fun o => o.mnemonic == mnemonic with
    | first :: second :: rest =>
      some (((Problem.mk .duplicateOpcodes (some first.signature.source) []).set "opcode"
        mnemonic).set "count" (first :: second :: rest).length)
    | _ => none

def check (opcodes : List Opcode) (types : Registry) : List Problem :=
  opcodes.flatMap (fun o => o.signature.check types) ++ duplicates opcodes

end Opcodes

end CellMachine
