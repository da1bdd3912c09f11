import CellMachine.KeyMap
import CellMachine.Position

/-!
Types of values. A type belongs to one of five categories and may refer to other types: to a type
written in place, to a type by its name, or to a generic that an opcode binds. References by name are
what makes recursive types finite.

A native type carries the function of the host that says which values are its own. Types can be values
too, and a function cannot take a type that holds it, so the host is shown a view of the value: a type
with everything that is written in it but the functions of its natives.
-/

namespace CellMachine

/-- The kinds of native values. -/
inductive NativeKind where
  | bool | int | number | string | type
  /-- A host object of which only the identity is known. -/
  | handle
  deriving Repr, DecidableEq, Inhabited

namespace NativeKind

def all : List NativeKind := [bool, int, number, string, type, handle]

def name : NativeKind → String
  | bool => "bool"
  | int => "int"
  | number => "number"
  | string => "string"
  | type => "type"
  | handle => "opaque"

end NativeKind

inductive Category where
  | native | iterable | structured | callable | keyOf
  deriving Repr, DecidableEq, Inhabited

namespace Category

def name : Category → String
  | native => "native"
  | iterable => "iterable"
  | structured => "structured"
  | callable => "callable"
  | keyOf => "key-of"

def all : List Category := [native, iterable, structured, callable, keyOf]

end Category

/-- What is promised about the end of an iterable. -/
inductive Termination where
  | finite | unbounded | irrelevant
  deriving Repr, DecidableEq, Inhabited

namespace Termination

def all : List Termination := [finite, unbounded, irrelevant]

def name : Termination → String
  | finite => "finite"
  | unbounded => "unbounded"
  | irrelevant => "irrelevant"

end Termination

/-- What a generic may be bound to. -/
inductive Hint where
  | any | structured | iterable | nonterminatingIterable | keyOf
  deriving Repr, DecidableEq, Inhabited

namespace Hint

def all : List Hint := [any, structured, iterable, nonterminatingIterable, keyOf]

def name : Hint → String
  | any => "any"
  | structured => "structure"
  | iterable => "iterable"
  | nonterminatingIterable => "nonterminating-iterable"
  | keyOf => "key-of"

def accepts : Hint → Category → Bool
  | any, _ => true
  | structured, c => c = .structured
  | iterable, c => c = .iterable
  | nonterminatingIterable, c => c = .iterable
  | keyOf, c => c = .keyOf

end Hint

mutual

/-- A type without the functions of its natives. -/
inductive TypeView where
  | native (name : String) (source : Option Position) (tag : String)
  | iterable (name : String) (source : Option Position) (element : RefView) (ends : Termination)
  | structured (name : String) (source : Option Position) (stores : List (String × RefView))
  | callable (name : String) (source : Option Position) (argument result : RefView)
  | keyOf (name : String) (source : Option Position) (owner : RefView)

inductive RefView where
  | inline (type : TypeView)
  | named (name : String)
  | generic (id : String) (hint : Hint)

end

/-- A native value as the host is shown it. -/
inductive NativeView where
  | bool (b : Bool)
  | int (i : Int64)
  | number (x : Float)
  | string (s : String)
  | type (t : TypeView)
  | handle (id : Nat)

namespace NativeView

def kind : NativeView → NativeKind
  | bool _ => .bool
  | int _ => .int
  | number _ => .number
  | string _ => .string
  | type _ => .type
  | handle _ => .handle

/-- The test that looks at the kind of a value and no further. -/
def is (k : NativeKind) (v : NativeView) : Bool := v.kind == k

end NativeView

mutual

inductive Ty where
  /-- Natives of equal `tag` are one type; `isType` says which values are its own. -/
  | native (name : String) (source : Option Position) (tag : String) (isType : NativeView → Bool)
  | iterable (name : String) (source : Option Position) (element : TyRef) (ends : Termination)
  | structured (name : String) (source : Option Position) (stores : List (String × TyRef))
  | callable (name : String) (source : Option Position) (argument result : TyRef)
  /-- The keys of a structure. -/
  | keyOf (name : String) (source : Option Position) (owner : TyRef)

inductive TyRef where
  | inline (type : Ty)
  | named (name : String)
  | generic (id : String) (hint : Hint)

end

namespace Ty

def name : Ty → String
  | native n _ _ _ => n
  | iterable n _ _ _ => n
  | structured n _ _ => n
  | callable n _ _ _ => n
  | keyOf n _ _ => n

def source : Ty → Option Position
  | native _ s _ _ => s
  | iterable _ s _ _ => s
  | structured _ s _ => s
  | callable _ s _ _ => s
  | keyOf _ s _ => s

def category : Ty → Category
  | native .. => .native
  | iterable .. => .iterable
  | structured .. => .structured
  | callable .. => .callable
  | keyOf .. => .keyOf

def withSource (s : Position) : Ty → Ty
  | native n _ tag test => native n (some s) tag test
  | iterable n _ e t => iterable n (some s) e t
  | structured n _ m => structured n (some s) m
  | callable n _ a r => callable n (some s) a r
  | keyOf n _ o => keyOf n (some s) o

/-- Changes what is promised about the end of an iterable; other types have nothing to change. -/
def withTermination (t : Termination) : Ty → Ty
  | iterable n s e _ => iterable n s e t
  | other => other

/-- Category and name. -/
def text (t : Ty) : String := t.category.name ++ " " ++ t.name

/-- The types referred to: the members of a structure in key order, the argument of a callable
before its result. -/
def refs : Ty → List TyRef
  | native .. => []
  | iterable _ _ e _ => [e]
  | structured _ _ m => m.map Prod.snd
  | callable _ _ a r => [a, r]
  | keyOf _ _ o => [o]

def stores : Ty → KeyMap String TyRef
  | structured _ _ m => m
  | _ => []

def tag? : Ty → Option String
  | native _ _ tag _ => some tag
  | _ => none

def metaType : Ty :=
  native "meta-type" (some (.core "types.meta-type")) "meta-type" (NativeView.is .type)

/-- The type that is only known when the value is. -/
def runtimeDetermined : Ty :=
  native "runtime-determined" (some (.internal "required.runtime-determined"))
    "runtime-determined" fun _ => false

def isRuntimeDetermined (t : Ty) : Bool := t.tag? = some "runtime-determined"

end Ty

namespace TyRef

def name : TyRef → String
  | inline t => t.name
  | named n => n
  | generic id _ => id

def isGeneric : TyRef → Bool
  | generic .. => true
  | _ => false

def isInline : TyRef → Bool
  | inline _ => true
  | _ => false

/-- The name, or a generic with its hint. -/
def text : TyRef → String
  | generic id hint => "<" ++ id ++ ": " ++ hint.name ++ ">"
  | r => r.name

/-- Whether two references lead to the same type: the same generic, or types of one name. -/
def sameTarget : TyRef → TyRef → Bool
  | generic i h, generic j k => i == j && h == k
  | generic .., _ => false
  | _, generic .. => false
  | r, s => r.name == s.name

end TyRef

/-- Whether two types of one name may stand for each other. References are compared by target only. -/
def Ty.sameDefinition (t u : Ty) : Bool :=
  t.name == u.name &&
    match t, u with
    | .native _ _ a _, .native _ _ b _ => a == b
    | .iterable _ _ e s, .iterable _ _ f t => s == t && e.sameTarget f
    | .structured _ _ m, .structured _ _ n =>
      m.length == n.length &&
        (m.zip n).all fun p => p.1.1 == p.2.1 && p.1.2.sameTarget p.2.2
    | .callable _ _ a r, .callable _ _ b s => a.sameTarget b && r.sameTarget s
    | .keyOf _ _ o, .keyOf _ _ p => o.sameTarget p
    | _, _ => false

mutual

/-- How many types are written in a type, itself included. -/
def Ty.size : Ty → Nat
  | .native .. => 1
  | .iterable _ _ e _ => 1 + e.size
  | .structured _ _ m => 1 + sizeStores m
  | .callable _ _ a r => 1 + a.size + r.size
  | .keyOf _ _ o => 1 + o.size

def TyRef.size : TyRef → Nat
  | .inline t => t.size
  | .named _ => 1
  | .generic .. => 1

def sizeStores : List (String × TyRef) → Nat
  | [] => 0
  | (_, r) :: m => r.size + sizeStores m

end

mutual

def Ty.view : Ty → TypeView
  | .native n s tag _ => .native n s tag
  | .iterable n s e t => .iterable n s e.view t
  | .structured n s m => .structured n s (viewStores m)
  | .callable n s a r => .callable n s a.view r.view
  | .keyOf n s o => .keyOf n s o.view

def TyRef.view : TyRef → RefView
  | .inline t => .inline t.view
  | .named n => .named n
  | .generic id hint => .generic id hint

def viewStores : List (String × TyRef) → List (String × RefView)
  | [] => []
  | (k, r) :: m => (k, r.view) :: viewStores m

end

end CellMachine
