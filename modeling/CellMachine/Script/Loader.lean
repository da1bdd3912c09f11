import CellMachine.Config
import CellMachine.Opcode.Declaration

/-!
Loaders. A loader is made from the opcodes and native types of a host, once all of them were checked;
it holds the registry with which scripts start.
-/

namespace CellMachine

structure Loader where
  types : Registry
  opcodes : Opcodes
  config : Config := {}

namespace Loader

/-- Registers native types; other types are refused. -/
def registerNatives : List Ty → Registry → List Problem × Registry
  | [], types => ([], types)
  | t :: rest, types =>
    let (ps, types) : List Problem × Registry :=
      match t with
      | .native .. =>
        match types.register t with
        | .ok types => ([], types)
        | .error p => ([p], types)
      | t =>
        ([((Problem.mk .unknownTypeCategory t.source []).set "type" t.name).set "category"
          t.category.name], types)
    let (qs, types) := registerNatives rest types
    (ps ++ qs, types)

/-- A problem for each tag that an opcode mentions and no registered type has; a tag is reported
once. -/
def missingTags (types : Registry) : List (Opcode × String) → List String → List Problem
  | [], _ => []
  | (o, tag) :: rest, reported =>
    if types.hasTag tag || reported.contains tag then missingTags types rest reported
    else
      (((Problem.mk .missingNativeType (some o.signature.source) []).set "opcode" o.mnemonic).set
        "internal_type" tag) :: missingTags types rest (tag :: reported)

/-- Registers the types without generics that opcodes declare in place. -/
def registerDeclared : List (Opcode × TyRef) → Registry → List Problem × Registry
  | [], types => ([], types)
  | (o, r) :: rest, types =>
    let (ps, types) : List Problem × Registry :=
      match r with
      | .inline t =>
        if t.isConcrete then
          match types.register t with
          | .ok types => ([], types)
          | .error p => ([p.add "opcode" o.mnemonic], types)
        else ([], types)
      | _ => ([], types)
    let (qs, types) := registerDeclared rest types
    (ps ++ qs, types)

def make (opcodes : List Opcode) (natives : List Ty) : Except (List Problem) Loader :=
  let (found, types) := registerNatives natives .initial
  let tags := opcodes.flatMap fun o => o.signature.nativeTags.map fun tag => (o, tag)
  let found := found ++ Opcodes.check opcodes types ++ missingTags types tags []
  if found.isEmpty then
    let declared := opcodes.flatMap fun o => o.signature.declared.map fun r => (o, r)
    let (found, types) := registerDeclared declared types
    unlessProblems found { types, opcodes := .ofList opcodes }
  else .error found

def describe (l : Loader) : String :=
  "ScriptLoader \x7b types: " ++ toString l.types.types.length ++ ", opcodes: [" ++
    Text.joined ", " (l.opcodes.keys.map Text.quoted) ++ "], config: " ++ l.config.details ++
    " \x7d"

end Loader

end CellMachine
