import CellMachine.Text.Quoted

/-!
Places in the text of a script. The machine's own definitions have synthetic places, whose module
name starts with `$.`.
-/

namespace CellMachine

structure Position where
  moduleName : String
  line : UInt32
  column : UInt32
  deriving Repr, DecidableEq, Inhabited

namespace Position

/-- The place of a definition that every script can see. -/
def core (name : String) : Position := ⟨"$.core." ++ name, 0, 0⟩

/-- The place of a definition that only the machine uses. -/
def internal (name : String) : Position := ⟨"$.internal." ++ name, 0, 0⟩

def isSynthetic (p : Position) : Bool := p.moduleName.startsWith "$."

/-- `module:line:column`. -/
def text (p : Position) : String :=
  p.moduleName ++ ":" ++ toString p.line ++ ":" ++ toString p.column

/-- By module name, then by line, then by column. -/
def le (p q : Position) : Bool :=
  match compare p.moduleName q.moduleName with
  | .lt => true
  | .gt => false
  | .eq => p.line < q.line || (p.line == q.line && p.column ≤ q.column)

def details (p : Position) : String :=
  "SourcePosition \x7b module_name: " ++ Text.quoted p.moduleName ++ ", line: " ++
    toString p.line ++ ", column: " ++ toString p.column ++ " \x7d"

end Position

end CellMachine
