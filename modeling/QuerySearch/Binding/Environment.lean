import QuerySearch.Component.Printer

/-! Fresh names, and the places from which chains can be read. -/

namespace QuerySearch

/-- How often each stem has been used.  Names are a stem with the number of its earlier uses. -/
structure NameSupply where
  uses : List (String × Nat)
  deriving DecidableEq

namespace NameSupply

def empty : NameSupply := ⟨[]⟩

def count (s : NameSupply) (stem : String) : Nat := (s.uses.lookup stem).getD 0

def use (s : NameSupply) (stem : String) : NameSupply :=
  ⟨(stem, s.count stem + 1) :: s.uses.filter fun u => u.1 != stem⟩

def tableName (hint : String) (s : NameSupply) : String × NameSupply :=
  let stem := "T_" ++ hint
  (stem ++ "_" ++ toString (s.count stem), s.use stem)

def columnName (hint : Option String) (s : NameSupply) : String × NameSupply :=
  match hint.filter fun h => !h.isEmpty with
  | some h =>
    let stem := "c_" ++ h
    (stem ++ toString (s.count stem), s.use stem)
  | none => ("c_" ++ toString (s.count ""), s.use "")

end NameSupply

/-- The column of a source, or an output of the query itself where `source` is empty. -/
structure Place where
  source : String
  column : String
  deriving DecidableEq

inductive BindError where
  | missing (chain : Component)
  | ambiguous (chain : Component)
  | unexpected (kind : Kind)

def BindError.message : BindError → String
  | missing chain => "No binding for " ++ chain.text ++ "."
  | ambiguous chain => "More than one binding for " ++ chain.text ++ "."
  | unexpected kind => "Cannot concretize a " ++ kind.name ++ " in this position."

structure Environment where
  entries : List (Fingerprint × Place)

namespace Environment

def empty : Environment := ⟨[]⟩

def contains (env : Environment) (chain : Component) : Bool :=
  env.entries.any fun e => e.1 == chain.fingerprint

def bind (env : Environment) (chain : Component) (p : Place) : Environment :=
  if env.entries.contains (chain.fingerprint, p) then env
  else ⟨env.entries ++ [(chain.fingerprint, p)]⟩

def merge (a b : Environment) : Environment :=
  ⟨a.entries ++ b.entries.filter fun e => !a.entries.contains e⟩

def through (env : Environment) (source : String) : Environment :=
  ⟨env.entries.map fun (k, p) => (k, { p with source })⟩

def places (env : Environment) (chain : Component) : List Place :=
  (env.entries.filter fun e => e.1 == chain.fingerprint).map (·.2)

end Environment

namespace Component

def locate (chain : Component) : List Environment → Except BindError Component
  | [] => .error (.missing chain)
  | env :: envs =>
    match env.places chain with
    | [] => locate chain envs
    | [p] => .ok (.boundColumn p.source p.column chain)
    | _ => .error (.ambiguous chain)

end Component

end QuerySearch
