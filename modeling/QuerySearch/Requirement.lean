import QuerySearch.Component.Chains

/-! What a slot of a composite requires of the component that is put there, apart from its kind. -/

namespace QuerySearch

inductive Requirement where
  | suppliedBy (chains : List Fingerprint)
  | acrossSides (left right : List Fingerprint)
  | notIn (items : List Fingerprint)
  | typeIn (types : List DataType)
  | repeatsNone (comparisons : List Fingerprint)
  | present
  | noAggregation
  | onlyAggregation
  | notAggregation
  | groupedBy (chains : List Fingerprint)
  | depthAtMost (n : Nat)
  | providesNone (chains : List Fingerprint)

namespace Component

def isSuppliedBy (chains : List Fingerprint) (c : Component) : Bool :=
  c.requiredKeys.all fun k => chains.contains k

def isAcross (left right : List Fingerprint) : Component → Bool
  | .comparison l _ r =>
    l.isSuppliedBy left && r.isSuppliedBy right || l.isSuppliedBy right && r.isSuppliedBy left
  | .connection l _ r => l.isAcross left right && r.isAcross left right
  | _ => false

/-- Looks through comparisons and connectives only. -/
def hasNoAggregation : Component → Bool
  | .aggregation .. => false
  | .comparison l _ r => l.hasNoAggregation && r.hasNoAggregation
  | .connection l _ r => l.hasNoAggregation && r.hasNoAggregation
  | _ => true

def isGroupedBy (chains : List Fingerprint) : Component → Bool
  | .aggregation .. => true
  | .comparison l _ r => l.isGroupedBy chains && r.isGroupedBy chains
  | .connection l _ r => l.isGroupedBy chains && r.isGroupedBy chains
  | c => !c.kind.isReferencable || chains.contains c.fingerprint

end Component

namespace Requirement

def repeatsNoneOf (predicate : Component) : Requirement :=
  .repeatsNone (predicate.atoms.map Component.fingerprint)

def holds (c : Component) : Requirement → Bool
  | suppliedBy chains => c.isSuppliedBy chains
  | acrossSides left right => c.isAcross left right
  | notIn items => !items.contains c.fingerprint
  | typeIn types => c.dataType.any types.contains
  | repeatsNone comparisons => c.atoms.all fun a => !comparisons.contains a.fingerprint
  | present => !c.isAbsent
  | noAggregation => c.hasNoAggregation
  | onlyAggregation => c.kind == .aggregation
  | notAggregation => c.kind != .aggregation
  | groupedBy chains => c.isGroupedBy chains
  | depthAtMost n => c.depth ≤ n
  | providesNone chains => c.providedKeys.all fun k => !chains.contains k

def allHold (c : Component) (rs : List Requirement) : Bool := rs.all (holds c)

end Requirement

end QuerySearch
