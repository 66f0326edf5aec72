import QuerySearch.Proofs.Binding.Unbinding

/-! The names of the sources of a query. -/

namespace QuerySearch.Component

def asName? : Component → Option String
  | .tableSource _ asName | .querySource _ asName => asName
  | _ => none

def fromNames (source : Component) : List String := source.leaves.filterMap asName?

def clauseNames : Component → List (List String)
  | .query _ source .. => source.fromNames :: source.clauseNames
  | .querySource q _ => q.clauseNames
  | .join l r .. => l.clauseNames ++ r.clauseNames
  | _ => []

def aliased : Component → List Component
  | .tableSource t asName => [tableSource t asName].filter (·.asName?.isSome)
  | .querySource q asName => [querySource q asName].filter (·.asName?.isSome) ++ q.aliased
  | .join l r .. => l.aliased ++ r.aliased
  | .query _ source .. => source.aliased
  | _ => []

section Names

variable {c d l r on : Component} {type : JoinType} {t q : Component} {asName : Option String}
  {ns : List String}

theorem fromNames_join : (join l r type on).fromNames = l.fromNames ++ r.fromNames :=
  List.filterMap_append

theorem fromNames_tableSource : (tableSource t asName).fromNames = asName.toList := by
  cases asName <;> rfl

theorem fromNames_querySource : (querySource q asName).fromNames = asName.toList := by
  cases asName <;> rfl

theorem mem_aliased_of_leaf (c : Component) (h : d ∈ c.leaves) (hname : d.asName?.isSome = true) :
    d ∈ c.aliased := by
  cases c with
  | join l r type on =>
    rw [aliased, List.mem_append]
    cases List.mem_append.1 h with
    | inl h => exact .inl (mem_aliased_of_leaf l h hname)
    | inr h => exact .inr (mem_aliased_of_leaf r h hname)
  | tableSource t asName =>
    cases List.mem_singleton.1 h
    simpa [aliased] using hname
  | querySource q asName =>
    cases List.mem_singleton.1 h
    simp [aliased, hname]
  | _ =>
    cases List.mem_singleton.1 h
    cases hname

theorem fromNames_sublist (c : Component) : c.fromNames.Sublist (c.aliased.filterMap asName?) := by
  cases c with
  | join l r type on =>
    rw [fromNames_join, aliased, List.filterMap_append]
    exact (fromNames_sublist l).append (fromNames_sublist r)
  | tableSource t asName => cases asName <;> simp [fromNames, leaves, aliased, asName?]
  | querySource q asName =>
    cases asName with
    | none => exact List.nil_sublist _
    | some a => simp [fromNames, leaves, aliased, asName?]
  | _ => exact List.nil_sublist _

theorem clauseNames_sublist (c : Component) (h : ns ∈ c.clauseNames) :
    ns.Sublist (c.aliased.filterMap asName?) := by
  cases c with
  | join l r type on =>
    rw [clauseNames, List.mem_append] at h
    rw [aliased, List.filterMap_append]
    cases h with
    | inl h => exact (clauseNames_sublist l h).trans (List.sublist_append_left _ _)
    | inr h => exact (clauseNames_sublist r h).trans (List.sublist_append_right _ _)
  | querySource q asName =>
    rw [aliased, List.filterMap_append]
    exact (clauseNames_sublist q h).trans (List.sublist_append_right _ _)
  | query sel source filter groupBy having orderBy isDistinct =>
    rw [clauseNames, List.mem_cons] at h
    rw [aliased]
    cases h with
    | inl h =>
      subst h
      exact fromNames_sublist source
    | inr h => exact clauseNames_sublist source h
  | _ => cases h

end Names

end QuerySearch.Component
