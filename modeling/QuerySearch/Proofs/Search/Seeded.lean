import QuerySearch.Proofs.Component.Counted
import QuerySearch.Proofs.Search.Targets

/-! What a search is seeded with.  All that is found from a statement, all columns of the tables among that and
all terminals are free, so none of them is left out of the bank. -/

namespace QuerySearch

open Component (BearsName Nameless PartsApart TablesApart)

namespace Component

theorem carriedUp_nameless :
    CarriedUp (fun c => ¬ c.BearsName) (fun _ => True) (fun _ => True) fun _ => True := by
  have hcarried : Carried fun c => ¬ c.BearsName := {
    leaf := fun {c} h => by
      cases c with
      | named | boundColumn => cases h
      | _ => exact id
    rank := id
    aggregate := fun _ _ _ => id
    aggregation := fun _ _ => id
    aggWindow := id
    funcWindow := id
    partitionList := fun _ => id
    groupList := fun _ => id
    sortItem := fun _ => id
    sortList := fun _ => id
    select := id }
  exact {
    hcarried with
    rows := fun _ hscope _ h => ⟨predicate_throughout hcarried id id hscope h, trivial⟩
    groups := fun _ hscope _ h => predicate_throughout hcarried id id hscope h
    absent := trivial
    tableSource := id
    querySource := id
    join := fun _ => id
    query := fun _ _ => id }

end Component

section Statements

variable {schema : Schema} {statement : Sql.Select Sql.Constant} {query : Component} {names : List String}
  {nextId : UInt64}

theorem toQuery_nameless (h : (statement.toQuery schema nextId).1 = .ok (query, names)) : query.Nameless :=
  toQuery_throughout Component.carriedUp_nameless h fun _ _ => ⟨fun _ _ => trivial, fun _ _ => trivial⟩

end Statements

namespace Search

section Seeds

variable {query c : Component} {names : List String} {config : SearchConfig} {f : Fingerprint}

def offered (query : Component) : List Component := query.all ++ tableColumns query.all ++ terminals

theorem get_le_foldl_of_mem {cs : List Counter} {d e : Counter} (h : d ∈ cs) :
    d.get f ≤ (cs.foldl Counter.plus e).get f := by
  have hle : d.get f ≤ (cs.map fun d => d.get f).sum :=
    List.single_le_sum (by simp) _ (List.mem_map.2 ⟨d, h, rfl⟩)
  rw [Counter.get_foldl_plus]
  omega

theorem cost_terminal (h : c ∈ terminals) : (start query names config).estimator.cost c = 0 := by
  refine Estimator.costUnder_eq_zero fun f => ?_
  rw [start, Estimator.allow, Counter.get_plus]
  exact (get_le_foldl_of_mem (List.mem_map.2 ⟨c, h, rfl⟩)).trans (Nat.le_add_right _ _)

theorem cost_tableColumn (h : c ∈ tableColumns query.all) :
    (start query names config).estimator.cost c = 0 := by
  refine Estimator.costUnder_eq_zero fun f => ?_
  rw [start, Estimator.allow, Counter.get_plus]
  exact (Component.counter_item_le_sum h).trans (Nat.le_add_left _ _)

theorem cost_part (hquery : query.Nameless) (h : c ∈ query.all) :
    (start query names config).estimator.cost c = 0 :=
  Estimator.costUnder_eq_zero fun f =>
    (hquery.counter_reach_le (Component.mem_reach_of_mem_all h) f).trans (Estimator.get_le_model f)

theorem cost_offered (hquery : query.Nameless) (h : c ∈ offered query) :
    (start query names config).estimator.cost c = 0 := by
  obtain h | h := List.mem_append.1 h
  · obtain h | h := List.mem_append.1 h
    · exact cost_part hquery h
    · exact cost_tableColumn h
  · exact cost_terminal h

theorem contains_start : (start query names config).bank.contains c = true ↔
    ∃ d ∈ offered query, (start query names config).estimator.cost d = 0 ∧
      d.fingerprint = c.fingerprint := by
  have hbank : (start query names config).bank =
      Bank.empty.insertAll ((offered query).filter fun d => (start query names config).estimator.cost d == 0) :=
    rfl
  rw [hbank, Bank.contains_insertAll, Bank.contains_empty]
  simp [List.mem_filter, and_assoc]

theorem contains_start_of_offered (hquery : query.Nameless) (h : c ∈ offered query) :
    (start query names config).bank.contains c = true :=
  contains_start.2 ⟨c, h, cost_offered hquery h, rfl⟩

theorem contains_start_of_all (hquery : query.Nameless) (h : query.all.contains c = true) :
    (start query names config).bank.contains c = true := by
  obtain ⟨d, hd, hkey⟩ := List.mem_map.1 (Component.contains_all_iff.1 h)
  have hoffered : d ∈ offered query := List.mem_append_left _ (List.mem_append_left _ hd)
  exact contains_start.2 ⟨d, hoffered, cost_offered hquery hoffered, hkey⟩

end Seeds

section UnevenTwins

open Sql (Constant)

end UnevenTwins

end Search

end QuerySearch
