import QuerySearch.Proofs.Component.Collected
import QuerySearch.Proofs.Enumerate.Charges
import QuerySearch.Proofs.Search.Reached

/-! A search starts with the input query, which costs nothing, so that the texts of its own forms come
first. -/

namespace QuerySearch

namespace Counter

variable {c : Counter} {cs : List Counter} {f : Fingerprint}

theorem get_le_foldl_plus : c.get f ≤ (cs.foldl plus c).get f := by
  rw [get_foldl_plus]
  exact Nat.le_add_right _ _

end Counter

namespace Estimator

variable {e : Estimator} {c query : Component} {model allowance : Counter}

theorem chargeEach_eq_zero {free : Fingerprint → Nat} {es : List (Fingerprint × Nat)}
    (h : ∀ x ∈ es, x.2 ≤ free x.1) : e.chargeEach free es = 0 := by
  induction es with
  | nil => rfl
  | cons x es ih =>
    obtain ⟨hx, hes⟩ := List.forall_mem_cons.1 h
    rw [chargeEach, ih hes, Nat.sub_eq_zero_of_le hx, charge, if_pos rfl]

theorem costUnder_eq_zero (h : ∀ f, c.counter.get f ≤ model.get f) : e.costUnder model c = 0 := by
  rw [costUnder_eq]
  refine chargeEach_eq_zero fun x hx => ?_
  have hcount : c.counter.get x.1 = x.2 := Counter.countIn_of_mem c.counter.sorted hx
  exact hcount ▸ h x.1

theorem get_le_ofQuery (f : Fingerprint) : query.counter.get f ≤ (ofQuery query).model.get f :=
  Counter.get_le_foldl_plus

theorem get_le_model (f : Fingerprint) : query.counter.get f ≤ ((ofQuery query).allow allowance).model.get f := by
  rw [allow, Counter.get_plus]
  exact Nat.le_trans (get_le_ofQuery f) (Nat.le_add_right _ _)

theorem cost_query : ((ofQuery query).allow allowance).cost query = 0 := costUnder_eq_zero get_le_model

end Estimator

namespace Bank

variable {b : Bank} {c : Component} {cs : List Component} {k : Kind}

theorem mem_ofKind_insertAll (h : c ∈ b.ofKind k) : c ∈ (b.insertAll cs).ofKind k := by
  induction cs generalizing b with
  | nil => exact h
  | cons d cs ih =>
    refine ih ?_
    rw [ofKind_insert]
    split
    · exact List.mem_append_left _ h
    · exact h

theorem mem_toList_insertAll (h : c ∈ b.toList) : c ∈ (b.insertAll cs).toList :=
  mem_toList.2 ((mem_toList.1 h).imp fun _ hk => mem_ofKind_insertAll hk)

theorem mem_ofList_cons : c ∈ (ofList (c :: cs)).ofKind c.kind := by
  rw [ofList, insertAll, List.foldl_cons]
  refine mem_ofKind_insertAll ?_
  rw [ofKind_insert, contains_empty, ofKind_empty]
  simp

end Bank

namespace Search

section Own

variable {query form bound : Component} {forms : List Component} {names : List String}
  {config : SearchConfig}

theorem query_mem_start : query ∈ (start query names config).bank.ofKind query.kind := by
  obtain ⟨rest, hall⟩ := Component.exists_all_eq_cons query
  rw [start]
  dsimp only
  rw [hall, List.cons_append, List.cons_append, List.filter_cons_of_pos]
  · exact Bank.mem_ofList_cons
  · rw [Estimator.cost_query]
    rfl

theorem targets_start (h : config.maxArity < query.provided.length) :
    (start query names config).targets = [query.provided] := by
  have hrefl : ReflBEq Component := ⟨Component.beq_iff.2 rfl⟩
  rw [start, targetsOf]
  simp [h, bne]

theorem mem_initialTexts {text : String} (hkind : query.kind = .query)
    (htext : text ∈ (start query names config).render query) :
    text ∈ (start query names config).initialTexts := by
  refine List.mem_flatMap.2 ⟨query, Bank.mem_select.2 ⟨⟨.query, rfl, ?_⟩, rfl, ?_⟩, htext⟩
  · exact hkind ▸ query_mem_start
  · exact Int.ofNat_le.2 (Nat.le_of_eq Estimator.cost_query)

theorem text_mem_initialTexts (hkind : query.kind = .query)
    (harity : config.maxArity < query.provided.length)
    (hforms : query.projections query.provided names = .ok forms) (hform : form ∈ forms)
    (hbound : (form.bindNames .empty).1 = .ok bound) :
    bound.text ∈ (start query names config).initialTexts := by
  have htarget : query.provided ∈ (start query names config).targets := by
    rw [targets_start harity]
    exact .head _
  exact mem_initialTexts hkind
    (mem_render.2 ⟨query.provided, htarget, forms, form, bound, hforms, hform, hbound, rfl⟩)

end Own

end Search

end QuerySearch
