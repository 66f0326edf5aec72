import Mathlib
import QuerySearch.Proofs.Binding.Scoping
import QuerySearch.Proofs.Projection.Narrowing
import QuerySearch.Proofs.Resolve.SortKeys

/-! The sort keys of a statement in its forms: narrowing keeps the lists as they are, and the binding of
names sorts them once more. -/

namespace QuerySearch

open Component
open Sql (Constant Expr Select SelectItem SortKey TableRef)

section Narrowed

variable {schema : Schema} {reads : Component → Component → Prop} {scope : Scope}
  {select : List (SelectItem Constant)} {statement : Select Constant} {c q form : Component}
  {next : UInt64}

theorem ItemAs.renamed (h : ItemAs scope reads select c) (name : String) :
    ItemAs scope reads select (.named c.withoutName name) := by
  have hprovided : (named c.withoutName name).provided = c.provided := by cases c <;> rfl
  have hover : (named c.withoutName name).overOrder = c.overOrder := by cases c <;> rfl
  simpa only [ItemAs, OverAs, hprovided, hover] using h

end Narrowed

/-- What reads a chain: a column with it, or an aggregation that computes it, which is never DISTINCT. -/
inductive ReadsChain : Component → Component → Prop
  | column {qualifier name chain} : ReadsChain chain (.boundColumn qualifier name chain)
  | aggregation {func qualifier name arg} :
    ReadsChain (.aggChain func arg) (.aggregation func (.boundColumn qualifier name arg) false)

section Clauses

variable {envs : List Environment} {outputs source : Environment} {grouped : Bool} {scope : Scope}
  {denotes : Expr Constant → Component → Prop} {keys : List (SortKey Constant)} {k : SortKey Constant}
  {chain value item item' c c' : Component} {e : Expr Constant}

theorem bound_referencable (hkind : c.kind.isReferencable = true) (h : c.bound envs = .ok c') :
    ∃ qualifier name, c' = .boundColumn qualifier name c := by
  rw [kind_isReferencable_iff] at hkind
  cases c with
  | column | aggChain | windowChain =>
    rw [bound] at h
    obtain ⟨p, rfl, _⟩ := locate_ok h
    exact ⟨p.source, p.column, rfl⟩
  | _ => exact absurd rfl hkind

theorem ReadsItself.bound (h : ReadsItself chain c) (hc : c.bound envs = .ok c') : ReadsChain chain c' := by
  obtain ⟨rfl, _, hkind⟩ := h
  obtain ⟨qualifier, name, rfl⟩ := bound_referencable hkind hc
  exact .column

theorem ReadsItself.boundKeys (h : ReadsItself chain c) (hc : c.boundKeys outputs source grouped = .ok c') :
    ReadsChain chain c' := by
  have hself := h
  obtain ⟨rfl, horigin, hkind⟩ := h
  rw [kind_isReferencable_iff] at hkind
  cases c with
  | aggChain func arg =>
    rw [Component.boundKeys] at hc
    split at hc
    · -- The aggregate is computed again, from a chain that is a column of the source.
      obtain ⟨arg', harg, hc⟩ := ok_of_bind hc
      cases hc
      obtain ⟨qualifier, name, rfl⟩ := bound_referencable horigin harg
      exact .aggregation
    · exact hself.bound hc
  | column | windowChain => exact hself.bound (by simpa only [Component.boundKeys] using hc)
  | _ => exact absurd rfl hkind

theorem SortsAs.bound (h : SortsAs denotes ReadsItself k item) (hitem : item.bound envs = .ok item') :
    SortsAs denotes ReadsChain k item' := by
  obtain ⟨chain, value, hdenotes, hreads, rfl⟩ := h
  obtain ⟨value', hvalue, hitem⟩ := ok_of_bind hitem
  cases hitem
  exact ⟨chain, value', hdenotes, hreads.bound hvalue, rfl⟩

theorem SortsAs.boundKeys (h : SortsAs denotes ReadsItself k item)
    (hitem : item.boundKeys outputs source grouped = .ok item') : SortsAs denotes ReadsChain k item' := by
  obtain ⟨chain, value, hdenotes, hreads, rfl⟩ := h
  obtain ⟨value', hvalue, hitem⟩ := ok_of_bind hitem
  cases hitem
  exact ⟨chain, value', hdenotes, hreads.boundKeys hvalue, rfl⟩

theorem boundAll_forall₂ {items items' : List Component} (h : boundAll envs items = .ok items') :
    List.Forall₂ (fun c c' => c.bound envs = .ok c') items items' := by
  induction items generalizing items' with
  | nil =>
    cases h
    exact .nil
  | cons c items ih =>
    obtain ⟨c', hc, h⟩ := ok_of_bind h
    obtain ⟨rest, hrest, h⟩ := ok_of_bind h
    cases h
    exact .cons hc (ih hrest)

theorem boundKeysAll_forall₂ {items items' : List Component}
    (h : boundKeysAll outputs source grouped items = .ok items') :
    List.Forall₂ (fun c c' => c.boundKeys outputs source grouped = .ok c') items items' := by
  induction items generalizing items' with
  | nil =>
    cases h
    exact .nil
  | cons c items ih =>
    obtain ⟨c', hc, h⟩ := ok_of_bind h
    obtain ⟨rest, hrest, h⟩ := ok_of_bind h
    cases h
    exact .cons hc (ih hrest)

theorem OrderedAs.sorted {reads reads' binds : Component → Component → Prop} {items items' : List Component}
    (h : OrderedAs denotes reads keys (.sortList items)) (hitems : List.Forall₂ binds items items')
    (hbinds : ∀ k item item', SortsAs denotes reads k item → binds item item' →
      SortsAs denotes reads' k item') : OrderedAs denotes reads' keys (sortListOf items') := by
  cases h with
  | list hne hkeys hperm _ =>
    -- The items were sorted before they were bound: bind them in the order of the keys, and permute then.
    obtain ⟨matched, hmatched, hperm'⟩ := List.perm_comp_forall₂ hperm hitems
    exact .list hne (forall₂_trans hbinds hkeys hmatched) (hperm'.trans (sortedByKey_perm _).symm)
      (sortedByKey_pairwise _)

theorem OrderedAs.bound (h : OrderedAs denotes ReadsItself keys c) (hc : c.bound envs = .ok c') :
    OrderedAs denotes ReadsChain keys c' := by
  have horder := h
  cases h with
  | absent =>
    cases hc
    exact .absent
  | list =>
    obtain ⟨items', hitems, hc⟩ := ok_of_bind hc
    cases hc
    exact horder.sorted (boundAll_forall₂ hitems) fun _ _ _ hkey => hkey.bound

theorem OrderedAs.boundKeys (h : OrderedAs denotes ReadsItself keys c)
    (hc : c.boundKeys outputs source grouped = .ok c') : OrderedAs denotes ReadsChain keys c' := by
  have horder := h
  cases h with
  | absent =>
    cases hc
    exact .absent
  | list =>
    obtain ⟨items', hitems, hc⟩ := ok_of_bind hc
    cases hc
    exact horder.sorted (boundKeysAll_forall₂ hitems) fun _ _ _ hkey => hkey.boundKeys

theorem bound_overOrder : (c c' : Component) → c.bound envs = .ok c' →
    Option.Rel (fun o o' => o.bound envs = .ok o') c.overOrder c'.overOrder
  | .aggWindow call partition orderBy, _, h | .funcWindow call partition orderBy, _, h => by
    obtain ⟨call', _, h⟩ := ok_of_bind h
    obtain ⟨partition', _, h⟩ := ok_of_bind h
    obtain ⟨orderBy', horder, h⟩ := ok_of_bind h
    cases h
    exact .some horder
  | .named item asName, _, h => by
    obtain ⟨item', hitem, h⟩ := ok_of_bind h
    cases h
    exact bound_overOrder item item' hitem
  | .column .., _, h | .aggChain .., _, h | .windowChain .., _, h => by
    rw [Component.bound] at h
    obtain ⟨p, rfl, _⟩ := locate_ok h
    exact .none
  | .int _, _, h | .float _, _, h | .str _, _, h | .absent, _, h | .windowClause _, _, h
  | .boundColumn .., _, h => by
    cases h
    exact .none
  | .aggregation func arg isDistinct, _, h => by
    obtain ⟨arg', _, h⟩ := ok_of_bind h
    cases h
    exact .none
  | .partitionList items, _, h | .groupList items, _, h | .sortList items, _, h => by
    obtain ⟨items', _, h⟩ := ok_of_bind h
    cases h
    exact .none
  | .sortItem chain dir, _, h => by
    obtain ⟨chain', _, h⟩ := ok_of_bind h
    cases h
    exact .none
  | .comparison l op r, _, h | .connection l op r, _, h => by
    obtain ⟨l', _, h⟩ := ok_of_bind h
    obtain ⟨r', _, h⟩ := ok_of_bind h
    cases h
    exact .none
  | .table _, _, h | .distinct, _, h | .compareOp _, _, h | .logicOp _, _, h | .joinType _, _, h
  | .aggFunc _, _, h | .windowFunc _, _, h | .sortDir _, _, h | .select _, _, h
  | .tableSource .., _, h | .querySource .., _, h | .join .., _, h | .query .., _, h => by cases h

theorem OverAs.bound (h : OverAs scope ReadsItself e c) (hc : c.bound envs = .ok c') :
    OverAs scope ReadsChain e c' := by
  have hover := bound_overOrder c c' hc
  rw [OverAs] at h ⊢
  generalize e.overKeys = keys at h ⊢
  generalize c.overOrder = o at h hover
  generalize c'.overOrder = o' at hover ⊢
  cases h with
  | none =>
    cases hover
    exact .none
  | some horder =>
    cases hover with
    | some hbound => exact .some (horder.bound hbound)

theorem TestAs.bound (h : TestAs scope ReadsItself e c) (hc : c.bound envs = .ok c') :
    TestAs scope ReadsChain e c' := by
  induction h generalizing c' with
  | compare hl hr =>
    obtain ⟨l', hl', hc⟩ := ok_of_bind hc
    obtain ⟨r', hr', hc⟩ := ok_of_bind hc
    cases hc
    exact .compare (hl.bound hl') (hr.bound hr')
  | swapped hl hr =>
    obtain ⟨r', hr', hc⟩ := ok_of_bind hc
    obtain ⟨l', hl', hc⟩ := ok_of_bind hc
    cases hc
    exact .swapped (hl.bound hl') (hr.bound hr')
  | logic _ _ ihl ihr =>
    obtain ⟨l', hl', hc⟩ := ok_of_bind hc
    obtain ⟨r', hr', hc⟩ := ok_of_bind hc
    cases hc
    exact .logic (ihl hl') (ihr hr')
  | not _ ih => exact .not (ih hc)

theorem ClauseAs.bound {e : Option (Expr Constant)} (h : ClauseAs scope ReadsItself e c)
    (hc : c.bound envs = .ok c') : ClauseAs scope ReadsChain e c' := by
  cases h with
  | absent =>
    cases hc
    exact .absent
  | test h => exact .test (h.bound hc)

end Clauses

section Queries

variable {schema : Schema} {scope : Scope} {select : List (SelectItem Constant)} {env outputs outputs' : Environment}
  {item item' : Component} {items items' : List Component} {asName : String} {s t : NameSupply}

theorem ItemAs.bound (h : ItemAs scope ReadsItself select item) (hitem : BindsItem env item s item' asName t) :
    ItemAs scope ReadsChain select item' := by
  obtain ⟨e, asName, chain, hs, hdenotes, hprovided, hover⟩ := h
  cases hitem with
  | @named i inner _ _ hbound =>
    have hover : OverAs scope ReadsItself e i := hover
    have hinner := hover.bound hbound
    exact ⟨e, asName, chain, hs, hdenotes, (bound_provided i inner hbound).trans hprovided, hinner⟩
  | @unnamed _ inner _ _ _ _ hbound _ =>
    have hinner := hover.bound hbound
    exact ⟨e, asName, chain, hs, hdenotes, (bound_provided item inner hbound).trans hprovided, hinner⟩

def visits : Table := ⟨"visits", [("page", .number), ("reader", .number)], 0⟩

def page : Component := .column visits "page" .number

def visitor : Component := .column visits "reader" .number

def visitTables : Schema := .ofDefs [⟨"visits", [⟨"page", "int"⟩, ⟨"reader", "int"⟩]⟩]

def visitScope : Scope := [⟨"visits", "page", page⟩, ⟨"visits", "reader", visitor⟩]

theorem gives_visits : Gives (TableRef.resolveOnly visitTables [.table "visits" none]) 0
    (.tableSource (.table visits) none, visitScope) 1 := by
  cbv

end Queries

end QuerySearch
