import Mathlib
import QuerySearch.Proofs.Binding.Readable
import QuerySearch.Proofs.Projection.Bindable
import QuerySearch.Proofs.Resolve.Supplied

/-! Names can be bound to a narrowed query unless it sorts by an aggregate that can no longer be read. -/

namespace QuerySearch

namespace Component

/-- At every level the sort keys can be read. -/
def KeysReadable : Component → Prop
  | .query (.select items) source _ groupBy _ orderBy _ => source.KeysReadable ∧
    ∀ key ∈ orderBy.keyItems,
      key.KeyReadable (groups groupBy items) (select items).providedKeys source.providedKeys
  | .querySource q _ => q.KeysReadable
  | .join l r .. => l.KeysReadable ∧ r.KeysReadable
  | _ => True

section Binds

variable {needed : List Fingerprint} {q q' s s' t l r on : Component} {asName : Option String}

def BindsSource (c : Component) : Prop :=
  Settles c.KeysReadable BindError.IsMissing (fun r => r.2.Reads c.providedKeys) c.bindSource

def BindsQuery (c : Component) : Prop :=
  Settles c.KeysReadable BindError.IsMissing (fun r => r.2.Reads c.providedKeys) c.bindQuery

theorem sourceName_settles (hint : String) (asName : Option String) :
    Settles True BindError.IsMissing (fun _ => True) (sourceName hint asName) := by
  cases asName with
  | some a => exact .pure trivial
  | none => exact freshName_settles _

theorem binds_tableSource (h : (tableSource t asName).Bindable) : (tableSource t asName).BindsSource := by
  cases t with
  | table t =>
    have hrun : Settles True BindError.IsMissing (fun r => r.2.Reads (Component.table t).providedKeys) (do
        let a ← sourceName (tableHint (.table t)) asName
        pure (tableSource (.table t) (some a), tableEnvironment (.table t) a)) :=
      (sourceName_settles _ asName).andThen fun a _ => .pure (tableEnvironment_reads h a)
    rw [BindsSource, KeysReadable, providedKeys]
    · cases asName <;> exact hrun
    all_goals simp
  | _ => exact h.elim

theorem BindsQuery.querySource (h : q.BindsQuery) (asName : Option String) :
    (querySource q asName).BindsSource := by
  have hrun : Settles (q.KeysReadable ∧ True) BindError.IsMissing (fun r => r.2.Reads q.providedKeys) (do
      let r ← q.bindQuery
      let a ← sourceName "cte" asName
      pure (Component.querySource r.1 (some a), r.2.through a)) :=
    h.bind fun r hr => (sourceName_settles _ asName).andThen fun a _ => .pure (hr.through a)
  have hrun := hrun.congr (and_iff_left trivial)
  rw [BindsSource, KeysReadable, providedKeys]
  cases asName <;> exact hrun

theorem BindsSource.join {type : JoinType} (hl : l.BindsSource) (hr : r.BindsSource)
    (h : (join l r type on).Bindable) : (join l r type on).BindsSource := by
  obtain ⟨_, _, hapart, hon, hsupplied⟩ := h
  rw [BindsSource, KeysReadable, providedKeys, bindSource]
  refine hl.bind fun a ha => Settles.congr (hr.bind fun b hb => ?_) (and_iff_left trivial)
  have henv := ha.merge hb hapart
  rw [SuppliedBy, providedKeys] at hsupplied
  exact (Settles.liftM (Decides.of_ok (hon.bound_ok henv hsupplied))).andThen fun on' _ => .pure henv

theorem BindsSource.query {items : List Component} {filter groupBy having orderBy : Component}
    {isDistinct : Bool} (hs : s.BindsSource)
    (h : (query (.select items) s filter groupBy having orderBy isDistinct).Bindable) :
    (query (.select items) s filter groupBy having orderBy isDistinct).BindsQuery := by
  obtain ⟨_, hitems, hfilter, hgroup, hhaving, horder, hsupplied⟩ := h
  simp only [List.forall_mem_cons] at hsupplied
  obtain ⟨hsel, hfilter', hgroup', hhaving', _⟩ := hsupplied
  have hprovided : (Component.query (.select items) s filter groupBy having orderBy
      isDistinct).providedKeys = (select items).providedKeys := by
    simp only [providedKeys]
  rw [BindsQuery, KeysReadable, hprovided, bindQuery]
  refine hs.bind fun a henv => ?_
  refine (Settles.liftM (Decides.of_ok (hfilter.bound_ok henv hfilter'))).andThen fun _ _ => ?_
  refine (Settles.liftM (Decides.of_ok (hgroup.bound_ok henv hgroup'))).andThen fun _ _ => ?_
  refine (Settles.liftM (Decides.of_ok (hhaving.bound_ok henv hhaving'))).andThen fun _ _ => ?_
  have hrun := bindItems_settles hitems henv hsel Environment.reads_empty
  refine hrun.andThen fun b hout => ?_
  have hkeys := horder.decides (groups groupBy items) hout henv
  exact Settles.congr (Settles.bind (Settles.liftM hkeys) fun _ _ => .pure hout) (and_iff_left trivial)

mutual

theorem NarrowedQuery.binds : {needed : List Fingerprint} → {q q' : Component} →
    NarrowedQuery needed q q' → q'.Bindable → q'.BindsQuery
  | _, _, _, .query _ _ hsource => fun h => (hsource.binds h.1).query h

theorem NarrowedSource.binds : {needed : List Fingerprint} → {s s' : Component} →
    NarrowedSource needed s s' → s'.Bindable → s'.BindsSource
  | _, _, _, .table => binds_tableSource
  | _, _, _, .query h => fun hs => (h.binds hs).querySource _
  | _, _, _, .join hl hr => fun hs => (hl.binds hs.1).join (hr.binds hs.2.1) hs

end

theorem Projected.binds (h : Projected needed q q') (hq : q'.Bindable) : q'.BindsQuery := by
  cases h with
  | query _ hsource _ => exact (hsource.binds hq.1).query hq

theorem BindsQuery.bindNames (h : q.BindsQuery) (names : NameSupply) :
    Decides q.KeysReadable BindError.IsMissing (fun _ => True) (q.bindNames names).1 := by
  have hrun : Settles (q.KeysReadable ∧ True) BindError.IsMissing (fun _ => True) (do
      return (← q.bindQuery).1) := h.bind fun _ _ => .pure trivial
  exact (hrun names).congr (and_iff_left trivial)

end Binds

end Component

section Statements

open Sql (Select TableRef Constant)
open Component (NoCollision)

/-- Names are bound to a form of the query of a statement where its sort keys can be read.  Where one
cannot, it is missing: no chain has more than one place. -/
theorem bindNames_projections {schema : Schema} {statement : Select Constant} {query : Component}
    {names : List String} {nextId : UInt64} {forms : List Component}
    (h : (statement.toQuery schema nextId).1 = .ok (query, names)) (hover : statement.NoOver)
    (hgroups : statement.GroupsPlain schema) (hreads : nextId.toNat + statement.reads < UInt64.size)
    (hcs : NoCollision query.seeds) (hforms : query.projections query.provided names = .ok forms) :
    ∀ form ∈ forms, ∀ supply,
      (form.KeysReadable → ∃ c, (form.bindNames supply).1 = .ok c) ∧
        (¬ form.KeysReadable → ∃ chain, (form.bindNames supply).1 = .error (.missing chain)) := by
  obtain ⟨ids, scope, hresolved⟩ := toQuery_resolved h hover hgroups hreads hcs
  have hquery := hresolved.bindable
  intro form hform supply
  have hprojected := Component.projections_projected hforms hquery.scoped form hform
  have hbinds := (hprojected.binds (hprojected.bindable hquery)).bindNames supply
  cases hrun : (form.bindNames supply).1 with
  | ok c =>
    rw [hrun] at hbinds
    exact ⟨fun _ => ⟨c, rfl⟩, fun hkeys => absurd hbinds.1 hkeys⟩
  | error e =>
    rw [hrun] at hbinds
    cases e with
    | missing chain => exact ⟨fun hkeys => absurd hkeys hbinds.1, fun _ => ⟨chain, rfl⟩⟩
    | ambiguous | unexpected => exact hbinds.2.elim

def sales : Table := ⟨"sales", [("shop", .number), ("price", .number)], 0⟩

def shop : Component := .column sales "shop" .number

def price : Component := .column sales "price" .number

def total : Component := .aggChain .sum price

def salesTables : Schema := .ofDefs [⟨"sales", [⟨"shop", "int"⟩, ⟨"price", "int"⟩]⟩]

/-- `SELECT shop FROM source GROUP BY shop ORDER BY sum(price)` -/
def rankedShops (source : TableRef Constant) : Select Constant where
  distinct := false
  items := [.expr (.column ⟨none, "shop"⟩) none]
  sources := [source]
  filter := none
  groupBy := [.column ⟨none, "shop"⟩]
  having := none
  orderBy := [⟨.call "sum" false false [.column ⟨none, "price"⟩] none, false⟩]

/-- `(SELECT shop, price FROM sales) AS s` -/
def soldAt : TableRef Constant :=
  .query ⟨false, [.expr (.column ⟨none, "shop"⟩) none, .expr (.column ⟨none, "price"⟩) none],
    [.table "sales" none], none, [], none, []⟩ (some "s")

def rankedQuery (item source : Component) : Component :=
  .query (.select [item]) source .absent (.groupList [shop]) .absent
    (.sortList [.sortItem total .asc]) false

def salesSource : Component := .tableSource (.table sales) none

def soldSource (items : List Component) : Component :=
  .querySource (.query (.select items) salesSource .absent .absent .absent .absent false) (some "s")

theorem queryOver_rankedShops (n : String) (source : Component) (ref : TableRef Constant) :
    queryOver source [⟨n, "shop", shop⟩, ⟨n, "price", price⟩] (rankedShops ref) =
      .ok (rankedQuery shop source, [⟨n, "shop", shop⟩]) := by
  have hshop : Scope.lookup [⟨n, "shop", shop⟩, ⟨n, "price", price⟩] ⟨none, "shop"⟩ = .ok shop := by cbv
  have hprice : Scope.lookup [⟨n, "shop", shop⟩, ⟨n, "price", price⟩] ⟨none, "price"⟩ = .ok price := by
    cbv
  have hsource : Scope.sourceOf [⟨n, "shop", shop⟩, ⟨n, "price", price⟩] ⟨none, "shop"⟩ = n := by cbv
  have hsum : AggFunc.ofName? "sum" = some .sum := by cbv
  have hwindow : WindowFunc.ofName? "sum" = none := by cbv
  have hshop' : referencable shop = .ok shop := referencable_rooted (c := shop) trivial
  have hprice' : referencable price = .ok price := referencable_rooted (c := price) trivial
  have hchain : referencable (.aggChain .sum price) = .ok (.aggChain .sum price) :=
    referencable_rooted (c := .aggChain .sum price) trivial
  have hout : outputChain shop = .ok shop := rfl
  have hout' : outputChain (.aggregation .sum price false) = .ok (.aggChain .sum price) := rfl
  have hgroups : listOrAbsent Component.groupListOf [shop] = .groupList [shop] := by
    simp [listOrAbsent, Component.groupListOf, Component.sortedByKey]
  have hkeys (key : Component) : listOrAbsent Component.sortListOf [key] = .sortList [key] := by
    simp [listOrAbsent, Component.sortListOf, Component.sortedByKey]
  simp [queryOver, rankedShops, selectItemValue, Sql.Expr.value, callValue, Sql.Expr.valueEach,
    Sql.Window.value?, reference, outputs, outputSource, predicateOrAbsent, hout, hout', hgroups, hkeys,
    hshop, hprice, hsource, hsum, hwindow, hshop', hprice', hchain, bind, Except.bind, pure, Except.pure]
  exact ⟨rfl, rfl⟩

theorem toQuery_rankedShops {ref : TableRef Constant} {source : Component} {n : String} {next : UInt64}
    (h : Gives (TableRef.resolveOnly salesTables [ref]) 0
      (source, [⟨n, "shop", shop⟩, ⟨n, "price", price⟩]) next) :
    ((rankedShops ref).toQuery salesTables 0).1 = .ok (rankedQuery shop source, ["shop"]) :=
  toQuery_of_gives h (queryOver_rankedShops n source ref)

theorem gives_sales : Gives (TableRef.resolveOnly salesTables [.table "sales" none]) 0
    (salesSource, [⟨"sales", "shop", shop⟩, ⟨"sales", "price", price⟩]) 1 := by
  cbv

theorem gives_soldAt : Gives (TableRef.resolveOnly salesTables [soldAt]) 0
    (soldSource [shop, price], [⟨"s", "shop", shop⟩, ⟨"s", "price", price⟩]) 1 := by
  cbv

theorem groupsPlain_rankedShops {ref : TableRef Constant} (h : ∀ level ∈ ref.levels, level.groupBy = []) :
    (rankedShops ref).GroupsPlain salesTables := by
  intro level hlevel _ _ scope _ _ key hkey
  have hlevels : (rankedShops ref).levels = rankedShops ref :: (ref.levels ++ []) := rfl
  rw [hlevels, List.append_nil, List.mem_cons] at hlevel
  cases hlevel with
  | inl hlevel =>
    subst hlevel
    cases List.mem_singleton.1 hkey
    rintro (hcall | ⟨i, item, _, hitem, hcall⟩)
    · cases hcall
    · cases List.mem_singleton.1 (List.mem_of_getElem? hitem)
      cases hcall
  | inr hlevel =>
    rw [h level hlevel] at hkey
    cases hkey

theorem noOver_rankedShops : (rankedShops (.table "sales" none)).NoOver ∧ (rankedShops soldAt).NoOver := by
  simp [Sql.Select.NoOver, rankedShops, soldAt, Sql.Select.levels, Sql.TableRef.levels,
    Sql.TableRef.levelsEach, Sql.SelectItem.NoOver, Sql.Expr.NoOver, Sql.Expr.NoOverEach,
    Sql.Select.exprs, Sql.TableRef.conditions]

theorem salesKeys_ne : shop.fingerprint ≠ price.fingerprint ∧ shop.fingerprint ≠ total.fingerprint ∧
    price.fingerprint ≠ total.fingerprint := by
  simp [shop, price, total]
  decide +kernel

theorem shop_keys : shop.requiredKeys = [shop.fingerprint] ∧ shop.providedKeys = [shop.fingerprint] := by
  simp [shop, Component.requiredKeys, Component.providedKeys]

theorem price_keys : price.requiredKeys = [price.fingerprint] ∧ price.providedKeys = [price.fingerprint] := by
  simp [price, Component.requiredKeys, Component.providedKeys]

theorem sort_keys : (Component.sortList [.sortItem total .asc]).requiredKeys = [total.fingerprint] := by
  simp [Component.requiredKeys]
  rfl

theorem noCollision_rankedQuery : NoCollision (rankedQuery shop salesSource).seeds := by
  have hchains : [shop, price, total].Pairwise
      fun c d => c.fingerprint ≠ d.fingerprint := by
    obtain ⟨h₁, h₂, h₃⟩ := salesKeys_ne
    simp_all
  have hreach : ∀ c ∈ (rankedQuery shop salesSource).reach false, c.chainFields = [] ∨
      c ∈ [shop, price, total] := by
    simp [rankedQuery, salesSource, shop, price, total, Component.reach, Component.reachAll,
      Component.chainFields]
  have htables : ∀ t, .table t ∈ (rankedQuery shop salesSource).reach false → t = sales := by
    simp [rankedQuery, salesSource, shop, price, total, Component.reach, Component.reachAll]
  refine Component.noCollision_of_pairwise (fun c hc => ?_) hchains
  obtain hc | ⟨t, ht, hc⟩ := mem_seeds hc
  · exact hreach c hc
  · cases htables t ht
    have hc : c ∈ [shop, price] := hc
    exact .inr (List.mem_append_left [total] hc)

theorem projections_rankedQuery {source source' : Component}
    (h : source.narrowSource [shop.fingerprint, shop.fingerprint, total.fingerprint] = .ok [source']) :
    (rankedQuery shop source).projections (rankedQuery shop source).provided ["shop"] =
      .ok [rankedQuery (.named shop "shop") source'] := by
  have hprovided : (rankedQuery shop source).provided = [shop] := rfl
  have hbind {α β : Type} (a : α) (f : α → Except ProjectionError β) :
      (Except.ok a >>= f) = f a := rfl
  rw [hprovided]
  simp [hbind, rankedQuery, shop_keys, sort_keys, Component.projections, Component.narrowQuery, h,
    Component.keptItems, Component.choices, Component.addChoice, Component.leadingKey, selections,
    Component.providedKeys, Component.requiredKeys]
  have harrange : Component.arrange [(shop, "shop")] (rankedQuery shop source') =
      .ok (rankedQuery (.named shop "shop") source') := by
    simp [rankedQuery, Component.arrange, Component.outputItem, Component.leadingKey, shop_keys]
    rfl
  exact congrArg (fun r => (fun form => [form]) <$> r) harrange

theorem narrowSource_sold : (soldSource [shop, price]).narrowSource
    [shop.fingerprint, shop.fingerprint, total.fingerprint] = .ok [soldSource [shop]] := by
  obtain ⟨h₁, h₂, h₃⟩ := salesKeys_ne
  have hbind {α β : Type} (a : α) (f : α → Except ProjectionError β) :
      (Except.ok a >>= f) = f a := rfl
  simp [hbind, soldSource, salesSource, shop_keys, price_keys, h₁.symm, h₃, Component.narrowQuery,
    Component.narrowSource, Component.keptItems, Component.choices, Component.addChoice,
    Component.leadingKey, selections, Component.requiredKeys]
  rfl

theorem keysReadable_sales : (rankedQuery (.named shop "shop") salesSource).KeysReadable := by
  have hgroups : Component.groups (.groupList [shop]) [.named shop "shop"] = true := by
    simp [Component.groups, ← Bool.not_eq_true, Component.isAbsent_iff]
  refine ⟨trivial, fun key hkey => ?_⟩
  cases List.mem_singleton.1 hkey
  exact .inr (.inr ⟨hgroups, by simp [salesSource, sales, price, Component.providedKeys]⟩)

theorem bindNames_projections_sales :
    ((rankedShops (.table "sales" none)).toQuery salesTables 0).1 =
        .ok (rankedQuery shop salesSource, ["shop"]) ∧
      (rankedShops (.table "sales" none)).NoOver ∧
      (rankedShops (.table "sales" none)).GroupsPlain salesTables ∧
      (0 : UInt64).toNat + (rankedShops (.table "sales" none)).reads < UInt64.size ∧
      NoCollision (rankedQuery shop salesSource).seeds ∧
      (rankedQuery shop salesSource).projections (rankedQuery shop salesSource).provided ["shop"] =
        .ok [rankedQuery (.named shop "shop") salesSource] ∧
      ∃ c, ((rankedQuery (.named shop "shop") salesSource).bindNames .empty).1 = .ok c := by
  have hquery := toQuery_rankedShops gives_sales
  have hgroups : (rankedShops (.table "sales" none)).GroupsPlain salesTables :=
    groupsPlain_rankedShops nofun
  have hreads : (0 : UInt64).toNat + (rankedShops (.table "sales" none)).reads < UInt64.size := by decide
  have hnarrow : salesSource.narrowSource [shop.fingerprint, shop.fingerprint, total.fingerprint] =
      .ok [salesSource] := rfl
  have hforms := projections_rankedQuery hnarrow
  have hbound := bindNames_projections hquery noOver_rankedShops.1 hgroups hreads noCollision_rankedQuery
    hforms _ (.head _) .empty
  exact ⟨hquery, noOver_rankedShops.1, hgroups, hreads, noCollision_rankedQuery, hforms,
    hbound.1 keysReadable_sales⟩

/-- A subquery is narrowed to its shops, and then the prices are missing. -/
theorem bindNames_projections_sold :
    ((rankedShops soldAt).toQuery salesTables 0).1 =
        .ok (rankedQuery shop (soldSource [shop, price]), ["shop"]) ∧
      (rankedShops soldAt).NoOver ∧ (rankedShops soldAt).GroupsPlain salesTables ∧
      (rankedQuery shop (soldSource [shop, price])).projections
          (rankedQuery shop (soldSource [shop, price])).provided ["shop"] =
        .ok [rankedQuery (.named shop "shop") (soldSource [shop])] ∧
      ((rankedQuery (.named shop "shop") (soldSource [shop])).bindNames .empty).1 =
        .error (.missing price) := by
  have hbound : ((rankedQuery (.named shop "shop") (soldSource [shop])).bindNames .empty).1 =
      .error (.missing price) := by
    obtain ⟨h₁, h₂, h₃⟩ := salesKeys_ne
    simp only [shop, price, total, Component.fingerprint_column, Component.fingerprint_aggChain]
      at h₁ h₂ h₃
    have hcolumns : sales.columns = [("shop", .number), ("price", .number)] := rfl
    have hgroups : (Component.groupList [Component.column sales "shop" .number]).isAbsent = false := by
      simp [← Bool.not_eq_true, Component.isAbsent_iff]
    simp [rankedQuery, soldSource, salesSource, Component.bindNames, Component.bindQuery,
      Component.bindSource, Component.bindItems, Component.bindItem, Component.bound, Component.boundKeys,
      Component.boundAll, Component.boundKeysAll, Component.locate, Component.tableEnvironment,
      Environment.places, Environment.bind, Environment.contains, Environment.empty, Environment.through,
      Component.sortListOf, Component.groupListOf, Component.sortedByKey, shop, price, total,
      Component.provided, hcolumns, h₁, h₁.symm, h₂, hgroups]
    rfl
  have hlevels : ∀ level ∈ soldAt.levels, level.groupBy = [] := by
    intro level hlevel
    cases List.mem_singleton.1 hlevel
    rfl
  exact ⟨toQuery_rankedShops gives_soldAt, noOver_rankedShops.2, groupsPlain_rankedShops hlevels,
    projections_rankedQuery narrowSource_sold, hbound⟩

end Statements

end QuerySearch
