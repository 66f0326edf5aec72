import QuerySearch.Proofs.Meaning.Readings

/-! Tables and queries have the rows that they have in a statement: read at the visible columns they are
the same. -/

namespace QuerySearch

open Sql (Constant Select TableRef SelectItem)
open Component (ReadFrom)

variable {D : Type} {lit : Literals D} {ids ids' : UInt64 → Prop}

structure Agrees (lit : Literals D) (ids : UInt64 → Prop) (labelled : Labelled D) (c : Component)
    (bag : Multiset (Row D)) (scope : Scope) : Prop where
  header : labelled.header = scope.map VisibleColumn.label
  rows : labelled.rows = bag.map (scope.readAll lit c.provided)
  width : ∀ row ∈ bag, row.length = c.provided.length
  visible : ∀ v ∈ scope, ReadFrom c.provided ids v.chain
  provided : ∀ d ∈ c.provided, d.IsField ids

section Scopes

variable {scope scope' : Scope} {labelled : Labelled D} {c c' : Component} {bag : Multiset (Row D)}
  {fields : List Component} {row : Row D}

theorem readAll_congr (h : scope.map (·.chain) = scope'.map (·.chain)) :
    scope.readAll lit fields row = scope'.readAll lit fields row := by
  have hmap (s : Scope) : s.readAll lit fields row =
      (s.map (·.chain)).map fun c => c.field lit fields row := by
    simp [Scope.readAll, Function.comp_def]
  rw [hmap, hmap, h]

theorem Agrees.mono (h : Agrees lit ids labelled c bag scope) (hids : ∀ id, ids id → ids' id) :
    Agrees lit ids' labelled c bag scope where
  header := h.header
  rows := h.rows
  width := h.width
  visible v hv := (h.visible v hv).mono hids fun _ => id
  provided d hd := (h.provided d hd).mono hids

theorem Agrees.relabel {header : List Label} (h : Agrees lit ids labelled c bag scope)
    (hc : c'.provided = c.provided) (hheader : header = scope'.map VisibleColumn.label)
    (hchains : scope.map (·.chain) = scope'.map (·.chain)) :
    Agrees lit ids ⟨header, labelled.rows⟩ c' bag scope' where
  header := hheader
  rows := by
    rw [h.rows, hc]
    exact congrArg (Multiset.map · bag) (funext fun row => readAll_congr hchains)
  width := by
    rw [hc]
    exact h.width
  visible v hv := by
    have hmem : v.chain ∈ scope.map (·.chain) := by
      rw [hchains]
      exact List.mem_map_of_mem hv
    obtain ⟨w, hw, heq⟩ := List.mem_map.1 hmem
    rw [hc, ← heq]
    exact h.visible w hw
  provided := by
    rw [hc]
    exact h.provided

theorem width_readAll : (scope.readAll lit fields row).length = scope.length := List.length_map _

end Scopes

section Tables

variable {db : Database D}

theorem table_agrees (table : Table) (asName : Option String) (source : String) :
    Agrees lit (· = table.id)
      ⟨table.columns.map fun c => ⟨source, c.1⟩,
        (db table.name).map fun row => table.columns.map fun c => row c.1⟩
      (.tableSource (.table table) asName)
      ((db table.name).map fun row => table.columns.map fun c => row c.1)
      (table.columns.map fun c => ⟨source, c.1, .column table c.1 c.2⟩) where
  header := by simp [VisibleColumn.label]
  rows := by
    rw [Multiset.map_map]
    refine congrArg (Multiset.map · (db table.name)) (funext fun row => ?_)
    rw [Function.comp_apply, Scope.readAll, List.map_map]
    refine List.map_congr_left fun column hcolumn => ?_
    have hfound : ∃ c, table.columns.find? (fun c => c.1 == column.1) = some c := by
      rw [← Option.isSome_iff_exists, List.find?_isSome]
      exact ⟨column, hcolumn, beq_self_eq_true _⟩
    obtain ⟨c, hc⟩ := hfound
    have hname : c.1 = column.1 := by simpa using List.find?_some hc
    have hzip : (table.columns.map fun c => Component.column table c.1 c.2).zip
        (table.columns.map fun c => row c.1) =
        table.columns.map fun c => (.column table c.1 c.2, row c.1) := List.zip_map'
    have hcolumns : ((fun f : Component × Option D => f.1.isColumn table column.1) ∘
        fun c : String × DataType => (.column table c.1 c.2, row c.1)) =
        fun c => c.1 == column.1 := by
      funext c
      simp [Component.isColumn]
    rw [Function.comp_apply, Component.field_column, Component.provided, Component.provided, hzip,
      List.find?_map, hcolumns, hc]
    simp [hname]
  width row hrow := by
    obtain ⟨fields, _, rfl⟩ := Multiset.mem_map.1 hrow
    simp [Component.provided]
  visible v hv := by
    obtain ⟨column, hcolumn, rfl⟩ := List.mem_map.1 hv
    refine .column rfl ?_
    rw [Component.provided, Component.provided]
    exact List.mem_map_of_mem hcolumn
  provided d hd := by
    rw [Component.provided, Component.provided] at hd
    obtain ⟨column, _, rfl⟩ := List.mem_map.1 hd
    rfl

end Tables

section Items

variable {source c : Component} {scope outs : Scope}
  {items fields : List Component} {row : Row D} {labelled : Labelled D}

theorem map_eq_of_forall₂ {α β γ : Type} {xs : List α} {ys : List β} {f : α → γ} {g : β → γ}
    (h : List.Forall₂ (fun x y => f x = g y) xs ys) : xs.map f = ys.map g := by
  rw [← List.forall₂_eq_eq_eq, List.forall₂_map_left_iff, List.forall₂_map_right_iff]
  exact h

theorem ofItem_eq (s : SelectItem Constant) : Label.ofItem (scope.map VisibleColumn.label) s =
    ⟨outputSource scope s, s.outputName⟩ := by
  have hsource (name : String) : ((scope.map VisibleColumn.label).find? fun l => l.name == name).map
      (·.source) = (scope.find? fun v => v.name == name).map (·.source) := by
    rw [List.find?_map, Option.map_map]
    rfl
  cases s with
  | star => rfl
  | expr e asName =>
    cases e with
    | column column =>
      cases column with
      | mk qualifier name =>
        cases qualifier with
        | none =>
          rw [Label.ofItem, outputSource, Scope.sourceOf]
          simp only [hsource]
        | some q => rfl
    | _ => rfl

theorem items_readFrom {select : List (SelectItem Constant)}
    (hscope : ∀ v ∈ scope, ReadFrom fields ids v.chain)
    (h : select.mapM (selectItemValue scope) = .ok items) (hcall : ∀ s ∈ select, s.NoCall) :
    ∀ item ∈ items, ReadFrom fields ids item := by
  intro item hitem
  obtain ⟨s, hs, hvalue⟩ := exists_of_forall₂ (forall₂_of_mapM h) hitem
  cases s with
  | star => cases hvalue
  | expr e asName => exact value_readFrom hscope hvalue (hcall _ hs)

theorem items_field {select : List (SelectItem Constant)}
    (h : select.mapM (selectItemValue scope) = .ok items) (hcall : ∀ s ∈ select, s.NoCall) :
    select.map (SelectItem.field lit (scope.map VisibleColumn.label) (scope.readAll lit fields row)) =
      items.map (Component.field lit fields row) := by
  have hitems := forall₂_of_mapM h
  apply map_eq_of_forall₂
  rw [List.forall₂_iff_get] at hitems ⊢
  refine ⟨hitems.1, fun i hi hi' => ?_⟩
  have hvalue := hitems.2 i hi hi'
  have hplain := hcall _ (List.get_mem select ⟨i, hi⟩)
  cases hs : select.get ⟨i, hi⟩ with
  | star =>
    rw [hs] at hvalue
    cases hvalue
  | expr e asName =>
    rw [hs] at hvalue hplain
    exact (field_value hvalue hplain).symm

theorem outputs_labels {select : List (SelectItem Constant)}
    (hitems : select.mapM (selectItemValue scope) = .ok items)
    (hprovided : ∀ item ∈ items, item.provided = [item])
    (h : outputs scope select items = .ok outs) :
    select.map (Label.ofItem (scope.map VisibleColumn.label)) = outs.map VisibleColumn.label ∧
      outs.map (·.chain) = items := by
  have hlength : select.length = items.length := (forall₂_of_mapM hitems).length_eq
  have houtputs : List.Forall₂ (fun (p : SelectItem Constant × Component) v =>
      Label.ofItem (scope.map VisibleColumn.label) p.1 = v.label ∧ p.2 = v.chain)
      (select.zip items) outs := by
    have hruns := forall₂_of_mapM h
    rw [List.forall₂_iff_get] at hruns ⊢
    refine ⟨hruns.1, fun i hi hi' => ?_⟩
    obtain ⟨chain, hchain, hv⟩ := ok_of_bind (hruns.2 i hi hi')
    have hmem : ((select.zip items).get ⟨i, hi⟩).2 ∈ items :=
      (List.of_mem_zip (List.get_mem (select.zip items) ⟨i, hi⟩)).2
    have hchain := outputChain_ok hchain
    rw [hprovided _ hmem, List.mem_singleton] at hchain
    rw [← Except.ok.inj hv]
    exact ⟨ofItem_eq _, hchain.symm⟩
  constructor
  · calc select.map (Label.ofItem (scope.map VisibleColumn.label))
      _ = (select.zip items).map fun p => Label.ofItem (scope.map VisibleColumn.label) p.1 := by
        conv_lhs => rw [← List.map_fst_zip (Nat.le_of_eq hlength)]
        rw [List.map_map]
        rfl
      _ = outs.map VisibleColumn.label := map_eq_of_forall₂ (houtputs.imp fun _ _ h => h.1)
  · calc outs.map (·.chain)
      _ = (select.zip items).map (·.2) := (map_eq_of_forall₂ (houtputs.imp fun _ _ h => h.2)).symm
      _ = items := List.map_snd_zip (Nat.le_of_eq hlength.symm)

theorem readAll_items {fields : List Component} (hread : ∀ item ∈ items, ReadFrom fields ids item)
    (hchains : outs.map (·.chain) = items) :
    outs.readAll lit items (items.map (Component.field lit fields row)) =
      items.map (Component.field lit fields row) := by
  have hreadAll (row : Row D) : outs.readAll lit items row = items.map (Component.field lit items row) := by
    rw [← hchains, List.map_map]
    rfl
  rw [hreadAll]
  refine List.map_congr_left fun d hd => ?_
  exact Component.field_items ((hread d hd).ofMem hd)

theorem providedByAll_eq (h : ∀ item ∈ items, item.provided = [item]) :
    Component.providedByAll items = items := by
  induction items with
  | nil => rfl
  | cons item items ih =>
    rw [Component.providedByAll, h item (.head _), ih fun d hd => h d (.tail _ hd)]
    rfl

end Items

section Queries

variable [LinearOrder D] {db : Database D} {source c filter groupBy having orderBy : Component}
  {scope outs : Scope} {items : List Component} {row : Row D} {q : Select Constant} {schema : Schema}

theorem mem_queryRows {isDistinct : Bool}
    (h : row ∈ (Component.query (.select items) source filter groupBy having orderBy isDistinct).queryRows
      lit db) : ∃ given, row = items.map (Component.field lit source.provided given) := by
  rw [Component.queryRows] at h
  have hrow : row ∈ ((source.sourceRows lit db).filter fun row => filter.selects lit source.provided row).map
      fun row => items.map (Component.field lit source.provided row) := by
    cases isDistinct with
    | true => simpa using h
    | false => simpa using h
  obtain ⟨given, _, rfl⟩ := Multiset.mem_map.1 hrow
  exact ⟨given, rfl⟩

theorem labelled_rows
    (hsource : Agrees lit ids (TableRef.labelledOnly lit db schema q.sources) source
      (source.sourceRows lit db) scope)
    (hitems : q.items.mapM (selectItemValue scope) = .ok items) (hcall : ∀ s ∈ q.items, s.NoCall)
    (hcondition : predicateOrAbsent scope q.filter = .ok filter) (hfilter : ∀ p ∈ q.filter, p.NoCall) :
    (q.labelled lit db schema).rows =
      (Component.query (.select items) source filter groupBy having orderBy q.distinct).queryRows lit db := by
  cases q with
  | mk isDistinct select sources condition groups having' keys =>
    rw [Select.labelled, Component.queryRows, hsource.rows, hsource.header, Multiset.filter_map,
      Multiset.map_map]
    have hfields (row : Row D) : select.map (SelectItem.field lit (scope.map VisibleColumn.label)
        (scope.readAll lit source.provided row)) = items.map (Component.field lit source.provided row) :=
      items_field hitems hcall
    have hselects (row : Row D) : filter.selects lit source.provided row = Sql.Expr.selects lit
        (scope.map VisibleColumn.label) (scope.readAll lit source.provided row) condition :=
      selects_filter hcondition hfilter
    simp only [Function.comp_def, hfields, ← hselects]

theorem query_agrees
    (hsource : Agrees lit ids (TableRef.labelledOnly lit db schema q.sources) source
      (source.sourceRows lit db) scope)
    (hitems : q.items.mapM (selectItemValue scope) = .ok items) (hcall : ∀ s ∈ q.items, s.NoCall)
    (hcondition : predicateOrAbsent scope q.filter = .ok filter) (hfilter : ∀ p ∈ q.filter, p.NoCall)
    (houtputs : outputs scope q.items items = .ok outs) :
    Agrees lit ids (q.labelled lit db schema)
      (.query (.select items) source filter groupBy having orderBy q.distinct)
      ((Component.query (.select items) source filter groupBy having orderBy q.distinct).queryRows lit db)
      outs := by
  have hread := items_readFrom hsource.visible hitems hcall
  have hprovided : ∀ item ∈ items, item.provided = [item] :=
    fun item hitem => (hread item hitem).isField.provided_eq
  obtain ⟨hlabels, hchains⟩ := outputs_labels hitems hprovided houtputs
  have hall : (Component.query (.select items) source filter groupBy having orderBy q.distinct).provided =
      items := by
    rw [Component.provided, Component.provided, providedByAll_eq hprovided]
  refine ⟨?_, ?_, ?_, ?_, ?_⟩
  · rw [← hlabels, ← hsource.header]
    cases q with
    | mk => rw [Select.labelled]
  · rw [labelled_rows hsource hitems hcall hcondition hfilter, hall]
    symm
    refine (Multiset.map_congr rfl fun row hrow => ?_).trans (Multiset.map_id _)
    obtain ⟨given, rfl⟩ := mem_queryRows hrow
    exact readAll_items hread hchains
  · intro row hrow
    obtain ⟨given, rfl⟩ := mem_queryRows hrow
    rw [hall, List.length_map]
  · intro v hv
    have hmem : v.chain ∈ items := by
      rw [← hchains]
      exact List.mem_map_of_mem hv
    rw [hall]
    exact (hread v.chain hmem).ofMem hmem
  · intro d hd
    rw [hall] at hd
    exact (hread d hd).isField

theorem queryOver_agrees (h : queryOver source scope q = .ok (c, outs))
    (hsource : Agrees lit ids (TableRef.labelledOnly lit db schema q.sources) source
      (source.sourceRows lit db) scope)
    (hcall : ∀ s ∈ q.items, s.NoCall) (hfilter : ∀ p ∈ q.filter, p.NoCall) :
    Agrees lit ids (q.labelled lit db schema) c (c.queryRows lit db) outs ∧
      (q.labelled lit db schema).rows = c.queryRows lit db := by
  obtain ⟨items, hitems, h⟩ := ok_of_bind h
  obtain ⟨filter, hcondition, h⟩ := ok_of_bind h
  obtain ⟨groups, _, h⟩ := ok_of_bind h
  obtain ⟨having, _, h⟩ := ok_of_bind h
  obtain ⟨keys, _, h⟩ := ok_of_bind h
  obtain ⟨outs', houtputs, h⟩ := ok_of_bind h
  cases h
  exact ⟨query_agrees hsource hitems hcall hcondition hfilter houtputs,
    labelled_rows hsource hitems hcall hcondition hfilter⟩

end Queries

end QuerySearch
