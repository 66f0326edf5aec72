import QuerySearch.Proofs.Binding.Labels
import QuerySearch.Proofs.Resolve.Layered

/-! Output names as sort keys in the forms of a statement.  A key that is an output name means one output
if the output names of the statement are different and no column of the schema has the name of another one
with digits behind it. -/

namespace QuerySearch

open Component (Presentable Labelable KeysNameOutputs label? SortsChains)
open NameSupply (Unnumbered)
open Sql (Constant Expr Select SelectItem TableRef)

def Schema.hints (schema : Schema) : List String :=
  "" :: (AggFunc.all.map AggFunc.name ++ [WindowFunc.denseRank.name] ++
    schema.entries.flatMap fun e => e.2.columns.map (·.1))

section Values

variable {schema : Schema} {scope outs : Scope} {c item : Component}

def Scope.Hinted (schema : Schema) (scope : Scope) : Prop := ∀ v ∈ scope, v.chain.Hinted schema.hints

theorem mem_hints_empty (schema : Schema) : "" ∈ schema.hints := .head _

theorem mem_hints_aggregate (schema : Schema) (func : AggFunc) : func.name ∈ schema.hints := by
  simp only [Schema.hints, List.mem_cons, List.mem_append, List.mem_map]
  exact .inr (.inl (.inl ⟨func, func.mem_all, rfl⟩))

theorem mem_hints_rank (schema : Schema) (func : WindowFunc) : func.name ∈ schema.hints := by
  cases func
  simp [Schema.hints]

theorem mem_hints_column {name : String} {t : TableSchema} (h : schema.table? name = some t)
    {column : String × DataType} (hcolumn : column ∈ t.columns) : column.1 ∈ schema.hints := by
  have hentry : ∃ e ∈ schema.entries, e.2 = t := by
    obtain ⟨before, after, hentries, _⟩ := List.lookup_eq_some_iff.1 h
    exact ⟨_, by rw [hentries]; exact List.mem_append_right _ (.head _), rfl⟩
  obtain ⟨e, he, rfl⟩ := hentry
  simp only [Schema.hints, List.mem_cons, List.mem_append, List.mem_flatMap, List.mem_map]
  exact .inr (.inr ⟨e, he, column, hcolumn, rfl⟩)

theorem Component.IsConstant.hinted (h : c.IsConstant) : c.Hinted schema.hints := by
  cases c with
  | int | float | str => exact ⟨by simp, mem_hints_empty schema⟩
  | _ => exact h.elim

theorem IsCall.hinted {name : String} {isDistinct : Bool} {args : List (Except ResolveError Component)}
    {window : Option (Except ResolveError (Component × Component))} (h : IsCall name isDistinct args window c) :
    c.Hinted schema.hints ∧ ∀ d ∈ c.provided, d.Hinted schema.hints := by
  cases h with
  | @rank func =>
    have hfunc := mem_hints_rank schema func
    refine ⟨⟨by simp, hfunc⟩, fun d hd => ?_⟩
    cases List.mem_singleton.1 hd
    exact ⟨by simp, hfunc⟩
  | @aggregation func _ _ harg =>
    have hfunc := mem_hints_aggregate schema func
    refine ⟨⟨by simp, hfunc⟩, fun d hd => ?_⟩
    rw [Component.provided_aggregation func _ harg, List.mem_singleton] at hd
    rw [hd]
    exact ⟨by simp, hfunc⟩
  | @window func _ _ _ _ harg =>
    have hfunc := mem_hints_aggregate schema func
    refine ⟨⟨by simp, hfunc⟩, fun d hd => ?_⟩
    rw [Component.provided, Component.provided_aggregation func _ harg, List.mem_singleton] at hd
    rw [hd]
    exact ⟨by simp, hfunc⟩

theorem value_hinted (htraced : scope.Traced) (hscope : scope.Hinted schema) {e : Expr Constant}
    (h : e.value scope = .ok c) : c.Hinted schema.hints ∧ ∀ d ∈ c.provided, d.Hinted schema.hints := by
  have horigin (hc : c.IsOrigin) (hhinted : c.Hinted schema.hints) :
      c.Hinted schema.hints ∧ ∀ d ∈ c.provided, d.Hinted schema.hints := by
    refine ⟨hhinted, fun d hd => ?_⟩
    rw [hc.provided_eq, List.mem_singleton] at hd
    rwa [hd]
  cases e with
  | column column =>
    obtain ⟨v, hv, rfl⟩ := lookup_ok h
    exact horigin (htraced v hv) (hscope v hv)
  | constant v =>
    have hconstant := constantValue_ok h
    exact horigin hconstant.origin hconstant.hinted
  | call name isDistinct star args window => exact (callValue_isCall h).2.hinted
  | _ => cases h

theorem unnumbered_of_last {hints : List String}
    (h : ∀ hint ∈ hints, ∀ c ∈ hint.toList.getLast?, c.isDigit = false) : Unnumbered hints := by
  intro hint _ hint' hhint' digits hdigits heq
  by_contra hne
  have hlast : hint'.toList.getLast? = some (digits.getLast hne) := by
    rw [heq, List.getLast?_append_of_ne_nil _ hne, List.getLast?_eq_some_getLast hne]
  have hdigit := hdigits _ (List.getLast_mem hne)
  rw [h hint' hhint' _ hlast] at hdigit
  cases hdigit

end Values

section Statements

variable {schema : Schema} {scope outs : Scope} {source c query form : Component} {q : Select Constant}
  {names : List String}

theorem sortsChains_keys {keys : List Component}
    (h : ∀ k ∈ keys, ∃ chain dir, k = .sortItem chain dir ∧ chain.kind.isReferencable = true) :
    (listOrAbsent .sortListOf keys).SortsChains := by
  cases keys with
  | nil => trivial
  | cons k keys =>
    intro item hitem
    obtain ⟨chain, dir, rfl, hkind⟩ := h item (Component.mem_sortedByKey.1 hitem)
    refine ⟨chain, dir, rfl, ?_⟩
    rw [Component.kind_isReferencable_iff] at hkind
    cases chain with
    | column | aggChain | windowChain => trivial
    | _ => exact absurd rfl hkind

theorem queryOver_presentable (h : queryOver source scope q = .ok (c, outs)) (htraced : scope.Traced)
    (hscope : scope.Hinted schema) (hsource : source.Presentable schema.hints) :
    c.Presentable schema.hints ∧ outs.Hinted schema := by
  obtain ⟨items, filter, groups, having, keys, hitems, _, _, hkeys, houtputs, rfl⟩ := queryOver_ok h
  have hhinted : ∀ item ∈ items, item.Hinted schema.hints ∧ ∀ d ∈ item.provided, d.Hinted schema.hints := by
    intro item hitem
    obtain ⟨_, _, e, asName, _, hvalue⟩ := exists_of_forall₂ hitems hitem
    exact value_hinted htraced hscope hvalue
  refine ⟨⟨hsource, fun item hitem => (hhinted item hitem).1, sortsChains_keys fun k hk => ?_⟩,
    fun v hv => ?_⟩
  · obtain ⟨key, _, chain, hchain, rfl⟩ := exists_of_forall₂ hkeys hk
    exact ⟨chain, _, rfl, (reference_ok hchain).1⟩
  · obtain ⟨item, hitem, hchain⟩ := outputs_ok houtputs v hv
    exact (hhinted item hitem).2 _ hchain

theorem Scope.Hinted.renamed (h : scope.Hinted schema) (asName : Option String) :
    (asName.elim scope scope.renamed).Hinted schema := by
  cases asName with
  | none => exact h
  | some a =>
    intro v hv
    obtain ⟨u, hu, rfl⟩ := List.mem_map.1 hv
    exact h u hu

theorem joined_presentable {hints : List String} {l r on : Component} {kind : Sql.JoinKind}
    (hl : l.Presentable hints) (hr : r.Presentable hints) : (joined l r on kind).Presentable hints := by
  cases kind with
  | right => exact ⟨hr, hl⟩
  | _ => exact ⟨hl, hr⟩

theorem resolve_presentable (schema : Schema) :
    (∀ (q : Select Constant) next c scope next', Gives (q.resolve schema) next (c, scope) next' →
      "" ∉ q.aliases → c.Presentable schema.hints ∧ scope.Hinted schema) ∧
    ∀ (t : TableRef Constant) next c scope next', Gives (t.resolve schema) next (c, scope) next' →
      "" ∉ t.aliases → c.Presentable schema.hints ∧ scope.Hinted schema := by
  apply resolve_induct
  case table =>
    intro name asName next c scope next' h hnames
    obtain ⟨t, table, ht, rfl, _, rfl, rfl⟩ := gives_table h
    refine ⟨?_, fun v hv => ?_⟩
    · rintro rfl
      exact hnames (.head _)
    · obtain ⟨column, hcolumn, rfl⟩ := List.mem_map.1 hv
      exact ⟨by simp, mem_hints_column ht hcolumn⟩
  case query =>
    intro q asName next c scope next' ih hnames
    rw [TableRef.aliases, List.mem_append, not_or] at hnames
    obtain ⟨hc, hscope⟩ := ih hnames.2
    refine ⟨⟨?_, hc⟩, hscope.renamed asName⟩
    rintro rfl
    exact hnames.1 (.head _)
  case join =>
    intro left right kind e next l leftScope mid r rightScope next' on _ _ _ ihl ihr hnames
    rw [TableRef.aliases, List.mem_append, not_or] at hnames
    obtain ⟨hl, hleft⟩ := ihl hnames.1
    obtain ⟨hr, hright⟩ := ihr hnames.2
    exact ⟨joined_presentable hl hr, List.forall_mem_append.2 ⟨hleft, hright⟩⟩
  case select =>
    intro isDistinct items t filter groupBy having orderBy next source sourceScope next' c scope ht hquery ih
      hnames
    obtain ⟨hsource, hscope⟩ := ih (by simpa [Select.aliases, TableRef.aliasesEach] using hnames)
    exact queryOver_presentable hquery (resolve_traced.2 _ _ _ _ _ ht) hscope hsource

end Statements

section Forms

variable {schema : Schema} {hints : List String} {statement : Select Constant} {q query form c : Component}
  {outputs : List (Component × String)} {names : List String} {next : UInt64} {supply supply' : NameSupply}

theorem narrow_presentable :
    (∀ needed q forms, Component.narrowQuery needed q = .ok forms → ∀ form ∈ forms,
      q.Presentable hints → form.Presentable hints) ∧
    ∀ needed s forms, Component.narrowSource needed s = .ok forms → ∀ form ∈ forms,
      s.Presentable hints → form.Presentable hints := by
  apply Component.narrow_induct
  case query =>
    intro needed sel source filter groupBy having orderBy isDistinct lists items source' hlists hitems ih hq
    obtain ⟨given, rfl, _⟩ := Component.keptItems_ok hlists
    obtain ⟨hsource, hhinted, hkeys⟩ := hq
    exact ⟨ih hsource, fun item hitem =>
      hhinted item (Component.mem_of_keptItems hlists hitems item hitem), hkeys⟩
  case table => exact fun _ _ _ => id
  case subquery => exact fun _ _ _ _ ih h => ⟨h.1, ih h.2⟩
  case join => exact fun _ _ _ _ _ _ _ ihl ihr h => ⟨ihl h.1, ihr h.2⟩

theorem outputItems_labels {items arranged : List Component}
    (h : outputs.mapM (fun (chain, name) => Component.outputItem items chain name) = .ok arranged) :
    (∀ item ∈ arranged, ∃ i n, item = .named i n) ∧
      arranged.filterMap label? = outputs.map (·.2) := by
  have hitems := forall₂_of_mapM h
  clear h
  induction hitems with
  | nil => simp
  | cons hitem _ ih =>
    obtain ⟨i, _, rfl⟩ := Component.outputItem_ok hitem
    refine ⟨List.forall_mem_cons.2 ⟨⟨_, _, rfl⟩, ih.1⟩, ?_⟩
    simp [label?, ih.2]

/-- In the forms of a statement, at every level, a sort key without a qualifier is the name of one output,
which has the key's chain. -/
theorem bindNames_sortsByOneOutput {forms : List Component}
    (h : (statement.toQuery schema next).1 = .ok (query, names))
    (hforms : query.projections query.provided names = .ok forms) (hform : form ∈ forms)
    (hbound : form.bindNames supply = (.ok c, supply')) (hnames : names.Nodup)
    (haliases : "" ∉ statement.aliases) (hhints : Unnumbered schema.hints) : c.KeysNameOutputs := by
  obtain ⟨scope, next', hresolve⟩ := gives_of_toQuery h
  have hquery := ((resolve_presentable schema).1 statement next query scope next' hresolve haliases).1
  obtain ⟨narrowed, hnarrowed, harranged⟩ := Component.projections_ok hforms
  obtain ⟨q, hq, harrange⟩ := harranged form hform
  have hq := narrow_presentable.1 _ _ _ hnarrowed q hq hquery
  rw [Component.arrange.eq_def] at harrange
  split at harrange
  · obtain ⟨items, hitems, harrange⟩ := ok_of_bind harrange
    cases harrange
    obtain ⟨hnamed, hlabels⟩ := outputItems_labels hitems
    refine Component.bindNames_keysNameOutputs hbound hhints hq.1 (.inl ⟨hnamed, ?_⟩) hq.2.2
    rwa [hlabels, List.map_snd_zip (Component.length_eq_of_projections hforms).ge]
  · cases harrange
  · cases harrange

end Forms

section Visits

/-- `SELECT page AS first, reader AS second FROM visits ORDER BY page` -/
def visitsByPage (first second : String) : Select Constant where
  distinct := false
  items := [.expr (.column ⟨none, "page"⟩) (some first), .expr (.column ⟨none, "reader"⟩) (some second)]
  sources := [.table "visits" none]
  filter := none
  groupBy := []
  having := none
  orderBy := [⟨.column ⟨none, "page"⟩, false⟩]

def visitsQuery (items : List Component) (asName : Option String) (key : Component) : Component :=
  .query (.select items) (.tableSource (.table visits) asName) .absent .absent .absent
    (.sortList [.sortItem key .asc]) false

def boundVisits (first second : String) : Component :=
  visitsQuery [.named (.boundColumn "T_visits_0" "page" page) first,
    .named (.boundColumn "T_visits_0" "reader" visitor) second] (some "T_visits_0")
    (.boundColumn "" first page)

theorem toQuery_visitsByPage (first second : String) :
    ((visitsByPage first second).toQuery visitTables 0).1 =
      .ok (visitsQuery [page, visitor] none page, [first, second]) := by
  have hpage : visitScope.lookup ⟨none, "page"⟩ = .ok page := by cbv
  have hvisitor : visitScope.lookup ⟨none, "reader"⟩ = .ok visitor := by cbv
  have hsource : visitScope.sourceOf ⟨none, "page"⟩ = "visits" ∧
      visitScope.sourceOf ⟨none, "reader"⟩ = "visits" := by cbv
  have hpage' : referencable page = .ok page := referencable_rooted (c := page) trivial
  have hout : outputChain page = .ok page ∧ outputChain visitor = .ok visitor := ⟨rfl, rfl⟩
  have hquery : queryOver (.tableSource (.table visits) none) visitScope (visitsByPage first second) =
      .ok (visitsQuery [page, visitor] none page,
        [⟨"visits", first, page⟩, ⟨"visits", second, visitor⟩]) := by
    simp [queryOver, visitsByPage, selectItemValue, Sql.Expr.value, reference, QuerySearch.outputs, outputSource,
      predicateOrAbsent, hout, hpage, hvisitor, hsource, hpage', sortDir, Bind.bind, Except.bind, pure,
      Except.pure, listOrAbsent, Component.sortListOf, Component.sortedByKey, visitsQuery,
      SelectItem.outputName]
  exact toQuery_of_gives gives_visits hquery

theorem visit_keys : page.fingerprint ≠ visitor.fingerprint := by
  simp only [page, visitor, visits, Component.fingerprint, Component.keys, Keys.same]
  decide +kernel

theorem projections_visitsQuery (first second : String) :
    (visitsQuery [page, visitor] none page).projections (visitsQuery [page, visitor] none page).provided
      [first, second] =
      .ok [visitsQuery [.named page first, .named visitor second] none page] := by
  have hprovided : (visitsQuery [page, visitor] none page).provided = [page, visitor] := rfl
  have hbind {α β : Type} (a : α) (f : α → Except ProjectionError β) :
      (Except.ok a >>= f) = f a := rfl
  have hkeys : page.requiredKeys = [page.fingerprint] ∧ page.providedKeys = [page.fingerprint] := by
    simp [page, Component.requiredKeys, Component.providedKeys]
  have hkeys' : visitor.requiredKeys = [visitor.fingerprint] ∧ visitor.providedKeys = [visitor.fingerprint] := by
    simp [visitor, Component.requiredKeys, Component.providedKeys]
  rw [hprovided]
  have harrange : Component.arrange [(page, first), (visitor, second)]
      (visitsQuery [page, visitor] none page) =
      .ok (visitsQuery [.named page first, .named visitor second] none page) := by
    simp [visitsQuery, Component.arrange, Component.outputItem, Component.leadingKey, hkeys, hkeys', visit_keys]
    rfl
  simp [hbind, visitsQuery, hkeys, hkeys', visit_keys, Component.projections, Component.narrowQuery,
    Component.narrowSource, Component.keptItems, Component.choices, Component.addChoice, Component.leadingKey,
    selections, Component.requiredKeys, Component.providedKeys]
  exact congrArg (fun r => (fun form => [form]) <$> r) harrange

theorem bindNames_visitsQuery (first second : String) :
    ((visitsQuery [.named page first, .named visitor second] none page).bindNames .empty).1 =
      .ok (boundVisits first second) := by
  have hne := visit_keys
  simp only [page, visitor, Component.fingerprint_column] at hne
  have hcolumns : visits.columns = [("page", .number), ("reader", .number)] := rfl
  simp [visitsQuery, boundVisits, Component.bindNames, Component.bindQuery, Component.bindSource,
    Component.bindItems, Component.bindItem, Component.bound, Component.boundKeys, Component.boundKeysAll,
    Component.locate, Component.tableEnvironment, Environment.places, Environment.bind, Environment.contains,
    Environment.empty, Component.sortListOf, Component.sortedByKey, page, visitor, Component.provided, hcolumns,
    hne, hne.symm]
  rfl

theorem keysNameOutputs_boundVisits (first second : String) : (boundVisits first second).KeysNameOutputs ↔
    Component.NamesOne [.named (.boundColumn "T_visits_0" "page" page) first,
      .named (.boundColumn "T_visits_0" "reader" visitor) second] first page := by
  simp [boundVisits, visitsQuery, KeysNameOutputs, Component.bareKeys]

theorem sortsByOneOutput_visitsByPage :
    ((visitsByPage "x" "y").toQuery visitTables 0).1 =
        .ok (visitsQuery [page, visitor] none page, ["x", "y"]) ∧
      (visitsQuery [page, visitor] none page).projections (visitsQuery [page, visitor] none page).provided
        ["x", "y"] = .ok [visitsQuery [.named page "x", .named visitor "y"] none page] ∧
      ((visitsQuery [.named page "x", .named visitor "y"] none page).bindNames .empty).1 =
        .ok (boundVisits "x" "y") ∧
      ["x", "y"].Nodup ∧ "" ∉ (visitsByPage "x" "y").aliases ∧ Unnumbered visitTables.hints ∧
      (boundVisits "x" "y").KeysNameOutputs := by
  have hnames : ["x", "y"].Nodup := by simp
  have haliases : "" ∉ (visitsByPage "x" "y").aliases := by
    simp [visitsByPage, Select.aliases, TableRef.aliasesEach, TableRef.aliases]
  have hhints : Unnumbered visitTables.hints := by
    have hlist : visitTables.hints = ["", "count", "sum", "avg", "max", "min", "bit_and", "bit_or",
        "dense_rank", "page", "reader"] := by cbv
    apply unnumbered_of_last
    rw [hlist]
    simp
  exact ⟨toQuery_visitsByPage _ _, projections_visitsQuery _ _, bindNames_visitsQuery _ _, hnames, haliases,
    hhints, bindNames_sortsByOneOutput (toQuery_visitsByPage _ _) (projections_visitsQuery _ _) (.head _)
      (Prod.ext (bindNames_visitsQuery _ _) rfl) hnames haliases hhints⟩

/-- Where both outputs have the same name, so does the key, which may mean either. -/
theorem not_keysNameOutputs_visitsByPage :
    ((visitsByPage "x" "x").toQuery visitTables 0).1 =
        .ok (visitsQuery [page, visitor] none page, ["x", "x"]) ∧
      (visitsQuery [page, visitor] none page).projections (visitsQuery [page, visitor] none page).provided
        ["x", "x"] = .ok [visitsQuery [.named page "x", .named visitor "x"] none page] ∧
      ((visitsQuery [.named page "x", .named visitor "x"] none page).bindNames .empty).1 =
        .ok (boundVisits "x" "x") ∧
      (boundVisits "x" "x").text =
        "SELECT \"T_visits_0\".\"page\" AS \"x\", " ++
        "\"T_visits_0\".\"reader\" AS \"x\" FROM \"visits\" AS \"T_visits_0\" ORDER BY \"x\" ASC" ∧
      ¬ (boundVisits "x" "x").KeysNameOutputs := by
  have htext : (boundVisits "x" "x").text =
      "SELECT \"T_visits_0\".\"page\" AS \"x\", " ++
        "\"T_visits_0\".\"reader\" AS \"x\" FROM \"visits\" AS \"T_visits_0\" ORDER BY \"x\" ASC" := by
    have hquoted : quoteName "visits" = "\"visits\"" ∧ quoteName "T_visits_0" = "\"T_visits_0\"" ∧
        quoteName "page" = "\"page\"" ∧ quoteName "reader" = "\"reader\"" ∧ quoteName "x" = "\"x\"" := by
      refine ⟨?_, ?_, ?_, ?_, ?_⟩ <;> cbv
    have hname : visits.name = "visits" := rfl
    have habsent : Component.absent.isAbsent = true := (Component.isAbsent_iff _).2 rfl
    have hkeys : (Component.sortList [.sortItem (.boundColumn "" "x" page) .asc]).isAbsent = false := by
      simp [← Bool.not_eq_true, Component.isAbsent_iff]
    simp [boundVisits, visitsQuery, Component.text, Component.texts, Component.clause, Component.withAlias,
      Component.qualified, Sql.commaSeparated, hquoted, habsent, hname, hkeys, SortDir.text]
  refine ⟨toQuery_visitsByPage _ _, projections_visitsQuery _ _, bindNames_visitsQuery _ _, htext, ?_⟩
  rw [keysNameOutputs_boundVisits]
  rintro ⟨item, hone, _⟩
  simp [label?] at hone

end Visits

end QuerySearch
