import QuerySearch.Proofs.Sql.Primaries

/-! Select items, sources, joins and the clauses of a statement. -/

namespace QuerySearch.Sql

open QuerySearch.Sql.Parser QuerySearch.Sql.Peg

variable {α β : Type} {whole : List Char} {n : Nat} {inside : Inside}

section Aliases

theorem quiet_alias {front : List Char} {ts : List Tree} {asName : Option String}
    (h : Maybe (fun _ ts x => AliasTrees ts x) front ts asName) : Quiet ts := by
  cases asName with
  | none =>
    obtain ⟨-, rfl⟩ := h
    exact .nil
  | some name => exact AliasTrees.quiet h

theorem loop_alias {front : List Char} {ts : List Tree} {asName : Option String}
    (h : Maybe (fun _ ts x => AliasTrees ts x) front ts asName)
    (loop : List Tree → Option String → Except ConvertError β)
    (hword : ∀ t rest a, loop (.node (.word .AS) t [] :: rest) a = loop rest a)
    (hname : ∀ t inner rest a, loop (.node .identifier t inner :: rest) a = do
      let name ← Convert.identifier (.node .identifier t inner)
      loop rest (some name)) : loop ts none = loop [] asName := by
  cases asName with
  | none =>
    obtain ⟨-, rfl⟩ := h
    rfl
  | some name =>
    cases h with
    | bare hnames =>
      rw [hname, hnames.identifier]
      rfl
    | word hnames =>
      rw [hword, hname, hnames.identifier]
      rfl

end Aliases

section Items

def SelectItem.valuation : SelectItem Literal → Except InvalidLiteral (SelectItem Constant)
  | .star => return .star
  | .expr e a => do return .expr (← e.valuation) a

theorem SelectItem.mapConstants_eq (is : List (SelectItem Literal)) :
    SelectItem.mapConstants Literal.value is = is.mapM SelectItem.valuation := by
  induction is with
  | nil => rfl
  | cons i is ih =>
    rw [List.mapM_cons, ← ih]
    cases i <;> simp [SelectItem.mapConstants, SelectItem.valuation]

def SelectItemTrees (inner : List Tree) (i : SelectItem Literal) : Prop :=
  ConvertsTo (Convert.item inner none none) i.valuation inner

theorem agrees_star : Agrees whole n false (.rule .star) (symbol "*") (Node .star fun inner _ => inner = []) :=
  Agrees.node ((agrees_text "*").imp fun _ _ _ h => h.2) rfl

theorem agrees_selectItem (h : inside.Agree whole n) :
    Agrees whole (n + 1) false (.rule .selectItem) (selectItem inside) (Node .selectItem SelectItemTrees) := by
  refine Agrees.node (.orElse ?_ ?_) rfl
  · refine agrees_star.map _ fun _ _ _ hstar => ?_
    obtain ⟨t, _, rfl, rfl⟩ := hstar
    rw [SelectItemTrees, Convert.item]
    exact .ok _ (Quiet.nil.node (by decide) t)
  · refine (agrees_expr h).seq fun _ _ e he => ?_
    obtain ⟨t, inner, rfl, he⟩ := he
    refine agrees_aliasName.map _ fun _ ts a ha => ?_
    have hend (e' : Expr Constant) : Convert.item ts (some e') none = .ok (.expr e' a) := by
      rw [loop_alias ha (fun ts a => Convert.item ts (some e') a) (fun t rest a => by rw [Convert.item])
        (fun t inner rest a => by rw [Convert.item]), Convert.item]
      rfl
    rw [SelectItemTrees, List.singleton_append, Convert.item, SelectItem.valuation]
    simp only [hend]
    exact (he.node t).bind fun e' => .ok _ (quiet_alias ha)

theorem convertsTo_items {ts : List Tree} {is : List (SelectItem Literal)}
    (h : Each (Node .selectItem SelectItemTrees []) ts is) :
    ConvertsTo (Convert.items ts) (SelectItem.mapConstants Literal.value is) ts := by
  rw [SelectItem.mapConstants_eq]
  refine convertsTo_mapM (by rw [Convert.items]; rfl) (fun us i hi => ?_) h
  obtain ⟨t, inner, rfl, hi⟩ := hi
  exact ⟨_, hi.node (by decide) t, fun rest => by rw [List.singleton_append, Convert.items]⟩

end Items

section Sources

abbrev TableRef.valuation (t : TableRef Literal) : Except InvalidLiteral (TableRef Constant) :=
  t.mapConstants Literal.value

theorem agrees_subquerySource (h : inside.Agree whole n) :
    Agrees whole (n + 1) false (.rule .subquerySource)
      (do
        let q ← parenthesized inside.select
        skip
        return TableRef.query q (← optional aliasName))
      (Node .subquerySource fun inner t => ConvertsTo (Convert.subquerySource inner none none) t.valuation inner) := by
  refine Agrees.node ?_ rfl
  refine (agrees_subquery h).seq fun _ _ q hq => ?_
  obtain ⟨t, inner, rfl, hq⟩ := hq
  refine agrees_aliasName.map _ fun _ ts a ha => ?_
  have hend (q' : Select Constant) : Convert.subquerySource ts (some q') none = .ok (.query q' a) := by
    rw [loop_alias ha (fun ts a => Convert.subquerySource ts (some q') a)
      (fun t rest a => by rw [Convert.subquerySource]) (fun t inner rest a => by rw [Convert.subquerySource]),
      Convert.subquerySource]
    rfl
  rw [List.singleton_append, Convert.subquerySource, TableRef.valuation, TableRef.mapConstants]
  simp only [hend]
  exact ((hq t).node (by decide) t).bind fun q' => .ok _ (quiet_alias ha)

theorem agrees_tableSource :
    Agrees whole n false (.rule .tableSource)
      (do
        let name ← identifier
        skip
        return TableRef.table name (← optional aliasName))
      (Node .tableSource fun inner t => ConvertsTo (Convert.tableSource inner) t.valuation inner) := by
  refine Agrees.node ?_ rfl
  refine agrees_identifier.seq fun _ _ name hname => ?_
  obtain ⟨t, inner, rfl, hname⟩ := hname
  refine agrees_aliasName.map _ fun _ ts a ha => ?_
  have hnames : Convert.names ts = .ok a.toList := by
    cases a with
    | none =>
      obtain ⟨-, rfl⟩ := ha
      rw [Convert.names]
      rfl
    | some a =>
      cases ha with
      | bare ha =>
        rw [Convert.names, ha.identifier, Convert.names]
        rfl
      | word ha =>
        rw [Convert.names, Convert.names, ha.identifier, Convert.names]
        rfl
  have hconvert : Convert.tableSource ([.node .identifier t inner] ++ ts) = .ok (.table name a) := by
    rw [Convert.tableSource, List.singleton_append, Convert.names, hname.identifier, hnames]
    cases a <;> rfl
  rw [hconvert]
  exact .ok _ ((hname.quiet.node (by decide) t).append (quiet_alias ha))

def TablePrimaryTrees (inner : List Tree) (t : TableRef Literal) : Prop :=
  ConvertsTo (Convert.tablePrimary inner) t.valuation inner

theorem agrees_tablePrimary (h : inside.Agree whole n) :
    Agrees whole (n + 1) false (.rule .tablePrimary) (tablePrimary inside)
      (Node .tablePrimary TablePrimaryTrees) := by
  refine Agrees.node (.choice ?subquery (.choice ?table (.choice_last ?nested))) rfl
  case subquery =>
    refine (agrees_subquerySource h).imp fun _ _ t ht => ?_
    obtain ⟨text, inner, rfl, ht⟩ := ht
    rw [TablePrimaryTrees, Convert.tablePrimary]
    exact ht.node (by decide) text
  case table =>
    refine agrees_tableSource.imp fun _ _ t ht => ?_
    obtain ⟨text, inner, rfl, ht⟩ := ht
    rw [TablePrimaryTrees, Convert.tablePrimary]
    exact ht.node (by decide) text
  case nested =>
    refine (agrees_parenthesized h.source).imp fun _ _ t ht => ?_
    obtain ⟨text, inner, rfl, ht⟩ := ht
    rw [TablePrimaryTrees, Convert.tablePrimary]
    exact ht.node (by decide) text

end Sources

section Joins

def WordedTrees (w : Word) (ts : List Tree) (e : Expr Literal) : Prop :=
  ∃ t t' inner, ts = [.node (.word w) t [], .node .expr t' inner] ∧ ExprTrees inner e

theorem agrees_worded (w : Word) (h : inside.Agree whole n) :
    Agrees whole (n + 1) false (.seq (.word w) (.rule .expr))
      (do
        keyword w.text
        skip
        expr inside)
      fun _ ts e => WordedTrees w ts e := by
  refine (agrees_word w).seq fun _ _ _ hw => ?_
  obtain ⟨t, rfl, -⟩ := hw
  refine (agrees_expr h).imp fun _ _ e he => ?_
  obtain ⟨t', inner, rfl, he⟩ := he
  exact ⟨t, t', inner, rfl, he⟩

def JoinTrees (inner : List Tree) (join : TableRef Literal → TableRef Literal) : Prop :=
  ∃ right kind on, join = (fun left => .join left right kind on) ∧
    ∀ left', ConvertsTo (Convert.joinPart inner left' .inner none none) (do
      let right' ← right.valuation
      let on' ← Expr.mapConstants? Literal.value on
      return .join left' right' kind on') inner

theorem agrees_joinKind : Agrees whole n false (.rule .joinKind) joinKind
    (Node .joinKind fun inner kind => Convert.joinKind inner = kind ∧ Quiet inner) := by
  have houter (w : Word) (kind : JoinKind)
      (hkind : ∀ t rest, Convert.joinKind (.node (.word w) t [] :: rest) = kind) :
      Agrees whole n false (.seq (.word w) (.opt (.word .OUTER)))
        (do
          keyword w.text
          skip
          let _ ← optional (keyword "outer")
          return kind)
        fun _ inner x => Convert.joinKind inner = x ∧ Quiet inner := by
    refine (agrees_word w).seq fun _ _ _ hw => ?_
    obtain ⟨t, rfl, -⟩ := hw
    refine (agrees_word .OUTER).optional.map _ fun _ ts x hx => ⟨hkind t ts, (Quiet.word w t).append ?_⟩
    cases x with
    | none =>
      obtain ⟨-, rfl⟩ := hx
      exact .nil
    | some =>
      obtain ⟨t', rfl, -⟩ := hx
      exact .word .OUTER t'
  refine Agrees.node (.choice ?_ (.choice (houter .LEFT .left fun _ _ => rfl)
    (.choice (houter .RIGHT .right fun _ _ => rfl) (.choice_last (houter .FULL .full fun _ _ => rfl))))) rfl
  refine (agrees_word .INNER).map _ fun _ _ _ hw => ?_
  obtain ⟨t, rfl, -⟩ := hw
  exact ⟨rfl, .word .INNER t⟩

theorem convertsTo_on {front : List Char} {ts : List Tree} {on : Option (Expr Literal)}
    (h : Maybe (fun _ ts e => WordedTrees .ON ts e) front ts on) (left right : TableRef Constant)
    (kind : JoinKind) :
    ConvertsTo (Convert.joinPart ts left kind (some right) none) (do
      let on ← Expr.mapConstants? Literal.value on
      return .join left right kind on) ts := by
  cases on with
  | none =>
    obtain ⟨-, rfl⟩ := h
    rw [Convert.joinPart]
    exact .ok _ .nil
  | some e =>
    obtain ⟨t, t', inner, rfl, he⟩ := h
    have hvalue : (do
        let on ← Expr.mapConstants? Literal.value (some e)
        return TableRef.join left right kind on) = do
          return .join left right kind (some (← e.valuation)) := by
      simp [Expr.mapConstants?]
    rw [hvalue, Convert.joinPart, Convert.joinPart]
    simp only [Convert.joinPart]
    exact ((he.node t').map fun e => TableRef.join left right kind (some e)).quiet (.word .ON t)

theorem agrees_joinPart (h : inside.Agree whole n) :
    Agrees whole (n + 1) false (.rule .joinPart) (joinPart inside) (Node .joinPart JoinTrees) := by
  refine Agrees.node ?_ rfl
  refine agrees_joinKind.optional.seq fun _ ts kind hkind => ?_
  refine (agrees_word .JOIN).seq fun _ _ _ hjoin => ?_
  obtain ⟨t, rfl, -⟩ := hjoin
  refine (agrees_tablePrimary h).seq fun _ _ right hright => ?_
  obtain ⟨t', inner, rfl, hright⟩ := hright
  refine (agrees_worded .ON h).optional.map _ fun _ ts' on hon => ?_
  refine ⟨right, kind.getD .inner, on, rfl, fun left' => ?_⟩
  obtain ⟨hquiet, hstep⟩ : Quiet ts ∧ ∀ rest, Convert.joinPart (ts ++ rest) left' .inner none none =
      Convert.joinPart rest left' (kind.getD .inner) none none := by
    cases kind with
    | none =>
      obtain ⟨-, rfl⟩ := hkind
      exact ⟨.nil, fun _ => rfl⟩
    | some kind =>
      obtain ⟨t, us, rfl, rfl, hquiet⟩ := hkind
      exact ⟨hquiet.node (by decide) t, fun rest => by rw [List.singleton_append, Convert.joinPart]; rfl⟩
  rw [hstep, List.singleton_append, List.singleton_append, Convert.joinPart, Convert.joinPart]
  refine ConvertsTo.quiet (ConvertsTo.quiet ?_ (.word .JOIN t)) hquiet
  exact (hright.node (by decide) t').bind fun right' => convertsTo_on hon left' right' _

theorem convertsTo_joins {us : List Tree} {joins : List (TableRef Literal → TableRef Literal)}
    (h : Each (Node .joinPart JoinTrees []) us joins) {left : TableRef Literal}
    {c : Except ConvertError (TableRef Constant)} {ts : List Tree} (hleft : ConvertsTo c left.valuation ts) :
    ConvertsTo (do let t ← c; Convert.fromItem us (some t))
      (joins.foldl (fun left join => join left) left).valuation (ts ++ us) := by
  induction h generalizing left c ts with
  | nil =>
    rw [List.append_nil]
    simpa [Convert.fromItem] using hleft
  | cons hjoin _ ih =>
    obtain ⟨t, inner, rfl, right, kind, on, rfl, hjoin⟩ := hjoin
    have hnext : ConvertsTo (do let t ← c; Convert.joinPart inner t .inner none none)
        (TableRef.join left right kind on).valuation (ts ++ [.node .joinPart t inner]) := by
      rw [TableRef.valuation, TableRef.mapConstants]
      exact hleft.bind fun left' => (hjoin left').node (by decide) t
    have hall := ih hnext
    rw [List.append_assoc] at hall
    simpa [Convert.fromItem] using hall

theorem agrees_tableRef (h : inside.Agree whole n) :
    Agrees whole (n + 1) false (.rule .fromItem) (tableRef inside) (Node .fromItem SourceTrees) := by
  refine Agrees.node ?_ rfl
  refine (agrees_tablePrimary h).seq fun _ _ first hfirst => ?_
  obtain ⟨t, inner, rfl, hfirst⟩ := hfirst
  have hc : Consumes (.rule .joinPart) := .rule (.seq_right (.seq_left (consumes_word .JOIN)))
  refine ((agrees_joinPart h).spaced hc).map _ fun _ ts joins hjoins => ?_
  rw [SourceTrees, List.singleton_append, Convert.fromItem]
  exact convertsTo_joins hjoins (hfirst.node (by decide) t)

theorem TableRef.mapConstantsList_eq (ts : List (TableRef Literal)) :
    TableRef.mapConstantsList Literal.value ts = ts.mapM TableRef.valuation := by
  induction ts with
  | nil => rfl
  | cons t ts ih => rw [TableRef.mapConstantsList, List.mapM_cons, ih]

theorem convertsTo_sources {ts : List Tree} {fs : List (TableRef Literal)}
    (h : Each (Node .fromItem SourceTrees []) ts fs) :
    ConvertsTo (Convert.sources ts) (TableRef.mapConstantsList Literal.value fs) ts := by
  rw [TableRef.mapConstantsList_eq]
  refine convertsTo_mapM (by rw [Convert.sources]; rfl) (fun us f hf => ?_) h
  obtain ⟨t, inner, rfl, hf⟩ := hf
  exact ⟨_, hf.node (by decide) t, fun rest => by rw [List.singleton_append, Convert.sources]⟩

end Joins

section Statements

theorem WordedTrees.gives {w : Word} {inner : List Tree} {e : Expr Literal} (h : WordedTrees w inner e)
    (t : List Char) : ConvertsTo (Convert.clauseExpr inner t) e.valuation inner := by
  obtain ⟨t', t'', us, rfl, he⟩ := h
  rw [Convert.clauseExpr, Convert.clauseExpr]
  · exact (he.node t'').quiet (.word w t')
  · intro _ _ heq
    cases heq

theorem WordedTrees.convertsTo_some {w : Word} {inner : List Tree} {e : Expr Literal} (h : WordedTrees w inner e)
    (t : List Char) : ConvertsTo (do return some (← Convert.clauseExpr inner t))
      (Expr.mapConstants? Literal.value (some e)) inner := by
  rw [Expr.mapConstants?]
  exact (h.gives t).map some

def FromTrees (inner : List Tree) (fs : List (TableRef Literal)) : Prop :=
  ∃ t us, inner = .node (.word .FROM) t [] :: us ∧ Each (Node .fromItem SourceTrees []) us fs

theorem FromTrees.gives {inner : List Tree} {fs : List (TableRef Literal)} (h : FromTrees inner fs) :
    ConvertsTo (Convert.sources inner) (TableRef.mapConstantsList Literal.value fs) inner := by
  obtain ⟨t, us, rfl, hfs⟩ := h
  rw [Convert.sources]
  · exact (convertsTo_sources hfs).quiet (.word .FROM t)
  · intro _ _ heq
    cases heq

theorem agrees_fromClause (h : inside.Agree whole n) :
    Agrees whole (n + 1) false (.rule .fromClause)
      (do
        keyword "from"
        skip
        Parser.commaSeparated (tableRef inside))
      (Node .fromClause FromTrees) := by
  refine Agrees.node ?_ rfl
  refine (agrees_word .FROM).seq fun _ _ _ hw => ?_
  obtain ⟨t, rfl, -⟩ := hw
  exact (agrees_tableRef h).commaSeparated.imp fun _ us _ hfs => ⟨t, us, rfl, hfs⟩

theorem agrees_select (h : inside.Agree whole n) :
    Agrees whole (n + 1) false (.rule .selectBody) (select inside) (Node .selectBody BodyTrees) := by
  refine Agrees.node ?_ rfl
  refine (agrees_word .SELECT).seq fun _ _ _ hselect => ?_
  obtain ⟨t, rfl, -⟩ := hselect
  refine (agrees_word .DISTINCT).reads.seq fun _ ts₀ distinct hdistinct => ?_
  refine ((agrees_selectItem h).commaSeparated.node rfl).seq fun _ _ items hitems => ?_
  obtain ⟨t', inner, rfl, hitems⟩ := hitems
  refine (agrees_fromClause h).optional.seq fun _ ts₁ sources hsources => ?_
  refine ((agrees_worded .WHERE h).node rfl).optional.seq fun _ ts₂ filter hfilter => ?_
  refine ((agrees_clauseBy .GROUP (agrees_expr h).commaSeparated).node rfl).optional.seq
    fun _ ts₃ groupBy hgroupBy => ?_
  refine ((agrees_worded .HAVING h).node rfl).optional.seq fun _ ts₄ having hhaving => ?_
  refine ((agrees_clauseBy .ORDER (agrees_sortKey (agrees_expr h)).commaSeparated).node rfl).optional.map _
    fun _ ts₅ orderBy horderBy => ?_
  obtain ⟨hquiet, hstep⟩ : Quiet ts₀ ∧ ∀ rest, Convert.body (ts₀ ++ rest) Convert.emptySelect =
      Convert.body rest ⟨distinct, [], [], none, [], none, []⟩ := by
    cases distinct with
    | false =>
      obtain ⟨-, rfl⟩ := hdistinct
      exact ⟨.nil, fun _ => rfl⟩
    | true =>
      obtain ⟨_, t, rfl, -⟩ := hdistinct
      exact ⟨.word .DISTINCT t, fun rest => by rw [List.singleton_append, Convert.body]; rfl⟩
  have hitems : Passes Convert.body ⟨distinct, [], [], none, [], none, []⟩
      (SelectItem.mapConstants Literal.value items) (fun is => ⟨distinct, is, [], none, [], none, []⟩)
      [.node .selectItems t' inner] :=
    .node (convertsTo_items hitems) (by decide) fun rest => by rw [Convert.body]; rfl
  have hsources (is) : Passes Convert.body ⟨distinct, is, [], none, [], none, []⟩
      (TableRef.mapConstantsList Literal.value (sources.getD []))
      (fun fs => ⟨distinct, is, fs, none, [], none, []⟩) ts₁ :=
    .maybe (fun x => TableRef.mapConstantsList Literal.value (x.getD [])) (fun _ => Convert.sources) hsources
      (by decide) (fun _ _ _ h => h.gives) (fun t inner rest => by rw [Convert.body]; rfl) rfl rfl
  have hfilter (is fs) : Passes Convert.body ⟨distinct, is, fs, none, [], none, []⟩
      (Expr.mapConstants? Literal.value filter) (fun e => ⟨distinct, is, fs, e, [], none, []⟩) ts₂ :=
    .maybe (Expr.mapConstants? Literal.value) (fun t inner => do return some (← Convert.clauseExpr inner t))
      hfilter (by decide) (fun t _ _ h => h.convertsTo_some t)
      (fun t inner rest => by rw [Convert.body]; simp) rfl rfl
  have hgroupBy (is fs e) : Passes Convert.body ⟨distinct, is, fs, e, [], none, []⟩
      (Expr.mapConstantsList Literal.value (groupBy.getD []))
      (fun es => ⟨distinct, is, fs, e, es, none, []⟩) ts₃ :=
    .maybe (fun x => Expr.mapConstantsList Literal.value (x.getD [])) (fun _ => Convert.exprs) hgroupBy
      (by decide) (fun _ _ _ h => h.convertsTo_exprs) (fun t inner rest => by rw [Convert.body]; rfl) rfl rfl
  have hhaving (is fs e es) : Passes Convert.body ⟨distinct, is, fs, e, es, none, []⟩
      (Expr.mapConstants? Literal.value having) (fun e' => ⟨distinct, is, fs, e, es, e', []⟩) ts₄ :=
    .maybe (Expr.mapConstants? Literal.value) (fun t inner => do return some (← Convert.clauseExpr inner t))
      hhaving (by decide) (fun t _ _ h => h.convertsTo_some t)
      (fun t inner rest => by rw [Convert.body]; simp) rfl rfl
  have horderBy (is fs e es e') : Passes Convert.body ⟨distinct, is, fs, e, es, e', []⟩
      (SortKey.mapConstants Literal.value (orderBy.getD []))
      (fun ks => ⟨distinct, is, fs, e, es, e', ks⟩) ts₅ :=
    .maybe (fun x => SortKey.mapConstants Literal.value (x.getD [])) (fun _ => Convert.sortKeys) horderBy
      (by decide) (fun _ _ _ h => h.convertsTo_sortKeys) (fun t inner rest => by rw [Convert.body]) rfl rfl
  rw [BodyTrees, List.singleton_append, Convert.body, hstep, Select.mapConstants]
  refine ConvertsTo.quiet (ConvertsTo.quiet ?_ hquiet) (.word .SELECT t)
  exact hitems.andThen fun is => (hsources is).andThen fun fs => (hfilter is fs).andThen fun e =>
    (hgroupBy is fs e).andThen fun es => (hhaving is fs e es).andThen fun e' =>
      (horderBy is fs e es e').last fun ks => by rw [Convert.body]; rfl

end Statements

end QuerySearch.Sql
