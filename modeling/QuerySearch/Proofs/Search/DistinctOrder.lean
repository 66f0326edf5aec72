import QuerySearch.Proofs.Binding.DistinctOrder
import QuerySearch.Proofs.Resolve.Throughout
import QuerySearch.Proofs.Search.Passes
import QuerySearch.Proofs.Search.Targets

/-! DISTINCT queries in a search sort by what they put out.  In a candidate this holds at every nested
level, and at the outermost one if what it sorts by is asked for. -/

namespace QuerySearch

open Component (Throughout Regular Ordered SortsOutputs)

namespace Component

section Parts

variable {c : Component}

theorem regular_leaf (h : c.children = []) : c.Regular := by
  cases c with
  | aggChain | aggregation | aggWindow | funcWindow | sortItem | query => cases h
  | sortList items =>
    obtain rfl : items = [] := h
    exact fun c hc => nomatch hc
  | _ => trivial

theorem length_providedKeys (c : Component) : c.providedKeys.length = c.provided.length := by
  rw [providedKeys_eq, List.length_map]

theorem providedKeys_aggregation_le (func : AggFunc) (arg : Component) (isDistinct : Bool) :
    (aggregation func arg isDistinct).providedKeys.length ≤ 1 := by
  rw [length_providedKeys, provided, List.length_map]
  exact List.length_take_le 1 _

theorem Regular.providedKeys_le (h : c.Regular) (hkind : Category.selectItem.admits c.kind = true) :
    c.providedKeys.length ≤ 1 := by
  rw [kind, fingerprint_eq] at hkind
  cases c with
  | column | aggChain | windowChain | int | float | str | absent => simp [providedKeys]
  | aggregation => exact providedKeys_aggregation_le _ _ _
  | aggWindow | funcWindow =>
    rw [providedKeys]
    exact h
  | _ => cases hkind

theorem carriedUp_regular : CarriedUp Regular (fun _ => True) (fun _ => True) fun _ => True := by
  have hcarried : Carried Regular := {
    leaf := regular_leaf
    rank := trivial
    aggregate := @fun func arg isDistinct d h hd _ => by
      have hkind : arg.kind.isReferencable = true := h.here
      rw [provided_of_referencable hkind, List.mem_singleton] at hd
      exact hd ▸ hkind
    aggregation := fun hkind _ => hkind
    aggWindow := providedKeys_aggregation_le _ _ _
    funcWindow := by simp [Regular, providedKeys]
    partitionList := fun _ => trivial
    groupList := fun _ => trivial
    sortItem := id
    sortList := id
    select := trivial }
  exact {
    hcarried with
    rows := fun _ hscope _ h => ⟨predicate_throughout hcarried trivial trivial hscope h, trivial⟩
    groups := fun _ hscope _ h => predicate_throughout hcarried trivial trivial hscope h
    absent := trivial
    tableSource := trivial
    querySource := trivial
    join := fun _ => trivial
    query := fun hone _ item hitem => Nat.le_of_eq ((length_providedKeys item).trans (hone item hitem)) }

theorem inherited_ordered : Inherited (Throughout Ordered) := by
  refine inherited_throughout (fun c hc => ?_) (fun c hc => ?_) fun _ _ _ hc => ⟨hc.regular, trivial⟩
  · have hplain := (not_isRelation_of_isWord hc).2
    exact ⟨regular_leaf hc.children_eq, sortsBy_of_not_isRelation hplain⟩
  · cases c with
    | aggregation => exact ⟨hc.regular, trivial⟩
    | comparison | connection => exact ⟨trivial, trivial⟩
    | _ => exact hc

end Parts

end Component

section Additions

variable {w : Workshop} {b : Bank} {c d : Component}

theorem Built.regular (horderly : w.bank.Orderly) (hbank : ∀ d ∈ w.bank.toList, d.Regular) (h : Built w c) :
    c.Regular := by
  have hkind {kind : Kind} {rs : List Requirement} {d : Component} (hd : w.Fits (.only kind) rs d) :
      d.ctorIdx = kind.rank := by
    have hsame : (kind == d.kind) = true := hd.admits horderly
    exact (Component.kind_eq_iff d kind).1 (beq_iff_eq.1 hsame).symm
  cases h with
  | aggChain harg | aggregation harg => exact harg.admits horderly
  | sortItem hchain => exact hchain.admits horderly
  | sortList hitems =>
    intro d hd
    have hfits := hitems d (Component.mem_sortedByKey.1 hd)
    have hidx := hkind hfits
    cases d with
    | sortItem chain dir => exact ⟨chain, dir, rfl, hbank _ hfits.mem⟩
    | _ => cases hidx
  | @aggWindow call _ _ hcall =>
    have hidx := hkind hcall
    cases call with
    | aggregation => exact Component.providedKeys_aggregation_le _ _ _
    | _ => cases hidx
  | @funcWindow call _ _ hcall =>
    have hidx := hkind hcall
    cases call with
    | windowClause => simp [Regular, Component.providedKeys]
    | _ => cases hidx
  | query _ _ _ _ _ hitems =>
    intro item hitem
    have hfits := hitems item hitem
    exact (hbank item hfits.mem).providedKeys_le (hfits.admits horderly)
  | _ => trivial

theorem Built.sortsOutputs (hbank : ∀ d ∈ w.bank.toList, d.Regular) (h : Built w c) : c.SortsOutputs := by
  cases h with
  | query _ _ _ _ _ _ _ horder =>
    intro _ item hitem
    obtain ⟨k, hk, hsorts⟩ := (hbank _ horder.mem).sortsByOne hitem
    rw [hsorts, Component.providedKeys]
    exact horder.suppliedBy (.head _) k hk
  | _ => trivial

theorem Built.ordered (horderly : w.bank.Orderly) (hbank : ∀ d ∈ w.bank.toList, Throughout Ordered d)
    (h : Built w c) : Throughout Ordered c := by
  have hregular : ∀ d ∈ w.bank.toList, d.Regular := fun d hd => (hbank d hd).here.regular
  refine .intro ⟨h.regular horderly hregular, h.sortsOutputs hregular⟩ fun d hd => ?_
  obtain hd | ⟨items, rfl, hitems⟩ := h.mem_of_child hd
  · exact hbank d hd
  · exact .intro ⟨trivial, trivial⟩ fun e he => hbank e (hitems e he)

theorem Drawn.ordered (hbank : ∀ d ∈ b.toList, Throughout Ordered d) (h : Drawn b c) :
    Throughout Ordered c := by
  induction h with
  | child hd hc => exact (hbank _ hd).child hc
  | column => exact Component.throughout_leaf ⟨trivial, trivial⟩ rfl
  | @aggChain func given arg _ _ hkind ihgiven iharg =>
    have hgiven : given.kind.isReferencable = true := ihgiven.here.regular
    have harg : arg.kind.isReferencable = true := hkind ▸ hgiven
    exact .intro ⟨harg, trivial⟩ (by simpa [Component.children] using iharg)
  | arg _ ih => exact ih.child (.head _)

theorem Proposed.ordered (hbank : ∀ d ∈ b.toList, Throughout Ordered d) (h : Proposed b c) :
    Throughout Ordered c := by
  cases h with
  | groupList hitems | partitionList hitems =>
    exact Component.throughout_sorted ⟨trivial, trivial⟩ rfl fun d hd => (hitems d hd).ordered hbank
  | @sortList chain hchain hkind =>
    have hitem : Throughout Ordered (.sortItem chain .asc) :=
      .intro ⟨hkind, trivial⟩ (by simpa [Component.children] using hchain.ordered hbank)
    refine Component.throughout_sorted ⟨fun d hd => ?_, trivial⟩ rfl (by simpa using hitem)
    exact ⟨chain, .asc, List.mem_singleton.1 (Component.mem_sortedByKey.1 hd), hkind⟩

end Additions

namespace Search

variable {query c : Component} {names : List String} {config : SearchConfig} {s : Search}

theorem start_ordered (hquery : Throughout Ordered query)
    (h : c ∈ (start query names config).bank.toList) : Throughout Ordered c :=
  forall_mem_start (Component.inherited_ordered.reach query hquery false)
    (fun _ _ _ => Component.throughout_leaf ⟨trivial, trivial⟩ rfl) (fun _ => Component.inherited_ordered.word)
    (Component.throughout_leaf ⟨trivial, trivial⟩ rfl) c h

theorem Reaches.ordered (h : (start query names config).Reaches s) (hquery : Throughout Ordered query) :
    ∀ c ∈ s.bank.toList, Throughout Ordered c :=
  h.bank_forall (fun _ hc => start_ordered hquery hc) (fun _ _ hbank _ hc => hc.ordered hbank)
    fun _ hu hbank _ hc => hc.ordered (hu.orderly orderly_start) hbank

end Search

namespace Component

section Outputs

variable {item form : Component} {items chains : List Component} {output : Component × String}
  {outputs : List (Component × String)} {names : List String}

theorem PutsOut.providedKeys (h : PutsOut item output) (hone : item.providedKeys.length ≤ 1) :
    item.providedKeys = [output.1.fingerprint] := by
  obtain ⟨inner, rfl, hkey⟩ := h
  rw [Component.providedKeys] at hone ⊢
  exact (leadingKey_eq_some hone).1 hkey

theorem flatMap_providedKeys_putsOut (h : List.Forall₂ PutsOut items outputs)
    (hone : ∀ item ∈ items, item.providedKeys.length ≤ 1) :
    items.flatMap Component.providedKeys = (outputs.map (·.1)).map fingerprint := by
  induction h with
  | nil => rfl
  | cons hitem _ ih =>
    obtain ⟨hhere, hrest⟩ := List.forall_mem_cons.1 hone
    rw [List.flatMap_cons, hitem.providedKeys hhere, ih hrest]
    rfl

theorem Presents.providedKeys (h : form.Presents chains names) (hone : form.Regular) :
    form.providedKeys = chains.map fingerprint := by
  cases form with
  | query sel =>
    cases sel with
    | select items =>
      obtain ⟨_, hlength, hitems⟩ := h
      rw [Component.providedKeys, providedKeys_select, flatMap_providedKeys_putsOut hitems hone,
        List.map_fst_zip (Nat.le_of_eq hlength)]
    | _ => exact h.elim
  | _ => exact h.elim

end Outputs

end Component

namespace Candidates

section Runs

variable {schema : Schema} {statement : Sql.Select Sql.Constant} {config : SearchConfig} {query : Component}
  {names : List String}

/-- If all levels of a statement that are DISTINCT sort by their outputs, then so it is with every query
whose forms are candidates, and at all levels inside of these.  At the outermost level of a candidate it
is so if the query sorts by nothing but what is asked for, and not otherwise. -/
theorem asks_sortsOutputs {s : Candidates} {c : Candidate}
    (h : (statement.toQuery schema 0).1 = .ok (query, names)) (hquery : Throughout SortsOutputs query)
    (hs : (ofStatement schema statement config).ask.2.Asks s) (hc : s.ask.1 = .item (.ok c)) :
    ∃ target ∈ (Search.start query names config).targets, ∃ q form bound : Component,
      Throughout SortsOutputs q ∧ (∃ forms, q.projections target names = .ok forms ∧ form ∈ forms) ∧
      (form.bindNames .empty).1 = .ok bound ∧ c.text = bound.text ∧
      (∀ d ∈ bound.children, Throughout SortsOutputs d) ∧
      (bound.SortsOutputs ↔ q.SortsBy (target.map Component.fingerprint)) := by
  have hregular := toQuery_throughout Component.carriedUp_regular h
    fun _ _ => ⟨fun _ _ => trivial, fun _ _ => trivial⟩
  have hordered : Throughout Ordered query :=
    (hregular.and hquery).mono fun _ ⟨hregular, hsorts⟩ => ⟨hregular, hsorts⟩
  obtain ⟨t, q, ht, hq, htext⟩ := hs.yields h hc
  have hbank := ht.ordered hordered
  have hq : Throughout Ordered q :=
    hq.elim (hbank q) fun hq => (Search.discoveries_built hq).ordered (ht.orderly Search.orderly_start) hbank
  rw [ht.render_eq] at htext
  obtain ⟨target, htarget, forms, form, bound, hforms, hform, hbound, htext⟩ := Search.mem_render.1 htext
  obtain ⟨hinside, hone, hform_sorts⟩ := Component.projections_ordered hforms hq form hform
  obtain ⟨hinside, hprovided, hbound_sorts⟩ := Component.bindNames_ordered hbound hinside
  have hkeys := (Component.projections_presents hforms form hform).providedKeys hone
  refine ⟨target, htarget, q, form, bound, hq.mono fun _ => Ordered.sorts, ⟨forms, hforms, hform⟩, hbound,
    htext.symm, hinside, ?_⟩
  rw [SortsOutputs, hbound_sorts, hform_sorts, hprovided, hkeys]

end Runs

section Loans

open Sql (Constant)

def loans : Table := ⟨"loans", [("isbn", .number)], 0⟩

def books : Table := ⟨"books", [("isbn", .number)], 1⟩

def loanTables : Schema := .ofDefs [⟨"loans", [⟨"isbn", "int"⟩]⟩, ⟨"books", [⟨"isbn", "int"⟩]⟩]

def loanIsbn : Component := .column loans "isbn" .number

def bookIsbn : Component := .column books "isbn" .number

/-- `SELECT DISTINCT loans.isbn AS x, books.isbn AS y FROM loans JOIN books ON loans.isbn = books.isbn
ORDER BY books.isbn` -/
def loanedBooks : Sql.Select Constant where
  distinct := true
  items :=
    [.expr (.column ⟨some "loans", "isbn"⟩) (some "x"), .expr (.column ⟨some "books", "isbn"⟩) (some "y")]
  sources := [.join (.table "loans" none) (.table "books" none) .inner
    (some (.compare (.column ⟨some "loans", "isbn"⟩) .eq (.column ⟨some "books", "isbn"⟩)))]
  filter := none
  groupBy := []
  having := none
  orderBy := [⟨.column ⟨some "books", "isbn"⟩, false⟩]

def loanScope : Scope := [⟨"loans", "isbn", loanIsbn⟩, ⟨"books", "isbn", bookIsbn⟩]

def loanSource (loan book : Option String) (l r : Component) : Component :=
  .join (.tableSource (.table loans) loan) (.tableSource (.table books) book) .inner (.comparison l .eq r)

def sortedLoans (items : List Component) (source key : Component) : Component :=
  .query (.select items) source .absent .absent .absent (.sortList [.sortItem key .asc]) true

def loanQuery : Component :=
  sortedLoans [loanIsbn, bookIsbn] (loanSource none none loanIsbn bookIsbn) bookIsbn

def loanForm : Component :=
  sortedLoans [.named loanIsbn "x", .named loanIsbn "y"] (loanSource none none loanIsbn bookIsbn) bookIsbn

def boundLoan : Component := .boundColumn "T_loans_0" "isbn" loanIsbn

def boundBook : Component := .boundColumn "T_books_0" "isbn" bookIsbn

def loanBound : Component :=
  sortedLoans [.named boundLoan "x", .named boundLoan "y"]
    (loanSource (some "T_loans_0") (some "T_books_0") boundLoan boundBook) boundBook

theorem sortListOf_singleton (c : Component) : Component.sortListOf [c] = .sortList [c] := by
  simp [Component.sortListOf, Component.sortedByKey]

theorem toQuery_loanedBooks : (loanedBooks.toQuery loanTables 0).1 = .ok (loanQuery, ["x", "y"]) := by
  have hsource : Gives (Sql.TableRef.resolveOnly loanTables loanedBooks.sources) 0
      (loanSource none none loanIsbn bookIsbn, loanScope) 2 := by cbv
  have hloan : loanScope.lookup ⟨some "loans", "isbn"⟩ = .ok loanIsbn := by cbv
  have hbook : loanScope.lookup ⟨some "books", "isbn"⟩ = .ok bookIsbn := by cbv
  have houtputs : outputs loanScope loanedBooks.items [loanIsbn, bookIsbn] =
      .ok [⟨"loans", "x", loanIsbn⟩, ⟨"books", "y", bookIsbn⟩] := by rfl
  have hitems : loanedBooks.items.mapM (selectItemValue loanScope) = .ok [loanIsbn, bookIsbn] := by
    simp [loanedBooks, selectItemValue, Sql.Expr.value, hloan, hbook, bind, Except.bind, pure, Except.pure]
  have hkey : reference loanScope loanedBooks.items [loanIsbn, bookIsbn] (.column ⟨some "books", "isbn"⟩) =
      .ok bookIsbn := by
    rw [reference, hbook]
    exact referencable_rooted (c := bookIsbn) trivial
  have hquery : queryOver (loanSource none none loanIsbn bookIsbn) loanScope loanedBooks =
      .ok (loanQuery, [⟨"loans", "x", loanIsbn⟩, ⟨"books", "y", bookIsbn⟩]) := by
    have hsorted : listOrAbsent Component.sortListOf [.sortItem bookIsbn .asc] =
        .sortList [.sortItem bookIsbn .asc] := sortListOf_singleton _
    have hkeys : (loanedBooks.orderBy.mapM fun k => do
        return Component.sortItem (← reference loanScope loanedBooks.items [loanIsbn, bookIsbn] k.expr)
          (sortDir k.descending)) = Except.ok [.sortItem bookIsbn .asc] := by
      simp [loanedBooks, bind, Except.bind, pure, Except.pure] at hkey ⊢
      rw [hkey]
      rfl
    rw [queryOver, hitems]
    simp only [bind, Except.bind, pure, Except.pure] at hkeys ⊢
    rw [hkeys]
    simp only [houtputs, hsorted]
    rfl
  exact toQuery_of_gives hsource hquery

theorem isbn_ne : Fingerprint.ofColumn loans "isbn" ≠ Fingerprint.ofColumn books "isbn" := by decide +kernel

theorem projections_loanQuery : loanQuery.projections [loanIsbn, loanIsbn] ["x", "y"] = .ok [loanForm] := by
  have hkeys : loanIsbn.providedKeys = [loanIsbn.fingerprint] ∧
      bookIsbn.providedKeys = [bookIsbn.fingerprint] := by
    simp [loanIsbn, bookIsbn, Component.providedKeys]
  have hne : loanIsbn.fingerprint ≠ bookIsbn.fingerprint := by
    simpa [loanIsbn, bookIsbn] using isbn_ne
  have hbind {α β : Type} (a : α) (f : α → Except ProjectionError β) : (Except.ok a >>= f) = f a := rfl
  have harrange : Component.arrange [(loanIsbn, "x"), (loanIsbn, "y")] loanQuery = .ok loanForm := by
    simp [loanQuery, sortedLoans, Component.arrange, Component.outputItem, Component.leadingKey, hkeys]
    rfl
  have hself : bookIsbn.keys.self = bookIsbn.fingerprint := rfl
  simp [hbind, hkeys, hself, hne, hne.symm, loanQuery, sortedLoans, loanSource, Component.projections,
    Component.narrowQuery, Component.narrowSource, Component.keptItems, Component.choices,
    Component.addChoice, Component.leadingKey, selections, Component.providedKeys, Component.requiredKeys]
  exact congrArg (fun r => (fun form => [form]) <$> r) harrange

def loanEnvironment : Environment :=
  ⟨[(loanIsbn.fingerprint, ⟨"T_loans_0", "isbn"⟩), (bookIsbn.fingerprint, ⟨"T_books_0", "isbn"⟩)]⟩

def loanOutputs : Environment := ⟨[(loanIsbn.fingerprint, ⟨"", "x"⟩)]⟩

theorem bindSource_loans : Gives (loanSource none none loanIsbn bookIsbn).bindSource .empty
      (loanSource (some "T_loans_0") (some "T_books_0") boundLoan boundBook, loanEnvironment)
      ((NameSupply.empty.use "T_loans").use "T_books") ∧
    loanIsbn.bound [loanEnvironment] = .ok boundLoan ∧ bookIsbn.bound [loanEnvironment] = .ok boundBook := by
  have hne : loanIsbn.fingerprint ≠ bookIsbn.fingerprint := by
    simpa [loanIsbn, bookIsbn] using isbn_ne
  exact Component.gives_joined_pair ⟨"T_loans_0", "isbn"⟩ ⟨"T_books_0", "isbn"⟩ rfl hne (fun _ => rfl) (fun _ => rfl)
    rfl rfl

theorem bindNames_loanForm : (loanForm.bindNames .empty).1 = .ok loanBound := by
  obtain ⟨hsource, hloan, hbook⟩ := bindSource_loans
  have hfirst : Component.withOutput .empty (.named loanIsbn "x") "x" = loanOutputs := rfl
  have hsecond : Component.withOutput loanOutputs (.named loanIsbn "y") "y" = loanOutputs := by
    have hcontains : loanOutputs.contains loanIsbn = true := by simp [loanOutputs, Environment.contains]
    exact if_pos hcontains
  have hitems : Gives (Component.bindItems loanEnvironment .empty [.named loanIsbn "x", .named loanIsbn "y"])
      ((NameSupply.empty.use "T_loans").use "T_books")
      ([.named boundLoan "x", .named boundLoan "y"], loanOutputs)
      ((NameSupply.empty.use "T_loans").use "T_books") := by
    refine (Component.BindsItem.named hloan).cons ((Component.BindsItem.named hloan).cons ?_)
    rw [hfirst, hsecond]
    exact gives_pure.2 ⟨rfl, rfl⟩
  have hkey : bookIsbn.boundKeys loanOutputs loanEnvironment false = .ok boundBook := by
    have hplaces : loanOutputs.places bookIsbn = [] := by
      simpa [loanOutputs, Environment.places, loanIsbn, bookIsbn] using isbn_ne
    exact (Component.locate_of_no_places hplaces).trans hbook
  have horder : (Component.sortList [.sortItem bookIsbn .asc]).boundKeys loanOutputs loanEnvironment false =
      .ok (.sortList [.sortItem boundBook .asc]) := by
    rw [Component.boundKeys, Component.boundKeysAll, Component.boundKeysAll, Component.boundKeys, hkey,
      ← sortListOf_singleton]
    rfl
  have hbound : loanForm.bindNames .empty = (.ok loanBound, (NameSupply.empty.use "T_loans").use "T_books") :=
    Component.bindNames_of_gives (Component.gives_bindQuery hsource rfl rfl rfl hitems horder)
  rw [hbound]

def repeatingSearch : SearchConfig := { distinctText := false }

def loanParts : List Component :=
  [loanQuery, .select [loanIsbn, bookIsbn], loanIsbn, bookIsbn, loanSource none none loanIsbn bookIsbn,
    .joinType .inner, .tableSource (.table loans) none, .table loans, .tableSource (.table books) none,
    .table books, .comparison loanIsbn .eq bookIsbn, .compareOp .eq, .absent,
    .sortList [.sortItem bookIsbn .asc], .sortItem bookIsbn .asc, .sortDir .asc, .distinct]

theorem loans_mem_targets :
    [loanIsbn, loanIsbn] ∈ (Search.start loanQuery ["x", "y"] repeatingSearch).targets := by
  have hprovided : loanQuery.provided = [loanIsbn, bookIsbn] := by
    simp [loanQuery, sortedLoans, loanIsbn, bookIsbn, Component.provided, Component.providedByAll]
  have hkeys : (loanParts.map Component.fingerprint).Nodup := by
    simp only [loanParts, loanQuery, sortedLoans, loanSource, loanIsbn, bookIsbn, List.map_cons, List.map_nil,
      Component.fingerprint, Component.keys, Keys.same]
    decide +kernel
  obtain ⟨hparts, htables⟩ : loanQuery.PartsApart ∧ loanQuery.TablesApart := by
    refine Component.apart_of_nodup hkeys ?_
    simp [loanParts, loanQuery, sortedLoans, loanSource, loanIsbn, bookIsbn, Component.reach,
      Component.reachAll, Component.chainForm]
  have hsources : loanQuery.SourcesApart := hparts.mono fun _ _ => trivial
  have hread : loans ∈ loanQuery.tables := .head _
  have hmem : loanIsbn ∈ Variation.columnsNamed (Search.start loanQuery ["x", "y"] repeatingSearch).bank
      (Search.start loanQuery ["x", "y"] repeatingSearch).estimator "isbn" :=
    (Variation.mem_columnsNamed Search.orderly_start).2
      ⟨loans, .number, Search.table_mem_free (Search.table_mem_start hsources htables hread) hread, .head _, rfl⟩
  rw [Search.start_targets, Search.mem_targetsOf, hprovided]
  exact Search.mem_tuplesOf_of_sameName (by decide) (List.cons_ne_nil _ _) (.cons hmem (.cons hmem .nil))

theorem exists_asks_loanedBooks :
    ∃ s, (ofStatement loanTables loanedBooks repeatingSearch).ask.2.Asks s ∧
      s.ask.1 = .item (.ok ⟨loanBound.text, 0⟩) := by
  have hkind : loanQuery.kind = .query := (Component.kind_eq_iff _ _).2 rfl
  refine exists_asks_of_initial toQuery_loanedBooks rfl (Search.mem_initialTexts hkind ?_)
  exact Search.mem_render.2 ⟨_, loans_mem_targets, _, loanForm, loanBound, projections_loanQuery, .head _,
    bindNames_loanForm, rfl⟩

theorem text_loanBound : loanBound.text =
    "SELECT DISTINCT \"T_loans_0\".\"isbn\" AS \"x\", \"T_loans_0\".\"isbn\" AS \"y\"" ++
    " FROM \"loans\" AS \"T_loans_0\" INNER JOIN \"books\" AS \"T_books_0\"" ++
    " ON \"T_loans_0\".\"isbn\" = \"T_books_0\".\"isbn\" ORDER BY \"T_books_0\".\"isbn\" ASC" := by
  have hquoted : quoteName "loans" = "\"loans\"" ∧ quoteName "books" = "\"books\"" ∧
      quoteName "T_loans_0" = "\"T_loans_0\"" ∧ quoteName "T_books_0" = "\"T_books_0\"" ∧
      quoteName "isbn" = "\"isbn\"" ∧ quoteName "x" = "\"x\"" ∧ quoteName "y" = "\"y\"" := by
    refine ⟨?_, ?_, ?_, ?_, ?_, ?_, ?_⟩ <;> cbv
  have hloans : loans.name = "loans" := rfl
  have hbooks : books.name = "books" := rfl
  have habsent : Component.absent.isAbsent = true := (Component.isAbsent_iff _).2 rfl
  have hkeys : (Component.sortList [.sortItem boundBook .asc]).isAbsent = false := by
    simp [Bool.eq_false_iff, Component.isAbsent_iff]
  have hjoin : (Component.tableSource (.table books) (some "T_books_0")).kind ≠ .join := by
    rw [ne_eq, Component.kind_eq_iff]
    decide
  rw [boundBook] at hkeys
  simp [loanBound, sortedLoans, loanSource, boundLoan, boundBook, Component.text, Component.texts,
    Component.clause, Component.withAlias, Component.qualified, Sql.commaSeparated, hquoted, habsent, hkeys,
    hloans, hbooks, hjoin, CompareOp.text, JoinType.text, SortDir.text]

theorem sortsOutputs_loanQuery : Throughout SortsOutputs loanQuery := by
  have hleaf {c : Component} (here : c.SortsOutputs) (h : c.children = []) : Throughout SortsOutputs c :=
    Component.throughout_leaf here h
  have hloan : Throughout SortsOutputs loanIsbn := hleaf trivial rfl
  have hbook : Throughout SortsOutputs bookIsbn := hleaf trivial rfl
  have habsent : Throughout SortsOutputs .absent := hleaf trivial rfl
  have htable (t : Table) : Throughout SortsOutputs (.tableSource (.table t) none) :=
    .intro trivial (by simpa [Component.children] using hleaf (c := .table t) trivial rfl)
  have hon : Throughout SortsOutputs (.comparison loanIsbn .eq bookIsbn) :=
    .intro trivial (by simpa [Component.children] using ⟨hloan, hbook⟩)
  have hsource : Throughout SortsOutputs (loanSource none none loanIsbn bookIsbn) :=
    .intro trivial (by simpa [loanSource, Component.children] using ⟨htable loans, htable books, hon⟩)
  have hsel : Throughout SortsOutputs (.select [loanIsbn, bookIsbn]) :=
    .intro trivial (by simpa [Component.children] using ⟨hloan, hbook⟩)
  have hitem : Throughout SortsOutputs (.sortItem bookIsbn .asc) :=
    .intro trivial (by simpa [Component.children] using hbook)
  have hkeys : Throughout SortsOutputs (.sortList [.sortItem bookIsbn .asc]) :=
    .intro trivial (by simpa [Component.children] using hitem)
  have hsorts : loanQuery.SortsOutputs := by
    intro _ item hitem
    cases List.mem_singleton.1 hitem
    refine ⟨bookIsbn.fingerprint, ?_, ?_⟩ <;>
      simp [loanQuery, sortedLoans, bookIsbn, Component.leadingKey, Component.providedKeys]
  refine .intro hsorts ?_
  simpa [loanQuery, sortedLoans, Component.children] using ⟨hsel, hsource, habsent, hkeys⟩

theorem asks_sortsOutputs_loanedBooks :
    (loanedBooks.toQuery loanTables 0).1 = .ok (loanQuery, ["x", "y"]) ∧ Throughout SortsOutputs loanQuery ∧
      ∃ s, (ofStatement loanTables loanedBooks repeatingSearch).ask.2.Asks s ∧
        s.ask.1 = .item (.ok ⟨loanBound.text, 0⟩) ∧
        ∃ target ∈ (Search.start loanQuery ["x", "y"] repeatingSearch).targets, ∃ q form bound : Component,
          Throughout SortsOutputs q ∧ (∃ forms, q.projections target ["x", "y"] = .ok forms ∧ form ∈ forms) ∧
          (form.bindNames .empty).1 = .ok bound ∧ loanBound.text = bound.text ∧
          (∀ d ∈ bound.children, Throughout SortsOutputs d) ∧
          (bound.SortsOutputs ↔ q.SortsBy (target.map Component.fingerprint)) := by
  obtain ⟨s, hs, hask⟩ := exists_asks_loanedBooks
  exact ⟨toQuery_loanedBooks, sortsOutputs_loanQuery, s, hs, hask,
    asks_sortsOutputs toQuery_loanedBooks sortsOutputs_loanQuery hs hask⟩

/-- Where the number of the loan is asked for twice, the rows are sorted by the book, which is not among
the outputs then. -/
theorem not_sortsOutputs_loanedBooks :
    (loanedBooks.toQuery loanTables 0).1 = .ok (loanQuery, ["x", "y"]) ∧ Throughout SortsOutputs loanQuery ∧
      ∃ s, (ofStatement loanTables loanedBooks repeatingSearch).ask.2.Asks s ∧
        s.ask.1 = .item (.ok ⟨loanBound.text, 0⟩) ∧ (loanForm.bindNames .empty).1 = .ok loanBound ∧
        ¬ loanBound.SortsOutputs ∧
        loanBound.text =
          "SELECT DISTINCT \"T_loans_0\".\"isbn\" AS \"x\", \"T_loans_0\".\"isbn\" AS \"y\"" ++
          " FROM \"loans\" AS \"T_loans_0\" INNER JOIN \"books\" AS \"T_books_0\"" ++
          " ON \"T_loans_0\".\"isbn\" = \"T_books_0\".\"isbn\" ORDER BY \"T_books_0\".\"isbn\" ASC" := by
  obtain ⟨s, hs, hask⟩ := exists_asks_loanedBooks
  have hsorts : ¬ loanBound.SortsOutputs := by
    intro hsorts
    obtain ⟨k, hk, hkey⟩ := hsorts rfl (.sortItem boundBook .asc) (.head _)
    have hself (c : Component) : c.keys.self = c.fingerprint := rfl
    have hk' : k = Fingerprint.ofColumn loans "isbn" := by
      simpa [loanBound, sortedLoans, boundLoan, loanIsbn, hself, Component.providedKeys] using hk
    have hkey' : Fingerprint.ofColumn books "isbn" = k := by
      simpa [boundBook, bookIsbn, hself, Component.leadingKey, Component.providedKeys] using hkey
    exact isbn_ne (hk'.symm.trans hkey'.symm)
  exact ⟨toQuery_loanedBooks, sortsOutputs_loanQuery, s, hs, hask, bindNames_loanForm, hsorts, text_loanBound⟩

end Loans

end Candidates

end QuerySearch
