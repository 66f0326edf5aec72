import QuerySearch.Proofs.Projection.Choices

/-! What narrowing a query leaves alone.  A form reads from the same tables under the same conditions and has
the same clauses at every level; only the select lists are others. -/

namespace QuerySearch.Component

structure Keeps (given items : List Component) : Prop where
  isGiven : ∀ item ∈ items, item ∈ given
  apart : items.Pairwise fun c d => c.leadingKey ≠ d.leadingKey

/-- The same source or query, but that its queries keep only some of their items. -/
inductive Thinned : Component → Component → Prop
  | tableSource {t asName} : Thinned (.tableSource t asName) (.tableSource t asName)
  | querySource {q q' asName} (h : Thinned q q') : Thinned (.querySource q asName) (.querySource q' asName)
  | join {l l' r r' type on} (hl : Thinned l l') (hr : Thinned r r') :
    Thinned (.join l r type on) (.join l' r' type on)
  | query {given items source source' filter groupBy having orderBy isDistinct}
    (hitems : Keeps given items) (hsource : Thinned source source') :
    Thinned (.query (.select given) source filter groupBy having orderBy isDistinct)
      (.query (.select items) source' filter groupBy having orderBy isDistinct)

/-- The same query over a thinned source, with one of its items for each output, under the name that is asked
for. -/
inductive IsForm (outputs : List Component) (names : List String) : Component → Component → Prop
  | query {given items : List Component} {source source' filter groupBy having orderBy isDistinct}
    (hlength : items.length = outputs.length)
    (hitems : ∀ (i : Nat) (chain item : Component) (name : String), outputs[i]? = some chain →
      names[i]? = some name → items[i]? = some item →
        ∃ c ∈ given, c.leadingKey = some chain.fingerprint ∧ item = .named c.withoutName name)
    (hsource : Thinned source source') :
    IsForm outputs names (.query (.select given) source filter groupBy having orderBy isDistinct)
      (.query (.select items) source' filter groupBy having orderBy isDistinct)

section Forms

variable {wanted : Fingerprint → Bool} {given items outputs forms : List Component} {query q form : Component}
  {lists : List (List Component)} {choices : List (Fingerprint × List Component)} {names : List String}

theorem Gathered.keeps (h : Gathered wanted given choices) (hitems : items ∈ selections (choices.map (·.2))) :
    Keeps given items :=
  ⟨h.mem_given hitems, List.pairwise_map.1 (h.nodup_leadingKey hitems)⟩

theorem keeps_of_keptItems (h : keptItems wanted (.select given) = .ok lists) (hitems : items ∈ lists) :
    Keeps given items := by
  obtain ⟨_, hsel, rfl⟩ := keptItems_ok h
  cases hsel
  exact (gathered_choices wanted given).keeps hitems

/-- By induction on the source: each level keeps some items and hands its clauses on. -/
theorem narrow_thinned : (∀ needed q forms, narrowQuery needed q = .ok forms → ∀ form ∈ forms, Thinned q form) ∧
    ∀ needed s forms, narrowSource needed s = .ok forms → ∀ form ∈ forms, Thinned s form := by
  apply narrow_induct
  case query =>
    intro needed sel source filter groupBy having orderBy isDistinct lists items source' hlists hitems hsource
    obtain ⟨given, rfl, _⟩ := keptItems_ok hlists
    exact .query (keeps_of_keptItems hlists hitems) hsource
  case table => exact fun _ _ _ => .tableSource
  case subquery => exact fun _ _ _ _ => .querySource
  case join => exact fun _ _ _ _ _ _ _ => .join

theorem arrange_isForm (hnames : outputs.length = names.length) (hq : Thinned query q)
    (h : arrange (outputs.zip names) q = .ok form) : IsForm outputs names query form := by
  cases hq with
  | query hkeeps hsource =>
    obtain ⟨arranged, hrun, h⟩ := ok_of_bind h
    cases h
    have hruns := forall₂_of_mapM hrun
    have hlength : (outputs.zip names).length = outputs.length := by
      rw [List.length_zip, ← hnames, Nat.min_self]
    refine .query (hruns.length_eq.symm.trans hlength) (fun i chain item name hchain hname hitem => ?_) hsource
    obtain ⟨output, houtput, hitem⟩ := getElem?_of_forall₂ hruns hitem
    have hzip : (outputs.zip names)[i]? = some (chain, name) := List.getElem?_zip_eq_some.2 ⟨hchain, hname⟩
    rw [hzip] at houtput
    cases houtput
    obtain ⟨c, ⟨hc, hkey⟩, rfl⟩ := outputItem_ok hitem
    exact ⟨c, hkeeps.isGiven c hc, hkey, rfl⟩
  | _ => cases h

/-- A form of a query has for each output an item of the query that provides its chain, under the name that is
asked for; the query's other clauses are kept, and its source has only lost items of subqueries. -/
theorem projections_present (h : query.projections outputs names = .ok forms) :
    names.length = outputs.length ∧ ∀ form ∈ forms, IsForm outputs names query form := by
  have hnames := length_eq_of_projections h
  obtain ⟨narrowed, hnarrowed, hforms⟩ := projections_ok h
  refine ⟨hnames.symm, fun form hform => ?_⟩
  obtain ⟨q, hq, harrange⟩ := hforms form hform
  exact arrange_isForm hnames (narrow_thinned.1 _ _ _ hnarrowed q hq) harrange

theorem projections_present_readers :
    (readersWith readerName loanColumns).projections [readerName] ["n"] =
        .ok [readersWith (.named readerName "n") [.column loans "reader" .number]] ∧
      IsForm [readerName] ["n"] (readersWith readerName loanColumns)
        (readersWith (.named readerName "n") [.column loans "reader" .number]) :=
  ⟨projections_readers, (projections_present projections_readers).2 _ (.head _)⟩

end Forms

end QuerySearch.Component
