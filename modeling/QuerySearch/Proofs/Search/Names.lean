import Mathlib
import QuerySearch.Proofs.Binding.Distinct
import QuerySearch.Proofs.Binding.Named
import QuerySearch.Proofs.Binding.References
import QuerySearch.Proofs.Projection.Names
import QuerySearch.Proofs.Resolve.Layered
import QuerySearch.Proofs.Search.Start
import QuerySearch.Proofs.Search.Stream
import QuerySearch.Proofs.Search.Supplied

/-! The sources of one FROM clause of a candidate have different names, so that a qualifier says what is
read, as long as the names in the statement are different at all levels together and none of them
could be made up. -/

namespace QuerySearch

open Component (WellNamed asName? throughout_leaf throughout_sorted)

structure Distinguished (given : List Component) : Prop where
  names : WellNamed (given.filterMap asName?)
  provides : ∀ d ∈ given, d.providedKeys ≠ []

structure Fit (given : List Component) (c : Component) : Prop where
  names : WellNamed c.fromNames
  clauses : ∀ ns ∈ c.clauseNames, WellNamed ns
  leaves : ∀ d ∈ c.leaves, d.asName?.isSome → d ∈ given
  unread : c.Unread

section Fits

variable {given : List Component} {b : Bank} {w : Workshop} {c d e l r on : Component} {type : JoinType}
  {a : String}

theorem wellNamed_nil : WellNamed [] := ⟨.nil, nofun⟩

theorem WellNamed.sublist {names names' : List String} (h : WellNamed names) (hsub : names'.Sublist names) :
    WellNamed names' :=
  ⟨h.1.sublist hsub, fun a ha => h.2 a (hsub.subset ha)⟩

theorem eq_of_name {cs : List Component} (h : (cs.filterMap asName?).Nodup) (hd : d ∈ cs) (he : e ∈ cs)
    (hda : d.asName? = some a) (hea : e.asName? = some a) : d = e := by
  by_contra hne
  have hapart := List.pairwise_filterMap.1 h
  have hsymm : Std.Symm fun d e : Component =>
      ∀ b, d.asName? = some b → ∀ b', e.asName? = some b' → b ≠ b' :=
    ⟨fun _ _ h b hb b' hb' => (h b' hb' b hb).symm⟩
  exact hapart.forall hd he hne a hda a hea rfl

theorem fit_of_bare (hleaves : c.leaves = [c]) (hname : c.asName? = none)
    (hclauses : ∀ ns ∈ c.clauseNames, WellNamed ns) (hunread : c.Unread) : Fit given c := by
  refine ⟨?_, hclauses, ?_, hunread⟩
  · rw [Component.fromNames, hleaves, List.filterMap_cons_none hname]
    exact wellNamed_nil
  · rw [hleaves, List.forall_mem_singleton, hname]
    simp

theorem fit_of_clauseless (hleaves : c.leaves = [c]) (hname : c.asName? = none)
    (hclauses : c.clauseNames = []) (hunread : c.Unread) : Fit given c :=
  fit_of_bare hleaves hname (by simp [hclauses]) hunread

theorem fit_of_plain (h : c.Plain) : Fit given c := by
  cases c with
  | tableSource | querySource | join | query => exact absurd trivial h.here.2
  | _ => exact fit_of_clauseless rfl rfl rfl h.unread

theorem fit_of_layered (h : Distinguished given) (hlayered : c.Layered) (hc : c.aliased.Sublist given) :
    Fit given c := by
  have hnames : WellNamed (c.aliased.filterMap asName?) := WellNamed.sublist h.names (hc.filterMap _)
  exact ⟨WellNamed.sublist hnames (Component.fromNames_sublist c),
    fun ns hns => WellNamed.sublist hnames (Component.clauseNames_sublist c hns),
    fun d hd hname => hc.subset (Component.mem_aliased_of_leaf c hd hname), hlayered.unread⟩

theorem mem_providedKeys_of_leaf (c : Component) (hd : d ∈ c.leaves) :
    ∀ k ∈ d.providedKeys, k ∈ c.providedKeys := by
  cases c with
  | join l r type on =>
    intro k hk
    rw [Component.providedKeys, List.mem_append]
    cases List.mem_append.1 hd with
    | inl hd => exact .inl (mem_providedKeys_of_leaf l hd k hk)
    | inr hd => exact .inr (mem_providedKeys_of_leaf r hd k hk)
  | _ =>
    cases List.mem_singleton.1 hd
    exact fun k hk => hk

theorem mem_fromNames : a ∈ c.fromNames ↔ ∃ d ∈ c.leaves, d.asName? = some a := List.mem_filterMap

theorem Fit.join (h : Distinguished given) (hl : Fit given l) (hr : Fit given r)
    (hapart : ∀ k ∈ r.providedKeys, k ∉ l.providedKeys) (hunread : (Component.join l r type on).Unread) :
    Fit given (.join l r type on) := by
  refine ⟨?_, ?_, ?_, hunread⟩
  · rw [Component.fromNames_join]
    refine ⟨List.nodup_append.2 ⟨hl.names.1, hr.names.1, ?_⟩, fun a ha => ?_⟩
    · rintro a ha _ ha' rfl
      obtain ⟨d, hd, hda⟩ := mem_fromNames.1 ha
      obtain ⟨e, he, hea⟩ := mem_fromNames.1 ha'
      have hdgiven := hl.leaves d hd (by simp [hda])
      have hegiven := hr.leaves e he (by simp [hea])
      cases eq_of_name h.names.1 hdgiven hegiven hda hea
      obtain ⟨k, hk⟩ := List.exists_mem_of_ne_nil _ (h.provides d hdgiven)
      exact hapart k (mem_providedKeys_of_leaf r he k hk) (mem_providedKeys_of_leaf l hd k hk)
    · exact (List.mem_append.1 ha).elim (hl.names.2 a) (hr.names.2 a)
  · rw [Component.clauseNames, List.forall_mem_append]
    exact ⟨hl.clauses, hr.clauses⟩
  · intro d hd
    exact (List.mem_append.1 hd).elim (hl.leaves d) (hr.leaves d)

theorem Built.unread (hbank : ∀ d ∈ w.bank.toList, d.Unread) (hc : Built w c) : c.Unread := by
  have hhere : ¬ c.IsBound := by
    cases hc <;> exact id
  refine .intro hhere fun d hd => ?_
  cases hc.mem_of_child hd with
  | inl hd => exact hbank d hd
  | inr hselect =>
    obtain ⟨items, rfl, hitems⟩ := hselect
    exact .intro id fun e he => hbank e (hitems e he)

theorem Built.fit (h : Distinguished given) (hbank : ∀ d ∈ w.bank.toList, Fit given d)
    (hc : Built w c) : Fit given c := by
  have hunread : c.Unread := hc.unread fun d hd => (hbank d hd).unread
  cases hc with
  | querySource hq => exact fit_of_bare rfl rfl (hbank _ hq.mem).clauses hunread
  | join hl hr =>
    exact (hbank _ hl.mem).join h (hbank _ hr.mem) (hr.providesNone (by simp)) hunread
  | query hsource =>
    refine fit_of_bare rfl rfl ?_ hunread
    rw [Component.clauseNames, List.forall_mem_cons]
    exact ⟨(hbank _ hsource.mem).names, (hbank _ hsource.mem).clauses⟩
  | _ => exact fit_of_clauseless rfl rfl rfl hunread

theorem Drawn.unread (hbank : ∀ d ∈ b.toList, d.Unread) (hc : Drawn b c) : c.Unread := by
  induction hc with
  | child hd hc => exact (hbank _ hd).child hc
  | column => exact Component.plain_column.unread
  | aggChain _ _ _ _ ih => exact .intro id (by simpa [Component.children] using ih)
  | arg _ ih => exact ih.child (.head _)

theorem Proposed.unread (hbank : ∀ d ∈ b.toList, d.Unread) (hc : Proposed b c) : c.Unread := by
  cases hc with
  | groupList hitems | partitionList hitems =>
    exact throughout_sorted id rfl fun d hd => (hitems d hd).unread hbank
  | @sortList c hc =>
    have hitem : (Component.sortItem c .asc).Unread :=
      .intro id (by simpa [Component.children] using hc.unread hbank)
    exact throughout_sorted id rfl (by simpa using hitem)

theorem Proposed.fit (hbank : ∀ d ∈ b.toList, Fit given d) (h : Proposed b c) : Fit given c := by
  have hunread : c.Unread := h.unread fun d hd => (hbank d hd).unread
  cases h <;> exact fit_of_clauseless rfl rfl rfl hunread

end Fits

/-- Every source of a bound query has a name, no two of one FROM clause have the same, and whatever is
read with a qualifier is read from a source with that name, which is therefore the only one. -/
structure Component.NamedApart (c : Component) : Prop where
  named : c.AllNamed
  clauses : ∀ ns ∈ c.clauseNames, ns.Nodup
  reads : c.ReadsSources

def TellsApart (text : String) : Prop := ∃ form bound : Component,
  (form.bindNames .empty).1 = .ok bound ∧ text = bound.text ∧ bound.NamedApart

namespace Search

variable {query c : Component} {given : List Component} {names : List String} {config : SearchConfig}
  {s : Search} {text : String}

theorem start_fit (hquery : query.Layered) (hgiven : Distinguished query.aliased) :
    ∀ c ∈ (start query names config).bank.toList, Fit query.aliased c := by
  refine forall_mem_start (fun c hc => ?_) (fun _ _ _ => fit_of_plain Component.plain_column)
    (fun _ hc => fit_of_plain (Component.inherited_plain.word hc)) (fit_of_plain Component.plain_absent)
  cases Component.Layered.reach query hquery c hc with
  | inl hplain => exact fit_of_plain hplain
  | inr h => exact fit_of_layered hgiven h.1 h.2

theorem Reaches.fit (h : (start query names config).Reaches s) (hquery : query.Layered)
    (hgiven : Distinguished query.aliased) : ∀ c ∈ s.bank.toList, Fit query.aliased c :=
  h.bank_forall (start_fit hquery hgiven) (fun _ _ hbank _ hc => hc.fit hbank)
    (fun _ _ hbank _ hc => hc.fit hgiven hbank)

theorem tellsApart_of_mem_render (h : text ∈ s.render c) (hc : Fit given c) : TellsApart text := by
  obtain ⟨target, _, forms, form, bound, hforms, hform, hbound, htext⟩ := mem_render.1 h
  have hbinds : form.bindNames .empty = (.ok bound, (form.bindNames .empty).2) := Prod.ext hbound rfl
  have hclauses : ∀ ns ∈ form.clauseNames, WellNamed ns := by
    rw [(Component.projections_sameNames hforms form hform).2]
    exact hc.clauses
  have hunread := Component.projections_unread hforms hc.unread form hform
  exact ⟨form, bound, hbound, htext.symm, Component.bindNames_named hbinds,
    Component.bindNames_distinct hbinds hclauses, Component.bindNames_readsSources hbinds hunread⟩

theorem Yields.tellsApart (h : (start query names config).Yields text) (hquery : query.Layered)
    (hgiven : Distinguished query.aliased) : TellsApart text := by
  obtain ⟨s, c, hs, hc, htext⟩ := h
  have hbank := hs.fit hquery hgiven
  cases hc with
  | inl hc => exact tellsApart_of_mem_render htext (hbank c hc)
  | inr hc => exact tellsApart_of_mem_render htext ((discoveries_built hc).fit hgiven hbank)

end Search

namespace Candidates

/-- Behind the placeholder, every candidate is a query in which the sources of each FROM clause have
different names, and every qualifier is one of them, if the names in the statement are different and
none of them looks made up. -/
theorem tellsApart_of_ask {schema : Schema} {statement : Sql.Select Sql.Constant} {config : SearchConfig}
    {query : Component} {names : List String} {s : Candidates} {c : Candidate}
    (h : (statement.toQuery schema 0).1 = .ok (query, names)) (hnames : WellNamed statement.aliases)
    (hitems : ∀ level ∈ statement.levels, level.items ≠ [])
    (hcolumns : ∀ name t, schema.table? name = some t → t.columns ≠ [])
    (hs : (ofStatement schema statement config).ask.2.Asks s) (hc : s.ask.1 = .item (.ok c)) :
    TellsApart c.text := by
  obtain ⟨scope, hlaid⟩ := toQuery_laid h hitems hcolumns
  have hgiven : Distinguished query.aliased := by
    refine ⟨⟨hlaid.names.nodup_iff.2 hnames.1, fun a ha => ?_⟩, hlaid.provides⟩
    exact hnames.2 a (hlaid.names.mem_iff.1 ha)
  have hfollows := hs.follows (ask_ofStatement config h).2
  obtain ⟨c', hc', hyields⟩ := hfollows.ready _ (mem_ready_of_ask hc)
  cases hc'
  exact hyields.tellsApart hlaid.layered hgiven

section Rooms

open Sql (Constant)

def rooms : Table := ⟨"rooms", [("id", .number)], 0⟩

def bookings : Table := ⟨"bookings", [("room", .number)], 1⟩

def roomTables : Schema := .ofDefs [⟨"rooms", [⟨"id", "int"⟩]⟩, ⟨"bookings", [⟨"room", "int"⟩]⟩]

def roomId : Component := .column rooms "id" .number

def bookedRoom : Component := .column bookings "room" .number

/-- `SELECT id FROM rooms AS a JOIN bookings ON id = room` -/
def bookedRooms (a : String) : Sql.Select Constant where
  distinct := false
  items := [.expr (.column ⟨none, "id"⟩) none]
  sources := [.join (.table "rooms" (some a)) (.table "bookings" none) .inner
    (some (.compare (.column ⟨none, "id"⟩) .eq (.column ⟨none, "room"⟩)))]
  filter := none
  groupBy := []
  having := none
  orderBy := []

def bookingsFrom (a : String) (other : Option String) (id room : Component) : Component :=
  .join (.tableSource (.table rooms) (some a)) (.tableSource (.table bookings) other) .inner
    (.comparison id .eq room)

def bookedQuery (item source : Component) : Component :=
  .query (.select [item]) source .absent .absent .absent .absent false

def bookedBound (a : String) : Component :=
  bookedQuery (.named (.boundColumn a "id" roomId) "id")
    (bookingsFrom a (some "T_bookings_0") (.boundColumn a "id" roomId)
      (.boundColumn "T_bookings_0" "room" bookedRoom))

def plainSearch : SearchConfig := { maxArity := 0, distinctText := false }

theorem toQuery_bookedRooms (a : String) : ((bookedRooms a).toQuery roomTables 0).1 =
    .ok (bookedQuery roomId (bookingsFrom a none roomId bookedRoom), ["id"]) := by
  have hsource : Gives (Sql.TableRef.resolveOnly roomTables (bookedRooms a).sources) 0
      (bookingsFrom a none roomId bookedRoom, [⟨a, "id", roomId⟩, ⟨"bookings", "room", bookedRoom⟩]) 2 := by
    cbv
  have hid : Scope.lookup [⟨a, "id", roomId⟩, ⟨"bookings", "room", bookedRoom⟩] ⟨none, "id"⟩ =
      .ok roomId := by cbv
  have hplace : Scope.sourceOf [⟨a, "id", roomId⟩, ⟨"bookings", "room", bookedRoom⟩] ⟨none, "id"⟩ = a := by
    cbv
  have hout : outputChain roomId = .ok roomId := rfl
  have hquery : queryOver (bookingsFrom a none roomId bookedRoom)
      [⟨a, "id", roomId⟩, ⟨"bookings", "room", bookedRoom⟩] (bookedRooms a) =
      .ok (bookedQuery roomId (bookingsFrom a none roomId bookedRoom), [⟨a, "id", roomId⟩]) := by
    simp [queryOver, bookedRooms, selectItemValue, Sql.Expr.value, predicateOrAbsent, listOrAbsent, outputs,
      outputSource, hid, hplace, hout, bind, Except.bind, pure, Except.pure]
    exact ⟨rfl, rfl⟩
  exact toQuery_of_gives hsource hquery

theorem projections_bookedQuery (a : String) :
    (bookedQuery roomId (bookingsFrom a none roomId bookedRoom)).projections [roomId] ["id"] =
      .ok [bookedQuery (.named roomId "id") (bookingsFrom a none roomId bookedRoom)] := by
  have hkeys : roomId.providedKeys = [roomId.fingerprint] := by
    simp [roomId, Component.providedKeys]
  have hbind {α β : Type} (a : α) (f : α → Except ProjectionError β) :
      (Except.ok a >>= f) = f a := rfl
  have harrange : Component.arrange [(roomId, "id")]
      (bookedQuery roomId (bookingsFrom a none roomId bookedRoom)) =
      .ok (bookedQuery (.named roomId "id") (bookingsFrom a none roomId bookedRoom)) := by
    simp [bookedQuery, Component.arrange, Component.outputItem, Component.leadingKey, hkeys]
    rfl
  simp [hbind, bookedQuery, bookingsFrom, hkeys, Component.projections, Component.narrowQuery,
    Component.narrowSource, Component.keptItems, Component.choices, Component.addChoice,
    Component.leadingKey, selections, Component.providedKeys]
  exact congrArg (fun r => (fun form => [form]) <$> r) harrange

def bookedEnvironment (a : String) : Environment :=
  ⟨[(roomId.fingerprint, ⟨a, "id"⟩), (bookedRoom.fingerprint, ⟨"T_bookings_0", "room"⟩)]⟩

theorem bindNames_bookedQuery (a : String) :
    ((bookedQuery (.named roomId "id") (bookingsFrom a none roomId bookedRoom)).bindNames .empty).1 =
      .ok (bookedBound a) := by
  have hne : roomId.fingerprint ≠ bookedRoom.fingerprint := by
    simp only [roomId, bookedRoom, Component.fingerprint_column]
    decide +kernel
  obtain ⟨hsource, hroom, -⟩ : Gives (bookingsFrom a none roomId bookedRoom).bindSource .empty
        (bookingsFrom a (some "T_bookings_0") (.boundColumn a "id" roomId)
          (.boundColumn "T_bookings_0" "room" bookedRoom), bookedEnvironment a)
        (NameSupply.empty.use "T_bookings") ∧
      roomId.bound [bookedEnvironment a] = .ok (.boundColumn a "id" roomId) ∧
      bookedRoom.bound [bookedEnvironment a] = .ok (.boundColumn "T_bookings_0" "room" bookedRoom) :=
    Component.gives_joined_pair ⟨a, "id"⟩ ⟨"T_bookings_0", "room"⟩ rfl hne (fun _ => rfl) (fun _ => rfl) rfl rfl
  have hitems : Gives (Component.bindItems (bookedEnvironment a) .empty [.named roomId "id"])
      (NameSupply.empty.use "T_bookings")
      ([.named (.boundColumn a "id" roomId) "id"], Component.withOutput .empty (.named roomId "id") "id")
      (NameSupply.empty.use "T_bookings") :=
    (Component.BindsItem.named hroom).cons (gives_pure.2 ⟨rfl, rfl⟩)
  have hbound : (bookedQuery (.named roomId "id") (bookingsFrom a none roomId bookedRoom)).bindNames .empty =
      (.ok (bookedBound a), NameSupply.empty.use "T_bookings") :=
    Component.bindNames_of_gives (Component.gives_bindQuery hsource rfl rfl rfl hitems rfl)
  rw [hbound]

theorem exists_asks_bookedRooms (a : String) :
    ∃ s, (ofStatement roomTables (bookedRooms a) plainSearch).ask.2.Asks s ∧
      s.ask.1 = .item (.ok ⟨(bookedBound a).text, 0⟩) := by
  refine exists_asks_of_initial (toQuery_bookedRooms a) rfl ?_
  have hkind : (bookedQuery roomId (bookingsFrom a none roomId bookedRoom)).kind = .query :=
    (Component.kind_eq_iff _ _).2 rfl
  exact Search.text_mem_initialTexts hkind (Nat.zero_lt_succ 0) (projections_bookedQuery a) (.head _)
    (bindNames_bookedQuery a)

theorem tellsApart_bookedRooms :
    ((bookedRooms "r").toQuery roomTables 0).1 =
        .ok (bookedQuery roomId (bookingsFrom "r" none roomId bookedRoom), ["id"]) ∧
      WellNamed (bookedRooms "r").aliases ∧ (∀ level ∈ (bookedRooms "r").levels, level.items ≠ []) ∧
      (∀ name t, roomTables.table? name = some t → t.columns ≠ []) ∧
      ∃ s, (ofStatement roomTables (bookedRooms "r") plainSearch).ask.2.Asks s ∧
        s.ask.1 = .item (.ok ⟨(bookedBound "r").text, 0⟩) ∧
        TellsApart (bookedBound "r").text := by
  have hnames : WellNamed (bookedRooms "r").aliases := by
    have haliases : (bookedRooms "r").aliases = ["r"] := rfl
    rw [haliases]
    refine ⟨List.nodup_singleton _, fun a ha hint n h => ?_⟩
    cases List.mem_singleton.1 ha
    have hletters := congrArg String.toList h
    simp [NameSupply.tableLabel] at hletters
  have hitems : ∀ level ∈ (bookedRooms "r").levels, level.items ≠ [] := by
    intro level hlevel
    cases List.mem_singleton.1 hlevel
    exact List.cons_ne_nil _ _
  have hcolumns : ∀ name t, roomTables.table? name = some t → t.columns ≠ [] := by
    intro name t ht
    have htables : roomTables.entries = [("bookings", ⟨"bookings", [("room", .number)]⟩),
        ("rooms", ⟨"rooms", [("id", .number)]⟩)] := by cbv
    rw [Schema.table?, htables, List.lookup_cons, List.lookup_cons, List.lookup_nil] at ht
    split at ht
    · cases ht
      exact List.cons_ne_nil _ _
    split at ht
    · cases ht
      exact List.cons_ne_nil _ _
    · cases ht
  obtain ⟨s, hs, hask⟩ := exists_asks_bookedRooms "r"
  exact ⟨toQuery_bookedRooms "r", hnames, hitems, hcolumns, s, hs, hask,
    tellsApart_of_ask (toQuery_bookedRooms "r") hnames hitems hcolumns hs hask⟩

/-- A name that is made up for the bookings may have been given to the rooms. -/
theorem clauseNames_bookedRooms :
    ((bookedRooms "T_bookings_0").toQuery roomTables 0).1 =
        .ok (bookedQuery roomId (bookingsFrom "T_bookings_0" none roomId bookedRoom), ["id"]) ∧
      (bookedRooms "T_bookings_0").aliases.Nodup ∧
      ∃ s, (ofStatement roomTables (bookedRooms "T_bookings_0") plainSearch).ask.2.Asks s ∧
        s.ask.1 = .item (.ok ⟨(bookedBound "T_bookings_0").text, 0⟩) ∧
        (bookedBound "T_bookings_0").clauseNames = [["T_bookings_0", "T_bookings_0"]] ∧
        (bookedBound "T_bookings_0").text =
          "SELECT \"T_bookings_0\".\"id\" AS \"id\" FROM \"rooms\" AS \"T_bookings_0\"" ++
          " INNER JOIN \"bookings\" AS \"T_bookings_0\"" ++
          " ON \"T_bookings_0\".\"id\" = \"T_bookings_0\".\"room\"" := by
  obtain ⟨s, hs, hask⟩ := exists_asks_bookedRooms "T_bookings_0"
  have htext : (bookedBound "T_bookings_0").text =
      "SELECT \"T_bookings_0\".\"id\" AS \"id\" FROM \"rooms\" AS \"T_bookings_0\"" ++
      " INNER JOIN \"bookings\" AS \"T_bookings_0\"" ++
      " ON \"T_bookings_0\".\"id\" = \"T_bookings_0\".\"room\"" := by
    have hquoted : quoteName "rooms" = "\"rooms\"" ∧ quoteName "bookings" = "\"bookings\"" ∧
        quoteName "T_bookings_0" = "\"T_bookings_0\"" ∧ quoteName "id" = "\"id\"" ∧
        quoteName "room" = "\"room\"" := by
      refine ⟨?_, ?_, ?_, ?_, ?_⟩ <;> cbv
    have hrooms : rooms.name = "rooms" := rfl
    have hbookings : bookings.name = "bookings" := rfl
    have habsent : Component.absent.isAbsent = true := (Component.isAbsent_iff _).2 rfl
    have hjoin : (Component.tableSource (.table bookings) (some "T_bookings_0")).kind ≠ .join := by
      rw [ne_eq, Component.kind_eq_join]
      rintro ⟨l, r, type, on, h⟩
      cases h
    simp [bookedBound, bookedQuery, bookingsFrom, Component.text, Component.texts, Component.clause,
      Component.withAlias, Component.qualified, Sql.commaSeparated, hquoted, habsent, hrooms, hbookings,
      hjoin, CompareOp.text, JoinType.text]
  exact ⟨toQuery_bookedRooms _, List.nodup_singleton _, s, hs, hask, rfl, htext⟩

end Rooms

end Candidates

end QuerySearch
