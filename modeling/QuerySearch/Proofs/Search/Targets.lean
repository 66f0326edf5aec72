import QuerySearch.Proofs.Binding.Scoping
import QuerySearch.Proofs.Projection.Choices
import QuerySearch.Proofs.Resolve.Tables
import QuerySearch.Proofs.Search.Lists
import QuerySearch.Proofs.Search.Names

/-! What candidates put out.  Every candidate has the outputs of the statement, in order and under their
names, but their columns may be read from other tables of the query. -/

namespace QuerySearch

namespace Component

def PutsOut (item : Component) (output : Component × String) : Prop :=
  ∃ inner, item = .named inner output.2 ∧ inner.leadingKey = some output.1.fingerprint

/-- A query with just these outputs, in order. -/
def Presents (chains : List Component) (names : List String) : Component → Prop
  | .query (.select items) .. => items.length = names.length ∧ chains.length = names.length ∧
    List.Forall₂ PutsOut items (chains.zip names)
  | _ => False

section Outputs

variable {query form bound : Component} {chains items items' forms : List Component}
  {outputs : List (Component × String)} {names : List String} {env outs outs' : Environment}
  {s t : NameSupply}

theorem outputItem_putsOut {chain item : Component} {name : String}
    (h : outputItem items chain name = .ok item) : PutsOut item (chain, name) := by
  obtain ⟨c, ⟨_, hkey⟩, rfl⟩ := outputItem_ok h
  refine ⟨c.withoutName, rfl, ?_⟩
  rw [← hkey, leadingKey, leadingKey, ← providedKeys_withoutName c name, providedKeys.eq_def (.named ..)]

theorem projections_presents (h : query.projections chains names = .ok forms) :
    ∀ form ∈ forms, form.Presents chains names := by
  intro form hform
  have hlength := length_eq_of_projections h
  obtain ⟨narrowed, _, hforms⟩ := projections_ok h
  obtain ⟨q, _, harrange⟩ := hforms form hform
  rw [arrange.eq_def] at harrange
  split at harrange
  · obtain ⟨items, hitems, harrange⟩ := ok_of_bind harrange
    cases harrange
    have houtputs := (forall₂_of_mapM hitems).imp fun _ _ => outputItem_putsOut
    refine ⟨?_, hlength, houtputs.flip⟩
    rw [← houtputs.length_eq, List.length_zip, hlength, Nat.min_self]
  · cases harrange
  · cases harrange

theorem bindItems_putsOut (h : Gives (bindItems env outs items) s (items', outs') t)
    (hitems : List.Forall₂ PutsOut items outputs) : List.Forall₂ PutsOut items' outputs := by
  induction hitems generalizing items' outs s with
  | nil =>
    obtain ⟨rfl, _⟩ := gives_bindItems_nil h
    exact .nil
  | @cons item output items outputs hitem _ ih =>
    obtain ⟨inner, rfl, hkey⟩ := hitem
    obtain ⟨item', asName, u, rest, hbinds, hrest, rfl⟩ := gives_bindItems_cons h
    refine .cons ?_ (ih hrest)
    cases hbinds with
    | named hinner => exact ⟨_, rfl, (leadingKey_congr (bound_provided _ _ hinner)).trans hkey⟩
    | unnamed hnamed => exact (hnamed _ _ rfl).elim

theorem bindNames_presents (h : (form.bindNames s).1 = .ok bound) (hform : form.Presents chains names) :
    bound.Presents chains names := by
  obtain ⟨outputs, hquery⟩ := gives_of_bindNames (t := (form.bindNames s).2) (Prod.ext h rfl)
  cases form with
  | query sel source filter groupBy having orderBy isDistinct =>
    obtain ⟨given, source', env, u, filter', groupBy', having', items, orderBy', rfl, _, _, _, _, hitems, _,
      rfl⟩ := gives_query hquery
    obtain ⟨hlength, hchains, hgiven⟩ := hform
    have houtputs := bindItems_putsOut hitems hgiven
    refine ⟨?_, hchains, houtputs⟩
    rw [houtputs.length_eq, ← hgiven.length_eq, hlength]
  | _ => exact hform.elim

end Outputs

/-- The same aggregates over columns of the same name, or the same chain. -/
inductive NamedAlike : Component → Component → Prop
  | refl (c) : NamedAlike c c
  | column {t u name type type'} (h : (name, type) ∈ t.columns) :
    NamedAlike (.column t name type) (.column u name type')
  | aggChain {func c d} (h : NamedAlike c d) : NamedAlike (.aggChain func c) (.aggChain func d)

end Component

namespace Component

section Apart

variable {c q : Component} {cs : List Component} {t : Table}

theorem apart_of_nodup (hcs : (cs.map fingerprint).Nodup) (h : ∀ d ∈ c.reach false, d ∈ cs) :
    c.PartsApart ∧ c.TablesApart := by
  have hsame : ∀ d e, d ∈ c.reach false → e ∈ c.reach false → d.fingerprint = e.fingerprint → d = e :=
    fun d e hd he => List.inj_on_of_nodup_map hcs (h d hd) (h e he)
  exact ⟨fun d e hd he _ hkey => congrArg fields (hsame d e hd he hkey),
    fun t u ht hu hkey => table.inj (hsame _ _ ht hu hkey)⟩

theorem SourcesApart.contains_all_table (hq : q.SourcesApart) (ht : t ∈ q.tables) :
    q.all.contains (.table t) = true := by
  have hinside : ∀ c : Component, c ∈ q.reach false → q.all.contains c = true → t ∈ c.tables →
      q.all.contains (.table t) = true := by
    intro c hc hfound ht
    fun_induction tables c with
    | case1 u asName =>
      obtain rfl := List.mem_singleton.1 ht
      exact hq.contains_all_child hc trivial hfound (.head _)
    | case2 q' asName ih =>
      exact ih (child_mem_reach hc (.head _)) (hq.contains_all_child hc trivial hfound (.head _)) ht
    | case3 l r type on ihl ihr =>
      obtain ht | ht := List.mem_append.1 ht
      · exact ihl (child_mem_reach hc (.head _)) (hq.contains_all_child hc trivial hfound (.head _)) ht
      · exact ihr (child_mem_reach hc (.tail _ (.head _)))
          (hq.contains_all_child hc trivial hfound (.tail _ (.head _))) ht
    | case4 sel source filter groupBy having orderBy isDistinct ih =>
      exact ih (child_mem_reach hc (.tail _ (.head _)))
        (hq.contains_all_child hc trivial hfound (.tail _ (.head _))) ht
    | case5 => cases ht
  exact hinside q (mem_reach_self q) (contains_all_of_mem (self_mem_all q)) ht

end Apart

end Component

open Component (NamedAlike SourcesApart TablesApart)

namespace Variation

variable {b : Bank} {e : Estimator} {c d : Component} {name : String}

theorem kind_of_mem_free {kind : Kind} (hb : b.Orderly) (h : c ∈ free b e kind) : c.kind = kind := by
  obtain ⟨⟨k, hk, hc⟩, _⟩ := Bank.mem_select.1 h
  have hsame : (kind == k) = true := hk
  rw [hb.shelved k c hc, beq_iff_eq.1 hsame]

theorem mem_columnsNamed (hb : b.Orderly) : d ∈ columnsNamed b e name ↔
    ∃ t type, .table t ∈ free b e .table ∧ (name, type) ∈ t.columns ∧ d = .column t name type := by
  rw [columnsNamed, List.mem_filter, List.mem_flatMap]
  constructor
  · rintro ⟨⟨c, hc, hd⟩, hname⟩
    obtain ⟨t, rfl⟩ := (Component.kind_eq_table c).1 (kind_of_mem_free hb hc)
    rw [Component.provided] at hd
    obtain ⟨column, hcolumn, rfl⟩ := List.mem_map.1 hd
    obtain rfl := beq_iff_eq.1 hname
    exact ⟨t, column.2, hc, hcolumn, rfl⟩
  · rintro ⟨t, type, ht, hcolumn, rfl⟩
    refine ⟨⟨_, ht, ?_⟩, beq_iff_eq.2 rfl⟩
    rw [Component.provided]
    exact List.mem_map.2 ⟨_, hcolumn, rfl⟩

theorem namedAlike_sameName (hb : b.Orderly) (h : d ∈ sameName b e c) : NamedAlike d c := by
  fun_induction sameName b e c generalizing d with
  | case1 t name type =>
    obtain ⟨u, type', _, hcolumn, rfl⟩ := (mem_columnsNamed hb).1 h
    exact .column hcolumn
  | case2 func arg ih =>
    obtain ⟨arg', harg, rfl⟩ := List.mem_map.1 h
    exact .aggChain (ih harg)
  | case3 c => exact List.mem_singleton.1 h ▸ .refl _

theorem mem_sameName {ts : List Table} (hb : b.Orderly) (hfree : ∀ t ∈ ts, .table t ∈ free b e .table)
    (h : c.BasedOn ts) : c ∈ sameName b e c := by
  fun_induction sameName b e c with
  | case1 t name type => exact (mem_columnsNamed hb).2 ⟨t, type, hfree t h.1, h.2, rfl⟩
  | case2 func arg ih => exact List.mem_map_of_mem (ih h)
  | case3 c => exact .head _

end Variation

namespace Search

section Tuples

open Variation (sameName choices)

variable {b : Bank} {e : Estimator} {maxArity : Nat} {outputs target : List Component}

def tuplesOf (b : Bank) (e : Estimator) (maxArity : Nat) (outputs : List Component) : List (List Component) :=
  let tuples := if maxArity < outputs.length then [outputs] else choices (outputs.map (sameName b e))
  if tuples.isEmpty then [outputs] else tuples

theorem targetsOf_eq : targetsOf b e maxArity outputs =
    (tuplesOf b e maxArity outputs).filter (· == outputs) ++
      (tuplesOf b e maxArity outputs).filter (· != outputs) := rfl

theorem mem_targetsOf : target ∈ targetsOf b e maxArity outputs ↔ target ∈ tuplesOf b e maxArity outputs := by
  rw [targetsOf_eq, List.mem_append, List.mem_filter, List.mem_filter, ← and_or_left]
  refine and_iff_left ?_
  rw [bne, Bool.not_eq_true']
  exact Bool.eq_false_or_eq_true _

theorem tuplesOf_cases (b : Bank) (e : Estimator) (maxArity : Nat) (outputs : List Component) :
    tuplesOf b e maxArity outputs = [outputs] ∨
    tuplesOf b e maxArity outputs = choices (outputs.map (sameName b e)) ∧
      choices (outputs.map (sameName b e)) ≠ [] := by
  rw [tuplesOf]
  by_cases harity : maxArity < outputs.length
  · rw [if_pos harity]
    exact .inl rfl
  rw [if_neg harity]
  by_cases hnone : (choices (outputs.map (sameName b e))).isEmpty = true
  · exact .inl (if_pos hnone)
  · exact .inr ⟨if_neg hnone, fun h => hnone (List.isEmpty_iff.2 h)⟩

theorem tuplesOf_eq_choices (harity : outputs.length ≤ maxArity)
    (hsome : choices (outputs.map (sameName b e)) ≠ []) :
    tuplesOf b e maxArity outputs = choices (outputs.map (sameName b e)) := by
  rw [tuplesOf, if_neg (Nat.not_lt.2 harity)]
  exact if_neg fun hnil => hsome (List.isEmpty_iff.1 hnil)

theorem tuplesOf_ne_nil (b : Bank) (e : Estimator) (maxArity : Nat) (outputs : List Component) :
    tuplesOf b e maxArity outputs ≠ [] := by
  obtain h | ⟨h, hsome⟩ := tuplesOf_cases b e maxArity outputs
  · exact h ▸ List.cons_ne_nil _ _
  · exact h ▸ hsome

theorem mem_choices {lists : List (List Component)} (h : choices lists ≠ []) :
    target ∈ choices lists ↔ List.Forall₂ (fun d list => d ∈ list) target lists := by
  rw [choices] at h ⊢
  split
  · rename_i hnone
    rw [if_pos hnone] at h
    exact absurd rfl h
  · exact mem_selections

theorem mem_tuplesOf (h : target ∈ tuplesOf b e maxArity outputs) :
    target = outputs ∨ List.Forall₂ (fun d c => d ∈ sameName b e c) target outputs := by
  obtain hone | ⟨hchoices, hsome⟩ := tuplesOf_cases b e maxArity outputs
  · exact .inl (List.mem_singleton.1 (hone ▸ h))
  · exact .inr (List.forall₂_map_right_iff.1 ((mem_choices hsome).1 (hchoices ▸ h)))

theorem outputs_mem_tuplesOf (h : ∀ c ∈ outputs, c ∈ sameName b e c) :
    outputs ∈ tuplesOf b e maxArity outputs := by
  obtain hone | ⟨hchoices, hsome⟩ := tuplesOf_cases b e maxArity outputs
  · exact hone ▸ .head _
  · exact hchoices ▸ (mem_choices hsome).2 (List.forall₂_map_right_iff.2 (List.forall₂_same.2 h))

theorem mem_tuplesOf_of_sameName (harity : outputs.length ≤ maxArity) (hne : outputs ≠ [])
    (h : List.Forall₂ (fun d c => d ∈ sameName b e c) target outputs) :
    target ∈ tuplesOf b e maxArity outputs := by
  have hmem : target ∈ choices (outputs.map (sameName b e)) := by
    rw [choices, if_neg (by simpa using hne), mem_selections, List.forall₂_map_right_iff]
    exact h
  rwa [tuplesOf_eq_choices harity (List.ne_nil_of_mem hmem)]

theorem namedAlike_targetsOf (hb : b.Orderly) (h : target ∈ targetsOf b e maxArity outputs) :
    List.Forall₂ NamedAlike target outputs := by
  obtain rfl | h := mem_tuplesOf (mem_targetsOf.1 h)
  · exact List.forall₂_same.2 fun c _ => .refl c
  · exact h.imp fun d c hd => Variation.namedAlike_sameName hb hd

theorem targetsOf_head (h : outputs ∈ tuplesOf b e maxArity outputs) :
    ∃ first rest, targetsOf b e maxArity outputs = first :: rest ∧ first == outputs := by
  have hrefl : ReflBEq Component := ⟨Component.beq_iff.2 rfl⟩
  have hmem : outputs ∈ (tuplesOf b e maxArity outputs).filter (· == outputs) :=
    List.mem_filter.2 ⟨h, beq_self_eq_true outputs⟩
  obtain ⟨first, rest, hcons⟩ := List.exists_cons_of_ne_nil (List.ne_nil_of_mem hmem)
  have hfirst : first ∈ (tuplesOf b e maxArity outputs).filter (· == outputs) := hcons ▸ .head _
  exact ⟨first, _, by rw [targetsOf_eq, hcons, List.cons_append], (List.mem_filter.1 hfirst).2⟩

end Tuples

section Start

variable {query d : Component} {names : List String} {config : SearchConfig} {t : Table}

theorem exists_table_of_fingerprint (h : d.fingerprint = (Component.table t).fingerprint) :
    ∃ u, d = .table u :=
  (Component.kind_eq_table d).1 ((congrArg Fingerprint.kind h).trans ((Component.kind_eq_table _).2 ⟨t, rfl⟩))

theorem table_mem_reach (h : .table t ∈ (start query names config).bank.toList) :
    .table t ∈ query.reach false := by
  obtain h | ⟨_, _, _, h⟩ | h := mem_start h
  · exact h
  · cases h
  · simp [terminals] at h

theorem exists_table_mem_start (names : List String) (config : SearchConfig) (ht : t ∈ query.tables)
    (hfound : query.all.contains (.table t) = true) :
    ∃ u, .table u ∈ (start query names config).bank.toList ∧ .table u ∈ query.reach false ∧
      (Component.table u).fingerprint = (Component.table t).fingerprint := by
  obtain ⟨c, hc, hkey⟩ := List.mem_map.1 (Component.contains_all_iff.1 hfound)
  obtain ⟨v, rfl⟩ := exists_table_of_fingerprint hkey
  have hcounter : ∀ f, (Component.table v).counter.get f ≤ query.counter.get f := by
    intro f
    have hsame : (Component.table v).counter = (Component.table t).counter := by
      rw [Component.fingerprint_eq, Component.fingerprint_eq (.table t)] at hkey
      simp only [Component.partsFingerprint] at hkey
      simp only [Component.counter, hkey]
    exact hsame ▸ Component.counter_table_le ht f
  obtain ⟨d, hd, hsame⟩ := exists_mem_start hc hcounter
  obtain ⟨u, rfl⟩ := exists_table_of_fingerprint hsame
  exact ⟨u, hd, table_mem_reach hd, hsame.trans hkey⟩

theorem table_mem_start (hsources : query.SourcesApart) (htables : query.TablesApart) (ht : t ∈ query.tables) :
    .table t ∈ (start query names config).bank.toList := by
  obtain ⟨u, hu, hreach, hkey⟩ := exists_table_mem_start names config ht (hsources.contains_all_table ht)
  rwa [← htables u t hreach (Component.mem_reach_of_mem_tables ht) hkey]

theorem table_mem_free (h : .table t ∈ (start query names config).bank.toList) (ht : t ∈ query.tables) :
    .table t ∈ Variation.free (start query names config).bank (start query names config).estimator
      .table := by
  rw [← (Component.kind_eq_table _).2 ⟨t, rfl⟩]
  exact Variation.mem_free_of_model orderly_start h fun f =>
    Nat.le_trans (Component.counter_table_le ht f) (Estimator.get_le_model f)

theorem start_targets : (start query names config).targets =
    targetsOf (start query names config).bank (start query names config).estimator config.maxArity
      query.provided := rfl

theorem start_targets_ne_nil : (start query names config).targets ≠ [] := by
  obtain ⟨target, htarget⟩ := List.exists_mem_of_ne_nil _ (tuplesOf_ne_nil
    (start query names config).bank (start query names config).estimator config.maxArity query.provided)
  rw [start_targets]
  exact List.ne_nil_of_mem (mem_targetsOf.2 htarget)

theorem start_targets_namedAlike {target : List Component} (h : target ∈ (start query names config).targets) :
    List.Forall₂ NamedAlike target query.provided := by
  rw [start_targets] at h
  exact namedAlike_targetsOf orderly_start h

theorem start_targets_head (hbased : ∀ c ∈ query.provided, c.BasedOn query.tables)
    (hsources : query.SourcesApart) (htables : query.TablesApart) :
    ∃ first rest, (start query names config).targets = first :: rest ∧ first == query.provided := by
  rw [start_targets]
  refine targetsOf_head (outputs_mem_tuplesOf fun c hc => ?_)
  exact Variation.mem_sameName orderly_start (fun t ht =>
    table_mem_free (table_mem_start hsources htables ht) ht) (hbased c hc)

end Start

end Search

namespace Candidates

section Runs

variable {schema : Schema} {statement : Sql.Select Sql.Constant} {config : SearchConfig} {query : Component}
  {names : List String}

theorem yields_presents {start : Search} {text : String} (h : start.Yields text) :
    ∃ target ∈ start.targets, ∃ form bound : Component, (form.bindNames .empty).1 = .ok bound ∧
      text = bound.text ∧ bound.Presents target start.names := by
  obtain ⟨s, q, hs, _, htext⟩ := h
  rw [hs.render_eq] at htext
  obtain ⟨target, htarget, forms, form, bound, hforms, hform, hbound, rfl⟩ := Search.mem_render.1 htext
  refine ⟨target, htarget, form, bound, hbound, rfl, ?_⟩
  exact Component.bindNames_presents hbound (Component.projections_presents hforms form hform)

/-- Behind the placeholder, every candidate is a query whose outputs have the names of the statement's and
provide the chains of a target.  There is a target; the first one is what the statement itself puts out,
unless two different tables or sources that it reads are hashed alike; there is no other where the outputs
are too many; and the chains of all are named like the statement's own. -/
theorem asks_presents (config : SearchConfig) (h : (statement.toQuery schema 0).1 = .ok (query, names)) :
    (∀ s c, (ofStatement schema statement config).ask.2.Asks s → s.ask.1 = .item (.ok c) →
      ∃ target ∈ (Search.start query names config).targets, ∃ form bound : Component,
        (form.bindNames .empty).1 = .ok bound ∧ c.text = bound.text ∧ bound.Presents target names) ∧
    (Search.start query names config).targets ≠ [] ∧
    (query.SourcesApart → query.TablesApart → ∃ first rest,
      (Search.start query names config).targets = first :: rest ∧ first == query.provided) ∧
    (config.maxArity < query.provided.length →
      (Search.start query names config).targets = [query.provided]) ∧
    ∀ target ∈ (Search.start query names config).targets,
      List.Forall₂ NamedAlike target query.provided := by
  refine ⟨fun s c hs hc => yields_presents (hs.yields h hc), Search.start_targets_ne_nil,
    Search.start_targets_head (toQuery_basedOn h), Search.targets_start, fun _ =>
      Search.start_targets_namedAlike⟩

def bookedParts : List Component :=
  [bookedQuery roomId (bookingsFrom "r" none roomId bookedRoom), .select [roomId], roomId,
    bookingsFrom "r" none roomId bookedRoom, .joinType .inner, .tableSource (.table rooms) (some "r"),
    .table rooms, .tableSource (.table bookings) none, .table bookings, .comparison roomId .eq bookedRoom,
    .compareOp .eq, bookedRoom, .absent]

theorem apart_bookedRooms : (bookedQuery roomId (bookingsFrom "r" none roomId bookedRoom)).PartsApart ∧
    (bookedQuery roomId (bookingsFrom "r" none roomId bookedRoom)).TablesApart := by
  have hkeys : (bookedParts.map Component.fingerprint).Nodup := by
    simp only [bookedParts, bookedQuery, bookingsFrom, roomId, bookedRoom, List.map_cons, List.map_nil,
      Component.fingerprint, Component.keys, Keys.same]
    decide +kernel
  refine Component.apart_of_nodup hkeys ?_
  simp [bookedParts, bookedQuery, bookingsFrom, roomId, bookedRoom, Component.reach, Component.reachAll,
    Component.chainForm]

theorem asks_presents_bookedRooms :
    ((bookedRooms "r").toQuery roomTables 0).1 =
        .ok (bookedQuery roomId (bookingsFrom "r" none roomId bookedRoom), ["id"]) ∧
      (∃ s, (ofStatement roomTables (bookedRooms "r") plainSearch).ask.2.Asks s ∧
        s.ask.1 = .item (.ok ⟨(bookedBound "r").text, 0⟩) ∧
        ∃ target ∈ (Search.start (bookedQuery roomId (bookingsFrom "r" none roomId bookedRoom)) ["id"]
            plainSearch).targets, ∃ form bound : Component, (form.bindNames .empty).1 = .ok bound ∧
          (bookedBound "r").text = bound.text ∧ bound.Presents target ["id"]) ∧
      (bookedQuery roomId (bookingsFrom "r" none roomId bookedRoom)).SourcesApart ∧
      (bookedQuery roomId (bookingsFrom "r" none roomId bookedRoom)).TablesApart ∧
      (Search.start (bookedQuery roomId (bookingsFrom "r" none roomId bookedRoom)) ["id"]
        plainSearch).targets = [[roomId]] := by
  obtain ⟨hparts, htables⟩ := apart_bookedRooms
  obtain ⟨hitems, _, _, hone, _⟩ := asks_presents plainSearch (toQuery_bookedRooms "r")
  obtain ⟨s, hs, hask⟩ := exists_asks_bookedRooms "r"
  exact ⟨toQuery_bookedRooms "r", ⟨s, hs, hask, hitems s _ hs hask⟩, hparts.mono fun _ _ => trivial, htables,
    hone (Nat.zero_lt_succ 0)⟩

end Runs

end Candidates

namespace Search

section Twins

open Sql (Constant)
open Variation (sameName choices columnsNamed)

def henaxje : Table := ⟨"henaxje", [("a", .number)], 0⟩

def btdutkw : Table := ⟨"btdutkw", [("a", .number)], 1⟩

def twinTables : Schema := .ofDefs [⟨"henaxje", [⟨"a", "int"⟩]⟩, ⟨"btdutkw", [⟨"a", "int"⟩]⟩]

def henaxjeA : Component := .column henaxje "a" .number

def btdutkwA : Component := .column btdutkw "a" .number

/-- `SELECT henaxje.a AS x, btdutkw.a AS y FROM henaxje JOIN btdutkw ON henaxje.a = btdutkw.a` -/
def twinPairs : Sql.Select Constant where
  distinct := false
  items :=
    [.expr (.column ⟨some "henaxje", "a"⟩) (some "x"), .expr (.column ⟨some "btdutkw", "a"⟩) (some "y")]
  sources := [.join (.table "henaxje" none) (.table "btdutkw" none) .inner
    (some (.compare (.column ⟨some "henaxje", "a"⟩) .eq (.column ⟨some "btdutkw", "a"⟩)))]
  filter := none
  groupBy := []
  having := none
  orderBy := []

def twinSource : Component :=
  .join (.tableSource (.table henaxje) none) (.tableSource (.table btdutkw) none) .inner
    (.comparison henaxjeA .eq btdutkwA)

def twinScope : Scope := [⟨"henaxje", "a", henaxjeA⟩, ⟨"btdutkw", "a", btdutkwA⟩]

def twinQuery : Component :=
  .query (.select [henaxjeA, btdutkwA]) twinSource .absent .absent .absent .absent false

theorem toQuery_twinPairs : (twinPairs.toQuery twinTables 0).1 = .ok (twinQuery, ["x", "y"]) := by
  have hsource : Gives (Sql.TableRef.resolveOnly twinTables twinPairs.sources) 0
      (twinSource, twinScope) 2 := by cbv
  have hleft : twinScope.lookup ⟨some "henaxje", "a"⟩ = .ok henaxjeA := by cbv
  have hright : twinScope.lookup ⟨some "btdutkw", "a"⟩ = .ok btdutkwA := by cbv
  have houtputs : outputs twinScope twinPairs.items [henaxjeA, btdutkwA] =
      .ok [⟨"henaxje", "x", henaxjeA⟩, ⟨"btdutkw", "y", btdutkwA⟩] := by rfl
  have hquery : queryOver twinSource twinScope twinPairs =
      .ok (twinQuery, [⟨"henaxje", "x", henaxjeA⟩, ⟨"btdutkw", "y", btdutkwA⟩]) := by
    have hitems : twinPairs.items.mapM (selectItemValue twinScope) = .ok [henaxjeA, btdutkwA] := by
      simp [twinPairs, selectItemValue, Sql.Expr.value, hleft, hright, bind, Except.bind, pure, Except.pure]
    rw [queryOver, hitems]
    simp only [bind, Except.bind, houtputs]
    rfl
  exact toQuery_of_gives hsource hquery

theorem fingerprint_henaxje :
    (Component.table henaxje).fingerprint = (Component.table btdutkw).fingerprint := by
  rw [Component.fingerprint_eq, Component.fingerprint_eq (.table btdutkw)]
  decide +kernel

theorem table_twinQuery {t : Table} (h : .table t ∈ twinQuery.reach false) : t = henaxje ∨ t = btdutkw := by
  revert h
  simp [twinQuery, twinSource, henaxjeA, btdutkwA, Component.reach, Component.reachAll, Component.chainForm]

theorem fingerprint_of_twin {t : Table} (h : .table t ∈ twinQuery.reach false) :
    (Component.table t).fingerprint = (Component.table btdutkw).fingerprint := by
  obtain rfl | rfl := table_twinQuery h
  · exact fingerprint_henaxje
  · rfl

theorem contains_all_henaxje : twinQuery.all.contains (.table henaxje) = true := by
  have hkinds : ∀ c ∈ twinQuery.reach false, (c.kind = .join → c = twinSource) ∧
      (c.kind = .tableSource →
        c = .tableSource (.table henaxje) none ∨ c = .tableSource (.table btdutkw) none) := by
    simp only [Component.kind_eq_iff]
    simp [twinQuery, twinSource, henaxjeA, btdutkwA, Component.reach, Component.reachAll, Component.chainForm,
      Kind.rank, Component.ctorIdx, Kind.ctorIdx]
  obtain ⟨source, hsource, hkey⟩ := Component.exists_mem_all_of_constituent (e := twinSource)
    (Component.self_mem_all twinQuery) (by simp [twinQuery, Component.constituents, Component.children])
  obtain rfl := (hkinds source (Component.mem_reach_of_mem_all hsource)).1
    ((congrArg Fingerprint.kind hkey).trans ((Component.kind_eq_iff twinSource _).2 rfl))
  obtain ⟨left, hleft, hkey⟩ := Component.exists_mem_all_of_constituent hsource
    (e := .tableSource (.table henaxje) none) (by simp [twinSource, Component.constituents, Component.children])
  have hkind : left.kind = .tableSource :=
    (congrArg Fingerprint.kind hkey).trans ((Component.kind_eq_iff (.tableSource _ _) _).2 rfl)
  have hread {t : Table} (h : .tableSource (.table t) none ∈ twinQuery.all) :
      twinQuery.all.contains (.table t) = true :=
    Component.contains_all_of_constituent h (by simp [Component.constituents, Component.children])
  obtain rfl | rfl := (hkinds left (Component.mem_reach_of_mem_all hleft)).2 hkind
  · exact hread hleft
  · have hbtdutkw := Component.contains_all_iff.1 (hread hleft)
    exact Component.contains_all_iff.2 (fingerprint_henaxje ▸ hbtdutkw)

theorem exists_free_twin : ∃ t, .table t ∈ Variation.free (start twinQuery ["x", "y"] {}).bank
    (start twinQuery ["x", "y"] {}).estimator .table ∧ ("a", .number) ∈ t.columns := by
  have hhenaxje : henaxje ∈ twinQuery.tables := .head _
  obtain ⟨t, ht, hreach, _⟩ := exists_table_mem_start ["x", "y"] {} hhenaxje contains_all_henaxje
  have hread : t ∈ twinQuery.tables := by
    obtain rfl | rfl := table_twinQuery hreach
    · exact .head _
    · exact .tail _ (.head _)
  refine ⟨t, table_mem_free ht hread, ?_⟩
  obtain rfl | rfl := table_twinQuery hreach <;> exact .head _

/-- Tables with one fingerprint are not told apart: the search knows one of the two, and the outputs of
the statement are not among what it asks for. -/
theorem targets_twinPairs : (twinPairs.toQuery twinTables 0).1 = .ok (twinQuery, ["x", "y"]) ∧
    ∀ target ∈ (start twinQuery ["x", "y"] {}).targets, ¬ (target == twinQuery.provided) = true := by
  refine ⟨toQuery_twinPairs, fun target htarget hgiven => ?_⟩
  have hprovided : twinQuery.provided = [henaxjeA, btdutkwA] := by
    simp [twinQuery, henaxjeA, btdutkwA, Component.provided, Component.providedByAll]
  have hne : henaxjeA.fingerprint ≠ btdutkwA.fingerprint := by
    simp only [henaxjeA, btdutkwA, Component.fingerprint_column]
    decide +kernel
  -- The search knows one of the tables only, so both outputs of a target are columns of that one.
  have hone : ∀ t u, .table t ∈ (start twinQuery ["x", "y"] {}).bank.toList →
      .table u ∈ (start twinQuery ["x", "y"] {}).bank.toList → t = u := by
    intro t u ht hu
    have htwin := fingerprint_of_twin (table_mem_reach ht)
    have hutwin := fingerprint_of_twin (table_mem_reach hu)
    exact Component.table.inj (orderly_start.eq_of_fingerprint ht hu (htwin.trans hutwin.symm))
  have hknown : choices ([henaxjeA, btdutkwA].map (sameName (start twinQuery ["x", "y"] {}).bank
      (start twinQuery ["x", "y"] {}).estimator)) ≠ [] := by
    obtain ⟨t, ht, hcolumn⟩ := exists_free_twin
    have hmem : .column t "a" .number ∈ columnsNamed (start twinQuery ["x", "y"] {}).bank
        (start twinQuery ["x", "y"] {}).estimator "a" :=
      (Variation.mem_columnsNamed orderly_start).2 ⟨t, .number, ht, hcolumn, rfl⟩
    exact List.ne_nil_of_mem (mem_selections.2 (.cons hmem (.cons hmem .nil)))
  rw [start_targets, mem_targetsOf, hprovided, tuplesOf_eq_choices (by decide) hknown, mem_choices hknown,
    List.forall₂_map_right_iff] at htarget
  obtain _ | ⟨hx, _ | ⟨hy, ⟨⟩⟩⟩ := htarget
  obtain ⟨t, type, ht, _, rfl⟩ := (Variation.mem_columnsNamed orderly_start).1 hx
  obtain ⟨u, type', hu, _, rfl⟩ := (Variation.mem_columnsNamed orderly_start).1 hy
  obtain rfl := hone t u (Variation.mem_free ht) (Variation.mem_free hu)
  rw [hprovided] at hgiven
  simp at hgiven
  exact hne (hgiven.1.symm.trans hgiven.2)

end Twins

end Search

end QuerySearch
