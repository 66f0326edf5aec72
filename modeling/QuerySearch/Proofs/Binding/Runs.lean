import QuerySearch.Binding.Query
import QuerySearch.Proofs.Outcomes

/-! Runs of the binding of names that succeed: what each step of them did. -/

namespace QuerySearch.Component

theorem locate_of_places {c : Component} {env : Environment} {envs : List Environment} {p : Place}
    (h : env.places c = [p]) : locate c (env :: envs) = .ok (.boundColumn p.source p.column c) := by
  rw [locate, h]

theorem locate_of_no_places {c : Component} {env : Environment} {envs : List Environment}
    (h : env.places c = []) : locate c (env :: envs) = locate c envs := by
  rw [locate, h]

section Items

variable {source outputs outputs' : Environment} {item item' : Component} {asName : String}
  {s t u : NameSupply}

def withOutput (outputs : Environment) (item : Component) (asName : String) : Environment :=
  match item.provided with
  | chain :: _ => if outputs.contains chain then outputs else outputs.bind chain ⟨"", asName⟩
  | [] => outputs

theorem bindItem_named (source outputs : Environment) (i : Component) (n : String) :
    bindItem source outputs (.named i n) = (do
      let inner ← liftM (i.bound [source])
      pure (.named inner n, withOutput outputs (.named i n) n) : Component.Bind _) := rfl

theorem bindItem_unnamed (source outputs : Environment) (h : ∀ i n, item ≠ .named i n) :
    bindItem source outputs item = (do
      let inner ← liftM (item.bound [source])
      let asName ← freshName (NameSupply.columnName item.nameHint)
      pure (.named inner asName, withOutput outputs item asName) : Component.Bind _) := by
  cases item with
  | named i n => exact absurd rfl (h i n)
  | _ => rfl

inductive BindsItem (source : Environment) : Component → NameSupply → Component → String →
    NameSupply → Prop
  | named {i inner asName s} (h : i.bound [source] = .ok inner) :
    BindsItem source (.named i asName) s (.named inner asName) asName s
  | unnamed {item inner asName s t} (hitem : ∀ i n, item ≠ .named i n)
    (h : item.bound [source] = .ok inner) (hname : NameSupply.columnName item.nameHint s = (asName, t)) :
    BindsItem source item s (.named inner asName) asName t

theorem gives_bindItem (h : Gives (bindItem source outputs item) s (item', outputs') t) :
    ∃ asName, BindsItem source item s item' asName t ∧ outputs' = withOutput outputs item asName := by
  by_cases hnamed : ∃ i n, item = .named i n
  · obtain ⟨i, n, rfl⟩ := hnamed
    rw [bindItem_named] at h
    obtain ⟨inner, u, hinner, h⟩ := gives_bind.1 h
    obtain ⟨hpair, rfl⟩ := gives_pure.1 h
    obtain ⟨hbound, rfl⟩ := gives_liftM.1 hinner
    cases hpair
    exact ⟨n, .named hbound, rfl⟩
  · have hnamed : ∀ i n, item ≠ .named i n := fun i n heq => hnamed ⟨i, n, heq⟩
    rw [bindItem_unnamed source outputs hnamed] at h
    obtain ⟨inner, u, hinner, h⟩ := gives_bind.1 h
    obtain ⟨asName, v, hname, h⟩ := gives_bind.1 h
    obtain ⟨hpair, rfl⟩ := gives_pure.1 h
    obtain ⟨hbound, rfl⟩ := gives_liftM.1 hinner
    cases hpair
    exact ⟨asName, .unnamed hnamed hbound (gives_modifyGet.1 hname), rfl⟩

theorem BindsItem.gives (h : BindsItem source item s item' asName t) :
    Gives (bindItem source outputs item) s (item', withOutput outputs item asName) t := by
  cases h with
  | named h =>
    rw [bindItem_named]
    exact gives_bind.2 ⟨_, _, gives_liftM.2 ⟨h, rfl⟩, rfl⟩
  | unnamed hitem h hname =>
    rw [bindItem_unnamed _ _ hitem]
    exact gives_bind.2 ⟨_, _, gives_liftM.2 ⟨h, rfl⟩, gives_bind.2 ⟨_, _, gives_modifyGet.2 hname, rfl⟩⟩

theorem BindsItem.cons {items items' : List Component} (h : BindsItem source item s item' asName t)
    (hitems : Gives (bindItems source (withOutput outputs item asName) items) t (items', outputs') u) :
    Gives (bindItems source outputs (item :: items)) s (item' :: items', outputs') u := by
  rw [bindItems]
  exact gives_bind.2 ⟨_, _, h.gives, gives_bind.2 ⟨_, _, hitems, rfl⟩⟩

theorem gives_bindItems_nil {items' : List Component}
    (h : Gives (bindItems source outputs []) s (items', outputs') t) :
    items' = [] ∧ outputs' = outputs ∧ s = t := by
  obtain ⟨hpair, rfl⟩ := gives_pure.1 h
  cases hpair
  exact ⟨rfl, rfl, rfl⟩

theorem gives_bindItems_cons {items items' : List Component}
    (h : Gives (bindItems source outputs (item :: items)) s (items', outputs') t) :
    ∃ item' asName u rest, BindsItem source item s item' asName u ∧
      Gives (bindItems source (withOutput outputs item asName) items) u (rest, outputs') t ∧
      items' = item' :: rest := by
  rw [bindItems] at h
  obtain ⟨⟨item', outputs₁⟩, u, hitem, h⟩ := gives_bind.1 h
  obtain ⟨⟨rest, outputs₂⟩, v, hrest, h⟩ := gives_bind.1 h
  obtain ⟨hpair, rfl⟩ := gives_pure.1 h
  obtain ⟨asName, hbinds, rfl⟩ := gives_bindItem hitem
  cases hpair
  exact ⟨item', asName, u, rest, hbinds, hrest, rfl⟩

end Items

section Sources

variable {env : Environment} {s t : NameSupply} {c source' query' : Component}

def sourceName (hint : String) : Option String → Component.Bind String
  | some a => pure a
  | none => freshName (NameSupply.tableName hint)

theorem gives_sourceName {hint a : String} {asName : Option String}
    (h : Gives (sourceName hint asName) s a t) :
    (asName = some a ∧ s = t) ∨ (asName = none ∧ NameSupply.tableName hint s = (a, t)) := by
  cases asName with
  | some a' =>
    obtain ⟨rfl, rfl⟩ := gives_pure.1 h
    exact .inl ⟨rfl, rfl⟩
  | none => exact .inr ⟨rfl, gives_modifyGet.1 h⟩

theorem gives_tableSource {table : Component} {asName : Option String}
    (h : Gives (bindSource (.tableSource table asName)) s (source', env) t) :
    ∃ a, Gives (sourceName table.tableHint asName) s a t ∧ source' = .tableSource table (some a) ∧
      env = tableEnvironment table a := by
  have h : Gives (do
      let a ← sourceName table.tableHint asName
      pure (.tableSource table (some a), tableEnvironment table a)) s (source', env) t := by
    cases asName <;> exact h
  obtain ⟨a, u, ha, h⟩ := gives_bind.1 h
  obtain ⟨hpair, rfl⟩ := gives_pure.1 h
  cases hpair
  exact ⟨a, ha, rfl, rfl⟩

theorem gives_querySource {q : Component} {asName : Option String}
    (h : Gives (bindSource (.querySource q asName)) s (source', env) t) :
    ∃ inner outputs u a, Gives q.bindQuery s (inner, outputs) u ∧ Gives (sourceName "cte" asName) u a t ∧
      source' = .querySource inner (some a) ∧ env = outputs.through a := by
  have h : Gives (do
      let r ← q.bindQuery
      let a ← sourceName "cte" asName
      pure (.querySource r.1 (some a), r.2.through a)) s (source', env) t := by
    cases asName <;> exact h
  obtain ⟨⟨inner, outputs⟩, u, hq, h⟩ := gives_bind.1 h
  obtain ⟨a, v, ha, h⟩ := gives_bind.1 h
  obtain ⟨hpair, rfl⟩ := gives_pure.1 h
  cases hpair
  exact ⟨inner, outputs, u, a, hq, ha, rfl, rfl⟩

theorem gives_join {l r on : Component} {type : JoinType}
    (h : Gives (bindSource (.join l r type on)) s (source', env) t) :
    ∃ l' leftEnv u r' rightEnv on', Gives l.bindSource s (l', leftEnv) u ∧
      Gives r.bindSource u (r', rightEnv) t ∧ on.bound [leftEnv.merge rightEnv] = .ok on' ∧
      source' = .join l' r' type on' ∧ env = leftEnv.merge rightEnv := by
  rw [bindSource] at h
  obtain ⟨⟨l', leftEnv⟩, u, hl, h⟩ := gives_bind.1 h
  obtain ⟨⟨r', rightEnv⟩, v, hr, h⟩ := gives_bind.1 h
  obtain ⟨on', w, hlift, h⟩ := gives_bind.1 h
  obtain ⟨hpair, rfl⟩ := gives_pure.1 h
  obtain ⟨hon, rfl⟩ := gives_liftM.1 hlift
  cases hpair
  exact ⟨l', leftEnv, u, r', rightEnv, on', hl, hr, hon, rfl, rfl⟩

theorem gives_bindSource_join {l l' r r' on on' : Component} {type : JoinType} {leftEnv rightEnv : Environment}
    {u : NameSupply} (hl : Gives l.bindSource s (l', leftEnv) u) (hr : Gives r.bindSource u (r', rightEnv) t)
    (hon : on.bound [leftEnv.merge rightEnv] = .ok on') :
    Gives (bindSource (.join l r type on)) s (.join l' r' type on', leftEnv.merge rightEnv) t := by
  rw [bindSource]
  exact gives_bind.2 ⟨_, _, hl, gives_bind.2 ⟨_, _, hr, gives_bind.2 ⟨_, _, gives_liftM.2 ⟨hon, rfl⟩, rfl⟩⟩⟩

/-- Two sources of one chain each, compared by these chains. -/
theorem gives_joined_pair (p q : Place) {left left' right right' l r : Component} {type : JoinType} {op : CompareOp}
    {u : NameSupply} (henv : env = ⟨[(l.fingerprint, p), (r.fingerprint, q)]⟩) (hne : l.fingerprint ≠ r.fingerprint)
    (hl : ∀ envs, l.bound envs = locate l envs) (hr : ∀ envs, r.bound envs = locate r envs)
    (hleft : Gives left.bindSource s (left', ⟨[(l.fingerprint, p)]⟩) u)
    (hright : Gives right.bindSource u (right', ⟨[(r.fingerprint, q)]⟩) t) :
    Gives (bindSource (.join left right type (.comparison l op r))) s
        (.join left' right' type
          (.comparison (.boundColumn p.source p.column l) op (.boundColumn q.source q.column r)), env) t ∧
      l.bound [env] = .ok (.boundColumn p.source p.column l) ∧
      r.bound [env] = .ok (.boundColumn q.source q.column r) := by
  have hmerge : Environment.merge ⟨[(l.fingerprint, p)]⟩ ⟨[(r.fingerprint, q)]⟩ = env := by
    rw [henv]
    simp [Environment.merge, hne.symm]
  have hleftBound : l.bound [env] = .ok (.boundColumn p.source p.column l) :=
    (hl _).trans (locate_of_places (by simp [henv, Environment.places, hne.symm]))
  have hrightBound : r.bound [env] = .ok (.boundColumn q.source q.column r) :=
    (hr _).trans (locate_of_places (by simp [henv, Environment.places, hne]))
  refine ⟨?_, hleftBound, hrightBound⟩
  rw [← hmerge] at hleftBound hrightBound ⊢
  refine gives_bindSource_join hleft hright ?_
  rw [bound, hleftBound, hrightBound]
  rfl

theorem not_gives_source (htable : ∀ t a, c ≠ .tableSource t a) (hquery : ∀ q a, c ≠ .querySource q a)
    (hjoin : ∀ l r type on, c ≠ .join l r type on) : ¬ Gives c.bindSource s (source', env) t := by
  rw [bindSource]
  · exact gives_throw
  · exact htable
  · exact hquery
  · exact hjoin

def groups (groupBy : Component) (given : List Component) : Bool :=
  !groupBy.isAbsent || given.any isAggregate

theorem gives_query {sel source filter groupBy having orderBy : Component} {isDistinct : Bool}
    {outputs : Environment}
    (h : Gives (bindQuery (.query sel source filter groupBy having orderBy isDistinct)) s
      (query', outputs) t) :
    ∃ given source' env u filter' groupBy' having' items orderBy', sel = .select given ∧
      Gives source.bindSource s (source', env) u ∧ filter.bound [env] = .ok filter' ∧
      groupBy.bound [env] = .ok groupBy' ∧ having.bound [env] = .ok having' ∧
      Gives (bindItems env .empty given) u (items, outputs) t ∧
      orderBy.boundKeys outputs env (groups groupBy given) = .ok orderBy' ∧
      query' = .query (.select items) source' filter' groupBy' having' orderBy' isDistinct := by
  rw [bindQuery] at h
  obtain ⟨⟨source', env⟩, u, hsource, h⟩ := gives_bind.1 h
  obtain ⟨filter', u₁, hlift₁, h⟩ := gives_bind.1 h
  obtain ⟨groupBy', u₂, hlift₂, h⟩ := gives_bind.1 h
  obtain ⟨having', u₃, hlift₃, h⟩ := gives_bind.1 h
  obtain ⟨hfilter, rfl⟩ := gives_liftM.1 hlift₁
  obtain ⟨hgroup, rfl⟩ := gives_liftM.1 hlift₂
  obtain ⟨hhaving, rfl⟩ := gives_liftM.1 hlift₃
  cases sel with
  | select given =>
    obtain ⟨⟨items, outputs'⟩, u₄, hitems, h⟩ := gives_bind.1 h
    obtain ⟨orderBy', u₅, hlift₄, h⟩ := gives_bind.1 h
    obtain ⟨hpair, rfl⟩ := gives_pure.1 h
    obtain ⟨horder, rfl⟩ := gives_liftM.1 hlift₄
    cases hpair
    exact ⟨given, source', env, _, filter', groupBy', having', items, orderBy', rfl, hsource, hfilter,
      hgroup, hhaving, hitems, horder, rfl⟩
  | _ => exact absurd h gives_throw

theorem gives_bindQuery {source filter filter' groupBy groupBy' having having' orderBy orderBy' : Component}
    {given items : List Component} {isDistinct : Bool} {outputs : Environment} {u : NameSupply}
    (hsource : Gives source.bindSource s (source', env) u) (hfilter : filter.bound [env] = .ok filter')
    (hgroup : groupBy.bound [env] = .ok groupBy') (hhaving : having.bound [env] = .ok having')
    (hitems : Gives (bindItems env .empty given) u (items, outputs) t)
    (horder : orderBy.boundKeys outputs env (groups groupBy given) = .ok orderBy') :
    Gives (bindQuery (.query (.select given) source filter groupBy having orderBy isDistinct)) s
      (.query (.select items) source' filter' groupBy' having' orderBy' isDistinct, outputs) t := by
  rw [bindQuery]
  refine gives_bind.2 ⟨_, _, hsource, gives_bind.2 ⟨_, _, gives_liftM.2 ⟨hfilter, rfl⟩, ?_⟩⟩
  refine gives_bind.2 ⟨_, _, gives_liftM.2 ⟨hgroup, rfl⟩, gives_bind.2 ⟨_, _, gives_liftM.2 ⟨hhaving, rfl⟩, ?_⟩⟩
  exact gives_bind.2 ⟨_, _, hitems, gives_bind.2 ⟨_, _, gives_liftM.2 ⟨horder, rfl⟩, rfl⟩⟩

theorem not_gives_query (hquery : ∀ sel source filter groupBy having orderBy isDistinct,
    c ≠ .query sel source filter groupBy having orderBy isDistinct) :
    ¬ Gives c.bindQuery s (query', env) t := by
  rw [bindQuery]
  · exact gives_throw
  · exact hquery

theorem bind_induct {S Q : Component → NameSupply → Component → Environment → NameSupply → Prop}
    (table : ∀ table asName s a t, Gives (sourceName table.tableHint asName) s a t →
      S (.tableSource table asName) s (.tableSource table (some a)) (tableEnvironment table a) t)
    (subquery : ∀ q asName s inner outputs u a t, Q q s inner outputs u →
      Gives (sourceName "cte" asName) u a t →
      S (.querySource q asName) s (.querySource inner (some a)) (outputs.through a) t)
    (join : ∀ l r type on s l' leftEnv u r' rightEnv t on', S l s l' leftEnv u → S r u r' rightEnv t →
      on.bound [leftEnv.merge rightEnv] = .ok on' →
      S (.join l r type on) s (.join l' r' type on') (leftEnv.merge rightEnv) t)
    (query : ∀ given source filter groupBy having orderBy isDistinct s source' env u filter' groupBy'
      having' items outputs t orderBy', S source s source' env u → filter.bound [env] = .ok filter' →
      groupBy.bound [env] = .ok groupBy' → having.bound [env] = .ok having' →
      Gives (bindItems env .empty given) u (items, outputs) t →
      orderBy.boundKeys outputs env (groups groupBy given) = .ok orderBy' →
      Q (.query (.select given) source filter groupBy having orderBy isDistinct) s
        (.query (.select items) source' filter' groupBy' having' orderBy' isDistinct) outputs t) :
    (∀ c s c' env t, Gives (bindSource c) s (c', env) t → S c s c' env t) ∧
      ∀ c s c' outputs t, Gives (bindQuery c) s (c', outputs) t → Q c s c' outputs t := by
  have htable (t : Component) (asName : Option String) :
      ∀ s c' env t', Gives (bindSource (.tableSource t asName)) s (c', env) t' →
        S (.tableSource t asName) s c' env t' := by
    intro s c' env t' h
    obtain ⟨a, ha, rfl, rfl⟩ := gives_tableSource h
    exact table t asName s a t' ha
  apply bindSource.mutual_induct
  case case1 => exact fun t a => htable t (some a)
  case case2 => exact fun t => htable t none
  case case3 =>
    intro q asName ih s c' env t h
    obtain ⟨inner, outputs, u, a, hq, ha, rfl, rfl⟩ := gives_querySource h
    exact subquery q asName s inner outputs u a t (ih s inner outputs u hq) ha
  case case4 =>
    intro l r type on ihl ihr s c' env t h
    obtain ⟨l', leftEnv, u, r', rightEnv, on', hl, hr, hon, rfl, rfl⟩ := gives_join h
    exact join l r type on s l' leftEnv u r' rightEnv t on' (ihl s l' leftEnv u hl)
      (ihr u r' rightEnv t hr) hon
  case case5 =>
    intro c htable hquery hjoin s c' env t h
    exact absurd h (not_gives_source htable hquery hjoin)
  case case6 =>
    intro sel source filter groupBy having orderBy isDistinct ih s c' outputs t h
    obtain ⟨given, source', env, u, filter', groupBy', having', items, orderBy', rfl, hsource, hfilter,
      hgroup, hhaving, hitems, horder, rfl⟩ := gives_query h
    exact query given source filter groupBy having orderBy isDistinct s source' env u filter' groupBy' having'
      items outputs t orderBy' (ih s source' env u hsource) hfilter hgroup hhaving hitems horder
  case case7 =>
    intro c hquery s c' outputs t h
    exact absurd h (not_gives_query hquery)

theorem bindNames_of_gives {outputs : Environment} (h : Gives c.bindQuery s (query', outputs) t) :
    c.bindNames s = (.ok query', t) :=
  gives_bind.2 ⟨_, _, h, rfl⟩

theorem gives_of_bindNames (h : c.bindNames s = (.ok query', t)) :
    ∃ outputs, Gives c.bindQuery s (query', outputs) t := by
  have h : Gives (do return (← c.bindQuery).1) s query' t := h
  obtain ⟨⟨q, outputs⟩, u, hq, h⟩ := gives_bind.1 h
  obtain ⟨rfl, rfl⟩ := gives_pure.1 h
  exact ⟨outputs, hq⟩

end Sources

end QuerySearch.Component
