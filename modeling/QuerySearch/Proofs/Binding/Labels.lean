import QuerySearch.Proofs.Binding.Distinct
import QuerySearch.Proofs.Binding.SortKeys

/-! The names of the outputs of a bound query.  Where the names that are given at a level are different,
or all names of the level are made up, a sort key that is an output name means one output only. -/

namespace QuerySearch

namespace NameSupply

def columnLabel (hint : String) (n : Nat) : String := "c_" ++ hint ++ toString n

def columnStem (hint : String) : String := if hint = "" then "" else "c_" ++ hint

/-- No hint is another one with digits behind it. -/
def Unnumbered (hints : List String) : Prop :=
  ∀ hint ∈ hints, ∀ hint' ∈ hints, ∀ digits : List Char, (∀ c ∈ digits, c.isDigit = true) →
    hint'.toList = hint.toList ++ digits → digits = []

def HandsOutLabel (hints : List String) (s t : NameSupply) (a : String) : Prop :=
  ∃ hint ∈ hints, ∃ n, a = columnLabel hint n ∧ s.count (columnStem hint) ≤ n ∧
    n < t.count (columnStem hint)

section Labels

variable {s t u : NameSupply} {a b hint hint' : String} {n n' : Nat} {hints : List String}
  {item : Option String}

theorem isDigit_toString (n : Nat) : ∀ c ∈ (toString n).toList, c.isDigit = true := by
  intro c hc
  rw [Nat.toString_eq_repr, Nat.repr, String.toList_ofList] at hc
  exact Nat.isDigit_of_mem_toDigits (by decide) (by decide) hc

theorem toString_inj {m n : Nat} (h : (toString m).toList = (toString n).toList) : m = n := by
  simp only [Nat.toString_eq_repr, Nat.repr, String.toList_ofList] at h
  rw [← Nat.ofDigitChars_ten_toDigits (n := m), h, Nat.ofDigitChars_ten_toDigits]

theorem columnLabel_inj (hhints : Unnumbered hints) (hhint : hint ∈ hints) (hhint' : hint' ∈ hints)
    (h : columnLabel hint n = columnLabel hint' n') : hint = hint' ∧ n = n' := by
  have hletters : hint.toList ++ (toString n).toList = hint'.toList ++ (toString n').toList := by
    have h := congrArg String.toList h
    simpa [columnLabel] using h
  obtain ⟨digits, hlonger, hrest⟩ | ⟨digits, hlonger, hrest⟩ := List.append_eq_append_iff.1 hletters
  · have hdigits : digits = [] := by
      apply hhints hint hhint hint' hhint' digits _ hlonger
      intro c hc
      apply isDigit_toString n
      rw [hrest]
      exact List.mem_append_left _ hc
    subst hdigits
    exact ⟨String.toList_inj.1 (by simpa using hlonger.symm), toString_inj hrest⟩
  · have hdigits : digits = [] := by
      apply hhints hint' hhint' hint hhint digits _ hlonger
      intro c hc
      apply isDigit_toString n'
      rw [hrest]
      exact List.mem_append_left _ hc
    subst hdigits
    exact ⟨String.toList_inj.1 (by simpa using hlonger), (toString_inj hrest).symm⟩

theorem handsOutLabel_columnName (h : columnName item s = (a, t)) (hitem : item.getD "" ∈ hints) :
    HandsOutLabel hints s t a := by
  have hhint : columnName item s =
      (columnLabel (item.getD "") (s.count (columnStem (item.getD ""))),
        s.use (columnStem (item.getD ""))) := by
    cases item with
    | none => rfl
    | some hint =>
      by_cases hempty : hint = ""
      · subst hempty
        rfl
      · simp [columnName, Option.filter, columnLabel, columnStem, hempty]
  cases hhint.symm.trans h
  refine ⟨item.getD "", hitem, _, rfl, Nat.le_refl _, ?_⟩
  rw [count_use, if_pos rfl]
  exact Nat.lt_succ_self _

theorem HandsOutLabel.mono_left (h : HandsOutLabel hints t u a) (hs : Grows s t) :
    HandsOutLabel hints s u a := by
  obtain ⟨hint, hhint, n, ha, hlow, hhigh⟩ := h
  exact ⟨hint, hhint, n, ha, Nat.le_trans (hs _) hlow, hhigh⟩

theorem HandsOutLabel.mono_right (h : HandsOutLabel hints s t a) (ht : Grows t u) :
    HandsOutLabel hints s u a := by
  obtain ⟨hint, hhint, n, ha, hlow, hhigh⟩ := h
  exact ⟨hint, hhint, n, ha, hlow, Nat.lt_of_lt_of_le hhigh (ht _)⟩

theorem HandsOutLabel.ne (hhints : Unnumbered hints) (h : HandsOutLabel hints s t a)
    (h' : HandsOutLabel hints t u b) : a ≠ b := by
  obtain ⟨hint, hhint, n, rfl, _, hhigh⟩ := h
  obtain ⟨hint', hhint', n', rfl, hlow, _⟩ := h'
  intro heq
  obtain ⟨rfl, rfl⟩ := columnLabel_inj hhints hhint hhint' heq
  exact Nat.lt_irrefl _ (Nat.lt_of_lt_of_le hhigh hlow)

end Labels

end NameSupply

namespace Component

open NameSupply (Unnumbered HandsOutLabel handsOutLabel_columnName grows_columnName)

def label? : Component → Option String
  | .named _ asName => some asName
  | _ => none

def bareKeys : Component → List (String × Component)
  | .sortList items => items.filterMap fun
    | .sortItem (.boundColumn "" name chain) _ => some (name, chain)
    | _ => none
  | _ => []

def NamesOne (items : List Component) (name : String) (chain : Component) : Prop :=
  ∃ item, items.filter (fun i => i.label? == some name) = [item] ∧ chain.fingerprint ∈ item.providedKeys

/-- At every level a sort key that is an output name means one output, which has the key's chain. -/
def KeysNameOutputs : Component → Prop
  | .querySource q _ => q.KeysNameOutputs
  | .join l r .. => l.KeysNameOutputs ∧ r.KeysNameOutputs
  | .query (.select items) source _ _ _ orderBy _ => source.KeysNameOutputs ∧
    ∀ key ∈ orderBy.bareKeys, NamesOne items key.1 key.2
  | _ => True

def Hinted (hints : List String) (c : Component) : Prop :=
  (∀ i n, c ≠ .named i n) ∧ c.nameHint.getD "" ∈ hints

def Labelable (hints : List String) (items : List Component) : Prop :=
  (∀ item ∈ items, ∃ i n, item = .named i n) ∧ (items.filterMap label?).Nodup ∨
    ∀ item ∈ items, item.Hinted hints

def Presentable (hints : List String) : Component → Prop
  | .tableSource _ asName => asName ≠ some ""
  | .querySource q asName => asName ≠ some "" ∧ q.Presentable hints
  | .join l r .. => l.Presentable hints ∧ r.Presentable hints
  | .query (.select items) source _ _ _ orderBy _ =>
    source.Presentable hints ∧ (∀ item ∈ items, item.Hinted hints) ∧ orderBy.SortsChains
  | _ => False

section Items

variable {env outputs outputs' : Environment} {items items' : List Component} {s t : NameSupply}
  {hints : List String} {a : String}

theorem bindItems_given (h : Gives (bindItems env outputs items) s (items', outputs') t)
    (hitems : ∀ item ∈ items, ∃ i n, item = .named i n) :
    items'.filterMap label? = items.filterMap label? := by
  induction items generalizing outputs items' s with
  | nil =>
    obtain ⟨rfl, _, _⟩ := gives_bindItems_nil h
    rfl
  | cons item items ih =>
    obtain ⟨item', asName, u, rest, hitem, hrest, rfl⟩ := gives_bindItems_cons h
    rw [List.forall_mem_cons] at hitems
    cases hitem with
    | named => simp [label?, ih hrest hitems.2]
    | unnamed hnamed =>
      obtain ⟨i, n, heq⟩ := hitems.1
      exact absurd heq (hnamed i n)

theorem bindItems_fresh (hhints : Unnumbered hints)
    (h : Gives (bindItems env outputs items) s (items', outputs') t)
    (hitems : ∀ item ∈ items, item.Hinted hints) :
    (items'.filterMap label?).Nodup ∧ ∀ a ∈ items'.filterMap label?, HandsOutLabel hints s t a := by
  induction items generalizing outputs items' s with
  | nil =>
    obtain ⟨rfl, _, _⟩ := gives_bindItems_nil h
    simp
  | cons item items ih =>
    obtain ⟨item', asName, u, rest, hitem, hrest, rfl⟩ := gives_bindItems_cons h
    rw [List.forall_mem_cons] at hitems
    obtain ⟨hnodup, hmade⟩ := ih hrest hitems.2
    cases hitem with
    | named => exact absurd rfl (hitems.1.1 _ _)
    | unnamed _ _ hname =>
      have hfirst := handsOutLabel_columnName hname hitems.1.2
      simp only [label?, List.filterMap_cons, List.nodup_cons, List.forall_mem_cons]
      refine ⟨⟨fun hmem => ?_, hnodup⟩, hfirst.mono_right (grows_bindItems hrest), fun a ha => ?_⟩
      · exact hfirst.ne hhints (hmade _ hmem) rfl
      · exact (hmade a ha).mono_left (grows_columnName hname)

theorem Labelable.nodup (hlabels : Labelable hints items) (hhints : Unnumbered hints)
    (h : Gives (bindItems env outputs items) s (items', outputs') t) :
    (items'.filterMap label?).Nodup := by
  rcases hlabels with hgiven | hfresh
  · rw [bindItems_given h hgiven.1]
    exact hgiven.2
  · exact (bindItems_fresh hhints h hfresh).1

theorem filter_label (h : (items.filterMap label?).Nodup) {item : Component} (hitem : item ∈ items)
    (hlabel : item.label? = some a) : items.filter (fun i => i.label? == some a) = [item] := by
  induction items with
  | nil => cases hitem
  | cons i items ih =>
    have hothers (b : String) (hb : i.label? = some b) : b ∉ items.filterMap label? := by
      rw [List.filterMap_cons_some hb, List.nodup_cons] at h
      exact h.1
    have htail : (items.filterMap label?).Nodup := h.sublist ((List.sublist_cons_self i items).filterMap _)
    cases hitem with
    | head =>
      have hnone : items.filter (fun i => i.label? == some a) = [] := by
        rw [List.filter_eq_nil_iff]
        intro j hj hja
        exact hothers a hlabel (List.mem_filterMap.2 ⟨j, hj, by simpa using hja⟩)
      rw [List.filter_cons_of_pos (by simp [hlabel]), hnone]
    | tail _ hitem =>
      have hne : i.label? ≠ some a := fun hi =>
        hothers a hi (List.mem_filterMap.2 ⟨item, hitem, hlabel⟩)
      rw [List.filter_cons_of_neg (by simpa using hne), ih htail hitem]

end Items

section Keys

variable {outputs source : Environment} {grouped : Bool} {c c' chain : Component} {name : String}

theorem mem_bareKeys {items : List Component} : (name, chain) ∈ (sortList items).bareKeys ↔
    ∃ dir, .sortItem (.boundColumn "" name chain) dir ∈ items := by
  simp only [bareKeys, List.mem_filterMap]
  constructor
  · rintro ⟨item, hitem, h⟩
    split at h
    · cases h
      exact ⟨_, hitem⟩
    · cases h
  · rintro ⟨dir, hdir⟩
    exact ⟨_, hdir, rfl⟩

theorem boundKeys_located (hc : c.IsChain)
    (h : c.boundKeys outputs source grouped = .ok (.boundColumn "" name chain)) :
    ∃ env ∈ [outputs, source], (chain.fingerprint, ⟨"", name⟩) ∈ env.entries := by
  have hlocated {c : Component} {envs : List Environment}
      (h : locate c envs = .ok (.boundColumn "" name chain)) :
      ∃ env ∈ envs, (chain.fingerprint, ⟨"", name⟩) ∈ env.entries := by
    obtain ⟨⟨qualifier, column⟩, hplace, henv⟩ := locate_ok h
    cases hplace
    exact henv
  cases c with
  | aggChain func arg =>
    rw [boundKeys] at h
    split at h
    · obtain ⟨arg', _, h⟩ := ok_of_bind h
      cases h
    · exact hlocated (by simpa only [bound] using h)
  | column | windowChain => exact hlocated (by simpa only [boundKeys, bound] using h)
  | int | float | str | absent => cases h
  | _ => exact hc.elim

theorem boundKeys_bare (hc : c.SortsChains) (hsource : ∀ e ∈ source.entries, e.2.source ≠ "")
    (h : c.boundKeys outputs source grouped = .ok c') :
    ∀ key ∈ c'.bareKeys, (key.2.fingerprint, ⟨"", key.1⟩) ∈ outputs.entries := by
  cases c with
  | absent =>
    cases h
    intro key hkey
    cases hkey
  | sortList items =>
    obtain ⟨items', hitems, h⟩ := ok_of_bind h
    cases h
    intro key hkey
    obtain ⟨dir, hdir⟩ := mem_bareKeys.1 hkey
    obtain ⟨item, hitem, hbound⟩ :=
      exists_of_forall₂ (boundKeysAll_forall₂ hitems) (mem_sortedByKey.1 hdir)
    obtain ⟨chain, dir', rfl, hchain⟩ := hc item hitem
    obtain ⟨value, hvalue, hbound⟩ := ok_of_bind hbound
    cases hbound
    obtain ⟨env, henv, hmem⟩ := boundKeys_located hchain hvalue
    simp only [List.mem_cons, List.not_mem_nil, or_false] at henv
    obtain rfl | rfl := henv
    · exact hmem
    · exact absurd rfl (hsource _ hmem)
  | _ => exact hc.elim

end Keys

section Queries

variable {hints : List String} {c c' source source' orderBy orderBy' : Component} {given items : List Component}
  {env outputs : Environment} {s t : NameSupply} {grouped : Bool}

theorem keys_nameOutputs (hhints : Unnumbered hints) (hlabels : Labelable hints given)
    (hchains : orderBy.SortsChains) (henv : ∀ e ∈ env.entries, e.2.source ≠ "")
    (hitems : Gives (bindItems env .empty given) s (items, outputs) t)
    (horder : orderBy.boundKeys outputs env grouped = .ok orderBy') :
    ∀ key ∈ orderBy'.bareKeys, NamesOne items key.1 key.2 := by
  intro key hkey
  have hmem := boundKeys_bare hchains henv horder key hkey
  cases bindItems_outputs hitems _ hmem with
  | inl hmem => cases hmem
  | inr houtput =>
    obtain ⟨_, item, hitem, hprovided⟩ := houtput
    refine ⟨.named item key.1, filter_label (hlabels.nodup hhints hitems) hitem rfl, ?_⟩
    rwa [providedKeys_eq]

theorem bind_keysNameOutputs (hhints : Unnumbered hints) :
    (∀ c s c' env t, Gives (bindSource c) s (c', env) t → c.Presentable hints →
      c'.KeysNameOutputs ∧ ∀ e ∈ env.entries, e.2.source ≠ "") ∧
    ∀ c s c' outputs t, Gives (bindQuery c) s (c', outputs) t → c.Presentable hints →
      c'.KeysNameOutputs := by
  apply bind_induct
  case table =>
    intro table asName s a t ha hc
    refine ⟨trivial, fun e he => ?_⟩
    exact (tableEnvironment_inSource (sourceName_ne_empty hc ha) e he).1
  case subquery =>
    intro q asName s inner outputs u a t ih ha hc
    refine ⟨ih hc.2, fun e he => ?_⟩
    rw [(Environment.mem_through he).1]
    exact sourceName_ne_empty hc.1 ha
  case join =>
    intro l r type on s l' leftEnv u r' rightEnv t on' ihl ihr _ hc
    obtain ⟨hl, hleft⟩ := ihl hc.1
    obtain ⟨hr, hright⟩ := ihr hc.2
    refine ⟨⟨hl, hr⟩, fun e he => ?_⟩
    exact (Environment.mem_merge he).elim (hleft e) (hright e)
  case query =>
    intro given source filter groupBy having orderBy isDistinct s source' env u filter' groupBy' having' items
      outputs t orderBy' ih _ _ _ hitems horder hc
    obtain ⟨hsource, hhinted, hchains⟩ := hc
    obtain ⟨hsource', henv⟩ := ih hsource
    exact ⟨hsource', keys_nameOutputs hhints (.inr hhinted) hchains henv hitems horder⟩

theorem bindNames_keysNameOutputs {filter groupBy having : Component} {isDistinct : Bool}
    (h : (query (.select given) source filter groupBy having orderBy isDistinct).bindNames s = (.ok c', t))
    (hhints : Unnumbered hints) (hsource : source.Presentable hints) (hlabels : Labelable hints given)
    (hchains : orderBy.SortsChains) : c'.KeysNameOutputs := by
  obtain ⟨outputs, hgives⟩ := gives_of_bindNames h
  obtain ⟨given', source', env, u, filter', groupBy', having', items, orderBy', heq, hfrom, _, _, _, hitems,
    horder, rfl⟩ := gives_query hgives
  cases heq
  obtain ⟨hsource', henv⟩ := (bind_keysNameOutputs hhints).1 _ _ _ _ _ hfrom hsource
  exact ⟨hsource', keys_nameOutputs hhints hlabels hchains henv hitems horder⟩

end Queries

end Component

end QuerySearch
