import Mathlib.Data.List.Nodup
import QuerySearch.Proofs.Binding.Runs
import QuerySearch.Proofs.Component.Names

/-! The names of the sources of a bound query.  Names that are made up are all different, so the names
of one FROM clause are if those that were given are, and none of them looks made up. -/

namespace QuerySearch

namespace NameSupply

def tableLabel (hint : String) (n : Nat) : String := "T_" ++ hint ++ "_" ++ toString n

def HandsOut (s t : NameSupply) (a : String) : Prop :=
  ∃ hint n, a = tableLabel hint n ∧ s.count ("T_" ++ hint) ≤ n ∧ n < t.count ("T_" ++ hint)

def Grows (s t : NameSupply) : Prop := ∀ stem, s.count stem ≤ t.count stem

section Counts

variable {s t u : NameSupply} {a b stem stem' hint hint' : String} {n n' : Nat}

theorem lookup_filter_of_ne {uses : List (String × Nat)} (h : stem' ≠ stem) :
    (uses.filter fun u => u.1 != stem).lookup stem' = uses.lookup stem' := by
  induction uses with
  | nil => rfl
  | cons u uses ih =>
    obtain ⟨name, n⟩ := u
    by_cases hname : name = stem
    · subst hname
      rw [List.filter_cons_of_neg (by simp), ih, List.lookup_cons, beq_false_of_ne h]
    · rw [List.filter_cons_of_pos (by simpa using hname), List.lookup_cons, List.lookup_cons, ih]

theorem count_use : (s.use stem).count stem' = s.count stem' + if stem' = stem then 1 else 0 := by
  rw [count, use, List.lookup_cons]
  by_cases h : stem' = stem
  · subst h
    simp
  · rw [beq_false_of_ne h, lookup_filter_of_ne h, if_neg h]
    rfl

theorem Grows.refl : Grows s s := fun _ => Nat.le_refl _

theorem Grows.trans (h : Grows s t) (h' : Grows t u) : Grows s u :=
  fun stem => Nat.le_trans (h stem) (h' stem)

theorem grows_use : Grows s (s.use stem) := by
  intro stem'
  rw [count_use]
  exact Nat.le_add_right _ _

theorem grows_columnName {hint : Option String} (h : columnName hint s = (a, t)) : Grows s t := by
  rw [columnName] at h
  split at h <;> cases h <;> exact grows_use

theorem grows_tableName (h : tableName hint s = (a, t)) : Grows s t := by
  cases h
  exact grows_use

theorem handsOut_tableName (h : tableName hint s = (a, t)) : HandsOut s t a := by
  cases h
  refine ⟨hint, s.count ("T_" ++ hint), rfl, Nat.le_refl _, ?_⟩
  rw [count_use, if_pos rfl]
  exact Nat.lt_succ_self _

theorem HandsOut.mono_left (h : HandsOut t u a) (hs : Grows s t) : HandsOut s u a := by
  obtain ⟨hint, n, ha, hlow, hhigh⟩ := h
  exact ⟨hint, n, ha, Nat.le_trans (hs _) hlow, hhigh⟩

theorem HandsOut.mono_right (h : HandsOut s t a) (ht : Grows t u) : HandsOut s u a := by
  obtain ⟨hint, n, ha, hlow, hhigh⟩ := h
  exact ⟨hint, n, ha, hlow, Nat.lt_of_lt_of_le hhigh (ht _)⟩

theorem not_mem_digits (n : Nat) : '_' ∉ (toString n).toList := by
  intro hmem
  rw [Nat.toString_eq_repr, Nat.repr, String.toList_ofList] at hmem
  have hdigit : '_'.isDigit = true := Nat.isDigit_of_mem_toDigits (by decide) (by decide) hmem
  cases hdigit

theorem behind_last_inj {x x' d d' : List Char} {c : Char} (hd : c ∉ d) (hd' : c ∉ d')
    (h : x ++ c :: d = x' ++ c :: d') : x = x' ∧ d = d' := by
  obtain ⟨y, rfl, hy⟩ | ⟨y, rfl, hy⟩ := List.append_eq_append_iff.1 h
  · cases y with
    | nil => simpa using hy
    | cons e y =>
      obtain ⟨_, rfl⟩ := List.cons.inj hy
      exact absurd (by simp) hd
  · cases y with
    | nil => simpa using hy.symm
    | cons e y =>
      obtain ⟨_, rfl⟩ := List.cons.inj hy
      exact absurd (by simp) hd'

theorem tableLabel_inj (h : tableLabel hint n = tableLabel hint' n') : hint = hint' ∧ n = n' := by
  have hletters : ("T_" ++ hint).toList ++ '_' :: (toString n).toList =
      ("T_" ++ hint').toList ++ '_' :: (toString n').toList := by
    have h := congrArg String.toList h
    simpa [tableLabel] using h
  obtain ⟨hstem, hnumber⟩ := behind_last_inj (not_mem_digits n) (not_mem_digits n') hletters
  refine ⟨(String.append_right_inj _).1 (String.toList_inj.1 hstem), ?_⟩
  simp only [Nat.toString_eq_repr, Nat.repr, String.toList_ofList] at hnumber
  rw [← Nat.ofDigitChars_ten_toDigits (n := n), hnumber, Nat.ofDigitChars_ten_toDigits]

theorem HandsOut.ne (h : HandsOut s t a) (h' : HandsOut t u b) : a ≠ b := by
  obtain ⟨hint, n, rfl, _, hhigh⟩ := h
  obtain ⟨hint', n', rfl, hlow, _⟩ := h'
  intro heq
  obtain ⟨rfl, rfl⟩ := tableLabel_inj heq
  exact Nat.lt_irrefl _ (Nat.lt_of_lt_of_le hhigh hlow)

end Counts

end NameSupply

namespace Component

/-- The names are different, and none of them could be made up. -/
def WellNamed (names : List String) : Prop :=
  names.Nodup ∧ ∀ a ∈ names, ∀ hint n, a ≠ NameSupply.tableLabel hint n

section Names

variable {names names' : List String}

theorem WellNamed.left (h : WellNamed (names ++ names')) : WellNamed names :=
  ⟨(List.nodup_append.1 h.1).1, fun a ha => h.2 a (List.mem_append_left _ ha)⟩

theorem WellNamed.right (h : WellNamed (names ++ names')) :
    WellNamed names' :=
  ⟨(List.nodup_append.1 h.1).2.1, fun a ha => h.2 a (List.mem_append_right _ ha)⟩

end Names

structure NamesBound (s t : NameSupply) (c c' : Component) : Prop where
  grows : s.Grows t
  names : ∀ a ∈ c'.fromNames, a ∈ c.fromNames ∨ s.HandsOut t a
  distinct : WellNamed c.fromNames → c'.fromNames.Nodup
  clauses : (∀ names ∈ c.clauseNames, WellNamed names) → ∀ names ∈ c'.clauseNames, names.Nodup

section Binds

variable {c c' l l' r r' q q' on on' source source' : Component} {type : JoinType} {asName : Option String}
  {a hint : String} {s t u : NameSupply} {env : Environment}

theorem grows_sourceName (h : Gives (sourceName hint asName) s a t) : s.Grows t := by
  obtain ⟨_, rfl⟩ | ⟨_, h⟩ := gives_sourceName h
  · exact .refl
  · exact NameSupply.grows_tableName h

theorem mem_sourceName (h : Gives (sourceName hint asName) s a t) :
    a ∈ asName.toList ∨ s.HandsOut t a := by
  obtain ⟨rfl, _⟩ | ⟨_, h⟩ := gives_sourceName h
  · exact .inl (List.mem_singleton_self a)
  · exact .inr (NameSupply.handsOut_tableName h)

theorem namesBound_table {table : Component} (h : Gives (sourceName hint asName) s a t) :
    NamesBound s t (.tableSource table asName) (.tableSource table (some a)) where
  grows := grows_sourceName h
  names := by
    intro b hb
    cases List.mem_singleton.1 hb
    rw [fromNames_tableSource]
    exact mem_sourceName h
  distinct _ := List.nodup_singleton a
  clauses _ := nofun

theorem NamesBound.querySource (hq : NamesBound s u q q') (h : Gives (sourceName hint asName) u a t) :
    NamesBound s t (.querySource q asName) (.querySource q' (some a)) where
  grows := hq.grows.trans (grows_sourceName h)
  names := by
    intro b hb
    cases List.mem_singleton.1 hb
    rw [fromNames_querySource]
    exact (mem_sourceName h).imp_right fun ha => ha.mono_left hq.grows
  distinct _ := List.nodup_singleton a
  clauses := hq.clauses

theorem NamesBound.join (hl : NamesBound s u l l') (hr : NamesBound u t r r') :
    NamesBound s t (.join l r type on) (.join l' r' type on') where
  grows := hl.grows.trans hr.grows
  names := by
    intro a ha
    rw [fromNames_join, List.mem_append] at ha
    rw [fromNames_join, List.mem_append]
    cases ha with
    | inl ha => exact (hl.names a ha).imp .inl fun h => h.mono_right hr.grows
    | inr ha => exact (hr.names a ha).imp .inr fun h => h.mono_left hl.grows
  distinct h := by
    rw [fromNames_join] at h ⊢
    refine List.nodup_append.2 ⟨hl.distinct h.left, hr.distinct h.right, fun a ha b hb => ?_⟩
    have hne : ∀ a ∈ l.fromNames ++ r.fromNames, ∀ b, (s.HandsOut u b ∨ u.HandsOut t b) → a ≠ b := by
      rintro a ha b (⟨hint, n, rfl, _⟩ | ⟨hint, n, rfl, _⟩)
      · exact h.2 a ha hint n
      · exact h.2 a ha hint n
    cases hl.names a ha with
    | inl hal =>
      cases hr.names b hb with
      | inl hbr => exact (List.nodup_append.1 h.1).2.2 a hal b hbr
      | inr hbr => exact hne a (List.mem_append_left _ hal) b (.inr hbr)
    | inr hal =>
      cases hr.names b hb with
      | inl hbr => exact (hne b (List.mem_append_right _ hbr) a (.inl hal)).symm
      | inr hbr => exact hal.ne hbr
  clauses h := by
    rw [clauseNames, List.forall_mem_append] at h ⊢
    exact ⟨hl.clauses h.1, hr.clauses h.2⟩

theorem grows_bindItems {outputs outputs' : Environment} {items items' : List Component}
    (h : Gives (bindItems env outputs items) s (items', outputs') t) : s.Grows t := by
  induction items generalizing outputs items' s with
  | nil =>
    obtain ⟨_, _, rfl⟩ := gives_bindItems_nil h
    exact .refl
  | cons item items ih =>
    obtain ⟨item', asName, u, rest, hitem, hrest, rfl⟩ := gives_bindItems_cons h
    refine NameSupply.Grows.trans ?_ (ih hrest)
    cases hitem with
    | named => exact .refl
    | unnamed _ _ hname => exact NameSupply.grows_columnName hname

theorem NamesBound.query {sel sel' filter filter' groupBy groupBy' having having' orderBy orderBy' : Component}
    {isDistinct : Bool} (h : NamesBound s u source source') (ht : u.Grows t) :
    NamesBound s t (.query sel source filter groupBy having orderBy isDistinct)
      (.query sel' source' filter' groupBy' having' orderBy' isDistinct) where
  grows := h.grows.trans ht
  names := nofun
  distinct _ := .nil
  clauses hnames := by
    rw [clauseNames, List.forall_mem_cons] at hnames ⊢
    exact ⟨h.distinct hnames.1, h.clauses hnames.2⟩

theorem bind_namesBound :
    (∀ c s c' env t, Gives (bindSource c) s (c', env) t → NamesBound s t c c') ∧
      ∀ c s c' env t, Gives (bindQuery c) s (c', env) t → NamesBound s t c c' := by
  apply bind_induct
  case table => exact fun _ _ _ _ _ ha => namesBound_table ha
  case subquery => exact fun _ _ _ _ _ _ _ _ ih ha => ih.querySource ha
  case join => exact fun _ _ _ _ _ _ _ _ _ _ _ _ ihl ihr _ => ihl.join ihr
  case query =>
    intro given source filter groupBy having orderBy isDistinct s source' env u filter' groupBy' having' items
      outputs t orderBy' ih _ _ _ hitems _
    exact ih.query (grows_bindItems hitems)

theorem bindNames_distinct {names names' : NameSupply} (h : q.bindNames names = (.ok c, names'))
    (hq : ∀ ns ∈ q.clauseNames, WellNamed ns) : ∀ ns ∈ c.clauseNames, ns.Nodup := by
  obtain ⟨outputs, hgives⟩ := gives_of_bindNames h
  exact (bind_namesBound.2 q names c outputs names' hgives).clauses hq

end Binds

end Component

end QuerySearch
