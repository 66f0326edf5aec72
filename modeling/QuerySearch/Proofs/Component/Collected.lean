import QuerySearch.Proofs.Component.Encoding
import QuerySearch.Proofs.Component.Throughout

/-! What is found from a component: things that it is made of, no two of them with one fingerprint.  What has
the fingerprint of something found is not entered; but the parts of all that is found are found, up to their
fingerprints.  So nothing is missed unless two different things are hashed alike. -/

namespace QuerySearch

open Fingerprint (Field)

namespace Component

def ClosedOver (before after : List Component) : Prop :=
  ∀ d ∈ after, d ∈ before ∨ ∀ e ∈ d.constituents, after.contains e = true

section Collect

variable {c d e : Component} {found cs ds es : List Component}

theorem contains_iff_mem_keys : cs.contains d = true ↔ d.fingerprint ∈ cs.map fingerprint :=
  contains_iff.trans List.mem_map.symm

theorem contains_of_suffix (h : cs <:+ ds) (hd : cs.contains d = true) : ds.contains d = true :=
  contains_iff_mem_keys.2 ((h.map fingerprint).subset (contains_iff_mem_keys.1 hd))

theorem ClosedOver.trans (h : ClosedOver cs ds) (h' : ClosedOver ds es) (hsuffix : ds <:+ es) :
    ClosedOver cs es := by
  intro d hd
  refine (h' d hd).elim (fun hold => (h d hold).imp_right fun hparts e he => ?_) .inr
  exact contains_of_suffix hsuffix (hparts e he)

theorem collect_of_contains (h : found.contains c = true) : c.collect found = found := by
  rw [collect, if_pos h]

theorem collect_of_new (h : ¬ found.contains c = true) : c.collect found =
    (c.constituents.filter fun d => !(d == c)).foldl (fun found d => d.collect found) (c :: found) := by
  rw [collect, if_neg h]
  exact List.foldl_attach

theorem collect_induction {p : List Component → Prop} (hfound : p found)
    (hadd : ∀ found d, d ∈ c.reach false → ¬ found.contains d = true → p found → p (d :: found)) :
    p (c.collect found) := by
  induction found, c using collect.induct with
  | case1 found c h => rwa [collect_of_contains h]
  | case2 found c h ih =>
    rw [collect_of_new h]
    refine List.foldlRecOn _ _ (hadd found c (mem_reach_self c) h hfound) fun found' hfound' d hd => ?_
    refine ih found' ⟨d, hd⟩ hfound' fun found e he => ?_
    exact hadd found e (reach_constituent (List.mem_filter.1 hd).1 he)

theorem suffix_collect (c : Component) (found : List Component) : found <:+ c.collect found :=
  collect_induction List.suffix_rfl fun _ d _ _ h => h.trans (List.suffix_cons d _)

theorem suffix_foldl_collect (cs found : List Component) :
    found <:+ cs.foldl (fun found d => d.collect found) found :=
  List.foldlRecOn cs _ List.suffix_rfl fun _ h d _ => h.trans (suffix_collect d _)

theorem contains_collect (c : Component) (found : List Component) : (c.collect found).contains c = true := by
  by_cases h : found.contains c = true
  · rwa [collect_of_contains h]
  · rw [collect_of_new h]
    exact contains_of_suffix (suffix_foldl_collect _ _) (contains_iff_mem_keys.2 (.head _))

theorem contains_foldl_collect (h : d ∈ cs) :
    (cs.foldl (fun found d => d.collect found) found).contains d = true := by
  induction cs generalizing found with
  | nil => cases h
  | cons c cs ih =>
    cases h with
    | head => exact contains_of_suffix (suffix_foldl_collect cs _) (contains_collect d found)
    | tail _ h => exact ih h

theorem foldl_filter_collect (h : found.contains c = true) :
    (cs.filter fun d => !(d == c)).foldl (fun found d => d.collect found) found =
      cs.foldl (fun found d => d.collect found) found := by
  induction cs generalizing found with
  | nil => rfl
  | cons d cs ih =>
    cases hsame : d == c with
    | true =>
      have hd : found.contains d = true := contains_iff_mem_keys.2 (beq_iff.1 hsame ▸ contains_iff_mem_keys.1 h)
      rw [List.filter_cons_of_neg (by simp [hsame]), ih h, List.foldl_cons, collect_of_contains hd]
    | false =>
      rw [List.filter_cons_of_pos (by simp [hsame]), List.foldl_cons, List.foldl_cons,
        ih (contains_of_suffix (suffix_collect d found) h)]

theorem collect_eq (c : Component) (found : List Component) : c.collect found =
    if found.contains c = true then found
    else c.constituents.foldl (fun found d => d.collect found) (c :: found) := by
  split
  · exact collect_of_contains ‹_›
  · rw [collect_of_new ‹_›, foldl_filter_collect (contains_iff_mem_keys.2 (.head _))]

/-- What has been found before need not be entered for it. -/
theorem closedOver_collect (c : Component) (found : List Component) : ClosedOver found (c.collect found) := by
  induction found, c using collect.induct with
  | case1 found c h =>
    rw [collect_of_contains h]
    exact fun d hd => .inl hd
  | case2 found c h ih =>
    have hparts : ClosedOver (c :: found) (c.collect found) := by
      rw [collect_of_new h]
      exact List.foldlRecOn _ _ (fun d hd => .inl hd)
        fun found' hclosed d hd => hclosed.trans (ih found' ⟨d, hd⟩) (suffix_collect d found')
    intro d hd
    obtain hd | hd := hparts d hd
    · obtain rfl | hd := List.mem_cons.1 hd
      · right
        intro e he
        rw [collect_eq, if_neg h]
        exact contains_foldl_collect he
      · exact .inl hd
    · exact .inr hd

end Collect

section All

variable {c d e : Component}

theorem contains_all_iff : c.all.contains d = true ↔ d.fingerprint ∈ c.all.map fingerprint :=
  contains_iff_mem_keys

theorem contains_all_of_mem (h : d ∈ c.all) : c.all.contains d = true :=
  contains_all_iff.2 (List.mem_map_of_mem h)

theorem mem_reach_of_mem_all (h : d ∈ c.all) : d ∈ c.reach false := by
  have hall : ∀ d ∈ c.collect [], d ∈ c.reach false :=
    collect_induction (p := fun found => ∀ d ∈ found, d ∈ c.reach false) (by simp)
      fun _ _ hd _ h => List.forall_mem_cons.2 ⟨hd, h⟩
  exact hall d (List.mem_reverse.1 h)

theorem exists_all_eq_cons (c : Component) : ∃ rest, c.all = c :: rest := by
  obtain ⟨rest, hrest⟩ : [c] <:+ c.collect [] := by
    rw [collect_of_new (by simp)]
    exact suffix_foldl_collect _ _
  refine ⟨rest.reverse, ?_⟩
  rw [all, ← hrest, List.reverse_append, List.reverse_singleton, List.singleton_append]

theorem self_mem_all (c : Component) : c ∈ c.all := by
  obtain ⟨rest, hall⟩ := exists_all_eq_cons c
  rw [hall]
  exact .head _

theorem contains_all_of_constituent (h : d ∈ c.all) (he : e ∈ d.constituents) : c.all.contains e = true := by
  have hclosed := (closedOver_collect c [] d (List.mem_reverse.1 h)).resolve_left List.not_mem_nil
  rw [all, List.contains_reverse]
  exact hclosed e he

theorem exists_mem_all_of_constituent (h : d ∈ c.all) (he : e ∈ d.constituents) :
    ∃ e' ∈ c.all, e'.fingerprint = e.fingerprint :=
  List.mem_map.1 (contains_all_iff.1 (contains_all_of_constituent h he))

end All

def childKeys (fs : List Field) : List Fingerprint :=
  fs.filterMap fun
    | .component f => some f
    | _ => none

/-- What has the fingerprint of something of a sort in the component is hashed from the same fields. -/
def HashedOnce (p : Component → Prop) (c : Component) : Prop :=
  ∀ d e, d ∈ c.reach false → e ∈ c.reach false → p d → d.fingerprint = e.fingerprint → d.fields = e.fields

abbrev PartsApart : Component → Prop := HashedOnce fun _ => True

abbrev SourcesApart : Component → Prop := HashedOnce IsRelation

def TablesApart (c : Component) : Prop :=
  ∀ t u, .table t ∈ c.reach false → .table u ∈ c.reach false →
    (Component.table t).fingerprint = (Component.table u).fingerprint → t = u

section Apart

variable {p : Component → Prop} {q c d e : Component}

theorem HashedOnce.mono {p p' : Component → Prop} (hq : q.HashedOnce p) (h : ∀ c, p' c → p c) :
    q.HashedOnce p' :=
  fun d e hd he hd' => hq d e hd he (h d hd')

theorem childKeys_fields (c : Component) : childKeys c.fields = c.children.map fingerprint := by
  cases c <;> simp [childKeys, fields, children, List.filterMap_map, Function.comp_def]

theorem children_keys (h : d.fields = e.fields) : d.children.map fingerprint = e.children.map fingerprint := by
  rw [← childKeys_fields, ← childKeys_fields, h]

theorem contains_all_of_keys (h : e ∈ q.all) (hkeys : d.fingerprint ∈ e.constituents.map fingerprint) :
    q.all.contains d = true := by
  obtain ⟨e', he', hkey⟩ := List.mem_map.1 hkeys
  exact contains_all_iff.2 (hkey ▸ contains_all_iff.1 (contains_all_of_constituent h he'))

theorem HashedOnce.contains_all_child (hq : q.HashedOnce p) (hd : d ∈ q.reach false) (hp : p d)
    (hfound : q.all.contains d = true) (he : e ∈ d.children) : q.all.contains e = true := by
  obtain ⟨d', hd', hkey⟩ := List.mem_map.1 (contains_all_iff.1 hfound)
  have hkeys := children_keys (hq d d' hd (mem_reach_of_mem_all hd') hp hkey.symm)
  refine contains_all_of_keys hd' ?_
  rw [constituents, List.map_append, ← hkeys]
  exact List.mem_append_right _ (List.mem_map_of_mem he)

end Apart

end Component

end QuerySearch
