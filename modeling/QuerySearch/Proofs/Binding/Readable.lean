import Mathlib.Data.List.Induction
import QuerySearch.Proofs.Binding.Places
import QuerySearch.Proofs.Binding.Scoping
import QuerySearch.Proofs.Component.Statement
import QuerySearch.Proofs.Resolve.Bindable

/-! When names can be bound.  In a query that has what it requires, only sort keys can be missing. -/

namespace QuerySearch

def BindError.IsMissing : BindError → Prop
  | missing _ => True
  | _ => False

namespace Component

section Lookup

variable {env outputs source : Environment} {keys out src : List Fingerprint} {c : Component}

theorem locate_cons_of_mem {envs : List Environment} (h : env.Reads keys)
    (hkind : c.kind.isReferencable = true) (hc : c.fingerprint ∈ keys) :
    ∃ c', locate c (env :: envs) = .ok c' := by
  obtain ⟨p, hp⟩ := h.places hkind hc
  exact ⟨.boundColumn p.source p.column c, by rw [locate, hp]⟩

theorem locate_cons_of_not_mem {envs : List Environment} (h : env.Reads keys)
    (hkind : c.kind.isReferencable = true) (hc : c.fingerprint ∉ keys) :
    locate c (env :: envs) = locate c envs := by
  rw [locate, h.no_places hkind hc]

theorem RootedIn.bound_eq {ids : UInt64 → Prop} {envs : List Environment} (h : c.RootedIn ids) :
    c.bound envs = locate c envs := by
  cases c with
  | column | aggChain => rfl
  | _ => exact h.elim

theorem RootedIn.requiredKeys_eq {ids : UInt64 → Prop} (h : c.RootedIn ids) :
    c.requiredKeys = [c.fingerprint] := by
  cases c with
  | column => rw [requiredKeys, fingerprint_column]
  | aggChain =>
    rw [requiredKeys, fingerprint_aggChain]
    rfl
  | _ => exact h.elim

theorem Traced.bound_ok (h : Traced c) (henv : env.Reads keys)
    (hc : ∀ k ∈ c.requiredKeys, k ∈ keys) : ∃ c', c.bound [env] = .ok c' := by
  cases h with
  | inl h =>
    rw [h.requiredKeys_eq, List.forall_mem_singleton] at hc
    rw [h.bound_eq]
    exact locate_cons_of_mem henv h.referencable hc
  | inr h =>
    cases c with
    | int v => exact ⟨.int v, rfl⟩
    | float v => exact ⟨.float v, rfl⟩
    | str s => exact ⟨.str s, rfl⟩
    | _ => exact h.elim

theorem ValueOver.bound_ok (h : ValueOver Traced c) (henv : env.Reads keys)
    (hc : ∀ k ∈ c.requiredKeys, k ∈ keys) : ∃ c', c.bound [env] = .ok c' := by
  cases h with
  | chain h => exact h.bound_ok henv hc
  | constant h => exact Traced.bound_ok (.inr h) henv hc
  | @aggregation func arg isDistinct h hkind =>
    have harg : ∀ k ∈ arg.requiredKeys, k ∈ keys := by
      rw [requiredKeys_aggregation, h.provided_eq] at hc
      rw [(h.rooted hkind).requiredKeys_eq]
      simpa using hc
    obtain ⟨arg', harg'⟩ := h.bound_ok henv harg
    exact ⟨.aggregation func arg' isDistinct, by rw [bound, harg']; rfl⟩

theorem PredicateOver.bound_ok (h : PredicateOver Traced c) (henv : env.Reads keys)
    (hc : ∀ k ∈ c.requiredKeys, k ∈ keys) : ∃ c', c.bound [env] = .ok c' := by
  induction h with
  | @comparison l r op hl hr =>
    rw [requiredKeys, List.forall_mem_append] at hc
    obtain ⟨l', hl'⟩ := hl.bound_ok henv hc.1
    obtain ⟨r', hr'⟩ := hr.bound_ok henv hc.2
    exact ⟨.comparison l' op r', by rw [bound, hl', hr']; rfl⟩
  | @connection l r op _ _ ihl ihr =>
    rw [requiredKeys, List.forall_mem_append] at hc
    obtain ⟨l', hl'⟩ := ihl hc.1
    obtain ⟨r', hr'⟩ := ihr hc.2
    exact ⟨.connection l' op r', by rw [bound, hl', hr']; rfl⟩

theorem IsTest.bound_ok (h : c.IsTest) (henv : env.Reads keys)
    (hc : ∀ k ∈ c.requiredKeys, k ∈ keys) : ∃ c', c.bound [env] = .ok c' := by
  cases h with
  | absent => exact ⟨.absent, rfl⟩
  | predicate h => exact h.bound_ok henv hc

theorem boundAll_ok {envs : List Environment} {items : List Component}
    (h : ∀ c ∈ items, ∃ c', c.bound envs = .ok c') : ∃ items', boundAll envs items = .ok items' := by
  induction items with
  | nil => exact ⟨[], rfl⟩
  | cons c items ih =>
    obtain ⟨c', hc'⟩ := h c (.head _)
    obtain ⟨items', hitems'⟩ := ih fun d hd => h d (.tail _ hd)
    exact ⟨c' :: items', by rw [boundAll, hc', hitems']; rfl⟩

theorem IsGrouping.bound_ok (h : c.IsGrouping) (henv : env.Reads keys)
    (hc : ∀ k ∈ c.requiredKeys, k ∈ keys) : ∃ c', c.bound [env] = .ok c' := by
  cases h with
  | absent => exact ⟨.absent, rfl⟩
  | @list items h =>
    rw [requiredKeys_groupList] at hc
    have hitems : ∀ d ∈ items, ∃ d', d.bound [env] = .ok d' := fun d hd =>
      Traced.bound_ok (.inl (h d hd)) henv fun k hk => hc k (List.mem_flatMap.2 ⟨d, hd, hk⟩)
    obtain ⟨items', hitems'⟩ := boundAll_ok hitems
    exact ⟨groupListOf items', by rw [bound, hitems']; rfl⟩

theorem IsOutput.bound_ok (h : c.IsOutput) (henv : env.Reads keys)
    (hc : ∀ k ∈ c.requiredKeys, k ∈ keys) : ∃ c', c.bound [env] = .ok c' := by
  cases h with
  | value h => exact h.bound_ok henv hc
  | @named c name h =>
    rw [requiredKeys] at hc
    obtain ⟨c', hc'⟩ := h.bound_ok henv hc
    exact ⟨.named c' name, by rw [bound, hc']; rfl⟩

end Lookup

section Keys

variable {outputs source : Environment} {out src : List Fingerprint} {c : Component} {grouped : Bool}

theorem locate_decides {envs : List Environment} {keys : List (List Fingerprint)}
    (h : List.Forall₂ Environment.Reads envs keys) (hkind : c.kind.isReferencable = true) :
    Decides (∃ ks ∈ keys, c.fingerprint ∈ ks) BindError.IsMissing (fun _ => True) (locate c envs) := by
  induction h with
  | nil => exact ⟨by simp, trivial⟩
  | @cons env ks envs keys henv _ ih =>
    by_cases hc : c.fingerprint ∈ ks
    · exact (Decides.of_ok (locate_cons_of_mem henv hkind hc)).congr (by simp [hc])
    · rw [locate_cons_of_not_mem henv hkind hc]
      exact ih.congr (by simp [hc])

/-- An aggregate is a sort key of a query that provides it, or whose source does; in a grouped query it
is enough that the source provides what it aggregates. -/
def KeyReadable (grouped : Bool) (out src : List Fingerprint) : Component → Prop
  | .sortItem (.aggChain func arg) _ => (aggChain func arg).fingerprint ∈ out ∨
    (aggChain func arg).fingerprint ∈ src ∨ grouped = true ∧ arg.fingerprint ∈ src
  | _ => True

theorem aggChain_decides (grouped : Bool) (func : AggFunc) (dir : SortDir) {arg : Component}
    (harg : arg.RootedIn fun _ => True) (hout : outputs.Reads out) (hsrc : source.Reads src) :
    Decides (KeyReadable grouped out src (.sortItem (.aggChain func arg) dir)) BindError.IsMissing
      (fun _ => True) (boundKeys outputs source grouped (.aggChain func arg)) := by
  have hchain : (aggChain func arg).RootedIn fun _ => True := harg
  have hinout := hout.contains_iff hchain.referencable
  have hinsrc := hsrc.contains_iff hchain.referencable
  rw [boundKeys]
  split
  · rename_i hagain
    simp only [Bool.and_eq_true, Bool.not_eq_true', ← Bool.not_eq_true, hinout, hinsrc,
      fingerprint_aggChain] at hagain
    rw [harg.bound_eq]
    have hsource := locate_decides (.cons hsrc .nil) harg.referencable
    refine (hsource.bind fun c' _ => Decides.of_ok ⟨_, rfl⟩).congr ?_
    simp [KeyReadable, hagain]
  · rename_i hagain
    simp only [Bool.and_eq_true, Bool.not_eq_true', ← Bool.not_eq_true, hinout, hinsrc] at hagain
    rw [hchain.bound_eq]
    refine (locate_decides (.cons hout (.cons hsrc .nil)) hchain.referencable).congr ?_
    simp only [KeyReadable, List.mem_cons, List.not_mem_nil, or_false, exists_eq_or_imp,
      exists_eq_left]
    tauto

theorem IsOrderKey.decides (grouped : Bool) (h : c.IsOrderKey src) (hout : outputs.Reads out)
    (hsrc : source.Reads src) :
    Decides (c.KeyReadable grouped out src) BindError.IsMissing (fun _ => True)
      (boundKeys outputs source grouped c) := by
  cases h with
  | @column t name type dir hcolumn =>
    have hkind : (Component.column t name type).kind.isReferencable = true := by
      rw [Component.kind, fingerprint_column]
      rfl
    have hlocated := locate_decides (.cons hout (.cons hsrc .nil)) hkind
    refine (hlocated.bind fun c' _ => Decides.of_ok ⟨.sortItem c' dir, rfl⟩).congr ?_
    simp [KeyReadable, hcolumn]
  | @aggregate func arg dir harg =>
    have hchain := aggChain_decides grouped func dir harg hout hsrc
    exact (hchain.bind fun c' _ => Decides.of_ok ⟨.sortItem c' dir, rfl⟩).congr (and_iff_left trivial)

theorem boundKeysAll_decides {items : List Component} (h : ∀ c ∈ items, c.IsOrderKey src)
    (hout : outputs.Reads out) (hsrc : source.Reads src) :
    Decides (∀ c ∈ items, c.KeyReadable grouped out src) BindError.IsMissing (fun _ => True)
      (boundKeysAll outputs source grouped items) := by
  induction items with
  | nil => exact ⟨by simp, trivial⟩
  | cons c items ih =>
    have hc := (h c (.head _)).decides grouped hout hsrc
    have hitems := ih fun d hd => h d (.tail _ hd)
    refine (hc.bind fun c' _ => hitems.bind fun items' _ => Decides.of_ok ⟨_, rfl⟩).congr ?_
    simp

theorem IsOrder.decides (grouped : Bool) (h : c.IsOrder src) (hout : outputs.Reads out)
    (hsrc : source.Reads src) :
    Decides (∀ d ∈ c.keyItems, d.KeyReadable grouped out src) BindError.IsMissing (fun _ => True)
      (boundKeys outputs source grouped c) := by
  cases h with
  | absent => exact ⟨by simp [keyItems], trivial⟩
  | list h =>
    refine ((boundKeysAll_decides h hout hsrc).bind fun items' _ => Decides.of_ok ⟨_, rfl⟩).congr ?_
    exact and_iff_left trivial

end Keys

section Items

variable {env outputs : Environment} {keys out : List Fingerprint} {item : Component}

theorem withOutput_reads (h : item.IsOutput) (hout : outputs.Reads out) (asName : String) :
    (withOutput outputs item asName).Reads (out ++ item.providedKeys) := by
  obtain ⟨chain, _, hchain⟩ := h.provides
  have hkeys : item.providedKeys = [chain.fingerprint] := by rw [providedKeys_eq, hchain]; rfl
  rw [withOutput, hchain, hkeys]
  dsimp only
  split
  · rename_i hcontains
    intro f hf
    rw [hout f hf]
    by_cases hcf : f = chain.fingerprint
    · subst hcf
      have hmem := (hout.contains_iff hf).1 hcontains
      simp [hmem]
    · simp [hcf]
  · rename_i hcontains
    exact hout.bind fun hkind hmem => absurd ((hout.contains_iff hkind).2 hmem) hcontains

theorem freshName_settles (name : NameSupply → String × NameSupply) :
    Settles True BindError.IsMissing (fun _ => True) (freshName name) :=
  .modifyGet fun _ => trivial

theorem bindItem_settles (h : item.IsOutput) (henv : env.Reads keys)
    (hitem : ∀ k ∈ item.requiredKeys, k ∈ keys) (hout : outputs.Reads out) :
    Settles True BindError.IsMissing (fun r => r.2.Reads (out ++ item.providedKeys))
      (bindItem env outputs item) := by
  by_cases hnamed : ∃ i n, item = .named i n
  · obtain ⟨i, n, rfl⟩ := hnamed
    have hinner : ∃ i', i.bound [env] = .ok i' := by
      cases h with
      | named h =>
        rw [requiredKeys] at hitem
        exact h.bound_ok henv hitem
      | value h =>
        cases h with
        | chain h => exact (h.elim id id).elim
        | constant h => exact h.elim
    rw [bindItem_named]
    exact (Settles.liftM (Decides.of_ok hinner)).andThen fun i' _ => .pure (withOutput_reads h hout n)
  · have hnamed : ∀ i n, item ≠ .named i n := fun i n heq => hnamed ⟨i, n, heq⟩
    rw [bindItem_unnamed env outputs hnamed]
    exact (Settles.liftM (Decides.of_ok (h.bound_ok henv hitem))).andThen fun i' _ =>
      (freshName_settles _).andThen fun asName _ => .pure (withOutput_reads h hout asName)

theorem bindItems_settles {items : List Component} (h : ∀ item ∈ items, item.IsOutput)
    (henv : env.Reads keys) (hitems : ∀ k ∈ (select items).requiredKeys, k ∈ keys)
    (hout : outputs.Reads out) :
    Settles True BindError.IsMissing (fun r => r.2.Reads (out ++ (select items).providedKeys))
      (bindItems env outputs items) := by
  rw [requiredKeys_select] at hitems
  rw [providedKeys_select]
  induction items generalizing outputs out with
  | nil =>
    refine .pure ?_
    simpa using hout
  | cons item items ih =>
    rw [List.flatMap_cons, List.forall_mem_append] at hitems
    have hitem := bindItem_settles (h item (.head _)) henv hitems.1 hout
    refine hitem.andThen fun r hr => Settles.andThen (ih (fun d hd => h d (.tail _ hd)) hitems.2 hr)
      fun r' hr' => .pure ?_
    simpa using hr'

end Items

section Tables

variable {t : Table} {a : String} {columns : List Component}

theorem mem_columns {c : Component} (h : c ∈ (Component.table t).provided) :
    ∃ column ∈ t.columns, c = .column t column.1 column.2 := by
  obtain ⟨column, hcolumn, rfl⟩ := List.mem_map.1 h
  exact ⟨column, hcolumn, rfl⟩

theorem foldl_bindColumn_place {name : String} {type : DataType} {p : Place} (hown : HasOwnColumns t)
    (h : ∀ c ∈ columns, c ∈ (Component.table t).provided)
    (hc : .column t name type ∈ (Component.table t).provided)
    (hp : (.ofColumn t name, p) ∈ (columns.foldl (bindColumn a) .empty).entries) : p = ⟨a, name⟩ := by
  cases mem_foldl_bindColumn hp with
  | inl hp => cases hp
  | inr hp =>
    obtain ⟨rfl, table, type', hmem, hf⟩ := hp
    obtain ⟨c, hcmem, hceq⟩ := mem_columns hc
    obtain ⟨d, hd, hdeq⟩ := mem_columns (h _ hmem)
    simp only [column.injEq] at hceq hdeq
    obtain ⟨_, rfl, _⟩ := hceq
    obtain ⟨rfl, hcolumn, _⟩ := hdeq
    rw [hcolumn] at hf
    have hname : d.1 = c.1 := hown d hd c hcmem hf
    rw [← hname, ← hcolumn]

theorem foldl_bindColumn_reads (hown : HasOwnColumns t)
    (h : ∀ c ∈ columns, c ∈ (Component.table t).provided) :
    (columns.foldl (bindColumn a) .empty).Reads (columns.map fingerprint) := by
  induction columns using List.reverseRecOn with
  | nil => exact Environment.reads_empty
  | append_singleton columns c ih =>
    have hprefix : ∀ d ∈ columns, d ∈ (Component.table t).provided := fun d hd => h d (by simp [hd])
    have hc : c ∈ (Component.table t).provided := h c (by simp)
    obtain ⟨⟨name, type⟩, _, rfl⟩ := mem_columns hc
    rw [List.foldl_append, List.map_append]
    refine (ih hprefix).bind fun hkind hmem => ?_
    obtain ⟨p, hp⟩ := (ih hprefix).places hkind hmem
    have hplace : ((column t name type).fingerprint, p) ∈
        (columns.foldl (bindColumn a) .empty).entries := Environment.mem_places.1 (by simp [hp])
    rw [fingerprint_column] at hplace ⊢
    rwa [foldl_bindColumn_place hown hprefix hc hplace] at hplace

theorem tableEnvironment_reads (h : HasOwnColumns t) (a : String) :
    (tableEnvironment (.table t) a).Reads (Component.table t).providedKeys := by
  rw [tableEnvironment_eq, providedKeys_eq]
  exact foldl_bindColumn_reads h fun c hc => hc

end Tables

end Component

end QuerySearch
