import QuerySearch.Proofs.Component.Encoding
import QuerySearch.Proofs.Component.Throughout

/-! Components are told apart by the hashes of their fields.  Up to a collision of those they are equal
when they are the same tree, whatever order the items of their lists were given in. -/

namespace QuerySearch

open Fingerprint (Field)

def Table.Same (t t' : Table) : Prop := t.name = t'.name ∧ t.id = t'.id

namespace Component

mutual

/-- The same tree, but for the columns of tables, the types of columns and the names of sources and bound
columns, and up to the order of groups, partitions and sort keys. -/
def Alike : Component → Component → Prop
  | .table t, c => ∃ t', c = .table t' ∧ t.Same t'
  | .column t name _, c => ∃ t' type', c = .column t' name type' ∧ t.Same t'
  | .aggChain func arg, c => ∃ arg', c = .aggChain func arg' ∧ Alike arg arg'
  | .windowChain func arg, c => ∃ arg', c = .windowChain func arg' ∧ Alike arg arg'
  | .aggregation func arg isDistinct, c =>
    ∃ arg', c = .aggregation func arg' isDistinct ∧ Alike arg arg'
  | .aggWindow call partition orderBy, c => ∃ call' partition' orderBy',
    c = .aggWindow call' partition' orderBy' ∧ Alike call call' ∧ Alike partition partition' ∧
      Alike orderBy orderBy'
  | .funcWindow call partition orderBy, c => ∃ call' partition' orderBy',
    c = .funcWindow call' partition' orderBy' ∧ Alike call call' ∧ Alike partition partition' ∧
      Alike orderBy orderBy'
  | .partitionList items, c =>
    ∃ items' matched, c = .partitionList items' ∧ items'.Perm matched ∧ AlikeEach items matched
  | .groupList items, c =>
    ∃ items' matched, c = .groupList items' ∧ items'.Perm matched ∧ AlikeEach items matched
  | .sortList items, c =>
    ∃ items' matched, c = .sortList items' ∧ items'.Perm matched ∧ AlikeEach items matched
  | .select items, c => ∃ items', c = .select items' ∧ AlikeEach items items'
  | .sortItem chain dir, c => ∃ chain', c = .sortItem chain' dir ∧ Alike chain chain'
  | .comparison l op r, c => ∃ l' r', c = .comparison l' op r' ∧ Alike l l' ∧ Alike r r'
  | .connection l op r, c => ∃ l' r', c = .connection l' op r' ∧ Alike l l' ∧ Alike r r'
  | .named item asName, c => ∃ item', c = .named item' asName ∧ Alike item item'
  | .tableSource t _, c => ∃ t' asName', c = .tableSource t' asName' ∧ Alike t t'
  | .querySource q _, c => ∃ q' asName', c = .querySource q' asName' ∧ Alike q q'
  | .join l r type on, c => ∃ l' r' on',
    c = .join l' r' type on' ∧ Alike l l' ∧ Alike r r' ∧ Alike on on'
  | .query sel source filter groupBy having orderBy isDistinct, c =>
    ∃ sel' source' filter' groupBy' having' orderBy',
      c = .query sel' source' filter' groupBy' having' orderBy' isDistinct ∧ Alike sel sel' ∧
        Alike source source' ∧ Alike filter filter' ∧ Alike groupBy groupBy' ∧
        Alike having having' ∧ Alike orderBy orderBy'
  | .boundColumn _ _ chain, c =>
    ∃ qualifier' name' chain', c = .boundColumn qualifier' name' chain' ∧ Alike chain chain'
  | a, c => a = c

def AlikeEach : List Component → List Component → Prop
  | [], cs => cs = []
  | a :: as, cs => ∃ c cs', cs = c :: cs' ∧ Alike a c ∧ AlikeEach as cs'

end

/-- As a constructor makes it: its list is sorted, and its texts have no more bytes than can be counted. -/
def IsMade : Component → Prop
  | .table t => t.name.utf8ByteSize < UInt64.size
  | .column t name _ => t.name.utf8ByteSize < UInt64.size ∧ name.utf8ByteSize < UInt64.size
  | .str s => s.utf8ByteSize < UInt64.size
  | .named _ asName => asName.utf8ByteSize < UInt64.size
  | .partitionList items | .groupList items | .sortList items => ∃ given, items = sortedByKey given
  | _ => True

abbrev Made : Component → Prop := Throughout IsMade

/-- No collision of the hash on what is hashed for the two, if they are of one kind. -/
def HashedApart (a b : Component) : Prop :=
  a.kind = b.kind → Xxh64.hash Fingerprint.seed a.encoding = Xxh64.hash Fingerprint.seed b.encoding →
    a.encoding = b.encoding

section Identity

variable {a b c d : Component} {as bs cs : List Component}

theorem fits_fields (h : c.IsMade) : ∀ f ∈ c.fields, f.Fits := by
  cases c with
  | table _ | str _ | named _ _ | column _ _ _ => simpa [fields, Field.Fits, IsMade] using h
  | aggChain func _ | windowChain func _ | aggFunc func | windowFunc func | windowClause func =>
    cases func <;> simp [fields, Field.Fits, AggFunc.ctorIdx, WindowFunc.ctorIdx, UInt8.size]
  | compareOp op | logicOp op | comparison _ op _ | connection _ op _ =>
    cases op <;> simp [fields, Field.Fits, CompareOp.ctorIdx, LogicOp.ctorIdx, UInt8.size]
  | sortDir dir | sortItem _ dir => cases dir <;> simp [fields, Field.Fits, SortDir.ctorIdx, UInt8.size]
  | joinType type | join _ _ type _ => cases type <;> simp [fields, Field.Fits, JoinType.ctorIdx, UInt8.size]
  | aggregation func _ isDistinct =>
    cases func <;> cases isDistinct <;> simp [fields, Field.Fits, AggFunc.ctorIdx, UInt8.size]
  | query _ _ _ _ _ _ isDistinct => cases isDistinct <;> simp [fields, Field.Fits, UInt8.size]
  | _ => simp [fields, Field.Fits]

/-- The bytes of a component give its kind and its fields. -/
theorem encoding_inj (ha : a.IsMade) (hb : b.IsMade) :
    a.encoding = b.encoding ↔ a.kind = b.kind ∧ a.fields = b.fields := by
  constructor
  · intro h
    simp only [encoding, Fingerprint.encoding, List.cons.injEq] at h
    have hkind := Fingerprint.kindByte_injective h.1
    refine ⟨hkind, Fingerprint.Field.flatMap_bytes_inj (laid_fields a) ?_ (fits_fields ha)
      (fits_fields hb) h.2⟩
    rw [hkind]
    exact laid_fields b
  · rintro ⟨hkind, hfields⟩
    rw [encoding, encoding, hkind, hfields]

theorem alikeEach_of_fields
    (hfields : (as.map fingerprint).map Field.component = (bs.map fingerprint).map Field.component)
    (hitems : ∀ c ∈ as, ∀ d ∈ bs, c.fingerprint = d.fingerprint → c.Alike d) : AlikeEach as bs := by
  rw [List.map_inj_right fun _ _ h => Field.component.inj h] at hfields
  induction as generalizing bs with
  | nil => simpa [AlikeEach, eq_comm] using hfields
  | cons a as ih =>
    obtain ⟨b, bs, rfl, hb, hbs⟩ := List.map_eq_cons_iff.1 hfields.symm
    refine ⟨b, bs, rfl, hitems _ (.head _) _ (.head _) hb.symm, ih hbs.symm ?_⟩
    exact fun c hc d hd => hitems c (.tail _ hc) d (.tail _ hd)

theorem alike_of_fields : (a b : Component) → b.ctorIdx = a.ctorIdx → a.fields = b.fields →
    (∀ c ∈ a.children, ∀ d ∈ b.children, c.fingerprint = d.fingerprint → c.Alike d) → a.Alike b
  | .table t, b, hkind => by
    refine table.elim b hkind fun t' hfields _ => ?_
    simp only [fields, List.cons.injEq, Field.text.injEq, Field.word.injEq, and_true] at hfields
    exact ⟨t', rfl, hfields⟩
  | .column t name _, b, hkind => by
    refine column.elim b hkind fun t' name' type' hfields _ => ?_
    simp only [fields, List.cons.injEq, Field.text.injEq, Field.word.injEq, and_true] at hfields
    obtain ⟨hname, hid, rfl⟩ := hfields
    exact ⟨t', type', rfl, hname, hid⟩
  | .aggChain func arg, b, hkind => by
    refine aggChain.elim b hkind fun func' arg' hfields hsame => ?_
    obtain ⟨rfl, harg⟩ : func = func' ∧ arg.fingerprint = arg'.fingerprint := by
      simpa [fields] using hfields
    exact ⟨arg', rfl, hsame _ (.head _) _ (.head _) harg⟩
  | .windowChain func arg, b, hkind => by
    refine windowChain.elim b hkind fun func' arg' hfields hsame => ?_
    obtain ⟨rfl, harg⟩ : func = func' ∧ arg.fingerprint = arg'.fingerprint := by
      simpa [fields] using hfields
    exact ⟨arg', rfl, hsame _ (.head _) _ (.head _) harg⟩
  | .int v, b, hkind => by
    refine int.elim b hkind fun v' hfields _ => ?_
    have hv : v.toUInt64 = v'.toUInt64 := by simpa [fields] using hfields
    cases v
    cases v'
    simpa [Alike] using hv
  | .float v, b, hkind => by
    refine float.elim b hkind fun v' hfields _ => ?_
    have hv : v.bits = v'.bits := by simpa [fields] using hfields
    cases v
    cases v'
    simpa [Alike] using hv
  | .str s, b, hkind => by
    refine str.elim b hkind fun s' hfields _ => ?_
    simpa [fields, Alike] using hfields
  | .absent, b, hkind => by exact absent.elim b hkind fun _ _ => rfl
  | .distinct, b, hkind => by exact distinct.elim b hkind fun _ _ => rfl
  | .compareOp op, b, hkind => by
    refine compareOp.elim b hkind fun op' hfields _ => ?_
    simpa [fields, Alike] using hfields
  | .logicOp op, b, hkind => by
    refine logicOp.elim b hkind fun op' hfields _ => ?_
    simpa [fields, Alike] using hfields
  | .joinType type, b, hkind => by
    refine joinType.elim b hkind fun type' hfields _ => ?_
    simpa [fields, Alike] using hfields
  | .aggFunc func, b, hkind => by
    refine aggFunc.elim b hkind fun func' hfields _ => ?_
    simpa [fields, Alike] using hfields
  | .windowFunc func, b, hkind => by
    refine windowFunc.elim b hkind fun func' _ _ => ?_
    cases func
    cases func'
    rfl
  | .sortDir dir, b, hkind => by
    refine sortDir.elim b hkind fun dir' hfields _ => ?_
    simpa [fields, Alike] using hfields
  | .windowClause func, b, hkind => by
    refine windowClause.elim b hkind fun func' _ _ => ?_
    cases func
    cases func'
    rfl
  | .aggregation func arg isDistinct, b, hkind => by
    refine aggregation.elim b hkind fun func' arg' isDistinct' hfields hsame => ?_
    obtain ⟨rfl, harg, rfl⟩ :
        func = func' ∧ arg.fingerprint = arg'.fingerprint ∧ isDistinct = isDistinct' := by
      simpa [fields, toNat_bool_inj] using hfields
    exact ⟨arg', rfl, hsame _ (.head _) _ (.head _) harg⟩
  | .aggWindow call partition orderBy, b, hkind => by
    refine aggWindow.elim b hkind fun call' partition' orderBy' hfields hsame => ?_
    obtain ⟨hcall, hpartition, horder⟩ : call.fingerprint = call'.fingerprint ∧
        partition.fingerprint = partition'.fingerprint ∧ orderBy.fingerprint = orderBy'.fingerprint := by
      simpa [fields] using hfields
    exact ⟨call', partition', orderBy', rfl, hsame _ (by simp [children]) _ (by simp [children]) hcall,
      hsame _ (by simp [children]) _ (by simp [children]) hpartition,
      hsame _ (by simp [children]) _ (by simp [children]) horder⟩
  | .funcWindow call partition orderBy, b, hkind => by
    refine funcWindow.elim b hkind fun call' partition' orderBy' hfields hsame => ?_
    obtain ⟨hcall, hpartition, horder⟩ : call.fingerprint = call'.fingerprint ∧
        partition.fingerprint = partition'.fingerprint ∧ orderBy.fingerprint = orderBy'.fingerprint := by
      simpa [fields] using hfields
    exact ⟨call', partition', orderBy', rfl, hsame _ (by simp [children]) _ (by simp [children]) hcall,
      hsame _ (by simp [children]) _ (by simp [children]) hpartition,
      hsame _ (by simp [children]) _ (by simp [children]) horder⟩
  | .partitionList items, b, hkind => by
    refine partitionList.elim b hkind fun items' hfields hsame => ?_
    exact ⟨items', items', rfl, .refl _, alikeEach_of_fields hfields hsame⟩
  | .groupList items, b, hkind => by
    refine groupList.elim b hkind fun items' hfields hsame => ?_
    exact ⟨items', items', rfl, .refl _, alikeEach_of_fields hfields hsame⟩
  | .sortList items, b, hkind => by
    refine sortList.elim b hkind fun items' hfields hsame => ?_
    exact ⟨items', items', rfl, .refl _, alikeEach_of_fields hfields hsame⟩
  | .select items, b, hkind => by
    refine select.elim b hkind fun items' hfields hsame => ?_
    exact ⟨items', rfl, alikeEach_of_fields hfields hsame⟩
  | .sortItem chain dir, b, hkind => by
    refine sortItem.elim b hkind fun chain' dir' hfields hsame => ?_
    obtain ⟨hchain, rfl⟩ : chain.fingerprint = chain'.fingerprint ∧ dir = dir' := by
      simpa [fields] using hfields
    exact ⟨chain', rfl, hsame _ (.head _) _ (.head _) hchain⟩
  | .comparison l op r, b, hkind => by
    refine comparison.elim b hkind fun l' op' r' hfields hsame => ?_
    obtain ⟨hl, rfl, hr⟩ :
        l.fingerprint = l'.fingerprint ∧ op = op' ∧ r.fingerprint = r'.fingerprint := by
      simpa [fields] using hfields
    exact ⟨l', r', rfl, hsame _ (by simp [children]) _ (by simp [children]) hl,
      hsame _ (by simp [children]) _ (by simp [children]) hr⟩
  | .connection l op r, b, hkind => by
    refine connection.elim b hkind fun l' op' r' hfields hsame => ?_
    obtain ⟨hl, rfl, hr⟩ :
        l.fingerprint = l'.fingerprint ∧ op = op' ∧ r.fingerprint = r'.fingerprint := by
      simpa [fields] using hfields
    exact ⟨l', r', rfl, hsame _ (by simp [children]) _ (by simp [children]) hl,
      hsame _ (by simp [children]) _ (by simp [children]) hr⟩
  | .named item asName, b, hkind => by
    refine named.elim b hkind fun item' asName' hfields hsame => ?_
    obtain ⟨hitem, rfl⟩ : item.fingerprint = item'.fingerprint ∧ asName = asName' := by
      simpa [fields] using hfields
    exact ⟨item', rfl, hsame _ (.head _) _ (.head _) hitem⟩
  | .tableSource t _, b, hkind => by
    refine tableSource.elim b hkind fun t' asName' hfields hsame => ?_
    have ht : t.fingerprint = t'.fingerprint := by simpa [fields] using hfields
    exact ⟨t', asName', rfl, hsame _ (.head _) _ (.head _) ht⟩
  | .querySource q _, b, hkind => by
    refine querySource.elim b hkind fun q' asName' hfields hsame => ?_
    have hq : q.fingerprint = q'.fingerprint := by simpa [fields] using hfields
    exact ⟨q', asName', rfl, hsame _ (.head _) _ (.head _) hq⟩
  | .join l r type on, b, hkind => by
    refine join.elim b hkind fun l' r' type' on' hfields hsame => ?_
    obtain ⟨hl, hr, rfl, hon⟩ : l.fingerprint = l'.fingerprint ∧ r.fingerprint = r'.fingerprint ∧
        type = type' ∧ on.fingerprint = on'.fingerprint := by
      simpa [fields] using hfields
    exact ⟨l', r', on', rfl, hsame _ (by simp [children]) _ (by simp [children]) hl,
      hsame _ (by simp [children]) _ (by simp [children]) hr,
      hsame _ (by simp [children]) _ (by simp [children]) hon⟩
  | .query sel source filter groupBy having orderBy isDistinct, b, hkind => by
    refine query.elim b hkind
      fun sel' source' filter' groupBy' having' orderBy' isDistinct' hfields hsame => ?_
    obtain ⟨hsel, hsource, hfilter, hgroup, hhaving, horder, rfl⟩ :
        sel.fingerprint = sel'.fingerprint ∧ source.fingerprint = source'.fingerprint ∧
          filter.fingerprint = filter'.fingerprint ∧ groupBy.fingerprint = groupBy'.fingerprint ∧
          having.fingerprint = having'.fingerprint ∧ orderBy.fingerprint = orderBy'.fingerprint ∧
          isDistinct = isDistinct' := by
      simpa [fields, toNat_bool_inj] using hfields
    exact ⟨sel', source', filter', groupBy', having', orderBy', rfl,
      hsame _ (by simp [children]) _ (by simp [children]) hsel,
      hsame _ (by simp [children]) _ (by simp [children]) hsource,
      hsame _ (by simp [children]) _ (by simp [children]) hfilter,
      hsame _ (by simp [children]) _ (by simp [children]) hgroup,
      hsame _ (by simp [children]) _ (by simp [children]) hhaving,
      hsame _ (by simp [children]) _ (by simp [children]) horder⟩
  | .boundColumn _ _ chain, b, hkind => by
    refine boundColumn.elim b hkind fun qualifier' name' chain' hfields hsame => ?_
    have hchain : chain.fingerprint = chain'.fingerprint := by simpa [fields] using hfields
    exact ⟨qualifier', name', chain', rfl, hsame _ (.head _) _ (.head _) hchain⟩

theorem fields_of_fingerprint_eq (ha : a.IsMade) (hb : b.IsMade) (hapart : HashedApart a b)
    (h : a.fingerprint = b.fingerprint) : a.fields = b.fields := by
  have hkind : a.kind = b.kind := congrArg Fingerprint.kind h
  have hhash : Xxh64.hash Fingerprint.seed a.encoding = Xxh64.hash Fingerprint.seed b.encoding := by
    rw [fingerprint_eq_ofFields, fingerprint_eq_ofFields b] at h
    exact congrArg Fingerprint.hash h
  exact ((encoding_inj ha hb).1 (hapart hkind hhash)).2

theorem alike_of_fingerprint_eq (ha : a.Made) (hb : b.Made)
    (hnone : Throughout (fun c => Throughout (HashedApart c) b) a) (h : a.fingerprint = b.fingerprint) :
    a.Alike b := by
  induction ha generalizing b with
  | @intro a here _ ih =>
    have hfields := fields_of_fingerprint_eq here hb.here hnone.here.here h
    apply alike_of_fields a b _ hfields
    · intro c hc d hd
      exact ih c hc (hb.child hd) ((hnone.child hc).mono fun _ h => h.child hd)
    · exact ctorIdx_congr h.symm

theorem map_fingerprint_of_matched (has : ∃ given, as = sortedByKey given)
    (hbs : ∃ given, bs = sortedByKey given) (hperm : bs.Perm cs)
    (h : as.map fingerprint = cs.map fingerprint) : as.map fingerprint = bs.map fingerprint := by
  obtain ⟨as, rfl⟩ := has
  obtain ⟨bs, rfl⟩ := hbs
  apply map_fingerprint_sortedByKey
  calc
    (as.map fingerprint).Perm ((sortedByKey as).map fingerprint) := ((sortedByKey_perm as).map _).symm
    _ = cs.map fingerprint := h
    List.Perm _ ((sortedByKey bs).map fingerprint) := (hperm.map _).symm
    List.Perm _ (bs.map fingerprint) := (sortedByKey_perm bs).map _

mutual

theorem Alike.fingerprint_eq : (a c : Component) → a.Made → c.Made → a.Alike c →
    a.fingerprint = c.fingerprint
  | .table t, c, _, _, h => by
    obtain ⟨t', rfl, hname, hid⟩ := h
    apply fingerprint_congr
    rw [partsFingerprint, partsFingerprint, Fingerprint.ofTable, Fingerprint.ofTable, hname, hid]
  | .column t name type, c, _, _, h => by
    obtain ⟨t', type', rfl, hname, hid⟩ := h
    apply fingerprint_congr
    rw [partsFingerprint, partsFingerprint, Fingerprint.ofColumn, Fingerprint.ofColumn, hname, hid]
  | .aggChain func arg, c, ha, hc, h => by
    obtain ⟨arg', rfl, harg⟩ := h
    apply fingerprint_congr
    rw [partsFingerprint, partsFingerprint,
      Alike.fingerprint_eq arg arg' (ha.child (by simp [children]))
        (hc.child (by simp [children])) harg]
  | .windowChain func arg, c, ha, hc, h => by
    obtain ⟨arg', rfl, harg⟩ := h
    apply fingerprint_congr
    rw [partsFingerprint, partsFingerprint,
      Alike.fingerprint_eq arg arg' (ha.child (by simp [children]))
        (hc.child (by simp [children])) harg]
  | .aggregation func arg isDistinct, c, ha, hc, h => by
    obtain ⟨arg', rfl, harg⟩ := h
    apply fingerprint_congr
    rw [partsFingerprint, partsFingerprint,
      Alike.fingerprint_eq arg arg' (ha.child (by simp [children]))
        (hc.child (by simp [children])) harg]
  | .aggWindow call partition orderBy, c, ha, hc, h => by
    obtain ⟨call', partition', orderBy', rfl, hcall, hpartition, horderBy⟩ := h
    apply fingerprint_congr
    rw [partsFingerprint, partsFingerprint,
      Alike.fingerprint_eq call call' (ha.child (by simp [children]))
        (hc.child (by simp [children])) hcall,
      Alike.fingerprint_eq partition partition' (ha.child (by simp [children]))
        (hc.child (by simp [children])) hpartition,
      Alike.fingerprint_eq orderBy orderBy' (ha.child (by simp [children]))
        (hc.child (by simp [children])) horderBy]
  | .funcWindow call partition orderBy, c, ha, hc, h => by
    obtain ⟨call', partition', orderBy', rfl, hcall, hpartition, horderBy⟩ := h
    apply fingerprint_congr
    rw [partsFingerprint, partsFingerprint,
      Alike.fingerprint_eq call call' (ha.child (by simp [children]))
        (hc.child (by simp [children])) hcall,
      Alike.fingerprint_eq partition partition' (ha.child (by simp [children]))
        (hc.child (by simp [children])) hpartition,
      Alike.fingerprint_eq orderBy orderBy' (ha.child (by simp [children]))
        (hc.child (by simp [children])) horderBy]
  | .partitionList items, c, ha, hc, h => by
    obtain ⟨items', matched, rfl, hperm, heach⟩ := h
    have hmatched := AlikeEach.fingerprint_eq items matched (fun _ hd => ha.child hd)
      (fun _ hd => hc.child (hperm.mem_iff.2 hd)) heach
    apply fingerprint_congr
    rw [partsFingerprint, partsFingerprint, map_fingerprint_of_matched ha.here hc.here hperm hmatched]
  | .groupList items, c, ha, hc, h => by
    obtain ⟨items', matched, rfl, hperm, heach⟩ := h
    have hmatched := AlikeEach.fingerprint_eq items matched (fun _ hd => ha.child hd)
      (fun _ hd => hc.child (hperm.mem_iff.2 hd)) heach
    apply fingerprint_congr
    rw [partsFingerprint, partsFingerprint, map_fingerprint_of_matched ha.here hc.here hperm hmatched]
  | .sortList items, c, ha, hc, h => by
    obtain ⟨items', matched, rfl, hperm, heach⟩ := h
    have hmatched := AlikeEach.fingerprint_eq items matched (fun _ hd => ha.child hd)
      (fun _ hd => hc.child (hperm.mem_iff.2 hd)) heach
    apply fingerprint_congr
    rw [partsFingerprint, partsFingerprint, map_fingerprint_of_matched ha.here hc.here hperm hmatched]
  | .select items, c, ha, hc, h => by
    obtain ⟨items', rfl, heach⟩ := h
    apply fingerprint_congr
    rw [partsFingerprint, partsFingerprint,
      AlikeEach.fingerprint_eq items items' (fun _ hd => ha.child hd) (fun _ hd => hc.child hd) heach]
  | .sortItem chain dir, c, ha, hc, h => by
    obtain ⟨chain', rfl, hchain⟩ := h
    apply fingerprint_congr
    rw [partsFingerprint, partsFingerprint,
      Alike.fingerprint_eq chain chain' (ha.child (by simp [children]))
        (hc.child (by simp [children])) hchain]
  | .comparison l op r, c, ha, hc, h => by
    obtain ⟨l', r', rfl, hl, hr⟩ := h
    apply fingerprint_congr
    rw [partsFingerprint, partsFingerprint,
      Alike.fingerprint_eq l l' (ha.child (by simp [children])) (hc.child (by simp [children])) hl,
      Alike.fingerprint_eq r r' (ha.child (by simp [children])) (hc.child (by simp [children])) hr]
  | .connection l op r, c, ha, hc, h => by
    obtain ⟨l', r', rfl, hl, hr⟩ := h
    apply fingerprint_congr
    rw [partsFingerprint, partsFingerprint,
      Alike.fingerprint_eq l l' (ha.child (by simp [children])) (hc.child (by simp [children])) hl,
      Alike.fingerprint_eq r r' (ha.child (by simp [children])) (hc.child (by simp [children])) hr]
  | .named item asName, c, ha, hc, h => by
    obtain ⟨item', rfl, hitem⟩ := h
    apply fingerprint_congr
    rw [partsFingerprint, partsFingerprint,
      Alike.fingerprint_eq item item' (ha.child (by simp [children]))
        (hc.child (by simp [children])) hitem]
  | .tableSource t asName, c, ha, hc, h => by
    obtain ⟨t', asName', rfl, ht⟩ := h
    apply fingerprint_congr
    rw [partsFingerprint, partsFingerprint,
      Alike.fingerprint_eq t t' (ha.child (by simp [children])) (hc.child (by simp [children])) ht]
  | .querySource q asName, c, ha, hc, h => by
    obtain ⟨q', asName', rfl, hq⟩ := h
    apply fingerprint_congr
    rw [partsFingerprint, partsFingerprint,
      Alike.fingerprint_eq q q' (ha.child (by simp [children])) (hc.child (by simp [children])) hq]
  | .join l r type on, c, ha, hc, h => by
    obtain ⟨l', r', on', rfl, hl, hr, hon⟩ := h
    apply fingerprint_congr
    rw [partsFingerprint, partsFingerprint,
      Alike.fingerprint_eq l l' (ha.child (by simp [children])) (hc.child (by simp [children])) hl,
      Alike.fingerprint_eq r r' (ha.child (by simp [children])) (hc.child (by simp [children])) hr,
      Alike.fingerprint_eq on on' (ha.child (by simp [children])) (hc.child (by simp [children])) hon]
  | .query sel source filter groupBy having orderBy isDistinct, c, ha, hc, h => by
    obtain ⟨sel', source', filter', groupBy', having', orderBy', rfl, hsel, hsource, hfilter, hgroupBy,
      hhaving, horderBy⟩ := h
    apply fingerprint_congr
    rw [partsFingerprint, partsFingerprint,
      Alike.fingerprint_eq sel sel' (ha.child (by simp [children]))
        (hc.child (by simp [children])) hsel,
      Alike.fingerprint_eq source source' (ha.child (by simp [children]))
        (hc.child (by simp [children])) hsource,
      Alike.fingerprint_eq filter filter' (ha.child (by simp [children]))
        (hc.child (by simp [children])) hfilter,
      Alike.fingerprint_eq groupBy groupBy' (ha.child (by simp [children]))
        (hc.child (by simp [children])) hgroupBy,
      Alike.fingerprint_eq having having' (ha.child (by simp [children]))
        (hc.child (by simp [children])) hhaving,
      Alike.fingerprint_eq orderBy orderBy' (ha.child (by simp [children]))
        (hc.child (by simp [children])) horderBy]
  | .boundColumn qualifier name chain, c, ha, hc, h => by
    obtain ⟨qualifier', name', chain', rfl, hchain⟩ := h
    apply fingerprint_congr
    rw [partsFingerprint, partsFingerprint,
      Alike.fingerprint_eq chain chain' (ha.child (by simp [children]))
        (hc.child (by simp [children])) hchain]
  | .int _, c, _, _, h | .float _, c, _, _, h | .str _, c, _, _, h | .absent, c, _, _, h
  | .distinct, c, _, _, h | .compareOp _, c, _, _, h | .logicOp _, c, _, _, h
  | .joinType _, c, _, _, h | .aggFunc _, c, _, _, h | .windowFunc _, c, _, _, h
  | .sortDir _, c, _, _, h | .windowClause _, c, _, _, h => congrArg fingerprint h

theorem AlikeEach.fingerprint_eq : (as cs : List Component) → (∀ a ∈ as, a.Made) →
    (∀ c ∈ cs, c.Made) → AlikeEach as cs → as.map fingerprint = cs.map fingerprint
  | [], cs, _, _, h => by rw [h]
  | a :: as, cs, has, hcs, h => by
    obtain ⟨c, cs, rfl, ha, heach⟩ := h
    rw [List.forall_mem_cons] at has hcs
    rw [List.map_cons, List.map_cons, Alike.fingerprint_eq a c has.1 hcs.1 ha,
      AlikeEach.fingerprint_eq as cs has.2 hcs.2 heach]

end

theorem fingerprint_listsOf (h : (as.map fingerprint).Perm (bs.map fingerprint)) :
    (groupListOf as).fingerprint = (groupListOf bs).fingerprint ∧
    (partitionListOf as).fingerprint = (partitionListOf bs).fingerprint ∧
    (sortListOf as).fingerprint = (sortListOf bs).fingerprint := by
  have hsorted := map_fingerprint_sortedByKey h
  refine ⟨fingerprint_congr ?_, fingerprint_congr ?_, fingerprint_congr ?_⟩
  · rw [groupListOf, groupListOf, partsFingerprint, partsFingerprint, hsorted]
  · rw [partitionListOf, partitionListOf, partsFingerprint, partsFingerprint, hsorted]
  · rw [sortListOf, sortListOf, partsFingerprint, partsFingerprint, hsorted]

theorem listsOf_perm (h : as.Perm bs) : (groupListOf as == groupListOf bs) = true ∧
    (partitionListOf as == partitionListOf bs) = true ∧ (sortListOf as == sortListOf bs) = true := by
  obtain ⟨hgroups, hpartitions, hkeys⟩ := fingerprint_listsOf (h.map fingerprint)
  exact ⟨beq_iff.2 hgroups, beq_iff.2 hpartitions, beq_iff.2 hkeys⟩

/-- Equality is being the same tree, unless the hash collides on two of the components inside: the fields
of a component can be told from their bytes, and lists do not depend on the order of their items. -/
theorem beq_iff_alike (ha : a.Made) (hb : b.Made)
    (hnone : Throughout (fun c => Throughout (HashedApart c) b) a) :
    ((a == b) = true ↔ a.Alike b) ∧
      (∀ c d : Component, c.IsMade → d.IsMade →
        (c.encoding = d.encoding ↔ c.kind = d.kind ∧ c.fields = d.fields)) ∧
      ∀ as bs : List Component, as.Perm bs → (groupListOf as == groupListOf bs) = true ∧
        (partitionListOf as == partitionListOf bs) = true ∧ (sortListOf as == sortListOf bs) = true := by
  refine ⟨?_, fun c d => encoding_inj, fun as bs => listsOf_perm⟩
  rw [beq_iff]
  exact ⟨alike_of_fingerprint_eq ha hb hnone, Alike.fingerprint_eq a b ha hb⟩

theorem throughout_groupPair {p : Component → Prop} (here : p (groupListOf [c, d]))
    (hc : Throughout p c) (hd : Throughout p d) : Throughout p (groupListOf [c, d]) :=
  throughout_sorted here rfl (by simp [hc, hd])

theorem encoding_column (t : Table) (name : String) (type : DataType) : (column t name type).encoding =
    Fingerprint.encoding .column [.text t.name, .word t.id, .text name] := by
  rw [encoding, (kind_eq_iff _ .column).2 rfl, fields]

theorem encoding_groupListOf (cs : List Component) : (groupListOf cs).encoding =
    Fingerprint.encoding .groupList (((sortedByKey cs).map fingerprint).map .component) := by
  rw [encoding, (kind_eq_iff _ .groupList).2 rfl, groupListOf, fields]

theorem beq_iff_alike_groups :
    let t : Table := ⟨"t", [("x", .number)], 0⟩
    let t' : Table := ⟨"t", [("y", .number)], 0⟩
    let a := groupListOf [.column t "x" .number, .column t "y" .str]
    let b := groupListOf [.column t' "y" .number, .column t' "x" .number]
    a.Made ∧ b.Made ∧ Throughout (fun c => Throughout (HashedApart c) b) a ∧
      ((a == b) = true ↔ a.Alike b) := by
  intro t t' a b
  have ha : a.Made := throughout_groupPair ⟨_, rfl⟩ (throughout_leaf ⟨by decide, by decide⟩ rfl)
    (throughout_leaf ⟨by decide, by decide⟩ rfl)
  have hb : b.Made := throughout_groupPair ⟨_, rfl⟩ (throughout_leaf ⟨by decide, by decide⟩ rfl)
    (throughout_leaf ⟨by decide, by decide⟩ rfl)
  have hlist (cs : List Component) : (groupListOf cs).kind = .groupList := (kind_eq_iff _ _).2 rfl
  have hcolumn (u : Table) (name : String) (type : DataType) : (column u name type).kind = .column :=
    (kind_eq_iff _ _).2 rfl
  have hlists : HashedApart a b := by
    intro _ _
    have hkeys : ([column t "x" .number, column t "y" .str].map fingerprint).Perm
        ([column t' "y" .number, column t' "x" .number].map fingerprint) := by
      simpa [Fingerprint.ofColumn, t, t'] using .swap _ _ []
    rw [encoding_groupListOf, encoding_groupListOf, map_fingerprint_sortedByKey hkeys]
  have hmixed (cs : List Component) (name : String) : HashedApart (groupListOf cs) (column t' name .number) := by
    intro h
    rw [hlist, hcolumn] at h
    cases h
  have hmixed' (cs : List Component) (name : String) (type : DataType) :
      HashedApart (column t name type) (groupListOf cs) := by
    intro h
    rw [hlist, hcolumn] at h
    cases h
  have hsame (name : String) (type : DataType) : HashedApart (column t name type) (column t' name .number) := by
    intro _ _
    rw [encoding_column, encoding_column]
  have hxy : HashedApart (column t "x" .number) (column t' "y" .number) := by
    rw [HashedApart, encoding_column, encoding_column]
    intro _
    decide +kernel
  have hyx : HashedApart (column t "y" .str) (column t' "x" .number) := by
    rw [HashedApart, encoding_column, encoding_column]
    intro _
    decide +kernel
  have hnone : Throughout (fun c => Throughout (HashedApart c) b) a := by
    refine throughout_groupPair (throughout_groupPair hlists ?_ ?_) (throughout_leaf ?_ rfl)
      (throughout_leaf ?_ rfl)
    · exact throughout_leaf (hmixed _ _) rfl
    · exact throughout_leaf (hmixed _ _) rfl
    · exact throughout_groupPair (hmixed' _ _ _) (throughout_leaf hxy rfl) (throughout_leaf (hsame _ _) rfl)
    · exact throughout_groupPair (hmixed' _ _ _) (throughout_leaf (hsame _ _) rfl) (throughout_leaf hyx rfl)
  exact ⟨ha, hb, hnone, (beq_iff_alike ha hb hnone).1⟩

end Identity

end Component

end QuerySearch
