import QuerySearch.Proofs.Component.Kinds

/-! The hash of a component is taken over its fields, written one after the other without a count.
What kind it is says how each of them is written, so the bytes give them back. -/

namespace QuerySearch

namespace Fingerprint

inductive Shape where
  | tag | word | text | component
  deriving DecidableEq

namespace Field

def shape : Field → Shape
  | tag _ => .tag
  | word _ => .word
  | text _ => .text
  | component _ => .component

def Fits : Field → Prop
  | tag n => n < UInt8.size
  | text s => s.utf8ByteSize < UInt64.size
  | _ => True

end Field

theorem toList_loop_eq (bytes : ByteArray) (i : Nat) (read : List UInt8) :
    ByteArray.toList.loop bytes i read = read.reverse ++ bytes.data.toList.drop i := by
  fun_induction ByteArray.toList.loop bytes i read with
  | case1 i read h ih =>
    rw [ih, List.drop_eq_getElem_cons (i := i) (by simpa using h)]
    simp [ByteArray.get!, h]
  | case2 i read h => rw [List.drop_eq_nil_of_le (by simpa using h), List.append_nil]

theorem toList_eq_data (bytes : ByteArray) : bytes.toList = bytes.data.toList :=
  toList_loop_eq bytes 0 []

theorem utf8_injective {s t : String} (h : s.toUTF8.toList = t.toUTF8.toList) : s = t := by
  rw [toList_eq_data, toList_eq_data] at h
  exact String.toByteArray_inj.1 (ByteArray.ext (Array.toList_inj.1 h))

theorem length_utf8 (s : String) : s.toUTF8.toList.length = s.utf8ByteSize := by
  rw [toList_eq_data]
  rfl

theorem wordBytes_injective {v w : UInt64} (h : wordBytes v = wordBytes w) : v = w := by
  simp only [wordBytes, List.cons.injEq, and_true, ← UInt8.toNat_inj, UInt64.toNat_toUInt8,
    UInt64.toNat_shiftRight, Nat.shiftRight_eq_div_pow, UInt64.reduceToNat, Nat.reduceMod,
    Nat.reducePow] at h
  apply UInt64.toNat_inj.1
  have hv := v.toNat_lt
  have hw := w.toNat_lt
  omega

theorem tagByte_injective {m n : Nat} (hm : m < UInt8.size) (hn : n < UInt8.size)
    (h : m.toUInt8 = n.toUInt8) : m = n := by
  rw [← UInt8.toNat_ofNat_of_lt' hm, ← UInt8.toNat_ofNat_of_lt' hn]
  exact congrArg UInt8.toNat h

theorem lengthWord_injective {m n : Nat} (hm : m < UInt64.size) (hn : n < UInt64.size)
    (h : m.toUInt64 = n.toUInt64) : m = n := by
  rw [← UInt64.toNat_ofNat_of_lt' hm, ← UInt64.toNat_ofNat_of_lt' hn]
  exact congrArg UInt64.toNat h

theorem kindByte_injective {k l : Kind} (h : k.rank.toUInt8 = l.rank.toUInt8) : k = l := by
  have hk := k.rank_lt
  have hl := l.rank_lt
  exact Kind.rank_injective (tagByte_injective (Nat.lt_trans hk (by decide)) (Nat.lt_trans hl (by decide)) h)

namespace Field

variable {f g : Field} {fs gs : List Field} {bs cs : List UInt8}

theorem bytes_ne_nil (f : Field) : f.bytes ≠ [] := by
  cases f <;> simp [bytes, wordBytes]

theorem append_bytes_inj (hf : f.Fits) (hg : g.Fits) (hshape : f.shape = g.shape)
    (h : f.bytes ++ bs = g.bytes ++ cs) : f = g ∧ bs = cs := by
  cases f <;> cases g <;> simp only [shape, reduceCtorEq] at hshape
  case tag.tag m n =>
    simp only [bytes, List.cons_append, List.nil_append, List.cons.injEq] at h
    exact ⟨congrArg tag (tagByte_injective hf hg h.1), h.2⟩
  case word.word v w =>
    obtain ⟨hword, hrest⟩ := List.append_inj h rfl
    exact ⟨congrArg word (wordBytes_injective hword), hrest⟩
  case text.text s t =>
    simp only [bytes, List.append_assoc] at h
    obtain ⟨hsize, h⟩ := List.append_inj h rfl
    have hlength := lengthWord_injective hf hg (wordBytes_injective hsize)
    obtain ⟨htext, hrest⟩ := List.append_inj h (by rw [length_utf8, length_utf8, hlength])
    exact ⟨congrArg text (utf8_injective htext), hrest⟩
  case component.component a b =>
    simp only [bytes, List.cons_append, List.cons.injEq] at h
    obtain ⟨hword, hrest⟩ := List.append_inj h.2 rfl
    have hsame : a = b := by
      cases a
      cases b
      rw [Fingerprint.mk.injEq]
      exact ⟨kindByte_injective h.1, wordBytes_injective hword⟩
    exact ⟨congrArg component hsame, hrest⟩

/-- The fields are written as a layout says; what comes after those that it lists are components. -/
def Laid : List Shape → List Field → Prop
  | _, [] => True
  | [], f :: fs => f.shape = .component ∧ Laid [] fs
  | s :: shapes, f :: fs => f.shape = s ∧ Laid shapes fs

theorem laid_components (items : List Fingerprint) : Laid [] (items.map component) := by
  induction items with
  | nil => trivial
  | cons item items ih => exact ⟨rfl, ih⟩

theorem flatMap_bytes_inj {shapes : List Shape} (hfs : Laid shapes fs) (hgs : Laid shapes gs)
    (hf : ∀ f ∈ fs, f.Fits) (hg : ∀ g ∈ gs, g.Fits) (h : fs.flatMap bytes = gs.flatMap bytes) :
    fs = gs := by
  induction fs generalizing shapes gs with
  | nil =>
    cases gs with
    | nil => rfl
    | cons g gs => exact absurd (List.append_eq_nil_iff.1 h.symm).1 g.bytes_ne_nil
  | cons f fs ih =>
    cases gs with
    | nil => exact absurd (List.append_eq_nil_iff.1 h).1 f.bytes_ne_nil
    | cons g gs =>
      rw [List.forall_mem_cons] at hf hg
      obtain ⟨hshape, shapes', hfs', hgs'⟩ :
          f.shape = g.shape ∧ ∃ shapes', Laid shapes' fs ∧ Laid shapes' gs := by
        cases shapes with
        | nil => exact ⟨hfs.1.trans hgs.1.symm, _, hfs.2, hgs.2⟩
        | cons s shapes => exact ⟨hfs.1.trans hgs.1.symm, _, hfs.2, hgs.2⟩
      obtain ⟨rfl, hrest⟩ := append_bytes_inj hf.1 hg.1 hshape h
      rw [ih hfs' hgs' hf.2 hg.2 hrest]

end Field

end Fingerprint

@[simp] theorem CompareOp.ctorIdx_inj {a b : CompareOp} : a.ctorIdx = b.ctorIdx ↔ a = b :=
  ⟨fun h => by rw [← ofNat_ctorIdx a, h, ofNat_ctorIdx], congrArg _⟩

@[simp] theorem LogicOp.ctorIdx_inj {a b : LogicOp} : a.ctorIdx = b.ctorIdx ↔ a = b :=
  ⟨fun h => by rw [← ofNat_ctorIdx a, h, ofNat_ctorIdx], congrArg _⟩

@[simp] theorem JoinType.ctorIdx_inj {a b : JoinType} : a.ctorIdx = b.ctorIdx ↔ a = b :=
  ⟨fun h => by rw [← ofNat_ctorIdx a, h, ofNat_ctorIdx], congrArg _⟩

@[simp] theorem AggFunc.ctorIdx_inj {a b : AggFunc} : a.ctorIdx = b.ctorIdx ↔ a = b :=
  ⟨fun h => by rw [← ofNat_ctorIdx a, h, ofNat_ctorIdx], congrArg _⟩

@[simp] theorem WindowFunc.ctorIdx_inj {a b : WindowFunc} : a.ctorIdx = b.ctorIdx ↔ a = b := by
  cases a
  cases b
  simp

@[simp] theorem SortDir.ctorIdx_inj {a b : SortDir} : a.ctorIdx = b.ctorIdx ↔ a = b :=
  ⟨fun h => by rw [← ofNat_ctorIdx a, h, ofNat_ctorIdx], congrArg _⟩

open Fingerprint (Shape Field)

theorem toNat_bool_inj {a b : Bool} : a.toNat = b.toNat ↔ a = b := by
  cases a <;> cases b <;> simp

def Kind.layout : Kind → List Shape
  | table => [.text, .word]
  | column => [.text, .word, .text]
  | int | float => [.word]
  | str => [.text]
  | compareOp | logicOp | joinType | aggFunc | windowFunc | sortDir | windowClause => [.tag]
  | aggChain | windowChain => [.tag]
  | aggregation => [.tag, .component, .tag]
  | sortItem | comparison | connection => [.component, .tag]
  | named => [.component, .text]
  | join => [.component, .component, .tag]
  | query => [.component, .component, .component, .component, .component, .component, .tag]
  | _ => []

namespace Component

/-- What the hash of a component is taken over.  What sources are called, what the columns of a table
are, the type of a column and what a bound column is called are not part of it. -/
def fields : Component → List Field
  | .table t => [.text t.name, .word t.id]
  | .column t name _ => [.text t.name, .word t.id, .text name]
  | .aggChain func arg => [.tag func.ctorIdx, .component arg.fingerprint]
  | .windowChain func arg => [.tag func.ctorIdx, .component arg.fingerprint]
  | .int v => [.word v.toUInt64]
  | .float v => [.word v.bits]
  | .str s => [.text s]
  | .absent | .distinct => []
  | .compareOp op => [.tag op.ctorIdx]
  | .logicOp op => [.tag op.ctorIdx]
  | .joinType type => [.tag type.ctorIdx]
  | .aggFunc func => [.tag func.ctorIdx]
  | .windowFunc func | .windowClause func => [.tag func.ctorIdx]
  | .sortDir dir => [.tag dir.ctorIdx]
  | .aggregation func arg isDistinct =>
    [.tag func.ctorIdx, .component arg.fingerprint, .tag isDistinct.toNat]
  | .aggWindow call partition orderBy | .funcWindow call partition orderBy =>
    [call, partition, orderBy].map fun c => .component c.fingerprint
  | .partitionList items | .groupList items | .sortList items | .select items =>
    (items.map fingerprint).map .component
  | .sortItem chain dir => [.component chain.fingerprint, .tag dir.ctorIdx]
  | .comparison l op r => [.component l.fingerprint, .tag op.ctorIdx, .component r.fingerprint]
  | .connection l op r => [.component l.fingerprint, .tag op.ctorIdx, .component r.fingerprint]
  | .named item asName => [.component item.fingerprint, .text asName]
  | .tableSource t _ => [.component t.fingerprint]
  | .querySource q _ => [.component q.fingerprint]
  | .join l r type on => [.component l.fingerprint, .component r.fingerprint, .tag type.ctorIdx,
    .component on.fingerprint]
  | .query sel source filter groupBy having orderBy isDistinct =>
    [.component sel.fingerprint, .component source.fingerprint, .component filter.fingerprint,
      .component groupBy.fingerprint, .component having.fingerprint, .component orderBy.fingerprint,
      .tag isDistinct.toNat]
  | .boundColumn _ _ chain => [.component chain.fingerprint]

def encoding (c : Component) : List UInt8 := Fingerprint.encoding c.kind c.fields

theorem fingerprint_eq_ofFields (c : Component) : c.fingerprint = .ofFields c.kind c.fields := by
  rw [kind, fingerprint_eq]
  cases c <;> rfl

theorem laid_fields (c : Component) : Field.Laid c.kind.layout c.fields := by
  rw [kind, fingerprint_eq]
  cases c with
  | absent | distinct => trivial
  | partitionList items | groupList items | sortList items | select items =>
    exact Field.laid_components _
  | int _ | float _ | str _ | compareOp _ | logicOp _ | joinType _ | aggFunc _ | windowFunc _ | sortDir _
  | windowClause _ | tableSource _ _ | querySource _ _ | boundColumn _ _ _ => exact ⟨rfl, trivial⟩
  | table _ | aggChain _ _ | windowChain _ _ | sortItem _ _ | named _ _ => exact ⟨rfl, rfl, trivial⟩
  | column _ _ _ | aggregation _ _ _ | aggWindow _ _ _ | funcWindow _ _ _ | comparison _ _ _
  | connection _ _ _ => exact ⟨rfl, rfl, rfl, trivial⟩
  | join _ _ _ _ => exact ⟨rfl, rfl, rfl, rfl, trivial⟩
  | query _ _ _ _ _ _ _ => exact ⟨rfl, rfl, rfl, rfl, rfl, rfl, rfl, trivial⟩

end Component

end QuerySearch
