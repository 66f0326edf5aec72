import Mathlib.Data.List.Forall2
import QuerySearch.Binding.Query

/-! What it means for a query to be another one with its names bound: without its columns it is the
other one again, and every column stands for a place that its level can read. -/

namespace QuerySearch.Component

mutual

/-- The component with its columns replaced by the chains they are read for. -/
def unbound : Component → Component
  | .boundColumn _ _ chain => chain
  | .aggregation func arg isDistinct => .aggregation func arg.unbound isDistinct
  | .aggWindow call partition orderBy => .aggWindow call.unbound partition.unbound orderBy.unbound
  | .funcWindow call partition orderBy => .funcWindow call.unbound partition.unbound orderBy.unbound
  | .partitionList items => partitionListOf (unboundAll items)
  | .groupList items => groupListOf (unboundAll items)
  | .sortList items => sortListOf (unboundAll items)
  | .sortItem chain dir => .sortItem chain.unbound dir
  | .comparison l op r => .comparison l.unbound op r.unbound
  | .connection l op r => .connection l.unbound op r.unbound
  | .named item asName => .named item.unbound asName
  | c => c

def unboundAll : List Component → List Component
  | [] => []
  | c :: cs => c.unbound :: unboundAll cs

end

def unboundKey : Component → Component
  | .sortItem (.aggregation func arg _) dir => .sortItem (.aggChain func arg.unbound) dir
  | c => c.unbound

def unboundKeys : Component → Component
  | .sortList items => sortListOf (items.map unboundKey)
  | c => c.unbound

mutual

/-- The same component, up to the order of groups, partitions and sort keys. -/
def Reordered : Component → Component → Prop
  | .aggChain func arg, c => ∃ arg', c = .aggChain func arg' ∧ Reordered arg arg'
  | .aggregation func arg isDistinct, c =>
    ∃ arg', c = .aggregation func arg' isDistinct ∧ Reordered arg arg'
  | .aggWindow call partition orderBy, c => ∃ call' partition' orderBy',
    c = .aggWindow call' partition' orderBy' ∧ Reordered call call' ∧
      Reordered partition partition' ∧ Reordered orderBy orderBy'
  | .funcWindow call partition orderBy, c => ∃ call' partition' orderBy',
    c = .funcWindow call' partition' orderBy' ∧ Reordered call call' ∧
      Reordered partition partition' ∧ Reordered orderBy orderBy'
  | .partitionList items, c => ∃ items', c = .partitionList items' ∧ ReorderedAll items items'
  | .groupList items, c => ∃ items', c = .groupList items' ∧ ReorderedAll items items'
  | .sortList items, c => ∃ items', c = .sortList items' ∧ ReorderedAll items items'
  | .sortItem chain dir, c => ∃ chain', c = .sortItem chain' dir ∧ Reordered chain chain'
  | .comparison l op r, c => ∃ l' r', c = .comparison l' op r' ∧ Reordered l l' ∧ Reordered r r'
  | .connection l op r, c => ∃ l' r', c = .connection l' op r' ∧ Reordered l l' ∧ Reordered r r'
  | .named item asName, c => ∃ item', c = .named item' asName ∧ Reordered item item'
  | a, c => a = c

def ReorderedAll : List Component → List Component → Prop
  | [], cs => cs = []
  | a :: as, cs => ∃ c cs', cs.Perm (c :: cs') ∧ Reordered a c ∧ ReorderedAll as cs'

end

def Restores (restore : Component → Component) (c' c : Component) : Prop :=
  Reordered (restore c') c ∧ (restore c').fingerprint = c.fingerprint

mutual

def readings : Component → List (Place × Component)
  | .boundColumn qualifier name chain => (⟨qualifier, name⟩, chain) :: chain.readings
  | .aggChain _ arg | .windowChain _ arg | .aggregation _ arg _ => arg.readings
  | .aggWindow call partition orderBy | .funcWindow call partition orderBy =>
    call.readings ++ partition.readings ++ orderBy.readings
  | .partitionList items | .groupList items | .sortList items | .select items => readingsAll items
  | .sortItem chain _ => chain.readings
  | .comparison l _ r => l.readings ++ r.readings
  | .connection l _ r => l.readings ++ r.readings
  | .named item _ => item.readings
  | _ => []

def readingsAll : List Component → List (Place × Component)
  | [] => []
  | c :: cs => c.readings ++ readingsAll cs

end

def leaves : Component → List Component
  | .join l r .. => l.leaves ++ r.leaves
  | c => [c]

/-- The source has the name of the place, and a column of the place's name that is the chain. -/
def Exposes (chain : Fingerprint) (p : Place) : Component → Prop
  | .tableSource t asName => asName = some p.source ∧
    ∃ table type, .column table p.column type ∈ t.provided ∧ .ofColumn table p.column = chain
  | .querySource (.query (.select items) ..) asName => asName = some p.source ∧
    ∃ item, .named item p.column ∈ items ∧ chain ∈ item.provided.map fingerprint
  | _ => False

def InSource (source : Component) (chain : Fingerprint) (p : Place) : Prop :=
  p.source ≠ "" ∧ ∃ leaf ∈ source.leaves, leaf.Exposes chain p

def InOutputs (items : List Component) (chain : Fingerprint) (p : Place) : Prop :=
  p.source = "" ∧ ∃ item, .named item p.column ∈ items ∧ chain ∈ item.provided.map fingerprint

def ItemBound (source item item' : Component) : Prop :=
  ∃ inner asName, item' = .named inner asName ∧
    ((∃ given, item = .named given asName ∧ Restores unbound inner given) ∨
      (∀ given n, item ≠ .named given n) ∧ Restores unbound inner item) ∧
    ∀ r ∈ inner.readings, InSource source r.2.fingerprint r.1

mutual

inductive SourceBound : Component → Component → Prop
  | table {t : Component} {asName : Option String} {a : String} (ha : ∀ n ∈ asName, n = a) :
    SourceBound (.tableSource t asName) (.tableSource t (some a))
  | query {q q' : Component} {asName : Option String} {a : String} (ha : ∀ n ∈ asName, n = a)
    (hq : QueryBound q q') : SourceBound (.querySource q asName) (.querySource q' (some a))
  | join {l l' r r' on on' : Component} {type : JoinType} (hl : SourceBound l l')
    (hr : SourceBound r r') (hon : Restores unbound on' on)
    (hreads : ∀ x ∈ on'.readings, InSource (.join l' r' type on') x.2.fingerprint x.1) :
    SourceBound (.join l r type on) (.join l' r' type on')

/-- `c'` is the query `c` with its names bound. -/
inductive QueryBound : Component → Component → Prop
  | query {given items : List Component} {source source' filter filter' groupBy groupBy' having
      having' orderBy orderBy' : Component} {isDistinct : Bool} (hsource : SourceBound source source')
    (hitems : List.Forall₂ (ItemBound source') given items) (hfilter : Restores unbound filter' filter)
    (hgroup : Restores unbound groupBy' groupBy) (hhaving : Restores unbound having' having)
    (horder : Restores unboundKeys orderBy' orderBy)
    (hreads : ∀ c ∈ [filter', groupBy', having'], ∀ r ∈ c.readings,
      InSource source' r.2.fingerprint r.1)
    (hkeys : ∀ r ∈ orderBy'.readings,
      InSource source' r.2.fingerprint r.1 ∨ InOutputs items r.2.fingerprint r.1) :
    QueryBound (.query (.select given) source filter groupBy having orderBy isDistinct)
      (.query (.select items) source' filter' groupBy' having' orderBy' isDistinct)

end

def IsChain : Component → Prop
  | .column .. | .aggChain .. | .windowChain .. | .int _ | .float _ | .str _ | .absent => True
  | _ => False

def SortsChains : Component → Prop
  | .absent => True
  | .sortList items => ∀ c ∈ items, ∃ chain dir, c = .sortItem chain dir ∧ chain.IsChain
  | _ => False

mutual

/-- Nothing is bound yet: there are no columns, lists are as their constructors make them, no source
has the empty name, and the sort keys of queries are chains. -/
def Unnamed : Component → Prop
  | .boundColumn .. => False
  | .aggChain _ arg | .windowChain _ arg | .aggregation _ arg _ => arg.Unnamed
  | .aggWindow call partition orderBy | .funcWindow call partition orderBy =>
    call.Unnamed ∧ partition.Unnamed ∧ orderBy.Unnamed
  | .partitionList items | .groupList items | .sortList items =>
    sortedByKey items = items ∧ AllUnnamed items
  | .select items => AllUnnamed items
  | .sortItem chain _ => chain.Unnamed
  | .comparison l _ r => l.Unnamed ∧ r.Unnamed
  | .connection l _ r => l.Unnamed ∧ r.Unnamed
  | .named item _ => item.Unnamed
  | .tableSource t asName => t.Unnamed ∧ asName ≠ some ""
  | .querySource q asName => q.Unnamed ∧ asName ≠ some ""
  | .join l r _ on => l.Unnamed ∧ r.Unnamed ∧ on.Unnamed
  | .query sel source filter groupBy having orderBy _ => sel.Unnamed ∧ source.Unnamed ∧
    filter.Unnamed ∧ groupBy.Unnamed ∧ having.Unnamed ∧ orderBy.Unnamed ∧ orderBy.SortsChains
  | _ => True

def AllUnnamed : List Component → Prop
  | [] => True
  | c :: cs => c.Unnamed ∧ AllUnnamed cs

end

end QuerySearch.Component
