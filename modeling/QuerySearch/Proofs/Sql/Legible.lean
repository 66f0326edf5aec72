import QuerySearch.Proofs.Sql.BareNames
import QuerySearch.Proofs.Sql.Strata

/-! Conditions on all parts of a statement, and those under which its text reads back.  The text gives
neither quotes to a name nor parentheses to the operands of comparisons and null tests. -/

namespace QuerySearch.Sql

/-- What is asked of the parts of a statement. -/
structure Conditions (α : Type) where
  name : String → Prop
  constant : α → Prop
  comparison : (lhs rhs : Expr α) → Prop
  nullTest : (arg : Expr α) → Prop
  call : (star : Bool) → (args : List (Expr α)) → Prop
  items : List (SelectItem α) → Prop

section Traverse

variable {α : Type} (C : Conditions α)

mutual

def Expr.All : Expr α → Prop
  | .column c => (∀ q ∈ c.qualifier, C.name q) ∧ C.name c.name
  | .constant a => C.constant a
  | .compare l _ r => C.comparison l r ∧ l.All ∧ r.All
  | .logic l _ r => l.All ∧ r.All
  | .not e => e.All
  | .isNull e _ => C.nullTest e ∧ e.All
  | .call name _ star args window =>
    C.name name ∧ C.call star args ∧ Expr.AllOf args ∧ Window.All window
  | .subquery q => q.All

def Expr.AllOf : List (Expr α) → Prop
  | [] => True
  | e :: es => e.All ∧ Expr.AllOf es

def Expr.All? : Option (Expr α) → Prop
  | none => True
  | some e => e.All

def Window.All : Option (Window α) → Prop
  | none => True
  | some ⟨partitionBy, orderBy⟩ => Expr.AllOf partitionBy ∧ SortKey.AllOf orderBy

def SortKey.AllOf : List (SortKey α) → Prop
  | [] => True
  | ⟨e, _⟩ :: ks => e.All ∧ SortKey.AllOf ks

def SelectItem.AllOf : List (SelectItem α) → Prop
  | [] => True
  | .star :: is => SelectItem.AllOf is
  | .expr e asName :: is => e.All ∧ (∀ a ∈ asName, C.name a) ∧ SelectItem.AllOf is

def TableRef.All : TableRef α → Prop
  | .table name asName => C.name name ∧ ∀ a ∈ asName, C.name a
  | .query q asName => q.All ∧ ∀ a ∈ asName, C.name a
  | .join l r _ on => l.All ∧ r.All ∧ Expr.All? on

def TableRef.AllOf : List (TableRef α) → Prop
  | [] => True
  | t :: ts => t.All ∧ TableRef.AllOf ts

def Select.All : Select α → Prop
  | ⟨_, items, sources, filter, groupBy, having, orderBy⟩ =>
    C.items items ∧ SelectItem.AllOf items ∧ TableRef.AllOf sources ∧ Expr.All? filter ∧
      Expr.AllOf groupBy ∧ Expr.All? having ∧ SortKey.AllOf orderBy

end

end Traverse

def grammatical {α : Type} (constant : α → Prop) : Conditions α where
  name _ := True
  constant := constant
  comparison _ _ := True
  nullTest _ := True
  call star args := star = true → args = []
  items is := is ≠ []

def parsed : Conditions Literal := grammatical fun _ => True

def finite : Conditions Constant := grammatical Constant.Finite

/-- A name that is read as itself where it stands without quotes. -/
def BareName (s : String) : Prop :=
  (s.toList.head?.any fun c => isLetter c || c == '_') = true ∧
    (s.toList.all fun c => isWordChar c && c.toLower == c) = true ∧ s ∉ reservedWords

instance (s : String) : Decidable (BareName s) := inferInstanceAs (Decidable (_ ∧ _ ∧ _))

theorem BareName.nameText {s : String} (h : BareName s) : NameText s.toList s := by
  obtain ⟨hfirst, hall, hs⟩ := h
  have hchars : ∀ c ∈ s.toList, isWordChar c = true ∧ c.toLower = c := by simpa using hall
  cases ht : s.toList with
  | nil => simp [ht] at hfirst
  | cons c t =>
    rw [ht] at hfirst hchars
    have hlower : (c :: t).map Char.toLower = s.toList := by
      rw [ht]
      exact (List.map_congr_left fun d hd => (hchars d hd).2).trans (List.map_id' _)
    exact nameText_bare hfirst (fun d hd => (hchars d (.tail c hd)).1) hlower hs

/-- What the text of an expression looks like on its outside: an operand, one with its null test, comparisons
of these, a negation, or comparisons that end in a negation. -/
inductive Stratum where
  | operand | tested | compared | negation | negated
  deriving DecidableEq

def Expr.stratum {α : Type} : Expr α → Stratum
  | .compare _ _ r => if r.stratum = .negation then .negated else .compared
  | .not _ => .negation
  | .isNull .. => .tested
  | _ => .operand

/-- Comparisons are read from left to right and take a negation only at their end; a null test is read of
the operand in front of it. -/
def legible : Conditions Constant where
  name := BareName
  constant := Constant.Legible
  comparison l r :=
    l.stratum ∈ [.operand, .tested, .compared] ∧ r.stratum ∈ [.operand, .tested, .negation]
  nullTest e := e.stratum = .operand
  call _ _ := True
  items _ := True

def Select.Legible (q : Select Constant) : Prop := q.All legible

namespace Stratum

open QuerySearch.Sql.Token

def Holds {α : Type} : Stratum → List (Token α) → Expr α → Prop
  | operand, ts, e => ts = [.operand e]
  | tested, ts, e => Tested ts e
  | compared, ts, e => Compared ts e
  | negation, ts, e => ∃ us arg, ts = .not :: us ∧ e = .not arg ∧ Negated us arg
  | negated, ts, e => Negated ts e

variable {α : Type} {s : Stratum} {ts us : List (Token α)} {e l r : Expr α}

theorem Holds.tested (h : s.Holds ts e) (hs : s ∈ [.operand, .tested]) : Tested ts e := by
  simp only [List.mem_cons, List.not_mem_nil, or_false] at hs
  obtain rfl | rfl := hs
  · cases h
    exact .plain e
  · exact h

theorem Holds.compared (h : s.Holds ts e) (hs : s ∈ [.operand, .tested, .compared]) : Compared ts e := by
  cases s with
  | operand => exact .one (h.tested (by decide))
  | tested => exact .one h
  | compared => exact h
  | negation => simp at hs
  | negated => simp at hs

theorem Holds.negated (h : s.Holds ts e) : Negated ts e := by
  cases s with
  | operand => exact .compared (h.compared (by decide))
  | tested => exact .compared (h.compared (by decide))
  | compared => exact .compared h
  | negation =>
    obtain ⟨us, arg, rfl, rfl, h⟩ := h
    exact .not h
  | negated => exact h

theorem Holds.compare {s' : Stratum} (h : s.Holds ts l) (hs : s ∈ [.operand, .tested, .compared])
    (h' : s'.Holds us r) (hs' : s' ∈ [.operand, .tested, .negation]) (op : Comparator) :
    (if s' = .negation then Stratum.negated else .compared).Holds (ts ++ .infixOp (.compare op) :: us)
      (.compare l op r) := by
  have hl := h.compared hs
  by_cases hnot : s' = .negation
  · subst hnot
    obtain ⟨us, arg, rfl, rfl, hr⟩ := h'
    exact .compareNot op hl hr
  · rw [if_neg hnot]
    exact .more op hl (h'.tested (by simpa [hnot] using hs'))

end Stratum

end QuerySearch.Sql
