import Std.Data.HashSet
import QuerySearch.Cost
import QuerySearch.Requirement

/-! The bank: all components found so far.  Each is held once, under its kind, in the order in which it
was found. -/

namespace QuerySearch

structure Bank where
  shelves : Vector (Array Component) 32
  keys : Std.HashSet Fingerprint

namespace Bank

def empty : Bank := ⟨.replicate 32 #[], {}⟩

def contains (b : Bank) (c : Component) : Bool := b.keys.contains c.fingerprint

@[simp] theorem contains_empty (c : Component) : empty.contains c = false := by
  simp [empty, contains]

def insert (b : Bank) (c : Component) : Bank :=
  if b.contains c then b
  else ⟨⟨b.shelves.toArray.modify c.kind.rank (·.push c), by simp⟩, b.keys.insert c.fingerprint⟩

theorem insert_of_contains {b : Bank} {c : Component} (h : b.contains c) : b.insert c = b := if_pos h

@[simp] theorem contains_insert (b : Bank) (c d : Component) :
    (b.insert c).contains d = (c == d || b.contains d) := by
  by_cases h : b.contains c
  · rw [insert_of_contains h]
    cases hcd : c == d with
    | true =>
      have heq : c.fingerprint = d.fingerprint := by simpa only [Component.beq_iff] using hcd
      rw [Bool.true_or, contains, ← heq]
      exact h
    | false => simp
  · rw [insert, if_neg h]
    simp [contains, BEq.beq]

def insertAll (b : Bank) (cs : List Component) : Bank := cs.foldl insert b

def ofList (cs : List Component) : Bank := empty.insertAll cs

def shelf (b : Bank) (k : Kind) : Array Component :=
  have := k.rank_lt
  b.shelves[k.rank]

def ofKind (b : Bank) (k : Kind) : List Component := (b.shelf k).toList

@[simp] theorem ofKind_empty (k : Kind) : empty.ofKind k = [] := by
  simp [empty, ofKind, shelf]

theorem ofKind_insert (b : Bank) (c : Component) (k : Kind) :
    (b.insert c).ofKind k =
      if !b.contains c && c.kind == k then b.ofKind k ++ [c] else b.ofKind k := by
  by_cases h : b.contains c
  · simp [insert_of_contains h, h]
  · rw [insert, if_neg h]
    by_cases hk : c.kind = k
    · simp [h, hk, ofKind, shelf, Array.getElem_modify]
    · have hr : c.kind.rank ≠ k.rank := fun heq => hk (Kind.rank_injective heq)
      simp [h, hk, hr, ofKind, shelf, Array.getElem_modify]

def toList (b : Bank) : List Component := Kind.all.flatMap b.ofKind

def merge (b other : Bank) : Bank := b.insertAll other.toList

def size (b : Bank) : Nat := b.keys.size

def isEmpty (b : Bank) : Bool := b.size == 0

def select (b : Bank) (e : Estimator) (slot : Category) (budget : Int) (model : Counter)
    (rs : List Requirement) : List Component :=
  (Kind.all.filter slot.admits).flatMap fun k =>
    ((b.shelf k).filter fun c => Requirement.allHold c rs && decide (e.costUnder model c ≤ budget)).toList

theorem mem_select {b : Bank} {e : Estimator} {slot : Category} {budget : Int} {model : Counter}
    {rs : List Requirement} {c : Component} :
    c ∈ b.select e slot budget model rs ↔
      (∃ k, slot.admits k ∧ c ∈ b.ofKind k) ∧ Requirement.allHold c rs ∧
        e.costUnder model c ≤ budget := by
  simp only [select, ofKind, List.mem_flatMap, List.mem_filter, Kind.mem_all, true_and,
    Array.toList_filter, Bool.and_eq_true, decide_eq_true_eq]
  constructor
  · rintro ⟨k, hk, hc, h⟩
    exact ⟨⟨k, hk, hc⟩, h⟩
  · rintro ⟨⟨k, hk, hc⟩, h⟩
    exact ⟨k, hk, hc, h⟩

end Bank

end QuerySearch
