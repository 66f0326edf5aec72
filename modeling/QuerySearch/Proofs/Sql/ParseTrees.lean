import QuerySearch.Proofs.Sql.Rules

/-! Parse trees and the runs that make them.  A run of an expression at a place in a text fails, or gives
the trees of the rules it went through together with the rest of the text. -/

namespace QuerySearch.Sql

open QuerySearch.Sql.Parser

inductive Tree where
  | node (rule : Rule) (text : List Char) (inner : List Tree)

namespace Tree

def rule : Tree → Rule
  | node r _ _ => r

def text : Tree → List Char
  | node _ t _ => t

def inner : Tree → List Tree
  | node _ _ ts => ts

end Tree

namespace Peg

abbrev Outcome := Option (List Tree × List Char)

def skipped (atomic : Bool) (cs : List Char) : List Char := if atomic then cs else afterBlanks cs

def traced (atomic : Bool) (r : Rule) (front : List Char) (ts : List Tree) : List Tree :=
  if atomic then [] else [.node r front ts]

/-- `Runs whole atomic e cs o`: at the rest `cs` of a whole text, the expression `e` ends with `o`. -/
inductive Runs (whole : List Char) : Bool → Peg → List Char → Outcome → Prop
  | text {atomic} (s cs) : Runs whole atomic (.text s) cs ((symbol s cs).map fun x => ([], x.2))
  | anyCase {atomic} (s : String) (cs) :
    Runs whole atomic (.anyCase s) cs ((letters s.toList cs).map fun x => ([], x.2))
  | one {atomic} (accepts cs) :
    Runs whole atomic (.one accepts) cs ((item accepts cs).map fun x => ([], x.2))
  | start {atomic} (cs) : Runs whole atomic .start cs (if cs = whole then some ([], cs) else none)
  | rule_some {atomic r cs front rest ts} : Runs whole (atomic || r.isAtomic) (body r) cs (some (ts, rest)) →
    front ++ rest = cs → Runs whole atomic (.rule r) cs (some (traced atomic r front ts, rest))
  | rule_none {atomic r cs} : Runs whole (atomic || r.isAtomic) (body r) cs none →
    Runs whole atomic (.rule r) cs none
  | seq_some {atomic a b cs mid ts o} : Runs whole atomic a cs (some (ts, mid)) →
    Runs whole atomic b (skipped atomic mid) o →
    Runs whole atomic (.seq a b) cs (o.map fun x => (ts ++ x.1, x.2))
  | seq_none {atomic a b cs} : Runs whole atomic a cs none → Runs whole atomic (.seq a b) cs none
  | alt_left {atomic a b cs x} : Runs whole atomic a cs (some x) → Runs whole atomic (.alt a b) cs (some x)
  | alt_right {atomic a b cs o} : Runs whole atomic a cs none → Runs whole atomic b cs o →
    Runs whole atomic (.alt a b) cs o
  | opt {atomic a cs o} : Runs whole atomic a cs o → Runs whole atomic (.opt a) cs (some (o.getD ([], cs)))
  | many_none {atomic a cs} : Runs whole atomic a cs none → Runs whole atomic (.many a) cs (some ([], cs))
  | many_last {atomic a cs mid ts} : Runs whole atomic a cs (some (ts, mid)) →
    Runs whole atomic a (skipped atomic mid) none → Runs whole atomic (.many a) cs (some (ts, mid))
  | many_more {atomic a cs mid ts us rest x} : Runs whole atomic a cs (some (ts, mid)) →
    Runs whole atomic a (skipped atomic mid) (some x) →
    Runs whole atomic (.many a) (skipped atomic mid) (some (us, rest)) →
    Runs whole atomic (.many a) cs (some (ts ++ us, rest))
  | absent {atomic a cs o} : Runs whole atomic a cs o →
    Runs whole atomic (.absent a) cs (if o.isSome then none else some ([], cs))

variable {whole cs : List Char} {atomic : Bool} {e : Peg} {o o' : Outcome}

theorem Runs.unique (h : Runs whole atomic e cs o) (h' : Runs whole atomic e cs o') : o = o' := by
  induction h generalizing o' with
  | text | anyCase | one | start => cases h'; rfl
  | rule_some _ hfront ih =>
    cases h' with
    | rule_some h hfront' =>
      cases ih h
      rw [← hfront', List.append_cancel_right_eq] at hfront
      rw [hfront]
    | rule_none h => cases ih h
  | rule_none _ ih =>
    cases h' with
    | rule_some h => cases ih h
    | rule_none => rfl
  | seq_some _ _ iha ihb =>
    cases h' with
    | seq_some ha hb =>
      cases iha ha
      rw [ihb hb]
    | seq_none ha => cases iha ha
  | seq_none _ iha =>
    cases h' with
    | seq_some ha => cases iha ha
    | seq_none => rfl
  | alt_left _ iha =>
    cases h' with
    | alt_left ha => exact iha ha
    | alt_right ha => cases iha ha
  | alt_right _ _ iha ihb =>
    cases h' with
    | alt_left ha => cases iha ha
    | alt_right _ hb => exact ihb hb
  | opt _ iha =>
    cases h' with
    | opt ha => rw [iha ha]
  | many_none _ iha =>
    cases h' with
    | many_none => rfl
    | many_last ha => cases iha ha
    | many_more ha => cases iha ha
  | many_last _ _ iha ihb =>
    cases h' with
    | many_none ha => cases iha ha
    | many_last ha => exact iha ha
    | many_more ha hb => cases iha ha; cases ihb hb
  | many_more _ _ _ iha ihb ihc =>
    cases h' with
    | many_none ha => cases iha ha
    | many_last ha hb => cases iha ha; cases ihb hb
    | many_more ha _ hc => cases iha ha; cases ihc hc; rfl
  | absent _ iha =>
    cases h' with
    | absent ha => rw [iha ha]

end Peg

def Parses (r : Rule) (text : String) (ts : List Tree) : Prop :=
  ∃ rest, Peg.Runs text.toList false (.rule r) text.toList (some (ts, rest))

def Accepts (r : Rule) (text : String) : Prop := ∃ ts, Parses r text ts

theorem Parses.unique {r : Rule} {text : String} {ts us : List Tree} (h : Parses r text ts)
    (h' : Parses r text us) : ts = us := by
  obtain ⟨rest, h⟩ := h
  obtain ⟨rest', h'⟩ := h'
  cases h.unique h'
  rfl

theorem not_accepts {r : Rule} {text : String}
    (h : Peg.Runs text.toList false (.rule r) text.toList none) : ¬ Accepts r text := by
  rintro ⟨ts, rest, h'⟩
  cases h.unique h'

end QuerySearch.Sql
