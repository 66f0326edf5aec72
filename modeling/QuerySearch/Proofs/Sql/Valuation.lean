import QuerySearch.Proofs.Sql.Conversion
import QuerySearch.Proofs.Sql.Strata

/-! Conversion against the values of what was read.  Converting trees gives the value of the tree that was
read from the same text, or reports a number of the text that is out of range. -/

namespace QuerySearch.Sql

variable {α β γ σ : Type}

section Numbers

theorem Literal.inRange_iff (l : Literal) : l.InRange ↔ ∃ c, l.value = .ok c := by
  cases l with
  | null | bool | str => exact ⟨fun _ => ⟨_, rfl⟩, fun _ => trivial⟩
  | integer negative digits =>
    refine ⟨fun h => ⟨_, if_pos h⟩, fun ⟨c, hc⟩ => Classical.byContradiction fun h => ?_⟩
    exact nomatch (if_neg h).symm.trans hc
  | decimal negative whole fraction =>
    refine ⟨fun h => ⟨_, if_pos h⟩, fun ⟨c, hc⟩ => Classical.byContradiction fun h => ?_⟩
    exact nomatch (if_neg h).symm.trans hc

theorem Literal.not_inRange {l : Literal} {e : InvalidLiteral} (h : l.value = .error e) : ¬ l.InRange := by
  intro hin
  obtain ⟨c, hc⟩ := l.inRange_iff.1 hin
  rw [h] at hc
  cases hc

def AllInRange (ts : List Tree) : Prop := ∀ l ∈ Tree.numbersIn ts, l.InRange

theorem allInRange_append {ts us : List Tree} : AllInRange (ts ++ us) ↔ AllInRange ts ∧ AllInRange us := by
  simp only [AllInRange, Tree.numbersIn_append, List.mem_append, or_imp, forall_and]

theorem Tree.numbersIn_subset_numbers (k : Rule) (text : List Char) (ts : List Tree) :
    Tree.numbersIn ts ⊆ (Tree.node k text ts).numbers := by
  by_cases hinteger : k = .integerLiteral
  · subst hinteger
    exact List.subset_cons_self _ _
  · by_cases hdecimal : k = .decimalLiteral
    · subst hdecimal
      exact List.subset_cons_self _ _
    · rw [Tree.numbers]
      · exact List.Subset.refl _
      · exact hinteger
      · exact hdecimal

theorem Tree.eq_or_mem_of_mem_sequences {k : Rule} {text : List Char} {ts inner : List Tree}
    (h : inner ∈ (Tree.node k text ts).sequences) : inner = ts ∨ inner ∈ Tree.sequencesIn ts := by
  by_cases hk : k = .expr
  · subst hk
    exact List.mem_cons.1 h
  · rw [Tree.sequences] at h
    · exact .inr h
    · exact hk

mutual

theorem Tree.numbersIn_sequences {inner : List Tree} : ∀ t : Tree, inner ∈ t.sequences →
    Tree.numbersIn inner ⊆ t.numbers
  | .node k text ts, h => by
    refine List.Subset.trans ?_ (Tree.numbersIn_subset_numbers k text ts)
    obtain rfl | h := Tree.eq_or_mem_of_mem_sequences h
    · exact List.Subset.refl _
    · exact Tree.numbersIn_sequencesIn ts h

theorem Tree.numbersIn_sequencesIn {inner : List Tree} : ∀ ts : List Tree, inner ∈ Tree.sequencesIn ts →
    Tree.numbersIn inner ⊆ Tree.numbersIn ts
  | [], h => absurd h List.not_mem_nil
  | t :: ts, h => by
    rw [Tree.sequencesIn, List.mem_append] at h
    obtain h | h := h
    · exact List.subset_append_of_subset_left _ (Tree.numbersIn_sequences t h)
    · exact List.subset_append_of_subset_right _ (Tree.numbersIn_sequencesIn ts h)

end

theorem AllInRange.sequence {ts inner : List Tree} (h : AllInRange ts) (hinner : inner ∈ Tree.sequencesIn ts) :
    AllInRange inner := fun l hl => h l (Tree.numbersIn_sequencesIn ts hinner hl)

/-- A value is there just if the numbers in the trees are in range, and else one of them is reported. -/
inductive Checks (r : Except InvalidLiteral α) (ts : List Tree) : Prop
  | ok {x : α} (h : r = .ok x) (hts : AllInRange ts)
  | error {e : InvalidLiteral} {l : Literal} (h : r = .error e) (hl : l ∈ Tree.numbersIn ts)
    (hvalue : l.value = .error e)

end Numbers

def Stratified (inner : List Tree) : Prop :=
  ∃ ts e, Convert.tokens inner = .ok ts ∧ Token.Disjoined ts e ∧ Convert.expr inner = .ok e

def Rule.Plain (k : Rule) : Prop := k ≠ .integerLiteral ∧ k ≠ .decimalLiteral ∧ k ≠ .expr

instance (k : Rule) : Decidable k.Plain := inferInstanceAs (Decidable (_ ∧ _ ∧ _))

theorem Tree.numbersIn_node {k : Rule} (h : k.Plain) (text : List Char) (ts : List Tree) :
    Tree.numbersIn [.node k text ts] = Tree.numbersIn ts := by
  rw [Tree.numbersIn, Tree.numbersIn, List.append_nil, Tree.numbers]
  · exact h.1
  · exact h.2.1

theorem Tree.sequencesIn_node {k : Rule} (h : k.Plain) (text : List Char) (ts : List Tree) :
    Tree.sequencesIn [.node k text ts] = Tree.sequencesIn ts := by
  rw [Tree.sequencesIn, Tree.sequencesIn, List.append_nil, Tree.sequences]
  exact h.2.2

/-- Conversion of the trees ends as the valuation of what was read. -/
structure ConvertsTo (c : Except ConvertError α) (r : Except InvalidLiteral α) (ts : List Tree) : Prop where
  converts : c = reported r
  checks : Checks r ts
  strata : ∀ inner ∈ Tree.sequencesIn ts, AllInRange inner → Stratified inner

structure Quiet (ts : List Tree) : Prop where
  numbers : Tree.numbersIn ts = []
  sequences : Tree.sequencesIn ts = []

section Inhabited

instance : Inhabited (Expr α) := ⟨.column ⟨none, ""⟩⟩

instance : Inhabited (SortKey α) := ⟨⟨default, false⟩⟩

instance : Inhabited (SelectItem α) := ⟨.star⟩

instance : Inhabited (TableRef α) := ⟨.table "" none⟩

instance : Inhabited (Select α) := ⟨⟨false, [], [], none, [], none, []⟩⟩

instance : Inhabited (Window α) := ⟨⟨[], []⟩⟩

end Inhabited

section ConvertsTo

variable {c : Except ConvertError α} {r : Except InvalidLiteral α} {f : α → Except ConvertError β}
  {g : α → Except InvalidLiteral β} {ts us : List Tree}

@[simp] theorem reported_ok (x : α) : reported (.ok x) = .ok x := rfl

@[simp] theorem reported_pure (x : α) : reported (pure x) = pure x := rfl

@[simp] theorem reported_bind (r : Except InvalidLiteral α) (g : α → Except InvalidLiteral β) :
    reported (r >>= g) = reported r >>= fun x => reported (g x) := by
  cases r <;> rfl

@[simp] theorem reported_map (r : Except InvalidLiteral α) (f : α → β) :
    reported (f <$> r) = f <$> reported r := by
  cases r <;> rfl

theorem Quiet.nil : Quiet [] := ⟨rfl, rfl⟩

theorem Quiet.append (h : Quiet ts) (h' : Quiet us) : Quiet (ts ++ us) :=
  ⟨by simp [h.numbers, h'.numbers], by simp [h.sequences, h'.sequences]⟩

theorem ConvertsTo.ok (x : α) (h : Quiet ts) : ConvertsTo (.ok x) (.ok x) ts where
  converts := rfl
  checks := .ok rfl (by simp [AllInRange, h.numbers])
  strata := by simp [h.sequences]

theorem ConvertsTo.valued (h : ConvertsTo c r ts) : ConvertsTo (reported r) r ts := ⟨rfl, h.checks, h.strata⟩

theorem ConvertsTo.number {l : Literal} (hnumbers : Tree.numbersIn ts = [l]) (hsequences : Tree.sequencesIn ts = []) :
    ConvertsTo (reported l.value) l.value ts where
  converts := rfl
  checks := by
    cases hvalue : l.value with
    | ok c =>
      refine .ok rfl fun l' hl' => ?_
      rw [hnumbers, List.mem_singleton] at hl'
      rw [hl']
      exact l.inRange_iff.2 ⟨c, hvalue⟩
    | error e => exact .error rfl (by rw [hnumbers]; exact .head _) hvalue
  strata := by simp [hsequences]

theorem ConvertsTo.congr (h : ConvertsTo c r ts) (hnumbers : Tree.numbersIn us = Tree.numbersIn ts)
    (hsequences : Tree.sequencesIn us = Tree.sequencesIn ts) : ConvertsTo c r us where
  converts := h.converts
  checks := by
    cases h.checks with
    | ok hr hts => exact .ok hr (by rwa [AllInRange, hnumbers])
    | error hr hl hvalue => exact .error hr (by rwa [hnumbers]) hvalue
  strata := by
    rw [hsequences]
    exact h.strata

theorem ConvertsTo.quiet (h : ConvertsTo c r us) (hts : Quiet ts) : ConvertsTo c r (ts ++ us) :=
  h.congr (by simp [hts.numbers]) (by simp [hts.sequences])

theorem ConvertsTo.append_quiet (h : ConvertsTo c r ts) (hus : Quiet us) : ConvertsTo c r (ts ++ us) :=
  h.congr (by simp [hus.numbers]) (by simp [hus.sequences])

theorem ConvertsTo.bind [Inhabited α] (h : ConvertsTo c r ts) (h' : ∀ x, ConvertsTo (f x) (g x) us) :
    ConvertsTo (c >>= f) (r >>= g) (ts ++ us) where
  converts := by
    rw [reported_bind, h.converts]
    exact bind_congr fun x => (h' x).converts
  checks := by
    cases h.checks with
    | error hr hl hvalue => exact .error (by rw [hr]; rfl) (by simp [hl]) hvalue
    | @ok x hr hts =>
      cases (h' x).checks with
      | error hg hl hvalue => exact .error (by rw [hr]; exact hg) (by simp [hl]) hvalue
      | ok hg hus => exact .ok (by rw [hr]; exact hg) (allInRange_append.2 ⟨hts, hus⟩)
  strata := by
    intro inner hinner
    rw [Tree.sequencesIn_append, List.mem_append] at hinner
    exact hinner.elim (h.strata inner) ((h' default).strata inner)

theorem ConvertsTo.map (h : ConvertsTo c r ts) (f : α → β) :
    ConvertsTo (do return f (← c)) (do return f (← r)) ts where
  converts := by
    rw [h.converts]
    cases r <;> rfl
  checks := by
    cases h.checks with
    | ok hr hts => exact .ok (by rw [hr]; rfl) hts
    | error hr hl hvalue => exact .error (by rw [hr]; rfl) hl hvalue
  strata := h.strata

theorem ConvertsTo.node (h : ConvertsTo c r ts) {k : Rule} (hk : k.Plain) (text : List Char) :
    ConvertsTo c r [.node k text ts] :=
  h.congr (Tree.numbersIn_node hk text ts) (Tree.sequencesIn_node hk text ts)

theorem Quiet.node (h : Quiet ts) {k : Rule} (hk : k.Plain) (text : List Char) : Quiet [.node k text ts] :=
  ⟨(Tree.numbersIn_node hk text ts).trans h.numbers, (Tree.sequencesIn_node hk text ts).trans h.sequences⟩

theorem Quiet.word (w : Word) (text : List Char) : Quiet [.node (.word w) text []] :=
  Quiet.nil.node (k := .word w) ⟨nofun, nofun, nofun⟩ text

end ConvertsTo

section Loops

structure Passes (loop : List Tree → σ → Except ConvertError β) (s : σ) (r : Except InvalidLiteral α)
    (next : α → σ) (ts : List Tree) : Prop where
  step : ∀ rest, loop (ts ++ rest) s = reported r >>= fun x => loop rest (next x)
  gives : ConvertsTo (reported r) r ts

variable {loop : List Tree → σ → Except ConvertError β} {s : σ} {r : Except InvalidLiteral α} {next : α → σ}
  {g : α → Except InvalidLiteral β} {ts us : List Tree} {k : Rule}

theorem Passes.andThen [Inhabited α] (h : Passes loop s r next ts)
    (h' : ∀ x, ConvertsTo (loop us (next x)) (g x) us) : ConvertsTo (loop (ts ++ us) s) (r >>= g) (ts ++ us) := by
  rw [h.step]
  exact h.gives.bind h'

theorem Passes.last (h : Passes loop s r next ts) {f : α → β} (h' : ∀ x, loop [] (next x) = .ok (f x)) :
    ConvertsTo (loop ts s) (do return f (← r)) ts := by
  have hstep := h.step []
  rw [List.append_nil] at hstep
  rw [hstep]
  simp only [h']
  exact h.gives.map f

theorem Passes.node {conv : Except ConvertError α} {inner : List Tree} (h : ConvertsTo conv r inner)
    (hk : k.Plain) {text : List Char}
    (hloop : ∀ rest, loop (.node k text inner :: rest) s = conv >>= fun x => loop rest (next x)) :
    Passes loop s r next [.node k text inner] where
  step rest := by rw [List.singleton_append, hloop, h.converts]
  gives := (h.node hk text).valued

theorem Passes.absent {x : α} (hnext : next x = s) : Passes loop s (.ok x) next [] where
  step rest := by rw [← hnext]; rfl
  gives := .ok x .nil

end Loops

end QuerySearch.Sql
