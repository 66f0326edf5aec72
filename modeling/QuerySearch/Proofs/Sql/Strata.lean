import QuerySearch.Sql.Constants
import QuerySearch.Sql.Precedence

/-! Expressions in strata.  An operand with its null test makes up the lowest stratum, and comparisons,
negations, conjunctions and disjunctions are built on it in this order; a comparison may end in a
negation.  Folding by binding powers gives the tree of the strata. -/

namespace QuerySearch.Sql.Token

variable {α β ε : Type}

inductive Tested : List (Token α) → Expr α → Prop
  | plain (e : Expr α) : Tested [.operand e] e
  | test (e : Expr α) (negated : Bool) : Tested [.operand e, .nullTest negated] (.isNull e negated)

inductive Compared : List (Token α) → Expr α → Prop
  | one {ts e} : Tested ts e → Compared ts e
  | more {ts us l r} (op : Comparator) : Compared ts l → Tested us r →
    Compared (ts ++ .infixOp (.compare op) :: us) (.compare l op r)

inductive Negated : List (Token α) → Expr α → Prop
  | compared {ts e} : Compared ts e → Negated ts e
  | compareNot {ts us l r} (op : Comparator) : Compared ts l → Negated us r →
    Negated (ts ++ .infixOp (.compare op) :: .not :: us) (.compare l op (.not r))
  | not {ts e} : Negated ts e → Negated (.not :: ts) (.not e)

inductive Conjoined : List (Token α) → Expr α → Prop
  | one {ts e} : Negated ts e → Conjoined ts e
  | more {ts us l r} : Conjoined ts l → Negated us r →
    Conjoined (ts ++ .infixOp (.logic .and) :: us) (.logic l .and r)

inductive Disjoined : List (Token α) → Expr α → Prop
  | one {ts e} : Conjoined ts e → Disjoined ts e
  | more {ts us l r} : Disjoined ts l → Conjoined us r →
    Disjoined (ts ++ .infixOp (.logic .or) :: us) (.logic l .or r)

section Folding

def FoldsTo (power : Nat) (ts : List (Token α)) (e : Expr α) (rest : List (Token α)) : Prop :=
  ∀ n, ts.length < n → fold n power ts = some (e, rest)

def ExtendsTo (power : Nat) (l : Expr α) (ts : List (Token α)) (e : Expr α) (rest : List (Token α)) : Prop :=
  ∀ n, ts.length < n → extend n power l ts = some (e, rest)

inductive Stops (power : Nat) : List (Token α) → Prop
  | finish : Stops power []
  | weak {op : Infix} (h : op.power ≤ power) (ts : List (Token α)) : Stops power (.infixOp op :: ts)

variable {power : Nat} {ts us rest rest' : List (Token α)} {e l r e' : Expr α}

theorem Stops.mono {power' : Nat} (h : Stops power ts) (hle : power ≤ power') : Stops power' ts := by
  cases h with
  | finish => exact .finish
  | weak h ts => exact .weak (Nat.le_trans h hle) ts

theorem Stops.extends (h : Stops power ts) (l : Expr α) : ExtendsTo power l ts l ts := by
  intro n hn
  cases n with
  | zero => omega
  | succ n =>
    cases h with
    | finish => rfl
    | weak h ts => rw [extend, if_neg (by omega)]

theorem ExtendsTo.operand (h : ExtendsTo power e ts e' rest) : FoldsTo power (.operand e :: ts) e' rest := by
  intro n hn
  cases n with
  | zero => omega
  | succ n => rw [fold, h n (by simpa using hn)]

theorem FoldsTo.not (h : FoldsTo (notPower - 1) (ts ++ rest) e rest)
    (h' : ExtendsTo power (.not e) rest e' rest') : FoldsTo power (.not :: (ts ++ rest)) e' rest' := by
  intro n hn
  simp only [List.length_cons, List.length_append] at hn
  cases n with
  | zero => omega
  | succ n =>
    rw [fold, h n (by simp; omega)]
    exact h' n (by omega)

theorem FoldsTo.infix (op : Infix) (h : FoldsTo op.power (ts ++ rest) r rest)
    (h' : ExtendsTo power (op.apply l r) rest e' rest') (hp : power < op.power) :
    ExtendsTo power l (.infixOp op :: (ts ++ rest)) e' rest' := by
  intro n hn
  simp only [List.length_cons, List.length_append] at hn
  cases n with
  | zero => omega
  | succ n =>
    rw [extend, if_pos hp, h n (by simp; omega)]
    exact h' n (by omega)

theorem ExtendsTo.nullTest {negated : Bool} (h : ExtendsTo power (.isNull l negated) ts e' rest)
    (hp : power < nullTestPower) : ExtendsTo power l (.nullTest negated :: ts) e' rest := by
  intro n hn
  cases n with
  | zero => omega
  | succ n => rw [extend, if_pos hp, h n (by simpa using hn)]

theorem Tested.folds (h : Tested ts e) (hp : power < nullTestPower)
    (hrest : ExtendsTo power e rest e' rest') : FoldsTo power (ts ++ rest) e' rest' := by
  cases h with
  | plain e => exact hrest.operand
  | test e negated => exact (hrest.nullTest hp).operand

theorem Compared.folds (h : Compared ts e) (hp : power < 40) (hstop : Stops 40 rest)
    (hrest : ExtendsTo power e rest e' rest') : FoldsTo power (ts ++ rest) e' rest' := by
  induction h generalizing rest e' rest' with
  | one h => exact h.folds (Nat.lt_trans hp (by decide)) hrest
  | more op _ hr ih =>
    rw [List.append_assoc]
    apply ih (.weak (Nat.le_refl 40) _)
    have hright := hr.folds (by decide) (hstop.extends _)
    exact FoldsTo.infix (.compare op) hright hrest hp

theorem Negated.folds (h : Negated ts e) (hp : power < 40) (hstop : Stops 20 rest)
    (hrest : ExtendsTo power e rest e' rest') : FoldsTo power (ts ++ rest) e' rest' := by
  have hnot : Stops (notPower - 1) rest := hstop.mono (by decide)
  have hcompare : Stops 40 rest := hstop.mono (by decide)
  induction h generalizing power rest e' rest' with
  | compared h => exact h.folds hp hcompare hrest
  | compareNot op hl _ ih =>
    rw [List.append_assoc]
    apply hl.folds hp (.weak (Nat.le_refl 40) _)
    -- the comparison binds more strongly than the negation behind it, which takes its argument all the same
    have hright := (ih (by decide) hstop (hnot.extends _) hnot hcompare).not (hcompare.extends _)
    exact FoldsTo.infix (.compare op) hright hrest hp
  | not _ ih => exact (ih (by decide) hstop (hnot.extends _) hnot hcompare).not hrest

theorem Conjoined.folds (h : Conjoined ts e) (hp : power < 20) (hstop : Stops 20 rest)
    (hrest : ExtendsTo power e rest e' rest') : FoldsTo power (ts ++ rest) e' rest' := by
  induction h generalizing rest e' rest' with
  | one h => exact h.folds (Nat.lt_trans hp (by decide)) hstop hrest
  | more _ hr ih =>
    rw [List.append_assoc]
    apply ih (.weak (Nat.le_refl 20) _)
    have hright := hr.folds (by decide) hstop (hstop.extends _)
    exact FoldsTo.infix (.logic .and) hright hrest hp

theorem Disjoined.folds (h : Disjoined ts e) (hp : power < 10) (hstop : Stops 10 rest)
    (hrest : ExtendsTo power e rest e' rest') : FoldsTo power (ts ++ rest) e' rest' := by
  induction h generalizing rest e' rest' with
  | one h => exact h.folds (Nat.lt_trans hp (by decide)) (hstop.mono (by decide)) hrest
  | more _ hr ih =>
    rw [List.append_assoc]
    apply ih (.weak (Nat.le_refl 10) _)
    have hright := hr.folds (by decide) (hstop.mono (by decide)) (hstop.extends _)
    exact FoldsTo.infix (.logic .or) hright hrest hp

theorem Disjoined.resolve_eq (h : Disjoined ts e) : resolve ts = some e := by
  have hfold : FoldsTo 0 (ts ++ []) e [] := h.folds (by decide) .finish (Stops.finish.extends e)
  rw [List.append_nil] at hfold
  rw [resolve, hfold _ (by omega)]

theorem Disjoined.unique (h : Disjoined ts e) (h' : Disjoined ts e') : e = e' := by
  rw [← Option.some_inj, ← h.resolve_eq, h'.resolve_eq]

end Folding

section Sequences

inductive Term : List (Token α) → Prop
  | tested {ts e} : Tested ts e → Term ts
  | not {ts} : Term ts → Term (.not :: ts)

inductive Sequence : List (Token α) → Prop
  | one {ts} : Term ts → Sequence ts
  | more {ts us} (op : Infix) : Term ts → Sequence us → Sequence (ts ++ .infixOp op :: us)

variable {ts us : List (Token α)} {e l r : Expr α}

theorem Term.negated (h : Term ts) : ∃ e, Negated ts e := by
  induction h with
  | tested h => exact ⟨_, .compared (.one h)⟩
  | not _ ih => exact ⟨_, .not ih.choose_spec⟩

theorem Tested.compared (op : Comparator) (h : Tested ts l) (h' : Compared us r) :
    ∃ e, Compared (ts ++ .infixOp (.compare op) :: us) e := by
  induction h' with
  | one h' => exact ⟨_, .more op (.one h) h'⟩
  | more op' _ hr ih =>
    obtain ⟨e, he⟩ := ih
    have he' := he.more op' hr
    rw [List.append_assoc, List.cons_append] at he'
    exact ⟨_, he'⟩

theorem Tested.negated (op : Comparator) (h : Tested ts l) (h' : Negated us r) :
    ∃ e, Negated (ts ++ .infixOp (.compare op) :: us) e := by
  cases h' with
  | compared h' =>
    obtain ⟨e, he⟩ := h.compared op h'
    exact ⟨e, .compared he⟩
  | compareNot op' hl hr =>
    obtain ⟨e, he⟩ := h.compared op hl
    have he' := Negated.compareNot op' he hr
    rw [List.append_assoc, List.cons_append] at he'
    exact ⟨_, he'⟩
  | not h' => exact ⟨_, .compareNot op (.one h) h'⟩

theorem Term.compared (op : Comparator) (h : Term ts) (h' : Negated us r) :
    ∃ e, Negated (ts ++ .infixOp (.compare op) :: us) e := by
  induction h with
  | tested h => exact h.negated op h'
  | not _ ih => exact ⟨_, .not ih.choose_spec⟩

theorem Term.conjoined (op : Comparator) (h : Term ts) (h' : Conjoined us r) :
    ∃ e, Conjoined (ts ++ .infixOp (.compare op) :: us) e := by
  induction h' with
  | one h' =>
    obtain ⟨e, he⟩ := h.compared op h'
    exact ⟨e, .one he⟩
  | more _ hr ih =>
    obtain ⟨e, he⟩ := ih
    have he' := he.more hr
    rw [List.append_assoc, List.cons_append] at he'
    exact ⟨_, he'⟩

theorem Negated.conjoined (h : Negated ts l) (h' : Conjoined us r) :
    ∃ e, Conjoined (ts ++ .infixOp (.logic .and) :: us) e := by
  induction h' with
  | one h' => exact ⟨_, .more (.one h) h'⟩
  | more _ hr ih =>
    obtain ⟨e, he⟩ := ih
    have he' := he.more hr
    rw [List.append_assoc, List.cons_append] at he'
    exact ⟨_, he'⟩

theorem Term.disjoined (op : Infix) (h : Term ts) (h' : Disjoined us r) :
    ∃ e, Disjoined (ts ++ .infixOp op :: us) e := by
  obtain ⟨l, hl⟩ := h.negated
  induction h' with
  | one h' =>
    cases op with
    | compare op =>
      obtain ⟨e, he⟩ := h.conjoined op h'
      exact ⟨e, .one he⟩
    | logic op =>
      cases op with
      | and =>
        obtain ⟨e, he⟩ := hl.conjoined h'
        exact ⟨e, .one he⟩
      | or => exact ⟨_, .more (.one (.one hl)) h'⟩
  | more _ hr ih =>
    obtain ⟨e, he⟩ := ih
    have he' := he.more hr
    rw [List.append_assoc, List.cons_append] at he'
    exact ⟨_, he'⟩

theorem Sequence.disjoined (h : Sequence ts) : ∃ e, Disjoined ts e := by
  induction h with
  | one h => exact ⟨_, .one (.one h.negated.choose_spec)⟩
  | more op h _ ih =>
    obtain ⟨e, he⟩ := ih
    exact h.disjoined op he

end Sequences

section Constants

variable (f : α → Except ε β)

def mapConstants : List (Token α) → Except ε (List (Token β))
  | [] => return []
  | .operand e :: ts => return .operand (← e.mapConstants f) :: (← mapConstants ts)
  | .not :: ts => return .not :: (← mapConstants ts)
  | .infixOp op :: ts => return .infixOp op :: (← mapConstants ts)
  | .nullTest negated :: ts => return .nullTest negated :: (← mapConstants ts)

inductive Carried (Stratum : List (Token β) → Expr β → Prop) (ts : List (Token α)) (e : Expr α) : Prop
  | ok {ts' : List (Token β)} {e' : Expr β} (hts : mapConstants f ts = .ok ts')
    (he : e.mapConstants f = .ok e') (h : Stratum ts' e')
  | error (x : ε) (hts : mapConstants f ts = .error x) (he : e.mapConstants f = .error x)

variable {f} {Stratum Stratum' Stratum'' : List (Token β) → Expr β → Prop} {ts us : List (Token α)}
  {e l r : Expr α}

theorem mapConstants_append (ts us : List (Token α)) : mapConstants f (ts ++ us) = do
    let ts' ← mapConstants f ts
    let us' ← mapConstants f us
    return ts' ++ us' := by
  induction ts with
  | nil => simp [mapConstants]
  | cons t ts ih => cases t <;> simp [mapConstants, ih]

theorem Carried.imp (h : Carried f Stratum ts e) (himp : ∀ ts e, Stratum ts e → Stratum' ts e) :
    Carried f Stratum' ts e := by
  cases h with
  | ok hts he h => exact .ok hts he (himp _ _ h)
  | error x hts he => exact .error x hts he

theorem Carried.not (h : Carried f Stratum ts e)
    (hnot : ∀ ts e, Stratum ts e → Stratum' (.not :: ts) (.not e)) :
    Carried f Stratum' (.not :: ts) (.not e) := by
  cases h with
  | ok hts he h =>
    refine .ok ?_ ?_ (hnot _ _ h)
    · rw [mapConstants, hts]; rfl
    · rw [Expr.mapConstants, he]; rfl
  | error x hts he =>
    refine .error x ?_ ?_
    · rw [mapConstants, hts]; rfl
    · rw [Expr.mapConstants, he]; rfl

theorem Infix.mapConstants_apply (op : Infix) (l r : Expr α) : (op.apply l r).mapConstants f = do
    let l' ← l.mapConstants f
    let r' ← r.mapConstants f
    return op.apply l' r' := by
  cases op <;> rfl

theorem Carried.infix (op : Infix) (h : Carried f Stratum ts l) (h' : Carried f Stratum' us r)
    (hop : ∀ ts us l r, Stratum ts l → Stratum' us r →
      Stratum'' (ts ++ .infixOp op :: us) (op.apply l r)) :
    Carried f Stratum'' (ts ++ .infixOp op :: us) (op.apply l r) := by
  cases h with
  | error x hts hl =>
    refine .error x ?_ ?_
    · rw [mapConstants_append, hts]; rfl
    · rw [Infix.mapConstants_apply, hl]; rfl
  | ok hts hl h =>
    cases h' with
    | error x hus hr =>
      refine .error x ?_ ?_
      · rw [mapConstants_append, mapConstants, hts, hus]; rfl
      · rw [Infix.mapConstants_apply, hl, hr]; rfl
    | ok hus hr h' =>
      refine .ok ?_ ?_ (hop _ _ _ _ h h')
      · rw [mapConstants_append, mapConstants, hts, hus]; rfl
      · rw [Infix.mapConstants_apply, hl, hr]; rfl

theorem Tested.carried (h : Tested ts e) : Carried f Tested ts e := by
  cases h with
  | plain e =>
    cases he : e.mapConstants f with
    | ok e' => exact .ok (by rw [mapConstants, he]; rfl) he (.plain e')
    | error x => exact .error x (by rw [mapConstants, he]; rfl) he
  | test e negated =>
    cases he : e.mapConstants f with
    | ok e' =>
      exact .ok (by rw [mapConstants, he]; rfl) (by rw [Expr.mapConstants, he]; rfl) (.test e' negated)
    | error x =>
      exact .error x (by rw [mapConstants, he]; rfl) (by rw [Expr.mapConstants, he]; rfl)

theorem Compared.carried (h : Compared ts e) : Carried f Compared ts e := by
  induction h with
  | one h => exact h.carried.imp fun _ _ => .one
  | more op _ hr ih => exact ih.infix (.compare op) hr.carried fun _ _ _ _ => .more op

theorem Negated.carried (h : Negated ts e) : Carried f Negated ts e := by
  induction h with
  | compared h => exact h.carried.imp fun _ _ => .compared
  | @compareNot _ us _ r op hl _ ih =>
    have hright : Carried f (fun ts e => ∃ us r, ts = .not :: us ∧ e = .not r ∧ Negated us r)
        (.not :: us) (.not r) :=
      ih.not fun us r h => ⟨us, r, rfl, rfl, h⟩
    refine hl.carried.infix (.compare op) hright fun ts us l r hl hr => ?_
    obtain ⟨us, r, rfl, rfl, hr⟩ := hr
    exact .compareNot op hl hr
  | not _ ih => exact ih.not fun _ _ => .not

theorem Conjoined.carried (h : Conjoined ts e) : Carried f Conjoined ts e := by
  induction h with
  | one h => exact h.carried.imp fun _ _ => .one
  | more _ hr ih => exact ih.infix (.logic .and) hr.carried fun _ _ _ _ => .more

theorem Disjoined.carried (h : Disjoined ts e) : Carried f Disjoined ts e := by
  induction h with
  | one h => exact h.carried.imp fun _ _ => .one
  | more _ hr ih => exact ih.infix (.logic .or) hr.carried fun _ _ _ _ => .more

end Constants

end QuerySearch.Sql.Token
