import QuerySearch.Proofs.Outcomes
import QuerySearch.Proofs.Sql.Legible

/-! What the grammar sees to in every statement that is read: a star stands alone between the parentheses
of a call, select lists are not empty, and numbers are finite. -/

namespace QuerySearch.Sql.Parser

def Yields {α : Type} (p : Parser α) (P : α → Prop) : Prop := ∀ cs a rest, p cs = some (a, rest) → P a

section Yields

variable {α β : Type} {p q : Parser α} {f : α → Parser β} {P Q : α → Prop} {R : β → Prop}

theorem Yields.pure {a : α} (h : P a) : Yields (Pure.pure a) P := by
  intro cs b rest hread
  cases hread
  exact h

theorem Yields.failure : Yields (Alternative.failure : Parser α) P := by
  intro cs b rest hread
  cases hread

theorem Yields.lift {x : Option α} (h : ∀ a ∈ x, P a) : Yields (StateT.lift x) P := by
  intro cs a rest hread
  cases x with
  | none => cases hread
  | some x =>
    cases hread
    exact h a rfl

theorem Yields.bind (h : Yields p P) (hf : ∀ a, P a → Yields (f a) R) : Yields (p >>= f) R := by
  intro cs b rest hread
  cases hp : p cs with
  | none => rw [bind_of_none hp] at hread; cases hread
  | some x =>
    obtain ⟨a, mid⟩ := x
    rw [bind_of_some hp] at hread
    exact hf a (h _ _ _ hp) _ _ _ hread

theorem Yields.next (hf : ∀ a, Yields (f a) R) : Yields (p >>= f) R :=
  Yields.bind (P := fun _ => True) (fun _ _ _ _ => trivial) fun a _ => hf a

theorem Yields.imp (h : Yields p P) (himp : ∀ a, P a → Q a) : Yields p Q :=
  fun cs a rest hread => himp a (h cs a rest hread)

theorem Yields.orElse (hp : Yields p P) (hq : Yields q P) : Yields (p <|> q) P := by
  intro cs a rest hread
  cases h : p cs with
  | none => rw [orElse_of_none h] at hread; exact hq _ _ _ hread
  | some x => rw [orElse_of_some h] at hread; exact hp _ _ _ (h.trans hread)

theorem Yields.choice {ps : List (Parser α)} (h : ∀ p ∈ ps, Yields p P) : Yields (choice ps) P := by
  induction ps with
  | nil => exact .failure
  | cons p ps ih =>
    rw [List.forall_mem_cons] at h
    exact h.1.orElse (ih h.2)

theorem Yields.optional (h : Yields p P) : Yields (optional p) fun x => ∀ a ∈ x, P a := by
  apply Yields.orElse
  · change Yields (p >>= fun x => Pure.pure (some x)) _
    exact h.bind fun a ha => .pure (by simpa using ha)
  · exact .pure (by simp)

theorem Yields.repeatedUpTo (h : Yields p P) (fuel : Nat) :
    Yields (repeatedUpTo p fuel) fun as => ∀ a ∈ as, P a := by
  induction fuel with
  | zero => exact .pure (by simp)
  | succ n ih =>
    refine .orElse (h.bind fun a ha => ih.bind fun as has => .pure ?_) (.pure (by simp))
    exact List.forall_mem_cons.2 ⟨ha, has⟩

theorem Yields.spaced (h : Yields p P) : Yields (spaced p) fun as => ∀ a ∈ as, P a := by
  have hlater : Yields (repeated (do skip; p)) fun as => ∀ a ∈ as, P a :=
    fun cs => (Yields.next fun _ => h).repeatedUpTo cs.length cs
  refine .orElse (h.bind fun a ha => hlater.bind fun as has => .pure ?_) (.pure (by simp))
  exact List.forall_mem_cons.2 ⟨ha, has⟩

theorem Yields.commaSeparated (h : Yields p P) :
    Yields (commaSeparated p) fun as => as ≠ [] ∧ ∀ a ∈ as, P a := by
  refine h.bind fun a ha => .next fun _ => ?_
  refine Yields.bind (.spaced (.next fun _ => .next fun _ => h)) fun as has => .pure ?_
  exact ⟨by simp, List.forall_mem_cons.2 ⟨ha, has⟩⟩

end Yields

end QuerySearch.Sql.Parser

namespace QuerySearch.Sql

open QuerySearch.Sql.Parser

section Lists

variable {α : Type} {C : Conditions α}

theorem Expr.allOf_iff {es : List (Expr α)} : Expr.AllOf C es ↔ ∀ e ∈ es, e.All C := by
  induction es with
  | nil => simp [Expr.AllOf]
  | cons e es ih => simp [Expr.AllOf, ih]

theorem SortKey.allOf_iff {ks : List (SortKey α)} : SortKey.AllOf C ks ↔ ∀ k ∈ ks, k.expr.All C := by
  induction ks with
  | nil => simp [SortKey.AllOf]
  | cons k ks ih =>
    obtain ⟨e, descending⟩ := k
    simp [SortKey.AllOf, ih]

theorem TableRef.allOf_iff {ts : List (TableRef α)} : TableRef.AllOf C ts ↔ ∀ t ∈ ts, t.All C := by
  induction ts with
  | nil => simp [TableRef.AllOf]
  | cons t ts ih => simp [TableRef.AllOf, ih]

theorem SelectItem.allOf_iff {is : List (SelectItem α)} :
    SelectItem.AllOf C is ↔ ∀ i ∈ is, SelectItem.AllOf C [i] := by
  induction is with
  | nil => simp [SelectItem.AllOf]
  | cons i is ih => cases i <;> simp [SelectItem.AllOf, ih, and_assoc]

theorem Expr.all?_iff {e : Option (Expr α)} : Expr.All? C e ↔ ∀ x ∈ e, x.All C := by
  cases e <;> simp [Expr.All?]

end Lists

def Token.AllParsed : Token Literal → Prop
  | .operand e => e.All parsed
  | _ => True

section Folding

open QuerySearch.Sql.Token

theorem fold_parsed (n : Nat) :
    (∀ power ts e rest, (∀ t ∈ ts, t.AllParsed) → fold n power ts = some (e, rest) →
      e.All parsed ∧ ∀ t ∈ rest, t.AllParsed) ∧
    ∀ power l ts e rest, l.All parsed → (∀ t ∈ ts, t.AllParsed) → extend n power l ts = some (e, rest) →
      e.All parsed ∧ ∀ t ∈ rest, t.AllParsed := by
  induction n with
  | zero =>
    constructor
    · intro power ts e rest _ h
      cases h
    · intro power l ts e rest _ _ h
      cases h
  | succ n ih =>
    obtain ⟨ihfold, ihextend⟩ := ih
    constructor
    · intro power ts e rest hts h
      cases ts with
      | nil => cases h
      | cons t ts =>
        rw [List.forall_mem_cons] at hts
        cases t with
        | operand x => exact ihextend _ _ _ _ _ hts.1 hts.2 h
        | not =>
          obtain ⟨⟨arg, mid⟩, harg, h⟩ := Option.bind_eq_some_iff.1 h
          obtain ⟨hall, hmid⟩ := ihfold _ _ _ _ hts.2 harg
          exact ihextend _ _ _ _ _ (by rwa [Expr.All]) hmid h
        | infixOp op => cases h
        | nullTest negated => cases h
    · intro power l ts e rest hl hts h
      have hstop (hstop : some (l, ts) = some (e, rest)) : e.All parsed ∧ ∀ t ∈ rest, t.AllParsed := by
        cases hstop
        exact ⟨hl, hts⟩
      cases ts with
      | nil => exact hstop h
      | cons t ts =>
        have hlater := (List.forall_mem_cons.1 hts).2
        cases t with
        | operand x => exact hstop h
        | not => exact hstop h
        | infixOp op =>
          rw [extend] at h
          split at h
          · obtain ⟨⟨r, mid⟩, hr, h⟩ := Option.bind_eq_some_iff.1 h
            obtain ⟨hall, hmid⟩ := ihfold _ _ _ _ hlater hr
            refine ihextend _ _ _ _ _ ?_ hmid h
            cases op with
            | compare op =>
              rw [Infix.apply, Expr.All]
              exact ⟨trivial, hl, hall⟩
            | logic op =>
              rw [Infix.apply, Expr.All]
              exact ⟨hl, hall⟩
          · exact hstop h
        | nullTest negated =>
          rw [extend] at h
          split at h
          · exact ihextend _ _ _ _ _ (by rw [Expr.All]; exact ⟨trivial, hl⟩) hlater h
          · exact hstop h

theorem resolve_parsed {ts : List (Token Literal)} (hts : ∀ t ∈ ts, t.AllParsed) :
    ∀ e ∈ resolve ts, e.All parsed := by
  intro e h
  rw [resolve] at h
  split at h
  · next x hfold =>
    cases h
    exact ((fold_parsed _).1 _ _ _ _ hts hfold).1
  · cases h

end Folding

structure Inside.Parsed (inside : Inside) : Prop where
  expr : Yields inside.expr (Expr.All parsed)
  select : Yields inside.select (Select.All parsed)
  source : Yields inside.source (TableRef.All parsed)

section Rules

variable {α : Type} {P : α → Prop} {p : Parser α} {expr : Parser (Expr Literal)} {inside : Inside}

theorem yields_parenthesized (h : Yields p P) : Yields (parenthesized p) P :=
  .next fun _ => .next fun _ => h.bind fun _ ha => .next fun _ => .next fun _ => .pure ha

theorem yields_clauseBy {word : String} (h : Yields p P) : Yields (clauseBy word p) P :=
  .next fun _ => .next fun _ => .next fun _ => .next fun _ => h

theorem yields_sortKey (h : Yields expr (Expr.All parsed)) :
    Yields (sortKey expr) fun k => k.expr.All parsed :=
  h.bind fun _ he => .next fun _ => .next fun _ => .pure he

theorem yields_exprs (h : Yields expr (Expr.All parsed)) :
    Yields (Parser.commaSeparated expr) (Expr.AllOf parsed) :=
  h.commaSeparated.imp fun _ hes => Expr.allOf_iff.2 hes.2

theorem yields_sortKeys (h : Yields expr (Expr.All parsed)) :
    Yields (Parser.commaSeparated (sortKey expr)) (SortKey.AllOf parsed) :=
  (yields_sortKey h).commaSeparated.imp fun _ hks => SortKey.allOf_iff.2 hks.2

theorem allOf_getD {es : Option (List (Expr Literal))} (h : ∀ x ∈ es, Expr.AllOf parsed x) :
    Expr.AllOf parsed (es.getD []) := by
  cases es with
  | none => exact trivial
  | some es => exact h es rfl

theorem keys_getD {ks : Option (List (SortKey Literal))} (h : ∀ x ∈ ks, SortKey.AllOf parsed x) :
    SortKey.AllOf parsed (ks.getD []) := by
  cases ks with
  | none => exact trivial
  | some ks => exact h ks rfl

theorem yields_windowClause (h : inside.Parsed) :
    Yields (windowClause inside) fun w => Window.All parsed (some w) := by
  refine .next fun _ => .next fun _ => .next fun _ => .next fun _ => ?_
  refine (yields_clauseBy (yields_exprs h.expr)).optional.bind fun partitions hpartitions => .next fun _ => ?_
  refine (yields_clauseBy (yields_sortKeys h.expr)).optional.bind fun keys hkeys => ?_
  exact .next fun _ => .next fun _ => .pure ⟨allOf_getD hpartitions, keys_getD hkeys⟩

theorem yields_callArgs (h : inside.Parsed) :
    Yields (callArgs inside) fun args => ∀ es ∈ args, Expr.AllOf parsed es := by
  refine .orElse (.next fun _ => .pure (by simp)) ?_
  exact (yields_exprs h.expr).bind fun es hes => .pure (by simpa using hes)

theorem yields_functionCall (h : inside.Parsed) : Yields (functionCall inside) (Expr.All parsed) := by
  refine .next fun name => .next fun _ => .next fun _ => .next fun _ => ?_
  refine .next fun isDistinct => .next fun _ => (yields_callArgs h).optional.bind fun given hgiven => ?_
  refine .next fun _ => .next fun _ => .next fun _ => ?_
  refine (yields_windowClause h).optional.bind fun window hwindow => .pure ?_
  rw [Expr.All]
  refine ⟨trivial, ?_, ?_, ?_⟩
  · intro hstar
    rw [Option.isNone_iff_eq_none.1 hstar]
    rfl
  · apply allOf_getD
    cases given with
    | none => simp [Expr.AllOf]
    | some args => exact hgiven args rfl
  · cases window with
    | none => exact trivial
    | some window => exact hwindow window rfl

theorem yields_primary (h : inside.Parsed) : Yields (primary inside) (Expr.All parsed) := by
  apply Yields.choice
  simp only [List.forall_mem_cons, List.not_mem_nil, false_implies, implies_true, and_true]
  refine ⟨yields_functionCall h, .next fun _ => .pure ?_, .next fun _ => .pure ?_, ?_,
    yields_parenthesized h.expr⟩
  · rw [Expr.All]
    trivial
  · rw [Expr.All]
    exact ⟨fun _ _ => trivial, trivial⟩
  · exact (yields_parenthesized h.select).bind fun q hq => .pure (by rwa [Expr.All])

theorem yields_term (h : inside.Parsed) : Yields (term inside) fun ts => ∀ t ∈ ts, t.AllParsed := by
  refine .next fun nots => .next fun _ => (yields_primary h).bind fun e he => ?_
  refine .next fun _ => .next fun test => .pure ?_
  intro t ht
  simp only [List.mem_append, List.mem_map, List.mem_cons] at ht
  rcases ht with ⟨_, _, rfl⟩ | rfl | ht
  · exact trivial
  · exact he
  · cases test with
    | none => cases ht
    | some negated =>
      cases List.mem_singleton.1 ht
      exact trivial

theorem yields_expr (h : inside.Parsed) : Yields (Sql.expr inside) (Expr.All parsed) := by
  have hoperation : Yields (operation inside) fun ts => ∀ t ∈ ts, t.AllParsed :=
    .next fun op => .next fun _ => (yields_term h).bind fun ts hts =>
      .pure (List.forall_mem_cons.2 ⟨trivial, hts⟩)
  have htokens : Yields (tokens inside) fun ts => ∀ t ∈ ts, t.AllParsed := by
    refine (yields_term h).bind fun first hfirst => .next fun _ => ?_
    refine Yields.bind (p := spaced (operation inside)) hoperation.spaced fun others hothers => .pure ?_
    intro t ht
    rw [List.mem_append, List.mem_flatten] at ht
    obtain ht | ⟨ts, hts, ht⟩ := ht
    · exact hfirst t ht
    · exact hothers ts hts t ht
  exact htokens.bind fun ts hts => .lift (resolve_parsed hts)

theorem yields_selectItem (h : inside.Parsed) :
    Yields (selectItem inside) fun i => SelectItem.AllOf parsed [i] := by
  refine .orElse (.next fun _ => .pure trivial) ?_
  refine (yields_expr h).bind fun e he => .next fun _ => .next fun asName => .pure ?_
  exact ⟨he, fun _ _ => trivial, trivial⟩

theorem yields_tablePrimary (h : inside.Parsed) : Yields (tablePrimary inside) (TableRef.All parsed) := by
  apply Yields.choice
  simp only [List.forall_mem_cons, List.not_mem_nil, false_implies, implies_true, and_true]
  refine ⟨?_, .next fun _ => .next fun _ => .next fun _ => .pure ?_, yields_parenthesized h.source⟩
  · refine (yields_parenthesized h.select).bind fun q hq => .next fun _ => .next fun _ => .pure ?_
    rw [TableRef.All]
    exact ⟨hq, fun _ _ => trivial⟩
  · rw [TableRef.All]
    exact ⟨trivial, fun _ _ => trivial⟩

theorem yields_joinPart (h : inside.Parsed) :
    Yields (joinPart inside) fun join => ∀ left, left.All parsed → (join left).All parsed := by
  refine .next fun kind => .next fun _ => .next fun _ => .next fun _ => ?_
  refine (yields_tablePrimary h).bind fun right hright => .next fun _ => ?_
  have hon : Yields (do keyword "on"; skip; Sql.expr inside) (Expr.All parsed) :=
    .next fun _ => .next fun _ => yields_expr h
  refine hon.optional.bind fun on hon => .pure fun left hleft => ?_
  rw [TableRef.All]
  exact ⟨hleft, hright, Expr.all?_iff.2 hon⟩

theorem yields_tableRef (h : inside.Parsed) : Yields (tableRef inside) (TableRef.All parsed) := by
  refine (yields_tablePrimary h).bind fun first hfirst => .next fun _ => ?_
  refine (yields_joinPart h).spaced.bind fun joins hjoins => .pure ?_
  induction joins generalizing first with
  | nil => exact hfirst
  | cons join joins ih =>
    rw [List.forall_mem_cons] at hjoins
    exact ih _ (hjoins.1 first hfirst) hjoins.2

theorem yields_select (h : inside.Parsed) : Yields (select inside) (Select.All parsed) := by
  have hworded (w : String) : Yields (do keyword w; skip; Sql.expr inside) (Expr.All parsed) :=
    .next fun _ => .next fun _ => yields_expr h
  have hsources : Yields (do keyword "from"; skip; Parser.commaSeparated (tableRef inside))
      fun ts => ts ≠ [] ∧ ∀ t ∈ ts, t.All parsed :=
    .next fun _ => .next fun _ => (yields_tableRef h).commaSeparated
  refine .next fun _ => .next fun _ => .next fun isDistinct => .next fun _ => ?_
  refine (yields_selectItem h).commaSeparated.bind fun items hitems => .next fun _ => ?_
  refine hsources.optional.bind fun sources hsources => .next fun _ => ?_
  refine (hworded "where").optional.bind fun filter hfilter => .next fun _ => ?_
  refine (yields_clauseBy (yields_exprs (yields_expr h))).optional.bind fun groups hgroups => .next fun _ => ?_
  refine (hworded "having").optional.bind fun having hhaving => .next fun _ => ?_
  refine (yields_clauseBy (yields_sortKeys (yields_expr h))).optional.bind fun keys hkeys => .pure ?_
  have hsourcesAll : TableRef.AllOf parsed (sources.getD []) := by
    cases sources with
    | none => exact trivial
    | some ts => exact TableRef.allOf_iff.2 (hsources ts rfl).2
  exact ⟨hitems.1, SelectItem.allOf_iff.2 hitems.2, hsourcesAll, Expr.all?_iff.2 hfilter, allOf_getD hgroups,
    Expr.all?_iff.2 hhaving, keys_getD hkeys⟩

theorem levels_parsed (n : Nat) : (levels n).Parsed := by
  induction n with
  | zero => exact ⟨.failure, .failure, .failure⟩
  | succ n ih => exact ⟨yields_expr ih, yields_select ih, yields_tableRef ih⟩

theorem selectStatement_parsed {text : String} {q : Select Literal} (h : selectStatement.whole text = some q) :
    q.All parsed := by
  have hselect : Yields (withLevels select) (Select.All parsed) := fun cs => yields_select (levels_parsed _) cs
  have hstatement : Yields selectStatement (Select.All parsed) :=
    .next fun _ => hselect.bind fun q hq => .next fun _ => .next fun _ => .next fun _ => .next fun _ => .pure hq
  have hended : Yields (do let q ← selectStatement; ending; return q) (Select.All parsed) :=
    hstatement.bind fun q hq => .next fun _ => .pure hq
  obtain ⟨⟨q', rest⟩, hread, rfl⟩ := Option.map_eq_some_iff.1 h
  exact hended _ _ _ hread

end Rules

section Values

theorem finite_of_value {l : Literal} {c : Constant} (h : l.value = .ok c) : c.Finite := by
  cases l with
  | decimal negative whole fraction =>
    rw [Literal.value] at h
    split at h
    · next hfinite =>
      cases h
      exact hfinite
    · cases h
  | integer negative digits =>
    rw [Literal.value] at h
    split at h
    · cases h
      exact trivial
    · cases h
  | _ =>
    cases h
    exact trivial

theorem SelectItem.eq_nil_of_mapConstants {is : List (SelectItem Literal)}
    (h : SelectItem.mapConstants Literal.value is = .ok []) : is = [] := by
  cases is with
  | nil => rfl
  | cons i is =>
    cases i with
    | star =>
      obtain ⟨rest, -, h⟩ := ok_of_bind h
      cases h
    | expr e asName =>
      obtain ⟨e', -, h⟩ := ok_of_bind h
      obtain ⟨rest, -, h⟩ := ok_of_bind h
      cases h

mutual

theorem Expr.all_of_mapConstants : (e : Expr Literal) → e.All parsed →
    ∀ {e'}, e.mapConstants Literal.value = .ok e' → e'.All finite
  | .column c, _, e', he => by
    cases he
    rw [Expr.All]
    exact ⟨fun _ _ => trivial, trivial⟩
  | .constant a, h, e', he => by
    obtain ⟨b, hb, he⟩ := ok_of_bind he
    cases he
    rw [Expr.All] at h ⊢
    exact finite_of_value hb
  | .compare l op r, h, e', he => by
    rw [Expr.All] at h
    obtain ⟨l', hl, he⟩ := ok_of_bind he
    obtain ⟨r', hr, he⟩ := ok_of_bind he
    cases he
    rw [Expr.All]
    exact ⟨trivial, Expr.all_of_mapConstants l h.2.1 hl, Expr.all_of_mapConstants r h.2.2 hr⟩
  | .logic l op r, h, e', he => by
    rw [Expr.All] at h
    obtain ⟨l', hl, he⟩ := ok_of_bind he
    obtain ⟨r', hr, he⟩ := ok_of_bind he
    cases he
    rw [Expr.All]
    exact ⟨Expr.all_of_mapConstants l h.1 hl, Expr.all_of_mapConstants r h.2 hr⟩
  | .not e, h, e', he => by
    rw [Expr.All] at h
    obtain ⟨x, hx, he⟩ := ok_of_bind he
    cases he
    rw [Expr.All]
    exact Expr.all_of_mapConstants e h hx
  | .isNull e negated, h, e', he => by
    rw [Expr.All] at h
    obtain ⟨x, hx, he⟩ := ok_of_bind he
    cases he
    rw [Expr.All]
    exact ⟨trivial, Expr.all_of_mapConstants e h.2 hx⟩
  | .call name isDistinct star args window, h, e', he => by
    rw [Expr.All] at h
    obtain ⟨-, hstar, hargs, hwindow⟩ := h
    obtain ⟨args', hargs', he⟩ := ok_of_bind he
    obtain ⟨window', hwindow', he⟩ := ok_of_bind he
    cases he
    rw [Expr.All]
    refine ⟨trivial, fun h => ?_, Expr.allOf_of_mapConstants args hargs hargs',
      Window.all_of_mapConstants window hwindow hwindow'⟩
    cases hstar h
    cases hargs'
    rfl
  | .subquery q, h, e', he => by
    rw [Expr.All] at h
    obtain ⟨q', hq, he⟩ := ok_of_bind he
    cases he
    rw [Expr.All]
    exact Select.all_of_mapConstants q h hq

theorem Expr.allOf_of_mapConstants : (es : List (Expr Literal)) → Expr.AllOf parsed es →
    ∀ {es'}, Expr.mapConstantsList Literal.value es = .ok es' → Expr.AllOf finite es'
  | [], _, es', hes => by
    cases hes
    exact trivial
  | e :: es, h, es', hes => by
    rw [Expr.AllOf] at h
    obtain ⟨e', he, hes⟩ := ok_of_bind hes
    obtain ⟨rest, hrest, hes⟩ := ok_of_bind hes
    cases hes
    exact ⟨Expr.all_of_mapConstants e h.1 he, Expr.allOf_of_mapConstants es h.2 hrest⟩

theorem Expr.all?_of_mapConstants : (e : Option (Expr Literal)) → Expr.All? parsed e →
    ∀ {e'}, Expr.mapConstants? Literal.value e = .ok e' → Expr.All? finite e'
  | none, _, e', he => by
    cases he
    exact trivial
  | some e, h, e', he => by
    obtain ⟨x, hx, he⟩ := ok_of_bind he
    cases he
    exact Expr.all_of_mapConstants e h hx

theorem Window.all_of_mapConstants : (window : Option (Window Literal)) → Window.All parsed window →
    ∀ {window'}, Window.mapConstants? Literal.value window = .ok window' → Window.All finite window'
  | none, _, window', hwindow => by
    cases hwindow
    exact trivial
  | some ⟨partitionBy, orderBy⟩, h, window', hwindow => by
    rw [Window.All] at h
    obtain ⟨partitions, hpartitions, hwindow⟩ := ok_of_bind hwindow
    obtain ⟨keys, hkeys, hwindow⟩ := ok_of_bind hwindow
    cases hwindow
    exact ⟨Expr.allOf_of_mapConstants partitionBy h.1 hpartitions,
      SortKey.allOf_of_mapConstants orderBy h.2 hkeys⟩

theorem SortKey.allOf_of_mapConstants : (ks : List (SortKey Literal)) → SortKey.AllOf parsed ks →
    ∀ {ks'}, SortKey.mapConstants Literal.value ks = .ok ks' → SortKey.AllOf finite ks'
  | [], _, ks', hks => by
    cases hks
    exact trivial
  | ⟨e, descending⟩ :: ks, h, ks', hks => by
    rw [SortKey.AllOf] at h
    obtain ⟨e', he, hks⟩ := ok_of_bind hks
    obtain ⟨rest, hrest, hks⟩ := ok_of_bind hks
    cases hks
    exact ⟨Expr.all_of_mapConstants e h.1 he, SortKey.allOf_of_mapConstants ks h.2 hrest⟩

theorem SelectItem.allOf_of_mapConstants : (is : List (SelectItem Literal)) → SelectItem.AllOf parsed is →
    ∀ {is'}, SelectItem.mapConstants Literal.value is = .ok is' → SelectItem.AllOf finite is'
  | [], _, is', his => by
    cases his
    exact trivial
  | .star :: is, h, is', his => by
    rw [SelectItem.AllOf] at h
    obtain ⟨rest, hrest, his⟩ := ok_of_bind his
    cases his
    rw [SelectItem.AllOf]
    exact SelectItem.allOf_of_mapConstants is h hrest
  | .expr e asName :: is, h, is', his => by
    rw [SelectItem.AllOf] at h
    obtain ⟨e', he, his⟩ := ok_of_bind his
    obtain ⟨rest, hrest, his⟩ := ok_of_bind his
    cases his
    rw [SelectItem.AllOf]
    exact ⟨Expr.all_of_mapConstants e h.1 he, fun _ _ => trivial,
      SelectItem.allOf_of_mapConstants is h.2.2 hrest⟩

theorem TableRef.all_of_mapConstants : (t : TableRef Literal) → t.All parsed →
    ∀ {t'}, t.mapConstants Literal.value = .ok t' → t'.All finite
  | .table name asName, _, t', ht => by
    cases ht
    rw [TableRef.All]
    exact ⟨trivial, fun _ _ => trivial⟩
  | .query q asName, h, t', ht => by
    rw [TableRef.All] at h
    obtain ⟨q', hq, ht⟩ := ok_of_bind ht
    cases ht
    rw [TableRef.All]
    exact ⟨Select.all_of_mapConstants q h.1 hq, fun _ _ => trivial⟩
  | .join left right kind on, h, t', ht => by
    rw [TableRef.All] at h
    obtain ⟨left', hleft, ht⟩ := ok_of_bind ht
    obtain ⟨right', hright, ht⟩ := ok_of_bind ht
    obtain ⟨on', hon, ht⟩ := ok_of_bind ht
    cases ht
    rw [TableRef.All]
    exact ⟨TableRef.all_of_mapConstants left h.1 hleft, TableRef.all_of_mapConstants right h.2.1 hright,
      Expr.all?_of_mapConstants on h.2.2 hon⟩

theorem TableRef.allOf_of_mapConstants : (ts : List (TableRef Literal)) → TableRef.AllOf parsed ts →
    ∀ {ts'}, TableRef.mapConstantsList Literal.value ts = .ok ts' → TableRef.AllOf finite ts'
  | [], _, ts', hts => by
    cases hts
    exact trivial
  | t :: ts, h, ts', hts => by
    rw [TableRef.AllOf] at h
    obtain ⟨t', ht, hts⟩ := ok_of_bind hts
    obtain ⟨rest, hrest, hts⟩ := ok_of_bind hts
    cases hts
    exact ⟨TableRef.all_of_mapConstants t h.1 ht, TableRef.allOf_of_mapConstants ts h.2 hrest⟩

theorem Select.all_of_mapConstants : (q : Select Literal) → q.All parsed →
    ∀ {q'}, q.mapConstants Literal.value = .ok q' → q'.All finite
  | ⟨isDistinct, items, sources, filter, groupBy, having, orderBy⟩, h, q', hq => by
    rw [Select.All] at h
    obtain ⟨hne, hitems, hsources, hfilter, hgroups, hhaving, hkeys⟩ := h
    obtain ⟨items', hitems', hq⟩ := ok_of_bind hq
    obtain ⟨sources', hsources', hq⟩ := ok_of_bind hq
    obtain ⟨filter', hfilter', hq⟩ := ok_of_bind hq
    obtain ⟨groups', hgroups', hq⟩ := ok_of_bind hq
    obtain ⟨having', hhaving', hq⟩ := ok_of_bind hq
    obtain ⟨keys', hkeys', hq⟩ := ok_of_bind hq
    cases hq
    refine ⟨fun h => ?_, SelectItem.allOf_of_mapConstants items hitems hitems',
      TableRef.allOf_of_mapConstants sources hsources hsources',
      Expr.all?_of_mapConstants filter hfilter hfilter',
      Expr.allOf_of_mapConstants groupBy hgroups hgroups', Expr.all?_of_mapConstants having hhaving hhaving',
      SortKey.allOf_of_mapConstants orderBy hkeys hkeys'⟩
    subst h
    exact hne (SelectItem.eq_nil_of_mapConstants hitems')

end

theorem grammatical_of_read {text : String} {q : Select Constant} (h : Select.read text = .ok q) :
    q.All finite := by
  rw [Select.read] at h
  split at h
  · cases h
  · next q' hread =>
    have hparsed := selectStatement_parsed hread
    cases hvalue : q'.mapConstants Literal.value with
    | error e => rw [hvalue] at h; cases h
    | ok x =>
      rw [hvalue] at h
      cases h
      exact Select.all_of_mapConstants q' hparsed hvalue

end Values

end QuerySearch.Sql
