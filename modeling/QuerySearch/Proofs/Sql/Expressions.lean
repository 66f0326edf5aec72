import QuerySearch.Proofs.Sql.Lexemes

/-! Expressions: their readers agree with the grammar one level of parentheses further out than the
readers for what parentheses enclose. -/

namespace QuerySearch.Sql

open QuerySearch.Sql.Parser QuerySearch.Sql.Peg

variable {α β : Type} {whole : List Char} {n : Nat}

section Meanings

abbrev Expr.valuation (e : Expr Literal) : Except InvalidLiteral (Expr Constant) := e.mapConstants Literal.value

structure ExprTrees (inner : List Tree) (e : Expr Literal) : Prop where
  gives : ConvertsTo (Convert.expr inner) e.valuation inner
  stratified : AllInRange inner → Stratified inner

theorem ExprTrees.node {inner : List Tree} {e : Expr Literal} (h : ExprTrees inner e) (t : List Char) :
    ConvertsTo (Convert.expr inner) e.valuation [.node .expr t inner] where
  converts := h.gives.converts
  checks := by
    have hnumbers : Tree.numbersIn [.node .expr t inner] = Tree.numbersIn inner := by
      simp [Tree.numbersIn, Tree.numbers]
    cases h.gives.checks with
    | ok hr hts => exact .ok hr (by rwa [AllInRange, hnumbers])
    | error hr hl hvalue => exact .error hr (by rwa [hnumbers]) hvalue
  strata := by
    intro us hus
    have hsequences : Tree.sequencesIn [.node .expr t inner] = inner :: Tree.sequencesIn inner := by
      simp [Tree.sequencesIn, Tree.sequences]
    rw [hsequences, List.mem_cons] at hus
    obtain rfl | hus := hus
    · exact h.stratified
    · exact h.gives.strata us hus

def BodyTrees (inner : List Tree) (q : Select Literal) : Prop :=
  ConvertsTo (Convert.body inner Convert.emptySelect) (q.mapConstants Literal.value) inner

def SourceTrees (inner : List Tree) (t : TableRef Literal) : Prop :=
  ConvertsTo (Convert.fromItem inner none) (t.mapConstants Literal.value) inner

structure Inside.Agree (whole : List Char) (n : Nat) (inside : Inside) : Prop where
  expr : Agrees whole n false (.rule .expr) inside.expr (Node .expr ExprTrees)
  select : Agrees whole n false (.rule .selectBody) inside.select (Node .selectBody BodyTrees)
  source : Agrees whole n false (.rule .fromItem) inside.source (Node .fromItem SourceTrees)

end Meanings

section Lists

theorem Expr.mapConstantsList_eq (es : List (Expr Literal)) :
    Expr.mapConstantsList Literal.value es = es.mapM Expr.valuation := by
  induction es with
  | nil => rfl
  | cons e es ih => rw [Expr.mapConstantsList, List.mapM_cons, ih]

theorem convertsTo_mapM [Inhabited β] {conv : List Tree → Except ConvertError (List β)}
    {S : List Tree → α → Prop} {m : α → Except InvalidLiteral β} (hnil : conv [] = .ok [])
    (hcons : ∀ ts x, S ts x → ∃ c, ConvertsTo c (m x) ts ∧
      ∀ rest, conv (ts ++ rest) = do
        let y ← c
        return y :: (← conv rest))
    {ts : List Tree} {xs : List α} (h : Each S ts xs) : ConvertsTo (conv ts) (xs.mapM m) ts := by
  induction h with
  | nil =>
    rw [hnil, List.mapM_nil]
    exact .ok _ .nil
  | cons hx _ ih =>
    obtain ⟨c, hc, hconv⟩ := hcons _ _ hx
    rw [hconv, List.mapM_cons]
    exact hc.bind fun y => ih.map (y :: ·)

end Lists

section Tokens

structure TokenTrees (ts : List Tree) (us : List (Token Literal)) : Prop where
  step : ∀ rest, Convert.tokens (ts ++ rest) = do
    let us ← reported (Token.mapConstants Literal.value us)
    return us ++ (← Convert.tokens rest)
  gives : ConvertsTo (reported (Token.mapConstants Literal.value us)) (Token.mapConstants Literal.value us) ts

variable {ts ts' : List Tree} {us us' : List (Token Literal)}

theorem TokenTrees.nil : TokenTrees [] [] where
  step rest := by simp [Token.mapConstants]
  gives := .ok _ .nil

theorem TokenTrees.append (h : TokenTrees ts us) (h' : TokenTrees ts' us') :
    TokenTrees (ts ++ ts') (us ++ us') where
  step rest := by
    rw [List.append_assoc, h.step, h'.step, Token.mapConstants_append]
    simp only [reported_bind, reported_pure, bind_assoc, pure_bind, List.append_assoc]
  gives := by
    rw [Token.mapConstants_append, reported_bind]
    refine h.gives.bind fun us => ?_
    rw [reported_bind]
    exact h'.gives.map (us ++ ·)

theorem TokenTrees.converted (h : TokenTrees ts us) :
    ConvertsTo (Convert.tokens ts) (Token.mapConstants Literal.value us) ts := by
  have hstep := h.step []
  rw [List.append_nil, Convert.tokens] at hstep
  rw [hstep]
  simpa using h.gives

theorem TokenTrees.quiet {u : Token Literal} {u' : Token Constant} (hquiet : Quiet ts)
    (hu : ∀ us, Token.mapConstants Literal.value (u :: us) =
      do return u' :: (← Token.mapConstants Literal.value us))
    (hstep : ∀ rest, Convert.tokens (ts ++ rest) = do return u' :: (← Convert.tokens rest)) :
    TokenTrees ts [u] := by
  have hvalue : Token.mapConstants Literal.value [u] = .ok [u'] := hu []
  refine ⟨fun rest => ?_, ?_⟩
  · rw [hstep, hvalue]
    rfl
  · rw [hvalue]
    exact .ok _ hquiet

theorem TokenTrees.operand {e : Expr Literal} {c : Except ConvertError (Expr Constant)}
    (h : ConvertsTo c e.valuation ts) (hstep : ∀ rest, Convert.tokens (ts ++ rest) = do
      let e ← c
      return .operand e :: (← Convert.tokens rest)) : TokenTrees ts [.operand e] := by
  have hvalue : Token.mapConstants Literal.value [.operand e] =
      do return [.operand (← e.valuation)] := by
    simp [Token.mapConstants]
  refine ⟨fun rest => ?_, ?_⟩
  · rw [hstep, hvalue, h.converts]
    simp
  · rw [hvalue, reported_bind, ← h.converts]
    exact h.map fun e => [Token.operand e]

theorem TokenTrees.expr (h : TokenTrees ts us) (hseq : Token.Sequence us) :
    ∃ e, Token.resolve us = some e ∧ ExprTrees ts e := by
  obtain ⟨e, he⟩ := hseq.disjoined
  refine ⟨e, he.resolve_eq, ?_⟩
  have hconverted := h.converted
  cases he.carried (f := Literal.value) with
  | @ok us' e' hus hvalue he' =>
    have htokens : Convert.tokens ts = .ok us' := by rw [hconverted.converts, hus]; rfl
    have hexpr : Convert.expr ts = .ok e' := by
      rw [Convert.expr, htokens]
      change Convert.resolved us' = _
      rw [Convert.resolved, he'.resolve_eq]
      rfl
    refine ⟨⟨?_, ?_, hconverted.strata⟩, fun _ => ⟨us', e', htokens, he', hexpr⟩⟩
    · rw [hexpr, Expr.valuation, hvalue]
      rfl
    · cases hconverted.checks with
      | ok _ hts => exact .ok hvalue hts
      | error hr => exact nomatch hus.symm.trans hr
  | error x hus hvalue =>
    have htokens : Convert.tokens ts = .error (.invalidLiteral x) := by
      rw [hconverted.converts, hus]; rfl
    cases hconverted.checks with
    | ok hr => exact nomatch hus.symm.trans hr
    | @error x' l hr hl hx =>
      cases hus.symm.trans hr
      refine ⟨⟨?_, .error hvalue hl hx, hconverted.strata⟩, fun hts => ?_⟩
      · rw [Convert.expr, htokens, Expr.valuation, hvalue]
        rfl
      · exact absurd (hts l hl) (Literal.not_inRange hx)

end Tokens

section Clauses

variable {S : List Tree → α → Prop} {a : Peg} {p : Parser α} {inside : Inside}

theorem agrees_parenthesized (h : Agrees whole n false a p fun _ ts x => S ts x) :
    Agrees whole (n + 1) false (Peg.inParentheses a) (parenthesized p) fun _ ts x => S ts x := by
  refine Agrees.opened ?_
  refine h.seq fun _ ts x hx => ?_
  refine (agrees_text ")").map _ fun _ _ _ hclose => ?_
  obtain ⟨-, rfl⟩ := hclose
  rwa [List.append_nil]

def Headed (w : Word) (S : List Tree → α → Prop) (ts : List Tree) (x : α) : Prop :=
  ∃ t t' us, ts = .node (.word w) t [] :: .node (.word .BY) t' [] :: us ∧ S us x

theorem agrees_clauseBy (w : Word) (h : Agrees whole n false a p fun _ ts x => S ts x) :
    Agrees whole n false (.seq (.word w) <| .seq (.word .BY) a) (clauseBy w.text p)
      fun _ ts x => Headed w S ts x := by
  refine (agrees_word w).seq fun _ _ _ hw => ?_
  obtain ⟨t, rfl, -⟩ := hw
  refine (agrees_word .BY).seq fun _ _ _ hby => ?_
  obtain ⟨t', rfl, -⟩ := hby
  exact h.imp fun _ us _ hx => ⟨t, t', us, rfl, hx⟩

theorem Headed.gives {w : Word} {ts : List Tree} {x : α} {conv : List Tree → Except ConvertError β}
    {r : α → Except InvalidLiteral β} (h : Headed w S ts x)
    (hskip : ∀ w t rest, conv (.node (.word w) t [] :: rest) = conv rest)
    (hS : ∀ us x, S us x → ConvertsTo (conv us) (r x) us) : ConvertsTo (conv ts) (r x) ts := by
  obtain ⟨t, t', us, rfl, hx⟩ := h
  rw [hskip, hskip]
  exact ((hS us x hx).quiet (.word .BY t')).quiet (.word w t)

theorem Passes.maybe {γ σ : Type} {loop : List Tree → σ → Except ConvertError γ} {s : σ} {next : β → σ}
    {k : Rule} {front : List Char} {ts : List Tree} {x : Option α} (r : Option α → Except InvalidLiteral β)
    (conv : List Char → List Tree → Except ConvertError β) (h : Maybe (Node k S) front ts x) (hk : k.Plain)
    (hS : ∀ t inner y, S inner y → ConvertsTo (conv t inner) (r (some y)) inner)
    (hloop : ∀ t inner rest, loop (.node k t inner :: rest) s = conv t inner >>= fun v => loop rest (next v))
    {v : β} (hnone : r none = .ok v) (hnext : next v = s) : Passes loop s (r x) next ts := by
  cases x with
  | none =>
    obtain ⟨-, rfl⟩ := h
    rw [hnone]
    exact .absent hnext
  | some y =>
    obtain ⟨t, inner, rfl, hy⟩ := h
    exact .node (hS t inner y hy) hk (hloop t inner)

theorem convertsTo_exprs {ts : List Tree} {es : List (Expr Literal)} (h : Each (Node .expr ExprTrees []) ts es) :
    ConvertsTo (Convert.exprs ts) (Expr.mapConstantsList Literal.value es) ts := by
  rw [Expr.mapConstantsList_eq]
  refine convertsTo_mapM (by rw [Convert.exprs]; rfl) (fun us e he => ?_) h
  obtain ⟨t, inner, rfl, he⟩ := he
  exact ⟨_, he.node t, fun rest => by rw [List.singleton_append, Convert.exprs]; rfl⟩

abbrev SortKey.valuation (k : SortKey Literal) : Except InvalidLiteral (SortKey Constant) := do
  return ⟨← k.expr.valuation, k.descending⟩

theorem SortKey.mapConstants_eq (ks : List (SortKey Literal)) :
    SortKey.mapConstants Literal.value ks = ks.mapM SortKey.valuation := by
  induction ks with
  | nil => rfl
  | cons k ks ih =>
    obtain ⟨e, descending⟩ := k
    rw [SortKey.mapConstants, List.mapM_cons, ih]
    simp [SortKey.valuation]

def DirectionTree (ts : List Tree) (descending : Bool) : Prop :=
  ∃ t, ts = [.node (.word (if descending then .DESC else .ASC)) t []]

theorem agrees_direction : Agrees whole n false (.alt (.word .ASC) (.word .DESC))
    ((do keyword "asc"; return false) <|> (do keyword "desc"; return true))
    fun _ ts x => DirectionTree ts x :=
  .orElse ((agrees_word .ASC).map _ fun _ _ _ ⟨t, ht, _⟩ => ⟨t, ht⟩)
    ((agrees_word .DESC).map _ fun _ _ _ ⟨t, ht, _⟩ => ⟨t, ht⟩)

def SortKeyTrees (inner : List Tree) (k : SortKey Literal) : Prop :=
  ConvertsTo (Convert.sortKey inner none false) k.valuation inner

theorem Headed.convertsTo_exprs {w : Word} {ts : List Tree} {es : List (Expr Literal)}
    (h : Headed w (Each (Node .expr ExprTrees [])) ts es) :
    ConvertsTo (Convert.exprs ts) (Expr.mapConstantsList Literal.value es) ts :=
  h.gives (fun w t rest => by rw [Convert.exprs]; intro _ _ heq; cases heq)
    fun _ _ => QuerySearch.Sql.convertsTo_exprs

theorem agrees_sortKey {p : Parser (Expr Literal)}
    (h : Agrees whole n false (.rule .expr) p (Node .expr ExprTrees)) :
    Agrees whole n false (.rule .orderItem) (sortKey p) (Node .orderItem SortKeyTrees) := by
  refine Agrees.node ?_ rfl
  refine h.seq fun _ _ e he => ?_
  obtain ⟨t, inner, rfl, he⟩ := he
  refine agrees_direction.optional.map _ fun _ ts direction hdirection => ?_
  obtain ⟨hquiet, hend⟩ : Quiet ts ∧
      ∀ e', Convert.sortKey ts (some e') false = .ok ⟨e', direction.getD false⟩ := by
    cases direction with
    | none =>
      obtain ⟨-, rfl⟩ := hdirection
      exact ⟨.nil, fun e' => by rw [Convert.sortKey]; rfl⟩
    | some descending =>
      obtain ⟨t', rfl⟩ := hdirection
      refine ⟨.word _ t', fun e' => ?_⟩
      cases descending <;> simp [Convert.sortKey, pure, Except.pure]
  rw [SortKeyTrees, List.singleton_append, Convert.sortKey]
  simp only [hend]
  exact (he.node t).bind fun e' => .ok _ hquiet

theorem convertsTo_sortKeys {ts : List Tree} {ks : List (SortKey Literal)}
    (h : Each (Node .orderItem SortKeyTrees []) ts ks) :
    ConvertsTo (Convert.sortKeys ts) (SortKey.mapConstants Literal.value ks) ts := by
  rw [SortKey.mapConstants_eq]
  refine convertsTo_mapM (by rw [Convert.sortKeys]; rfl) (fun us k hk => ?_) h
  obtain ⟨t, inner, rfl, hk⟩ := hk
  exact ⟨_, hk.node (by decide) t, fun rest => by rw [List.singleton_append, Convert.sortKeys]⟩

theorem Headed.convertsTo_sortKeys {w : Word} {ts : List Tree} {ks : List (SortKey Literal)}
    (h : Headed w (Each (Node .orderItem SortKeyTrees [])) ts ks) :
    ConvertsTo (Convert.sortKeys ts) (SortKey.mapConstants Literal.value ks) ts :=
  h.gives (fun w t rest => by rw [Convert.sortKeys]; intro _ _ heq; cases heq)
    fun _ _ => QuerySearch.Sql.convertsTo_sortKeys

end Clauses

end QuerySearch.Sql
