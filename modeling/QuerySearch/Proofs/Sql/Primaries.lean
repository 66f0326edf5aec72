import QuerySearch.Proofs.Sql.Expressions

/-! Calls, operands and whole expressions. -/

namespace QuerySearch.Sql

open QuerySearch.Sql.Parser QuerySearch.Sql.Peg

variable {whole : List Char} {n : Nat} {inside : Inside}

section Windows

def WindowTrees (inner : List Tree) (w : Window Literal) : Prop :=
  ConvertsTo (Convert.window inner ⟨[], []⟩) (do
    let partitionBy ← Expr.mapConstantsList Literal.value w.partitionBy
    let orderBy ← SortKey.mapConstants Literal.value w.orderBy
    return ⟨partitionBy, orderBy⟩) inner

theorem agrees_windowClause (h : inside.Agree whole n) :
    Agrees whole n false (.rule .overClause) (windowClause inside) (Node .overClause WindowTrees) := by
  refine Agrees.node ?_ rfl
  refine (agrees_word .OVER).seq fun _ _ _ hover => ?_
  obtain ⟨t, rfl, -⟩ := hover
  refine Agrees.mono (Agrees.opened ?_) (Nat.le_succ n)
  refine (((agrees_clauseBy .PARTITION h.expr.commaSeparated).node rfl).optional).seq
    fun _ ts₁ partitionBy hpartition => ?_
  refine (((agrees_clauseBy .ORDER (agrees_sortKey h.expr).commaSeparated).node rfl).optional).seq
    fun _ ts₂ orderBy horder => ?_
  refine (agrees_text ")").map _ fun _ _ _ hclose => ?_
  obtain ⟨-, rfl⟩ := hclose
  have hpasses₁ : Passes Convert.window ⟨[], []⟩ (Expr.mapConstantsList Literal.value (partitionBy.getD []))
      (fun es => ⟨es, []⟩) ts₁ :=
    .maybe (fun x => Expr.mapConstantsList Literal.value (x.getD [])) (fun _ => Convert.exprs) hpartition
      (by decide) (fun _ _ _ hes => hes.convertsTo_exprs) (fun t inner rest => by rw [Convert.window]; rfl) rfl rfl
  have hpasses₂ (es) : Passes Convert.window ⟨es, []⟩ (SortKey.mapConstants Literal.value (orderBy.getD []))
      (fun ks => ⟨es, ks⟩) ts₂ :=
    .maybe (fun x => SortKey.mapConstants Literal.value (x.getD [])) (fun _ => Convert.sortKeys) horder
      (by decide) (fun _ _ _ hks => hks.convertsTo_sortKeys) (fun t inner rest => by rw [Convert.window]) rfl rfl
  rw [WindowTrees, List.append_nil, List.singleton_append, Convert.window]
  refine ConvertsTo.quiet ?_ (.word .OVER t)
  exact hpasses₁.andThen fun es => (hpasses₂ es).last fun ks => by rw [Convert.window]; rfl

theorem Window.mapConstants?_some (w : Window Literal) : Window.mapConstants? Literal.value (some w) = do
    let partitionBy ← Expr.mapConstantsList Literal.value w.partitionBy
    let orderBy ← SortKey.mapConstants Literal.value w.orderBy
    return some ⟨partitionBy, orderBy⟩ := by
  obtain ⟨partitionBy, orderBy⟩ := w
  rw [Window.mapConstants?]

end Windows

section Calls

def ArgsTrees (inner : List Tree) (args : Option (List (Expr Literal))) : Prop :=
  ConvertsTo (reported (Expr.mapConstantsList Literal.value (args.getD [])))
    (Expr.mapConstantsList Literal.value (args.getD [])) inner ∧
  ∀ c : Convert.CallParts, c.star = false → c.args = [] → Convert.args inner c = do
    return { c with
      star := args.isNone
      args := ← reported (Expr.mapConstantsList Literal.value (args.getD [])) }

theorem args_exprs {ts : List Tree} {es : List (Expr Literal)} (h : Each (Node .expr ExprTrees []) ts es)
    (c : Convert.CallParts) : Convert.args ts c = do
      return { c with args := c.args ++ (← reported (Expr.mapConstantsList Literal.value es)) } := by
  induction h generalizing c with
  | nil => simp [Convert.args, Expr.mapConstantsList]
  | cons he _ ih =>
    obtain ⟨t, inner, rfl, he⟩ := he
    have hexpr := he.gives.converts
    rw [Convert.expr] at hexpr
    rw [List.singleton_append, Convert.args, hexpr, Expr.mapConstantsList]
    simp [ih]

theorem agrees_callArgs (h : inside.Agree whole n) :
    Agrees whole n false (.rule .funcArgs) (callArgs inside) (Node .funcArgs ArgsTrees) := by
  have hstar : Agrees whole n false (.rule .star) (symbol "*") (Node .star fun inner _ => inner = []) :=
    Agrees.node ((agrees_text "*").imp fun _ _ _ h => h.2) rfl
  refine Agrees.node (.orElse ?_ ?_) rfl
  · refine hstar.map _ fun _ _ _ hs => ?_
    obtain ⟨t, _, rfl, rfl⟩ := hs
    refine ⟨.ok _ (Quiet.nil.node (by decide) t), fun c hstar hargs => ?_⟩
    rw [Convert.args, Convert.args, hargs]
    rfl
  · refine h.expr.commaSeparated.map _ fun _ ts es hes => ⟨(convertsTo_exprs hes).valued, fun c hstar hargs => ?_⟩
    rw [args_exprs hes, hargs]
    simp [hstar]

def CallTrees (inner : List Tree) (e : Expr Literal) : Prop :=
  ConvertsTo (do return (← Convert.call inner {}).expr) e.valuation inner

theorem passes_args {front : List Char} {ts : List Tree} {args : Option (Option (List (Expr Literal)))}
    (h : Maybe (Node .funcArgs ArgsTrees) front ts args) (name : String) (distinct : Bool) :
    Passes Convert.call { name, distinct }
      (Expr.mapConstantsList Literal.value ((args.getD (some [])).getD []))
      (fun es => { name, distinct, star := (args.getD (some [])).isNone, args := es }) ts := by
  cases args with
  | none =>
    obtain ⟨-, rfl⟩ := h
    exact .absent rfl
  | some args =>
    obtain ⟨t, inner, rfl, hgives, hconvert⟩ := h
    refine .node hgives (by decide) fun rest => ?_
    rw [Convert.call, hconvert _ rfl rfl]
    simp

theorem passes_window {front : List Char} {ts : List Tree} {window : Option (Window Literal)}
    (h : Maybe (Node .overClause WindowTrees) front ts window) (name : String) (distinct star : Bool)
    (args : List (Expr Constant)) :
    Passes Convert.call { name, distinct, star, args } (Window.mapConstants? Literal.value window)
      (fun w => { name, distinct, star, args, window := w }) ts := by
  refine .maybe (Window.mapConstants? Literal.value)
    (fun _ inner => do return some (← Convert.window inner ⟨[], []⟩)) h (by decide) (fun _ _ w hw => ?_)
    (fun t inner rest => ?_) rfl rfl
  · rw [Window.mapConstants?_some]
    simpa using hw.map some
  · rw [Convert.call]
    simp

theorem agrees_functionCall (h : inside.Agree whole n) :
    Agrees whole (n + 1) false (.rule .funcCall) (functionCall inside) (Node .funcCall CallTrees) := by
  refine Agrees.node ?_ rfl
  refine agrees_identifier.seq fun _ _ name hname => ?_
  obtain ⟨t, inner, rfl, hname⟩ := hname
  refine Agrees.opened ?_
  refine (agrees_word .DISTINCT).reads.seq fun _ ts₁ distinct hdistinct => ?_
  refine (agrees_callArgs h).optional.seq fun _ ts₂ args hargs => ?_
  refine (agrees_text ")").seq fun _ _ _ hclose => ?_
  obtain ⟨-, rfl⟩ := hclose
  refine (agrees_windowClause h).optional.map _ fun _ ts₃ window hwindow => ?_
  obtain ⟨hquiet, hstep⟩ : Quiet ts₁ ∧ ∀ rest,
      Convert.call (ts₁ ++ rest) { name } = Convert.call rest { name, distinct } := by
    cases distinct with
    | false =>
      obtain ⟨-, rfl⟩ := hdistinct
      exact ⟨.nil, fun _ => rfl⟩
    | true =>
      obtain ⟨_, t', rfl, -⟩ := hdistinct
      exact ⟨.word .DISTINCT t', fun rest => by rw [List.singleton_append, Convert.call]⟩
  have hcall := (passes_args hargs name distinct).andThen fun es =>
    (passes_window hwindow name distinct (args.getD (some [])).isNone es).last fun w => by
      rw [Convert.call]; rfl
  have hconvert : Convert.call ([.node .identifier t inner] ++ (ts₁ ++ (ts₂ ++ ts₃))) {} =
      Convert.call (ts₂ ++ ts₃) { name, distinct } := by
    rw [List.singleton_append, Convert.call, hname.identifier]
    exact hstep _
  have hvalue : (Expr.call name distinct (args.getD (some [])).isNone ((args.getD (some [])).getD [])
      window).valuation = do
        let es ← Expr.mapConstantsList Literal.value ((args.getD (some [])).getD [])
        let w ← Window.mapConstants? Literal.value window
        return .call name distinct (args.getD (some [])).isNone es w := by
    rw [Expr.valuation, Expr.mapConstants]
  rw [CallTrees, List.nil_append, hconvert, hvalue]
  refine ConvertsTo.quiet (ConvertsTo.quiet ?_ hquiet) (hname.quiet.node (by decide) t)
  have hexpr := hcall.map Convert.CallParts.expr
  simp only [bind_assoc, pure_bind] at hexpr
  exact hexpr

end Calls

section Sequences

theorem TokenTrees.of_operatorTree {ts : List Tree} {op : Infix} (h : OperatorTree ts op) :
    TokenTrees ts [.infixOp op] :=
  .quiet h.quiet (fun us => by rw [Token.mapConstants]) h.tokens

theorem TokenTrees.not (t : List Char) : TokenTrees [.node (.word .NOT) t []] [.not] :=
  .quiet (.word .NOT t) (fun us => by rw [Token.mapConstants]) fun rest => by
    rw [List.singleton_append, Convert.tokens]

theorem TokenTrees.of_nullTest {ts : List Tree} {negated : Bool} (h : NullTest ts negated) :
    TokenTrees ts [.nullTest negated] := by
  obtain ⟨t, rfl⟩ := h
  cases negated with
  | false =>
    exact .quiet (Quiet.nil.node (by decide) t) (fun us => by rw [Token.mapConstants]) fun rest => by
      change Convert.tokens (.node .isNull t [] :: rest) = _
      rw [Convert.tokens]
  | true =>
    exact .quiet (Quiet.nil.node (by decide) t) (fun us => by rw [Token.mapConstants]) fun rest => by
      change Convert.tokens (.node .isNotNull t [] :: rest) = _
      rw [Convert.tokens]

theorem agrees_subquery (h : inside.Agree whole n) :
    Agrees whole (n + 1) false (.rule .subquery) (parenthesized inside.select)
      (Node .subquery fun inner q =>
        ∀ t, ConvertsTo (Convert.subquery inner t) (q.mapConstants Literal.value) inner) := by
  refine Agrees.node ((agrees_parenthesized h.select).imp fun _ _ q hq => ?_) rfl
  obtain ⟨t, inner, rfl, hq⟩ := hq
  intro t'
  rw [Convert.subquery]
  exact hq.node (by decide) t

theorem agrees_primary (h : inside.Agree whole n) :
    Agrees whole (n + 1) false Peg.primary (primary inside) fun _ ts e => TokenTrees ts [.operand e] := by
  refine .choice ?call (.choice ?literal (.choice ?column (.choice ?subquery (.choice_last ?expr))))
  case call =>
    refine (agrees_functionCall h).imp fun _ _ e he => ?_
    obtain ⟨t, inner, rfl, he⟩ := he
    refine .operand (he.node (by decide) t) fun rest => ?_
    rw [List.singleton_append, Convert.tokens]
    simp
  case literal =>
    refine agrees_literal.map _ fun _ _ l hl => ?_
    obtain ⟨t, inner, rfl, hl⟩ := hl
    refine .operand ((hl.node (by decide) t).map Expr.constant) fun rest => ?_
    rw [List.singleton_append, Convert.tokens]
    simp
  case column =>
    refine agrees_columnRef.map _ fun _ _ c hc => ?_
    obtain ⟨t, inner, rfl, hc, hquiet⟩ := hc
    refine .operand (.ok _ (hquiet.node (by decide) t)) fun rest => ?_
    rw [List.singleton_append, Convert.tokens, hc]
    rfl
  case subquery =>
    refine (agrees_subquery h).map _ fun _ _ q hq => ?_
    obtain ⟨t, inner, rfl, hq⟩ := hq
    refine .operand (((hq t).node (by decide) t).map Expr.subquery) fun rest => ?_
    rw [List.singleton_append, Convert.tokens]
    simp
  case expr =>
    refine (agrees_parenthesized h.expr).imp fun _ _ e he => ?_
    obtain ⟨t, inner, rfl, he⟩ := he
    refine .operand (he.node t) fun rest => ?_
    rw [List.singleton_append, Convert.tokens]
    rfl

def Pieces (Kind : List (Token Literal) → Prop) (ts : List Tree) (us : List (Token Literal)) : Prop :=
  TokenTrees ts us ∧ Kind us

theorem agrees_term (h : inside.Agree whole n) :
    Agrees whole (n + 1) false Peg.term (term inside) fun _ ts us => Pieces Token.Term ts us := by
  refine ((agrees_word .NOT).spaced (consumes_word .NOT)).seq fun _ ts nots hnots => ?_
  refine (agrees_primary h).seq fun _ ts₁ e he => ?_
  refine agrees_isNullSuffix.optional.map _ fun _ ts₂ test htest => ?_
  obtain ⟨htested, htests⟩ : TokenTrees ts₂ (test.map Token.nullTest).toList ∧
      Token.Term (.operand e :: (test.map Token.nullTest).toList) := by
    cases test with
    | none =>
      obtain ⟨-, rfl⟩ := htest
      exact ⟨.nil, .tested (.plain e)⟩
    | some negated => exact ⟨.of_nullTest htest, .tested (.test e negated)⟩
  have hoperand := he.append htested
  clear he htested
  induction hnots with
  | nil => exact ⟨hoperand, htests⟩
  | cons hnot _ ih =>
    obtain ⟨t, rfl, -⟩ := hnot
    refine ⟨?_, .not ih.2⟩
    rw [List.append_assoc]
    exact (TokenTrees.not t).append ih.1

def Continues (us : List (Token Literal)) : Prop := ∃ op us', us = .infixOp op :: us' ∧ Token.Term us'

theorem agrees_operatorTerm (h : inside.Agree whole n) :
    Agrees whole (n + 1) false (.seq Peg.infixOp Peg.term)
      (do
        let op ← infixOp
        skip
        return .infixOp op :: (← term inside))
      fun _ ts us => Pieces Continues ts us := by
  refine agrees_infixOp.seq fun _ ts op hop => ?_
  refine (agrees_term h).map _ fun _ ts' us hus => ?_
  exact ⟨(TokenTrees.of_operatorTree hop).append hus.1, op, us, rfl, hus.2⟩

theorem each_continues {ts : List Tree} {uss : List (List (Token Literal))}
    (h : Each (Pieces Continues) ts uss) :
    TokenTrees ts uss.flatten ∧ ∀ us, Token.Term us → Token.Sequence (us ++ uss.flatten) := by
  induction h with
  | nil => exact ⟨.nil, fun us hus => by simpa using .one hus⟩
  | cons hx _ ih =>
    obtain ⟨htrees, op, us', rfl, hterm⟩ := hx
    exact ⟨htrees.append ih.1, fun us hus => .more op hus (ih.2 us' hterm)⟩

theorem agrees_tokens (h : inside.Agree whole n) :
    Agrees whole (n + 1) false (body .expr) (tokens inside) fun _ ts us => Pieces Token.Sequence ts us := by
  refine (agrees_term h).seq fun _ ts us hus => ?_
  refine ((agrees_operatorTerm h).spaced (.seq_left consumes_infixOp)).map _ fun _ ts' uss huss => ?_
  obtain ⟨htrees, hsequence⟩ := each_continues huss
  exact ⟨hus.1.append htrees, hsequence us hus.2⟩

theorem agrees_expr (h : inside.Agree whole n) :
    Agrees whole (n + 1) false (.rule .expr) (expr inside) (Node .expr ExprTrees) :=
  Agrees.node ((agrees_tokens h).lifted fun _ _ _ hus => hus.1.expr hus.2) rfl

end Sequences

end QuerySearch.Sql
