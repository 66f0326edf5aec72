import QuerySearch.Proofs.Sql.Clauses
import QuerySearch.Proofs.Sql.Definitions
import QuerySearch.Sql.Reading

/-! Whole texts.  A text is malformed just if the grammar does not accept it, and what is read from any
other text is what its tree converts to. -/

namespace QuerySearch.Sql

open QuerySearch.Sql.Parser QuerySearch.Sql.Peg

variable {α : Type} {whole : List Char} {n : Nat} {r b : Rule} {S : List Tree → α → Prop}

section Levels

theorem levels_agree (whole : List Char) (n : Nat) : (levels n).Agree whole n := by
  induction n with
  | zero => exact ⟨nofun, nofun, nofun⟩
  | succ n ih => exact ⟨agrees_expr ih, agrees_select ih, agrees_tableRef ih⟩

/-- There are levels enough for all the parentheses that a text opens. -/
theorem agrees_withLevels {e : Peg} {p : Inside → Parser α} {R : Reading α}
    (h : ∀ n, Agrees whole (n + 1) false e (p (levels n)) R) : Agrees whole n false e (withLevels p) R := by
  intro cs _
  cases h (cs.count '(') cs (Nat.lt_succ_self _) with
  | took front hp hfront hrun h => exact .took front hp hfront hrun h
  | failed hp hrun => exact .failed hp hrun

end Levels

section Ends

def Finishes (e : Peg) : Prop :=
  ∀ ⦃whole atomic cs ts rest⦄, Runs whole atomic e cs (some (ts, rest)) → rest = []

variable {e e' : Peg}

theorem Finishes.seq (h : Finishes e') : Finishes (.seq e e') := by
  intro whole atomic cs ts rest hrun
  generalize ho : some (ts, rest) = o at hrun
  cases hrun with
  | seq_some _ hb =>
    obtain ⟨x, rfl, heq⟩ := Option.map_eq_some_iff.1 ho.symm
    cases heq
    exact h hb
  | seq_none => cases ho

theorem Finishes.rule (h : Finishes (body r)) : Finishes (.rule r) := by
  intro whole atomic cs ts rest hrun
  cases hrun with
  | rule_some h' => exact h h'

theorem finishes_endOfInput : Finishes (.rule .endOfInput) := by
  refine .rule fun whole atomic cs ts rest hrun => ?_
  generalize ho : some (ts, rest) = o at hrun
  cases hrun with
  | absent hchar =>
    cases hchar
    cases cs with
    | nil =>
      cases ho
      rfl
    | cons => cases ho

theorem agrees_endOfInput :
    Agrees whole n false (.rule .endOfInput) ending (Node .endOfInput fun inner _ => inner = []) := by
  refine Agrees.node (fun cs _ => ?_) rfl
  cases cs with
  | nil => exact .took [] rfl rfl (.absent (.one _ _)) rfl
  | cons => exact .failed rfl (.absent (.one _ _))

end Ends

section Texts

inductive Settled (r : Rule) (S : List Tree → α → Prop) (text : String) : Option α → Prop
  | read {t inner x} (h : Parses r text [.node r t inner]) (hx : S inner x) : Settled r S text (some x)
  | malformed (h : ¬ Accepts r text) : Settled r S text none

theorem settled {e : Peg} {p : Parser α} {text : String} (hbody : body r = .seq .start e)
    (hatomic : r.isAtomic = false) (hfinish : Finishes e)
    (h : ∀ n, Agrees text.toList n false e p fun _ ts x => S ts x) :
    Settled r S text (Parser.whole (do skip; p) text) := by
  have hstart : Runs text.toList false .start text.toList (some ([], text.toList)) := by
    have hrun := @Runs.start text.toList false text.toList
    rwa [if_pos rfl] at hrun
  obtain ⟨gap, hgap⟩ := afterBlanks_suffix text.toList
  cases h _ (afterBlanks text.toList) (Nat.lt_succ_self _) with
  | failed hp hrun =>
    have hread : Parser.whole (do skip; p) text = none := by
      rw [Parser.whole, bind_of_none]
      · rfl
      · exact hp
    rw [hread]
    refine .malformed (not_accepts (.rule_none ?_))
    rw [hbody, hatomic]
    exact .seq_some hstart hrun
  | @took x rest ts front hp hfront hrun hx =>
    obtain rfl := hfinish hrun
    have hskip : (do skip; p : Parser α) text.toList = some (x, []) := hp
    have hread : Parser.whole (do skip; p) text = some x := by
      rw [Parser.whole, bind_of_some hskip]
      rfl
    rw [hread]
    refine .read ⟨[], .rule_some ?_ (List.append_nil _)⟩ hx
    rw [hbody, hatomic]
    exact .seq_some hstart hrun

def Ended (b : Rule) (S : List Tree → α → Prop) (inner : List Tree) (x : α) : Prop :=
  ∃ t t' us, inner = [.node b t us, .node .endOfInput t' []] ∧ S us x

theorem settled_statement {p : Parser α} {text : String}
    (hbody : body r = .seq .start (.seq (.rule b) (.seq (.opt (.text ";")) (.rule .endOfInput))))
    (hatomic : r.isAtomic = false) (h : ∀ n, Agrees text.toList n false (.rule b) p (Node b S)) :
    Settled r (Ended b S) text ((statement p).whole text) := by
  refine settled hbody hatomic finishes_endOfInput.seq.seq fun n => ?_
  refine (h n).seq fun _ _ x hx => ?_
  obtain ⟨t, us, rfl, hx⟩ := hx
  refine (agrees_text ";").optional.seq fun _ ts semicolon hsemicolon => ?_
  obtain rfl : ts = [] := by
    cases semicolon with
    | none => exact hsemicolon.2
    | some => exact hsemicolon.2
  refine agrees_endOfInput.map _ fun _ _ _ hend => ?_
  obtain ⟨t', _, rfl, rfl⟩ := hend
  exact ⟨t, t', us, rfl, hx⟩

theorem settled_select (text : String) :
    Settled .selectStmt (Ended .selectBody BodyTrees) text (selectStatement.whole text) :=
  settled_statement rfl rfl fun _ => agrees_withLevels fun n => agrees_select (levels_agree _ n)

theorem settled_create (text : String) :
    Settled .createStmt (Ended .createBody DefTrees) text (createStatement.whole text) :=
  settled_statement rfl rfl fun _ => agrees_createTable

def SchemaTrees (inner : List Tree) (ds : List TableDef) : Prop :=
  ∃ t ts, inner = ts ++ [.node .endOfInput t []] ∧ Each (Node .createBody DefTrees []) ts ds

theorem settled_schema (text : String) : Settled .schema SchemaTrees text (tableDefs.whole text) := by
  refine settled rfl rfl finishes_endOfInput.seq.seq fun n => ?_
  have hdef : Agrees text.toList n false (.seq (.rule .createBody) (.text ";"))
      (do
        let d ← createTable
        skip
        symbol ";"
        return d) (fun _ ts d => Node .createBody DefTrees [] ts d) := by
    refine agrees_createTable.seq fun _ _ d hd => ?_
    refine (agrees_text ";").map _ fun _ _ _ hsemicolon => ?_
    obtain ⟨-, rfl⟩ := hsemicolon
    rwa [List.append_nil]
  have hc : Consumes (.seq (.rule .createBody) (.text ";")) := .seq_right (.text (by decide))
  refine (hdef.spaced hc).seq fun _ ts ds hds => ?_
  refine agrees_createTable.optional.seq fun _ us last hlast => ?_
  refine agrees_endOfInput.map _ fun _ _ _ hend => ?_
  obtain ⟨t, _, rfl, rfl⟩ := hend
  refine ⟨t, ts ++ us, by rw [List.append_assoc], hds.append ?_⟩
  cases last with
  | none =>
    obtain ⟨-, rfl⟩ := hlast
    exact .nil
  | some d =>
    rw [← List.append_nil us]
    exact .cons hlast .nil

end Texts

section Reading

variable {text : String} {o : Option α}

theorem Settled.none_iff (h : Settled r S text o) : o = none ↔ ¬ Accepts r text := by
  cases h with
  | read h => exact ⟨nofun, fun hno => absurd ⟨_, h⟩ hno⟩
  | malformed h => exact ⟨fun _ => h, fun _ => rfl⟩

theorem Settled.of_parses {ts : List Tree} (h : Settled r S text o) (hts : Parses r text ts) :
    ∃ t inner x, ts = [.node r t inner] ∧ o = some x ∧ S inner x := by
  cases h with
  | read h hx => exact ⟨_, _, _, hts.unique h, rfl, hx⟩
  | malformed h => exact absurd ⟨ts, hts⟩ h

theorem valued_ne_malformed {q : Except InvalidLiteral α} : valued q ≠ .error .malformed := by
  cases q with
  | ok => exact nofun
  | error => exact nofun

theorem Select.read_malformed_iff : Select.read text = .error .malformed ↔ ¬ Accepts .selectStmt text := by
  rw [← (settled_select text).none_iff]
  unfold Select.read
  cases selectStatement.whole text with
  | none => exact ⟨fun _ => rfl, fun _ => rfl⟩
  | some q => exact ⟨fun h => absurd h valued_ne_malformed, nofun⟩

theorem TableDef.read_malformed_iff : TableDef.read text = .error .malformed ↔ ¬ Accepts .createStmt text := by
  rw [← (settled_create text).none_iff]
  unfold TableDef.read
  cases createStatement.whole text with
  | none => exact ⟨fun _ => rfl, fun _ => rfl⟩
  | some => exact ⟨nofun, nofun⟩

theorem TableDef.readAll_malformed_iff : TableDef.readAll text = .error .malformed ↔ ¬ Accepts .schema text := by
  rw [← (settled_schema text).none_iff]
  unfold TableDef.readAll
  cases tableDefs.whole text with
  | none => exact ⟨fun _ => rfl, fun _ => rfl⟩
  | some => exact ⟨nofun, nofun⟩

theorem convertsTo_select {ts : List Tree} (h : Parses .selectStmt text ts) :
    ∃ q, selectStatement.whole text = some q ∧ ConvertsTo (Convert.select ts) (q.mapConstants Literal.value) ts := by
  obtain ⟨t, _, q, rfl, hread, t', t'', us, rfl, hq⟩ := (settled_select text).of_parses h
  refine ⟨q, hread, ?_⟩
  have hconvert : Convert.select [.node .selectStmt t [.node .selectBody t' us, .node .endOfInput t'' []]] =
      Convert.body us Convert.emptySelect := rfl
  rw [hconvert]
  refine ConvertsTo.node ?_ (by decide) t
  exact (hq.node (k := .selectBody) (by decide) t').append_quiet (Quiet.nil.node (by decide) t'')

theorem create_eq {ts : List Tree} (h : Parses .createStmt text ts) :
    ∃ d, createStatement.whole text = some d ∧ Convert.create ts = .ok d := by
  obtain ⟨t, _, d, rfl, hread, t', t'', us, rfl, hd⟩ := (settled_create text).of_parses h
  exact ⟨d, hread, hd⟩

theorem definitions_eq {ts : List Tree} {ds : List TableDef} (h : Each (Node .createBody DefTrees []) ts ds) :
    (ts.filter (·.rule = .createBody)).mapM (fun b => Convert.createBody b.inner ⟨"", []⟩) = .ok ds := by
  induction h with
  | nil => rfl
  | cons hd _ ih =>
    obtain ⟨t, inner, rfl, hd⟩ := hd
    rw [DefTrees] at hd
    rw [List.singleton_append, List.filter_cons_of_pos (by rfl), List.mapM_cons, ih, Tree.inner, hd]
    rfl

theorem schema_eq {ts : List Tree} (h : Parses .schema text ts) :
    ∃ ds, tableDefs.whole text = some ds ∧ Convert.schema ts = .ok ds := by
  obtain ⟨t, _, ds, rfl, hread, t', us, rfl, hds⟩ := (settled_schema text).of_parses h
  refine ⟨ds, hread, ?_⟩
  rw [Convert.schema, Tree.inner, List.filter_append, List.filter_cons_of_neg Bool.false_ne_true, List.filter_nil,
    List.append_nil, definitions_eq hds]

theorem matched_of_some {p : Parser α} {x : α} {front rest : List Char} (hp : p text.toList = some (x, rest))
    (hfront : front ++ rest = text.toList) : matched p text = some (String.ofList front, x) := by
  rw [matched, hp, Option.map_some]
  simp only [← hfront, List.length_append, Nat.add_sub_cancel, List.take_left]

theorem matched_expr (text : String) :
    ((withLevels expr).matched text = none ∧ ¬ Accepts .expr text) ∨
    ∃ front inner e, Parses .expr text [.node .expr front inner] ∧ ExprTrees inner e ∧
      (withLevels expr).matched text = some (String.ofList front, e) := by
  have hagrees (n : Nat) : Agrees text.toList n false (.rule .expr) (withLevels expr) (Node .expr ExprTrees) :=
    agrees_withLevels fun n => agrees_expr (levels_agree _ n)
  cases hagrees _ text.toList (Nat.lt_succ_self _) with
  | failed hp hrun => exact .inl ⟨by rw [matched, hp, Option.map_none], not_accepts hrun⟩
  | @took e rest _ _ hp _ hrun hnode =>
    obtain ⟨front, inner, rfl, he⟩ := hnode
    exact .inr ⟨front, inner, e, ⟨rest, hrun⟩, he, matched_of_some hp hrun.text_append⟩

theorem parses_of_readFront {x : String × Expr Constant} (h : Expr.readFront text = .ok x) :
    ∃ ts, Parses .expr text ts ∧ AllInRange ts := by
  unfold Expr.readFront at h
  obtain ⟨hmatched, -⟩ | ⟨front, inner, e, hts, he, hmatched⟩ := matched_expr text
  · rw [hmatched] at h
    cases h
  · refine ⟨_, hts, ?_⟩
    cases (he.node front).checks with
    | ok _ hrange => exact hrange
    | error hvalue =>
      simp only [hmatched, hvalue] at h
      cases h

end Reading

section Results

/-- Every expression of a text, and of what stands in parentheses in it, is the tree of its strata. -/
theorem exprs_disjoined {text : String} {ts : List Tree} (h : Parses .expr text ts) (hrange : AllInRange ts) :
    (∃ front inner e, ts = [.node .expr front inner] ∧ Convert.expr inner = .ok e ∧
      Expr.readFront text = .ok (String.ofList front, e)) ∧
    ∀ inner ∈ Tree.sequencesIn ts, ∃ us e, Convert.tokens inner = .ok us ∧ Token.Disjoined us e ∧
      Convert.expr inner = .ok e ∧ ∀ e', Token.Disjoined us e' → e' = e := by
  obtain ⟨-, hno⟩ | ⟨front, inner, e, hts, he, hmatched⟩ := matched_expr text
  · exact absurd ⟨ts, h⟩ hno
  obtain rfl := h.unique hts
  have hgives := he.node front
  constructor
  · cases hgives.checks with
    | error _ hl hvalue => exact absurd (hrange _ hl) (Literal.not_inRange hvalue)
    | @ok e' hvalue =>
      refine ⟨front, inner, e', rfl, by rw [hgives.converts, hvalue, reported_ok], ?_⟩
      unfold Expr.readFront
      rw [hmatched]
      simp only [hvalue]
      rfl
  · intro us hus
    obtain ⟨tokens, e', htokens, hstrata, hconvert⟩ := hgives.strata us hus (hrange.sequence hus)
    exact ⟨tokens, e', htokens, hstrata, hconvert, fun _ h' => h'.unique hstrata⟩

theorem exprs_disjoined_not : ∃ front inner,
    Parses .expr "a = not b = 1" [.node .expr front inner] ∧ AllInRange [.node .expr front inner] ∧
      Convert.expr inner = .ok (.compare (.column ⟨none, "a"⟩) .eq
        (.not (.compare (.column ⟨none, "b"⟩) .eq (.constant (.int 1))))) := by
  have hread : Expr.readFront "a = not b = 1" = .ok ("a = not b = 1", .compare (.column ⟨none, "a"⟩) .eq
      (.not (.compare (.column ⟨none, "b"⟩) .eq (.constant (.int 1))))) := by
    cbv
  obtain ⟨ts, hts, hrange⟩ := parses_of_readFront hread
  obtain ⟨⟨front, inner, e, rfl, he, hread'⟩, -⟩ := exprs_disjoined hts hrange
  obtain ⟨-, rfl⟩ := Prod.mk.inj (Except.ok.inj (hread.symm.trans hread'))
  exact ⟨front, inner, hts, hrange, he⟩

/-- Nothing but the grammar makes a text malformed, and nothing but a number makes a text that it accepts
fail to be read: the conversion of its tree meets no child that it does not expect. -/
theorem reads_just_accepted (text : String) :
    (Select.read text = .error .malformed ↔ ¬ Accepts .selectStmt text) ∧
    (TableDef.read text = .error .malformed ↔ ¬ Accepts .createStmt text) ∧
    (TableDef.readAll text = .error .malformed ↔ ¬ Accepts .schema text) ∧
    (∀ ts, Parses .selectStmt text ts →
      (AllInRange ts → ∃ q, Select.read text = .ok q ∧ Convert.select ts = .ok q) ∧
      (¬ AllInRange ts → ∃ e, Select.read text = .error (.invalidLiteral e) ∧
        Convert.select ts = .error (.invalidLiteral e))) ∧
    (∀ ts, Parses .createStmt text ts → ∃ d, TableDef.read text = .ok d ∧ Convert.create ts = .ok d) ∧
    (∀ ts, Parses .schema text ts → ∃ ds, TableDef.readAll text = .ok ds ∧ Convert.schema ts = .ok ds) := by
  refine ⟨Select.read_malformed_iff, TableDef.read_malformed_iff, TableDef.readAll_malformed_iff,
    fun ts hts => ?select, fun ts hts => ?create, fun ts hts => ?schema⟩
  case select =>
    obtain ⟨q, hq, hgives⟩ := convertsTo_select hts
    unfold Select.read
    rw [hq, hgives.converts]
    cases hgives.checks with
    | ok hvalue hrange =>
      simp only [hvalue]
      exact ⟨fun _ => ⟨_, rfl, rfl⟩, fun hno => absurd hrange hno⟩
    | error hvalue hl hl' =>
      simp only [hvalue]
      exact ⟨fun hrange => absurd (hrange _ hl) (Literal.not_inRange hl'), fun _ => ⟨_, rfl, rfl⟩⟩
  case create =>
    obtain ⟨d, hd, hconvert⟩ := create_eq hts
    refine ⟨d, ?_, hconvert⟩
    unfold TableDef.read
    rw [hd]
  case schema =>
    obtain ⟨ds, hds, hconvert⟩ := schema_eq hts
    refine ⟨ds, ?_, hconvert⟩
    unfold TableDef.readAll
    rw [hds]

def isMalformed : Except ReadError α → Bool
  | .error .malformed => true
  | _ => false

theorem isMalformed_iff {x : Except ReadError α} : isMalformed x = true ↔ x = .error .malformed := by
  cases x with
  | ok => exact ⟨nofun, nofun⟩
  | error e =>
    cases e with
    | malformed => exact ⟨fun _ => rfl, fun _ => rfl⟩
    | invalidLiteral => exact ⟨nofun, nofun⟩

theorem accepts_of_read {text : String} {x : Except ReadError α} (h : x = .error .malformed ↔ ¬ Accepts r text)
    (hx : isMalformed x = false) : Accepts r text :=
  Classical.not_not.1 fun hno => Bool.eq_false_iff.1 hx (isMalformed_iff.2 (h.2 hno))

theorem reads_just_accepted_numbers :
    (∃ ts q, Parses .selectStmt "select 1" ts ∧ AllInRange ts ∧ Select.read "select 1" = .ok q ∧
      Convert.select ts = .ok q) ∧
    (∃ ts e, Parses .selectStmt "select 9223372036854775808" ts ∧ ¬ AllInRange ts ∧
      Select.read "select 9223372036854775808" = .error (.invalidLiteral e) ∧
      Convert.select ts = .error (.invalidLiteral e)) ∧
    (∃ ts, Parses .createStmt "create table t (a int)" ts ∧
      Convert.create ts = .ok ⟨"t", [⟨"a", "int"⟩]⟩) ∧
    (∃ ts, Parses .schema "create table t (a int);" ts ∧
      Convert.schema ts = .ok [⟨"t", [⟨"a", "int"⟩]⟩]) ∧
    ¬ Accepts .selectStmt "select" := by
  refine ⟨?one, ?large, ?table, ?tables, ?word⟩
  case one =>
    obtain ⟨hread, -, -, hselect, -⟩ := reads_just_accepted "select 1"
    obtain ⟨ts, hts⟩ := accepts_of_read hread (by decide +kernel)
    by_cases hrange : AllInRange ts
    · obtain ⟨q, hq, hconvert⟩ := (hselect ts hts).1 hrange
      exact ⟨ts, q, hts, hrange, hq, hconvert⟩
    · obtain ⟨e, he, -⟩ := (hselect ts hts).2 hrange
      have hok : (Select.read "select 1").isOk = true := by decide +kernel
      rw [he] at hok
      cases hok
  case large =>
    obtain ⟨hread, -, -, hselect, -⟩ := reads_just_accepted "select 9223372036854775808"
    obtain ⟨ts, hts⟩ := accepts_of_read hread (by decide +kernel)
    by_cases hrange : AllInRange ts
    · obtain ⟨q, hq, -⟩ := (hselect ts hts).1 hrange
      have hno : (Select.read "select 9223372036854775808").isOk = false := by decide +kernel
      rw [hq] at hno
      cases hno
    · obtain ⟨e, he, hconvert⟩ := (hselect ts hts).2 hrange
      exact ⟨ts, e, hts, hrange, he, hconvert⟩
  case table =>
    obtain ⟨-, hread, -, -, hcreate, -⟩ := reads_just_accepted "create table t (a int)"
    obtain ⟨ts, hts⟩ := accepts_of_read hread (by decide +kernel)
    obtain ⟨d, hd, hconvert⟩ := hcreate ts hts
    have hok : (TableDef.read "create table t (a int)").toOption = some ⟨"t", [⟨"a", "int"⟩]⟩ := by
      decide +kernel
    rw [hd] at hok
    cases hok
    exact ⟨ts, hts, hconvert⟩
  case tables =>
    obtain ⟨-, -, hread, -, -, hschema⟩ := reads_just_accepted "create table t (a int);"
    obtain ⟨ts, hts⟩ := accepts_of_read hread (by decide +kernel)
    obtain ⟨ds, hds, hconvert⟩ := hschema ts hts
    have hok : (TableDef.readAll "create table t (a int);").toOption = some [⟨"t", [⟨"a", "int"⟩]⟩] := by
      decide +kernel
    rw [hds] at hok
    cases hok
    exact ⟨ts, hts, hconvert⟩
  case word =>
    have hread : isMalformed (Select.read "select") = true := by decide +kernel
    exact (reads_just_accepted "select").1.1 (isMalformed_iff.1 hread)

end Results

end QuerySearch.Sql
