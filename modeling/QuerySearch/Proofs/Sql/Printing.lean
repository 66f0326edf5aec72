import QuerySearch.Proofs.Sql.Legible
import QuerySearch.Proofs.Sql.Phrases

/-! Reading the parts of a statement from their texts, under the conditions that make them legible.  What is
read is a tree of literals with the part as its value. -/

namespace QuerySearch.Sql

open QuerySearch.Sql.Parser

section Expressions

variable {n : Nat} {e l r : Expr Constant}

def Expr.ReadBack (n : Nat) (e : Expr Constant) : Prop :=
  ∃ e', e'.mapConstants Literal.value = .ok e ∧
    (e.stratum = .operand → Operand (levels n) e.text.toList e') ∧
    ∃ ts, Chain (levels n) e.text.toList ts ∧ e.stratum.Holds ts e'

theorem Operand.readBack {e' : Expr Literal} (h : Operand (levels n) e.text.toList e')
    (hs : e.stratum = .operand) (hvalue : e'.mapConstants Literal.value = .ok e) : e.ReadBack n :=
  ⟨e', hvalue, fun _ => h, [.operand e'], h.chain, by rw [hs]; rfl⟩

theorem Expr.ReadBack.phrase (h : e.ReadBack n) : ∃ e', e'.mapConstants Literal.value = .ok e ∧
    Phrase Stops (expr (levels n)) e.text.toList e' := by
  obtain ⟨e', hvalue, -, ts, hchain, hholds⟩ := h
  have hdisjoined : Token.Disjoined ts e' := .one (.one hholds.negated)
  exact ⟨e', hvalue, hchain.phrase hdisjoined.resolve_eq⟩

theorem readBack_column {c : ColumnRef} (h : (Expr.column c).All legible) : (Expr.column c).ReadBack n := by
  obtain ⟨qualifier, name⟩ := c
  rw [Expr.All] at h
  have hname : NameText name.toList name := h.2.nameText
  cases qualifier with
  | none => exact (hname.column : Operand (levels n) _ _).readBack rfl rfl
  | some q =>
    have hqualifier : NameText q.toList q := (h.1 q rfl).nameText
    have htext : (Expr.column ⟨some q, name⟩).text.toList = q.toList ++ '.' :: name.toList := by
      simp [Expr.text, ColumnRef.text]
    have hoperand : Operand (levels n) _ _ := hqualifier.qualified hname
    rw [← htext] at hoperand
    exact hoperand.readBack rfl rfl

theorem readBack_constant {c : Constant} (h : c.Legible) (hfinite : c.Finite) :
    (Expr.constant c).ReadBack n := by
  obtain ⟨l, hl, hvalue⟩ := h.literalText hfinite
  refine (hl.operand : Operand (levels n) _ _).readBack rfl ?_
  rw [Expr.mapConstants, hvalue]
  rfl

theorem readBack_compare {op : Comparator} (hl : l.ReadBack n) (hr : r.ReadBack n)
    (h : legible.comparison l r) : (Expr.compare l op r).ReadBack n := by
  obtain ⟨l', hvalue, -, ts, hchain, hholds⟩ := hl
  obtain ⟨r', hvalue', -, us, hchain', hholds'⟩ := hr
  have htext : (Expr.compare l op r).text.toList =
      l.text.toList ++ ' ' :: ((Infix.compare op).text.toList ++ ' ' :: r.text.toList) := by
    simp [Expr.text, Infix.text]
  refine ⟨.compare l' op r', ?_, ?_, ts ++ .infixOp (.compare op) :: us, ?_, ?_⟩
  · rw [Expr.mapConstants, hvalue, hvalue']
    rfl
  · rw [Expr.stratum]
    split <;> exact fun hs => Stratum.noConfusion hs
  · rw [htext]
    exact hchain.append (.compare op) hchain'
  · exact hholds.compare h.1 hholds' h.2 op

theorem readBack_isNull (negated : Bool) (he : e.ReadBack n) (h : e.stratum = .operand) :
    (Expr.isNull e negated).ReadBack n := by
  obtain ⟨e', hvalue, hoperand, -⟩ := he
  have htext : (Expr.isNull e negated).text.toList = e.text.toList ++ ' ' :: nullTestLetters negated := by
    cases negated <;> simp [Expr.text, nullTestLetters]
  refine ⟨.isNull e' negated, ?_, fun hs => Stratum.noConfusion hs, [.operand e', .nullTest negated], ?_,
    .test e' negated⟩
  · rw [Expr.mapConstants, hvalue]
    rfl
  · rw [htext]
    exact (hoperand h).tested negated

theorem readBack_not (he : e.ReadBack n) : (Expr.not e).ReadBack (n + 1) := by
  obtain ⟨e', hvalue, hphrase⟩ := he.phrase
  have htext : (Expr.not e).text.toList = 'N' :: 'O' :: 'T' :: ' ' :: '(' :: (e.text.toList ++ [')']) := by
    simp [Expr.text]
  refine ⟨.not e', ?_, fun hs => Stratum.noConfusion hs, [.not, .operand e'], ?_, [.operand e'], e', rfl, rfl,
    .compared (.one (.plain e'))⟩
  · rw [Expr.mapConstants, hvalue]
    rfl
  · rw [htext]
    exact hphrase.parenthesized.negated

theorem readBack_logic {op : Connective} (hl : l.ReadBack n) (hr : r.ReadBack n) :
    (Expr.logic l op r).ReadBack (n + 1) := by
  obtain ⟨l', hvalue, -, ts, hchain, hholds⟩ := hl
  obtain ⟨r', hvalue', -, us, hchain', hholds'⟩ := hr
  have htext : (Expr.logic l op r).text.toList =
      '(' :: (l.text.toList ++ ' ' :: ((Infix.logic op).text.toList ++ ' ' :: r.text.toList) ++ [')']) := by
    simp [Expr.text, Infix.text]
  have hdisjoined : Token.Disjoined (ts ++ .infixOp (.logic op) :: us) (.logic l' op r') := by
    cases op with
    | and => exact .one (.more (.one hholds.negated) hholds'.negated)
    | or => exact .more (.one (.one hholds.negated)) (.one hholds'.negated)
  have hphrase := (hchain.append (.logic op) hchain').phrase hdisjoined.resolve_eq
  have hoperand := hphrase.parenthesized
  rw [← htext] at hoperand
  refine hoperand.readBack rfl ?_
  rw [Expr.mapConstants, hvalue, hvalue']
  rfl

theorem readBack_subquery {q : Select Constant} {q' : Select Literal}
    (h : QueryText (levels n) q.text.toList q') (hvalue : q'.mapConstants Literal.value = .ok q) :
    (Expr.subquery q).ReadBack (n + 1) := by
  have hoperand := h.operand
  rw [← toList_text_subquery] at hoperand
  refine hoperand.readBack rfl ?_
  rw [Expr.mapConstants, hvalue]
  rfl

end Expressions

section Lists

variable {β : Type} {n : Nat} {w : ClosingWord} {ws : List ClosingWord} {p : Parser β} {texts : List String}
  {xs : List β} {Behind : List Char → Prop}

def ReadEach (Behind : List Char → Prop) (p : Parser β) (texts : List String) (xs : List β) : Prop :=
  List.Forall₂ (fun t x => Phrase Behind p t.toList x) texts xs

theorem ReadEach.imp (h : ReadEach Behind p texts xs) {Behind' : List Char → Prop}
    (himp : ∀ cs, Behind' cs → Behind cs) : ReadEach Behind' p texts xs :=
  List.Forall₂.imp (fun _ _ hphrase => hphrase.imp himp) h

theorem ReadEach.follows (h : ReadEach Stops p texts xs) (ws : List ClosingWord) :
    ReadEach (Follows ws) p texts xs :=
  h.imp fun _ hrest => hrest.stops

theorem ReadEach.clause_of {q : Parser (List β)} {keyword : String} {u : List Char}
    (h : ReadEach (Follows ws) p texts xs) (hw : w ∉ ws)
    (hkeyword : keyword.toList = ' ' :: (w.letters ++ ' ' :: u))
    (hread : ∀ t, Phrase (Closes ws) (Parser.commaSeparated p) t xs → Phrase (Closes ws) q (u ++ t) xs) :
    ∃ read, read.getD [] = xs ∧
      ClauseText w ws (do Sql.keyword w.name; skip; q) (Sql.clause keyword texts).toList read := by
  cases texts with
  | nil =>
    cases h
    have htext : (Sql.clause keyword []).toList = [] := by simp [Sql.clause]
    rw [htext]
    exact ⟨none, rfl, .absent hw⟩
  | cons t texts =>
    have htext : (Sql.clause keyword (t :: texts)).toList =
        ' ' :: (w.letters ++ ' ' :: (u ++ (commaSeparated (t :: texts)).toList)) := by
      simp [Sql.clause, hkeyword]
    rw [htext]
    exact ⟨some xs, rfl, (hread _ (Phrase.commaSeparated h (by simp))).clause w⟩

theorem ReadEach.clause (h : ReadEach (Follows ws) p texts xs) (w : ClosingWord) (keyword : String)
    (hw : w ∉ ws) (hkeyword : keyword.toList = ' ' :: (w.letters ++ [' '])) :
    ∃ read, read.getD [] = xs ∧ ClauseText w ws (do Sql.keyword w.name; skip; Parser.commaSeparated p)
      (Sql.clause keyword texts).toList read :=
  h.clause_of hw hkeyword fun _ hphrase => hphrase

theorem ReadEach.clauseBy (h : ReadEach (Follows ws) p texts xs) (w : ClosingWord) (keyword : String)
    (hw : w ∉ ws) (hkeyword : keyword.toList = ' ' :: (w.letters ++ [' ', 'B', 'Y', ' '])) :
    ∃ read, read.getD [] = xs ∧ ClauseText w ws (Sql.clauseBy w.name (Parser.commaSeparated p))
      (Sql.clause keyword texts).toList read :=
  h.clause_of hw hkeyword fun _ hphrase => hphrase.by

end Lists

section Calls

variable {n : Nat} {e : Expr Constant} {es args : List (Expr Constant)} {ks : List (SortKey Constant)}
  {window : Option (Window Constant)} {name : String} {star : Bool}

def Expr.ReadBackAll (n : Nat) (es : List (Expr Constant)) : Prop :=
  ∃ es', Expr.mapConstantsList Literal.value es' = .ok es ∧
    ReadEach Stops (expr (levels n)) (Expr.texts es) es'

def SortKey.ReadBackAll (n : Nat) (ks : List (SortKey Constant)) : Prop :=
  ∃ ks', SortKey.mapConstants Literal.value ks' = .ok ks ∧
    ReadEach Stops (sortKey (Sql.expr (levels n))) (SortKey.texts ks) ks'

def Window.ReadBack (n : Nat) (window : Option (Window Constant)) : Prop :=
  ∃ window', Window.mapConstants? Literal.value window' = .ok window ∧
    WindowText (levels n) (Window.suffix window).toList window'

theorem Expr.ReadBackAll.cons (he : e.ReadBack n) (hes : Expr.ReadBackAll n es) :
    Expr.ReadBackAll n (e :: es) := by
  obtain ⟨e', hvalue, hphrase⟩ := he.phrase
  obtain ⟨es', hvalue', heach⟩ := hes
  refine ⟨e' :: es', ?_, .cons hphrase heach⟩
  rw [Expr.mapConstantsList, hvalue, hvalue']
  rfl

theorem SortKey.ReadBackAll.cons (descending : Bool) (he : e.ReadBack n) (hks : SortKey.ReadBackAll n ks) :
    SortKey.ReadBackAll n (⟨e, descending⟩ :: ks) := by
  obtain ⟨e', hvalue, hphrase⟩ := he.phrase
  obtain ⟨ks', hvalue', heach⟩ := hks
  refine ⟨⟨e', descending⟩ :: ks', ?_, ?_⟩
  · rw [SortKey.mapConstants, hvalue, hvalue']
    rfl
  · rw [SortKey.texts]
    refine .cons ?_ heach
    have htext : (e.text ++ if descending then " DESC" else " ASC").toList =
        e.text.toList ++ ' ' :: directionLetters descending := by
      cases descending <;> simp [directionLetters]
    rw [htext]
    exact hphrase.sortKey descending

theorem toList_suffix (partitionBy : List (Expr Constant)) (orderBy : List (SortKey Constant)) :
    (Window.suffix (some ⟨partitionBy, orderBy⟩)).toList = ' ' :: 'O' :: 'V' :: 'E' :: 'R' :: ' ' :: '(' ::
      (((clause " PARTITION BY " (Expr.texts partitionBy)).toList ++
        (clause " ORDER BY " (SortKey.texts orderBy)).toList).drop 1 ++ [')']) := by
  rw [Window.suffix]
  cases Expr.texts partitionBy <;> cases SortKey.texts orderBy <;> simp [clause]

theorem head_clause (keyword : String) (h : keyword.toList.head? = some ' ') (texts : List String)
    (u : List Char) (hu : u.head?.all (· == ' ')) :
    ((clause keyword texts).toList ++ u).head?.all (· == ' ') := by
  cases texts with
  | nil => simpa [clause] using hu
  | cons t texts => simp [clause, h]

theorem readBack_window {partitionBy : List (Expr Constant)} {orderBy : List (SortKey Constant)}
    (hes : Expr.ReadBackAll n partitionBy) (hks : SortKey.ReadBackAll n orderBy) :
    Window.ReadBack (n + 1) (some ⟨partitionBy, orderBy⟩) := by
  obtain ⟨es', hvalue, heach⟩ := hes
  obtain ⟨ks', hvalue', heach'⟩ := hks
  obtain ⟨partitions, rfl, hpartitions⟩ := (heach.follows [.order]).clauseBy .partition " PARTITION BY "
    (by decide) (by simp [ClosingWord.letters])
  obtain ⟨keys, rfl, hkeys⟩ := (heach'.follows []).clauseBy .order " ORDER BY " (by decide)
    (by simp [ClosingWord.letters])
  refine ⟨some ⟨partitions.getD [], keys.getD []⟩, ?_, ?_⟩
  · rw [Window.mapConstants?, hvalue, hvalue']
    rfl
  · rw [toList_suffix]
    have hlast := head_clause " ORDER BY " (by simp) (SortKey.texts orderBy) [] rfl
    rw [List.append_nil] at hlast
    exact windowText hpartitions hkeys (head_clause _ (by simp) _ _ hlast)

theorem readBack_arguments (hstar : star = true → args = []) (hargs : Expr.ReadBackAll n args) : ∃ given,
    Arguments (levels (n + 1)) ((if star then "*" else "") ++ commaSeparated (Expr.texts args)).toList given ∧
      (given.getD (some [])).isNone = star ∧
      Expr.mapConstantsList Literal.value ((given.getD (some [])).getD []) = .ok args := by
  obtain ⟨es', hvalue, heach⟩ := hargs
  cases star with
  | true =>
    cases hstar rfl
    refine ⟨some none, ?_, rfl, rfl⟩
    simpa [Expr.texts, commaSeparated] using Arguments.star (levels (n + 1))
  | false =>
    cases args with
    | nil =>
      refine ⟨none, ?_, rfl, rfl⟩
      simpa [Expr.texts, commaSeparated] using Arguments.empty (n + 1)
    | cons e args =>
      have hphrase := Phrase.commaSeparated (heach.follows []) (by simp [Expr.texts])
      refine ⟨some (some es'), ?_, rfl, hvalue⟩
      simpa using Arguments.list hphrase

theorem readBack_call (hname : BareName name) (isDistinct : Bool) (hstar : star = true → args = [])
    (hargs : Expr.ReadBackAll n args) (hwindow : Window.ReadBack (n + 1) window) :
    (Expr.call name isDistinct star args window).ReadBack (n + 1) := by
  obtain ⟨given, harguments, rfl, hvalue⟩ := readBack_arguments hstar hargs
  obtain ⟨window', hvalue', hwindowText⟩ := hwindow
  have htext : (Expr.call name isDistinct (given.getD (some [])).isNone args window).text.toList =
      name.toList ++ '(' :: (distinctWord isDistinct ++
        (((if (given.getD (some [])).isNone then "*" else "") ++ commaSeparated (Expr.texts args)).toList ++
          ')' :: (Window.suffix window).toList)) := by
    cases isDistinct <;> simp [Expr.text, distinctWord]
  have hoperand := hname.nameText.call isDistinct harguments hwindowText
  rw [← htext] at hoperand
  refine hoperand.readBack rfl ?_
  rw [Expr.mapConstants, hvalue, hvalue']
  rfl

end Calls

section Sources

variable {n : Nat} {name : String} {asName : Option String} {q : Select Constant}
  {left right t : TableRef Constant} {ts : List (TableRef Constant)} {on : Option (Expr Constant)}
  {w : ClosingWord} {ws : List ClosingWord}

def Expr.ReadBack? (n : Nat) (e : Option (Expr Constant)) : Prop :=
  ∃ e', Expr.mapConstants? Literal.value e' = .ok e ∧
    Option.Rel (fun e e' => Phrase Stops (expr (levels n)) e.text.toList e') e e'

def Select.ReadBack (n : Nat) (q : Select Constant) : Prop :=
  ∃ q', q'.mapConstants Literal.value = .ok q ∧ QueryText (levels n) q.text.toList q'

def TableRef.ReadBack (n : Nat) (t : TableRef Constant) : Prop :=
  ∃ t', t'.mapConstants Literal.value = .ok t ∧ Joined (levels n) t.text.toList t' ∧
    (t.isJoin = false → Single (levels n) t.text.toList t')

def TableRef.ReadBackAll (n : Nat) (ts : List (TableRef Constant)) : Prop :=
  ∃ ts', TableRef.mapConstantsList Literal.value ts' = .ok ts ∧
    ReadEach (Follows clauseWords) (tableRef (levels n)) (TableRef.texts ts) ts'

def SelectItem.ReadBackAll (n : Nat) (is : List (SelectItem Constant)) : Prop :=
  ∃ is', SelectItem.mapConstants Literal.value is' = .ok is ∧
    ReadEach (Follows (.source :: clauseWords)) (selectItem (levels n)) (SelectItem.texts is) is'

theorem readBack_some {e : Expr Constant} (he : e.ReadBack n) : Expr.ReadBack? n (some e) := by
  obtain ⟨e', hvalue, hphrase⟩ := he.phrase
  refine ⟨some e', ?_, .some hphrase⟩
  rw [Expr.mapConstants?, hvalue]
  rfl

theorem toList_aliased (s : String) (asName : Option String) :
    (aliased s asName).toList = s.toList ++ aliasLetters (asName.map String.toList) := by
  cases asName <;> simp [aliased, aliasLetters]

theorem nameTexts (h : ∀ a ∈ asName, BareName a) : Option.Rel NameText (asName.map String.toList) asName := by
  cases asName with
  | none => exact .none
  | some a => exact .some (h a rfl).nameText

theorem SelectItem.ReadBackAll.star {is : List (SelectItem Constant)} (his : SelectItem.ReadBackAll n is) :
    SelectItem.ReadBackAll n (.star :: is) := by
  obtain ⟨is', hvalue, heach⟩ := his
  have hread (rest : List Char) : selectItem (levels n) ("*".toList ++ rest) = some (.star, rest) := rfl
  have hphrase : Phrase (Follows (.source :: clauseWords)) (selectItem (levels n)) "*".toList .star :=
    ⟨⟨fun _ => rfl, fun _ _ => rfl, fun _ _ => rfl⟩, fun rest _ => .of_eq (hread rest)⟩
  refine ⟨.star :: is', ?_, .cons hphrase heach⟩
  rw [SelectItem.mapConstants, hvalue]
  rfl

theorem SelectItem.ReadBackAll.expr {e : Expr Constant} {is : List (SelectItem Constant)} (he : e.ReadBack n)
    (has : ∀ a ∈ asName, BareName a) (his : SelectItem.ReadBackAll n is) :
    SelectItem.ReadBackAll n (.expr e asName :: is) := by
  obtain ⟨e', hvalue, hphrase⟩ := he.phrase
  obtain ⟨is', hvalue', heach⟩ := his
  refine ⟨.expr e' asName :: is', ?_, ?_⟩
  · rw [SelectItem.mapConstants, hvalue, hvalue']
    rfl
  · rw [SelectItem.texts]
    refine .cons ?_ heach
    rw [toList_aliased]
    exact hphrase.item (nameTexts has) (by decide)

theorem readBack_table (hname : BareName name) (has : ∀ a ∈ asName, BareName a) :
    (TableRef.table name asName).ReadBack n := by
  have htext : (TableRef.table name asName : TableRef Constant).text.toList =
      name.toList ++ aliasLetters (asName.map String.toList) := by
    rw [TableRef.text, toList_aliased]
  have hsingle : Single (levels n) _ _ := hname.nameText.single (nameTexts has)
  rw [← htext] at hsingle
  exact ⟨.table name asName, rfl, hsingle.joined, fun _ => hsingle⟩

theorem readBack_query (hq : q.ReadBack n) (has : ∀ a ∈ asName, BareName a) :
    (TableRef.query q asName).ReadBack (n + 1) := by
  obtain ⟨q', hvalue, hquery⟩ := hq
  have htext : (TableRef.query q asName).text.toList =
      '(' :: (q.text.toList ++ ')' :: aliasLetters (asName.map String.toList)) := by
    rw [TableRef.text, toList_aliased]
    simp
  have hsingle := hquery.single (nameTexts has)
  rw [← htext] at hsingle
  refine ⟨.query q' asName, ?_, hsingle.joined, fun _ => hsingle⟩
  rw [TableRef.mapConstants, hvalue]
  rfl

def rightSide (t : TableRef Constant) : String := if t.isJoin then "(" ++ t.text ++ ")" else t.text

theorem readBack_rightSide (h : ∀ m, openings t.text ≤ m → t.ReadBack m) (hn : openings (rightSide t) ≤ n) :
    ∃ t', t'.mapConstants Literal.value = .ok t ∧ Single (levels n) (rightSide t).toList t' := by
  cases hjoin : t.isJoin with
  | false =>
    have htext : rightSide t = t.text := by simp [rightSide, hjoin]
    rw [htext] at hn ⊢
    obtain ⟨t', hvalue, -, hsingle⟩ := h n hn
    exact ⟨t', hvalue, hsingle hjoin⟩
  | true =>
    have htext : (rightSide t).toList = '(' :: (t.text.toList ++ [')']) := by simp [rightSide, hjoin]
    rw [htext]
    cases n with
    | zero => simp [openings, htext] at hn
    | succ n =>
      have hinner : openings t.text ≤ n := by
        simp [openings, htext] at hn ⊢
        omega
      obtain ⟨t', hvalue, hjoined, -⟩ := h n hinner
      exact ⟨t', hvalue, hjoined.parenthesized⟩

theorem readBack_on (hon : Expr.ReadBack? n on) : ∃ on', Expr.mapConstants? Literal.value on' = .ok on ∧
    OnText (levels n) (Expr.clause " ON " on).toList on' := by
  obtain ⟨on', hvalue, hphrase⟩ := hon
  refine ⟨on', hvalue, ?_⟩
  cases hphrase with
  | none => simpa [Expr.clause] using OnText.absent (levels n)
  | some hphrase => simpa [Expr.clause] using hphrase.onText

theorem readBack_join (kind : JoinKind) (hleft : left.ReadBack n)
    (hright : ∃ t', t'.mapConstants Literal.value = .ok right ∧ Single (levels n) (rightSide right).toList t')
    (hon : Expr.ReadBack? n on) : (TableRef.join left right kind on).ReadBack n := by
  obtain ⟨left', hvalue, hjoined, -⟩ := hleft
  obtain ⟨right', hvalue', hsingle⟩ := hright
  obtain ⟨on', hvalue'', hontext⟩ := readBack_on hon
  have htext : (TableRef.join left right kind on).text.toList = left.text.toList ++ ' ' ::
      (joinLetters kind ++ ' ' :: ((rightSide right).toList ++ (Expr.clause " ON " on).toList)) := by
    simp [TableRef.text, rightSide, ← toList_joinKind]
  refine ⟨.join left' right' kind on', ?_, ?_, fun h => Bool.noConfusion h⟩
  · rw [TableRef.mapConstants, hvalue, hvalue', hvalue'']
    rfl
  · rw [htext]
    exact hjoined.append kind hsingle hontext

theorem TableRef.ReadBackAll.cons (ht : t.ReadBack n) (hts : TableRef.ReadBackAll n ts) :
    TableRef.ReadBackAll n (t :: ts) := by
  obtain ⟨t', hvalue, hjoined, -⟩ := ht
  obtain ⟨ts', hvalue', heach⟩ := hts
  refine ⟨t' :: ts', ?_, .cons hjoined.phrase heach⟩
  rw [TableRef.mapConstantsList, hvalue, hvalue']
  rfl

theorem readBack_condition (w : ClosingWord) (ws : List ClosingWord) (keyword : String)
    (he : Expr.ReadBack? n on) (hw : w ∉ ws) (hkeyword : keyword.toList = ' ' :: (w.letters ++ [' '])) :
    ∃ e', Expr.mapConstants? Literal.value e' = .ok on ∧
      ClauseText w ws (do Sql.keyword w.name; skip; expr (levels n)) (Expr.clause keyword on).toList e' := by
  obtain ⟨e', hvalue, hphrase⟩ := he
  refine ⟨e', hvalue, ?_⟩
  cases hphrase with
  | none =>
    have htext : (Expr.clause keyword none).toList = [] := by simp [Expr.clause]
    rw [htext]
    exact .absent hw
  | @some e e' hphrase =>
    have htext : (Expr.clause keyword (some e)).toList = ' ' :: (w.letters ++ ' ' :: e.text.toList) := by
      simp [Expr.clause, hkeyword]
    rw [htext]
    exact (hphrase.imp fun _ hrest => hrest.stops).clause w

end Sources

section Statements

variable {n : Nat}

variable (isDistinct : Bool) {items : List (SelectItem Constant)} {sources : List (TableRef Constant)}
  {filter having : Option (Expr Constant)} {groupBy : List (Expr Constant)} {orderBy : List (SortKey Constant)}

theorem toList_select : (Select.text ⟨isDistinct, items, sources, filter, groupBy, having, orderBy⟩).toList =
      'S' :: 'E' :: 'L' :: 'E' :: 'C' :: 'T' :: ' ' :: (distinctWord isDistinct ++
        ((commaSeparated (SelectItem.texts items)).toList ++
          ((clause " FROM " (TableRef.texts sources)).toList ++ ((Expr.clause " WHERE " filter).toList ++
            ((clause " GROUP BY " (Expr.texts groupBy)).toList ++ ((Expr.clause " HAVING " having).toList ++
              (clause " ORDER BY " (SortKey.texts orderBy)).toList)))))) := by
  cases isDistinct <;> simp [Select.text, distinctWord]

theorem readBack_select (hne : items ≠ []) (hitems : SelectItem.ReadBackAll n items)
    (hsources : TableRef.ReadBackAll n sources) (hfilter : Expr.ReadBack? n filter)
    (hgroups : Expr.ReadBackAll n groupBy) (hhaving : Expr.ReadBack? n having)
    (hkeys : SortKey.ReadBackAll n orderBy) :
    Select.ReadBack n ⟨isDistinct, items, sources, filter, groupBy, having, orderBy⟩ := by
  obtain ⟨items', hvalueItems, heachItem⟩ := hitems
  obtain ⟨sources', hvalueSources, heachSource⟩ := hsources
  obtain ⟨groups', hvalueGroups, heachGroup⟩ := hgroups
  obtain ⟨keys', hvalueKeys, heachKey⟩ := hkeys
  have htexts : SelectItem.texts items ≠ [] := by
    cases items with
    | nil => exact absurd rfl hne
    | cons i is => cases i <;> simp [SelectItem.texts]
  obtain ⟨sourcesRead, rfl, hreadSources⟩ := heachSource.clause .source " FROM " (by decide)
    (by simp [ClosingWord.letters])
  obtain ⟨filter', hvalueFilter, hreadFilter⟩ := readBack_condition .filter [.group, .having, .order] " WHERE "
    hfilter (by decide) (by simp [ClosingWord.letters])
  obtain ⟨groupsRead, rfl, hreadGroups⟩ := (heachGroup.follows [.having, .order]).clauseBy .group " GROUP BY "
    (by decide) (by simp [ClosingWord.letters])
  obtain ⟨having', hvalueHaving, hreadHaving⟩ := readBack_condition .having [.order] " HAVING " hhaving
    (by decide) (by simp [ClosingWord.letters])
  obtain ⟨keysRead, rfl, hreadKeys⟩ := (heachKey.follows []).clauseBy .order " ORDER BY " (by decide)
    (by simp [ClosingWord.letters])
  refine ⟨⟨isDistinct, items', sourcesRead.getD [], filter', groupsRead.getD [], having', keysRead.getD []⟩,
    ?_, ?_⟩
  · rw [Select.mapConstants, hvalueItems, hvalueSources, hvalueFilter, hvalueGroups, hvalueHaving, hvalueKeys]
    rfl
  · rw [toList_select]
    exact queryText isDistinct (.commaSeparated heachItem htexts) hreadSources hreadFilter hreadGroups
      hreadHaving hreadKeys

end Statements

section Levels

variable {n k : Nat} {s : String}

theorem exists_level (hs : k < openings s) (hn : openings s ≤ n) : ∃ m, n = m + 1 ∧ k ≤ m :=
  ⟨n - 1, by omega, by omega⟩

theorem openings_le_clause (keyword : String) {t : String} {texts : List String} (h : t ∈ texts) :
    openings t ≤ openings (clause keyword texts) := by
  cases texts with
  | nil => cases h
  | cons u texts =>
    have := openings_le_of_mem h
    simp only [clause, List.isEmpty_cons, Bool.false_eq_true, if_false, openings_append]
    omega

theorem openings_le_condition (keyword : String) {e : Expr Constant} {on : Option (Expr Constant)}
    (he : e ∈ on) : openings e.text ≤ openings (Expr.clause keyword on) := by
  cases he
  simp [Expr.clause, openings_append]

theorem openings_opening : openings "(" = 1 := by simp [openings]

theorem openings_le_aliased (s : String) (asName : Option String) :
    openings s ≤ openings (aliased s asName) := by
  cases asName with
  | none => exact Nat.le_refl _
  | some a =>
    rw [aliased, openings_append, openings_append]
    omega

theorem openings_suffix (partitionBy : List (Expr Constant)) (orderBy : List (SortKey Constant)) :
    openings (Window.suffix (some ⟨partitionBy, orderBy⟩)) =
      openings (clause " PARTITION BY " (Expr.texts partitionBy)) +
        openings (clause " ORDER BY " (SortKey.texts orderBy)) + 1 := by
  rw [Window.suffix]
  cases Expr.texts partitionBy <;> cases SortKey.texts orderBy <;> simp [clause, openings]

end Levels

section Induction

variable {n : Nat}

mutual

theorem Expr.readBack : (e : Expr Constant) → e.All legible → e.All finite →
    ∀ n, openings e.text ≤ n → e.ReadBack n
  | .column c, h, _, n, _ => readBack_column h
  | .constant c, h, h', n, _ => by
    rw [Expr.All] at h h'
    exact readBack_constant h h'
  | .compare l op r, h, h', n, hn => by
    rw [Expr.All] at h h'
    simp only [Expr.text, openings_append] at hn
    exact readBack_compare (Expr.readBack l h.2.1 h'.2.1 n (by omega))
      (Expr.readBack r h.2.2 h'.2.2 n (by omega)) h.1
  | .logic l op r, h, h', n, hn => by
    rw [Expr.All] at h h'
    have hlevels : openings l.text + openings r.text < openings (Expr.logic l op r).text := by
      rw [Expr.text]
      simp only [openings_append, openings_opening]
      omega
    obtain ⟨m, rfl, hm⟩ := exists_level hlevels hn
    exact readBack_logic (Expr.readBack l h.1 h'.1 m (by omega)) (Expr.readBack r h.2 h'.2 m (by omega))
  | .not e, h, h', n, hn => by
    rw [Expr.All] at h h'
    have hlevels : openings e.text < openings (Expr.not e).text := by simp [Expr.text, openings]
    obtain ⟨m, rfl, hm⟩ := exists_level hlevels hn
    exact readBack_not (Expr.readBack e h h' m hm)
  | .isNull e negated, h, h', n, hn => by
    rw [Expr.All] at h h'
    have hle : openings e.text ≤ openings (Expr.isNull e negated).text := by
      cases negated <;> simp [Expr.text, openings]
    exact readBack_isNull negated (Expr.readBack e h.2 h'.2 n (by omega)) h.1
  | .call name isDistinct star args window, h, h', n, hn => by
    rw [Expr.All] at h h'
    have hlevels : openings (commaSeparated (Expr.texts args)) + openings (Window.suffix window) <
        openings (Expr.call name isDistinct star args window).text := by
      rw [Expr.text]
      simp only [openings_append, openings_opening]
      omega
    obtain ⟨m, rfl, hm⟩ := exists_level hlevels hn
    have hargs := Expr.readBackAll args h.2.2.1 h'.2.2.1 m fun t ht => by
      have := openings_le_of_mem ht
      omega
    exact readBack_call h.1 isDistinct h'.2.1 hargs (Window.readBack window h.2.2.2 h'.2.2.2 (m + 1) (by omega))
  | .subquery q, h, h', n, hn => by
    rw [Expr.All] at h h'
    have hlevels : openings q.text < openings (Expr.subquery q).text := by
      simp [openings, toList_text_subquery]
    obtain ⟨m, rfl, hm⟩ := exists_level hlevels hn
    obtain ⟨q', hvalue, hquery⟩ := Select.readBack q h h' m hm
    exact readBack_subquery hquery hvalue

theorem Expr.readBackAll : (es : List (Expr Constant)) → Expr.AllOf legible es →
    Expr.AllOf finite es → ∀ n, (∀ t ∈ Expr.texts es, openings t ≤ n) →
    Expr.ReadBackAll n es
  | [], _, _, n, _ => ⟨[], rfl, .nil⟩
  | e :: es, h, h', n, hn => by
    rw [Expr.AllOf] at h h'
    rw [Expr.texts] at hn
    exact .cons (Expr.readBack e h.1 h'.1 n (hn _ (.head _)))
      (Expr.readBackAll es h.2 h'.2 n fun t ht => hn t (.tail _ ht))

theorem Expr.readBack? : (e : Option (Expr Constant)) → Expr.All? legible e →
    Expr.All? finite e → ∀ n, (∀ x ∈ e, openings x.text ≤ n) → Expr.ReadBack? n e
  | none, _, _, n, _ => ⟨none, rfl, .none⟩
  | some e, h, h', n, hn => by
    rw [Expr.All?] at h h'
    exact readBack_some (Expr.readBack e h h' n (hn e rfl))

theorem Window.readBack : (window : Option (Window Constant)) → Window.All legible window →
    Window.All finite window → ∀ n, openings (Window.suffix window) ≤ n →
    Window.ReadBack n window
  | none, _, _, n, _ => ⟨none, rfl, by simpa [Window.suffix] using WindowText.empty (levels n)⟩
  | some ⟨partitionBy, orderBy⟩, h, h', n, hn => by
    rw [Window.All] at h h'
    have hlevels := openings_suffix partitionBy orderBy
    obtain ⟨m, rfl, hm⟩ := exists_level (Nat.lt_of_lt_of_eq (Nat.lt_succ_self _) hlevels.symm) hn
    refine readBack_window (Expr.readBackAll partitionBy h.1 h'.1 m fun t ht => ?_)
      (SortKey.readBackAll orderBy h.2 h'.2 m fun t ht => ?_)
    · have := openings_le_clause " PARTITION BY " ht
      omega
    · have := openings_le_clause " ORDER BY " ht
      omega

theorem SortKey.readBackAll : (ks : List (SortKey Constant)) → SortKey.AllOf legible ks →
    SortKey.AllOf finite ks → ∀ n, (∀ t ∈ SortKey.texts ks, openings t ≤ n) →
    SortKey.ReadBackAll n ks
  | [], _, _, n, _ => ⟨[], rfl, .nil⟩
  | ⟨e, descending⟩ :: ks, h, h', n, hn => by
    rw [SortKey.AllOf] at h h'
    rw [SortKey.texts] at hn
    have hkey := hn _ (.head _)
    rw [openings_append] at hkey
    exact .cons descending (Expr.readBack e h.1 h'.1 n (by omega))
      (SortKey.readBackAll ks h.2 h'.2 n fun t ht => hn t (.tail _ ht))

theorem SelectItem.readBackAll : (is : List (SelectItem Constant)) → SelectItem.AllOf legible is →
    SelectItem.AllOf finite is → ∀ n, (∀ t ∈ SelectItem.texts is, openings t ≤ n) →
    SelectItem.ReadBackAll n is
  | [], _, _, n, _ => ⟨[], rfl, .nil⟩
  | .star :: is, h, h', n, hn => by
    rw [SelectItem.AllOf] at h h'
    rw [SelectItem.texts] at hn
    exact (SelectItem.readBackAll is h h' n fun t ht => hn t (.tail _ ht)).star
  | .expr e asName :: is, h, h', n, hn => by
    rw [SelectItem.AllOf] at h h'
    rw [SelectItem.texts] at hn
    have hitem := hn _ (.head _)
    have hexpr := openings_le_aliased e.text asName
    exact .expr (Expr.readBack e h.1 h'.1 n (by omega)) h.2.1
      (SelectItem.readBackAll is h.2.2 h'.2.2 n fun t ht => hn t (.tail _ ht))

theorem TableRef.readBack : (t : TableRef Constant) → t.All legible → t.All finite →
    ∀ n, openings t.text ≤ n → t.ReadBack n
  | .table name asName, h, _, n, _ => by
    rw [TableRef.All] at h
    exact readBack_table h.1 h.2
  | .query q asName, h, h', n, hn => by
    rw [TableRef.All] at h h'
    have hlevels : openings q.text < openings (TableRef.query q asName).text := by
      have hle := openings_le_aliased ("(" ++ q.text ++ ")") asName
      rw [openings_append, openings_append, openings_opening] at hle
      rw [TableRef.text]
      omega
    obtain ⟨m, rfl, hm⟩ := exists_level hlevels hn
    exact readBack_query (Select.readBack q h.1 h'.1 m hm) h.2
  | .join left right kind on, h, h', n, hn => by
    rw [TableRef.All] at h h'
    have hopenings : openings (TableRef.join left right kind on).text = openings left.text +
        openings kind.text + openings (rightSide right) + openings (Expr.clause " ON " on) := by
      simp only [TableRef.text, rightSide, openings_append]
      simp [openings]
    have hright := readBack_rightSide (TableRef.readBack right h.2.1 h'.2.1) (n := n) (by omega)
    refine readBack_join kind (TableRef.readBack left h.1 h'.1 n (by omega)) hright
      (Expr.readBack? on h.2.2 h'.2.2 n fun e he => ?_)
    have := openings_le_condition " ON " he
    omega

theorem TableRef.readBackAll : (ts : List (TableRef Constant)) → TableRef.AllOf legible ts →
    TableRef.AllOf finite ts → ∀ n, (∀ t ∈ TableRef.texts ts, openings t ≤ n) →
    TableRef.ReadBackAll n ts
  | [], _, _, n, _ => ⟨[], rfl, .nil⟩
  | t :: ts, h, h', n, hn => by
    rw [TableRef.AllOf] at h h'
    rw [TableRef.texts] at hn
    exact .cons (TableRef.readBack t h.1 h'.1 n (hn _ (.head _)))
      (TableRef.readBackAll ts h.2 h'.2 n fun t ht => hn t (.tail _ ht))

theorem Select.readBack : (q : Select Constant) → q.All legible → q.All finite →
    ∀ n, openings q.text ≤ n → q.ReadBack n
  | ⟨isDistinct, items, sources, filter, groupBy, having, orderBy⟩, h, h', n, hn => by
    rw [Select.All] at h h'
    obtain ⟨-, hitems, hsources, hfilter, hgroups, hhaving, hkeys⟩ := h
    obtain ⟨hne, hitems', hsources', hfilter', hgroups', hhaving', hkeys'⟩ := h'
    have hclauses : openings (commaSeparated (SelectItem.texts items)) +
        openings (clause " FROM " (TableRef.texts sources)) + openings (Expr.clause " WHERE " filter) +
        openings (clause " GROUP BY " (Expr.texts groupBy)) + openings (Expr.clause " HAVING " having) +
        openings (clause " ORDER BY " (SortKey.texts orderBy)) ≤ n := by
      simp only [Select.text, openings_append] at hn
      omega
    refine readBack_select isDistinct hne (SelectItem.readBackAll items hitems hitems' n fun t ht => ?_)
      (TableRef.readBackAll sources hsources hsources' n fun t ht => ?_)
      (Expr.readBack? filter hfilter hfilter' n fun e he => ?_)
      (Expr.readBackAll groupBy hgroups hgroups' n fun t ht => ?_)
      (Expr.readBack? having hhaving hhaving' n fun e he => ?_)
      (SortKey.readBackAll orderBy hkeys hkeys' n fun t ht => ?_)
    · have := openings_le_of_mem ht
      omega
    · have := openings_le_clause " FROM " ht
      omega
    · have := openings_le_condition " WHERE " he
      omega
    · have := openings_le_clause " GROUP BY " ht
      omega
    · have := openings_le_condition " HAVING " he
      omega
    · have := openings_le_clause " ORDER BY " ht
      omega

end

theorem Select.read_text {q : Select Constant} (h : q.Legible) (h' : q.All finite) :
    Select.read q.text = .ok q := by
  obtain ⟨q', hvalue, hquery⟩ := Select.readBack q h h' _ (Nat.le_refl _)
  rw [Select.read, hquery.whole]
  simp only [hvalue]
  rfl

end Induction

end QuerySearch.Sql
