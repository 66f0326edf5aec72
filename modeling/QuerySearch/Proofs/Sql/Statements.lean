import QuerySearch.Proofs.Sql.Values

/-! Reading whole statements: select items, sources, the clauses that may be absent, and queries inside
queries. -/

namespace QuerySearch.Sql

open QuerySearch.Sql.Parser Component

section Clauses

variable {w : ClosingWord} {ws : List ClosingWord} {c : Component} {n : Nat}

def conditionClause (w : ClosingWord) (c : Component) : List Char :=
  if c.isAbsent then [] else ' ' :: (w.letters ++ ' ' :: c.text.toList)

theorem openings_le_conditionClause (w : ClosingWord) (c : Component) :
    openings c.text ≤ (conditionClause w c).count '(' := by
  rw [conditionClause]
  cases h : c.isAbsent with
  | true => simp [openings_of_absent h]
  | false => simp [openings]

theorem conditionExpr_of_present (hc : c.IsCondition (· ≠ [])) (h : c.isAbsent = false) :
    c.IsPredicate (· ≠ []) ∧
      conditionExpr writtenInteger .str c = some (predicateExpr writtenInteger .str c) := by
  cases c with
  | absent => exact absurd ((isAbsent_iff _).2 rfl) (by simp [h])
  | _ => exact ⟨hc, rfl⟩

theorem conditionClause_text (w : ClosingWord) (ws : List ClosingWord) (hw : w ∉ ws)
    (hc : c.IsCondition (· ≠ [])) (hn : openings c.text ≤ n) :
    ClauseText w ws (do keyword w.name; skip; expr (levels n)) (conditionClause w c)
      (conditionExpr writtenInteger .str c) := by
  rw [conditionClause]
  cases h : c.isAbsent with
  | true =>
    cases (isAbsent_iff c).1 h
    exact .absent hw
  | false =>
    obtain ⟨hp, hexpr⟩ := conditionExpr_of_present hc h
    rw [hexpr]
    exact ((predicate_phrase hp hn).imp fun _ hrest => hrest.stops).clause w

theorem toList_withAlias (s : String) (a : Option String) : (withAlias s a).toList =
    s.toList ++ aliasLetters (a.map fun a => (quoteName a).toList) := by
  cases a <;> simp [withAlias, aliasLetters]

theorem reads_items (n : Nat) (hc : c.IsItem (· ≠ []) ∧ ∃ item asName, c = .named item asName)
    (hn : openings c.text ≤ n) : Phrase (Follows (.source :: clauseWords)) (selectItem (levels n)) c.text.toList
      (itemOf writtenInteger .str c) := by
  obtain ⟨h, item, asName, rfl⟩ := hc
  have htext : (named item asName).text.toList =
      item.text.toList ++ aliasLetters (some (quoteName asName).toList) := by
    rw [text, toList_withAlias]
    rfl
  have hitem : Operand (levels n) item.text.toList (operandExpr writtenInteger .str item) := by
    apply operand_reads h.1
    simp only [htext, openings, List.count_append] at hn ⊢
    omega
  rw [htext]
  exact hitem.phrase.item (.some (nameText_quoteName h.2)) (by decide)

end Clauses

section Queries

variable {n : Nat} {items : List Component} {source filter groupBy having orderBy : Component}
  {isDistinct : Bool} {ref : TableRef Literal}

theorem toList_condition (w : ClosingWord) {keyword : String}
    (h : keyword.toList = ' ' :: (w.letters ++ [' '])) (c : Component) :
    (Component.clause keyword c c.text).toList = conditionClause w c := by
  cases hc : c.isAbsent <;> simp [Component.clause, conditionClause, hc, h]

theorem toList_list (w : ClosingWord) {keyword : String}
    (h : keyword.toList = ' ' :: (w.letters ++ [' ', 'B', 'Y', ' '])) (c : Component) :
    (Component.clause keyword c c.text).toList = listClause w c := by
  cases hc : c.isAbsent <;> simp [Component.clause, listClause, hc, h]

def sourceClause (t : List Char) : List Char := ' ' :: (ClosingWord.source.letters ++ ' ' :: t)

theorem toList_query :
    (query (.select items) source filter groupBy having orderBy isDistinct).text.toList =
      'S' :: 'E' :: 'L' :: 'E' :: 'C' :: 'T' :: ' ' :: (distinctWord isDistinct ++
        ((commaSeparated (items.map text)).toList ++ (sourceClause source.text.toList ++
          (conditionClause .filter filter ++ (listClause .group groupBy ++
            (conditionClause .having having ++ listClause .order orderBy)))))) := by
  have hfilter : " WHERE ".toList = ' ' :: (ClosingWord.filter.letters ++ [' ']) := by
    simp [ClosingWord.letters]
  have hgroup : " GROUP BY ".toList = ' ' :: (ClosingWord.group.letters ++ [' ', 'B', 'Y', ' ']) := by
    simp [ClosingWord.letters]
  have hhaving : " HAVING ".toList = ' ' :: (ClosingWord.having.letters ++ [' ']) := by
    simp [ClosingWord.letters]
  have horder : " ORDER BY ".toList = ' ' :: (ClosingWord.order.letters ++ [' ', 'B', 'Y', ' ']) := by
    simp [ClosingWord.letters]
  rw [text]
  simp only [String.toList_append, toList_condition _ hfilter, toList_list _ hgroup,
    toList_condition _ hhaving, toList_list _ horder]
  cases isDistinct <;>
    simp [text, texts_eq, distinctWord, sourceClause, ClosingWord.letters]

theorem query_reads
    (hitems : items ≠ [] ∧ ∀ c ∈ items, c.IsItem (· ≠ []) ∧ ∃ item asName, c = .named item asName)
    (hsource : Joined (levels n) source.text.toList ref) (hfilter : filter.IsCondition (· ≠ []))
    (hgroup : groupBy.IsListing (· ≠ []) IsKey) (hhaving : having.IsCondition (· ≠ []))
    (horder : orderBy.IsListing (· ≠ []) IsSortKey)
    (hn : openings (query (.select items) source filter groupBy having orderBy isDistinct).text ≤ n) :
    QueryText (levels n) (query (.select items) source filter groupBy having orderBy isDistinct).text.toList
      ⟨isDistinct, items.map (itemOf writtenInteger .str), [ref],
        conditionExpr writtenInteger .str filter,
        groupBy.keyItems.map (keyExpr writtenInteger .str), conditionExpr writtenInteger .str having,
        orderBy.keyItems.map (sortKeyOf writtenInteger .str)⟩ := by
  have hopenFilter := openings_le_conditionClause .filter filter
  have hopenGroup := openings_le_listClause .group groupBy
  have hopenHaving := openings_le_conditionClause .having having
  have hopenOrder := openings_le_listClause .order orderBy
  have hopenItems : openings (commaSeparated (items.map text)) ≤ n := by
    simp [openings, toList_query] at hn ⊢
    omega
  simp [openings, toList_query] at hn hopenFilter hopenGroup hopenHaving hopenOrder
  have hreadItems : Phrase (Closes (.source :: clauseWords)) _ _ _ :=
    items_phrase (fun c hc => reads_items n (hitems.2 c hc)
      (Nat.le_trans (openings_le_of_mem (List.mem_map_of_mem hc)) hopenItems)) hitems.1
  have hreadSource : Phrase (Closes clauseWords) (Parser.commaSeparated (tableRef (levels n)))
      (commaSeparated [source.text]).toList [ref] := .commaSeparated (.cons hsource.phrase .nil) (by simp)
  have htext : commaSeparated [source.text] = source.text := by simp [commaSeparated]
  rw [htext] at hreadSource
  have hreadFilter := conditionClause_text (n := n) .filter [.group, .having, .order] (by decide) hfilter
    (by simp only [openings]; omega)
  obtain ⟨groups, hgroups, hreadGroup⟩ := listClause_text (n := n) .group [.having, .order] (by decide)
    (reads_keys n) hgroup (by simp only [openings]; omega)
  have hreadHaving := conditionClause_text (n := n) .having [.order] (by decide) hhaving
    (by simp only [openings]; omega)
  obtain ⟨orders, horders, hreadOrder⟩ := listClause_text (n := n) .order [] (by decide)
    (reads_sortKeys n) horder (by simp only [openings]; omega)
  rw [toList_query, ← hgroups, ← horders]
  exact queryText isDistinct hreadItems (hreadSource.clause .source) hreadFilter hreadGroup hreadHaving
    hreadOrder

end Queries

section Nesting

variable {c : Component} {n : Nat}

def rightText (c : Component) : String := if c.kind == .join then "(" ++ c.text ++ ")" else c.text

def ReadsSource (c : Component) (ref : TableRef Literal) : Prop :=
  (∀ n, openings c.text ≤ n → Joined (levels n) c.text.toList ref) ∧
    ∀ n, openings (rightText c) ≤ n → Single (levels n) (rightText c).toList ref

def ReadsQuery (c : Component) (q : Select Literal) : Prop :=
  ∀ n, openings c.text ≤ n → QueryText (levels n) c.text.toList q

theorem Single.readsSource {ref : TableRef Literal} (hkind : c.kind ≠ .join)
    (h : ∀ n, openings c.text ≤ n → Single (levels n) c.text.toList ref) : ReadsSource c ref := by
  have hright : rightText c = c.text := by simp [rightText, hkind]
  rw [ReadsSource, hright]
  exact ⟨fun n hn => (h n hn).joined, h⟩

theorem Joined.readsSource {ref : TableRef Literal} (hkind : c.kind = .join)
    (h : ∀ n, openings c.text ≤ n → Joined (levels n) c.text.toList ref) : ReadsSource c ref := by
  have hright : (rightText c).toList = '(' :: (c.text.toList ++ [')']) := by simp [rightText, hkind]
  refine ⟨h, fun n hn => ?_⟩
  rw [hright]
  cases n with
  | zero => simp [openings, hright] at hn
  | succ n => exact (h n (by simp [openings, hright] at hn ⊢; omega)).parenthesized

theorem table_reads {t : Table} {a : String} (ht : PlainName t.name) (ha : PlainName a) :
    ReadsSource (tableSource (.table t) (some a)) (.table t.name (some a)) := by
  apply Single.readsSource
  · rw [Ne, kind_eq_join]
    simp
  · intro n _
    have htext : (tableSource (.table t) (some a)).text = withAlias (quoteName t.name) (some a) := by
      simp [text]
    rw [htext, toList_withAlias]
    exact (nameText_quoteName ht).single (.some (nameText_quoteName ha))

theorem query_source_reads {q : Component} {a : String} {s : Select Literal} (hq : ReadsQuery q s)
    (ha : PlainName a) : ReadsSource (querySource q (some a)) (.query s (some a)) := by
  have htext : (querySource q (some a)).text.toList =
      '(' :: (q.text.toList ++ ')' :: aliasLetters (some (quoteName a).toList)) := by
    simp [text, withAlias, aliasLetters]
  apply Single.readsSource
  · rw [Ne, kind_eq_join]
    simp
  · intro n hn
    rw [htext]
    cases n with
    | zero => simp [openings, htext] at hn
    | succ n =>
      have hinner : openings q.text ≤ n := by
        simp [openings, htext] at hn ⊢
        omega
      exact (hq n hinner).single (.some (nameText_quoteName ha))

theorem text_joinType (type : JoinType) : type.text = type.joinKind.text := by
  cases type <;> rfl

theorem join_reads {l r on : Component} {left right : TableRef Literal} (type : JoinType)
    (hl : ReadsSource l left) (hr : ReadsSource r right) (hon : on.IsPredicate (· ≠ [])) :
    ReadsSource (join l r type on) (.join left right type.joinKind
      (some (predicateExpr writtenInteger .str on))) := by
  have htext : (join l r type on).text.toList = l.text.toList ++ ' ' :: (joinLetters type.joinKind ++ ' ' ::
      ((rightText r).toList ++ ' ' :: 'O' :: 'N' :: ' ' :: on.text.toList)) := by
    simp [text, rightText, ← toList_joinKind, text_joinType]
  apply Joined.readsSource ((kind_eq_join _).2 ⟨l, r, type, on, rfl⟩)
  intro n hn
  simp only [openings, htext, List.count_append, List.count_cons] at hn
  have hleft := hl.1 n (by simp only [openings]; omega)
  have hright := hr.2 n (by simp only [openings]; omega)
  rw [htext]
  exact hleft.append type.joinKind hright (predicate_phrase hon (by simp only [openings]; omega)).onText

/-- A query is read where it can be written, and so is a source. -/
theorem reads_all :
    (∀ c, c.IsSource (· ≠ []) → c.SourceNamed → ReadsSource c (sourceRef writtenInteger .str c)) ∧
      ∀ c : Component, c.IsQuery (· ≠ []) → c.AllNamed →
        ReadsQuery c (c.statement writtenInteger .str) := by
  apply sourceRef.mutual_induct
  case case1 =>
    intro t asName h hnamed
    cases asName with
    | none => cases hnamed
    | some a => exact table_reads h.1 (h.2 a rfl)
  case case2 =>
    intro q asName ih h hnamed
    cases asName with
    | none => cases hnamed.2
    | some a => exact query_source_reads (ih h.1 hnamed.1) (h.2 a rfl)
  case case3 =>
    intro l r type on ihl ihr h hnamed
    have hon : conditionExpr writtenInteger .str on = some (predicateExpr writtenInteger .str on) := by
      cases on with
      | absent => exact absurd h.2.2 id
      | _ => rfl
    rw [sourceRef, hon]
    exact join_reads type (ihl h.1 hnamed.1) (ihr h.2.1 hnamed.2) h.2.2
  case case4 =>
    intro c htable hquery hjoin h
    rw [IsSource] at h
    · exact h.elim
    · exact htable
    · exact hquery
    · exact hjoin
  case case5 =>
    intro items source filter groupBy having orderBy isDistinct ih h hnamed n hn
    obtain ⟨hitems, hsource, hfilter, hgroup, hhaving, horder⟩ := h
    have hopenings : openings source.text ≤ n := by
      simp [openings, toList_query, sourceClause] at hn ⊢
      omega
    exact query_reads ⟨hitems.1, fun c hc => ⟨hitems.2 c hc, hnamed.1 c hc⟩⟩
      ((ih hsource hnamed.2).1 n hopenings) hfilter hgroup hhaving horder hn
  case case6 =>
    intro c hquery h
    rw [IsQuery] at h
    · exact h.elim
    · exact hquery

theorem whole_statement {c : Component} (h : c.IsQuery (· ≠ [])) (hnamed : c.AllNamed) :
    selectStatement.whole c.text = some (c.statement writtenInteger .str) :=
  (reads_all.2 c h hnamed _ (Nat.le_refl _)).whole

end Nesting

end QuerySearch.Sql
