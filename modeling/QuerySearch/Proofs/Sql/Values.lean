import QuerySearch.Proofs.Component.Kinds
import QuerySearch.Proofs.Sql.BareNames
import QuerySearch.Proofs.Sql.Phrases

/-! Reading the values and predicates of a query, at every number of levels that is enough for the
parentheses in their texts. -/

namespace QuerySearch.Sql

open QuerySearch.Sql.Parser Component

section Columns

variable {inside : Inside} {c : Component}

theorem qualified_toList (qualifier name : String) :
    (qualified qualifier name).toList = (quoteName qualifier).toList ++ '.' :: (quoteName name).toList := by
  simp [qualified]

theorem column_operand (h : c.IsColumn) : Operand inside c.text.toList (columnExpr c) := by
  cases c with
  | boundColumn qualifier name chain =>
    obtain ⟨hq, hn⟩ := h
    by_cases hempty : qualifier = ""
    · subst hempty
      exact (nameText_quoteName hn).column
    · have htext : (boundColumn qualifier name chain).text = qualified qualifier name := by
        simp [text, hempty]
      have hexpr : (columnExpr (boundColumn qualifier name chain) : Expr Literal) =
          .column ⟨some qualifier, name⟩ := by
        simp [columnExpr, hempty]
      rw [htext, hexpr, qualified_toList]
      exact (nameText_quoteName (hq.resolve_left hempty)).qualified (nameText_quoteName hn)
  | _ => exact h.elim

end Columns

section Keys

variable {n : Nat} {v : List Char} {c arg : Component} {window : Option (Window Literal)}

theorem toList_aggregation (func : AggFunc) (arg : Component) (isDistinct : Bool) :
    (aggregation func arg isDistinct).text.toList =
      func.text.toList ++ '(' :: (distinctWord isDistinct ++ (arg.text.toList ++ [')'])) := by
  cases isDistinct <;> simp [text, callText, distinctWord]

theorem aggregation_operand (func : AggFunc) (h : arg.IsColumn) (isDistinct : Bool)
    (hwindow : WindowText (levels (n + 1)) v window) :
    Operand (levels (n + 1)) ((aggregation func arg isDistinct).text.toList ++ v)
      (.call func.name isDistinct false [columnExpr arg] window) := by
  have harg : Phrase (Closes []) (Parser.commaSeparated (expr (levels n)))
      (commaSeparated [arg.text]).toList [columnExpr arg] :=
    .commaSeparated (.cons ((column_operand h).phrase.imp fun _ hrest => hrest.stops) .nil) (by simp)
  have htext : commaSeparated [arg.text] = arg.text := by simp [commaSeparated]
  rw [htext] at harg
  have := (nameText_aggFunc func).call isDistinct (.list harg) hwindow
  simpa [toList_aggregation] using this

theorem windowCall_operand (func : WindowFunc) (hwindow : WindowText (levels n) v window) :
    Operand (levels n) ((Component.windowClause func).text.toList ++ v)
      (.call func.name false false [] window) := by
  have := (nameText_windowFunc func).call false (.empty n) hwindow
  simpa [text, callText, distinctWord] using this

theorem key_operand (h : c.IsKey) (hn : openings c.text ≤ n) :
    Operand (levels n) c.text.toList (keyExpr writtenInteger .str c) := by
  cases c with
  | int v => exact (literalText_writtenInteger v).operand
  | str s => exact (literalText_quoteText s).operand
  | aggregation func arg isDistinct =>
    cases n with
    | zero => simp [openings, toList_aggregation] at hn
    | succ n =>
      have := aggregation_operand func h isDistinct (.empty (levels (n + 1)))
      rwa [List.append_nil] at this
  | boundColumn qualifier name chain => exact column_operand h
  | _ => exact absurd h id

def ReadsItems {β : Type} (n : Nat) (isItem : Component → Prop) (p : Parser β)
    (value : Component → β) : Prop :=
  ∀ c, isItem c → openings c.text ≤ n → Phrase Stops p c.text.toList (value c)

theorem reads_keys (n : Nat) : ReadsItems n IsKey (expr (levels n)) (keyExpr writtenInteger .str) :=
  fun _ h hn => (key_operand h hn).phrase

theorem toList_sortDir (dir : SortDir) : dir.text.toList = directionLetters (dir == .desc) := by
  cases dir <;> simp [SortDir.text, directionLetters]

theorem reads_sortKeys (n : Nat) :
    ReadsItems n IsSortKey (sortKey (expr (levels n))) (sortKeyOf writtenInteger .str) := by
  intro c h hn
  cases c with
  | sortItem key dir =>
    have htext : (sortItem key dir).text.toList = key.text.toList ++ ' ' :: dir.text.toList := by
      simp [text]
    have hkey : Operand (levels n) key.text.toList (keyExpr writtenInteger .str key) := by
      apply key_operand h
      simp [openings, htext] at hn ⊢
      omega
    rw [htext, toList_sortDir]
    exact hkey.phrase.sortKey _
  | _ => exact h.elim

end Keys

section Clauses

variable {β : Type} {n : Nat} {isItem : Component → Prop} {p : Parser β} {value : Component → β}
  {w : ClosingWord} {ws : List ClosingWord} {c : Component}

theorem listing_text (hc : c.IsListing (· ≠ []) isItem) (h : c.isAbsent = false) :
    c.keyItems ≠ [] ∧ (∀ d ∈ c.keyItems, isItem d) ∧
      c.text = commaSeparated (c.keyItems.map text) := by
  cases c with
  | partitionList items => exact ⟨hc.1, hc.2, by simp [text_lists, keyItems]⟩
  | groupList items => exact ⟨hc.1, hc.2, by simp [text_lists, keyItems]⟩
  | sortList items => exact ⟨hc.1, hc.2, by simp [text_lists, keyItems]⟩
  | absent => exact absurd ((isAbsent_iff _).2 rfl) (by simp [h])
  | _ => exact hc.elim

theorem items_phrase {cs : List Component}
    (hphrase : ∀ c ∈ cs, Phrase (Follows ws) p c.text.toList (value c)) (hne : cs ≠ []) :
    Phrase (Closes ws) (Parser.commaSeparated p) (commaSeparated (cs.map text)).toList (cs.map value) := by
  apply Phrase.commaSeparated
  · rw [List.forall₂_map_left_iff, List.forall₂_map_right_iff, List.forall₂_same]
    exact hphrase
  · simpa using hne

theorem listing_phrase (hreads : ReadsItems n isItem p value) (hc : c.IsListing (· ≠ []) isItem)
    (h : c.isAbsent = false) (hn : openings c.text ≤ n) :
    Phrase (Closes ws) (Parser.commaSeparated p) c.text.toList (c.keyItems.map value) := by
  obtain ⟨hne, hitems, htext⟩ := listing_text hc h
  rw [htext] at hn ⊢
  apply items_phrase _ hne
  intro d hd
  have hle := openings_le_of_mem (List.mem_map_of_mem (f := text) hd)
  exact (hreads d (hitems d hd) (Nat.le_trans hle hn)).imp fun _ hrest => hrest.stops

def listClause (w : ClosingWord) (c : Component) : List Char :=
  if c.isAbsent then [] else ' ' :: (w.letters ++ ' ' :: 'B' :: 'Y' :: ' ' :: c.text.toList)

theorem openings_of_absent (h : c.isAbsent = true) : openings c.text = 0 := by
  cases (isAbsent_iff c).1 h
  rfl

theorem openings_le_listClause (w : ClosingWord) (c : Component) :
    openings c.text ≤ (listClause w c).count '(' := by
  rw [listClause]
  cases h : c.isAbsent with
  | true => simp [openings_of_absent h]
  | false => simp [openings]

theorem listClause_text (w : ClosingWord) (ws : List ClosingWord) (hw : w ∉ ws)
    (hreads : ReadsItems n isItem p value)
    (hc : c.IsListing (· ≠ []) isItem) (hn : openings c.text ≤ n) :
    ∃ keys, keys.getD [] = c.keyItems.map value ∧
      ClauseText w ws (clauseBy w.name (Parser.commaSeparated p)) (listClause w c) keys := by
  rw [listClause]
  cases h : c.isAbsent with
  | true =>
    cases (isAbsent_iff c).1 h
    exact ⟨none, rfl, .absent hw⟩
  | false => exact ⟨some _, rfl, (listing_phrase hreads hc h hn).by.clause w⟩

theorem head_listClause (w : ClosingWord) (c : Component) (u : List Char) (hu : u.head?.all (· == ' ')) :
    (listClause w c ++ u).head?.all (· == ' ') := by
  rw [listClause]
  cases c.isAbsent with
  | true => exact hu
  | false => rfl

theorem overText_toList (partition orderBy : Component) :
    (overText partition partition.text orderBy orderBy.text).toList = ' ' :: 'O' :: 'V' :: 'E' :: 'R' :: ' ' ::
      '(' :: ((listClause .partition partition ++ listClause .order orderBy).drop 1 ++ [')']) := by
  cases hp : partition.isAbsent <;> cases ho : orderBy.isAbsent <;>
    simp [overText, listClause, ClosingWord.letters, hp, ho]

theorem count_drop_one {t : List Char} (h : t.head?.all (· == ' ')) : (t.drop 1).count '(' = t.count '(' := by
  cases t with
  | nil => rfl
  | cons c t =>
    obtain rfl : c = ' ' := by simpa using h
    simp

theorem window_reads {partition orderBy : Component} (hp : partition.IsListing (· ≠ []) IsKey)
    (ho : orderBy.IsListing (· ≠ []) IsSortKey)
    (hn : openings (overText partition partition.text orderBy orderBy.text) ≤ n + 1) :
    WindowText (levels (n + 1)) (overText partition partition.text orderBy orderBy.text).toList
      (some (windowOf writtenInteger .str partition orderBy)) := by
  have hblank := head_listClause .partition partition (listClause .order orderBy)
    (by simpa using head_listClause .order orderBy [] rfl)
  have hopenPartition := openings_le_listClause .partition partition
  have hopenOrder := openings_le_listClause .order orderBy
  have hcount := count_drop_one hblank
  rw [overText_toList]
  simp [openings, overText_toList] at hn hopenPartition hopenOrder hcount
  obtain ⟨partitions, hpartitions, hreadPartitions⟩ :=
    listClause_text (n := n) .partition [.order] (by decide) (reads_keys n) hp
      (by simp only [openings]; omega)
  obtain ⟨keys, hkeys, hreadKeys⟩ :=
    listClause_text (n := n) .order [] (by decide) (reads_sortKeys n) ho
      (by simp only [openings]; omega)
  rw [windowOf, ← hpartitions, ← hkeys]
  exact windowText hreadPartitions hreadKeys hblank

end Clauses

section Predicates

variable {n : Nat} {c : Component}

theorem windowed_operand {call partition orderBy : Component} {e : Window Literal → Expr Literal}
    (hcall : ∀ m v window, WindowText (levels (m + 1)) v (some window) →
      Operand (levels (m + 1)) (call.text.toList ++ v) (e window))
    (hp : partition.IsListing (· ≠ []) IsKey) (ho : orderBy.IsListing (· ≠ []) IsSortKey)
    (hn : openings (call.text ++ overText partition partition.text orderBy orderBy.text) ≤ n) :
    Operand (levels n) (call.text ++ overText partition partition.text orderBy orderBy.text).toList
      (e (windowOf writtenInteger .str partition orderBy)) := by
  rw [String.toList_append]
  cases n with
  | zero => simp [openings, overText_toList] at hn
  | succ n =>
    apply hcall
    apply window_reads hp ho
    simp only [openings, String.toList_append, List.count_append] at hn ⊢
    omega

theorem operand_reads (h : c.IsOperand (· ≠ [])) (hn : openings c.text ≤ n) :
    Operand (levels n) c.text.toList (operandExpr writtenInteger .str c) := by
  cases c with
  | aggWindow call partition orderBy =>
    cases call with
    | aggregation func arg isDistinct =>
      rw [text] at hn ⊢
      exact windowed_operand
        (e := fun window => .call func.name isDistinct false [columnExpr arg] (some window))
        (fun m v window hwindow => aggregation_operand func h.1 isDistinct hwindow) h.2.1 h.2.2 hn
    | _ => exact absurd h id
  | funcWindow call partition orderBy =>
    cases call with
    | windowClause func =>
      rw [text] at hn ⊢
      exact windowed_operand (e := fun window => .call func.name false false [] (some window))
        (fun m v window hwindow => windowCall_operand func hwindow) h.1 h.2 hn
    | _ => exact absurd h id
  | int v => exact key_operand h hn
  | str s => exact key_operand h hn
  | aggregation func arg isDistinct => exact key_operand h hn
  | boundColumn qualifier name chain => exact key_operand h hn
  | _ => exact absurd h id

def sideTokens : Component → List (Token Literal)
  | .comparison l op r =>
    [.operand (operandExpr writtenInteger .str l), .infixOp (.compare op.comparator),
      .operand (operandExpr writtenInteger .str r)]
  | c => [.operand (predicateExpr writtenInteger .str c)]

def predicateTokens : Component → List (Token Literal)
  | .connection l op r => sideTokens l ++ .infixOp (.logic op.connective) :: sideTokens r
  | c => sideTokens c

theorem sideTokens_cases (c : Component) :
    sideTokens c = [.operand (predicateExpr writtenInteger .str c)] ∨
      ∃ a op b, sideTokens c = [.operand a, .infixOp (.compare op), .operand b] ∧
        predicateExpr writtenInteger .str c = .compare a op b := by
  cases c with
  | comparison l op r => exact .inr ⟨_, _, _, rfl, rfl⟩
  | _ => exact .inl rfl

theorem resolve_sideTokens (c : Component) :
    Token.resolve (sideTokens c) = some (predicateExpr writtenInteger .str c) := by
  obtain h | ⟨a, op, b, h, he⟩ := sideTokens_cases c
  · rw [h]
    rfl
  · rw [h, he]
    rfl

theorem resolve_predicateTokens (c : Component) :
    Token.resolve (predicateTokens c) = some (predicateExpr writtenInteger .str c) := by
  cases c with
  | connection l op r =>
    rw [predicateTokens, predicateExpr]
    obtain hl | ⟨la, lop, lb, hl, hle⟩ := sideTokens_cases l <;>
      obtain hr | ⟨ra, rop, rb, hr, hre⟩ := sideTokens_cases r <;>
      cases op <;>
      simp [Token.resolve, Token.fold, Token.extend, Infix.power, Infix.apply, LogicOp.connective, *]
  | comparison l op r => exact resolve_sideTokens (.comparison l op r)
  | _ => rfl

theorem side_chain (h : ∀ m, openings c.text ≤ m → Chain (levels m) c.text.toList (predicateTokens c))
    (hn : openings (sideText c c.text) ≤ n) :
    Chain (levels n) (sideText c c.text).toList (sideTokens c) := by
  by_cases hk : c.kind = .connection
  · have htext : sideText c c.text = "(" ++ c.text ++ ")" := by simp [sideText, hk]
    have htokens : sideTokens c = [.operand (predicateExpr writtenInteger .str c)] := by
      obtain ⟨l, op, r, rfl⟩ := (kind_eq_connection c).1 hk
      rfl
    rw [htext] at hn ⊢
    rw [htokens]
    cases n with
    | zero => simp [openings] at hn
    | succ n =>
      have := h n (by simp [openings] at hn ⊢; omega)
      simpa using ((this.phrase (resolve_predicateTokens c)).parenthesized).chain
  · have htext : sideText c c.text = c.text := by simp [sideText, hk]
    have htokens : sideTokens c = predicateTokens c := by
      cases c with
      | connection l op r => exact absurd ((kind_eq_connection _).2 ⟨l, op, r, rfl⟩) hk
      | _ => rfl
    rw [htext] at hn ⊢
    rw [htokens]
    exact h n hn

theorem text_comparator (op : CompareOp) : (Infix.compare op.comparator).text = op.text := by
  cases op <;> rfl

theorem text_connective (op : LogicOp) : (Infix.logic op.connective).text = op.text := by
  cases op <;> rfl

theorem predicate_chain {n : Nat} (h : c.IsPredicate (· ≠ [])) (hn : openings c.text ≤ n) :
    Chain (levels n) c.text.toList (predicateTokens c) := by
  induction c using predicateExpr.induct generalizing n with
  | case1 l op r =>
    rw [text] at hn ⊢
    simp only [openings, String.toList_append, List.count_append] at hn
    have hl : Operand (levels n) l.text.toList (operandExpr writtenInteger .str l) :=
      operand_reads h.1 (by simp only [openings]; omega)
    have hr : Operand (levels n) r.text.toList (operandExpr writtenInteger .str r) :=
      operand_reads h.2 (by simp only [openings]; omega)
    simpa [text_comparator, predicateTokens, sideTokens] using hl.chain.append (.compare op.comparator) hr.chain
  | case2 l op r ihl ihr =>
    rw [text] at hn ⊢
    simp only [openings, String.toList_append, List.count_append] at hn
    have hl := side_chain (fun m hm => ihl h.1 hm) (n := n) (by simp only [openings]; omega)
    have hr := side_chain (fun m hm => ihr h.2 hm) (n := n) (by simp only [openings]; omega)
    simpa [text_connective, predicateTokens] using hl.append (.logic op.connective) hr
  | case3 c hcompare hconnect =>
    have hoperand : c.IsOperand (· ≠ []) := by
      rwa [IsPredicate] at h
      · exact hcompare
      · exact hconnect
    have htokens : predicateTokens c = [.operand (operandExpr writtenInteger .str c)] := by
      cases c with
      | comparison l op r => exact (hcompare l op r rfl).elim
      | connection l op r => exact (hconnect l op r rfl).elim
      | _ => rfl
    rw [htokens]
    exact (operand_reads hoperand hn).chain

theorem predicate_phrase (h : c.IsPredicate (· ≠ [])) (hn : openings c.text ≤ n) :
    Phrase Stops (expr (levels n)) c.text.toList (predicateExpr writtenInteger .str c) :=
  (predicate_chain h hn).phrase (resolve_predicateTokens c)

end Predicates

end QuerySearch.Sql
