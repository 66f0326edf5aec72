import QuerySearch.Proofs.Sql.Operands

/-! Reading the parts of a statement from texts of their parts: names and calls, clauses that may be
absent, joins, and queries inside queries. -/

namespace QuerySearch.Sql

open QuerySearch.Sql.Parser

section Names

variable {inside : Inside} {t q u rest : List Char} {s a name : String} {ws : List ClosingWord}

theorem NameText.column (h : NameText t s) : Operand inside t (.column ⟨none, s⟩) := by
  refine ⟨h.front, fun rest hb => ?_⟩
  have hname := h.identifier rest (.breaks hb)
  have hcolumn : columnRef (t ++ rest) = some (⟨none, s⟩, afterBlanks rest) := by
    rw [columnRef, bind_of_some hname, skip_bind, bind_of_some (optional_of_none (bind_of_none hb.not_dot _))]
    rfl
  exact primary_of_column (call_of_name hname hb.not_opening) (h.no_literal rest hb.apart)
    ⟨_, hcolumn, afterBlanks_afterBlanks rest, afterBlanks_length_le rest⟩

theorem NameText.qualified (hq : NameText q a) (h : NameText t s) :
    Operand inside (q ++ '.' :: t) (.column ⟨some a, s⟩) := by
  refine ⟨hq.front.append rfl, fun rest hb => ?_⟩
  have hqualifier := hq.identifier _ (.dot (t ++ rest))
  have hdot : (do symbol "."; skip; Sql.identifier : Parser _) ('.' :: (t ++ rest)) = some (s, rest) := by
    have (cs : List Char) : symbol "." ('.' :: cs) = some ((), cs) := rfl
    rw [bind_of_some (this _), skip_bind, h.front.solid, h.identifier rest (.breaks hb)]
  have hblank (cs : List Char) : afterBlanks ('.' :: cs) = '.' :: cs := rfl
  have hcolumn : columnRef (q ++ '.' :: (t ++ rest)) = some (⟨some a, s⟩, rest) := by
    rw [columnRef, bind_of_some hqualifier, skip_bind, hblank, bind_of_some (optional_of_some hdot)]
    rfl
  rw [List.append_assoc, List.cons_append]
  exact primary_of_column (call_of_name hqualifier rfl) (hq.no_literal _ rfl) (.of_eq hcolumn)

def WindowText (inside : Inside) (t : List Char) (window : Option (Window Literal)) : Prop :=
  ∀ rest, Breaks rest → Takes (optional (windowClause inside)) (afterBlanks (t ++ rest)) window rest

theorem WindowText.empty (inside : Inside) : WindowText inside [] none := fun rest hb =>
  ⟨_, optional_of_none (hb.not_over inside), afterBlanks_afterBlanks rest, afterBlanks_length_le rest⟩

theorem NameText.call {given : Option (Option (List (Expr Literal)))} {window : Option (Window Literal)}
    (h : NameText t name) (isDistinct : Bool) (hargs : Arguments inside u given) {v : List Char}
    (hwindow : WindowText inside v window) :
    Operand inside (t ++ '(' :: (distinctWord isDistinct ++ (u ++ ')' :: v)))
      (.call name isDistinct (given.getD (some [])).isNone ((given.getD (some [])).getD []) window) := by
  refine ⟨h.front.append rfl, fun rest hb => primary_of_call ?_⟩
  have := hargs.call (fun cs => h.identifier _ (.opening cs)) isDistinct (hwindow rest hb)
  simpa using this

def aliasLetters : Option (List Char) → List Char
  | none => []
  | some t => ' ' :: 'A' :: 'S' :: ' ' :: t

theorem apart_aliasLetters (u : Option (List Char)) : Apart (aliasLetters u) := by
  cases u <;> rfl

theorem no_aliasName (has : .asName ∉ ws) (h : Follows ws rest) : aliasName (afterBlanks rest) = none := by
  cases h with
  | comma cs => rfl
  | closes h =>
    apply h.fails rfl (fun _ => rfl)
    intro w hw cs hcs
    have hkeyword : keyword "as" (w.letters ++ cs) = none :=
      keyword_letters_of_ne (w := .asName) (fun heq => has (heq ▸ hw)) hcs
    rw [aliasName, bind_of_some (optional_of_none hkeyword), skip_bind, w.solid, identifier_letters w hcs]

theorem aliasLetters_takes {u : Option (List Char)} {a : Option String} (h : Option.Rel NameText u a)
    (has : .asName ∉ ws) (hrest : Follows ws rest) : Stops (aliasLetters u ++ rest) ∧
      Takes (optional aliasName) (afterBlanks (aliasLetters u ++ rest)) a rest := by
  cases h with
  | none =>
    exact ⟨hrest.stops, _, optional_of_none (no_aliasName has hrest), afterBlanks_afterBlanks rest,
      afterBlanks_length_le rest⟩
  | @some t s h =>
    have hkeyword (cs : List Char) : (optional (keyword "as")) ('A' :: 'S' :: ' ' :: cs) =
        some (some (), ' ' :: cs) := rfl
    have hblank (cs : List Char) : afterBlanks (' ' :: 'A' :: cs) = 'A' :: cs := rfl
    refine ⟨.word .asName rfl, .of_eq (optional_of_some ?_)⟩
    simp only [aliasLetters, List.cons_append]
    rw [hblank, aliasName, bind_of_some (hkeyword _), skip_bind, h.front.solid.afterBlank,
      h.identifier rest hrest.stops.behindName]

theorem Phrase.item {e : Expr Literal} {v : Option (List Char)} {asName : Option String}
    (h : Phrase Stops (expr inside) t e) (halias : Option.Rel NameText v asName) (has : .asName ∉ ws) :
    Phrase (Follows ws) (selectItem inside) (t ++ aliasLetters v) (.expr e asName) := by
  refine ⟨h.front.append (apart_aliasLetters v), fun rest hrest => ?_⟩
  obtain ⟨hstops, r, hname, hr, hlen⟩ := aliasLetters_takes halias has hrest
  refine ⟨r, ?_, hr, hlen⟩
  have hstar := h.no_star .finish rfl fun _ => rfl
  rw [List.append_assoc, selectItem, orElse_of_none (bind_of_none (hstar _) _),
    (h.takes _ hstops).bind_skip, bind_of_some hname]
  rfl

end Names

structure ClauseText {β : Type} (w : ClosingWord) (ws : List ClosingWord) (p : Parser β) (t : List Char)
    (x : Option β) : Prop where
  closes : ∀ rest, Closes ws rest → Closes (w :: ws) (t ++ rest)
  takes : ∀ rest, Closes ws rest → Takes (optional p) (afterBlanks (t ++ rest)) x rest

section Clauses

variable {β : Type} {w : ClosingWord} {ws : List ClosingWord} {p : Parser β} {t rest : List Char} {x : β}

theorem ClauseText.absent (hw : w ∉ ws) : ClauseText w ws (do keyword w.name; skip; p) [] none where
  closes _ hrest := hrest.mono (List.subset_cons_self w ws)
  takes rest hrest := ⟨_, optional_of_none (bind_of_none (hrest.not_keyword hw) _),
    afterBlanks_afterBlanks rest, afterBlanks_length_le rest⟩

theorem Phrase.clause (h : Phrase (Closes ws) p t x) (w : ClosingWord) :
    ClauseText w ws (do keyword w.name; skip; p) (' ' :: (w.letters ++ ' ' :: t)) (some x) where
  closes rest _ := by
    rw [List.cons_append, List.append_assoc]
    exact .word (.head ws) rfl
  takes rest hrest := by
    obtain ⟨r, hp, hr, hlen⟩ := h.takes rest hrest
    refine ⟨r, optional_of_some ?_, hr, hlen⟩
    rw [List.cons_append, List.append_assoc, List.cons_append, w.solid.afterBlank,
      bind_of_some (keyword_letters w (apart_blank (t ++ rest))), skip_bind, h.front.solid.afterBlank, hp]

theorem Phrase.by (h : Phrase (Closes ws) p t x) :
    Phrase (Closes ws) (do keyword "by"; skip; p) ('B' :: 'Y' :: ' ' :: t) x := by
  refine ⟨⟨fun _ => rfl, fun _ _ => rfl, fun _ _ => rfl⟩, fun rest hrest => ?_⟩
  obtain ⟨r, hp, hr, hlen⟩ := h.takes rest hrest
  have hword (cs : List Char) : keyword "by" ('B' :: 'Y' :: ' ' :: cs) = some ((), ' ' :: cs) := rfl
  refine ⟨r, ?_, hr, hlen⟩
  simp only [List.cons_append]
  rw [bind_of_some (hword _), skip_bind, h.front.solid.afterBlank, hp]

def directionLetters (descending : Bool) : List Char :=
  if descending then ['D', 'E', 'S', 'C'] else ['A', 'S', 'C']

theorem direction_takes (descending : Bool) (hs : Stops rest) :
    (optional ((do keyword "asc"; return false) <|> (do keyword "desc"; return true)) : Parser _)
      (directionLetters descending ++ rest) = some (some descending, rest) := by
  apply optional_of_some
  cases descending with
  | false =>
    apply orElse_of_some
    exact bind_of_some (keyword_letters .asc hs.apart) _
  | true =>
    apply Eq.trans (orElse_of_none _)
    · exact bind_of_some (keyword_letters .desc hs.apart) _
    · rfl

theorem Phrase.sortKey {e : Expr Literal} {p : Parser (Expr Literal)} (h : Phrase Stops p t e)
    (descending : Bool) :
    Phrase Stops (Sql.sortKey p) (t ++ ' ' :: directionLetters descending) ⟨e, descending⟩ := by
  refine ⟨h.front.append rfl, fun rest hs => .of_eq ?_⟩
  have hsolid : Solid (directionLetters descending) := by
    cases descending <;> exact fun _ => rfl
  have hstops : Stops (' ' :: (directionLetters descending ++ rest)) := by
    cases descending with
    | false => exact .word .asc hs.apart
    | true => exact .word .desc hs.apart
  rw [List.append_assoc, List.cons_append, Sql.sortKey, (h.takes _ hstops).bind_skip, hsolid.afterBlank,
    bind_of_some (direction_takes descending hs)]
  rfl

theorem windowText {inside : Inside} {t u : List Char} {partitions : Option (List (Expr Literal))}
    {keys : Option (List (SortKey Literal))}
    (hpartitions : ClauseText .partition [.order] (clauseBy "partition" (Parser.commaSeparated inside.expr)) t
      partitions)
    (hkeys : ClauseText .order [] (clauseBy "order" (Parser.commaSeparated (Sql.sortKey inside.expr))) u keys)
    (hblank : (t ++ u).head?.all (· == ' ')) :
    WindowText inside (' ' :: 'O' :: 'V' :: 'E' :: 'R' :: ' ' :: '(' :: ((t ++ u).drop 1 ++ [')']))
      (some ⟨partitions.getD [], keys.getD []⟩) := by
  intro rest _
  have hover (cs : List Char) : keyword "over" (afterBlanks (' ' :: 'O' :: 'V' :: 'E' :: 'R' :: ' ' :: cs)) =
      some ((), ' ' :: cs) := rfl
  have hopen (cs : List Char) : symbol "(" (afterBlanks (' ' :: '(' :: cs)) = some ((), cs) := rfl
  have hclose (cs : List Char) : symbol ")" (afterBlanks (')' :: cs)) = some ((), cs) := rfl
  have hdrop (cs : List Char) : afterBlanks ((t ++ u).drop 1 ++ cs) = afterBlanks (t ++ (u ++ cs)) := by
    rw [← List.append_assoc]
    cases h : t ++ u with
    | nil => rfl
    | cons c v =>
      obtain rfl : c = ' ' := by simpa [h] using hblank
      rfl
  have hbehind := hkeys.closes (')' :: rest) (.close rest)
  apply Takes.of_eq
  apply optional_of_some
  simp only [List.cons_append, List.append_assoc, List.nil_append]
  rw [windowClause, bind_of_some (hover _), skip_bind, bind_of_some (hopen _), skip_bind, hdrop,
    (hpartitions.takes _ hbehind).bind_skip, (hkeys.takes _ (.close rest)).bind_skip, bind_of_some (hclose _)]
  rfl

end Clauses

section Parentheses

variable {n : Nat} {t : List Char} {ts : List (Token Literal)} {e : Expr Literal}

theorem Phrase.parenthesized (h : Phrase Stops (expr (levels n)) t e) :
    Operand (levels (n + 1)) ('(' :: (t ++ [')'])) e := by
  refine ⟨front_opening _, fun rest hb => ?_⟩
  have hopen (cs : List Char) : symbol "(" ('(' :: cs) = some ((), cs) := rfl
  have hclose (cs : List Char) : symbol ")" (afterBlanks (')' :: cs)) = some ((), cs) := rfl
  have hselect : Sql.parenthesized (levels (n + 1)).select ('(' :: (t ++ ')' :: rest)) = none := by
    have hlevel : (levels (n + 1)).select = select (levels n) := rfl
    rw [Sql.parenthesized, bind_of_some (hopen _), skip_bind, h.front.solid, hlevel]
    exact bind_of_none (bind_of_none (h.front.no_select _ (apart_close rest)) _) _
  have hread : Sql.parenthesized (levels (n + 1)).expr ('(' :: (t ++ ')' :: rest)) = some (e, rest) := by
    have hlevel : (levels (n + 1)).expr = expr (levels n) := rfl
    rw [Sql.parenthesized, bind_of_some (hopen _), skip_bind, h.front.solid, hlevel,
      (h.takes _ (.close rest)).bind_skip, bind_of_some (hclose _)]
    rfl
  have htext : '(' :: (t ++ [')']) ++ rest = '(' :: (t ++ ')' :: rest) := by simp
  apply Takes.of_eq
  rw [htext, primary, choice_of_none rfl, choice_of_none rfl, choice_of_none rfl,
    choice_of_none (bind_of_none hselect _)]
  exact choice_of_some hread

end Parentheses

def clauseWords : List ClosingWord := [.filter, .group, .having, .order]

def joinWords : List ClosingWord := .inner :: .left :: .right :: .full :: clauseWords

structure Single (inside : Inside) (t : List Char) (ref : TableRef Literal) : Prop where
  front : Front t
  takes : ∀ rest, Follows (.on :: joinWords) rest → Takes (tablePrimary inside) (t ++ rest) ref rest

structure Joined (inside : Inside) (t : List Char) (ref : TableRef Literal) : Prop where
  front : Front t
  reads : ∀ rest, Follows joinWords rest → ∃ first mid joins r,
    tablePrimary inside (t ++ rest) = some (first, mid) ∧
      Run (do skip; joinPart inside) mid joins r ∧ afterBlanks r = afterBlanks rest ∧
      r.length ≤ rest.length ∧ joins.foldl (fun left join => join left) first = ref

section Joins

variable {inside : Inside} {t u v rest : List Char} {ref left right : TableRef Literal} {n : Nat}
  {on : Option (Expr Literal)} {ws ws' : List ClosingWord}

theorem Follows.mono (h : Follows ws rest) (hsub : ws ⊆ ws') : Follows ws' rest := by
  cases h with
  | comma cs => exact .comma cs
  | closes h => exact .closes (h.mono hsub)

theorem Single.joined (h : Single inside t ref) : Joined inside t ref := by
  refine ⟨h.front, fun rest hrest => ?_⟩
  obtain ⟨r, hp, hr, hlen⟩ := h.takes rest (hrest.mono (List.subset_cons_self _ _))
  exact ⟨ref, r, [], r, hp, .nil, hr, hlen, rfl⟩

theorem clauseWords_subset : clauseWords ⊆ joinWords := by decide

theorem Follows.not_join (h : Follows clauseWords rest) (inside : Inside) :
    joinPart inside (afterBlanks rest) = none := by
  cases h with
  | comma cs => rfl
  | closes h =>
    apply h.fails rfl (fun _ => rfl)
    simp only [clauseWords, List.mem_cons, List.not_mem_nil, or_false]
    rintro w (rfl | rfl | rfl | rfl) cs _ <;> rfl

theorem Joined.phrase (h : Joined inside t ref) : Phrase (Follows clauseWords) (tableRef inside) t ref := by
  refine ⟨h.front, fun rest hrest => ?_⟩
  obtain ⟨first, mid, joins, r, hfirst, hrun, hr, hlen, href⟩ := h.reads rest (hrest.mono clauseWords_subset)
  obtain ⟨r', hjoins, hr', hlen'⟩ := spaced_takes hrun (hrest.not_join inside) hr hlen
  refine ⟨r', ?_, hr', hlen'⟩
  rw [Sql.tableRef, bind_of_some hfirst, skip_bind, bind_of_some hjoins, href]
  rfl

theorem Joined.parenthesized (h : Joined (levels n) t ref) :
    Single (levels (n + 1)) ('(' :: (t ++ [')'])) ref := by
  refine ⟨(front_opening _).toFront, fun rest _ => .of_eq ?_⟩
  have hopen (cs : List Char) : symbol "(" ('(' :: cs) = some ((), cs) := rfl
  have hclose (cs : List Char) : symbol ")" (afterBlanks (')' :: cs)) = some ((), cs) := rfl
  have hselect : Sql.parenthesized (levels (n + 1)).select ('(' :: (t ++ ')' :: rest)) = none := by
    have hlevel : (levels (n + 1)).select = select (levels n) := rfl
    rw [Sql.parenthesized, bind_of_some (hopen _), skip_bind, h.front.solid, hlevel]
    exact bind_of_none (bind_of_none (h.front.no_select _ (apart_close rest)) _) _
  have hread : Sql.parenthesized (levels (n + 1)).source ('(' :: (t ++ ')' :: rest)) =
      some (ref, rest) := by
    have hlevel : (levels (n + 1)).source = Sql.tableRef (levels n) := rfl
    rw [Sql.parenthesized, bind_of_some (hopen _), skip_bind, h.front.solid, hlevel,
      (h.phrase.takes _ (.closes (.close rest))).bind_skip, bind_of_some (hclose _)]
    rfl
  have htext : '(' :: (t ++ [')']) ++ rest = '(' :: (t ++ ')' :: rest) := by simp
  rw [htext, tablePrimary, choice_of_none (bind_of_none hselect _), choice_of_none rfl]
  exact choice_of_some hread

def joinLetters : JoinKind → List Char
  | .inner => ['I', 'N', 'N', 'E', 'R', ' ', 'J', 'O', 'I', 'N']
  | .left => ['L', 'E', 'F', 'T', ' ', 'J', 'O', 'I', 'N']
  | .right => ['R', 'I', 'G', 'H', 'T', ' ', 'J', 'O', 'I', 'N']
  | .full => ['F', 'U', 'L', 'L', ' ', 'J', 'O', 'I', 'N']

theorem toList_joinKind (kind : JoinKind) : kind.text.toList = joinLetters kind := by
  cases kind <;> simp [JoinKind.text, joinLetters]

theorem joinKind_joinLetters (kind : JoinKind) (cs : List Char) : ∃ k,
    (optional joinKind) (joinLetters kind ++ ' ' :: cs) = some (some kind, k) ∧
      keyword "join" (afterBlanks k) = some ((), ' ' :: cs) := by
  cases kind <;> exact ⟨_, rfl, rfl⟩

theorem solid_joinLetters (kind : JoinKind) : Solid (joinLetters kind) := by
  cases kind <;> exact fun _ => rfl

theorem follows_joinLetters (kind : JoinKind) (cs : List Char) :
    Follows joinWords (' ' :: (joinLetters kind ++ cs)) := by
  cases kind with
  | inner => exact .closes (.word (w := .inner) (by simp [joinWords]) rfl)
  | left => exact .closes (.word (w := .left) (by simp [joinWords]) rfl)
  | right => exact .closes (.word (w := .right) (by simp [joinWords]) rfl)
  | full => exact .closes (.word (w := .full) (by simp [joinWords]) rfl)

structure OnText (inside : Inside) (t : List Char) (on : Option (Expr Literal)) : Prop where
  follows : ∀ rest, Follows joinWords rest → Follows (.on :: joinWords) (t ++ rest)
  takes : ∀ rest, Follows joinWords rest →
    Takes (optional do keyword "on"; skip; expr inside) (afterBlanks (t ++ rest)) on rest

theorem OnText.absent (inside : Inside) : OnText inside [] none where
  follows rest hrest := hrest.mono (List.subset_cons_self _ _)
  takes rest hrest := by
    refine ⟨_, optional_of_none (bind_of_none ?_ _), afterBlanks_afterBlanks rest, afterBlanks_length_le rest⟩
    cases hrest with
    | comma cs => rfl
    | closes h => exact h.not_keyword (w := .on) (by decide)

theorem Phrase.onText {e : Expr Literal} (h : Phrase Stops (expr inside) t e) :
    OnText inside (' ' :: 'O' :: 'N' :: ' ' :: t) (some e) where
  follows rest _ := .closes (.word (w := .on) (.head _) rfl)
  takes rest hrest := by
    obtain ⟨r, hp, hr, hlen⟩ := h.takes rest hrest.stops
    have hword (cs : List Char) : keyword "on" (afterBlanks (' ' :: 'O' :: 'N' :: ' ' :: cs)) =
        some ((), ' ' :: cs) := rfl
    refine ⟨r, optional_of_some ?_, hr, hlen⟩
    simp only [List.cons_append]
    rw [bind_of_some (hword _), skip_bind, h.front.solid.afterBlank, hp]

theorem joinPart_takes (kind : JoinKind) (hright : Single inside u right) (hon : OnText inside v on)
    (hrest : Follows joinWords rest) :
    Takes (joinPart inside) (joinLetters kind ++ ' ' :: (u ++ (v ++ rest)))
      (fun left => .join left right kind on) rest := by
  obtain ⟨k, hkind, hjoin⟩ := joinKind_joinLetters kind (u ++ (v ++ rest))
  obtain ⟨r, hp, hr, hlen⟩ := hon.takes rest hrest
  refine ⟨r, ?_, hr, hlen⟩
  rw [joinPart, bind_of_some hkind, skip_bind, bind_of_some hjoin, skip_bind, hright.front.solid.afterBlank,
    (hright.takes _ (hon.follows rest hrest)).bind_skip, bind_of_some hp]
  rfl

theorem Joined.append (h : Joined inside t left) (kind : JoinKind) (hright : Single inside u right)
    (hon : OnText inside v on) :
    Joined inside (t ++ ' ' :: (joinLetters kind ++ ' ' :: (u ++ v))) (.join left right kind on) := by
  refine ⟨h.front.append rfl, fun rest hrest => ?_⟩
  obtain ⟨r', hjoin, hr', hlen'⟩ := joinPart_takes kind hright hon hrest
  obtain ⟨first, mid, joins, r, hfirst, hrun, hr, hlen, href⟩ := h.reads
    (' ' :: (joinLetters kind ++ ' ' :: (u ++ (v ++ rest)))) (follows_joinLetters kind _)
  rw [(solid_joinLetters kind).afterBlank] at hr
  refine ⟨first, mid, joins ++ [fun left => .join left right kind on], r', ?_, ?_, hr', hlen', ?_⟩
  · simpa using hfirst
  · apply hrun.append
    apply Run.cons _ _ .nil
    · rw [skip_bind, hr, hjoin]
    · have := afterBlanks_length_le r
      simp [hr] at *
      omega
  · simp [href]

theorem NameText.single {s : String} {a : Option (List Char)} {asName : Option String} (h : NameText t s)
    (halias : Option.Rel NameText a asName) : Single inside (t ++ aliasLetters a) (.table s asName) := by
  refine ⟨h.front.toFront.append (apart_aliasLetters a), fun rest hrest => ?_⟩
  obtain ⟨hstops, r, hname, hr, hlen⟩ := aliasLetters_takes halias (by decide) hrest
  have hselect (cs : List Char) : Sql.parenthesized inside.select (t ++ cs) = none :=
    bind_of_none (h.no_opening cs) _
  refine ⟨r, ?_, hr, hlen⟩
  rw [List.append_assoc, tablePrimary, choice_of_none (bind_of_none (hselect _) _)]
  apply choice_of_some
  rw [bind_of_some (h.identifier _ hstops.behindName), skip_bind, bind_of_some hname]
  rfl

end Joins

structure QueryText (inside : Inside) (t : List Char) (q : Select Literal) : Prop where
  solid : Solid t
  takes : ∀ rest, Closes [] rest → Takes (select inside) (t ++ rest) q rest

section Queries

variable {inside : Inside} {n : Nat} {q : Select Literal} {t : List Char}

theorem queryText {items : List (SelectItem Literal)} {sources : Option (List (TableRef Literal))}
    {filter having : Option (Expr Literal)} {groups : Option (List (Expr Literal))}
    {keys : Option (List (SortKey Literal))} {tItems tSources tFilter tGroups tHaving tKeys : List Char}
    (isDistinct : Bool)
    (hitems : Phrase (Closes (.source :: clauseWords)) (Parser.commaSeparated (selectItem inside)) tItems items)
    (hsources : ClauseText .source clauseWords
      (do keyword "from"; skip; Parser.commaSeparated (tableRef inside)) tSources sources)
    (hfilter : ClauseText .filter [.group, .having, .order] (do keyword "where"; skip; expr inside) tFilter
      filter)
    (hgroups : ClauseText .group [.having, .order] (clauseBy "group" (Parser.commaSeparated (expr inside)))
      tGroups groups)
    (hhaving : ClauseText .having [.order] (do keyword "having"; skip; expr inside) tHaving having)
    (hkeys : ClauseText .order [] (clauseBy "order" (Parser.commaSeparated (sortKey (expr inside)))) tKeys
      keys) :
    QueryText inside ('S' :: 'E' :: 'L' :: 'E' :: 'C' :: 'T' :: ' ' :: (distinctWord isDistinct ++
        (tItems ++ (tSources ++ (tFilter ++ (tGroups ++ (tHaving ++ tKeys)))))))
      ⟨isDistinct, items, sources.getD [], filter, groups.getD [], having, keys.getD []⟩ := by
  refine ⟨.cons rfl (by decide) _, fun rest hrest => ?_⟩
  -- The text behind each clause.
  have hbehindHaving := hkeys.closes rest hrest
  have hbehindGroups := hhaving.closes _ hbehindHaving
  have hbehindFilter := hgroups.closes _ hbehindGroups
  have hbehindSources := hfilter.closes _ hbehindFilter
  have hbehindItems := hsources.closes _ hbehindSources
  have hselect (cs : List Char) : keyword "select" ('S' :: 'E' :: 'L' :: 'E' :: 'C' :: 'T' :: ' ' :: cs) =
      some ((), ' ' :: cs) := rfl
  have hblank (cs : List Char) : afterBlanks (' ' :: cs) = afterBlanks cs := rfl
  obtain ⟨mid, hdistinct, hmid⟩ := reads_distinct isDistinct (hitems.front.solid _)
    (hitems.front.no_distinct _ hbehindItems.stops.apart)
  obtain ⟨r, hread, hr, hlen⟩ := hkeys.takes rest hrest
  refine ⟨r, ?_, hr, hlen⟩
  simp only [List.cons_append, List.append_assoc]
  rw [select, bind_of_some (hselect _), skip_bind, hblank, bind_of_some hdistinct, skip_bind, hmid,
    (hitems.takes _ hbehindItems).bind_skip, (hsources.takes _ hbehindSources).bind_skip,
    (hfilter.takes _ hbehindFilter).bind_skip, (hgroups.takes _ hbehindGroups).bind_skip,
    (hhaving.takes _ hbehindHaving).bind_skip, bind_of_some hread]
  rfl

theorem QueryText.parenthesized (h : QueryText (levels n) t q) (rest : List Char) :
    Sql.parenthesized (levels (n + 1)).select ('(' :: (t ++ ')' :: rest)) = some (q, rest) := by
  have hopen (cs : List Char) : symbol "(" ('(' :: cs) = some ((), cs) := rfl
  have hclose (cs : List Char) : symbol ")" (afterBlanks (')' :: cs)) = some ((), cs) := rfl
  have hlevel : (levels (n + 1)).select = select (levels n) := rfl
  rw [Sql.parenthesized, bind_of_some (hopen _), skip_bind, h.solid, hlevel,
    (h.takes _ (.close rest)).bind_skip, bind_of_some (hclose _)]
  rfl

theorem QueryText.operand (h : QueryText (levels n) t q) :
    Operand (levels (n + 1)) ('(' :: (t ++ [')'])) (.subquery q) := by
  refine ⟨front_opening _, fun rest _ => .of_eq ?_⟩
  have htext : '(' :: (t ++ [')']) ++ rest = '(' :: (t ++ ')' :: rest) := by simp
  rw [htext, primary, choice_of_none rfl, choice_of_none rfl, choice_of_none rfl]
  apply choice_of_some
  rw [bind_of_some (h.parenthesized rest)]
  rfl

theorem QueryText.single {a : Option (List Char)} {asName : Option String} (h : QueryText (levels n) t q)
    (halias : Option.Rel NameText a asName) :
    Single (levels (n + 1)) ('(' :: (t ++ ')' :: aliasLetters a)) (.query q asName) := by
  refine ⟨(front_opening _).toFront, fun rest hrest => ?_⟩
  obtain ⟨-, r, hname, hr, hlen⟩ := aliasLetters_takes halias (by decide) hrest
  refine ⟨r, ?_, hr, hlen⟩
  rw [tablePrimary]
  apply choice_of_some
  simp only [List.cons_append, List.append_assoc]
  rw [bind_of_some (h.parenthesized _), skip_bind, bind_of_some hname]
  rfl

theorem QueryText.whole {s : String} (h : QueryText (levels (s.toList.count '(')) s.toList q) :
    selectStatement.whole s = some q := by
  have hstart : afterBlanks s.toList = s.toList := by simpa using h.solid []
  have hselect : withLevels select s.toList = select (levels (s.toList.count '(')) s.toList := rfl
  obtain ⟨r, hr, hblank, hlen⟩ := h.takes [] .finish
  have hempty : r = [] := List.length_eq_zero_iff.1 (Nat.le_zero.1 hlen)
  subst hempty
  rw [List.append_nil] at hr
  have hstatement : selectStatement s.toList = some (q, []) := by
    rw [selectStatement, Sql.statement, skip_bind, hstart, bind_of_some (hselect.trans hr)]
    rfl
  rw [Parser.whole, bind_of_some hstatement]
  rfl

end Queries

end QuerySearch.Sql
