import Mathlib.Data.List.Forall2
import QuerySearch.Proofs.Sql.Words

/-! Reading operands, chains of operands with operators between them, and lists. -/

namespace QuerySearch.Sql

open QuerySearch.Sql.Parser

structure Front (t : List Char) : Prop where
  solid : Solid t
  no_distinct : ∀ cs, Apart cs → keyword "distinct" (t ++ cs) = none
  no_select : ∀ cs, Apart cs → keyword "select" (t ++ cs) = none

structure OperandFront (t : List Char) : Prop extends Front t where
  no_not : ∀ cs, Apart cs → keyword "not" (t ++ cs) = none

section Fronts

variable {t u : List Char}

theorem Front.append (h : Front t) (hu : Apart u) : Front (t ++ u) where
  solid := h.solid.append u
  no_distinct cs hcs := by simpa using h.no_distinct (u ++ cs) (hu.append hcs)
  no_select cs hcs := by simpa using h.no_select (u ++ cs) (hu.append hcs)

theorem OperandFront.append (h : OperandFront t) (hu : Apart u) : OperandFront (t ++ u) where
  toFront := h.toFront.append hu
  no_not cs hcs := by simpa using h.no_not (u ++ cs) (hu.append hcs)

theorem front_quoteName {s : String} (h : PlainName s) : OperandFront (quoteName s).toList := by
  rw [toList_quoteName h]
  exact ⟨⟨.cons rfl (by decide) _, fun _ _ => rfl, fun _ _ => rfl⟩, fun _ _ => rfl⟩

theorem front_opening (t : List Char) : OperandFront ('(' :: t) :=
  ⟨⟨.cons rfl (by decide) _, fun _ _ => rfl, fun _ _ => rfl⟩, fun _ _ => rfl⟩

end Fronts

inductive BehindName : List Char → Prop
  | breaks {cs : List Char} (h : Breaks cs) : BehindName cs
  | dot (cs : List Char) : BehindName ('.' :: cs)
  | opening (cs : List Char) : BehindName ('(' :: cs)

theorem Stops.behindName {cs : List Char} (h : Stops cs) : BehindName cs := .breaks (.ends (.stop h))

structure NameText (t : List Char) (s : String) : Prop where
  front : OperandFront t
  identifier : ∀ rest, BehindName rest → identifier (t ++ rest) = some (s, rest)
  no_literal : ∀ rest, Apart rest → literal (t ++ rest) = none
  no_opening : ∀ rest, symbol "(" (t ++ rest) = none

section Names

variable {s : String} {t q : List Char} {rest : List Char}

theorem nameText_quoteName (h : PlainName s) : NameText (quoteName s).toList s where
  front := front_quoteName h
  identifier rest _ := identifier_quoteName h rest
  no_literal rest _ := by rw [toList_quoteName h]; rfl
  no_opening rest := by rw [toList_quoteName h]; rfl

end Names

structure Phrase {α : Type} (Behind : List Char → Prop) (p : Parser α) (t : List Char) (a : α) : Prop where
  front : Front t
  takes : ∀ rest, Behind rest → Takes p (t ++ rest) a rest

theorem Phrase.no_star {α : Type} {Behind : List Char → Prop} {p : Parser α} {t : List Char} {a : α}
    (h : Phrase Behind p t a) (hbehind : Behind []) (hend : p [] = none) (hstar : ∀ cs, p ('*' :: cs) = none)
    (cs : List Char) : symbol "*" (t ++ cs) = none := by
  obtain ⟨r, hp, -⟩ := h.takes [] hbehind
  rw [List.append_nil] at hp
  cases t with
  | nil => cases hend.symm.trans hp
  | cons c t =>
    refine exactly_of_ne fun hc => ?_
    subst hc
    cases (hstar t).symm.trans hp

structure Operand (inside : Inside) (t : List Char) (e : Expr Literal) : Prop where
  front : OperandFront t
  takes : ∀ rest, Breaks rest → Takes (primary inside) (t ++ rest) e rest

def operation (inside : Inside) : Parser (List (Token Literal)) := do
  let op ← infixOp
  skip
  return .infixOp op :: (← term inside)

structure Chain (inside : Inside) (t : List Char) (ts : List (Token Literal)) : Prop where
  front : Front t
  reads : ∀ rest, Ends rest → ∃ first mid others r,
    term inside (t ++ rest) = some (first, mid) ∧ mid.length ≤ (t ++ rest).length ∧
      Run (do skip; operation inside) mid others r ∧ afterBlanks r = afterBlanks rest ∧
      r.length ≤ rest.length ∧ ts = first ++ others.flatten

section Chains

variable {inside : Inside} {t u rest : List Char} {e : Expr Literal} {ts us : List (Token Literal)}

theorem Chain.of_term (hfront : Front t) (h : ∀ rest, Ends rest → Takes (term inside) (t ++ rest) ts rest) :
    Chain inside t ts := by
  refine ⟨hfront, fun rest hb => ?_⟩
  obtain ⟨mid, hterm, hmid, hlen⟩ := h rest hb
  refine ⟨ts, mid, [], mid, hterm, ?_, .nil, hmid, hlen, by simp⟩
  simp
  omega

theorem Operand.term (h : Operand inside t e) (hb : Ends rest) :
    term inside (t ++ rest) = some ([.operand e], afterBlanks rest) := by
  have hnots : spaced (keyword "not") (t ++ rest) = some ([], t ++ rest) :=
    spaced_of_none (h.front.no_not rest hb.apart)
  rw [Sql.term, bind_of_some hnots, skip_bind, h.front.solid, (h.takes rest (.ends hb)).bind_skip,
    bind_of_some (optional_of_none hb.not_nullTest)]
  rfl

theorem Operand.chain (h : Operand inside t e) : Chain inside t [.operand e] :=
  .of_term h.front.toFront fun _ hb =>
    ⟨_, h.term hb, afterBlanks_afterBlanks _, afterBlanks_length_le _⟩

theorem Operand.tested (h : Operand inside t e) (negated : Bool) :
    Chain inside (t ++ ' ' :: nullTestLetters negated) [.operand e, .nullTest negated] := by
  refine .of_term (h.front.toFront.append rfl) fun rest hb => .of_eq ?_
  have hnots : spaced (keyword "not") (t ++ ' ' :: (nullTestLetters negated ++ rest)) =
      some ([], t ++ ' ' :: (nullTestLetters negated ++ rest)) :=
    spaced_of_none (h.front.no_not _ rfl)
  rw [List.append_assoc, List.cons_append, Sql.term, bind_of_some hnots, skip_bind, h.front.solid,
    (h.takes _ (.nullTest negated rest)).bind_skip, (solid_nullTestLetters negated).afterBlank,
    bind_of_some (optional_of_some (isNullSuffix_letters negated hb))]
  rfl

theorem Operand.negated (h : Operand inside t e) :
    Chain inside ('N' :: 'O' :: 'T' :: ' ' :: t) [.not, .operand e] := by
  have hfront : Front ('N' :: 'O' :: 'T' :: ' ' :: t) :=
    ⟨fun _ => rfl, fun _ _ => rfl, fun _ _ => rfl⟩
  refine .of_term hfront fun rest hb => ?_
  have hnot : (do skip; keyword "not" : Parser Unit) ('N' :: 'O' :: 'T' :: ' ' :: (t ++ rest)) =
      some ((), ' ' :: (t ++ rest)) := rfl
  have hnots : Takes (spaced (keyword "not")) ('N' :: 'O' :: 'T' :: ' ' :: (t ++ rest)) [()]
      (' ' :: (t ++ rest)) := by
    change Takes _ (afterBlanks ('N' :: 'O' :: 'T' :: ' ' :: (t ++ rest))) _ _
    refine spaced_takes (.cons hnot (by simp) .nil) ?_ rfl (Nat.le_refl _)
    rw [h.front.solid.afterBlank]
    exact h.front.no_not rest hb.apart
  refine ⟨afterBlanks rest, ?_, afterBlanks_afterBlanks rest, afterBlanks_length_le rest⟩
  simp only [List.cons_append]
  rw [Sql.term, hnots.bind_skip, h.front.solid.afterBlank, (h.takes rest (.ends hb)).bind_skip,
    bind_of_some (optional_of_none hb.not_nullTest)]
  rfl

theorem Chain.append (h : Chain inside t ts) (op : Infix) (h' : Chain inside u us) :
    Chain inside (t ++ ' ' :: (op.text.toList ++ ' ' :: u)) (ts ++ .infixOp op :: us) := by
  refine ⟨h.front.append rfl, fun rest hb => ?_⟩
  obtain ⟨first', mid', others', r', hterm', hlen', hrun', hr', hrest', hus⟩ := h'.reads rest hb
  obtain ⟨first, mid, others, r, hterm, hlen, hrun, hr, hrest, hts⟩ :=
    h.reads _ (Ends.operator op (u ++ rest))
  rw [op.solid.afterBlank] at hr
  have hop : (do skip; operation inside : Parser _) r = some (.infixOp op :: first', mid') := by
    rw [skip_bind, hr, operation, bind_of_some (infixOp_text op _), skip_bind,
      h'.front.solid.afterBlank, bind_of_some hterm']
    rfl
  refine ⟨first, mid, others ++ (.infixOp op :: first') :: others', r', ?_, ?_, ?_, hr', hrest', ?_⟩
  · simpa using hterm
  · simpa using hlen
  · apply hrun.append
    apply Run.cons hop _ hrun'
    have := afterBlanks_length_le r
    simp [hr] at *
    omega
  · simp [hts, hus]

theorem Chain.phrase (h : Chain inside t ts) (he : Token.resolve ts = some e) :
    Phrase Stops (expr inside) t e := by
  refine ⟨h.front, fun rest hs => ?_⟩
  obtain ⟨first, mid, others, r, hterm, _, hrun, hr, hlen, hts⟩ := h.reads rest (.stop hs)
  obtain ⟨r', hothers, hr', hlen'⟩ : Takes (spaced (operation inside)) (afterBlanks mid) others rest := by
    apply spaced_takes hrun _ hr hlen
    exact bind_of_none hs.not_operator _
  have htokens : tokens inside (t ++ rest) = some (ts, r') := by
    change (do
      let first ← term inside
      skip
      let others ← spaced (operation inside)
      return first ++ others.flatten : Parser _) (t ++ rest) = _
    rw [bind_of_some hterm, skip_bind, bind_of_some hothers, hts]
    rfl
  refine ⟨r', ?_, hr', hlen'⟩
  rw [Sql.expr, bind_of_some htokens, he]
  rfl

theorem Operand.phrase (h : Operand inside t e) : Phrase Stops (expr inside) t e :=
  h.chain.phrase rfl

end Chains

section Lists

variable {β : Type} {ws : List ClosingWord} {p : Parser β} {rest : List Char} {t : String}
  {ts : List String} {a : β} {as : List β}

theorem Phrase.imp {Behind Behind' : List Char → Prop} {t : List Char} (h : Phrase Behind p t a)
    (himp : ∀ cs, Behind' cs → Behind cs) : Phrase Behind' p t a :=
  ⟨h.front, fun rest hrest => h.takes rest (himp rest hrest)⟩

def laterTexts (ts : List String) : List Char := ts.flatMap fun t => ',' :: ' ' :: t.toList

theorem toList_commaSeparated (t : String) (ts : List String) :
    (commaSeparated (t :: ts)).toList = t.toList ++ laterTexts ts := by
  induction ts generalizing t with
  | nil => simp [commaSeparated, laterTexts]
  | cons u ts ih =>
    have := ih u
    simp [commaSeparated, laterTexts] at this ⊢
    simp [this]

def openings (s : String) : Nat := s.toList.count '('

theorem openings_append (s t : String) : openings (s ++ t) = openings s + openings t := by
  simp [openings]

theorem openings_le_of_mem {s : String} {ts : List String} (h : s ∈ ts) :
    openings s ≤ openings (commaSeparated ts) := by
  have hcount (ts : List String) (hs : s ∈ ts) : openings s ≤ (laterTexts ts).count '(' := by
    induction ts with
    | nil => cases hs
    | cons t ts ih =>
      simp only [laterTexts, List.flatMap_cons, List.count_append, openings] at ih ⊢
      cases hs with
      | head => simp
      | tail _ hs => have := ih hs; omega
  cases ts with
  | nil => cases h
  | cons t ts =>
    simp only [openings, toList_commaSeparated, List.count_append]
    cases h with
    | head => omega
    | tail _ h => have := hcount ts h; simp only [openings] at this; omega

theorem follows_laterTexts (ts : List String) (hrest : Closes ws rest) :
    Follows ws (laterTexts ts ++ rest) := by
  cases ts with
  | nil => exact .closes hrest
  | cons t ts => exact .comma _

theorem laterTexts_run (h : List.Forall₂ (fun t a => Phrase (Follows ws) p t.toList a) ts as)
    (hrest : Closes ws rest) {mid : List Char}
    (hmid : afterBlanks mid = afterBlanks (laterTexts ts ++ rest))
    (hlen : mid.length ≤ (laterTexts ts ++ rest).length) :
    ∃ r, Run (do skip; symbol ","; skip; p) mid as r ∧ afterBlanks r = afterBlanks rest ∧
      r.length ≤ rest.length := by
  induction h generalizing mid with
  | nil => exact ⟨mid, .nil, hmid, hlen⟩
  | @cons t a ts as hphrase _ ih =>
    obtain ⟨r, hp, hr, hrlen⟩ := hphrase.takes _ (follows_laterTexts ts hrest)
    obtain ⟨r', hrun, hr', hlen'⟩ := ih hr hrlen
    have hfirst : afterBlanks mid = ',' :: ' ' :: (t.toList ++ (laterTexts ts ++ rest)) := by
      rw [hmid]
      simp [laterTexts, afterBlanks, isBlank]
    have hread : (do skip; symbol ","; skip; p : Parser _) mid = some (a, r) := by
      have hsymbol (cs : List Char) : symbol "," (',' :: cs) = some ((), cs) := rfl
      rw [skip_bind, hfirst, bind_of_some (hsymbol _), skip_bind, hphrase.front.solid.afterBlank, hp]
    refine ⟨r', .cons hread ?_ hrun, hr', hlen'⟩
    have := afterBlanks_length_le mid
    simp [hfirst] at *
    omega

theorem Phrase.commaSeparated (h : List.Forall₂ (fun t a => Phrase (Follows ws) p t.toList a) ts as)
    (hne : ts ≠ []) : Phrase (Closes ws) (Parser.commaSeparated p) (commaSeparated ts).toList as := by
  cases h with
  | nil => exact absurd rfl hne
  | @cons t a ts as hfirst hlater =>
    rw [toList_commaSeparated]
    refine ⟨hfirst.front.append ?_, fun rest hrest => ?_⟩
    · cases ts with
      | nil => rfl
      | cons u ts => rfl
    · obtain ⟨r, hrun, hr, hlen⟩ := laterTexts_run hlater hrest (afterBlanks_afterBlanks _)
        (afterBlanks_length_le _)
      obtain ⟨r', hspaced, hr', hlen'⟩ := spaced_takes hrun (bind_of_none hrest.not_comma _) hr hlen
      rw [afterBlanks_afterBlanks] at hspaced
      refine ⟨r', ?_, hr', hlen'⟩
      rw [List.append_assoc, Parser.commaSeparated, (hfirst.takes _ (follows_laterTexts ts hrest)).bind_skip,
        bind_of_some hspaced]
      rfl

end Lists

section Calls

variable {inside : Inside} {cs mid args behind rest t : List Char} {name : String} {e : Expr Literal}

theorem primary_of_call (h : Takes (functionCall inside) cs e rest) :
    Takes (primary inside) cs e rest := by
  obtain ⟨r, hp, hr, hlen⟩ := h
  exact ⟨r, choice_of_some hp, hr, hlen⟩

def distinctWord (isDistinct : Bool) : List Char :=
  if isDistinct then ['D', 'I', 'S', 'T', 'I', 'N', 'C', 'T', ' '] else []

theorem reads_distinct (isDistinct : Bool) (hsolid : afterBlanks cs = cs)
    (hno : keyword "distinct" cs = none) : ∃ mid,
      reads (keyword "distinct") (afterBlanks (distinctWord isDistinct ++ cs)) = some (isDistinct, mid) ∧
      afterBlanks mid = cs := by
  cases isDistinct with
  | true => exact ⟨' ' :: cs, rfl, hsolid⟩
  | false => exact ⟨cs, hsolid.symm ▸ reads_of_none hno, hsolid⟩

structure Arguments (inside : Inside) (t : List Char) (given : Option (Option (List (Expr Literal)))) :
    Prop where
  solid : ∀ cs, afterBlanks (t ++ ')' :: cs) = t ++ ')' :: cs
  no_distinct : ∀ cs, keyword "distinct" (t ++ ')' :: cs) = none
  takes : ∀ cs, Takes (optional (callArgs inside)) (t ++ ')' :: cs) given (')' :: cs)

theorem Arguments.empty (n : Nat) : Arguments (levels n) [] none := by
  refine ⟨fun _ => rfl, fun _ => rfl, fun cs => .of_eq (optional_of_none ?_)⟩
  cases n <;> rfl

theorem Arguments.star (inside : Inside) : Arguments inside ['*'] (some none) :=
  ⟨fun _ => rfl, fun _ => rfl, fun _ => .of_eq rfl⟩

theorem Arguments.list {ws : List ClosingWord} {n : Nat} {es : List (Expr Literal)}
    (h : Phrase (Closes ws) (Parser.commaSeparated (expr (levels n))) t es) :
    Arguments (levels (n + 1)) t (some (some es)) := by
  have hstar := h.no_star .finish rfl fun _ => rfl
  refine ⟨fun cs => h.front.solid _, fun cs => h.front.no_distinct _ rfl, fun cs => ?_⟩
  obtain ⟨r, hp, hr, hlen⟩ := h.takes _ (.close cs)
  refine ⟨r, optional_of_some ?_, hr, hlen⟩
  rw [callArgs, orElse_of_none (bind_of_none (hstar _) _)]
  exact bind_of_some hp _

theorem Arguments.call {given : Option (Option (List (Expr Literal)))} {window : Option (Window Literal)}
    {w : List Char} (h : Arguments inside t given)
    (hname : ∀ cs, identifier (w ++ '(' :: cs) = some (name, '(' :: cs)) (isDistinct : Bool)
    (hwindow : Takes (optional (windowClause inside)) (afterBlanks behind) window rest) :
    Takes (functionCall inside) (w ++ '(' :: (distinctWord isDistinct ++ (t ++ ')' :: behind)))
      (.call name isDistinct (given.getD (some [])).isNone ((given.getD (some [])).getD []) window)
      rest := by
  obtain ⟨r, hp, hr, hlen⟩ := hwindow
  obtain ⟨mid, hdistinct, hmid⟩ := reads_distinct isDistinct (h.solid behind) (h.no_distinct behind)
  have hopen (cs : List Char) : symbol "(" ('(' :: cs) = some ((), cs) := rfl
  have hclose : symbol ")" (')' :: behind) = some ((), behind) := rfl
  have hsolid (c : Char) (cs : List Char) (h : Solid [c]) : afterBlanks (c :: cs) = c :: cs := h cs
  refine ⟨r, ?_, hr, hlen⟩
  rw [functionCall, bind_of_some (hname _), skip_bind, hsolid '(' _ fun _ => rfl, bind_of_some (hopen _),
    skip_bind, bind_of_some hdistinct, skip_bind, hmid, (h.takes behind).bind_skip,
    hsolid ')' _ fun _ => rfl, bind_of_some hclose, skip_bind, bind_of_some hp]
  rfl

theorem primary_of_literal {l : Literal} (hname : identifier cs = none)
    (h : literal cs = some (l, rest)) : primary inside cs = some (.constant l, rest) := by
  have hcall : functionCall inside cs = none := bind_of_none hname _
  rw [primary, choice_of_none hcall]
  apply choice_of_some
  rw [bind_of_some h]
  rfl

theorem primary_of_column {ref : ColumnRef} (hcall : functionCall inside cs = none)
    (hliteral : literal cs = none) (h : Takes columnRef cs ref rest) :
    Takes (primary inside) cs (.column ref) rest := by
  obtain ⟨r, hp, hr, hlen⟩ := h
  refine ⟨r, ?_, hr, hlen⟩
  rw [primary, choice_of_none hcall, choice_of_none (bind_of_none hliteral _)]
  apply choice_of_some
  rw [bind_of_some hp]
  rfl

theorem call_of_name (hname : identifier cs = some (name, mid))
    (hopen : symbol "(" (afterBlanks mid) = none) : functionCall inside cs = none := by
  rw [functionCall, bind_of_some hname, skip_bind, bind_of_none hopen]

end Calls

end QuerySearch.Sql
