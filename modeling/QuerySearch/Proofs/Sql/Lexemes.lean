import Mathlib
import QuerySearch.Proofs.Sql.Agreement
import QuerySearch.Proofs.Sql.Valuation
import QuerySearch.Proofs.Sql.Words
import QuerySearch.Sql.Grammar

/-! Words, names and literals: their readers agree with the atomic rules, and what is read is what the
text of the tree converts to. -/

namespace QuerySearch.Sql

open QuerySearch.Sql.Parser QuerySearch.Sql.Peg

variable {whole : List Char} {n : Nat} {atomic : Bool}

section Words

theorem agrees_wordEnd : Agrees whole n true Peg.wordEnd wordEnd fun _ _ _ => True :=
  (takesOne_one isWordChar).agrees.absent.imp fun _ _ _ _ => trivial

theorem agrees_letters (s : String) {q : Parser Unit} {a : Peg}
    (h : Agrees whole n true a q fun _ _ _ => True) :
    Agrees whole n true (.seq (.anyCase s) a) (do letters s.toList; q) fun _ _ _ => True :=
  (agrees_anyCase s).bind fun _ _ _ _ => h

theorem agrees_keyword (s : String) :
    Agrees whole n true (.seq (.anyCase s) Peg.wordEnd) (keyword s) fun _ _ _ => True :=
  agrees_letters s agrees_wordEnd

theorem agrees_word (w : Word) :
    Agrees whole n false (.word w) (keyword w.text) (Leaf (.word w) fun _ _ => True) :=
  (agrees_keyword w.text).leaf rfl

theorem consumes_word (w : Word) : Consumes (.word w) :=
  .rule (.seq_left (.anyCase (by cases w <;> decide)))

theorem letters_append (s t cs : List Char) :
    letters (s ++ t) cs = (do letters s; letters t : Parser Unit) cs := by
  induction s generalizing cs with
  | nil => rfl
  | cons c s ih =>
    cases h : item (·.toLower == c) cs with
    | none =>
      have hs : letters (c :: s) cs = none := bind_of_none h _
      rw [List.cons_append, letters, bind_of_none h, bind_of_none hs]
    | some x =>
      obtain ⟨d, ds⟩ := x
      have hs : letters (c :: s) cs = letters s ds := bind_of_some h _
      rw [List.cons_append, letters, bind_of_some h, ih, Parser.bind_apply, Parser.bind_apply, hs]

theorem keyword_temp_none {cs : List Char} {x : Unit × List Char}
    (h : letters "temporary".toList cs = some x) : keyword "temp" cs = none := by
  have hsplit : "temporary".toList = "temp".toList ++ "orary".toList := by decide
  rw [hsplit, letters_append] at h
  cases htemp : letters "temp".toList cs with
  | none => exact bind_of_none htemp _
  | some y =>
    obtain ⟨_, mid⟩ := y
    rw [bind_of_some htemp] at h
    rw [keyword, bind_of_some htemp]
    cases ho : item (·.toLower == 'o') mid with
    | none =>
      have hrest : letters "orary".toList mid = none := bind_of_none ho _
      rw [hrest] at h
      cases h
    | some z =>
      obtain ⟨c, ds⟩ := z
      obtain ⟨hc, rfl⟩ := item_some ho
      have hword : isWordChar c.toLower = true := by rw [beq_iff_eq.1 hc]; rfl
      simp [wordEnd, Parser.absent, item, isWordChar_of_toLower hword]

theorem agrees_temporary : Agrees whole n false (.rule .temporary) (keyword "temporary" <|> keyword "temp")
    (Leaf .temporary fun _ _ => True) := by
  refine Agrees.leaf (Agrees.congr (p := do (letters "temporary".toList <|> letters "temp".toList); wordEnd)
    ?_ fun cs => ?_) rfl
  · exact ((agrees_anyCase "temporary").orElse (agrees_anyCase "temp")).bind fun _ _ _ _ => agrees_wordEnd
  · cases h : letters "temporary".toList cs with
    | none => 
      have hword : keyword "temporary" cs = none := bind_of_none h _
      rw [orElse_of_none hword, Parser.bind_apply, orElse_of_none h]
      exact Parser.bind_apply _ _ _
    | some x =>
      obtain ⟨_, rest⟩ := x
      have hword : keyword "temporary" cs = wordEnd rest := bind_of_some h _
      rw [bind_of_some (orElse_of_some h)]
      cases hend : wordEnd rest with
      | none =>
        rw [hend] at hword
        rw [orElse_of_none hword]
        exact keyword_temp_none h
      | some y =>
        rw [hend] at hword
        exact orElse_of_some hword

theorem agrees_blanks {q : Parser Unit} {a : Peg} (h : Agrees whole n true a q fun _ _ _ => True) :
    Agrees whole n true (.seq Peg.blanks a) (do let _ ← run1 isBlank; q) fun _ _ _ => True :=
  (takesOne_one isBlank).agrees_run1.bind fun _ _ _ _ => h

theorem agrees_isNotNull :
    Agrees whole n true (body .isNotNull) (nullTest ["is", "not", "null"]) fun _ _ _ => True :=
  agrees_letters "is" (agrees_blanks (agrees_letters "not" (agrees_blanks (agrees_keyword "null"))))

theorem agrees_isNull : Agrees whole n true (body .isNull) (nullTest ["is", "null"]) fun _ _ _ => True :=
  agrees_letters "is" (agrees_blanks (agrees_keyword "null"))

def NullTest (ts : List Tree) (negated : Bool) : Prop :=
  ∃ text, ts = [.node (if negated then .isNotNull else .isNull) text []]

theorem agrees_isNullSuffix :
    Agrees whole n false Peg.postfixTest isNullSuffix fun _ ts negated => NullTest ts negated := by
  refine .orElse ?_ ?_
  · exact (agrees_isNotNull.leaf rfl).map (fun _ => true) fun _ _ _ ⟨t, h, _⟩ => ⟨t, h⟩
  · exact (agrees_isNull.leaf rfl).map (fun _ => false) fun _ _ _ ⟨t, h, _⟩ => ⟨t, h⟩

theorem agrees_reserved : Agrees whole n true Peg.reserved reserved fun _ _ _ => True := by
  have hlast : Agrees whole n true Peg.postfixTest (do let _ ← isNullSuffix) fun _ _ _ => True := by
    refine Agrees.map (R := fun _ _ _ => True) ?_ _ fun _ _ _ _ => trivial
    exact .orElse (agrees_isNotNull.inAtomic.map _ fun _ _ _ _ => trivial)
      (agrees_isNull.inAtomic.map _ fun _ _ _ _ => trivial)
  suffices ∀ ws : List Word, Agrees whole n true (ws.foldr (fun w => .alt (.word w)) Peg.postfixTest)
      (choice (ws.map fun w => keyword w.text) <|> do let _ ← isNullSuffix) fun _ _ _ => True from
    this Word.all
  intro ws
  induction ws with
  | nil => exact hlast.congr fun cs => orElse_of_none rfl
  | cons w ws ih =>
    refine ((agrees_keyword w.text).inAtomic (r := .word w).orElse ih).congr fun cs => ?_
    cases h : keyword w.text cs with
    | some x => exact (orElse_of_some (choice_of_some h)).trans (orElse_of_some h).symm
    | none =>
      rw [orElse_of_none h]
      change (choice (keyword w.text :: _) cs <|> _) = _
      rw [choice_of_none h]
      rfl

end Words

section Names

theorem takesOne_except {s : String} {quote : Char} (hs : s.toList = [quote]) :
    TakesOne whole (.seq (.absent (.text s)) Peg.anyChar) (· != quote) := by
  intro cs
  have habsent := (@Runs.text whole true s cs).absent
  have hany := @Runs.one whole true (fun _ => true) cs
  rw [symbol, hs] at habsent
  cases cs with
  | nil => exact .seq_some habsent hany
  | cons c cs =>
    by_cases hc : c = quote
    · have hitem : item (· == quote) (c :: cs) = some (c, cs) := by simp [item, hc]
      rw [exactly, bind_of_some hitem] at habsent
      simpa [item, hc] using Runs.seq_none habsent
    · rw [exactly_of_ne hc] at habsent
      simpa [item, hc, Peg.anyChar] using Runs.seq_some habsent hany

theorem isAscii_of_isWordChar {c : Char} (h : isWordChar c = true) : c.toNat < 128 := by
  simp only [isWordChar, isLetter, isDigit, Bool.or_eq_true, Bool.and_eq_true, decide_eq_true_eq,
    beq_iff_eq, Char.le_def, UInt32.le_iff_toNat_le] at h
  obtain ((⟨-, h⟩ | ⟨-, h⟩) | ⟨-, h⟩) | rfl := h
  · exact Nat.lt_of_le_of_lt h (by decide)
  · exact Nat.lt_of_le_of_lt h (by decide)
  · exact Nat.lt_of_le_of_lt h (by decide)
  · decide

theorem lowercase_ofList {cs : List Char} (h : ∀ c ∈ cs, c.toNat < 128) :
    Text.lowercase (String.ofList cs) = String.ofList (cs.map Char.toLower) := by
  have hall : (String.ofList cs).all (fun c => decide (c.toNat < 128)) = true := by
    simpa using h
  rw [Text.lowercase, if_pos hall, String.toLower]
  apply String.toList_inj.1
  simp

theorem agrees_bareName : Agrees whole n true (body .bareIdentifier) bareName
    fun front _ cs => front = cs ∧ ∀ c ∈ cs, isWordChar c = true := by
  refine agrees_reserved.absent.bind fun front _ _ h => ?_
  obtain ⟨rfl, -⟩ := h
  refine (takesOne_one _).agrees.bind fun front _ c hc => ?_
  obtain ⟨rfl, hc⟩ := hc
  refine (takesOne_one isWordChar).agrees_run.map _ fun front _ cs hcs => ?_
  obtain ⟨rfl, hcs⟩ := hcs
  refine ⟨rfl, List.forall_mem_cons.2 ⟨?_, hcs⟩⟩
  simp only [Bool.or_eq_true] at hc
  simp only [isWordChar, Bool.or_eq_true]
  exact hc.imp_left .inl

theorem agrees_quotedName : Agrees whole n true (body .quotedIdentifier) quotedName
    fun front _ cs => front.tail.dropLast = cs := by
  refine (agrees_text "\"").bind fun _ _ _ h => ?_
  obtain ⟨rfl, -⟩ := h
  refine (takesOne_except rfl).agrees_run1.bind fun _ _ cs hcs => ?_
  obtain ⟨rfl, -⟩ := hcs
  refine (agrees_text "\"").map _ fun _ _ _ h => ?_
  obtain ⟨rfl, -⟩ := h
  simp

structure Names (inner : List Tree) (name : String) : Prop where
  identifier : ∀ text, Convert.identifier (.node .identifier text inner) = .ok name
  quiet : Quiet inner

theorem agrees_identifier : Agrees whole n false (.rule .identifier) identifier (Node .identifier Names) := by
  refine Agrees.node (.orElse ?_ ?_) rfl
  · refine (agrees_quotedName.leaf rfl).map _ fun _ _ cs h => ?_
    obtain ⟨t, rfl, rfl⟩ := h
    exact ⟨fun _ => rfl, Quiet.nil.node (by decide) t⟩
  · refine (agrees_bareName.leaf rfl).map _ fun _ _ cs h => ?_
    obtain ⟨t, rfl, rfl, hcs⟩ := h
    refine ⟨fun _ => ?_, Quiet.nil.node (by decide) t⟩
    exact congrArg Except.ok (lowercase_ofList fun c hc => isAscii_of_isWordChar (hcs c hc))

end Names

section Literals

def Digits (front : List Char) (negative : Bool) (ds : List Char) : Prop :=
  (minusSign negative).toList ++ ds = front ∧ ds ≠ [] ∧ ∀ c ∈ ds, isDigit c = true

theorem Digits.unsigned {front ds : List Char} {negative : Bool} (h : Digits front negative ds)
    (cs : List Char) : Convert.unsigned (front ++ cs) = (negative, ds ++ cs) := by
  obtain ⟨rfl, hne, hds⟩ := h
  cases negative with
  | true => rfl
  | false =>
    obtain ⟨d, ds, rfl⟩ := List.exists_cons_of_ne_nil hne
    have hd : d ≠ '-' := by
      rintro rfl
      exact absurd (hds _ (.head _)) (by decide)
    change Convert.unsigned (d :: (ds ++ cs)) = _
    rw [Convert.unsigned]
    · rfl
    · exact fun _ h => hd (List.cons.inj h).1

theorem agrees_sign : Agrees whole n true (.opt (.text "-")) (reads (symbol "-"))
    fun front _ negative => front = (minusSign negative).toList := by
  refine (agrees_text "-").reads.imp fun front _ negative h => ?_
  cases negative with
  | true => exact h.choose_spec.1
  | false => exact h.1

theorem agrees_numeral : Agrees whole n true (.seq (.opt (.text "-")) (Peg.atLeastOne (.one isDigit))) numeral
    fun front _ x => Digits front x.1 x.2 := by
  refine agrees_sign.bind fun _ _ negative hsign => ?_
  subst hsign
  refine (takesOne_one isDigit).agrees_run1.map _ fun front _ ds hds => ?_
  obtain ⟨rfl, hds⟩ := hds
  exact ⟨rfl, hds⟩

theorem agrees_integerLiteral : Agrees whole n true (body .integerLiteral) integerLiteral
    fun front _ l => Convert.integer front = l := by
  refine agrees_numeral.map (fun x => Literal.integer x.1 x.2) fun front _ x h => ?_
  have hfront := h.unsigned []
  rw [List.append_nil, List.append_nil] at hfront
  rw [Convert.integer, hfront]

theorem agrees_decimalLiteral : Agrees whole n true (body .decimalLiteral) decimalLiteral
    fun front _ l => Convert.decimal front = l := by
  have hread : decimalLiteral = (do
      let negative ← reads (symbol "-")
      let ds ← run1 isDigit
      symbol "."
      return .decimal negative ds (← run1 isDigit)) := by
    simp only [decimalLiteral, numeral, bind_assoc, pure_bind]
  rw [hread]
  refine agrees_sign.bind fun _ _ negative hsign => ?_
  subst hsign
  refine (takesOne_one isDigit).agrees_run1.bind fun front _ ds hds => ?_
  obtain ⟨hfront, hds⟩ := hds
  subst hfront
  refine (agrees_text ".").bind fun _ _ _ hpoint => ?_
  obtain ⟨rfl, -⟩ := hpoint
  refine (takesOne_one isDigit).agrees_run1.map _ fun fraction _ _ hfraction => ?_
  obtain ⟨rfl, -⟩ := hfraction
  have hdigits : Digits ((minusSign negative).toList ++ front) negative front := ⟨rfl, hds⟩
  have hpoint : ∀ c ∈ front, (c != '.') = true := by
    intro c hc
    rw [bne_iff_ne]
    rintro rfl
    exact absurd (hds.2 _ hc) (by decide)
  change Convert.decimal ((minusSign negative).toList ++ (front ++ '.' :: fraction)) = _
  rw [← List.append_assoc, Convert.decimal, hdigits.unsigned, List.takeWhile_append_of_pos hpoint,
    List.dropWhile_append_of_pos hpoint]
  simp

def quotedChar : Peg := .alt (.text "''") (.seq (.absent (.text "'")) Peg.anyChar)

theorem runs_quotedChar (whole : List Char) {cs : List Char} (h : symbol "''" cs = none) : Runs whole true quotedChar cs
    ((item (· != '\'') cs).map fun x => ([], x.2)) := by
  have hquotes := @Runs.text whole true "''" cs
  rw [h] at hquotes
  exact .alt_right hquotes (takesOne_except rfl cs)

theorem quotedText_runs (whole cs : List Char) : match quotedText cs with
    | some (t, rest) => ∃ front, Runs whole true (.many quotedChar) cs (some ([], '\'' :: rest)) ∧
      front ++ '\'' :: rest = cs ∧ Convert.unquoted front = t
    | none => Runs whole true (.many quotedChar) cs (some ([], [])) := by
  fun_induction quotedText cs with
  | case1 => exact .many_none (runs_quotedChar whole rfl)
  | case2 cs ih =>
    have hquotes : Runs whole true quotedChar ('\'' :: '\'' :: cs) (some ([], cs)) :=
      .alt_left (.text "''" _)
    cases h : quotedText cs with
    | none =>
      rw [h] at ih
      exact hquotes.many_cons ih
    | some x =>
      rw [h] at ih
      obtain ⟨front, hmany, rfl, ht⟩ := ih
      exact ⟨'\'' :: '\'' :: front, hquotes.many_cons hmany, rfl, by rw [Convert.unquoted, ht]⟩
  | case3 cs hcs =>
    refine ⟨[], .many_none ?_, rfl, rfl⟩
    apply runs_quotedChar whole
    cases cs with
    | nil => rfl
    | cons c cs =>
      have hc : c ≠ '\'' := by
        rintro rfl
        exact hcs _ rfl
      exact (exactly_of_ne hc : exactly ['\''] (c :: cs) = none)
  | case4 c cs hquotes hquote ih =>
    have hc : c ≠ '\'' := fun h => hquote h
    have hnone : symbol "''" (c :: cs) = none := exactly_of_ne hc
    have hone := runs_quotedChar whole hnone
    rw [item, if_pos (bne_iff_ne.2 hc)] at hone
    cases h : quotedText cs with
    | none =>
      rw [h] at ih
      exact hone.many_cons ih
    | some x =>
      rw [h] at ih
      obtain ⟨front, hmany, rfl, ht⟩ := ih
      refine ⟨c :: front, hone.many_cons hmany, rfl, ?_⟩
      rw [Convert.unquoted, ht]
      exact fun _ h => absurd h hc

theorem agrees_quotedText : Agrees whole n true (.seq (.many quotedChar) (.text "'")) quotedText
    fun front _ t => ∃ cs, front = cs ++ ['\''] ∧ Convert.unquoted cs = t := by
  intro cs _
  have hruns := quotedText_runs whole cs
  cases h : quotedText cs with
  | none =>
    rw [h] at hruns
    exact .failed h (.seq_some hruns (.text "'" []))
  | some x =>
    rw [h] at hruns
    obtain ⟨front, hmany, hfront, ht⟩ := hruns
    refine .took (front ++ ['\'']) h ?_ (.seq_some hmany (.text "'" _)) ⟨front, rfl, ht⟩
    rw [List.append_assoc]
    exact hfront

theorem agrees_textLiteral : Agrees whole n true (body .quotedString) textLiteral fun front _ l =>
    l = .str (String.ofList (Convert.unquoted front.tail.dropLast)) := by
  refine (agrees_text "'").bind fun _ _ _ h => ?_
  obtain ⟨rfl, -⟩ := h
  refine agrees_quotedText.map _ fun front _ t h => ?_
  obtain ⟨cs, rfl, rfl⟩ := h
  simp

theorem agrees_literal : Agrees whole n false (.rule .literal) literal
    (Node .literal fun inner l => ConvertsTo (Convert.literal inner) l.value inner) := by
  refine Agrees.node (.choice ?null (.choice ?true (.choice ?false (.choice ?decimal (.choice ?integer
    (.choice_last ?str)))))) rfl
  case null =>
    refine (agrees_word .NULL).map _ fun _ _ _ h => ?_
    obtain ⟨t, rfl, -⟩ := h
    exact .ok _ (.word .NULL t)
  case true =>
    refine (agrees_word .TRUE).map _ fun _ _ _ h => ?_
    obtain ⟨t, rfl, -⟩ := h
    exact .ok _ (.word .TRUE t)
  case false =>
    refine (agrees_word .FALSE).map _ fun _ _ _ h => ?_
    obtain ⟨t, rfl, -⟩ := h
    exact .ok _ (.word .FALSE t)
  case decimal =>
    refine (agrees_decimalLiteral.leaf rfl).imp fun _ _ l h => ?_
    obtain ⟨t, rfl, rfl⟩ := h
    exact .number rfl rfl
  case integer =>
    refine (agrees_integerLiteral.leaf rfl).imp fun _ _ l h => ?_
    obtain ⟨t, rfl, rfl⟩ := h
    exact .number rfl rfl
  case str =>
    refine (agrees_textLiteral.leaf rfl).imp fun _ _ l h => ?_
    obtain ⟨t, rfl, rfl⟩ := h
    exact .ok _ (Quiet.nil.node (by decide) t)

end Literals

section Operators

structure OperatorTree (ts : List Tree) (op : Infix) : Prop where
  tokens : ∀ rest, Convert.tokens (ts ++ rest) = do return .infixOp op :: (← Convert.tokens rest)
  quiet : Quiet ts

theorem agrees_connective (w : Word) (op : Infix)
    (h : ∀ t rest, Convert.tokens (.node (.word w) t [] :: rest) =
      do return .infixOp op :: (← Convert.tokens rest)) :
    Agrees whole n false (.word w) (do keyword w.text; return op) fun _ ts x => OperatorTree ts x := by
  refine (agrees_word w).map _ fun _ _ _ hword => ?_
  obtain ⟨t, rfl, -⟩ := hword
  exact ⟨h t, .word w t⟩

theorem agrees_comparator {op : Comparator} {p : Parser Infix}
    (h : Agrees whole n false (body (.comparator op)) p fun _ ts x => ts = [] ∧ x = .compare op) :
    Agrees whole n false (.rule (.comparator op)) p fun _ ts x => OperatorTree ts x := by
  refine (h.node (S := fun ts x => ts = [] ∧ x = .compare op) rfl).imp fun _ _ _ hnode => ?_
  obtain ⟨t, _, rfl, rfl, rfl⟩ := hnode
  exact ⟨fun rest => by rw [List.singleton_append, Convert.tokens],
    Quiet.nil.node (k := .comparator op) ⟨nofun, nofun, nofun⟩ t⟩

theorem agrees_infixOp : Agrees whole n false Peg.infixOp infixOp fun _ ts x => OperatorTree ts x := by
  have hsign (s : String) (op : Comparator) : Agrees whole n false (.text s)
      (do symbol s; return Infix.compare op) fun _ ts x => ts = [] ∧ x = .compare op :=
    (agrees_text s).map _ fun _ _ _ h => ⟨h.2, rfl⟩
  refine .choice ?or (.choice ?and (.choice ?le (.choice ?ge (.choice_pair ?ne (.choice ?eq
    (.choice ?lt (.choice_last ?gt)))))))
  case or => exact agrees_connective .OR _ fun t rest => by rw [Convert.tokens]
  case and => exact agrees_connective .AND _ fun t rest => by rw [Convert.tokens]
  case le => exact agrees_comparator (hsign "<=" .le)
  case ge => exact agrees_comparator (hsign ">=" .ge)
  case ne => exact agrees_comparator ((hsign "<>" .ne).orElse (hsign "!=" .ne))
  case eq => exact agrees_comparator (hsign "=" .eq)
  case lt => exact agrees_comparator (hsign "<" .lt)
  case gt => exact agrees_comparator (hsign ">" .gt)

theorem consumes_infixOp : Consumes Peg.infixOp := by
  refine .alt (consumes_word .OR) (.alt (consumes_word .AND) ?_)
  refine .alt (.rule (.text (by decide))) (.alt (.rule (.text (by decide))) (.alt ?ne ?_))
  case ne => exact .rule (.alt (.text (by decide)) (.text (by decide)))
  exact .alt (.rule (.text (by decide))) (.alt (.rule (.text (by decide))) (.rule (.text (by decide))))

end Operators

section References

theorem agrees_columnRef : Agrees whole n false (.rule .columnRef) columnRef
    (Node .columnRef fun inner c => Convert.columnRef inner = .ok c ∧ Quiet inner) := by
  refine Agrees.node ?_ rfl
  refine agrees_identifier.seq fun _ _ first hfirst => ?_
  obtain ⟨t, us, rfl, hfirst⟩ := hfirst
  have hqualified : Agrees whole n false (.seq (.text ".") (.rule .identifier))
      (do symbol "."; skip; identifier) fun _ ts x => Node .identifier Names [] ts x := by
    refine (agrees_text ".").seq fun _ _ _ hpoint => ?_
    obtain ⟨-, rfl⟩ := hpoint
    exact agrees_identifier
  refine hqualified.optional.map_of
    (f := fun x => x.elim ⟨none, first⟩ fun name => ⟨some first, name⟩)
    (fun x => by cases x <;> rfl) fun _ _ x hx => ?_
  have hquiet := hfirst.quiet.node (k := .identifier) (by decide) t
  cases x with
  | none =>
    obtain ⟨-, rfl⟩ := hx
    refine ⟨?_, hquiet⟩
    simp only [List.append_nil, Convert.columnRef, List.mapM_cons, List.mapM_nil, hfirst.identifier]
    rfl
  | some name =>
    obtain ⟨t', us', rfl, hname⟩ := hx
    refine ⟨?_, hquiet.append (hname.quiet.node (by decide) t')⟩
    simp only [List.singleton_append, Convert.columnRef, List.mapM_cons, List.mapM_nil, hfirst.identifier,
      hname.identifier]
    rfl

inductive AliasTrees : List Tree → String → Prop
  | bare {t inner name} (h : Names inner name) : AliasTrees [.node .identifier t inner] name
  | word {t t' inner name} (h : Names inner name) :
    AliasTrees [.node (.word .AS) t' [], .node .identifier t inner] name

theorem AliasTrees.quiet {ts : List Tree} {name : String} (h : AliasTrees ts name) : Quiet ts := by
  cases h with
  | bare h => exact h.quiet.node (by decide) _
  | word h => exact (Quiet.word .AS _).append (h.quiet.node (by decide) _)

theorem agrees_aliasName :
    Agrees whole n false Peg.asName (optional aliasName) (Maybe fun _ ts x => AliasTrees ts x) := by
  refine Agrees.optional ?_
  refine (agrees_word .AS).optional.seq fun _ _ x hx => ?_
  refine agrees_identifier.imp fun _ _ name hname => ?_
  obtain ⟨t, inner, rfl, hname⟩ := hname
  cases x with
  | none =>
    obtain ⟨-, rfl⟩ := hx
    exact .bare hname
  | some =>
    obtain ⟨t', rfl, -⟩ := hx
    exact .word hname

end References

section Types

structure AsWritten (front cs : List Char) : Prop where
  eq : front = cs
  ascii : ∀ c ∈ cs, c.toNat < 128

theorem AsWritten.append {front front' cs cs' : List Char} (h : AsWritten front cs)
    (h' : AsWritten front' cs') : AsWritten (front ++ front') (cs ++ cs') := by
  obtain ⟨rfl, h⟩ := h
  obtain ⟨rfl, h'⟩ := h'
  exact ⟨rfl, List.forall_mem_append.2 ⟨h, h'⟩⟩

theorem AsWritten.of_maybe {front : List Char} {ts : List Tree} {x : Option (List Char)}
    (h : Maybe (fun front _ cs => AsWritten front cs) front ts x) : AsWritten front (x.getD []) := by
  cases x with
  | none => exact ⟨h.1, nofun⟩
  | some cs => exact h

theorem AsWritten.char {c : Char} (h : c.toNat < 128) : AsWritten [c] [c] := ⟨rfl, by simpa using h⟩

theorem agrees_written {a : Peg} {p : Parser (List Char)} {accepts : Char → Bool} {R : Reading (List Char)}
    (h : Agrees whole n true a p R) (hR : ∀ front ts cs, R front ts cs → front = cs ∧ ∀ c ∈ cs, accepts c = true)
    (hascii : ∀ c, accepts c = true → c.toNat < 128) :
    Agrees whole n true a p fun front _ cs => AsWritten front cs :=
  h.imp fun _ _ _ hcs => ⟨(hR _ _ _ hcs).1, fun c hc => hascii c ((hR _ _ _ hcs).2 c hc)⟩

theorem agrees_writtenDigits :
    Agrees whole n true (Peg.atLeastOne (.one isDigit)) (run1 isDigit) fun front _ cs => AsWritten front cs :=
  agrees_written (takesOne_one isDigit).agrees_run1 (fun _ _ _ h => ⟨h.1, h.2.2⟩)
    fun _ hc => isAscii_of_isWordChar (by simp [isWordChar, hc])

theorem takesOne_blank : TakesOne whole (.text " ") (· == ' ') := by
  intro cs
  have hrun := @Runs.text whole true " " cs
  cases cs with
  | nil => exact hrun
  | cons c cs =>
    by_cases hc : c = ' '
    · subst hc
      exact hrun
    · rw [symbol, show " ".toList = [' '] from rfl, exactly_of_ne hc] at hrun
      simpa [item, hc] using hrun

def secondSize : Parser (List Char) := do
  symbol ","
  return ',' :: (← run (· == ' ')) ++ (← run1 isDigit)

theorem agrees_secondSize : Agrees whole n true
    (.seq (.text ",") <| .seq (.many (.text " ")) <| Peg.atLeastOne (.one isDigit)) secondSize
    fun front _ cs => AsWritten front cs := by
  refine (agrees_text ",").bind fun _ _ _ hcomma => ?_
  obtain ⟨rfl, -⟩ := hcomma
  have hblanks : Agrees whole n true (.many (.text " ")) (run (· == ' ')) fun front _ cs => AsWritten front cs :=
    agrees_written takesOne_blank.agrees_run (fun _ _ _ h => h) fun c hc => by
      rw [beq_iff_eq.1 hc]
      decide
  refine hblanks.bind fun _ _ bs hbs => ?_
  refine agrees_writtenDigits.map _ fun _ _ ds hds => ?_
  have hcomma : AsWritten [','] [','] := .char (by decide)
  exact (hcomma.append hbs).append hds

def sizes : Parser (List Char) := do
  symbol "("
  let first ← run1 isDigit
  let second ← optional secondSize
  symbol ")"
  return '(' :: first ++ second.getD [] ++ [')']

theorem agrees_sizes : Agrees whole n true
    (.seq (.text "(") <| .seq (Peg.atLeastOne (.one isDigit)) <|
      .seq (.opt (.seq (.text ",") <| .seq (.many (.text " ")) <| Peg.atLeastOne (.one isDigit))) <|
        .text ")") sizes fun front _ cs => AsWritten front cs := by
  refine (agrees_text "(").bind fun _ _ _ hopen => ?_
  obtain ⟨rfl, -⟩ := hopen
  refine agrees_writtenDigits.bind fun _ _ ds hds => ?_
  refine agrees_secondSize.optional.bind fun _ _ x hx => ?_
  refine (agrees_text ")").map _ fun _ _ _ hclose => ?_
  obtain ⟨rfl, -⟩ := hclose
  have hopen : AsWritten ['('] ['('] := .char (by decide)
  have hclose : AsWritten [')'] [')'] := .char (by decide)
  simpa using ((hopen.append hds).append (.of_maybe hx)).append hclose

theorem agrees_typeName : Agrees whole n true (body .typeName) typeName
    fun front _ cs => AsWritten front cs := by
  refine (takesOne_one isLetter).agrees.bind fun _ _ c hc => ?_
  obtain ⟨rfl, hc⟩ := hc
  refine (agrees_written (takesOne_one isWordChar).agrees_run (fun _ _ _ h => h)
    fun _ => isAscii_of_isWordChar).bind fun _ _ cs hcs => ?_
  refine agrees_sizes.optional.map _ fun _ _ x hx => ?_
  have hletter : AsWritten [c] [c] := .char (isAscii_of_isWordChar (by simp [isWordChar, hc]))
  exact hletter.append (hcs.append (.of_maybe hx))

end Types

end QuerySearch.Sql
