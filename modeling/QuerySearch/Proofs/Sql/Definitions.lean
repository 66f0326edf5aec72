import QuerySearch.Proofs.Sql.Expressions

/-! Table definitions: what is read is what the trees convert to, whatever the text. -/

namespace QuerySearch.Sql

open QuerySearch.Sql.Parser QuerySearch.Sql.Peg

variable {whole : List Char} {n : Nat}

def ColumnTrees (inner : List Tree) (c : ColumnDef) : Prop :=
  ∀ t, Convert.columnDef (.node .columnDef t inner) = .ok c

theorem agrees_columnDef :
    Agrees whole n false (.rule .columnDef) columnDef (Node .columnDef ColumnTrees) := by
  refine Agrees.node ?_ rfl
  refine agrees_identifier.seq fun _ _ name hname => ?_
  obtain ⟨t, inner, rfl, hname⟩ := hname
  refine (agrees_typeName.leaf rfl).map _ fun _ _ cs hcs t' => ?_
  obtain ⟨t'', rfl, rfl, hascii⟩ := hcs
  rw [List.singleton_append, Convert.columnDef, hname.identifier, Tree.text, lowercase_ofList hascii]
  rfl

theorem columnDefs_eq {ts : List Tree} {cs : List ColumnDef} (h : Each (Node .columnDef ColumnTrees []) ts cs) :
    ts.mapM Convert.columnDef = .ok cs := by
  induction h with
  | nil => rfl
  | cons hc _ ih =>
    obtain ⟨t, inner, rfl, hc⟩ := hc
    rw [List.singleton_append, List.mapM_cons, hc, ih]
    rfl

def DefTrees (inner : List Tree) (d : TableDef) : Prop := Convert.createBody inner ⟨"", []⟩ = .ok d

theorem agrees_createTable :
    Agrees whole n false (.rule .createBody) createTable (Node .createBody DefTrees) := by
  refine Agrees.node ?_ rfl
  refine (agrees_word .CREATE).seq fun _ _ _ hcreate => ?_
  obtain ⟨t, rfl, -⟩ := hcreate
  refine agrees_temporary.optional.seq fun _ ts temporary htemporary => ?_
  refine (agrees_word .TABLE).seq fun _ _ _ htable => ?_
  obtain ⟨t', rfl, -⟩ := htable
  refine agrees_identifier.seq fun _ _ name hname => ?_
  obtain ⟨t'', inner, rfl, hname⟩ := hname
  have hcolumns : Agrees whole n false (.rule .columnDefs) (Parser.commaSeparated columnDef)
      (Node .columnDefs (Each (Node .columnDef ColumnTrees []))) := agrees_columnDef.commaSeparated.node rfl
  refine ((agrees_parenthesized hcolumns).mono (Nat.le_succ n)).map _ fun _ _ cs hcs => ?_
  obtain ⟨text, us, rfl, hcs⟩ := hcs
  have hstep (rest : List Tree) (d : TableDef) : Convert.createBody (ts ++ rest) d = Convert.createBody rest d := by
    cases temporary with
    | none =>
      obtain ⟨-, rfl⟩ := htemporary
      rfl
    | some =>
      obtain ⟨t, rfl, -⟩ := htemporary
      rw [List.singleton_append, Convert.createBody]
  rw [DefTrees, List.singleton_append, Convert.createBody, hstep, List.singleton_append, Convert.createBody,
    List.singleton_append, Convert.createBody, hname.identifier]
  simp only [Convert.createBody, columnDefs_eq hcs]
  rfl

end QuerySearch.Sql
