import QuerySearch.Proofs.Binding.Labels

/-! All names that one supply gives.  A name is the label of a series, which counts its uses of one hint,
so two names can only be equal where two series have a label in common.  Sources have labels that no
other series has, while a column's hint may end in the digits that another column's number starts
with. -/

namespace QuerySearch.NameSupply

inductive Request where
  | table (hint : String)
  | column (hint : Option String)

/-- Names that are counted together. -/
inductive Series where
  | table (hint : String)
  | column (hint : String)
  deriving DecidableEq

namespace Series

def stem : Series → String
  | table hint => "T_" ++ hint
  | column hint => columnStem hint

def label : Series → Nat → String
  | table hint => tableLabel hint
  | column hint => columnLabel hint

end Series

namespace Request

def series : Request → Series
  | table hint => .table hint
  | column hint => .column (hint.getD "")

def name : Request → NameSupply → String × NameSupply
  | table hint => tableName hint
  | column hint => columnName hint

end Request

def namesFor : List Request → NameSupply → List String
  | [], _ => []
  | r :: rs, s => (r.name s).1 :: namesFor rs (r.name s).2

def columnUses (rs : List Request) (hint : String) : Nat := (rs.map Request.series).count (.column hint)

def numbered : List Request → NameSupply → List (Series × Nat)
  | [], _ => []
  | r :: rs, s => (r.series, s.count r.series.stem) :: numbered rs (s.use r.series.stem)

section Numbers

variable {s : NameSupply} {rs : List Request} {n : Nat}

theorem columnStem_ne_table (hint hint' : String) : columnStem hint ≠ "T_" ++ hint' := by
  intro h
  have hletters := congrArg String.toList h
  rw [columnStem] at hletters
  split at hletters <;> simp at hletters

theorem Series.stem_inj {x y : Series} (h : x.stem = y.stem) : x = y := by
  cases x with
  | table hint =>
    cases y with
    | table hint' => rw [(String.append_right_inj _).1 h]
    | column hint' => exact absurd h.symm (columnStem_ne_table hint' hint)
  | column hint =>
    cases y with
    | table hint' => exact absurd h (columnStem_ne_table hint hint')
    | column hint' =>
      have hne (hint : String) : "c_" ++ hint ≠ "" := fun heq => by simpa using congrArg String.toList heq
      simp only [stem, columnStem] at h
      split at h <;> split at h
      · simp_all
      · exact absurd h.symm (hne _)
      · exact absurd h (hne _)
      · rw [(String.append_right_inj _).1 h]

theorem Request.name_eq (r : Request) (s : NameSupply) :
    r.name s = (r.series.label (s.count r.series.stem), s.use r.series.stem) := by
  cases r with
  | table hint => rfl
  | column hint =>
    cases hint with
    | none => rfl
    | some hint =>
      by_cases hempty : hint = ""
      · subst hempty
        rfl
      · simp [name, series, Series.label, Series.stem, columnName, Option.filter, columnLabel, columnStem,
          hempty]

theorem namesFor_eq (rs : List Request) (s : NameSupply) :
    namesFor rs s = (numbered rs s).map fun x => x.1.label x.2 := by
  induction rs generalizing s with
  | nil => rfl
  | cons r rs ih => rw [namesFor, numbered, List.map_cons, r.name_eq, ih]

theorem count_use_stem (s : NameSupply) (x y : Series) :
    (s.use x.stem).count y.stem = s.count y.stem + if x = y then 1 else 0 := by
  rw [count_use]
  refine congrArg _ (if_congr ⟨fun h => (Series.stem_inj h).symm, fun h => by rw [h]⟩ rfl rfl)

theorem mem_numbered {x : Series} : (x, n) ∈ numbered rs s ↔
    s.count x.stem ≤ n ∧ n < s.count x.stem + (rs.map Request.series).count x := by
  induction rs generalizing s with
  | nil =>
    simp only [numbered, List.not_mem_nil, List.map_nil, List.count_nil, false_iff]
    omega
  | cons r rs ih =>
    rw [numbered, List.mem_cons, ih, count_use_stem, List.map_cons, List.count_cons, Prod.mk.injEq]
    by_cases hx : r.series = x
    · subst hx
      simp only [true_and, if_true, beq_self_eq_true]
      omega
    · simp only [hx, Ne.symm hx, false_and, false_or, if_false, beq_iff_eq, Nat.add_zero]

theorem nodup_numbered (rs : List Request) (s : NameSupply) : (numbered rs s).Nodup := by
  induction rs generalizing s with
  | nil => exact List.nodup_nil
  | cons r rs ih =>
    refine List.nodup_cons.2 ⟨fun hmem => ?_, ih _⟩
    have hlow := (mem_numbered.1 hmem).1
    rw [count_use_stem, if_pos rfl] at hlow
    omega

theorem count_empty (stem : String) : empty.count stem = 0 := rfl

theorem tableLabel_ne_columnLabel (hint hint' : String) (n n' : Nat) :
    tableLabel hint n ≠ columnLabel hint' n' := by
  intro h
  have hletters := congrArg String.toList h
  simp [tableLabel, columnLabel] at hletters

theorem columnLabel_eq_iff {hint hint' : String} {n n' : Nat} :
    columnLabel hint n = columnLabel hint' n' ↔ hint ++ toString n = hint' ++ toString n' := by
  rw [columnLabel, columnLabel, String.append_assoc, String.append_assoc, String.append_right_inj]

end Numbers

/-- All names differ just if no two hints for outputs give one name between them, each with a number
that it gets to. -/
theorem namesFor_nodup_iff (rs : List Request) : (namesFor rs .empty).Nodup ↔
    ∀ hint hint' n n', n < columnUses rs hint → n' < columnUses rs hint' →
      hint ++ toString n = hint' ++ toString n' → hint = hint' := by
  have hmem (hint : String) (n : Nat) :
      (.column hint, n) ∈ numbered rs empty ↔ n < columnUses rs hint := by
    rw [mem_numbered, count_empty, Nat.zero_add, columnUses]
    exact and_iff_right (Nat.zero_le n)
  rw [namesFor_eq, List.nodup_map_iff_inj_on (nodup_numbered rs empty)]
  constructor
  · intro h hint hint' n n' hn hn' heq
    have hpair := h _ ((hmem hint n).2 hn) _ ((hmem hint' n').2 hn') (columnLabel_eq_iff.2 heq)
    simpa using congrArg Prod.fst hpair
  · rintro h ⟨x, n⟩ hx ⟨y, n'⟩ hy heq
    cases x with
    | table hint =>
      cases y with
      | table hint' =>
        obtain ⟨rfl, rfl⟩ := tableLabel_inj heq
        rfl
      | column hint' => exact absurd heq (tableLabel_ne_columnLabel hint hint' n n')
    | column hint =>
      cases y with
      | table hint' => exact absurd heq.symm (tableLabel_ne_columnLabel hint' hint n' n)
      | column hint' =>
        have hletters := columnLabel_eq_iff.1 heq
        obtain rfl := h hint hint' n n' ((hmem hint n).1 hx) ((hmem hint' n').1 hy) hletters
        have hnumber := congrArg String.toList ((String.append_right_inj _).1 hletters)
        exact Prod.ext rfl (toString_inj hnumber)

/-- The eleventh name after `a` is the first one after `a1`. -/
theorem not_nodup_namesFor_a1 :
    ¬ (namesFor (.replicate 11 (.column (some "a")) ++ [.column (some "a1")]) .empty).Nodup := by
  decide +kernel

end QuerySearch.NameSupply
