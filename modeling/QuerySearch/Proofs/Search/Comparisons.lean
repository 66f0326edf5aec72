import QuerySearch.Proofs.Search.Lists

/-! What a search compares and aggregates.  The comparisons it adds are between two different values of one
type, and a predicate in which every comparison stands once is never put together with one that repeats any of
them. -/

namespace QuerySearch

namespace Component

/-- Two different values of the same type, which is the type of numbers if the operator orders them. -/
structure Comparable (l : Component) (op : CompareOp) (r : Component) : Prop where
  left_present : l ≠ .absent
  right_present : r ≠ .absent
  different : l.fingerprint ≠ r.fingerprint
  sameType : ∃ type, l.dataType = some type ∧ r.dataType = some type ∧ (op = .lt ∨ op = .le → type = .number)

def WellTyped : Component → Prop
  | .comparison l op r => Comparable l op r
  | .aggChain func arg | .aggregation func arg _ => func ≠ .count → arg.dataType = some .number
  | _ => True

/-- No comparison stands twice in a predicate, wherever the connectives put it. -/
def ComparesOnce (c : Component) : Prop := c.atoms.Pairwise fun a b => a.fingerprint ≠ b.fingerprint

variable {c l r : Component} {op : LogicOp}

theorem comparesOnce_of_atoms (h : c.atoms.length ≤ 1) : c.ComparesOnce := by
  rw [ComparesOnce]
  match hc : c.atoms, h with
  | [], _ => exact .nil
  | [a], _ => exact List.pairwise_singleton _ a

theorem ComparesOnce.connection (hl : l.ComparesOnce) (hr : r.ComparesOnce)
    (hapart : ∀ a ∈ r.atoms, ∀ b ∈ l.atoms, b.fingerprint ≠ a.fingerprint) :
    (Component.connection l op r).ComparesOnce :=
  List.pairwise_append.2 ⟨hl, hr, fun b hb a ha => hapart a ha b hb⟩

end Component

namespace Workshop

open Component (Comparable)

variable {w : Workshop} {slot : Category} {rs : List Requirement} {c d : Component} {types : List DataType}

theorem Fits.present (h : w.Fits slot rs c) (hq : .present ∈ rs) : c ≠ .absent := by
  rintro rfl
  have hpresent := h.holds hq
  rw [Requirement.holds, (Component.isAbsent_iff _).2 rfl] at hpresent
  cases hpresent

theorem Fits.typeIn (h : w.Fits slot rs c) (hq : .typeIn types ∈ rs) : ∃ type ∈ types, c.dataType = some type := by
  simpa [Requirement.holds, Option.any_eq_true, and_comm] using h.holds hq

theorem Fits.numeric {func : AggFunc} (h : w.Fits slot (argRequirements func) c) (hfunc : func ≠ .count) :
    c.dataType = some .number := by
  have hq : .typeIn [.number] ∈ argRequirements func := by
    cases func with
    | count => exact absurd rfl hfunc
    | _ => exact .head _
  obtain ⟨type, htype, hc⟩ := h.typeIn hq
  rwa [List.mem_singleton.1 htype] at hc

theorem Fits.comparable {l r : Component} {op : CompareOp} {type : DataType}
    (hl : w.Fits .value [.present, .typeIn (comparedTypes op)] l)
    (hr : w.Fits .value [.present, .typeIn [type], .notIn [l.fingerprint]] r) (htype : l.dataType = some type) :
    Comparable l op r where
  left_present := hl.present (.head _)
  right_present := hr.present (.head _)
  different := by
    have hnot : r.fingerprint ≠ l.fingerprint := by
      simpa [Requirement.holds] using hr.holds (.tail _ (.tail _ (.head _)))
    exact hnot.symm
  sameType := by
    obtain ⟨ltype, hltype, hlvalue⟩ := hl.typeIn (.tail _ (.head _))
    obtain ⟨rtype, hrtype, hrvalue⟩ := hr.typeIn (.tail _ (.head _))
    obtain rfl := Option.some.inj (hlvalue.symm.trans htype)
    rw [List.mem_singleton.1 hrtype] at hrvalue
    refine ⟨_, htype, hrvalue, ?_⟩
    rintro (rfl | rfl)
    · exact List.mem_singleton.1 hltype
    · exact List.mem_singleton.1 hltype

theorem Fits.repeatsNone (h : w.Fits slot rs c) (hq : .repeatsNoneOf d ∈ rs) :
    ∀ a ∈ c.atoms, ∀ b ∈ d.atoms, b.fingerprint ≠ a.fingerprint := by
  simpa [Requirement.repeatsNoneOf, Requirement.holds] using h.holds hq

end Workshop

section Additions

variable {w : Workshop} {b : Bank} {c : Component}

theorem Built.wellTyped (h : Built w c) : c.WellTyped := by
  cases h with
  | comparison hl hr htype => exact hl.comparable hr htype
  | aggChain harg | aggregation harg => exact harg.numeric
  | _ => trivial

theorem Built.comparesOnce (hbank : ∀ d ∈ w.bank.toList, d.ComparesOnce) (h : Built w c) : c.ComparesOnce := by
  cases h with
  | connection hl hr =>
    exact .connection (hbank _ hl.mem) (hbank _ hr.mem) (hr.repeatsNone (.tail _ (.head _)))
  | comparison => exact Component.comparesOnce_of_atoms (Nat.le_refl 1)
  | _ => exact Component.comparesOnce_of_atoms (Nat.zero_le 1)

theorem Proposed.comparesOnce (h : Proposed b c) : c.ComparesOnce := by
  cases h <;> exact Component.comparesOnce_of_atoms (Nat.zero_le 1)

end Additions

namespace Search

variable {query : Component} {names : List String} {config : SearchConfig} {s t : Search} {c : Component}

theorem built_of_added (hc : c ∈ t.step.2.bank.toList) (hnew : c ∉ t.bank.toList) : Built t.workshop c := by
  rw [bank_step] at hc
  exact discoveries_built ((Bank.mem_insertAll hc).resolve_left hnew)

theorem Reaches.comparesOnce (h : s.Reaches t) (hstart : ∀ c ∈ s.bank.toList, c.ComparesOnce) :
    ∀ c ∈ t.bank.toList, c.ComparesOnce :=
  h.bank_forall hstart (fun _ _ _ _ hc => hc.comparesOnce) fun _ _ hbank _ hc => hc.comparesOnce hbank

/-- In the search for a query every step adds only comparisons between two different values of one type, with
an order only between numbers, and only aggregates of numbers or counts.  If the search starts without a
predicate that repeats a comparison, it never has one. -/
theorem reached_comparisons (h : (start query names config).Reaches s) :
    (∀ c ∈ s.step.2.bank.toList, c ∉ s.bank.toList → c.WellTyped) ∧
    ((∀ c ∈ (start query names config).bank.toList, c.ComparesOnce) → ∀ c ∈ s.bank.toList, c.ComparesOnce) :=
  ⟨fun _ hc hnew => (built_of_added hc hnew).wellTyped, h.comparesOnce⟩

section Rides

open Component

def fromFive : Component := .comparison (.int 5) .le line

def belowNine : Component := .comparison line .lt (.int 9)

/-- `SELECT line FROM rides WHERE 5 <= line AND line < 9` -/
def someRides : Component :=
  .query (.select [line]) (.tableSource (.table rides) none) (.connection fromFive .and belowNine) .absent .absent
    .absent false

theorem comparesOnce_start_someRides (h : c ∈ (start someRides ["line"] {}).bank.toList) : c.ComparesOnce := by
  have hboth : (Component.connection fromFive .and belowNine).ComparesOnce := by
    refine .connection (comparesOnce_of_atoms (Nat.le_refl 1)) (comparesOnce_of_atoms (Nat.le_refl 1)) ?_
    simp only [fromFive, belowNine, line, atoms, List.mem_singleton, forall_eq, fingerprint, keys, Keys.same]
    decide +kernel
  have hreach : ∀ d ∈ someRides.reach false, d = .connection fromFive .and belowNine ∨ d.atoms.length ≤ 1 := by
    simp [someRides, fromFive, belowNine, line, reach, reachAll, chainForm, atoms]
  refine forall_mem_start (fun c hc => ?_) (fun _ _ _ => comparesOnce_of_atoms (Nat.zero_le 1)) (fun c hword => ?_)
    (comparesOnce_of_atoms (Nat.zero_le 1)) c h
  · obtain rfl | hatoms := hreach c hc
    · exact hboth
    · exact comparesOnce_of_atoms hatoms
  · cases c with
    | distinct | compareOp | logicOp | joinType | aggFunc | windowFunc | sortDir =>
      exact comparesOnce_of_atoms (Nat.zero_le 1)
    | _ => exact hword.elim

theorem reached_comparisons_someRides :
    (start someRides ["line"] {}).Reaches (start someRides ["line"] {}).varyAll.step.2 ∧
      (∀ c ∈ (start someRides ["line"] {}).varyAll.step.2.step.2.bank.toList,
        c ∉ (start someRides ["line"] {}).varyAll.step.2.bank.toList → c.WellTyped) ∧
      ∀ c ∈ (start someRides ["line"] {}).varyAll.step.2.bank.toList, c.ComparesOnce := by
  have hs := (reaches_varyAll (s := start someRides ["line"] {})).step
  obtain ⟨hadded, honce⟩ := reached_comparisons hs
  exact ⟨hs, hadded, honce fun _ => comparesOnce_start_someRides⟩

end Rides

end Search

end QuerySearch
