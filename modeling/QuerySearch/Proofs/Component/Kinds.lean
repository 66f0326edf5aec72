import QuerySearch.Component.Lemmas

/-! The kind of a component is the constructor it is built with. -/

namespace QuerySearch.Component

theorem kind_rank (c : Component) : c.kind.rank = c.ctorIdx := by
  rw [kind, fingerprint_eq]
  cases c <;> rfl

theorem ctorIdx_congr {c d : Component} (h : c.fingerprint = d.fingerprint) : c.ctorIdx = d.ctorIdx := by
  rw [← kind_rank, ← kind_rank]
  exact congrArg (fun f => f.kind.rank) h

theorem kind_eq_iff (c : Component) (k : Kind) : c.kind = k ↔ c.ctorIdx = k.rank := by
  rw [← kind_rank]
  exact ⟨congrArg _, Kind.rank_injective⟩

theorem isAbsent_iff (c : Component) : c.isAbsent = true ↔ c = .absent := by
  rw [isAbsent, beq_iff_eq, kind_eq_iff]
  cases c with
  | absent => exact iff_of_true rfl rfl
  | _ => exact iff_of_false nofun (by simp)

theorem kind_eq_table (c : Component) : c.kind = .table ↔ ∃ t, c = .table t := by
  rw [kind_eq_iff]
  cases c with
  | table t => exact iff_of_true rfl ⟨t, rfl⟩
  | _ => exact iff_of_false nofun (by simp)

theorem kind_eq_connection (c : Component) :
    c.kind = .connection ↔ ∃ l op r, c = .connection l op r := by
  rw [kind_eq_iff]
  cases c with
  | connection l op r => exact iff_of_true rfl ⟨l, op, r, rfl⟩
  | _ => exact iff_of_false nofun (by simp)

theorem kind_eq_join (c : Component) : c.kind = .join ↔ ∃ l r type on, c = .join l r type on := by
  rw [kind_eq_iff]
  cases c with
  | join l r type on => exact iff_of_true rfl ⟨l, r, type, on, rfl⟩
  | _ => exact iff_of_false nofun (by simp)

theorem kind_eq_groupList (c : Component) : c.kind = .groupList ↔ ∃ items, c = .groupList items := by
  rw [kind_eq_iff]
  cases c with
  | groupList items => exact iff_of_true rfl ⟨items, rfl⟩
  | _ => exact iff_of_false nofun (by simp)

theorem kind_eq_partitionList (c : Component) :
    c.kind = .partitionList ↔ ∃ items, c = .partitionList items := by
  rw [kind_eq_iff]
  cases c with
  | partitionList items => exact iff_of_true rfl ⟨items, rfl⟩
  | _ => exact iff_of_false nofun (by simp)

end QuerySearch.Component
