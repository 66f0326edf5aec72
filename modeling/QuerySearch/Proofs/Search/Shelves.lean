import Mathlib.Data.List.Flatten
import QuerySearch.Proofs.Component.Kinds
import QuerySearch.Proofs.Search.Built

/-! A bank holds every component once, under its kind, and knows by its keys what it holds. -/

namespace QuerySearch.Bank

structure Orderly (b : Bank) : Prop where
  shelved : ∀ k, ∀ c ∈ b.ofKind k, c.kind = k
  indexed : ∀ c, b.contains c = true ↔ ∃ d ∈ b.toList, d.fingerprint = c.fingerprint
  distinct : ∀ k, (b.ofKind k).Pairwise fun c d => c.fingerprint ≠ d.fingerprint

section Contents

variable {b : Bank} {c d : Component} {cs : List Component} {e : Estimator} {slot : Category}
  {budget : Int} {model : Counter} {rs : List Requirement}

theorem mem_toList_insert (h : b.contains d = false) :
    c ∈ (b.insert d).toList ↔ c ∈ b.toList ∨ c = d := by
  refine ⟨mem_insert, ?_⟩
  simp only [mem_toList, ofKind_insert, h]
  rintro (⟨k, hk⟩ | rfl)
  · refine ⟨k, ?_⟩
    split
    · exact List.mem_append_left _ hk
    · exact hk
  · exact ⟨c.kind, by simp⟩

theorem contains_insertAll (b : Bank) (cs : List Component) (d : Component) :
    (b.insertAll cs).contains d = true ↔
      b.contains d = true ∨ ∃ c ∈ cs, c.fingerprint = d.fingerprint := by
  induction cs generalizing b with
  | nil => simp [insertAll]
  | cons c cs ih =>
    rw [insertAll, List.foldl_cons]
    refine (ih (b.insert c)).trans ?_
    rw [contains_insert, Bool.or_eq_true, Component.beq_iff]
    simp only [List.mem_cons, exists_eq_or_imp]
    tauto

theorem orderly_empty : empty.Orderly where
  shelved k := by simp
  indexed c := by simp [mem_toList]
  distinct k := by simp

theorem Orderly.insert (h : b.Orderly) (c : Component) : (b.insert c).Orderly := by
  cases hc : b.contains c with
  | true => rwa [insert_of_contains hc]
  | false =>
    have hnew : ∀ d ∈ b.toList, d.fingerprint ≠ c.fingerprint := by
      intro d hd heq
      rw [(h.indexed c).2 ⟨d, hd, heq⟩] at hc
      cases hc
    refine ⟨fun k d hd => ?_, fun d => ?_, fun k => ?_⟩
    · rw [ofKind_insert] at hd
      split at hd
      · rename_i hk
        cases List.mem_append.1 hd with
        | inl hd => exact h.shelved k d hd
        | inr hd =>
          rw [List.mem_singleton.1 hd]
          exact beq_iff_eq.1 (Bool.and_eq_true_iff.1 hk).2
      · exact h.shelved k d hd
    · rw [contains_insert, Bool.or_eq_true, Component.beq_iff, h.indexed d]
      simp only [mem_toList_insert hc, or_and_right, exists_or, exists_eq_left]
      exact or_comm
    · rw [ofKind_insert]
      split
      · refine List.pairwise_append.2 ⟨h.distinct k, List.pairwise_singleton _ _, fun d hd e he => ?_⟩
        rw [List.mem_singleton.1 he]
        exact hnew d (mem_toList.2 ⟨k, hd⟩)
      · exact h.distinct k

theorem Orderly.insertAll (h : b.Orderly) (cs : List Component) : (b.insertAll cs).Orderly := by
  induction cs generalizing b with
  | nil => exact h
  | cons c cs ih => exact ih (h.insert c)

theorem orderly_ofList (cs : List Component) : (ofList cs).Orderly := orderly_empty.insertAll cs

theorem ofKind_insertAll (hnew : ∀ c ∈ cs, b.contains c = false)
    (hcs : cs.Pairwise fun c d => c.fingerprint ≠ d.fingerprint) (k : Kind) :
    (b.insertAll cs).ofKind k = b.ofKind k ++ cs.filter fun c => c.kind == k := by
  induction cs generalizing b with
  | nil => simp [insertAll]
  | cons c cs ih =>
    obtain ⟨hc, hcs⟩ := List.pairwise_cons.1 hcs
    have hrest : ∀ d ∈ cs, (b.insert c).contains d = false := by
      intro d hd
      rw [contains_insert, hnew d (.tail _ hd), Bool.or_false, ← Bool.not_eq_true, Component.beq_iff]
      exact hc d hd
    rw [insertAll, List.foldl_cons]
    refine (ih hrest hcs).trans ?_
    rw [ofKind_insert, hnew c (.head _), List.filter_cons]
    split
    · rename_i hk
      rw [if_pos (by simpa using hk), List.append_assoc, List.singleton_append]
    · rename_i hk
      rw [if_neg (by simpa using hk)]

theorem ofKind_ofList (hcs : cs.Pairwise fun c d => c.fingerprint ≠ d.fingerprint) (k : Kind) :
    (ofList cs).ofKind k = cs.filter fun c => c.kind == k := by
  rw [ofList, ofKind_insertAll (fun c _ => contains_empty c) hcs, ofKind_empty, List.nil_append]

theorem pairwise_of_kinds (h : (cs.map Component.kind).Nodup) :
    cs.Pairwise fun c d => c.fingerprint ≠ d.fingerprint :=
  (List.pairwise_map.1 h).imp fun hne heq => hne (congrArg Fingerprint.kind heq)

theorem Orderly.contains_of_mem (h : b.Orderly) (hc : c ∈ b.toList) : b.contains c = true :=
  (h.indexed c).2 ⟨c, hc, rfl⟩

theorem exists_mem_ofList (hc : c ∈ cs) : ∃ d ∈ (ofList cs).toList, d.fingerprint = c.fingerprint :=
  ((orderly_ofList cs).indexed c).1 ((contains_insertAll _ _ _).2 (.inr ⟨c, hc, rfl⟩))

theorem contains_ofList_of_kinds (h : ∀ d ∈ cs, d.kind ≠ c.kind) : (ofList cs).contains c = false := by
  rw [← Bool.not_eq_true]
  intro hcontains
  obtain ⟨d, hd, hkey⟩ := ((orderly_ofList cs).indexed c).1 hcontains
  exact h d (mem_ofList hd) (congrArg Fingerprint.kind hkey)

theorem eq_nil_of_toList_ofList (h : (ofList cs).toList = []) : cs = [] := by
  rw [List.eq_nil_iff_forall_not_mem] at h ⊢
  intro c hc
  obtain ⟨d, hd, _⟩ := exists_mem_ofList hc
  exact h d hd

theorem nodup_kinds : Kind.all.Nodup := by decide

theorem Orderly.pairwise_toList (h : b.Orderly) :
    b.toList.Pairwise fun c d => c.fingerprint ≠ d.fingerprint := by
  refine List.pairwise_flatMap.2 ⟨fun k _ => h.distinct k, ?_⟩
  refine nodup_kinds.imp fun {k l} hkl c hc d hd heq => hkl ?_
  rw [← h.shelved k c hc, ← h.shelved l d hd, Component.kind, heq, Component.kind]

theorem Orderly.eq_of_fingerprint (h : b.Orderly) (hc : c ∈ b.toList) (hd : d ∈ b.toList)
    (heq : c.fingerprint = d.fingerprint) : c = d :=
  List.inj_on_of_nodup_map (List.pairwise_map.2 h.pairwise_toList) hc hd heq

theorem select_sublist : (b.select e slot budget model rs).Sublist b.toList := by
  rw [select, toList]
  refine (List.Sublist.flatMap_right _ fun k _ => ?_).trans (List.Sublist.flatMap List.filter_sublist _)
  rw [Array.toList_filter]
  exact List.filter_sublist

theorem Orderly.pairwise_select (h : b.Orderly) :
    (b.select e slot budget model rs).Pairwise fun c d => c.fingerprint ≠ d.fingerprint :=
  h.pairwise_toList.sublist select_sublist

end Contents

end QuerySearch.Bank

namespace QuerySearch.Workshop

variable {w : Workshop} {slot : Category} {rs : List Requirement} {c : Component}

theorem Fits.admits (h : w.Fits slot rs c) (hbank : w.bank.Orderly) : slot.admits c.kind = true := by
  obtain ⟨⟨k, hk, hc⟩, _⟩ := h
  rwa [hbank.shelved k c hc]

end QuerySearch.Workshop
