import Mathlib.Data.List.Basic
import QuerySearch.Binding.Environment

/-! Environments in which a chain has at most one place. -/

namespace QuerySearch.Environment

def count (env : Environment) (f : Fingerprint) : Nat := (env.entries.filter fun e => e.1 == f).length

def Reads (env : Environment) (keys : List Fingerprint) : Prop :=
  ∀ f, f.kind.isReferencable = true → env.count f = if f ∈ keys then 1 else 0

section Counts

variable {env env' : Environment} {keys keys' : List Fingerprint} {c : Component} {p : Place}
  {f : Fingerprint}

theorem mem_places : p ∈ env.places c ↔ (c.fingerprint, p) ∈ env.entries := by
  simp [Environment.places]

theorem length_places : (env.places c).length = env.count c.fingerprint := List.length_map _

theorem Reads.places (h : env.Reads keys) (hkind : c.kind.isReferencable = true)
    (hc : c.fingerprint ∈ keys) : ∃ p, env.places c = [p] := by
  rw [← List.length_eq_one_iff, length_places, h c.fingerprint hkind, if_pos hc]

theorem Reads.no_places (h : env.Reads keys) (hkind : c.kind.isReferencable = true)
    (hc : c.fingerprint ∉ keys) : env.places c = [] := by
  rw [← List.length_eq_zero_iff, length_places, h c.fingerprint hkind, if_neg hc]

theorem contains_iff : env.contains c = true ↔ env.places c ≠ [] := by
  simp [contains, places]

theorem Reads.contains_iff (h : env.Reads keys) (hkind : c.kind.isReferencable = true) :
    env.contains c = true ↔ c.fingerprint ∈ keys := by
  rw [Environment.contains_iff]
  by_cases hc : c.fingerprint ∈ keys
  · obtain ⟨p, hp⟩ := h.places hkind hc
    simp [hp, hc]
  · simp [h.no_places hkind hc, hc]

theorem reads_empty : empty.Reads [] := fun _ _ => rfl

theorem count_bind (hnew : (c.fingerprint, p) ∉ env.entries) :
    (env.bind c p).count f = env.count f + if c.fingerprint = f then 1 else 0 := by
  rw [bind, if_neg (by simpa using hnew), count, List.filter_append, List.length_append, count]
  by_cases hf : c.fingerprint = f <;> simp [hf]

theorem bind_of_mem (hold : (c.fingerprint, p) ∈ env.entries) : env.bind c p = env := by
  rw [bind, if_pos (by simpa using hold)]

theorem Reads.bind (h : env.Reads keys)
    (hold : c.kind.isReferencable = true → c.fingerprint ∈ keys → (c.fingerprint, p) ∈ env.entries) :
    (env.bind c p).Reads (keys ++ [c.fingerprint]) := by
  intro f hf
  by_cases hmem : (c.fingerprint, p) ∈ env.entries
  · rw [bind_of_mem hmem, h f hf]
    by_cases hcf : f = c.fingerprint
    · subst hcf
      have hkey : c.fingerprint ∈ keys := by
        by_contra hne
        have hnone := h.no_places hf hne
        simp only [Environment.places, List.map_eq_nil_iff, List.filter_eq_nil_iff] at hnone
        exact hnone _ hmem (beq_self_eq_true _)
      simp [hkey]
    · simp [hcf]
  · rw [count_bind hmem, h f hf]
    by_cases hcf : f = c.fingerprint
    · subst hcf
      have hkey : c.fingerprint ∉ keys := fun hkey => hmem (hold hf hkey)
      simp [hkey]
    · simp [hcf, Ne.symm hcf]

theorem count_through (source : String) : (env.through source).count f = env.count f := by
  simp only [count, through, List.filter_map, List.length_map]
  rfl

theorem Reads.through (h : env.Reads keys) (source : String) : (env.through source).Reads keys :=
  fun f hf => (count_through source).trans (h f hf)

theorem count_merge_left (h : env'.count f = 0) : (env.merge env').count f = env.count f := by
  rw [count, List.length_eq_zero_iff, List.filter_eq_nil_iff] at h
  rw [count, merge, List.filter_append, List.length_append, count, Nat.add_eq_left,
    List.length_eq_zero_iff, List.filter_eq_nil_iff]
  exact fun e he => h e (List.mem_of_mem_filter he)

theorem count_merge_right (h : env.count f = 0) : (env.merge env').count f = env'.count f := by
  rw [count, List.length_eq_zero_iff, List.filter_eq_nil_iff] at h
  have hkept : (env'.entries.filter fun e => !env.entries.contains e).filter (fun e => e.1 == f) =
      env'.entries.filter fun e => e.1 == f := by
    rw [List.filter_filter]
    refine List.filter_congr fun e _ => ?_
    by_cases he : e.1 = f
    · have hnew : e ∉ env.entries := fun hmem => h e hmem (by simpa using he)
      simp [he, hnew]
    · simp [he]
  have hnone : env.entries.filter (fun e => e.1 == f) = [] := List.filter_eq_nil_iff.2 h
  rw [count, merge, List.filter_append, hkept, hnone]
  rfl

theorem Reads.merge (h : env.Reads keys) (h' : env'.Reads keys')
    (hapart : ∀ f ∈ keys, f.kind.isReferencable = true → f ∉ keys') :
    (env.merge env').Reads (keys ++ keys') := by
  intro f hf
  by_cases hkeys : f ∈ keys
  · have hkeys' : f ∉ keys' := hapart f hkeys hf
    have hnone : env'.count f = 0 := by rw [h' f hf, if_neg hkeys']
    rw [count_merge_left hnone, h f hf]
    simp [hkeys]
  · have hnone : env.count f = 0 := by rw [h f hf, if_neg hkeys]
    rw [count_merge_right hnone, h' f hf]
    simp [hkeys]

end Counts

end QuerySearch.Environment
