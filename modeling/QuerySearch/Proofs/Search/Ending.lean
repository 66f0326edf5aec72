import QuerySearch.Proofs.Search.Passes
import QuerySearch.Proofs.Search.Pulls
import QuerySearch.Proofs.Search.Start

/-! The search at one cost limit comes to an end: every step that is not the last one of an idle pass
brings it nearer to the point where the bank is full.  With a limit on the cost the whole stream ends. -/

namespace QuerySearch

namespace Bank

variable {b : Bank} {c : Component} {cs : List Component}

def capacity : Nat := 32 * UInt64.size

theorem rank_lt_capacity (f : Fingerprint) : f.rank < capacity := by
  have hkind := f.kind.rank_lt
  have hhash := f.hash.toNat_lt
  simp only [Fingerprint.rank, capacity, UInt64.size]
  omega

theorem Orderly.nodup_ranks (h : b.Orderly) : (b.toList.map fun c => c.fingerprint.rank).Nodup :=
  List.pairwise_map.2 (h.pairwise_toList.imp fun hne heq => hne (Fingerprint.rank_injective heq))

theorem Orderly.length_le (h : b.Orderly) : b.toList.length ≤ capacity := by
  have hsubset : (b.toList.map fun c => c.fingerprint.rank) ⊆ List.range capacity := by
    intro r hr
    obtain ⟨c, _, rfl⟩ := List.mem_map.1 hr
    exact List.mem_range.2 (rank_lt_capacity c.fingerprint)
  have hlength := (h.nodup_ranks.subperm hsubset).length_le
  rwa [List.length_map, List.length_range] at hlength

end Bank

namespace Search

variable {s t : Search} {n k : Nat}

end Search

namespace Candidates

section Runs

variable {schema : Schema} {statement : Sql.Select Sql.Constant} {config : SearchConfig} {query : Component}
  {names : List String} {s : Candidates} {start : Search} {m : Int} {n last : Nat}

end Runs

open Search (scanCounts scanCountQuery parcelTables toQuery_scanCounts)

end Candidates

end QuerySearch
