import QuerySearch.Component.Kind
import QuerySearch.Hash.Xxh64

/-! Fingerprints: the kind of a component and a hash of its fields, in which the fields that are
components stand for themselves by their own fingerprints. -/

namespace QuerySearch

structure Fingerprint where
  kind : Kind
  hash : UInt64
  deriving DecidableEq, Inhabited

namespace Fingerprint

instance : Hashable Fingerprint := ⟨Fingerprint.hash⟩

instance : LT Fingerprint :=
  ⟨fun a b => a.kind.rank < b.kind.rank ∨ a.kind.rank = b.kind.rank ∧ a.hash < b.hash⟩

instance (a b : Fingerprint) : Decidable (a < b) :=
  inferInstanceAs (Decidable (a.kind.rank < b.kind.rank ∨ a.kind.rank = b.kind.rank ∧ a.hash < b.hash))

def rank (a : Fingerprint) : Nat := a.kind.rank * UInt64.size + a.hash.toNat

theorem lt_iff_rank {a b : Fingerprint} : a < b ↔ a.rank < b.rank := by
  have ha := a.hash.toNat_lt
  have hb := b.hash.toNat_lt
  change (a.kind.rank < b.kind.rank ∨ a.kind.rank = b.kind.rank ∧ a.hash < b.hash) ↔ _
  simp only [rank, UInt64.size, UInt64.lt_iff_toNat_lt]
  omega

theorem rank_injective {a b : Fingerprint} (h : a.rank = b.rank) : a = b := by
  have ha := a.hash.toNat_lt
  have hb := b.hash.toNat_lt
  simp only [rank, UInt64.size] at h
  have hk : a.kind = b.kind := Kind.rank_injective (by omega)
  have hh : a.hash = b.hash := UInt64.toNat_inj.1 (by omega)
  cases a; cases b; simp_all

theorem lt_irrefl (a : Fingerprint) : ¬a < a := by simp [lt_iff_rank]

theorem lt_trans {a b c : Fingerprint} (h : a < b) (h' : b < c) : a < c := by
  rw [lt_iff_rank] at *; omega

theorem eq_of_not_lt {a b : Fingerprint} (h : ¬a < b) (h' : ¬b < a) : a = b :=
  rank_injective (by rw [lt_iff_rank] at *; omega)

/-- What a hash is taken over: the fields of a component, one after the other. -/
inductive Field where
  | tag (n : Nat)
  | word (v : UInt64)
  | text (s : String)
  | component (f : Fingerprint)
  deriving DecidableEq

def wordBytes (v : UInt64) : List UInt8 :=
  [v.toUInt8, (v >>> 8).toUInt8, (v >>> 16).toUInt8, (v >>> 24).toUInt8, (v >>> 32).toUInt8,
    (v >>> 40).toUInt8, (v >>> 48).toUInt8, (v >>> 56).toUInt8]

def Field.bytes : Field → List UInt8
  | tag n => [n.toUInt8]
  | word v => wordBytes v
  | text s => wordBytes s.utf8ByteSize.toUInt64 ++ s.toUTF8.toList
  | component f => f.kind.rank.toUInt8 :: wordBytes f.hash

def encoding (kind : Kind) (fields : List Field) : List UInt8 :=
  kind.rank.toUInt8 :: fields.flatMap Field.bytes

def seed : UInt64 := 0x517cc1b727220a95

def ofFields (kind : Kind) (fields : List Field) : Fingerprint :=
  ⟨kind, Xxh64.hash seed (encoding kind fields)⟩

end Fingerprint

end QuerySearch
