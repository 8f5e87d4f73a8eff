import Mathlib.Data.Finset.Basic
import Mathlib.Data.Finset.Lattice.Lemmas
import Mathlib.Data.Finset.Dedup

universe u v

namespace TctiUefi

/-- A pool of blocks, each known by its address.  A block that is freed although it is not
allocated is kept note of. -/
structure Pool (α : Type u) where
  live : Finset α
  misfreed : List α

/-- A function that allocates, or fails, as it likes.  A block that it returns is a new one. -/
structure Allocator (α : Type u) (ς : Type v) where
  allocate : Finset α → ς → Option α
  fresh : ∀ live size p, allocate live size = some p → p ∉ live

namespace Pool

variable {α : Type u} [DecidableEq α]

def take (P : Pool α) (p : α) : Pool α := { P with live := insert p P.live }

def free (P : Pool α) (p : α) : Pool α :=
  if p ∈ P.live then { P with live := P.live.erase p } else { P with misfreed := p :: P.misfreed }

theorem free_take {P : Pool α} {p : α} (h : p ∉ P.live) : (P.take p).free p = P := by
  have hp : p ∈ (P.take p).live := Finset.mem_insert_self p P.live
  rw [free, if_pos hp, take]
  simp only [Finset.erase_insert h]

/-- Besides the blocks of a base, the live blocks are some owned ones, each owned once.  No
block was freed that was not allocated. -/
structure Owns (base : Finset α) (owned : List α) (P : Pool α) : Prop where
  nodup : owned.Nodup
  disjoint : ∀ p ∈ owned, p ∉ base
  live : P.live = base ∪ owned.toFinset
  misfreed : P.misfreed = []

namespace Owns

variable {base : Finset α} {owned owned' : List α} {P P' : Pool α} {p : α}

theorem initial (base : Finset α) : Owns base [] ⟨base, []⟩ where
  nodup := List.nodup_nil
  disjoint := by simp
  live := by simp
  misfreed := rfl

theorem mem_live (h : Owns base owned P) (hp : p ∈ owned) : p ∈ P.live := by
  rw [h.live]
  exact Finset.mem_union_right _ (List.mem_toFinset.mpr hp)

theorem perm (h : Owns base owned P) (hperm : owned.Perm owned') : Owns base owned' P where
  nodup := hperm.nodup h.nodup
  disjoint p hp := h.disjoint p (hperm.mem_iff.mpr hp)
  live := by rw [h.live, List.toFinset_eq_of_perm _ _ hperm]
  misfreed := h.misfreed

theorem take (h : Owns base owned P) (hp : p ∉ P.live) : Owns base (p :: owned) (P.take p) where
  nodup := List.nodup_cons.mpr ⟨fun hmem => hp (h.mem_live hmem), h.nodup⟩
  disjoint q hq := by
    rcases List.mem_cons.mp hq with rfl | hq
    · intro hbase
      apply hp
      rw [h.live]
      exact Finset.mem_union_left _ hbase
    · exact h.disjoint q hq
  live := by rw [Pool.take, h.live, List.toFinset_cons, Finset.union_insert]
  misfreed := h.misfreed

theorem free (h : Owns base (p :: owned) P) : Owns base owned (P.free p) := by
  have hp : p ∈ P.live := h.mem_live (List.mem_cons_self ..)
  have hbase : p ∉ base := h.disjoint p (List.mem_cons_self ..)
  have howned : p ∉ owned.toFinset := fun hmem =>
    (List.nodup_cons.mp h.nodup).1 (List.mem_toFinset.mp hmem)
  rw [Pool.free, if_pos hp]
  constructor
  · exact (List.nodup_cons.mp h.nodup).2
  · exact fun q hq => h.disjoint q (List.mem_cons_of_mem _ hq)
  · rw [h.live, List.toFinset_cons, Finset.union_insert, Finset.erase_insert]
    exact fun hmem => (Finset.mem_union.mp hmem).elim hbase howned
  · exact h.misfreed

theorem not_owns_take (h : Owns base owned P) (hp : p ∉ P.live) : ¬Owns base owned (P.take p) := by
  intro hleak
  have hmem : p ∈ (P.take p).live := Finset.mem_insert_self _ _
  rw [hleak.live, ← h.live] at hmem
  exact hp hmem

end Owns

end Pool

end TctiUefi
