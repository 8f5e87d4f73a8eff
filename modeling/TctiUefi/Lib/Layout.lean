import Mathlib.Data.Nat.Basic
import Mathlib.Data.List.Basic

universe u

namespace TctiUefi.Layout

variable {ι : Type u}

structure Span where
  start : Nat
  len : Nat
  deriving DecidableEq

def Span.Within (s : Span) (n : Nat) : Prop := s.start + s.len ≤ n

instance (s : Span) (n : Nat) : Decidable (s.Within n) :=
  inferInstanceAs (Decidable (s.start + s.len ≤ n))

theorem Span.Within.mono {s : Span} {m n : Nat} (h : s.Within m) (hmn : m ≤ n) : s.Within n :=
  Nat.le_trans h hmn

/-- One member of a C struct.  A flexible array member has size 0. -/
structure Member (ι : Type u) where
  name : ι
  size : Nat
  align : Nat

def alignUp (a n : Nat) : Nat := (n + a - 1) / a * a

theorem le_alignUp {a : Nat} (h : 0 < a) (n : Nat) : n ≤ alignUp a n := by
  have hdiv := Nat.div_add_mod (n + a - 1) a
  have hmod := Nat.mod_lt (n + a - 1) h
  have hcomm : (n + a - 1) / a * a = a * ((n + a - 1) / a) := Nat.mul_comm _ _
  unfold alignUp
  omega

/-- The members in order, each at the first offset from `n` on that suits it. -/
def place : Nat → List (Member ι) → List (Member ι × Nat)
  | _, [] => []
  | n, m :: ms => (m, alignUp m.align n) :: place (alignUp m.align n + m.size) ms

def extent : Nat → List (Member ι) → Nat
  | n, [] => n
  | n, m :: ms => extent (alignUp m.align n + m.size) ms

def maxAlign (ms : List (Member ι)) : Nat := ms.foldr (fun m a => max m.align a) 1

def sizeof (ms : List (Member ι)) : Nat := alignUp (maxAlign ms) (extent 0 ms)

/-- The bytes a named member takes; the empty span when there is no such member. -/
def memberSpan [DecidableEq ι] (ms : List (Member ι)) (x : ι) : Span :=
  match (place 0 ms).find? (fun p => p.1.name = x) with
  | some (m, o) => ⟨o, m.size⟩
  | none => ⟨0, 0⟩

def offsetof [DecidableEq ι] (ms : List (Member ι)) (x : ι) : Nat := (memberSpan ms x).start

theorem maxAlign_pos (ms : List (Member ι)) : 0 < maxAlign ms := by
  induction ms with
  | nil => exact Nat.one_pos
  | cons m ms ih => exact Nat.lt_of_lt_of_le ih (Nat.le_max_right _ _)

theorem le_extent {ms : List (Member ι)} (h : ∀ m ∈ ms, 0 < m.align) (n : Nat) :
    n ≤ extent n ms := by
  induction ms generalizing n with
  | nil => exact Nat.le_refl n
  | cons m ms ih =>
    have hm : n ≤ alignUp m.align n := le_alignUp (h m (List.mem_cons_self ..)) n
    have hms := ih (fun m' hm' => h m' (List.mem_cons_of_mem _ hm')) (alignUp m.align n + m.size)
    simp only [extent]
    omega

theorem place_le_extent {ms : List (Member ι)} (h : ∀ m ∈ ms, 0 < m.align) {n : Nat}
    {p : Member ι × Nat} (hp : p ∈ place n ms) : p.2 + p.1.size ≤ extent n ms := by
  induction ms generalizing n with
  | nil => simp [place] at hp
  | cons m ms ih =>
    have htail : ∀ m' ∈ ms, 0 < m'.align := fun m' hm' => h m' (List.mem_cons_of_mem _ hm')
    simp only [place, List.mem_cons] at hp
    rcases hp with rfl | hp
    · exact le_extent htail _
    · exact ih htail hp

theorem memberSpan_within [DecidableEq ι] {ms : List (Member ι)} (h : ∀ m ∈ ms, 0 < m.align)
    (x : ι) : (memberSpan ms x).Within (sizeof ms) := by
  have hext : extent 0 ms ≤ sizeof ms := le_alignUp (maxAlign_pos ms) _
  unfold memberSpan
  split
  · rename_i m o hfind
    exact Nat.le_trans (place_le_extent h (List.mem_of_find?_eq_some hfind)) hext
  · exact Nat.zero_le _

end TctiUefi.Layout
