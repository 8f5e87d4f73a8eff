import TctiUefi.Lib.Machine
import Mathlib.Logic.Function.Basic

universe u v w x y z

namespace TctiUefi

/-- Machines of one kind in an environment that they share: a request turns into a call in the
environment that it meets, and the call with its answer changes the environment. -/
structure Sharing (σ : Type u) (ι : Type v) (ο : Type w) (ρ : Type x) (τ : Type y) where
  machine : Machine σ ι ο
  meet : τ → ρ → ι
  advance : τ → ι × ο → τ

namespace Sharing

variable {σ : Type u} {ι : Type v} {ο : Type w} {ρ : Type x} {τ : Type y} {κ : Type z}

section Own

variable [DecidableEq κ] {β : Type*}

def own (k : κ) (tr : List ((κ × ρ) × β)) : List β :=
  tr.filterMap fun e => if e.1.1 = k then some e.2 else none

theorem own_cons_self (k : κ) (r : ρ) (b : β) (tr : List ((κ × ρ) × β)) :
    own k (((k, r), b) :: tr) = b :: own k tr := by simp [own]

theorem own_cons_other {j k : κ} (h : j ≠ k) (r : ρ) (b : β) (tr : List ((κ × ρ) × β)) :
    own k (((j, r), b) :: tr) = own k tr := by simp [own, h]

end Own

variable (S : Sharing σ ι ο ρ τ)

def alone : Machine (σ × τ) ρ (ι × ο) where
  step s r :=
    let i := S.meet s.2 r
    let a := S.machine.step s.1 i
    ((a.1, S.advance s.2 (i, a.2)), (i, a.2))

def family (κ : Type z) [DecidableEq κ] : Machine ((κ → σ) × τ) (κ × ρ) (ι × ο) where
  step s j :=
    let i := S.meet s.2 j.2
    let r := S.machine.step (s.1 j.1) i
    ((Function.update s.1 j.1 r.1, S.advance s.2 (i, r.2)), (i, r.2))

def environment (t : τ) (tr : List ((κ × ρ) × (ι × ο))) : τ :=
  tr.foldl (fun t e => S.advance t e.2) t

@[simp] theorem environment_cons (t : τ) (e : (κ × ρ) × (ι × ο))
    (tr : List ((κ × ρ) × (ι × ο))) :
    S.environment t (e :: tr) = S.environment (S.advance t e.2) tr := rfl

variable [DecidableEq κ]

theorem own_trace (k : κ) (s : (κ → σ) × τ) (js : List (κ × ρ)) :
    own k ((S.family κ).trace s js) =
        S.machine.trace (s.1 k) ((own k ((S.family κ).trace s js)).map Prod.fst) ∧
      ((S.family κ).final s js).1 k =
        S.machine.final (s.1 k) ((own k ((S.family κ).trace s js)).map Prod.fst) := by
  induction js generalizing s with
  | nil => exact ⟨rfl, rfl⟩
  | cons j js ih =>
    obtain ⟨j, r⟩ := j
    obtain ⟨htrace, hfinal⟩ := ih ((S.family κ).step s (j, r)).1
    rw [Machine.trace_cons, Machine.final_cons]
    by_cases hj : j = k
    · subst hj
      have hstate : ((S.family κ).step s (j, r)).1.1 j =
          (S.machine.step (s.1 j) (S.meet s.2 r)).1 := Function.update_self ..
      rw [hstate] at htrace hfinal
      rw [own_cons_self, List.map_cons, Machine.trace_cons, Machine.final_cons]
      exact ⟨congrArg (_ :: ·) htrace, hfinal⟩
    · have hstate : ((S.family κ).step s (j, r)).1.1 k = s.1 k :=
        Function.update_of_ne (Ne.symm hj) ..
      rw [hstate] at htrace hfinal
      rw [own_cons_other hj]
      exact ⟨htrace, hfinal⟩

theorem meets_environment {s : (κ → σ) × τ} {js : List (κ × ρ)}
    {pre post : List ((κ × ρ) × (ι × ο))} {e : (κ × ρ) × (ι × ο)}
    (h : (S.family κ).trace s js = pre ++ e :: post) :
    e.2.1 = S.meet (S.environment s.2 pre) e.1.2 := by
  induction js generalizing s pre with
  | nil => cases pre <;> cases h
  | cons j js ih =>
    rw [Machine.trace_cons] at h
    cases pre with
    | nil =>
      obtain ⟨rfl, _⟩ := List.cons.inj h
      rfl
    | cons e' pre =>
      obtain ⟨rfl, htail⟩ := List.cons.inj h
      have hmeets := ih htail
      exact hmeets

end Sharing

end TctiUefi
