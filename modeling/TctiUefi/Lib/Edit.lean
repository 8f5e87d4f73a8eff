import Mathlib.Data.Set.Insert
import Mathlib.Data.List.Induction

universe u

namespace TctiUefi

inductive Edit (α : Type u)
  | insert (a : α)
  | erase (a : α)

namespace Edit

variable {α : Type u}

def target : Edit α → α
  | .insert a => a
  | .erase a => a

def inserts : Edit α → Bool
  | .insert _ => true
  | .erase _ => false

def apply (s : Set α) : Edit α → Set α
  | .insert a => Insert.insert a s
  | .erase a => s \ {a}

def run (s : Set α) (es : List (Edit α)) : Set α := es.foldl apply s

def lastOn [DecidableEq α] (x : α) (es : List (Edit α)) : Option (Edit α) :=
  (es.filter fun e => e.target = x).getLast?

theorem mem_apply_iff {s : Set α} {e : Edit α} {x : α} :
    x ∈ apply s e ↔ (e.target = x ∧ e.inserts = true) ∨ (e.target ≠ x ∧ x ∈ s) := by
  cases e with
  | insert a =>
    simp only [apply, target, inserts, Set.mem_insert_iff, and_true]
    by_cases h : a = x
    · simp [h]
    · simp [h, Ne.symm h]
  | erase a =>
    simp only [apply, target, inserts, Set.mem_sdiff, Set.mem_singleton_iff]
    by_cases h : a = x
    · simp [h]
    · simp [h, Ne.symm h]

theorem mem_run_iff [DecidableEq α] {s : Set α} {es : List (Edit α)} {x : α} :
    x ∈ run s es ↔
      match lastOn x es with
      | some e => e.inserts = true
      | none => x ∈ s := by
  induction es using List.reverseRecOn with
  | nil => exact Iff.rfl
  | append_singleton es e ih =>
    rw [run, List.foldl_append, List.foldl_cons, List.foldl_nil, mem_apply_iff, lastOn,
      List.filter_append]
    by_cases h : e.target = x
    · have hkeep : [e].filter (fun e => decide (e.target = x)) = [e] := by simp [h]
      rw [hkeep, List.getLast?_concat]
      simp [h]
    · have hdrop : [e].filter (fun e => decide (e.target = x)) = [] := by simp [h]
      rw [hdrop, List.append_nil]
      simp only [h, false_and, false_or, ne_eq, not_false_eq_true, true_and]
      exact ih

end Edit

end TctiUefi
