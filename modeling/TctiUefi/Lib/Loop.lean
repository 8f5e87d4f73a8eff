import TctiUefi.Lib.Trace
import Mathlib.Data.List.Basic

universe u v

namespace TctiUefi

/-- A fuelled computation comes to an end: with enough fuel it gives `t`. -/
def Halts {ε : Type u} {ρ : Type v} (f : Nat → Trace ε (Option ρ)) (t : Trace ε ρ) : Prop :=
  ∃ n, ∀ k, n ≤ k → f k = ⟨some t.val, t.log⟩

theorem Halts.unique {f : Nat → Trace ε (Option ρ)} {t t' : Trace ε ρ} (h : Halts f t)
    (h' : Halts f t') : t = t' := by
  obtain ⟨n, hn⟩ := h
  obtain ⟨n', hn'⟩ := h'
  have heq := (hn (n + n') (Nat.le_add_right _ _)).symm.trans (hn' (n + n') (Nat.le_add_left _ _))
  cases t
  cases t'
  simpa using heq

namespace Loop

variable {ε : Type u} {σ ρ : Type v}

/-- A C loop.  The body goes on with a new state, or leaves the loop with a result. -/
def run (body : σ → Trace ε (σ ⊕ ρ)) : Nat → σ → Trace ε (Option ρ)
  | 0, _ => pure none
  | n + 1, s => do
    match ← body s with
    | .inl s' => run body n s'
    | .inr r => pure (some r)

inductive Evals (body : σ → Trace ε (σ ⊕ ρ)) : σ → Trace ε ρ → Prop
  | exit {s r log} (h : body s = ⟨.inr r, log⟩) : Evals body s ⟨r, log⟩
  | next {s s' log t} (h : body s = ⟨.inl s', log⟩) (ht : Evals body s' t) :
      Evals body s ⟨t.val, log ++ t.log⟩

variable {body : σ → Trace ε (σ ⊕ ρ)}

theorem run_exit (h : body s = ⟨.inr r, log⟩) (n : Nat) : run body (n + 1) s = ⟨some r, log⟩ := by
  simp [run, bind, h]

theorem run_next (h : body s = ⟨.inl s', log⟩) (n : Nat) :
    run body (n + 1) s = ⟨(run body n s').val, log ++ (run body n s').log⟩ := by
  simp [run, bind, h]

theorem Evals.halts {s : σ} {t : Trace ε ρ} (h : Evals body s t) :
    Halts (fun n => run body n s) t := by
  induction h with
  | exit h =>
    refine ⟨1, ?_⟩
    intro k hk
    cases k with
    | zero => exact absurd hk (by simp)
    | succ k => exact run_exit h k
  | @next s s' log t h ht ih =>
    obtain ⟨n, hn⟩ := ih
    refine ⟨n + 1, ?_⟩
    intro k hk
    cases k with
    | zero => exact absurd hk (by simp)
    | succ k =>
      have hrest : run body k s' = ⟨some t.val, t.log⟩ := hn k (Nat.le_of_succ_le_succ hk)
      change run body (k + 1) s = _
      rw [run_next h k, hrest]

theorem run_logs {P : ε → Prop} (h : ∀ s, (body s).Logs P) (n : Nat) (s : σ) :
    (run body n s).Logs P := by
  induction n generalizing s with
  | zero => exact Trace.logs_pure _ _
  | succ n ih =>
    refine (h s).bind ?_
    split
    · exact ih _
    · exact Trace.logs_pure _ _

end Loop

def forWhile {ε : Type u} {α : Type*} {σ : Type v} (f : α → σ → Trace ε (Bool × σ)) :
    List α → σ → Trace ε (Bool × σ)
  | [], s => pure (true, s)
  | a :: as, s => do
    let r ← f a s
    if r.1 then forWhile f as r.2 else pure (false, r.2)

section ForWhile

variable {ε : Type u} {α β : Type*} {σ : Type v}

theorem forWhile_append (f : α → σ → Trace ε (Bool × σ)) (as bs : List α) (s : σ) :
    forWhile f (as ++ bs) s = (do
      let r ← forWhile f as s
      if r.1 then forWhile f bs r.2 else pure (false, r.2)) := by
  induction as generalizing s with
  | nil => rfl
  | cons a as ih =>
    simp only [List.cons_append, forWhile, bind_assoc]
    congr 1
    funext r
    split
    · exact ih _
    · rfl

theorem forWhile_congr {f g : α → σ → Trace ε (Bool × σ)} {as : List α}
    (h : ∀ a ∈ as, ∀ s, f a s = g a s) (s : σ) : forWhile f as s = forWhile g as s := by
  induction as generalizing s with
  | nil => rfl
  | cons a as ih =>
    rw [forWhile, forWhile, h a (List.mem_cons_self ..)]
    congr 1
    funext r
    rw [ih fun a' ha' => h a' (List.mem_cons_of_mem _ ha')]

theorem forWhile_map (f : β → σ → Trace ε (Bool × σ)) (g : α → β) (as : List α) (s : σ) :
    forWhile f (as.map g) s = forWhile (fun a => f (g a)) as s := by
  induction as generalizing s with
  | nil => rfl
  | cons a as ih =>
    simp only [List.map_cons, forWhile]
    congr 1
    funext r
    rw [ih]

theorem forWhile_flatMap (f : β → σ → Trace ε (Bool × σ)) (g : α → List β) (as : List α) (s : σ) :
    forWhile f (as.flatMap g) s = forWhile (fun a => forWhile f (g a)) as s := by
  induction as generalizing s with
  | nil => rfl
  | cons a as ih =>
    rw [List.flatMap_cons, forWhile_append, forWhile]
    congr 1
    funext r
    rw [ih]

theorem forWhile_filter (f : α → σ → Trace ε (Bool × σ)) (p : α → Bool) (as : List α) (s : σ) :
    forWhile f (as.filter p) s =
      forWhile (fun a s => if p a then f a s else pure (true, s)) as s := by
  induction as generalizing s with
  | nil => rfl
  | cons a as ih =>
    by_cases h : p a = true
    · simp only [List.filter_cons_of_pos h, forWhile, h, if_true]
      congr 1
      funext r
      rw [ih]
    · simp only [List.filter_cons_of_neg h, forWhile, h, Bool.false_eq_true, if_false, pure_bind,
        if_true]
      exact ih s

end ForWhile

/-- What is left of a list that is handed, element by element, to a function that may
reject one: the elements it was called on, whether it accepted them all, and its state. -/
structure Fed (α : Type u) (σ : Type v) where
  taken : List α
  ok : Bool
  state : σ

def feed {α : Type u} {σ : Type v} (f : α → σ → Bool × σ) : List α → σ → Fed α σ
  | [], s => ⟨[], true, s⟩
  | a :: as, s =>
    if (f a s).1 then
      let rest := feed f as (f a s).2
      ⟨a :: rest.taken, rest.ok, rest.state⟩
    else
      ⟨[a], false, (f a s).2⟩

section Feed

variable {α : Type u} {σ : Type v} {f : α → σ → Bool × σ}

@[simp] theorem feed_nil (f : α → σ → Bool × σ) (s : σ) : feed f [] s = ⟨[], true, s⟩ := rfl

theorem feed_cons_of_accepts (h : (f a s).1 = true) (as : List α) :
    feed f (a :: as) s = ⟨a :: (feed f as (f a s).2).taken, (feed f as (f a s).2).ok,
      (feed f as (f a s).2).state⟩ := by simp [feed, h]

theorem feed_cons_of_rejects (h : (f a s).1 = false) (as : List α) :
    feed f (a :: as) s = ⟨[a], false, (f a s).2⟩ := by simp [feed, h]

theorem feed_taken_of_ok {as : List α} {s : σ} (h : (feed f as s).ok = true) :
    (feed f as s).taken = as := by
  induction as generalizing s with
  | nil => rfl
  | cons a as ih =>
    cases ha : (f a s).1 with
    | false =>
      rw [feed_cons_of_rejects ha] at h
      cases h
    | true =>
      rw [feed_cons_of_accepts ha] at h ⊢
      exact congrArg (a :: ·) (ih h)

theorem feed_taken_of_accepting (h : ∀ a s, (f a s).1 = true) (as : List α) (s : σ) :
    (feed f as s).taken = as := by
  induction as generalizing s with
  | nil => rfl
  | cons a as ih => rw [feed_cons_of_accepts (h a s), ih]

def observed (f : α → σ → Bool × σ) (a : α) (s : σ) : Trace α (Bool × σ) := ⟨f a s, [a]⟩

theorem forWhile_observed (as : List α) (s : σ) :
    forWhile (observed f) as s =
      ⟨((feed f as s).ok, (feed f as s).state), (feed f as s).taken⟩ := by
  induction as generalizing s with
  | nil => rfl
  | cons a as ih =>
    cases h : (f a s).1 with
    | false =>
      rw [feed_cons_of_rejects h]
      simp [forWhile, observed, bind, pure, h]
    | true =>
      rw [feed_cons_of_accepts h]
      simp [forWhile, observed, bind, h, ih]

end Feed

end TctiUefi
