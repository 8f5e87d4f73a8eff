import Mathlib.Data.List.Forall2

universe u v w

namespace TctiUefi

structure Machine (σ : Type u) (ι : Type v) (ο : Type w) where
  step : σ → ι → σ × ο

namespace Machine

variable {σ : Type u} {ι : Type v} {ο : Type w}

def final (M : Machine σ ι ο) : σ → List ι → σ
  | s, [] => s
  | s, i :: is => M.final (M.step s i).1 is

def trace (M : Machine σ ι ο) : σ → List ι → List (ι × ο)
  | _, [] => []
  | s, i :: is => (i, (M.step s i).2) :: M.trace (M.step s i).1 is

variable (M : Machine σ ι ο)

@[simp] theorem final_nil (s : σ) : M.final s [] = s := rfl

@[simp] theorem final_cons (s : σ) (i : ι) (is : List ι) :
    M.final s (i :: is) = M.final (M.step s i).1 is := rfl

@[simp] theorem trace_nil (s : σ) : M.trace s [] = [] := rfl

@[simp] theorem trace_cons (s : σ) (i : ι) (is : List ι) :
    M.trace s (i :: is) = (i, (M.step s i).2) :: M.trace (M.step s i).1 is := rfl

def Preserves (P : σ → Prop) : Prop := ∀ s i, P s → P (M.step s i).1

variable {M}

theorem Preserves.final {P : σ → Prop} (h : M.Preserves P) {s : σ} (hs : P s) (is : List ι) :
    P (M.final s is) := by
  induction is generalizing s with
  | nil => exact hs
  | cons i is ih => exact ih (h s i hs)

theorem Preserves.trace {P : σ → Prop} {Q : ι × ο → Prop} (h : M.Preserves P)
    (hQ : ∀ s i, P s → Q (i, (M.step s i).2)) {s : σ} (hs : P s) (is : List ι) :
    ∀ e ∈ M.trace s is, Q e := by
  induction is generalizing s with
  | nil => simp
  | cons i is ih =>
    intro e he
    rcases List.mem_cons.mp he with rfl | he
    · exact hQ s i hs
    · exact ih (h s i hs) e he

theorem trace_of_related {τ : Type*} {N : Machine τ ι ο} {R : σ → τ → Prop} {D : ι → Prop}
    (h : ∀ s t i, D i → R s t →
      (M.step s i).2 = (N.step t i).2 ∧ R (M.step s i).1 (N.step t i).1)
    {s : σ} {t : τ} (hR : R s t) {is : List ι} (his : ∀ i ∈ is, D i) :
    M.trace s is = N.trace t is ∧ R (M.final s is) (N.final t is) := by
  induction is generalizing s t with
  | nil => exact ⟨rfl, hR⟩
  | cons i is ih =>
    obtain ⟨hi, his⟩ := List.forall_mem_cons.mp his
    obtain ⟨hanswer, hstep⟩ := h s t i hi hR
    obtain ⟨htrace, hfinal⟩ := ih hstep his
    rw [trace_cons, trace_cons, hanswer, htrace]
    exact ⟨rfl, hfinal⟩

def states (M : Machine σ ι ο) : σ → List ι → List σ
  | s, [] => [s]
  | s, i :: is => s :: M.states (M.step s i).1 is

theorem Preserves.states {P : σ → Prop} (h : M.Preserves P) {s : σ} (hs : P s) (is : List ι) :
    ∀ t ∈ M.states s is, P t := by
  induction is generalizing s with
  | nil => exact List.forall_mem_singleton.mpr hs
  | cons i is ih => exact List.forall_mem_cons.mpr ⟨hs, ih (h s i hs)⟩

/-- Every call meets the condition `C` in the state it is executed in. -/
def Along (M : Machine σ ι ο) (C : σ → ι → Prop) : σ → List ι → Prop
  | _, [] => True
  | s, i :: is => C s i ∧ M.Along C (M.step s i).1 is

theorem forall_states_iff {D C : σ → ι → Prop} {I P : σ → Prop} (hP : ∀ s, I s → P s)
    (hkeeps : ∀ s i, D s i → I s → C s i → I (M.step s i).1)
    (hbreaks : ∀ s i, D s i → I s → ¬C s i → ¬P (M.step s i).1) {s : σ} {is : List ι}
    (hD : M.Along D s is) (hs : I s) : (∀ t ∈ M.states s is, P t) ↔ M.Along C s is := by
  induction is generalizing s with
  | nil => simp [states, Along, hP s hs]
  | cons i is ih =>
    rw [states, List.forall_mem_cons, Along, and_iff_right (hP s hs)]
    by_cases hC : C s i
    · rw [and_iff_right hC]
      exact ih hD.2 (hkeeps s i hD.1 hs hC)
    · refine iff_of_false ?_ fun h => hC h.1
      intro hstates
      apply hbreaks s i hD.1 hs hC
      apply hstates
      cases is with
      | nil => exact List.mem_singleton_self _
      | cons j js => exact List.mem_cons_self ..

section Simulation

variable {α : Type*} {Λ : Type*}

inductive Path (Step : α → Λ → α → Prop) : α → List Λ → α → Prop
  | nil {p} : Path Step p [] p
  | cons {p q r a as} : Step p a q → Path Step q as r → Path Step p (a :: as) r

theorem Path.append_inv {Step : α → Λ → α → Prop} {p r : α} {as bs : List Λ}
    (h : Path Step p (as ++ bs) r) : ∃ q, Path Step p as q ∧ Path Step q bs r := by
  induction as generalizing p with
  | nil => exact ⟨p, .nil, h⟩
  | cons a as ih =>
    cases h with
    | cons hstep h =>
      obtain ⟨q, has, hbs⟩ := ih h
      exact ⟨q, .cons hstep has, hbs⟩

/-- Each step of the machine is matched by a step between related abstract states,
under a label that the call and its answer allow. -/
def Simulates (M : Machine σ ι ο) (Step : α → Λ → α → Prop) (Obs : ι × ο → Λ → Prop)
    (R : σ → α → Prop) : Prop :=
  ∀ s p i, R s p → ∃ a q, Obs (i, (M.step s i).2) a ∧ Step p a q ∧ R (M.step s i).1 q

theorem Simulates.path {Step : α → Λ → α → Prop} {Obs : ι × ο → Λ → Prop} {R : σ → α → Prop}
    (h : M.Simulates Step Obs R) {s : σ} {p : α} (hR : R s p) (is : List ι) :
    ∃ as q, List.Forall₂ Obs (M.trace s is) as ∧ Path Step p as q ∧ R (M.final s is) q := by
  induction is generalizing s p with
  | nil => exact ⟨[], p, .nil, .nil, hR⟩
  | cons i is ih =>
    obtain ⟨a, q, hobs, hstep, hq⟩ := h s p i hR
    obtain ⟨as, r, has, hpath, hr⟩ := ih hq
    exact ⟨a :: as, r, .cons hobs has, .cons hstep hpath, hr⟩

theorem forall₂_append_left_inv {β : Type*} {R : Λ → β → Prop} {xs : List Λ} {x : Λ}
    {ys : List Λ} {bs : List β} (h : List.Forall₂ R (xs ++ x :: ys) bs) :
    ∃ as b cs, bs = as ++ b :: cs ∧ List.Forall₂ R xs as ∧ R x b ∧ List.Forall₂ R ys cs := by
  induction xs generalizing bs with
  | nil =>
    cases h with
    | cons hx hys => exact ⟨[], _, _, rfl, .nil, hx, hys⟩
  | cons z xs ih =>
    cases h with
    | cons hz htail =>
      obtain ⟨as, b, cs, rfl, hxs, hx, hys⟩ := ih htail
      exact ⟨_ :: as, b, cs, rfl, .cons hz hxs, hx, hys⟩

theorem forall₂_append_right_inv {β : Type*} {R : β → Λ → Prop} {xs : List Λ} {x : Λ}
    {ys : List Λ} {bs : List β} (h : List.Forall₂ R bs (xs ++ x :: ys)) :
    ∃ as b cs, bs = as ++ b :: cs ∧ List.Forall₂ R as xs ∧ R b x ∧ List.Forall₂ R cs ys := by
  obtain ⟨as, b, cs, hbs, hxs, hx, hys⟩ := forall₂_append_left_inv (R := flip R) h.flip
  exact ⟨as, b, cs, hbs, hxs.flip, hx, hys.flip⟩

theorem filterMap_eq_of_forall₂ {β γ : Type*} {f : Λ → Option γ} {g : β → Option γ}
    {R : Λ → β → Prop} (hR : ∀ x b, R x b → f x = g b) {xs : List Λ} {bs : List β}
    (h : List.Forall₂ R xs bs) : xs.filterMap f = bs.filterMap g := by
  induction h with
  | nil => rfl
  | cons hx _ ih => simp only [List.filterMap_cons, hR _ _ hx, ih]

end Simulation

/-- A run whose calls are marked: `true` for the calls that belong to it, `false` for
the calls inserted into it. -/
abbrev Marked (ι : Type v) := List (Bool × ι)

def Marked.all (js : Marked ι) : List ι := js.map Prod.snd

def Marked.kept (js : Marked ι) : List ι := (js.filter Prod.fst).map Prod.snd

def keptTrace (M : Machine σ ι ο) : σ → Marked ι → List (ι × ο)
  | _, [] => []
  | s, (true, j) :: js => (j, (M.step s j).2) :: M.keptTrace (M.step s j).1 js
  | s, (false, j) :: js => M.keptTrace (M.step s j).1 js

def Insertions (M : Machine σ ι ο) (C : σ → ι → Prop) : σ → Marked ι → Prop
  | _, [] => True
  | s, (b, j) :: js => (b = false → C s j) ∧ M.Insertions C (M.step s j).1 js

theorem keptTrace_eq_filter (M : Machine σ ι ο) (s : σ) (js : Marked ι) :
    M.keptTrace s js =
      ((js.zip (M.trace s js.all)).filter (fun p => p.1.1)).map Prod.snd := by
  induction js generalizing s with
  | nil => rfl
  | cons j js ih =>
    obtain ⟨b, j⟩ := j
    cases b <;> simpa [keptTrace, Marked.all] using ih _

theorem keptTrace_eq_trace {C : σ → ι → Prop} (hC : ∀ s j, C s j → (M.step s j).1 = s)
    {s : σ} {js : Marked ι} (h : M.Insertions C s js) :
    M.keptTrace s js = M.trace s js.kept := by
  induction js generalizing s with
  | nil => rfl
  | cons j js ih =>
    obtain ⟨b, j⟩ := j
    obtain ⟨hj, htail⟩ := h
    cases b with
    | true => simpa [keptTrace, Marked.kept] using ih htail
    | false =>
      have hs : (M.step s j).1 = s := hC s j (hj rfl)
      rw [hs] at htail
      simpa [keptTrace, Marked.kept, hs] using ih htail

end Machine

end TctiUefi
