import TctiUefi.Lib.Loop
import Mathlib.Computability.StateTransition
import Mathlib.Data.List.Chain

open StateTransition

universe u v

namespace TctiUefi

/-- The elements that a partial successor function leads through, to the last one. -/
inductive Trail {α : Type u} (next : α → Option α) : α → List α → Prop
  | stop {a} (h : next a = none) : Trail next a [a]
  | step {a b as} (h : next a = some b) (hb : Trail next b as) : Trail next a (a :: as)

section Trail

variable {α : Type u} {next : α → Option α} {P : α → Prop} {a b : α} {as : List α}

theorem Trail.mem_iff (h : Trail next a as) : b ∈ as ↔ Reaches next a b := by
  induction h with
  | @stop a hstop =>
    rw [List.mem_singleton]
    constructor
    · rintro rfl
      exact Relation.ReflTransGen.refl
    · intro hreach
      rcases Relation.ReflTransGen.cases_head hreach with heq | ⟨c, hc, _⟩
      · exact heq.symm
      · rw [hstop] at hc
        cases hc
  | @step a c as hstep _ ih =>
    rw [List.mem_cons, ih]
    constructor
    · rintro (rfl | hreach)
      · exact Relation.ReflTransGen.refl
      · exact Relation.ReflTransGen.head hstep hreach
    · intro hreach
      rcases Relation.ReflTransGen.cases_head hreach with heq | ⟨d, hd, hreach⟩
      · exact .inl heq.symm
      · rw [Option.mem_unique hstep hd]
        exact .inr hreach

theorem reaches_forall (hP : ∀ a b, P a → next a = some b → P b) (h : Reaches next a b)
    (ha : P a) : P b := by
  induction h with
  | refl => exact ha
  | tail _ hstep ih => exact hP _ _ ih hstep

theorem Trail.exists_of_lt {μ : α → Nat} (hP : ∀ a b, P a → next a = some b → P b)
    (hμ : ∀ a b, P a → next a = some b → μ b < μ a) (ha : P a) : ∃ as, Trail next a as := by
  induction hn : μ a using Nat.strong_induction_on generalizing a with
  | _ n ih =>
    cases hnext : next a with
    | none => exact ⟨[a], .stop hnext⟩
    | some b =>
      obtain ⟨as, has⟩ := ih (μ b) (hn ▸ hμ a b ha hnext) (hP a b ha hnext) rfl
      exact ⟨a :: as, .step hnext has⟩

theorem Trail.forall_mem (hP : ∀ a b, P a → next a = some b → P b) (h : Trail next a as)
    (ha : P a) : ∀ b ∈ as, P b :=
  fun _ hb => reaches_forall hP (h.mem_iff.mp hb) ha

theorem Trail.isChain {R : α → α → Prop} (hP : ∀ a b, P a → next a = some b → P b)
    (hR : ∀ a b, P a → next a = some b → R a b) (h : Trail next a as) (ha : P a) :
    as.IsChain R := by
  induction h with
  | stop => exact .singleton _
  | @step a b as hstep hb ih =>
    have hrest := ih (hP a b ha hstep)
    cases hb with
    | stop => exact .cons_cons (hR a b ha hstep) hrest
    | step => exact .cons_cons (hR a b ha hstep) hrest

theorem Trail.length_le {pos : α → Nat} {d hi : Nat} (hd : 0 < d)
    (hP : ∀ a b, P a → next a = some b → P b)
    (hpos : ∀ a b, P a → next a = some b → pos a + d ≤ pos b) (hhi : ∀ a, P a → pos a ≤ hi)
    (h : Trail next a as) (ha : P a) : as.length ≤ (hi - pos a) / d + 1 := by
  induction h with
  | stop => exact Nat.le_add_left _ _
  | @step a b as hstep hb ih =>
    have hrest := ih (hP a b ha hstep)
    have hstepPos := hpos a b ha hstep
    have hb := hhi b (hP a b ha hstep)
    have hdiv : (hi - pos b) / d + 1 ≤ (hi - pos a) / d := by
      rw [← Nat.add_div_right _ hd]
      apply Nat.div_le_div_right
      omega
    rw [List.length_cons]
    omega

end Trail

namespace Loop

variable {ε : Type u} {σ ρ : Type v} {body : σ → Trace ε (σ ⊕ ρ)}

def next (body : σ → Trace ε (σ ⊕ ρ)) (s : σ) : Option σ := (body s).val.getLeft?

theorem next_eq_some_iff {s s' : σ} : next body s = some s' ↔ (body s).val = .inl s' := by
  unfold next
  cases (body s).val with
  | inl t => simp
  | inr r => simp

theorem run_succ (n : Nat) (s : σ) :
    (run body (n + 1) s).log = (body s).log ++
      match next body s with
      | some s' => (run body n s').log
      | none => [] := by
  rw [run, Trace.log_bind, next]
  cases (body s).val <;> rfl

theorem run_logs_iff {P : ε → Prop} {s : σ} :
    (∀ n, (run body n s).Logs P) ↔ ∀ s', Reaches (next body) s s' → (body s').Logs P := by
  constructor
  · intro hruns s' hreach
    induction hreach using Relation.ReflTransGen.head_induction_on with
    | refl =>
      intro e he
      apply hruns 1 e
      rw [run_succ]
      exact List.mem_append_left _ he
    | @head s t hstep _ ih =>
      apply ih
      intro n e he
      apply hruns (n + 1) e
      rw [run_succ, Option.mem_def.mp hstep]
      exact List.mem_append_right _ he
  · intro hrounds n
    induction n generalizing s with
    | zero => exact Trace.logs_pure _ _
    | succ n ih =>
      intro e he
      rw [run_succ, List.mem_append] at he
      rcases he with he | he
      · exact hrounds s .refl e he
      · cases hnext : next body s with
        | none =>
          rw [hnext] at he
          cases he
        | some s' =>
          rw [hnext] at he
          exact ih (fun t ht => hrounds t (ht.head hnext)) e he

theorem run_eq_none {P : σ → Prop} (h : ∀ s, P s → ∃ s', next body s = some s' ∧ P s') {s : σ}
    (hs : P s) (n : Nat) : (run body n s).val = none := by
  induction n generalizing s with
  | zero => rfl
  | succ n ih =>
    obtain ⟨s', hnext, hs'⟩ := h s hs
    rw [run, Trace.val_bind, next_eq_some_iff.mp hnext]
    exact ih hs'

def states (body : σ → Trace ε (σ ⊕ ρ)) : Nat → σ → List σ
  | 0, _ => []
  | n + 1, s => s ::
    match next body s with
    | some s' => states body n s'
    | none => []

theorem states_of_next {s s' : σ} (h : next body s = some s') (n : Nat) :
    states body (n + 1) s = s :: states body n s' := by rw [states, h]

theorem states_of_exit {s : σ} (h : next body s = none) (n : Nat) :
    states body (n + 1) s = [s] := by rw [states, h]

theorem log_run_eq (n : Nat) (s : σ) :
    (run body n s).log = (states body n s).flatMap fun t => (body t).log := by
  induction n generalizing s with
  | zero => rfl
  | succ n ih =>
    rw [run_succ]
    cases h : next body s with
    | none => simp [states_of_exit h]
    | some s' => rw [states_of_next h, List.flatMap_cons, ← ih s']

theorem length_states_of_unfinished {n : Nat} {s : σ} (h : (run body n s).val = none) :
    (states body n s).length = n := by
  induction n generalizing s with
  | zero => rfl
  | succ n ih =>
    rw [run, Trace.val_bind] at h
    cases hval : (body s).val with
    | inr r =>
      rw [hval] at h
      cases h
    | inl s' =>
      rw [hval] at h
      rw [states_of_next (next_eq_some_iff.mpr hval), List.length_cons, ih h]

theorem exists_evals_of_length_lt {n : Nat} {s : σ} (h : (states body n s).length < n) :
    ∃ r, Evals body s ⟨r, (run body n s).log⟩ := by
  induction n generalizing s with
  | zero => exact absurd h (Nat.not_lt_zero _)
  | succ n ih =>
    cases hbody : body s with
    | mk val log =>
      cases val with
      | inr r =>
        rw [run_exit hbody]
        exact ⟨r, .exit hbody⟩
      | inl s' =>
        have hnext : next body s = some s' := next_eq_some_iff.mpr (by rw [hbody])
        rw [states_of_next hnext, List.length_cons] at h
        obtain ⟨r, hevals⟩ := ih (Nat.lt_of_succ_lt_succ h)
        rw [run_next hbody]
        exact ⟨r, .next hbody hevals⟩

theorem length_states_le {μ : σ → Nat} {idle : σ → Bool}
    (h : ∀ s s', next body s = some s' → μ s' + 1 ≤ μ s + (idle s).toNat) (n : Nat) (s : σ) :
    (states body n s).length ≤ μ s + 1 + (states body n s).countP idle := by
  induction n generalizing s with
  | zero => exact Nat.zero_le _
  | succ n ih =>
    cases hnext : next body s with
    | none =>
      rw [states_of_exit hnext, List.length_singleton]
      omega
    | some s' =>
      have hbudget := h s s' hnext
      have hrest := ih s'
      have hidle : (s :: states body n s').countP idle =
          (states body n s').countP idle + (idle s).toNat := by
        rw [List.countP_cons]
        cases idle s <;> rfl
      rw [states_of_next hnext, List.length_cons, hidle]
      omega

theorem Evals.of_trail {s : σ} {ss : List σ} {r : ρ} (h : Trail (Loop.next body) s ss)
    (hr : ∀ t ∈ ss, ∀ r', (body t).val = .inr r' → r' = r) :
    Evals body s ⟨r, ss.flatMap fun t => (body t).log⟩ := by
  induction h with
  | @stop s hstop =>
    cases hbody : body s with
    | mk val log =>
      rw [Loop.next, hbody] at hstop
      cases val with
      | inl s' => cases hstop
      | inr r' =>
        obtain rfl : r' = r := hr s (List.mem_singleton_self _) r' (by rw [hbody])
        simpa [hbody] using Evals.exit hbody
  | @step s s' ss hstep _ ih =>
    have hbody : body s = ⟨.inl s', (body s).log⟩ :=
      congrArg (Trace.mk · (body s).log) (next_eq_some_iff.mp hstep)
    exact .next hbody (ih fun t ht => hr t (List.mem_cons_of_mem _ ht))

end Loop

section Feed

variable {α : Type u} {σ : Type v} {f : α → σ → Bool × σ}

def answers (f : α → σ → Bool × σ) : List α → σ → List Bool
  | [], _ => []
  | a :: as, s => (f a s).1 :: answers f as (f a s).2

theorem feed_taken_initial (as : List α) (s : σ) : (feed f as s).taken <+: as := by
  induction as generalizing s with
  | nil => exact List.prefix_refl _
  | cons a as ih =>
    cases h : (f a s).1 with
    | false =>
      rw [feed_cons_of_rejects h]
      exact (List.prefix_cons_inj a).mpr List.nil_prefix
    | true =>
      rw [feed_cons_of_accepts h]
      exact (List.prefix_cons_inj a).mpr (ih _)

theorem feed_ok_iff (as : List α) (s : σ) :
    (feed f as s).ok = false ↔ false ∈ answers f (feed f as s).taken s := by
  induction as generalizing s with
  | nil => simp [answers]
  | cons a as ih =>
    cases h : (f a s).1 with
    | false => simp [feed_cons_of_rejects h, answers, h]
    | true => simp [feed_cons_of_accepts h, answers, h, ih]

end Feed

end TctiUefi
