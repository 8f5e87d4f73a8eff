import TctiUefi.Lib.Machine
import TctiUefi.Lib.Trace

universe u v w x y z

namespace TctiUefi

/-- A program that asks for answers, one after another, and says what it does on the way. -/
inductive Client (ε : Type u) (ι : Type v) (ο : Type w) (α : Type x)
  | done (a : α)
  | tell (e : ε) (rest : Client ε ι ο α)
  | ask (i : ι) (rest : ο → Client ε ι ο α)

namespace Client

variable {ε : Type u} {ι : Type v} {ο : Type w} {α : Type x} {σ : Type y} {τ : Type z}

def bind {β : Type x} : Client ε ι ο α → (α → Client ε ι ο β) → Client ε ι ο β
  | .done a, f => f a
  | .tell e rest, f => .tell e (rest.bind f)
  | .ask i rest, f => .ask i fun o => (rest o).bind f

def run (M : Machine σ ι ο) : Client ε ι ο α → σ → Trace (ε ⊕ ι × ο) (α × σ)
  | .done a, s => ⟨(a, s), []⟩
  | .tell e rest, s => ⟨(rest.run M s).val, .inl e :: (rest.run M s).log⟩
  | .ask i rest, s =>
    let r := M.step s i
    ⟨((rest r.2).run M r.1).val, .inr (i, r.2) :: ((rest r.2).run M r.1).log⟩

instance : Monad (Client ε ι ο) where
  pure := .done
  bind := bind

def call (i : ι) : Client ε ι ο ο := .ask i .done

def say (e : ε) : Client ε ι ο PUnit := .tell e (.done ⟨⟩)

def ofTrace (x : Trace ε α) : Client ε ι ο α := x.log.foldr .tell (.done x.val)

def callsOf (x : Trace (ε ⊕ ι × ο) α) : List (ι × ο) := x.log.filterMap Sum.getRight?

def said (x : Trace (ε ⊕ ι × ο) α) : List ε := x.log.filterMap Sum.getLeft?

def result (M : Machine σ ι ο) (c : Client ε ι ο α) (s : σ) : α := (c.run M s).val.1

def final (M : Machine σ ι ο) (c : Client ε ι ο α) (s : σ) : σ := (c.run M s).val.2

def calls (M : Machine σ ι ο) (c : Client ε ι ο α) (s : σ) : List (ι × ο) :=
  callsOf (c.run M s)

section Bind

variable {β : Type x}

theorem run_bind (M : Machine σ ι ο) (c : Client ε ι ο α) (f : α → Client ε ι ο β) (s : σ) :
    (c >>= f).run M s = c.run M s >>= fun r => (f r.1).run M r.2 := by
  change (c.bind f).run M s = _
  induction c generalizing s with
  | done a => rfl
  | tell e rest ih =>
    simp only [bind, run, ih]
    rfl
  | ask i rest ih =>
    simp only [bind, run, ih]
    rfl

@[simp] theorem val_run_call {ο : Type x} (M : Machine σ ι ο) (i : ι) (s : σ) :
    ((call (ε := ε) i).run M s).val = ((M.step s i).2, (M.step s i).1) := rfl

theorem run_ofTrace (M : Machine σ ι ο) (x : Trace ε α) (s : σ) :
    (ofTrace x).run M s = ⟨(x.val, s), x.log.map .inl⟩ := by
  obtain ⟨a, log⟩ := x
  induction log with
  | nil => rfl
  | cons e log ih =>
    change Trace.mk ((ofTrace ⟨a, log⟩).run M s).val (_ :: ((ofTrace ⟨a, log⟩).run M s).log) = _
    rw [ih]
    rfl

@[simp] theorem val_run_ofTrace (M : Machine σ ι ο) (x : Trace ε α) (s : σ) :
    ((ofTrace x).run M s).val = (x.val, s) := by rw [run_ofTrace]

end Bind

section Calls

variable {β : Type x}

@[simp] theorem callsOf_pure (a : α) : callsOf (pure a : Trace (ε ⊕ ι × ο) α) = [] := rfl

@[simp] theorem callsOf_bind (x : Trace (ε ⊕ ι × ο) α) (f : α → Trace (ε ⊕ ι × ο) β) :
    callsOf (x >>= f) = callsOf x ++ callsOf (f x.val) := List.filterMap_append

@[simp] theorem callsOf_map (f : α → β) (x : Trace (ε ⊕ ι × ο) α) :
    callsOf (f <$> x) = callsOf x := by rw [callsOf, Trace.log_map, callsOf]

@[simp] theorem callsOf_mapLog_inl (x : Trace ε α) :
    callsOf (x.mapLog Sum.inl : Trace (ε ⊕ ι × ο) α) = [] := by
  simp [callsOf, Trace.mapLog]

@[simp] theorem callsOf_mapLog_map {ε' : Type*} (f : ε → ε') (x : Trace (ε ⊕ ι × ο) α) :
    callsOf (x.mapLog (Sum.map f id)) = callsOf x := by
  rw [callsOf, callsOf, Trace.mapLog, List.filterMap_map]
  congr 1
  funext e
  cases e <;> rfl

@[simp] theorem said_bind (x : Trace (ε ⊕ ι × ο) α) (f : α → Trace (ε ⊕ ι × ο) β) :
    said (x >>= f) = said x ++ said (f x.val) := List.filterMap_append

@[simp] theorem said_run_call {ο : Type x} (M : Machine σ ι ο) (i : ι) (s : σ) :
    said ((call (ε := ε) i).run M s) = [] := rfl

@[simp] theorem said_run_say (M : Machine σ ι ο) (e : ε) (s : σ) :
    said ((say (ο := ο) e).run M s) = [e] := rfl

@[simp] theorem said_run_ofTrace (M : Machine σ ι ο) (x : Trace ε α) (s : σ) :
    said ((ofTrace x).run M s) = x.log := by
  simp [said, run_ofTrace, List.filterMap_map, Function.comp_def]

@[simp] theorem callsOf_run (M : Machine σ ι ο) (c : Client ε ι ο α) (s : σ) :
    callsOf (c.run M s) = c.calls M s := rfl

@[simp] theorem calls_bind (M : Machine σ ι ο) (c : Client ε ι ο α) (f : α → Client ε ι ο β)
    (s : σ) :
    (c >>= f).calls M s = c.calls M s ++ (f (c.result M s)).calls M (c.final M s) := by
  rw [calls, run_bind, callsOf_bind]
  rfl

@[simp] theorem calls_call {ο : Type x} (M : Machine σ ι ο) (i : ι) (s : σ) :
    (call (ε := ε) i).calls M s = [(i, (M.step s i).2)] := rfl

@[simp] theorem calls_say (M : Machine σ ι ο) (e : ε) (s : σ) :
    (say (ο := ο) e).calls M s = [] := rfl

@[simp] theorem calls_ofTrace (M : Machine σ ι ο) (x : Trace ε α) (s : σ) :
    (ofTrace x).calls M s = [] := by
  simp [calls, callsOf, run_ofTrace]

end Calls

/-- Whatever the answers are, the program asks what `D` allows. -/
def Asks (D : ι → Prop) : Client ε ι ο α → Prop
  | .done _ => True
  | .tell _ rest => rest.Asks D
  | .ask i rest => D i ∧ ∀ o, (rest o).Asks D

section Asks

variable {β : Type x} {D : ι → Prop}

theorem Asks.bind {c : Client ε ι ο α} {f : α → Client ε ι ο β} (hc : c.Asks D)
    (hf : ∀ a, (f a).Asks D) : (c >>= f).Asks D := by
  change (c.bind f).Asks D
  induction c with
  | done a => exact hf a
  | tell e rest ih => exact ih hc
  | ask i rest ih => exact ⟨hc.1, fun o => ih o (hc.2 o)⟩

theorem asks_call {i : ι} (h : D i) : (call (ε := ε) (ο := ο) i).Asks D := ⟨h, fun _ => trivial⟩

theorem asks_ofTrace (x : Trace ε α) : (ofTrace x : Client ε ι ο α).Asks D := by
  obtain ⟨a, log⟩ := x
  induction log with
  | nil => trivial
  | cons e log ih => exact ih

theorem asks_true (c : Client ε ι ο α) : c.Asks fun _ => True := by
  induction c with
  | done a => trivial
  | tell e rest ih => exact ih
  | ask i rest ih => exact ⟨trivial, ih⟩

theorem Asks.calls {c : Client ε ι ο α} (h : c.Asks D) (M : Machine σ ι ο) (s : σ) :
    ∀ e ∈ c.calls M s, D e.1 := by
  induction c generalizing s with
  | done a => simp [Client.calls, run, callsOf]
  | tell e rest ih => exact ih h s
  | ask i rest ih =>
    intro e he
    rcases List.mem_cons.mp he with rfl | he
    · exact h.1
    · exact ih _ (h.2 _) _ e he

theorem Asks.final {M : Machine σ ι ο} {P : σ → Prop} (hP : ∀ s i, D i → P s → P (M.step s i).1)
    {c : Client ε ι ο α} (h : c.Asks D) {s : σ} (hs : P s) : P (c.final M s) := by
  induction c generalizing s with
  | done a => exact hs
  | tell e rest ih => exact ih h hs
  | ask i rest ih => exact ih _ (h.2 _) (hP s i h.1 hs)

theorem final_of_preserves {M : Machine σ ι ο} {P : σ → Prop} (h : M.Preserves P)
    (c : Client ε ι ο α) {s : σ} (hs : P s) : P (c.final M s) :=
  (asks_true c).final (fun s i _ => h s i) hs

end Asks

theorem run_of_related {M : Machine σ ι ο} {N : Machine τ ι ο} {R : σ → τ → Prop} {D : ι → Prop}
    (h : ∀ s t i, D i → R s t → (M.step s i).2 = (N.step t i).2 ∧ R (M.step s i).1 (N.step t i).1)
    {c : Client ε ι ο α} (hc : c.Asks D) {s : σ} {t : τ} (hR : R s t) :
    c.result M s = c.result N t ∧ (c.run M s).log = (c.run N t).log ∧
      R (c.final M s) (c.final N t) := by
  induction c generalizing s t with
  | done a => exact ⟨rfl, rfl, hR⟩
  | tell e rest ih =>
    obtain ⟨hresult, hlog, hfinal⟩ := ih hc hR
    exact ⟨hresult, congrArg (_ :: ·) hlog, hfinal⟩
  | ask i rest ih =>
    obtain ⟨hanswer, hstep⟩ := h s t i hc.1 hR
    obtain ⟨hresult, hlog, hfinal⟩ := ih (M.step s i).2 (hc.2 _) hstep
    have hrest : rest (N.step t i).2 = rest (M.step s i).2 := by rw [hanswer]
    simp only [result, final, run, hrest, hanswer] at hresult hlog hfinal ⊢
    exact ⟨hresult, congrArg (_ :: ·) hlog, hfinal⟩

theorem final_of_part {ι' ο' : Type*} {M : Machine σ ι ο} {N : Machine τ ι' ο'} (part : σ → τ)
    {call : ι × ο → ι'}
    (h : ∀ s i, (N.step (part s) (call (i, (M.step s i).2))).1 = part (M.step s i).1)
    (c : Client ε ι ο α) (s : σ) :
    N.final (part s) ((c.calls M s).map call) = part (c.final M s) := by
  induction c generalizing s with
  | done a => rfl
  | tell e rest ih => exact ih s
  | ask i rest ih =>
    have hcalls : (Client.ask i rest).calls M s =
        (i, (M.step s i).2) :: (rest (M.step s i).2).calls M (M.step s i).1 := rfl
    rw [hcalls, List.map_cons, Machine.final_cons, h]
    exact ih _ _

section Through

variable {ι' : Type*} {ο' : Type*} {ο : Type x}

/-- The program with each of its questions answered by a program. -/
def through (h : ι → Client ε ι' ο' ο) : Client ε ι ο α → Client ε ι' ο' α
  | .done a => .done a
  | .tell e rest => .tell e (rest.through h)
  | .ask i rest => (h i).bind fun o => (rest o).through h

def served (h : ι → Client ε ι' ο' ο) (M : Machine σ ι' ο') : Machine σ ι ο where
  step s i := ((h i).final M s, (h i).result M s)

theorem val_run_through (h : ι → Client ε ι' ο' ο) (M : Machine σ ι' ο') (c : Client ε ι ο α)
    (s : σ) : ((c.through h).run M s).val = (c.run (served h M) s).val := by
  induction c generalizing s with
  | done a => rfl
  | tell e rest ih => exact ih s
  | ask i rest ih =>
    change ((h i >>= fun o => (rest o).through h).run M s).val = _
    rw [run_bind, Trace.val_bind]
    exact ih _ _

end Through

section Rules

variable {ο : Type x} {β : Type x} {M : Machine σ ι ο}

/-- The weakest precondition: from `s` the program comes to a result, a state and a list of
calls with `Q`. -/
def Wp (M : Machine σ ι ο) : Client ε ι ο α → (α → σ → List (ι × ο) → Prop) → σ → Prop
  | .done a, Q, s => Q a s []
  | .tell _ rest, Q, s => rest.Wp M Q s
  | .ask i rest, Q, s =>
    (rest (M.step s i).2).Wp M (fun a t l => Q a t ((i, (M.step s i).2) :: l)) (M.step s i).1

theorem wp_iff {c : Client ε ι ο α} {Q : α → σ → List (ι × ο) → Prop} {s : σ} :
    c.Wp M Q s ↔ Q (c.result M s) (c.final M s) (c.calls M s) := by
  induction c generalizing s Q with
  | done a => rfl
  | tell e rest ih => exact ih
  | ask i rest ih => exact ih _

@[simp] theorem wp_bind {c : Client ε ι ο α} {f : α → Client ε ι ο β}
    {Q : β → σ → List (ι × ο) → Prop} {s : σ} :
    Wp M (c >>= f) Q s ↔ c.Wp M (fun a t l => (f a).Wp M (fun b u l' => Q b u (l ++ l')) t) s := by
  induction c generalizing s Q with
  | done a => rfl
  | tell e rest ih => exact ih
  | ask i rest ih => exact ih _

@[simp] theorem wp_ite {p : Prop} [Decidable p] {c d : Client ε ι ο α}
    {Q : α → σ → List (ι × ο) → Prop} {s : σ} :
    Wp M (if p then c else d) Q s ↔ (p → c.Wp M Q s) ∧ (¬p → d.Wp M Q s) := by
  by_cases hp : p <;> simp [hp]

theorem Wp.call_of {ν : Type*} {V : σ → ν} {S : ν → ι → ο → ν → Prop}
    (hS : ∀ s i, S (V s) i (M.step s i).2 (V (M.step s i).1)) {i : ι} {f : ο → Client ε ι ο β}
    {Q : β → σ → List (ι × ο) → Prop} {s : σ}
    (h : ∀ o t, S (V s) i o (V t) → (f o).Wp M (fun b u l => Q b u ((i, o) :: l)) t) :
    Wp M (call i >>= f) Q s := h _ _ (hS s i)

theorem Wp.mono {c : Client ε ι ο α} {Q Q' : α → σ → List (ι × ο) → Prop} {s : σ}
    (h : c.Wp M Q s) (hQ : ∀ a t l, Q a t l → Q' a t l) : c.Wp M Q' s :=
  wp_iff.mpr (hQ _ _ _ (wp_iff.mp h))

end Rules

end Client

end TctiUefi
