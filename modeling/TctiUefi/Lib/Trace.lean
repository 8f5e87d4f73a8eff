universe u v

namespace TctiUefi

/-- A computation that leaves a log of what it did besides its value. -/
structure Trace (ε : Type u) (α : Type v) where
  val : α
  log : List ε

namespace Trace

instance : Monad (Trace ε) where
  pure a := ⟨a, []⟩
  bind x f := ⟨(f x.val).val, x.log ++ (f x.val).log⟩

def tell (e : ε) : Trace ε Unit := ⟨(), [e]⟩

@[simp] theorem val_pure (a : α) : (pure a : Trace ε α).val = a := rfl

@[simp] theorem log_pure (a : α) : (pure a : Trace ε α).log = [] := rfl

@[simp] theorem val_bind (x : Trace ε α) (f : α → Trace ε β) :
    (x >>= f).val = (f x.val).val := rfl

@[simp] theorem log_bind (x : Trace ε α) (f : α → Trace ε β) :
    (x >>= f).log = x.log ++ (f x.val).log := rfl

@[simp] theorem val_map (f : α → β) (x : Trace ε α) : (f <$> x).val = f x.val := rfl

@[simp] theorem log_map (f : α → β) (x : Trace ε α) : (f <$> x).log = x.log := List.append_nil _

@[simp] theorem val_tell (e : ε) : (tell e).val = () := rfl

@[simp] theorem log_tell (e : ε) : (tell e).log = [e] := rfl

@[simp] theorem val_ite (c : Prop) [Decidable c] (x y : Trace ε α) :
    (if c then x else y).val = if c then x.val else y.val := apply_ite Trace.val c x y

@[simp] theorem log_ite (c : Prop) [Decidable c] (x y : Trace ε α) :
    (if c then x else y).log = if c then x.log else y.log := apply_ite Trace.log c x y

theorem id_map_eq (x : Trace ε α) : id <$> x = x := by
  cases x
  simp [Functor.map]

theorem bind_bind (x : Trace ε α) (f : α → Trace ε β) (g : β → Trace ε γ) :
    x >>= f >>= g = x >>= fun a => f a >>= g := by
  simp [bind]

instance : LawfulMonad (Trace ε) :=
  LawfulMonad.mk' (Trace ε) id_map_eq (fun _ _ => rfl) bind_bind

@[simp] theorem log_forM (f : α → Trace ε PUnit) (as : List α) :
    (forM as f).log = as.flatMap fun a => (f a).log := by
  induction as with
  | nil => rfl
  | cons a as ih => simp [List.forM_cons, ih]

def mapLog (f : ε → ε') (x : Trace ε α) : Trace ε' α := ⟨x.val, x.log.map f⟩

def Logs (P : ε → Prop) (x : Trace ε α) : Prop := ∀ e ∈ x.log, P e

@[simp] theorem logs_pure (P : ε → Prop) (a : α) : Logs P (pure a) := by simp [Logs]

@[simp] theorem logs_tell_iff {P : ε → Prop} : Logs P (tell e) ↔ P e := by simp [Logs]

theorem logs_tell {P : ε → Prop} (h : P e) : Logs P (tell e) := logs_tell_iff.mpr h

theorem Logs.bind {P : ε → Prop} {x : Trace ε α} {f : α → Trace ε β} (hx : x.Logs P)
    (hf : (f x.val).Logs P) : (x >>= f).Logs P := by
  intro e he
  rw [log_bind, List.mem_append] at he
  cases he with
  | inl he => exact hx e he
  | inr he => exact hf e he

@[simp] theorem logs_bind_iff {P : ε → Prop} {x : Trace ε α} {f : α → Trace ε β} :
    (x >>= f).Logs P ↔ x.Logs P ∧ (f x.val).Logs P := by
  simp only [Logs, log_bind, List.mem_append, or_imp, forall_and]

@[simp] theorem val_mapLog (f : ε → ε') (x : Trace ε α) : (x.mapLog f).val = x.val := rfl

@[simp] theorem logs_mapLog_iff {P : ε' → Prop} {f : ε → ε'} {x : Trace ε α} :
    (x.mapLog f).Logs P ↔ x.Logs fun e => P (f e) := by
  simp [Logs, mapLog]

@[simp] theorem logs_map_iff {P : ε → Prop} {f : α → β} {x : Trace ε α} :
    (f <$> x).Logs P ↔ x.Logs P := by simp only [Logs, log_map]

theorem Logs.mono {P Q : ε → Prop} {x : Trace ε α} (h : x.Logs P) (hPQ : ∀ e, P e → Q e) :
    x.Logs Q := fun e he => hPQ e (h e he)

/-- Two computations that log the same and come to related values. -/
structure Related (R : α → β → Prop) (x : Trace ε α) (y : Trace ε β) : Prop where
  log : x.log = y.log
  val : R x.val y.val

section Related

variable {R : α → β → Prop} {S : γ → δ → Prop}

theorem Related.pure {a : α} {b : β} (h : R a b) :
    Related R (pure a : Trace ε α) (pure b) := ⟨rfl, h⟩

theorem Related.refl {R : α → α → Prop} {x : Trace ε α} (h : R x.val x.val) : Related R x x :=
  ⟨rfl, h⟩

theorem Related.bind {x : Trace ε α} {y : Trace ε β} {f : α → Trace ε γ} {g : β → Trace ε δ}
    (hx : Related R x y) (hf : R x.val y.val → Related S (f x.val) (g y.val)) :
    Related S (x >>= f) (y >>= g) := by
  obtain ⟨hlog, hval⟩ := hf hx.val
  constructor
  · rw [log_bind, log_bind, hx.log, hlog]
  · exact hval

theorem Related.mapLog {x : Trace ε α} {y : Trace ε β} (h : Related R x y) (f : ε → ε') :
    Related R (x.mapLog f) (y.mapLog f) := ⟨congrArg (List.map f) h.log, h.val⟩

end Related

end Trace

end TctiUefi
