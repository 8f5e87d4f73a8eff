import TctiUefi.Tcti.Limits

namespace TctiUefi

/-- The calls that must not leave a mark on the context. -/
def Call.Inert (s : TctiUefiContext A) : Call A → Prop
  | .transmit p n command => ((Call.transmit p n command).exec s).2.rc ≠ some .success
  | .receive _ _ none _ _ => True
  | .receive p size (some buf) timeout fw =>
    ((Call.receive p size (some buf) timeout fw).exec s).2.rc ≠ some .success
  | .finalize p => tctiUefiContextCast (p.resolve s) = none

def Call.isQuery : Call A → Bool
  | .receive _ (some _) none _ _ => true
  | _ => false

inductive InertSpec (s : TctiUefiContext A) (i : Call A) : TctiUefiContext A × Outcome A → Prop
  | nothing {o} (hsize : o.size = i.size) : InertSpec s i (s, o)
  | reported {o} (hquery : i.isQuery = true) (hrc : o.rc = some .success)
      (hsize : o.size = some s.size) : InertSpec s i (s, o)

theorem StepSpec.inert {s : TctiUefiContext A} {r : TctiUefiContext A × Outcome A}
    (hr : i.exec s = r) (h : StepSpec s i r) (hi : i.Inert s) : InertSpec s i r := by
  cases h with
  | refused _ hsize _ _ => exact .nothing hsize
  | stored _ =>
    change (Call.exec s _).2.rc ≠ some .success at hi
    rw [hr] at hi
    exact absurd rfl hi
  | queried _ => exact .reported rfl rfl rfl
  | answered _ =>
    change (Call.exec s _).2.rc ≠ some .success at hi
    rw [hr] at hi
    exact absurd rfl hi
  | unanswered _ _ _ => exact .nothing rfl
  | finalized hvalid =>
    have hcast : tctiUefiContextCast (some s) = none := hi
    rw [tctiUefiContextCast_of_valid hvalid] at hcast
    cases hcast

theorem inert_spec {s : TctiUefiContext A} {i : Call A} (h : i.Inert s) :
    InertSpec s i (i.exec s) := (step_spec s i).inert rfl h

theorem InertSpec.context_eq {s : TctiUefiContext A} (h : InertSpec s i r) : r.1 = s := by
  cases h with
  | nothing _ => rfl
  | reported _ _ _ => rfl

theorem InertSpec.size {s : TctiUefiContext A} (h : InertSpec s i r) :
    r.2.size = i.size ∨ i.isQuery = true ∧ r.2.rc = some .success ∧ r.2.size = some s.size := by
  cases h with
  | nothing hsize => exact .inl hsize
  | reported hquery hrc hsize => exact .inr ⟨hquery, hrc, hsize⟩

theorem failure_atomicity (s : TctiUefiContext A) :
    (∀ i : Call A, i.Inert s → (i.exec s).1 = s ∧
      ((i.exec s).2.size = i.size ∨ i.isQuery = true ∧ (i.exec s).2.rc = some .success ∧
        (i.exec s).2.size = some s.size)) ∧
    ∀ js : Machine.Marked (Call A), (tcti A).Insertions (fun t i => i.Inert t) s js →
      ((js.zip (events s js.all)).filter fun p => p.1.1).map Prod.snd = events s js.kept := by
  constructor
  · intro i hi
    exact ⟨(inert_spec hi).context_eq, (inert_spec hi).size⟩
  · intro js hjs
    rw [events, ← Machine.keptTrace_eq_filter]
    apply Machine.keptTrace_eq_trace _ hjs
    intro t i hi
    exact (inert_spec hi).context_eq

def disturbedExchange : Machine.Marked (Call .x86_64) :=
  [(true, .transmit .given 12 (some fun _ => 7)), (false, .transmit .given 12 (some fun _ => 8)),
    (false, .receive .given (some 0) none tctiTimeoutBlock (acceptingFirmware .x86_64 4096 4096)),
    (false, .finalize .null),
    (true, .receive .given (some 4096) (some fun _ => 0) tctiTimeoutBlock
      (acceptingFirmware .x86_64 4096 4096))]

theorem failure_atomicity_disturbed :
    ((disturbedExchange.zip (events ((filledBlock .x86_64 0).opened 4184)
        disturbedExchange.all)).filter fun p => p.1.1).map Prod.snd =
      events ((filledBlock .x86_64 0).opened 4184) disturbedExchange.kept := by
  apply (failure_atomicity ((filledBlock .x86_64 0).opened 4184)).2
  refine ⟨by simp, ?_, ?_, ?_, by simp, trivial⟩
  · intro _
    change _ ≠ _
    decide
  · intro _
    trivial
  · intro _
    rfl

end TctiUefi
