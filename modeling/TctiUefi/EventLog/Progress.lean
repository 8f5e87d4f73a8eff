import TctiUefi.EventLog.Successor

namespace TctiUefi.EventLog

/-- Addresses at least `d` apart, from the first entry to the last, and no more than fit. -/
structure Progresses (d : Nat) (first last : SizeT A) (ps : List (SizeT A)) : Prop where
  steps : ps.IsChain fun a b => a.toNat + d ≤ b.toNat
  within : ∀ a ∈ ps, first ≤ a ∧ a ≤ last
  length : ps.length ≤ (last.toNat - first.toNat) / d + 1

section Progresses

variable {A : Arch} {first last : SizeT A} {next : SizeT A → Option (SizeT A)} {d : Nat}

theorem Progresses.initial {ps qs : List (SizeT A)} (h : Progresses d first last ps)
    (hqs : qs <+: ps) : Progresses d first last qs where
  steps := h.steps.prefix hqs
  within := fun a ha => h.within a (hqs.subset ha)
  length := Nat.le_trans hqs.length_le h.length

theorem trail_progresses (hd : 0 < d) (hle : first ≤ last)
    (hnext : ∀ a b, a ≤ last → next a = some b → a.toNat + d ≤ b.toNat ∧ b ≤ last) :
    ∃ ps, Trail next first ps ∧ Progresses d first last ps := by
  have hP : ∀ a b, (first ≤ a ∧ a ≤ last) → next a = some b → first ≤ b ∧ b ≤ last := by
    rintro a b ⟨hlo, hhi⟩ hstep
    obtain ⟨hadvance, hb⟩ := hnext a b hhi hstep
    refine ⟨?_, hb⟩
    rw [BitVec.le_def] at hlo ⊢
    omega
  have hadvance : ∀ a b, (first ≤ a ∧ a ≤ last) → next a = some b → a.toNat + d ≤ b.toNat :=
    fun a b ha hstep => (hnext a b ha.2 hstep).1
  have hfirst : first ≤ first ∧ first ≤ last := ⟨Nat.le_refl _, hle⟩
  obtain ⟨ps, hps⟩ := Trail.exists_of_lt (μ := fun a => last.toNat - a.toNat) hP (by
    intro a b ha hstep
    have hb : b.toNat ≤ last.toNat := (hP a b ha hstep).2
    have := hadvance a b ha hstep
    omega) hfirst
  refine ⟨ps, hps, ?_, ?_, ?_⟩
  · exact hps.isChain hP hadvance hfirst
  · exact hps.forall_mem hP hfirst
  · exact hps.length_le hd hP hadvance (fun a ha => ha.2) hfirst

theorem advances {a : SizeT A} {n : Nat} (hroom : last.toNat + 2 ^ 39 < 2 ^ A.bits)
    (ha : a ≤ last) (hn : n < 2 ^ 39) :
    (a + BitVec.ofNat _ n).toNat = a.toNat + n := by
  have hle : a.toNat ≤ last.toNat := ha
  apply toNat_add_ofNat
  omega

end Progresses

section Walks

variable {A : Arch} {m : Memory A.bits}

theorem event2Next_advances {a b last : SizeT A} (hroom : last.toNat + 2 ^ 39 < 2 ^ A.bits)
    (ha : a ≤ last) (h : event2Next m last a = some b) : a.toNat + 16 ≤ b.toNat ∧ b ≤ last := by
  obtain ⟨rfl, hb, _⟩ := event2Next_eq_some_iff.mp h
  rw [advances hroom ha (event2Extent_lt m a)]
  exact ⟨Nat.add_le_add_left (le_event2Extent m a) _, hb⟩

theorem pcrEventNext_advances {a b last : SizeT A} (hroom : last.toNat + 2 ^ 39 < 2 ^ A.bits)
    (ha : a ≤ last) (h : pcrEventNext m last a = some b) : a.toNat + 32 ≤ b.toNat ∧ b ≤ last := by
  obtain ⟨_, rfl, hb, _⟩ := pcrEventNext_eq_some_iff.mp h
  rw [advances hroom ha (pcrEventExtent_lt m a)]
  exact ⟨Nat.add_le_add_left (le_pcrEventExtent m a) _, hb⟩

theorem foreachEvent2_progress {first last : SizeT A} {σ : Type} (hfirst : first ≠ 0#A.bits)
    (hle : first ≤ last) (hroom : last.toNat + 2 ^ 39 < 2 ^ A.bits) (f : SizeT A → σ → Bool × σ)
    (data : σ) :
    ∃ t, Halts (foreachEvent2 m first last (some (pureCallback f)) data) t ∧
      Progresses 16 first last (visits t) ∧
      (t.val.1 = false ↔ false ∈ answers f (visits t) data) := by
  have hlast : last ≠ 0#A.bits := ne_zero_of_le hle hfirst
  obtain ⟨ps, htrail, hps⟩ := trail_progresses (d := 16) (by decide) hle
    fun a b ha hstep => event2Next_advances (m := m) hroom ha hstep
  obtain ⟨t, hevals, hval, hvisits, _⟩ := evals_of_trail (f := f) (s := data)
    (P := fun _ => True) htrail hle hfirst fun _ _ => ⟨trivial, fun _ _ => trivial⟩
  refine ⟨t, foreachEvent2_of_evals hfirst hlast hevals, ?_, ?_⟩
  · rw [hvisits]
    exact hps.initial (feed_taken_initial ps data)
  · rw [hvisits, hval]
    exact feed_ok_iff ps data

theorem prettyprintTpm12Eventlog_progress {first last : UInt64}
    (hfirst : toPointer A first ≠ 0#A.bits) (hle : toPointer A first ≤ toPointer A last)
    (hroom : (toPointer A last).toNat + 2 ^ 39 < 2 ^ A.bits) :
    ∃ t, Halts (prettyprintTpm12Eventlog m first last) t ∧
      Progresses 32 (toPointer A first) (toPointer A last) (visits t) := by
  obtain ⟨ps, htrail, hps⟩ := trail_progresses (d := 32) (by decide) hle
    fun a b ha hstep => pcrEventNext_advances (m := m) hroom ha hstep
  refine ⟨_, prettyprintTpm12Eventlog_of_trail hfirst htrail, ?_⟩
  rw [visits_tpm12_of_trail]
  exact hps

theorem walks_progress {first last : UInt64} {σ : Type} (hfirst : toPointer A first ≠ 0#A.bits)
    (hle : toPointer A first ≤ toPointer A last)
    (hroom : (toPointer A last).toNat + 2 ^ 39 < 2 ^ A.bits) (f : SizeT A → σ → Bool × σ)
    (data : σ) :
    (∃ t, Halts (foreachEvent2 m (toPointer A first) (toPointer A last) (some (pureCallback f))
        data) t ∧
      Progresses 16 (toPointer A first) (toPointer A last) (visits t) ∧
      (t.val.1 = false ↔ false ∈ answers f (visits t) data)) ∧
    ∃ t, Halts (prettyprintTpm12Eventlog m first last) t ∧
      Progresses 32 (toPointer A first) (toPointer A last) (visits t) :=
  ⟨foreachEvent2_progress hfirst hle hroom f data,
    prettyprintTpm12Eventlog_progress hfirst hle hroom⟩

end Walks

theorem walks_progress_zeroed :
    (∃ t, Halts (foreachEvent2 (fun _ => 0 : Memory Arch.x86_64.bits) (toPointer .x86_64 4096)
        (toPointer .x86_64 8192) (some (pureCallback fun _ n => (n < 3, n + 1))) 0) t ∧
      Progresses 16 (toPointer .x86_64 4096) (toPointer .x86_64 8192) (visits t) ∧
      (t.val.1 = false ↔ false ∈ answers (fun _ n => (n < 3, n + 1)) (visits t) 0)) ∧
    ∃ t, Halts (prettyprintTpm12Eventlog (fun _ => 0 : Memory Arch.x86_64.bits) 4096 8192) t ∧
      Progresses 32 (toPointer .x86_64 4096) (toPointer .x86_64 8192) (visits t) :=
  walks_progress (by decide) (by decide) (by decide) (fun _ n => (decide (n < 3), n + 1)) 0

end TctiUefi.EventLog
