import TctiUefi.EventLog.RoundTrip

open StateTransition

namespace TctiUefi.EventLog

open Memory

def Advances (last a b : SizeT A) : Prop := b = 0#A.bits ∨ last < b ∨ a < b

/-- The declared length is not a multiple of the address space, and what it amounts to there
does not lead past its end. -/
def Fits (a : SizeT A) (extent : Nat) : Prop :=
  0 < extent % 2 ^ A.bits ∧ a.toNat + extent % 2 ^ A.bits ≤ 2 ^ A.bits

instance (last a b : SizeT A) : Decidable (Advances last a b) :=
  inferInstanceAs (Decidable (_ ∨ _ ∨ _))

instance (a : SizeT A) (extent : Nat) : Decidable (Fits a extent) :=
  inferInstanceAs (Decidable (_ ∧ _))

section Wrap

variable {A : Arch} {m : Memory A.bits} {a last : SizeT A}

theorem advances_add_iff (ha : a ≠ 0#A.bits) (hle : a ≤ last) (n : Nat) :
    Advances last a (a + BitVec.ofNat _ n) ↔ Fits a n := by
  have hpos := BitVec.toNat_pos_of_ne_zero ha
  have hlt := a.isLt
  have hlast : a.toNat ≤ last.toNat := hle
  have hn : n % 2 ^ A.bits < 2 ^ A.bits := Nat.mod_lt _ (Nat.two_pow_pos _)
  have htoNat : (a + BitVec.ofNat _ n).toNat = (a.toNat + n % 2 ^ A.bits) % 2 ^ A.bits := by
    rw [BitVec.toNat_add, BitVec.toNat_ofNat]
  have hzero : a + BitVec.ofNat _ n = 0#A.bits ↔ (a + BitVec.ofNat _ n).toNat = 0 :=
    BitVec.toNat_eq.trans (by rw [BitVec.toNat_zero])
  rw [Advances, Fits, hzero, BitVec.lt_def, BitVec.lt_def, htoNat]
  rcases Nat.lt_trichotomy (a.toNat + n % 2 ^ A.bits) (2 ^ A.bits) with hbelow | hend | habove
  · rw [Nat.mod_eq_of_lt hbelow]
    omega
  · rw [hend, Nat.mod_self]
    omega
  · have hwrapped : (a.toNat + n % 2 ^ A.bits) % 2 ^ A.bits =
        a.toNat + n % 2 ^ A.bits - 2 ^ A.bits := by
      rw [Nat.mod_eq_sub_mod (Nat.le_of_lt habove), Nat.mod_eq_of_lt (by omega)]
    rw [hwrapped]
    omega

theorem getNextEvent_advances_iff (m : Memory A.bits) (ha : a ≠ 0#A.bits) (hle : a ≤ last) :
    Advances last a (getNextEvent m a).val ↔ Fits a (event2Extent m a) := by
  rw [getNextEvent_val]
  exact advances_add_iff ha hle _

/-- The legacy walk does not look for a successor of the last entry, whatever its size is. -/
theorem tpm12EventNext_advances_iff (m : Memory A.bits) (ha : a ≠ 0#A.bits) (hle : a ≤ last) :
    Advances last a (tpm12EventNext m a last).val ↔ a = last ∨ Fits a (pcrEventExtent m a) := by
  rw [tpm12EventNext_val, ← advances_add_iff ha hle, pcrEventNext]
  by_cases hlast : a = last
  · rw [if_pos hlast]
    exact iff_of_true (.inl rfl) (.inl hlast)
  · rw [if_neg hlast, or_iff_right hlast]
    cases hnext : inRange last (a + BitVec.ofNat _ (pcrEventExtent m a)) with
    | none =>
      refine iff_of_true (.inl rfl) ?_
      have hout := inRange_eq_none_iff.mp hnext
      by_cases hzero : a + BitVec.ofNat _ (pcrEventExtent m a) = 0#A.bits
      · exact .inl hzero
      · exact .inr (.inl (BitVec.not_le.mp fun h => hout ⟨h, hzero⟩))
    | some b =>
      obtain ⟨rfl, _, _⟩ := inRange_eq_some_iff.mp hnext
      exact Iff.rfl

theorem trail_of_fits (next : SizeT A → Option (SizeT A)) {extent : SizeT A → Nat}
    {first last : SizeT A} (hfirst : first ≠ 0#A.bits) (hle : first ≤ last)
    (hnext : ∀ a b, next a = some b →
      a + BitVec.ofNat _ (extent a) = b ∧ b ≤ last ∧ b ≠ 0#A.bits)
    (hfits : ∀ a b, Reaches next first a → next a = some b → Fits a (extent a)) :
    ∃ ps, Trail next first ps := by
  have hP : ∀ a b, (Reaches next first a ∧ a ≤ last ∧ a ≠ 0#A.bits) → next a = some b →
      Reaches next first b ∧ b ≤ last ∧ b ≠ 0#A.bits := by
    rintro a b ⟨hreach, _⟩ hstep
    exact ⟨hreach.tail hstep, (hnext a b hstep).2⟩
  refine Trail.exists_of_lt (μ := fun a => last.toNat - a.toNat) hP ?_ ⟨.refl, hle, hfirst⟩
  rintro a b ⟨hreach, ha, hne⟩ hstep
  obtain ⟨rfl, hb, hbne⟩ := hnext a b hstep
  rcases (advances_add_iff hne ha _).mpr (hfits a _ hreach hstep) with hzero | hpast | hgt
  · exact absurd hzero hbne
  · exact absurd hb (BitVec.not_le.mpr hpast)
  · rw [BitVec.lt_def] at hgt
    rw [BitVec.le_def] at hb
    omega

theorem successors_advance_iff {first last : UInt64} (hfirst : toPointer A first ≠ 0#A.bits)
    (hle : toPointer A first ≤ toPointer A last) :
    (∀ a : SizeT A, a ≠ 0#A.bits → a ≤ toPointer A last →
      (Advances (toPointer A last) a (getNextEvent m a).val ↔ Fits a (event2Extent m a)) ∧
      (Advances (toPointer A last) a (tpm12EventNext m a (toPointer A last)).val ↔
        a = toPointer A last ∨ Fits a (pcrEventExtent m a))) ∧
    ((∀ a, Reaches (event2Next m (toPointer A last)) (toPointer A first) a →
        Fits a (event2Extent m a)) →
      ∀ (σ : Type) (f : SizeT A → σ → Bool × σ) (data : σ), ∃ t,
        Halts (foreachEvent2 m (toPointer A first) (toPointer A last) (some (pureCallback f))
          data) t) ∧
    ((∀ a, Reaches (pcrEventNext m (toPointer A last)) (toPointer A first) a →
        a = toPointer A last ∨ Fits a (pcrEventExtent m a)) →
      ∃ t, Halts (prettyprintTpm12Eventlog m first last) t) := by
  have hlast : toPointer A last ≠ 0#A.bits := ne_zero_of_le hle hfirst
  refine ⟨?_, ?_, ?_⟩
  · intro a ha hale
    exact ⟨getNextEvent_advances_iff m ha hale, tpm12EventNext_advances_iff m ha hale⟩
  · intro hfits σ f data
    obtain ⟨ps, hps⟩ := trail_of_fits (event2Next m (toPointer A last)) hfirst hle
      (fun _ _ hstep => event2Next_eq_some_iff.mp hstep) fun a _ hreach _ => hfits a hreach
    obtain ⟨t, hevals, _⟩ := evals_of_trail (f := f) (s := data) (P := fun _ => True) hps hle
      hfirst fun _ _ => ⟨trivial, fun _ _ => trivial⟩
    exact ⟨t, foreachEvent2_of_evals hfirst hlast hevals⟩
  · intro hfits
    obtain ⟨ps, hps⟩ := trail_of_fits (pcrEventNext m (toPointer A last)) hfirst hle
      (fun _ _ hstep => (pcrEventNext_eq_some_iff.mp hstep).2)
      fun a _ hreach hstep =>
        (hfits a hreach).resolve_left (pcrEventNext_eq_some_iff.mp hstep).1
    exact ⟨_, prettyprintTpm12Eventlog_of_trail hfirst hps⟩

end Wrap

/-- As an agile entry it has no digests and 2 ^ 32 - 16 bytes of event data, as a legacy one
2 ^ 32 - 32 bytes: either way it is as long as the address space. -/
def endlessEntry : Memory Arch.ia32.bits :=
  holding 4096 (List.replicate 12 0 ++ [0xf0, 0xff, 0xff, 0xff] ++ List.replicate 12 0 ++
    [0xe0, 0xff, 0xff, 0xff])

theorem endlessEntry_extents :
    event2Extent endlessEntry 4096 = 2 ^ 32 ∧ pcrEventExtent endlessEntry 4096 = 2 ^ 32 := by
  decide +kernel

theorem successors_advance_zeroed :
    (∀ a : SizeT .ia32, a ≠ 0#_ → a ≤ toPointer .ia32 8192 →
      (Advances (toPointer .ia32 8192) a (getNextEvent (fun _ => 0) a).val ↔
        Fits a (event2Extent (fun _ => 0) a)) ∧
      (Advances (toPointer .ia32 8192) a
          (tpm12EventNext (fun _ => 0) a (toPointer .ia32 8192)).val ↔
        a = toPointer .ia32 8192 ∨ Fits a (pcrEventExtent (fun _ => 0) a))) ∧
    ((∀ a, Reaches (event2Next (fun _ => 0) (toPointer .ia32 8192)) (toPointer .ia32 4096) a →
        Fits a (event2Extent (fun _ => 0) a)) →
      ∀ (σ : Type) (f : SizeT .ia32 → σ → Bool × σ) (data : σ), ∃ t,
        Halts (foreachEvent2 (fun _ => 0) (toPointer .ia32 4096) (toPointer .ia32 8192)
          (some (pureCallback f)) data) t) ∧
    ((∀ a, Reaches (pcrEventNext (fun _ => 0) (toPointer .ia32 8192)) (toPointer .ia32 4096) a →
        a = toPointer .ia32 8192 ∨ Fits a (pcrEventExtent (fun _ => 0) a)) →
      ∃ t, Halts (prettyprintTpm12Eventlog (fun _ => 0 : Memory Arch.ia32.bits) 4096 8192) t) :=
  successors_advance_iff (by decide) (by decide)

theorem endlessEntry_walks :
    (¬Advances 8192 4096 (getNextEvent endlessEntry 4096).val ∧
      ∀ fuel, (foreachEvent2 endlessEntry 4096 8192 (some (pureCallback fun _ n => (true, n)))
        0 fuel).val = none) ∧
    (¬Advances 8192 4096 (tpm12EventNext endlessEntry 4096 8192).val ∧
      ∀ fuel, (prettyprintTpm12Eventlog endlessEntry 4096 8192 fuel).val = none) := by
  obtain ⟨hagile, hlegacy⟩ := endlessEntry_extents
  have hagileNext : Loop.next (eventRound endlessEntry 8192 (pureCallback fun _ n => (true, n)))
      ((4096, 0) : SizeT .ia32 × Nat) = some (4096, 0) := by
    rw [Loop.next_eq_some_iff, eventRound_of_accepts (by decide) (by decide) rfl, hagile]
    rfl
  have hlegacyNext : Loop.next (tpm12Round endlessEntry 8192) 4096 = some 4096 := by
    rw [next_tpm12Round, pcrEventNext_eq_some_iff, hlegacy]
    decide
  refine ⟨⟨?_, ?_⟩, ?_, ?_⟩
  · rw [getNextEvent_advances_iff endlessEntry (by decide) (by decide), hagile]
    decide
  · refine Loop.run_eq_none (P := (· = (4096, 0))) ?_ rfl
    rintro _ rfl
    exact ⟨_, hagileNext, rfl⟩
  · rw [tpm12EventNext_advances_iff endlessEntry (by decide) (by decide), hlegacy]
    decide
  · intro fuel
    rw [prettyprintTpm12Eventlog_of_pos (by decide)]
    refine Loop.run_eq_none (P := (· = 4096)) ?_ rfl fuel
    rintro _ rfl
    exact ⟨_, hlegacyNext, rfl⟩

end TctiUefi.EventLog
