import TctiUefi.EventLog.Laid

open StateTransition

namespace TctiUefi.EventLog

open Memory

/-- A log in the bytes from `first` up to `hi`, whose final entry starts at `last`. -/
structure LogRange (first last : SizeT A) (hi : Nat) : Prop where
  ne_zero : first ≠ 0#A.bits
  ordered : first ≤ last
  last_lt : last.toNat < hi
  fits : hi ≤ 2 ^ A.bits

section Range

variable {A : Arch} {first last : SizeT A} {hi : Nat} {next : SizeT A → Option (SizeT A)}
  {extent : SizeT A → Nat}

theorem first_le_of_reaches (hrange : LogRange first last hi)
    (hnext : ∀ a b, next a = some b →
      a + BitVec.ofNat _ (extent a) = b ∧ b ≤ last ∧ b ≠ 0#A.bits)
    (h : ∀ a, Reaches next first a → first.toNat ≤ a.toNat → a.toNat + extent a ≤ hi)
    {a : SizeT A} (ha : Reaches next first a) : first.toNat ≤ a.toNat ∧ a ≤ last := by
  induction ha with
  | refl => exact ⟨Nat.le_refl _, hrange.ordered⟩
  | @tail a b hreach hstep ih =>
    obtain ⟨rfl, hle, hne⟩ := hnext a b hstep
    have hfits := Nat.le_trans (h a hreach ih.1) hrange.fits
    refine ⟨?_, hle⟩
    rcases Nat.lt_or_eq_of_le hfits with hlt | heq
    · rw [toNat_add_ofNat hlt]
      exact Nat.le_trans ih.1 (Nat.le_add_right _ _)
    · refine absurd ?_ hne
      apply BitVec.eq_of_toNat_eq
      rw [BitVec.toNat_add, BitVec.toNat_ofNat, Nat.add_mod_mod, heq, Nat.mod_self,
        BitVec.toNat_zero]

theorem blocks_within_iff (hrange : LogRange first last hi)
    (hnext : ∀ a b, next a = some b →
      a + BitVec.ofNat _ (extent a) = b ∧ b ≤ last ∧ b ≠ 0#A.bits) :
    (∀ a, Reaches next first a → ∀ x ∈ block a (extent a),
        first.toNat ≤ x.toNat ∧ x.toNat < hi) ↔
      ∀ a, Reaches next first a → a.toNat + extent a ≤ hi := by
  have hpos := BitVec.toNat_pos_of_ne_zero hrange.ne_zero
  have hblock {a : SizeT A} (hle : first.toNat ≤ a.toNat) (hlast : a ≤ last) :
      (∀ x ∈ block a (extent a), first.toNat ≤ x.toNat ∧ x.toNat < hi) ↔
        a.toNat + extent a ≤ hi :=
    block_within_iff hpos hle (Nat.lt_of_le_of_lt hlast hrange.last_lt) hrange.fits
  have hlast {a : SizeT A} (ha : Reaches next first a) : a ≤ last :=
    reaches_forall (P := (· ≤ last)) (fun a b _ hstep => (hnext a b hstep).2.1) ha hrange.ordered
  constructor
  · intro hwithin a ha
    obtain ⟨hle, hale⟩ := first_le_of_reaches hrange hnext
      (fun b hb hbge => (hblock hbge (hlast hb)).mp (hwithin b hb)) ha
    exact (hblock hle hale).mp (hwithin a ha)
  · intro hfits a ha
    obtain ⟨hle, hale⟩ := first_le_of_reaches hrange hnext (fun b hb _ => hfits b hb) ha
    exact (hblock hle hale).mpr (hfits a ha)

end Range

section Decoders

variable {A : Arch} {m : Memory A.bits} {first last : UInt64} {hi : Nat}

theorem print_within (lo hi : Nat) (format : String) (args : List PrintArg) :
    (print (A := A) format args).Logs (LogEffect.Within lo hi) := Trace.logs_tell trivial

theorem tpm2_within_iff (hrange : LogRange (toPointer A first) (toPointer A last) hi) :
    (∀ fuel, (prettyprintTpm2Eventlog m first last fuel).Logs
        (LogEffect.Within (toPointer A first).toNat hi)) ↔
      ∀ a, Reaches (event2Next m (toPointer A last)) (toPointer A first) a →
        a.toNat + event2Extent m a ≤ hi := by
  have hfirst : toPointer A first ≤ toPointer A last ∧ toPointer A first ≠ 0#A.bits :=
    ⟨hrange.ordered, hrange.ne_zero⟩
  have hlast : toPointer A last ≠ 0#A.bits := ne_zero_of_le hrange.ordered hrange.ne_zero
  have hrun (fuel : Nat) : (prettyprintTpm2Eventlog m first last fuel).Logs
      (LogEffect.Within (toPointer A first).toNat hi) ↔
      (Loop.run (eventRound m (toPointer A last) (prettyprintTpm2EventCallback m)) fuel
        (toPointer A first, ())).Logs (LogEffect.Within (toPointer A first).toNat hi) := by
    simp only [prettyprintTpm2Eventlog, if_neg hfirst.2, foreachEvent2_of_ne_zero hfirst.2 hlast]
    constructor
    · intro h
      exact (Trace.logs_bind_iff.mp (Trace.logs_bind_iff.mp (Trace.logs_bind_iff.mp h).2).2).1
    · intro h
      refine (print_within _ _ _ _).bind ((Trace.logs_tell trivial).bind (h.bind ?_))
      split
      · exact Trace.logs_pure _ _
      · exact (print_within _ _ _ _).bind (Trace.logs_pure _ _)
  rw [forall_congr' hrun, Loop.run_logs_iff,
    ← blocks_within_iff hrange fun _ _ hstep => event2Next_eq_some_iff.mp hstep]
  constructor
  · intro hrounds a ha
    obtain ⟨⟨⟩, hreach⟩ := eventRound_reaches (prettyprintTpm2EventCallback m)
      (fun _ _ => rfl) ha hfirst ()
    obtain ⟨hle, hne⟩ := reaches_in_range ha hfirst
    rw [← readSet_eventRound hle hne ()]
    exact logs_within_iff.mp (hrounds _ hreach)
  · rintro hblocks ⟨a, u⟩ hreach
    by_cases ha : a ≤ toPointer A last ∧ a ≠ 0#A.bits
    · rw [logs_within_iff, readSet_eventRound ha.1 ha.2 u]
      exact hblocks a (reaches_of_eventRound hreach ha)
    · rw [eventRound_of_past _ ha]
      simp [Trace.Logs]

theorem tpm12_within_iff (hrange : LogRange (toPointer A first) (toPointer A last) hi) :
    (∀ fuel, (prettyprintTpm12Eventlog m first last fuel).Logs
        (LogEffect.Within (toPointer A first).toNat hi)) ↔
      ∀ a, Reaches (pcrEventNext m (toPointer A last)) (toPointer A first) a →
        a.toNat + pcrEventExtent m a ≤ hi := by
  have hrun (fuel : Nat) : (prettyprintTpm12Eventlog m first last fuel).Logs
      (LogEffect.Within (toPointer A first).toNat hi) ↔
      (Loop.run (tpm12Round m (toPointer A last)) fuel (toPointer A first)).Logs
        (LogEffect.Within (toPointer A first).toNat hi) := by
    simp only [prettyprintTpm12Eventlog, if_neg hrange.ne_zero]
    constructor
    · intro h
      exact (Trace.logs_bind_iff.mp (Trace.logs_bind_iff.mp h).2).2
    · intro h
      exact (print_within _ _ _ _).bind ((Trace.logs_tell trivial).bind h)
  have hnext : Loop.next (tpm12Round m (toPointer A last)) = pcrEventNext m (toPointer A last) :=
    funext (next_tpm12Round m _)
  rw [forall_congr' hrun, Loop.run_logs_iff, hnext,
    ← blocks_within_iff hrange fun _ _ hstep => (pcrEventNext_eq_some_iff.mp hstep).2]
  simp only [logs_within_iff, readSet_tpm12Round]

end Decoders

inductive EndsLog (m : Memory A.bits) (last : SizeT A) (hi : Nat) : UInt32 → Prop
  | tcg2 (e : Event2) (known : ∀ d ∈ e.digests, d.Known) (laid : m.Laid last e.encode)
      (ends : last.toNat + e.encode.length = hi) : EndsLog m last hi efiTcg2EventLogFormatTcg2
  | tcg12 (e : PcrEvent) (laid : m.Laid last e.encode)
      (ends : last.toNat + e.encode.length = hi) : EndsLog m last hi efiTcg2EventLogFormatTcg12

/-- The entries that are met before the last one, by the counts and sizes they declare, are
declared to end within the log. -/
def DeclaredWithin (m : Memory A.bits) (format : UInt32) (first last : SizeT A) (hi : Nat) :
    Prop :=
  if format = efiTcg2EventLogFormatTcg2 then
    ∀ a, Reaches (event2Next m last) first a → a ≠ last → a.toNat + event2Extent m a ≤ hi
  else
    ∀ a, Reaches (pcrEventNext m last) first a → a ≠ last → a.toNat + pcrEventExtent m a ≤ hi

theorem forall_of_last {P Q : SizeT A → Prop} {last : SizeT A} (hlast : Q last) :
    (∀ a, P a → a ≠ last → Q a) ↔ ∀ a, P a → Q a := by
  constructor
  · intro h a ha
    by_cases heq : a = last
    · rw [heq]
      exact hlast
    · exact h a ha heq
  · intro h a ha _
    exact h a ha

section Within

variable {A : Arch} {m : Memory A.bits} {first last : UInt64} {hi : Nat} {format : UInt32}

theorem prettyprintEventlog_within_iff
    (hrange : LogRange (toPointer A first) (toPointer A last) hi)
    (hlast : EndsLog m (toPointer A last) hi format) :
    (∀ fuel, (prettyprintEventlog m first last format fuel).Logs
        (LogEffect.Within (toPointer A first).toNat hi)) ↔
      DeclaredWithin m format (toPointer A first) (toPointer A last) hi := by
  have hformats : efiTcg2EventLogFormatTcg12 ≠ efiTcg2EventLogFormatTcg2 := by decide
  unfold DeclaredWithin
  cases hlast with
  | tcg2 e known laid ends =>
    have hextent : event2Extent m (toPointer A last) = e.encode.length := by
      rw [← List.append_nil e.encode] at laid
      exact event2Extent_of_known known laid
    rw [if_pos rfl, forall_of_last (by rw [hextent, ends]), prettyprintEventlog_tcg2]
    exact tpm2_within_iff hrange
  | tcg12 e laid ends =>
    have hextent : pcrEventExtent m (toPointer A last) = e.encode.length := by
      rw [← List.append_nil e.encode] at laid
      exact pcrEventExtent_of_holds laid.holds
    rw [if_neg hformats, forall_of_last (by rw [hextent, ends]), prettyprintEventlog_tcg12]
    exact tpm12_within_iff hrange

end Within

def finalPcrEvent : PcrEvent where
  pcrIndex := 7
  eventType := 0x4
  digest := toLE 4 0 ++ toLE 4 16 ++ List.replicate 12 0
  event := []
  digest_length := rfl
  event_lt := length_nil_lt

def finalEvent2 : Event2 where
  pcrIndex := 7
  eventType := 0x4
  digests := []
  event := List.replicate 16 0
  digests_lt := length_nil_lt
  event_lt := by decide

/-- The entry before it declares 100 bytes of event data in both formats, and has none. -/
def overlongLog : Memory Arch.x86_64.bits :=
  holding 4096 (List.replicate 12 0 ++ toLE 4 100 ++ List.replicate 12 0 ++ toLE 4 100 ++
    finalPcrEvent.encode)

theorem overlongLog_range : LogRange (toPointer .x86_64 4096) (toPointer .x86_64 4128) 4160 :=
  ⟨by decide, by decide, by decide, by decide⟩

theorem overlongLog_laid : overlongLog.Laid 4128 finalPcrEvent.encode :=
  ⟨by unfold Holds; decide +kernel, by decide, by decide⟩

theorem overlongLog_ends_tcg12 : EndsLog overlongLog 4128 4160 efiTcg2EventLogFormatTcg12 :=
  .tcg12 finalPcrEvent overlongLog_laid rfl

theorem overlongLog_ends_tcg2 : EndsLog overlongLog 4128 4160 efiTcg2EventLogFormatTcg2 := by
  have hencode : finalEvent2.encode = finalPcrEvent.encode := by decide
  refine .tcg2 finalEvent2 (fun d hd => absurd hd (List.not_mem_nil)) ?_ rfl
  rw [hencode]
  exact overlongLog_laid

theorem prettyprintEventlog_within_overlong :
    (∀ fuel, (prettyprintEventlog overlongLog 4096 4128 efiTcg2EventLogFormatTcg2 fuel).Logs
        (LogEffect.Within 4096 4160)) ↔
      DeclaredWithin overlongLog efiTcg2EventLogFormatTcg2 4096 4128 4160 :=
  prettyprintEventlog_within_iff overlongLog_range overlongLog_ends_tcg2

theorem overlongLog_dumped :
    LogRange (toPointer .x86_64 4096) (toPointer .x86_64 4128) 4160 ∧
    (EndsLog overlongLog 4128 4160 efiTcg2EventLogFormatTcg2 ∧
      ¬∀ fuel, (prettyprintEventlog overlongLog 4096 4128 efiTcg2EventLogFormatTcg2 fuel).Logs
        (LogEffect.Within 4096 4160)) ∧
    EndsLog overlongLog 4128 4160 efiTcg2EventLogFormatTcg12 ∧
      ¬∀ fuel, (prettyprintEventlog overlongLog 4096 4128 efiTcg2EventLogFormatTcg12 fuel).Logs
        (LogEffect.Within 4096 4160) := by
  rw [prettyprintEventlog_tcg2, prettyprintEventlog_tcg12]
  have hextents : event2Extent overlongLog 4096 = 116 ∧ pcrEventExtent overlongLog 4096 = 132 := by
    decide +kernel
  refine ⟨overlongLog_range, ⟨overlongLog_ends_tcg2, ?_⟩, overlongLog_ends_tcg12, ?_⟩
  · intro hwithin
    have hfirst := (tpm2_within_iff overlongLog_range).mp hwithin _ .refl
    have hend : 4096 + event2Extent overlongLog 4096 ≤ 4160 := hfirst
    omega
  · intro hwithin
    have hfirst := (tpm12_within_iff overlongLog_range).mp hwithin _ .refl
    have hend : 4096 + pcrEventExtent overlongLog 4096 ≤ 4160 := hfirst
    omega

end TctiUefi.EventLog
