import TctiUefi.EventLog.Extent
import TctiUefi.EventLog.Tool

open StateTransition

namespace TctiUefi.EventLog

/-- An address that a walk goes on with: not null, and not past the start of the last entry. -/
def inRange (last b : SizeT A) : Option (SizeT A) :=
  if b ≤ last ∧ b ≠ 0#A.bits then some b else none

theorem inRange_eq_some_iff {last b c : SizeT A} :
    inRange last b = some c ↔ b = c ∧ c ≤ last ∧ c ≠ 0#A.bits := by
  unfold inRange
  constructor
  · intro h
    split at h
    · rename_i hb
      obtain rfl := Option.some.inj h
      exact ⟨rfl, hb⟩
    · cases h
  · rintro ⟨rfl, hb⟩
    exact if_pos hb

theorem inRange_eq_none_iff {last b : SizeT A} :
    inRange last b = none ↔ ¬(b ≤ last ∧ b ≠ 0#A.bits) := by
  unfold inRange
  split
  · rename_i hb
    exact iff_of_false (Option.some_ne_none b) (not_not_intro hb)
  · rename_i hb
    exact iff_of_true rfl hb

def event2Next (m : Memory A.bits) (last a : SizeT A) : Option (SizeT A) :=
  inRange last (a + BitVec.ofNat _ (event2Extent m a))

/-- The same for the legacy loop, which looks for the last entry by its address. -/
def pcrEventNext (m : Memory A.bits) (last a : SizeT A) : Option (SizeT A) :=
  if a = last then none else inRange last (a + BitVec.ofNat _ (pcrEventExtent m a))

theorem event2Next_eq_some_iff {m : Memory A.bits} {last a b : SizeT A} :
    event2Next m last a = some b ↔
      a + BitVec.ofNat _ (event2Extent m a) = b ∧ b ≤ last ∧ b ≠ 0#A.bits :=
  inRange_eq_some_iff

theorem pcrEventNext_eq_some_iff {m : Memory A.bits} {last a b : SizeT A} :
    pcrEventNext m last a = some b ↔ a ≠ last ∧
      a + BitVec.ofNat _ (pcrEventExtent m a) = b ∧ b ≤ last ∧ b ≠ 0#A.bits := by
  rw [pcrEventNext, ← inRange_eq_some_iff]
  by_cases hlast : a = last
  · simp [hlast]
  · simp [hlast]

def pureCallback (f : SizeT A → σ → Bool × σ) : Callback A σ := fun p s => pure (f p s)

section Agile

variable {A : Arch} {m : Memory A.bits} {a last : SizeT A} {σ : Type} {s : σ}

theorem eventRound_of_past (callback : Callback A σ) (h : ¬(a ≤ last ∧ a ≠ 0#A.bits)) :
    eventRound m last callback (a, s) = ⟨.inr (true, s), []⟩ := if_neg h

theorem eventRound_val {callback : Callback A σ} (hle : a ≤ last) (hne : a ≠ 0#A.bits) :
    (eventRound m last callback (a, s)).val =
      if (callback a s).val.1 then
        .inl (a + BitVec.ofNat _ (event2Extent m a), (callback a s).val.2)
      else .inr (false, (callback a s).val.2) := by
  rw [eventRound, if_pos ⟨hle, hne⟩]
  simp only [Trace.val_bind, Trace.val_ite, Trace.val_pure, getNextEvent_val]

theorem eventRound_logs_iff {callback : Callback A σ} {P : LogEffect A → Prop} (hle : a ≤ last)
    (hne : a ≠ 0#A.bits) :
    (eventRound m last callback (a, s)).Logs P ↔ P (.event a) ∧ (callback a s).Logs P ∧
      ((callback a s).val.1 = true → (getNextEvent m a).Logs P) := by
  rw [eventRound, if_pos ⟨hle, hne⟩, Trace.logs_bind_iff, Trace.logs_tell_iff,
    Trace.logs_bind_iff]
  refine and_congr_right fun _ => and_congr_right fun _ => ?_
  cases hret : (callback a s).val.1 with
  | false => simp
  | true => simp

variable {f : SizeT A → σ → Bool × σ}

theorem eventRound_of_accepts (hle : a ≤ last) (hne : a ≠ 0#A.bits) (hf : (f a s).1 = true) :
    eventRound m last (pureCallback f) (a, s) =
      ⟨.inl (a + BitVec.ofNat _ (event2Extent m a), (f a s).2),
        .event a :: (getNextEvent m a).log⟩ := by
  simp [eventRound, pureCallback, hle, hne, hf, bind, pure, Trace.tell, getNextEvent_val]

theorem eventRound_of_rejects (hle : a ≤ last) (hne : a ≠ 0#A.bits) (hf : (f a s).1 = false) :
    eventRound m last (pureCallback f) (a, s) = ⟨.inr (false, (f a s).2), [.event a]⟩ := by
  simp [eventRound, pureCallback, hle, hne, hf, bind, pure, Trace.tell]

theorem evals_of_trail {as : List (SizeT A)} {P : LogEffect A → Prop}
    (h : Trail (event2Next m last) a as) (hle : a ≤ last) (hne : a ≠ 0#A.bits)
    (hP : ∀ b ∈ as, P (.event b) ∧ (getNextEvent m b).Logs P) :
    ∃ t, Loop.Evals (eventRound m last (pureCallback f)) (a, s) t ∧
      t.val = ((feed f as s).ok, (feed f as s).state) ∧ visits t = (feed f as s).taken ∧
      t.Logs P := by
  have hsilent (b : SizeT A) : (getNextEvent m b).log.filterMap LogEffect.event? = [] :=
    visits_getNextEvent m b
  induction h generalizing s with
  | @stop a hstop =>
    obtain ⟨hmark, hsizes⟩ := hP a (List.mem_singleton_self a)
    cases hf : (f a s).1 with
    | false =>
      refine ⟨_, .exit (eventRound_of_rejects hle hne hf), ?_, ?_, ?_⟩
      · rw [feed_cons_of_rejects hf]
      · rw [feed_cons_of_rejects hf]
        rfl
      · exact Trace.logs_tell hmark
    | true =>
      have hpast := inRange_eq_none_iff.mp hstop
      refine ⟨_, .next (eventRound_of_accepts hle hne hf) (.exit (eventRound_of_past _ hpast)),
        ?_, ?_, ?_⟩
      · rw [feed_cons_of_accepts hf, feed_nil]
      · rw [feed_cons_of_accepts hf, feed_nil]
        simp [visits, LogEffect.event?, hsilent]
      · intro e he
        rw [List.append_nil, List.mem_cons] at he
        rcases he with rfl | he
        · exact hmark
        · exact hsizes e he
  | @step a b as hstep _ ih =>
    obtain ⟨hmark, hsizes⟩ := hP a (List.mem_cons_self ..)
    cases hf : (f a s).1 with
    | false =>
      refine ⟨_, .exit (eventRound_of_rejects hle hne hf), ?_, ?_, ?_⟩
      · rw [feed_cons_of_rejects hf]
      · rw [feed_cons_of_rejects hf]
        rfl
      · exact Trace.logs_tell hmark
    | true =>
      obtain ⟨rfl, hble, hbne⟩ := event2Next_eq_some_iff.mp hstep
      obtain ⟨t, hevals, hval, hvisits, hlogs⟩ := ih (s := (f a s).2) hble hbne
        fun c hc => hP c (List.mem_cons_of_mem _ hc)
      refine ⟨_, .next (eventRound_of_accepts hle hne hf) hevals, ?_, ?_, ?_⟩
      · rw [feed_cons_of_accepts hf, hval]
      · rw [feed_cons_of_accepts hf, ← hvisits]
        simp [visits, LogEffect.event?, hsilent]
      · intro e he
        rw [List.cons_append, List.mem_cons, List.mem_append] at he
        rcases he with rfl | he | he
        · exact hmark
        · exact hsizes e he
        · exact hlogs e he

theorem reaches_of_eventRound {callback : Callback A σ} {t : SizeT A × σ}
    (h : Reaches (Loop.next (eventRound m last callback)) (a, s) t)
    (ht : t.1 ≤ last ∧ t.1 ≠ 0#A.bits) : Reaches (event2Next m last) a t.1 := by
  induction h with
  | refl => exact .refl
  | @tail b c _ hstep ih =>
    have hval := Loop.next_eq_some_iff.mp hstep
    by_cases hb : b.1 ≤ last ∧ b.1 ≠ 0#A.bits
    · rw [eventRound_val hb.1 hb.2] at hval
      split at hval
      · obtain rfl := Sum.inl.inj hval
        exact (ih hb).tail (event2Next_eq_some_iff.mpr ⟨rfl, ht⟩)
      · cases hval
    · rw [eventRound_of_past callback hb] at hval
      cases hval

theorem reaches_in_range {b : SizeT A} (h : Reaches (event2Next m last) a b)
    (ha : a ≤ last ∧ a ≠ 0#A.bits) : b ≤ last ∧ b ≠ 0#A.bits :=
  reaches_forall (P := fun b => b ≤ last ∧ b ≠ 0#A.bits)
    (fun _ _ _ hnext => (event2Next_eq_some_iff.mp hnext).2) h ha

theorem eventRound_reaches (callback : Callback A σ) {b : SizeT A}
    (haccepts : ∀ p s, (callback p s).val.1 = true) (h : Reaches (event2Next m last) a b)
    (ha : a ≤ last ∧ a ≠ 0#A.bits) (s : σ) :
    ∃ s', Reaches (Loop.next (eventRound m last callback)) (a, s) (b, s') := by
  induction h with
  | refl => exact ⟨s, .refl⟩
  | @tail b c hb hstep ih =>
    obtain ⟨s', hreach⟩ := ih
    obtain ⟨hle, hne⟩ := reaches_in_range hb ha
    obtain ⟨rfl, _⟩ := event2Next_eq_some_iff.mp hstep
    refine ⟨(callback b s').val.2, hreach.tail ?_⟩
    rw [Option.mem_def, Loop.next_eq_some_iff, eventRound_val hle hne, if_pos (haccepts b s')]

theorem foreachEvent2_of_ne_zero (ha : a ≠ 0#A.bits) (hlast : last ≠ 0#A.bits)
    (callback : Callback A σ) (s : σ) :
    foreachEvent2 m a last (some callback) s =
      fun fuel => Loop.run (eventRound m last callback) fuel (a, s) := by
  have hnull : ¬(a = 0#A.bits ∨ last = 0#A.bits) := by simp [ha, hlast]
  funext fuel
  exact if_neg hnull

theorem foreachEvent2_of_evals {callback : Callback A σ} {t : Trace (LogEffect A) (Bool × σ)}
    (ha : a ≠ 0#A.bits) (hlast : last ≠ 0#A.bits)
    (h : Loop.Evals (eventRound m last callback) (a, s) t) :
    Halts (foreachEvent2 m a last (some callback) s) t := by
  rw [foreachEvent2_of_ne_zero ha hlast]
  exact h.halts

end Agile

section Legacy

variable {A : Arch} {m : Memory A.bits} {a last : SizeT A}

theorem span_pcrEventSize : Layout.memberSpan pcrEvent .eventSize = ⟨28, 4⟩ := by decide

/-- The struct ends with a placeholder of one byte, which the subtraction takes off again. -/
theorem sizeof_add_sub_one (m : Memory A.bits) (a : SizeT A) :
    a + BitVec.ofNat _ (Layout.sizeof pcrEvent) +
        BitVec.ofNat _ (m.load (a + BitVec.ofNat _ 28) 4) - 1#A.bits =
      a + BitVec.ofNat _ (pcrEventExtent m a) := by
  have hsizeof : Layout.sizeof pcrEvent = 32 + 1 := by decide
  rw [hsizeof, add_ofNat_add, pcrEventExtent, Nat.add_right_comm, BitVec.ofNat_add (_ + _) 1,
    ← BitVec.add_assoc, BitVec.add_sub_cancel]

theorem tpm12EventNext_val (m : Memory A.bits) (a last : SizeT A) :
    (tpm12EventNext m a last).val = (pcrEventNext m last a).getD 0#A.bits := by
  unfold tpm12EventNext pcrEventNext
  split
  · rfl
  · simp only [Trace.val_bind, Trace.val_ite, Trace.val_pure, member_of_span span_pcrEventSize,
      sizeof_add_sub_one]
    unfold inRange
    by_cases hpast : a + BitVec.ofNat _ (pcrEventExtent m a) ≤ last
    · by_cases hzero : a + BitVec.ofNat _ (pcrEventExtent m a) = 0#A.bits
      · simp [hzero]
      · simp [hpast, hzero, BitVec.not_lt.mpr hpast]
    · simp [hpast, BitVec.not_le.mp hpast]

theorem next_tpm12Round (m : Memory A.bits) (last a : SizeT A) :
    Loop.next (tpm12Round m last) a = pcrEventNext m last a := by
  have hval : (tpm12Round m last a).val =
      if (pcrEventNext m last a).getD 0#A.bits = 0#A.bits then .inr ()
      else .inl ((pcrEventNext m last a).getD 0#A.bits) := by
    simp only [tpm12Round, Trace.val_bind, Trace.val_ite, Trace.val_pure, tpm12EventNext_val]
  rw [Loop.next, hval]
  cases hnext : pcrEventNext m last a with
  | none => simp
  | some b =>
    obtain ⟨_, _, _, hb⟩ := pcrEventNext_eq_some_iff.mp hnext
    simp [hb]

def tpm12Opening (A : Arch) : List (LogEffect A) :=
  [.print ⟨"TPM2 EventLog, EFI_TCG2_EVENT_LOG_FORMAT_TCG_1_2 format\n", []⟩,
    .decode efiTcg2EventLogFormatTcg12]

theorem prettyprintTpm12Eventlog_of_pos {first last : UInt64}
    (hfirst : toPointer A first ≠ 0#A.bits) (fuel : Nat) :
    prettyprintTpm12Eventlog m first last fuel =
      ⟨(Loop.run (tpm12Round m (toPointer A last)) fuel (toPointer A first)).val,
        tpm12Opening A ++
          (Loop.run (tpm12Round m (toPointer A last)) fuel (toPointer A first)).log⟩ := by
  simp only [prettyprintTpm12Eventlog, if_neg hfirst]
  rfl

theorem prettyprintTpm12Eventlog_of_trail {first last : UInt64} {as : List (SizeT A)}
    (hfirst : toPointer A first ≠ 0#A.bits)
    (h : Trail (pcrEventNext m (toPointer A last)) (toPointer A first) as) :
    Halts (prettyprintTpm12Eventlog m first last)
      ⟨(), tpm12Opening A ++ as.flatMap fun b => (tpm12Round m (toPointer A last) b).log⟩ := by
  have hnext : Loop.next (tpm12Round m (toPointer A last)) = pcrEventNext m (toPointer A last) :=
    funext (next_tpm12Round m _)
  rw [← hnext] at h
  have hevals : Loop.Evals (tpm12Round m (toPointer A last)) (toPointer A first)
      ⟨(), as.flatMap fun b => (tpm12Round m (toPointer A last) b).log⟩ :=
    Loop.Evals.of_trail h fun _ _ _ _ => rfl
  obtain ⟨n, hn⟩ := hevals.halts
  refine ⟨n, ?_⟩
  intro k hk
  have hrun : Loop.run (tpm12Round m (toPointer A last)) k (toPointer A first) = _ := hn k hk
  rw [prettyprintTpm12Eventlog_of_pos hfirst, hrun]

theorem visits_tpm12Round (m : Memory A.bits) (last a : SizeT A) :
    visits (tpm12Round m last a) = [a] := by
  have hprint : visits (prettyprintTpm12Event m a) = [] := rfl
  have hnext : visits (tpm12EventNext m a last) = [] := by
    unfold tpm12EventNext
    split
    · rfl
    · simp only [visits, Trace.log_bind, Trace.log_ite, member_of_span span_pcrEventSize]
      split <;> rfl
  unfold visits at hprint hnext ⊢
  simp only [tpm12Round, Trace.log_bind, Trace.log_tell, Trace.log_ite, Trace.log_pure, ite_self,
    List.append_nil, List.filterMap_append, hprint, hnext]
  rfl

theorem visits_tpm12_of_trail {α : Type*} (x : α) (last : SizeT A) (as : List (SizeT A)) :
    visits (⟨x, tpm12Opening A ++ as.flatMap fun b => (tpm12Round m last b).log⟩ :
      Trace (LogEffect A) α) = as := by
  have hround : (fun b => (tpm12Round m last b).log.filterMap LogEffect.event?) = fun b => [b] :=
    funext (visits_tpm12Round m last)
  have hopening : (tpm12Opening A).filterMap LogEffect.event? = [] := rfl
  rw [visits, List.filterMap_append, List.filterMap_flatMap, hround, List.flatMap_singleton',
    hopening, List.nil_append]

end Legacy

end TctiUefi.EventLog
