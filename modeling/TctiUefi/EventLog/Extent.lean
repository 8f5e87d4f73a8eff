import TctiUefi.EventLog.Walk
import TctiUefi.Lib.Trail

namespace TctiUefi.EventLog

theorem span_algorithmId : Layout.memberSpan digest2 .algorithmId = ⟨0, 2⟩ := by decide
theorem span_digest : Layout.memberSpan digest2 .digest = ⟨2, 0⟩ := by decide
theorem span_eventSize : Layout.memberSpan event2 .eventSize = ⟨0, 4⟩ := by decide
theorem span_event : Layout.memberSpan event2 .event = ⟨4, 0⟩ := by decide
theorem span_digestCount : Layout.memberSpan eventHeader2 .digestCount = ⟨8, 4⟩ := by decide
theorem span_digests : Layout.memberSpan eventHeader2 .digests = ⟨12, 0⟩ := by decide

section Member

variable {A : Arch} {m : Memory A.bits} {layout : List (Layout.Member LogMember)} {x : LogMember}

theorem addressOf_of_span (h : Layout.memberSpan layout x = ⟨k, n⟩) (p : SizeT A) :
    addressOf layout p x = p + BitVec.ofNat _ k := by
  rw [addressOf, Layout.offsetof, h]

theorem member_of_span (h : Layout.memberSpan layout x = ⟨k, n⟩) (p : SizeT A) :
    member m layout p x =
      ⟨m.load (p + BitVec.ofNat _ k) n, [.read (p + BitVec.ofNat _ k) n]⟩ := by
  rw [member, addressOf_of_span h, h]
  rfl

theorem member_algorithmId (p : SizeT A) :
    member m digest2 p .algorithmId = ⟨m.load p 2, [.read p 2]⟩ := by
  rw [member_of_span span_algorithmId, BitVec.add_zero]

theorem member_eventSize (p : SizeT A) :
    member m event2 p .eventSize = ⟨m.load p 4, [.read p 4]⟩ := by
  rw [member_of_span span_eventSize, BitVec.add_zero]

end Member

/-- The bytes that a digest takes, by the algorithm id that stands at its start. -/
def digestExtent (m : Memory A.bits) (p : SizeT A) : Nat :=
  2 + getAlgSize (UInt16.ofNat (m.load p 2))

def digestsAt (m : Memory A.bits) : Nat → SizeT A → List (SizeT A)
  | 0, _ => []
  | count + 1, p =>
    if p = 0#A.bits then []
    else p :: digestsAt m count (p + BitVec.ofNat _ (digestExtent m p))

def digestsOf (m : Memory A.bits) (a : SizeT A) : List (SizeT A) :=
  digestsAt m (m.load (a + BitVec.ofNat _ 8) 4) (a + BitVec.ofNat _ 12)

def digestsExtent (m : Memory A.bits) (count : Nat) (p : SizeT A) : Nat :=
  ((digestsAt m count p).map (digestExtent m)).sum

def digestsSize (m : Memory A.bits) (a : SizeT A) : Nat :=
  digestsExtent m (m.load (a + BitVec.ofNat _ 8) 4) (a + BitVec.ofNat _ 12)

def event2Extent (m : Memory A.bits) (a : SizeT A) : Nat :=
  16 + digestsSize m a + m.load (a + BitVec.ofNat _ (12 + digestsSize m a)) 4

def pcrEventExtent (m : Memory A.bits) (a : SizeT A) : Nat :=
  32 + m.load (a + BitVec.ofNat _ 28) 4

section Digests

variable {A : Arch} {m : Memory A.bits}

theorem getNextDigest_val (m : Memory A.bits) (p : SizeT A) :
    (getNextDigest m p).val = p + BitVec.ofNat _ (digestExtent m p) := by
  simp only [getNextDigest, member_algorithmId, addressOf_of_span span_digest, Trace.val_bind,
    Trace.val_pure, add_ofNat_add, digestExtent]

theorem sizeofDigest2_val (m : Memory A.bits) (p : SizeT A) :
    (sizeofDigest2 m p).val = BitVec.ofNat _ (digestExtent m p) := by
  have hsize : Layout.sizeof digest2 = 2 := by decide
  simp only [sizeofDigest2, member_algorithmId, hsize, Trace.val_bind, Trace.val_pure,
    digestExtent, BitVec.ofNat_add]

theorem digestLoop_val {σ : Type} (m : Memory A.bits) (hdr : SizeT A) (callback : Callback A σ)
    (count : Nat) (p : SizeT A) (s : σ) :
    (digestLoop m hdr callback count p s).val =
      ((feed (fun p s => (callback p s).val) (digestsAt m count p) s).ok,
        (feed (fun p s => (callback p s).val) (digestsAt m count p) s).state) := by
  induction count generalizing p s with
  | zero => rfl
  | succ count ih =>
    simp only [digestLoop, digestsAt, Trace.val_bind, Trace.val_ite]
    by_cases hp : p = 0#A.bits
    · rw [if_pos hp, if_pos hp]
      rfl
    · rw [if_neg hp, if_neg hp]
      by_cases hret : (callback p s).val.1 = true
      · rw [if_pos hret, feed_cons_of_accepts hret, getNextDigest_val]
        exact ih _ _
      · rw [if_neg hret, feed_cons_of_rejects (Bool.eq_false_iff.mpr hret)]
        rfl

theorem feed_sizes {f : SizeT A → Option (SizeT A) → Bool × Option (SizeT A)}
    (hf : ∀ p n, f p (some n) = (true, some (n + BitVec.ofNat _ (digestExtent m p))))
    (ps : List (SizeT A)) (n : SizeT A) :
    (feed f ps (some n)).ok = true ∧ (feed f ps (some n)).state =
      some (n + BitVec.ofNat _ (ps.map (digestExtent m)).sum) := by
  induction ps generalizing n with
  | nil => simp
  | cons p ps ih =>
    have hret : (f p (some n)).1 = true := by rw [hf]
    rw [feed_cons_of_accepts hret, hf]
    obtain ⟨hok, hstate⟩ := ih (n + BitVec.ofNat _ (digestExtent m p))
    refine ⟨hok, ?_⟩
    rw [List.map_cons, List.sum_cons, ← add_ofNat_add]
    exact hstate

theorem foreachDigest2_sizes {callback : Callback A (Option (SizeT A))}
    (hcallback : ∀ p n, (callback p (some n)).val =
      (true, some (n + BitVec.ofNat _ (digestExtent m p)))) (a : SizeT A) :
    (foreachDigest2 m a callback (some 0#A.bits)).val =
      (true, some (BitVec.ofNat _ (digestsSize m a))) := by
  obtain ⟨hok, hstate⟩ := feed_sizes
    (f := fun p n => (callback p n).val) hcallback
    (digestsAt m (m.load (a + BitVec.ofNat _ 8) 4) (a + BitVec.ofNat _ 12)) 0#A.bits
  simp only [foreachDigest2, member_of_span span_digestCount, addressOf_of_span span_digests,
    digestLoop_val, hok, hstate, BitVec.zero_add]
  rfl

theorem digest2AccumulatorCallback_val (m : Memory A.bits) (p n : SizeT A) :
    (digest2AccumulatorCallback m p (some n)).val =
      (true, some (n + BitVec.ofNat _ (digestExtent m p))) := by
  simp only [digest2AccumulatorCallback, Trace.val_bind, Trace.val_pure, sizeofDigest2_val]

theorem getNextEvent_val (m : Memory A.bits) (a : SizeT A) :
    (getNextEvent m a).val = a + BitVec.ofNat _ (event2Extent m a) := by
  simp only [getNextEvent, Trace.val_bind,
    foreachDigest2_sizes (digest2AccumulatorCallback_val m), if_true, Option.getD_some,
    member_eventSize, addressOf_of_span span_digests, addressOf_of_span span_event,
    Trace.val_pure, add_ofNat_add]
  apply congrArg fun n => a + BitVec.ofNat _ n
  rw [event2Extent]
  omega

end Digests

section Logs

variable {A : Arch} {m : Memory A.bits} {P : LogEffect A → Prop}

theorem digestLoop_logs {σ : Type} {callback : Callback A σ}
    (hread : ∀ start len, P (.read start len)) (hcallback : ∀ p s, (callback p s).Logs P)
    (hdr : SizeT A) {count : Nat} {p : SizeT A}
    (hdigest : ∀ q ∈ digestsAt m count p, P (.digest q)) (s : σ) :
    (digestLoop m hdr callback count p s).Logs P := by
  have hcount := member_logs (m := m) hread eventHeader2 hdr .digestCount
  induction count generalizing p s with
  | zero => exact hcount.bind (Trace.logs_pure _ _)
  | succ count ih =>
    rw [digestLoop]
    refine hcount.bind ?_
    by_cases hp : p = 0#A.bits
    · rw [if_pos hp]
      exact Trace.logs_pure _ _
    · rw [digestsAt, if_neg hp] at hdigest
      rw [if_neg hp]
      refine (Trace.logs_tell (hdigest p (List.mem_cons_self ..))).bind ((hcallback p s).bind ?_)
      split
      · refine Trace.Logs.bind ?_ (ih ?_ _)
        · exact (member_logs hread digest2 p .algorithmId).bind (Trace.logs_pure _ _)
        · rw [getNextDigest_val]
          exact fun q hq => hdigest q (List.mem_cons_of_mem _ hq)
      · exact Trace.logs_pure _ _

theorem foreachDigest2_logs {σ : Type} {callback : Callback A σ}
    (hread : ∀ start len, P (.read start len)) (hcallback : ∀ p s, (callback p s).Logs P)
    {a : SizeT A} (hdigest : ∀ q ∈ digestsOf m a, P (.digest q)) (s : σ) :
    (foreachDigest2 m a callback s).Logs P := by
  rw [foreachDigest2, member_of_span span_digestCount, addressOf_of_span span_digests]
  exact digestLoop_logs hread hcallback a hdigest s

theorem getNextEvent_logs (hread : ∀ start len, P (.read start len)) {a : SizeT A}
    (hdigest : ∀ q ∈ digestsOf m a, P (.digest q)) : (getNextEvent m a).Logs P := by
  refine Trace.Logs.bind ?_ ?_
  · refine foreachDigest2_logs hread ?_ hdigest _
    intro p n
    cases n with
    | none => exact Trace.logs_pure _ _
    | some n =>
      refine Trace.Logs.bind ?_ (Trace.logs_pure _ _)
      exact (member_logs hread digest2 p .algorithmId).bind (Trace.logs_pure _ _)
  · split
    · exact (member_logs hread event2 _ .eventSize).bind (Trace.logs_pure _ _)
    · exact Trace.logs_pure _ _

theorem visits_getNextEvent (m : Memory A.bits) (a : SizeT A) : visits (getNextEvent m a) = [] := by
  rw [visits, List.filterMap_eq_nil_iff]
  exact getNextEvent_logs (P := fun e => e.event? = none) (fun _ _ => rfl) (fun _ _ => rfl)

theorem digest_mem_digestLoop {σ : Type} {callback : Callback A σ}
    (haccepts : ∀ p s, (callback p s).val.1 = true) (hdr : SizeT A) {count : Nat} {p q : SizeT A}
    (hq : q ∈ digestsAt m count p) (s : σ) :
    .digest q ∈ (digestLoop m hdr callback count p s).log := by
  induction count generalizing p s with
  | zero => cases hq
  | succ count ih =>
    rw [digestsAt] at hq
    split at hq
    · cases hq
    · rename_i hp
      rw [digestLoop, if_neg hp, Trace.log_bind, Trace.log_bind, Trace.log_bind]
      apply List.mem_append_right
      rcases List.mem_cons.mp hq with rfl | hq
      · exact List.mem_append_left _ (List.mem_singleton_self _)
      · rw [if_pos (haccepts p s), Trace.log_bind, getNextDigest_val]
        exact List.mem_append_right _ (List.mem_append_right _
          (List.mem_append_right _ (ih hq _)))

end Logs

section Bounds

theorem getAlgSize_le (algId : UInt16) : getAlgSize algId ≤ 64 := by
  unfold getAlgSize
  cases HashAlg.ofId? algId with
  | none => exact Nat.zero_le _
  | some h => cases h <;> decide

theorem digestsExtent_le (m : Memory A.bits) (count : Nat) (p : SizeT A) :
    digestsExtent m count p ≤ 66 * count := by
  induction count generalizing p with
  | zero => exact Nat.le_refl _
  | succ count ih =>
    have hrest := ih (p + BitVec.ofNat _ (digestExtent m p))
    have hsize : digestExtent m p ≤ 66 := Nat.add_le_add_left (getAlgSize_le _) 2
    unfold digestsExtent at hrest ⊢
    rw [digestsAt]
    split
    · exact Nat.zero_le _
    · rw [List.map_cons, List.sum_cons]
      omega

theorem le_event2Extent (m : Memory A.bits) (a : SizeT A) : 16 ≤ event2Extent m a := by
  unfold event2Extent
  omega

/-- 2 ^ 32 - 1 digests of 66 bytes, and as many bytes of event data. -/
theorem event2Extent_lt (m : Memory A.bits) (a : SizeT A) : event2Extent m a < 2 ^ 39 := by
  have hcount := m.load_lt (a + BitVec.ofNat _ 8) 4
  have hsize := m.load_lt (a + BitVec.ofNat _ (12 + digestsSize m a)) 4
  have hdigests : digestsSize m a ≤ 66 * m.load (a + BitVec.ofNat _ 8) 4 :=
    digestsExtent_le m _ _
  unfold event2Extent
  omega

theorem le_pcrEventExtent (m : Memory A.bits) (a : SizeT A) : 32 ≤ pcrEventExtent m a :=
  Nat.le_add_right _ _

theorem pcrEventExtent_lt (m : Memory A.bits) (a : SizeT A) : pcrEventExtent m a < 2 ^ 39 := by
  have hsize := m.load_lt (a + BitVec.ofNat _ 28) 4
  unfold pcrEventExtent
  omega

end Bounds

end TctiUefi.EventLog
