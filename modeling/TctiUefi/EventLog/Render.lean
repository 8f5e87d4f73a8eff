import TctiUefi.EventLog.Decode
import TctiUefi.EventLog.Legacy
import TctiUefi.EventLog.Wrap
import TctiUefi.EventLog.RoundTrip

open StateTransition

namespace TctiUefi.EventLog

open Memory

def Digest2.output (A : Arch) (d : Digest2) : List (LogEffect A) :=
  [.print ⟨"    AlgorithmId: %s (0x%x)\n", [.str (getAlgName d.algorithmId),
      .int d.algorithmId.toNat]⟩,
    .print ⟨"    Digest: %d bytes\n", [.int d.digest.length]⟩,
    .dumpHex 4 d.digest]

def Event2.output (A : Arch) (e : Event2) : List (LogEffect A) :=
  [.print ⟨"  PCRIndex: %d\n", [.int e.pcrIndex.toNat]⟩,
    .print ⟨"  EventType: %s (0x%x)\n",
      [.str (eventtypeToString e.eventType), .int e.eventType.toNat]⟩,
    .print ⟨"  DigestCount: %d\n", [.int e.digests.length]⟩] ++
  (e.digests.flatMap (Digest2.output A) ++
    [.print ⟨"  Event: %u bytes\n", [.int e.event.length]⟩, .dumpHex 2 e.event])

def logOutput (A : Arch) (es : List Event2) : List (LogEffect A) :=
  .print ⟨"TPM2 EventLog, EFI_TCG2_EVENT_LOG_FORMAT_TCG_2 format\n", []⟩ ::
    (es.flatMap (Event2.output A) ++ [.print ⟨"TPM2 EventLog end\n", []⟩])

section Entries

variable {A : Arch} {m : Memory A.bits} {a : SizeT A}

@[simp] theorem outputs_pure (x : α) : outputs (pure x : Trace (LogEffect A) α) = [] := rfl

@[simp] theorem outputs_member (layout : List (Layout.Member LogMember)) (p : SizeT A)
    (x : LogMember) : outputs (member m layout p x) = [] := rfl

theorem outputs_prettyprintTpm2Digest (m : Memory A.bits) (p : SizeT A) :
    outputs (prettyprintTpm2Digest m p) = (decodeDigest2 m p).output A := by
  have hlen : (decodeDigest2 m p).digest.length = getAlgSize (UInt16.ofNat (m.load p 2)) :=
    Buffer.length_bytes _ _
  rw [Digest2.output, hlen, toNat_decodeDigest2_algorithmId]
  simp only [outputs, prettyprintTpm2Digest, print, dumpHex, member_algorithmId,
    addressOf_of_span span_digest, Trace.log_bind, Trace.log_tell]
  rfl

theorem outputs_prettyprintTpm2DigestCallback (m : Memory A.bits) (p : SizeT A)
    (s : Option (SizeT A)) :
    outputs (prettyprintTpm2DigestCallback m p s) = (decodeDigest2 m p).output A := by
  cases s with
  | none =>
    simp only [prettyprintTpm2DigestCallback, outputs_bind, outputs_prettyprintTpm2Digest]
    exact List.append_nil _
  | some size =>
    simp only [prettyprintTpm2DigestCallback, outputs_bind, outputs_prettyprintTpm2Digest]
    exact List.append_nil _

theorem prettyprintTpm2DigestCallback_accepts (m : Memory A.bits) (p : SizeT A)
    (s : Option (SizeT A)) : (prettyprintTpm2DigestCallback m p s).val.1 = true := by
  cases s with
  | none => rfl
  | some size => rfl

theorem outputs_digestLoop {σ : Type} {callback : Callback A σ}
    {out : SizeT A → List (LogEffect A)} (hout : ∀ p s, outputs (callback p s) = out p)
    (haccepts : ∀ p s, (callback p s).val.1 = true) (hdr : SizeT A) (count : Nat) (p : SizeT A)
    (s : σ) :
    outputs (digestLoop m hdr callback count p s) = (digestsAt m count p).flatMap out := by
  induction count generalizing p s with
  | zero => rfl
  | succ count ih =>
    rw [digestLoop, digestsAt, outputs_bind, outputs_member, List.nil_append]
    by_cases hp : p = 0#A.bits
    · rw [if_pos hp, if_pos hp]
      rfl
    · have hnext : outputs (getNextDigest m p) = [] := rfl
      rw [if_neg hp, if_neg hp, outputs_bind, outputs_bind, hout, if_pos (haccepts p s),
        outputs_bind, hnext, List.flatMap_cons, getNextDigest_val, ih]
      rfl

theorem outputs_foreachDigest2_print (m : Memory A.bits) (a : SizeT A) :
    outputs (foreachDigest2 m a (prettyprintTpm2DigestCallback m) (some 0#A.bits)) =
      ((digestsOf m a).map (decodeDigest2 m)).flatMap (Digest2.output A) := by
  rw [foreachDigest2, member_of_span span_digestCount, addressOf_of_span span_digests,
    outputs_digestLoop (outputs_prettyprintTpm2DigestCallback m)
      (prettyprintTpm2DigestCallback_accepts m), List.flatMap_map]
  rfl

theorem outputs_prettyprintTpm2EventHeader (m : Memory A.bits) (a : SizeT A) :
    outputs (prettyprintTpm2EventHeader m a) =
      [.print ⟨"  PCRIndex: %d\n", [.int (m.load a 4)]⟩,
        .print ⟨"  EventType: %s (0x%x)\n",
          [.str (eventtypeToString (UInt32.ofNat (m.load (a + BitVec.ofNat _ 4) 4))),
            .int (m.load (a + BitVec.ofNat _ 4) 4)]⟩,
        .print ⟨"  DigestCount: %d\n", [.int (m.load (a + BitVec.ofNat _ 8) 4)]⟩] := by
  have hpcrIndex : Layout.memberSpan eventHeader2 .pcrIndex = ⟨0, 4⟩ := by decide
  have heventType : Layout.memberSpan eventHeader2 .eventType = ⟨4, 4⟩ := by decide
  simp only [outputs, prettyprintTpm2EventHeader, print, member_of_span hpcrIndex,
    member_of_span heventType, member_of_span span_digestCount, Trace.log_bind, Trace.log_tell,
    BitVec.add_zero]
  rfl

theorem outputs_prettyprintTpm2Eventbuf (m : Memory A.bits) (p : SizeT A) :
    outputs (prettyprintTpm2Eventbuf m p) =
      [.print ⟨"  Event: %u bytes\n", [.int (m.load p 4)]⟩,
        .dumpHex 2 ((m.view (p + BitVec.ofNat _ 4)).bytes (m.load p 4))] := by
  simp only [outputs, prettyprintTpm2Eventbuf, print, dumpHex, member_eventSize,
    addressOf_of_span span_event, Trace.log_bind, Trace.log_tell]
  rfl

theorem outputs_prettyprintTpm2Event (hne : a ≠ 0#A.bits)
    (hfits : a.toNat + event2Extent m a ≤ 2 ^ A.bits) :
    outputs (prettyprintTpm2Event m a) = (decodeEvent2 m a).output A := by
  have hcount : (decodeEvent2 m a).digests.length = m.load (a + BitVec.ofNat _ 8) 4 := by
    rw [decodeEvent2, List.length_map, length_digestsOf hfits]
  have hsize : (decodeEvent2 m a).event.length =
      m.load (a + BitVec.ofNat _ (12 + digestsSize m a)) 4 := Buffer.length_bytes _ _
  have hplace : 12 + digestsSize m a + 4 = 16 + digestsSize m a := by omega
  rw [prettyprintTpm2Event, if_neg hne, outputs_bind, outputs_bind,
    outputs_prettyprintTpm2EventHeader, outputs_foreachDigest2_print,
    foreachDigest2_sizes (prettyprintTpm2DigestCallback_val m), if_pos rfl, Option.getD_some,
    addressOf_of_span span_digests, outputs_prettyprintTpm2Eventbuf, add_ofNat_add, add_ofNat_add,
    hplace, Event2.output, hcount, hsize]
  have hpcrIndex : (decodeEvent2 m a).pcrIndex.toNat = m.load a 4 :=
    UInt32.toNat_ofNat_of_lt' (m.load_lt a 4)
  have heventType : (decodeEvent2 m a).eventType.toNat = m.load (a + BitVec.ofNat _ 4) 4 :=
    UInt32.toNat_ofNat_of_lt' (m.load_lt _ 4)
  rw [hpcrIndex, heventType]
  rfl

end Entries

def EndsInMemory (m : Memory A.bits) (a : SizeT A) : Prop :=
  a.toNat + event2Extent m a ≤ 2 ^ A.bits

/-- The entries are what is between `first` and `last`: the encoding of all of them is there, the
last one to start at `last` or before is the final one. -/
structure LogBetween (m : Memory A.bits) (first last : SizeT A) (es : List Event2) : Prop where
  nonempty : es ≠ []
  laid : m.Laid first (es.flatMap Event2.encode)
  sized : ∀ e ∈ es, ∀ d ∈ e.digests, d.Sized
  started : ∀ p ∈ starts Event2.encode first es, p ≤ last
  ended : ¬(first + BitVec.ofNat _ (es.flatMap Event2.encode).length ≤ last ∧
    first + BitVec.ofNat _ (es.flatMap Event2.encode).length ≠ 0#A.bits)

section Logs

variable {A : Arch} {m : Memory A.bits} {a last : SizeT A} {e : Event2} {es : List Event2}

theorem event2Extent_of_sized {ys : List UInt8} (hsized : ∀ d ∈ e.digests, d.Sized)
    (h : m.Laid a (e.encode ++ ys)) : event2Extent m a = e.encode.length := by
  rw [event2Extent_of_laid (fun d hd => hsized d (List.mem_of_mem_dropLast hd))
    (fun d hd => Nat.le_of_eq (hsized d hd).length_encode.symm) h,
    Event2.readLength_of_sized hsized]

theorem EndsInMemory.fits (h : EndsInMemory m a) (ha : a ≠ 0#A.bits) :
    Fits a (event2Extent m a) := by
  have hpos := BitVec.toNat_pos_of_ne_zero ha
  have hextent := le_event2Extent m a
  have hlt : event2Extent m a < 2 ^ A.bits := by
    rw [EndsInMemory] at h
    omega
  rw [Fits, Nat.mod_eq_of_lt hlt]
  exact ⟨by omega, h⟩

theorem LogBetween.tail (h : LogBetween m a last (e :: es)) (hes : es ≠ []) :
    LogBetween m (a + BitVec.ofNat _ e.encode.length) last es where
  nonempty := hes
  laid := Laid.tail Event2.encode_ne_nil h.laid hes
  sized := fun e' he' => h.sized e' (List.mem_cons_of_mem _ he')
  started := fun p hp => h.started p (List.mem_cons_of_mem _ hp)
  ended := by
    have hended := h.ended
    rw [List.flatMap_cons, List.length_append, ← add_ofNat_add] at hended
    exact hended

theorem LogBetween.trail (h : LogBetween m a last es) :
    Trail (event2Next m last) a (starts Event2.encode a es) ∧
      (starts Event2.encode a es).map (decodeEvent2 m) = es := by
  induction es generalizing a with
  | nil => exact absurd rfl h.nonempty
  | cons e es ih =>
    have hlaid := h.laid
    rw [List.flatMap_cons] at hlaid
    have hsized := h.sized e (List.mem_cons_self ..)
    have hextent := event2Extent_of_sized hsized hlaid
    rw [starts_cons, List.map_cons, decodeEvent2_of_laid hsized hlaid]
    cases es with
    | nil =>
      refine ⟨.stop ?_, rfl⟩
      rw [event2Next, hextent, inRange_eq_none_iff]
      simpa using h.ended
    | cons e' es =>
      have htail := h.tail (List.cons_ne_nil e' es)
      obtain ⟨htrail, hdecode⟩ := ih htail
      rw [hdecode]
      refine ⟨.step ?_ htrail, rfl⟩
      rw [event2Next_eq_some_iff, hextent]
      exact ⟨rfl, htail.started _ (List.mem_cons_self ..), htail.laid.ne_zero⟩

theorem LogBetween.endsInMemory (h : LogBetween m a last es) :
    ∀ b ∈ starts Event2.encode a es, EndsInMemory m b := by
  intro b hb
  obtain ⟨e, he, ys, hlaid, _, _⟩ := laid_of_mem_starts Event2.encode_ne_nil h.laid hb
  rw [EndsInMemory, event2Extent_of_sized (h.sized e he) hlaid]
  exact hlaid.left.fits

theorem logBetween_singleton (ha : a ≤ last ∧ a ≠ 0#A.bits) (hfit : EndsInMemory m a)
    (hstop : event2Next m last a = none) : LogBetween m a last [decodeEvent2 m a] := by
  obtain ⟨hholds, hlen⟩ := holds_decodeEvent2 hfit
  have hbytes : [decodeEvent2 m a].flatMap Event2.encode = (decodeEvent2 m a).encode :=
    List.flatMap_singleton ..
  refine ⟨List.cons_ne_nil _ _, ?_, ?_, ?_, ?_⟩
  · rw [hbytes]
    refine ⟨hholds, ha.2, ?_⟩
    rw [hlen]
    exact hfit
  · intro e he
    rw [List.mem_singleton.mp he]
    exact decodeEvent2_sized m a
  · intro p hp
    rw [List.mem_singleton.mp hp]
    exact ha.1
  · rw [hbytes, hlen]
    exact inRange_eq_none_iff.mp hstop

theorem LogBetween.cons (ha : a ≤ last ∧ a ≠ 0#A.bits) (hfit : EndsInMemory m a)
    (hb : a + BitVec.ofNat _ (event2Extent m a) = b) (hne : b ≠ 0#A.bits)
    (h : LogBetween m b last es) : LogBetween m a last (decodeEvent2 m a :: es) := by
  obtain ⟨hholds, hlen⟩ := holds_decodeEvent2 hfit
  have hplace : a + BitVec.ofNat _ (decodeEvent2 m a).encode.length = b := by rw [hlen, hb]
  have htoNat : b.toNat = a.toNat + event2Extent m a := by
    rw [← hb]
    apply toNat_add_ofNat
    apply Nat.lt_of_le_of_ne hfit
    intro heq
    apply hne
    apply BitVec.eq_of_toNat_eq
    rw [← hb, BitVec.toNat_add, BitVec.toNat_ofNat, Nat.add_mod_mod, heq, Nat.mod_self,
      BitVec.toNat_zero]
  refine ⟨List.cons_ne_nil _ _, ?_, ?_, ?_, ?_⟩
  · rw [List.flatMap_cons]
    refine ⟨holds_append.mpr ⟨hholds, ?_⟩, ha.2, ?_⟩
    · rw [hplace]
      exact h.laid.holds
    · have hend := h.laid.fits
      rw [List.length_append, hlen]
      omega
  · intro e he
    rcases List.mem_cons.mp he with rfl | he
    · exact decodeEvent2_sized m a
    · exact h.sized e he
  · intro p hp
    rw [starts_cons, hplace] at hp
    rcases List.mem_cons.mp hp with rfl | hp
    · exact ha.1
    · exact h.started p hp
  · rw [List.flatMap_cons, List.length_append, ← add_ofNat_add, hplace]
    exact h.ended

theorem logBetween_of_trail {as : List (SizeT A)} (h : Trail (event2Next m last) a as)
    (ha : a ≤ last ∧ a ≠ 0#A.bits) (hfits : ∀ b ∈ as, EndsInMemory m b) :
    LogBetween m a last (as.map (decodeEvent2 m)) ∧
      starts Event2.encode a (as.map (decodeEvent2 m)) = as := by
  induction h with
  | @stop a hstop =>
    exact ⟨logBetween_singleton ha (hfits a (List.mem_singleton_self a)) hstop, rfl⟩
  | @step a b as hstep _ ih =>
    obtain ⟨hb, hle, hne⟩ := event2Next_eq_some_iff.mp hstep
    obtain ⟨hrest, hstarts⟩ := ih ⟨hle, hne⟩ fun c hc => hfits c (List.mem_cons_of_mem _ hc)
    have hfit : EndsInMemory m a := hfits a (List.mem_cons_self ..)
    constructor
    · exact hrest.cons ha hfit hb hne
    · rw [List.map_cons, starts_cons, (holds_decodeEvent2 hfit).2, hb, hstarts]

theorem exists_logBetween_iff (ha : a ≤ last ∧ a ≠ 0#A.bits) :
    (∃ es, LogBetween m a last es) ↔
      ∀ b, Reaches (event2Next m last) a b → EndsInMemory m b := by
  constructor
  · rintro ⟨es, h⟩ b hb
    exact h.endsInMemory b (h.trail.1.mem_iff.mpr hb)
  · intro hfits
    obtain ⟨as, htrail⟩ := trail_of_fits (event2Next m last) ha.2 ha.1
      (fun _ _ hstep => event2Next_eq_some_iff.mp hstep) fun a b hreach hstep =>
        (hfits a hreach).fits (reaches_in_range hreach ha).2
    exact ⟨_, (logBetween_of_trail htrail ha fun b hb => hfits b (htrail.mem_iff.mp hb)).1⟩

end Logs

section Printing

variable {A : Arch} {m : Memory A.bits} {a last : SizeT A} {es : List Event2}

theorem evals_of_trail_accepting (callback : Callback A Unit) {as : List (SizeT A)}
    (h : Trail (event2Next m last) a as) (ha : a ≤ last ∧ a ≠ 0#A.bits)
    (haccepts : ∀ p u, (callback p u).val.1 = true) :
    Loop.Evals (eventRound m last callback) (a, ())
      ⟨(true, ()), as.flatMap fun b => (eventRound m last callback (b, ())).log⟩ := by
  have hround {b : SizeT A} (hb : b ≤ last ∧ b ≠ 0#A.bits) :
      eventRound m last callback (b, ()) = ⟨.inl (b + BitVec.ofNat _ (event2Extent m b), ()),
        (eventRound m last callback (b, ())).log⟩ := by
    have hval : (eventRound m last callback (b, ())).val = _ := eventRound_val hb.1 hb.2
    rw [if_pos (haccepts b ())] at hval
    exact congrArg (Trace.mk · _) hval
  induction h with
  | stop hstop =>
    have hpast := inRange_eq_none_iff.mp hstop
    exact .next (hround ha) (.exit (eventRound_of_past callback hpast))
  | step hstep _ ih =>
    obtain ⟨rfl, hb⟩ := event2Next_eq_some_iff.mp hstep
    exact .next (hround ha) (ih hb)

theorem outputs_getNextEvent (m : Memory A.bits) (a : SizeT A) :
    outputs (getNextEvent m a) = [] := by
  rw [outputs, List.filter_eq_nil_iff]
  exact getNextEvent_logs (P := fun e => ¬e.isOutput = true) (fun _ _ => Bool.false_ne_true)
    fun _ _ => Bool.false_ne_true

theorem outputs_eventRound (ha : a ≤ last ∧ a ≠ 0#A.bits) (hfits : EndsInMemory m a) :
    outputs (eventRound m last (prettyprintTpm2EventCallback m) (a, ())) =
      (decodeEvent2 m a).output A := by
  have hprint : outputs (prettyprintTpm2EventCallback m a ()) = (decodeEvent2 m a).output A := by
    rw [prettyprintTpm2EventCallback, outputs_bind, outputs_prettyprintTpm2Event ha.2 hfits,
      outputs_pure, List.append_nil]
  have hmark : outputs (Trace.tell (.event a) : Trace (LogEffect A) Unit) = [] := rfl
  have haccepts : (prettyprintTpm2EventCallback m a ()).val.1 = true := rfl
  rw [eventRound, if_pos ha, outputs_bind, outputs_bind, hmark, hprint, if_pos haccepts,
    outputs_bind, outputs_getNextEvent, outputs_pure, List.append_nil, List.append_nil,
    List.nil_append]

theorem visits_bind (x : Trace (LogEffect A) α) (f : α → Trace (LogEffect A) β) :
    visits (x >>= f) = visits x ++ visits (f x.val) := List.filterMap_append ..

theorem visits_foreachDigest2_print (m : Memory A.bits) (a : SizeT A) :
    visits (foreachDigest2 m a (prettyprintTpm2DigestCallback m) (some 0#A.bits)) = [] := by
  rw [visits, List.filterMap_eq_nil_iff]
  refine foreachDigest2_logs (P := fun e => e.event? = none) (fun _ _ => rfl) ?_
    (fun _ _ => rfl) _
  intro p s
  rw [Trace.Logs, ← List.filterMap_eq_nil_iff]
  cases s with
  | none => rfl
  | some size => rfl

theorem visits_eventRound (ha : a ≤ last ∧ a ≠ 0#A.bits) :
    visits (eventRound m last (prettyprintTpm2EventCallback m) (a, ())) = [a] := by
  have hheader : visits (prettyprintTpm2EventHeader m a) = [] := rfl
  have hprint : visits (prettyprintTpm2Event m a) = [] := by
    rw [prettyprintTpm2Event, if_neg ha.2, visits_bind, visits_bind, hheader,
      visits_foreachDigest2_print]
    split <;> rfl
  have hcallback : visits (prettyprintTpm2EventCallback m a ()) = [] := by
    rw [prettyprintTpm2EventCallback, visits_bind, hprint]
    rfl
  have haccepts : (prettyprintTpm2EventCallback m a ()).val.1 = true := rfl
  rw [eventRound, if_pos ha, visits_bind, visits_bind, hcallback, if_pos haccepts, visits_bind,
    visits_getNextEvent]
  rfl

def tpm2Opening (A : Arch) : List (LogEffect A) :=
  [.print ⟨"TPM2 EventLog, EFI_TCG2_EVENT_LOG_FORMAT_TCG_2 format\n", []⟩,
    .decode efiTcg2EventLogFormatTcg2]

theorem prettyprintTpm2Eventlog_of_halts {first last : UInt64}
    {t : Trace (LogEffect A) (Bool × Unit)} (hfirst : toPointer A first ≠ 0#A.bits)
    (h : Halts (foreachEvent2 m (toPointer A first) (toPointer A last)
      (some (prettyprintTpm2EventCallback m)) ()) t) :
    Halts (prettyprintTpm2Eventlog m first last)
      ⟨(), tpm2Opening A ++ (t.log ++ [.print ⟨"TPM2 EventLog end\n", []⟩])⟩ := by
  obtain ⟨n, hn⟩ := h
  refine ⟨n, ?_⟩
  intro k hk
  simp only [prettyprintTpm2Eventlog, if_neg hfirst, bind, hn k hk]
  rfl

theorem prettyprintTpm2Eventlog_of_logBetween {first last : UInt64}
    (h : LogBetween m (toPointer A first) (toPointer A last) es) :
    ∃ t, Halts (prettyprintTpm2Eventlog m first last) t ∧ outputs t = logOutput A es ∧
      visits t = starts Event2.encode (toPointer A first) es := by
  have hfirst := h.laid.ne_zero
  have hle : toPointer A first ≤ toPointer A last := by
    cases es with
    | nil => exact absurd rfl h.nonempty
    | cons e es => exact h.started _ (List.mem_cons_self ..)
  obtain ⟨htrail, hdecode⟩ := h.trail
  have hrange : ∀ b ∈ starts Event2.encode (toPointer A first) es,
      b ≤ toPointer A last ∧ b ≠ 0#A.bits :=
    fun b hb => reaches_in_range (htrail.mem_iff.mp hb) ⟨hle, hfirst⟩
  have hevals := evals_of_trail_accepting (prettyprintTpm2EventCallback m) htrail
    ⟨hle, hfirst⟩ fun _ _ => rfl
  refine ⟨_, prettyprintTpm2Eventlog_of_halts hfirst
    (foreachEvent2_of_evals hfirst (ne_zero_of_le hle hfirst) hevals), ?_, ?_⟩
  · have hentries : (starts Event2.encode (toPointer A first) es).flatMap (fun b =>
        outputs (eventRound m (toPointer A last) (prettyprintTpm2EventCallback m) (b, ()))) =
          es.flatMap (Event2.output A) := by
      rw [← hdecode, List.flatMap_map, hdecode]
      apply List.flatMap_congr
      intro b hb
      exact outputs_eventRound (hrange b hb) (h.endsInMemory b hb)
    rw [logOutput, ← hentries, outputs, List.filter_append, List.filter_append, List.filter_flatMap]
    rfl
  · have hmarks : (starts Event2.encode (toPointer A first) es).flatMap (fun b =>
        visits (eventRound m (toPointer A last) (prettyprintTpm2EventCallback m) (b, ()))) =
          (starts Event2.encode (toPointer A first) es).flatMap fun b => [b] :=
      List.flatMap_congr fun b hb => visits_eventRound (hrange b hb)
    rw [List.flatMap_singleton'] at hmarks
    have hopening : (tpm2Opening A).filterMap LogEffect.event? = [] := rfl
    rw [visits, List.filterMap_append, List.filterMap_append, List.filterMap_flatMap, hopening,
      List.nil_append]
    exact (List.append_nil _).trans hmarks

theorem prettyprintTpm2Eventlog_renders {first last : UInt64}
    (hfirst : toPointer A first ≠ 0#A.bits) (hle : toPointer A first ≤ toPointer A last) :
    ((∃ es, LogBetween m (toPointer A first) (toPointer A last) es) ↔
      ∀ b, Reaches (event2Next m (toPointer A last)) (toPointer A first) b → EndsInMemory m b) ∧
    ∀ es, LogBetween m (toPointer A first) (toPointer A last) es →
      ∃ t, Halts (prettyprintTpm2Eventlog m first last) t ∧ outputs t = logOutput A es ∧
        visits t = starts Event2.encode (toPointer A first) es :=
  ⟨exists_logBetween_iff ⟨hle, hfirst⟩, fun _ h => prettyprintTpm2Eventlog_of_logBetween h⟩

end Printing

theorem prettyprintTpm2Eventlog_renders_zeroed :
    ((∃ es, LogBetween (fun _ => 0 : Memory Arch.ia32.bits) (toPointer .ia32 4096)
        (toPointer .ia32 8192) es) ↔
      ∀ b, Reaches (event2Next (fun _ => 0 : Memory Arch.ia32.bits) (toPointer .ia32 8192))
        (toPointer .ia32 4096) b → EndsInMemory (fun _ => 0) b) ∧
    ∀ es, LogBetween (fun _ => 0 : Memory Arch.ia32.bits) (toPointer .ia32 4096)
        (toPointer .ia32 8192) es →
      ∃ t, Halts (prettyprintTpm2Eventlog (fun _ => 0 : Memory Arch.ia32.bits) 4096 8192) t ∧
        outputs t = logOutput .ia32 es ∧
        visits t = starts Event2.encode (toPointer .ia32 4096) es :=
  prettyprintTpm2Eventlog_renders (by decide) (by decide)

end TctiUefi.EventLog
