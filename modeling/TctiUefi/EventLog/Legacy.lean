import TctiUefi.EventLog.Laid

namespace TctiUefi.EventLog

open Memory

def LogEffect.isOutput : LogEffect A → Bool
  | .print _ => true
  | .dumpHex _ _ => true
  | _ => false

def outputs (t : Trace (LogEffect A) α) : List (LogEffect A) := t.log.filter LogEffect.isOutput

def beyondEnd : Print := ⟨"Error: current element is beyond the end of the log\n", []⟩

def PcrEvent.output (e : PcrEvent) (a : SizeT A) : List (LogEffect A) :=
  [.print ⟨"TCG_PCR_EVENT: 0x%" ++ prixptr A ++ "\n", [.int a.toNat]⟩,
    .print ⟨"  PCRIndex: %d\n", [.int e.pcrIndex.toNat]⟩,
    .print ⟨"  EventType: %s (0x%08x)\n",
      [.str (eventtypeToString e.eventType), .int e.eventType.toNat]⟩,
    .print ⟨"  Digest: \n", []⟩,
    .dumpHex 4 e.digest,
    .print ⟨"  EventSize: %d\n", [.int e.event.length]⟩,
    .print ⟨"  Event: \n", []⟩,
    .dumpHex 4 e.event]

def legacyOutput (a : SizeT A) (es : List PcrEvent) : List (LogEffect A) :=
  (located PcrEvent.encode a es).flatMap fun p => p.2.output p.1

section Legacy

variable {A : Arch} {m : Memory A.bits} {a last : SizeT A} {es : List PcrEvent}

structure PcrEvent.StandsAt (e : PcrEvent) (m : Memory A.bits) (a : SizeT A) : Prop where
  pcrIndex : m.load a 4 = e.pcrIndex.toNat
  eventType : m.load (a + BitVec.ofNat _ 4) 4 = e.eventType.toNat
  digest : (m.view (a + BitVec.ofNat _ 8)).bytes 20 = e.digest
  eventSize : m.load (a + BitVec.ofNat _ 28) 4 = e.event.length
  event : (m.view (a + BitVec.ofNat _ 32)).bytes e.event.length = e.event

theorem standsAt_of_holds {e : PcrEvent} {ys : List UInt8} (h : m.Holds a (e.encode ++ ys)) :
    e.StandsAt m a := by
  simp only [PcrEvent.encode, List.append_assoc] at h
  obtain ⟨hpcrIndex, htail⟩ := holds_append.mp h
  rw [length_toLE] at htail
  obtain ⟨heventType, htail⟩ := holds_append.mp htail
  rw [length_toLE, add_ofNat_add] at htail
  obtain ⟨hdigest, htail⟩ := holds_append.mp htail
  rw [e.digest_length, add_ofNat_add] at htail
  obtain ⟨heventSize, htail⟩ := holds_append.mp htail
  rw [length_toLE, add_ofNat_add] at htail
  have hevent := (holds_append.mp htail).1
  rw [Holds, e.digest_length] at hdigest
  exact ⟨load_of_holds hpcrIndex e.pcrIndex.toNat_lt, load_of_holds heventType e.eventType.toNat_lt,
    hdigest, load_of_holds heventSize e.event_lt, hevent⟩

theorem outputs_prettyprintTpm12Event {e : PcrEvent} (h : e.StandsAt m a) :
    outputs (prettyprintTpm12Event m a) = e.output a := by
  have hpcrIndex : Layout.memberSpan pcrEvent .pcrIndex = ⟨0, 4⟩ := by decide
  have heventType : Layout.memberSpan pcrEvent .eventType = ⟨4, 4⟩ := by decide
  have hdigest : Layout.memberSpan pcrEvent .digest = ⟨8, 20⟩ := by decide
  have hevent : Layout.memberSpan pcrEvent .event = ⟨32, 1⟩ := by decide
  simp only [outputs, prettyprintTpm12Event, print, dumpHex, member_of_span hpcrIndex,
    member_of_span heventType, member_of_span span_pcrEventSize, hdigest,
    addressOf_of_span hdigest, addressOf_of_span hevent, Trace.log_bind, Trace.log_tell,
    BitVec.add_zero, h.pcrIndex, h.eventType, h.digest, h.eventSize, h.event, UInt32.ofNat_toNat]
  rfl

theorem outputs_tpm12EventNext (h : a = last ∨ ∃ b, pcrEventNext m last a = some b) :
    outputs (tpm12EventNext m a last) = [] := by
  rcases h with rfl | ⟨b, hb⟩
  · rw [tpm12EventNext, if_pos rfl]
    rfl
  · obtain ⟨hne, rfl, hle, _⟩ := pcrEventNext_eq_some_iff.mp hb
    rw [tpm12EventNext, if_neg hne, member_of_span span_pcrEventSize]
    simp only [outputs, Trace.log_bind, Trace.log_ite]
    rw [sizeof_add_sub_one, if_neg (BitVec.not_lt.mpr hle)]
    rfl

theorem outputs_bind (x : Trace (LogEffect A) α) (f : α → Trace (LogEffect A) β) :
    outputs (x >>= f) = outputs x ++ outputs (f x.val) := List.filter_append ..

theorem outputs_tpm12Round {e : PcrEvent} (he : e.StandsAt m a)
    (h : a = last ∨ ∃ b, pcrEventNext m last a = some b) :
    outputs (tpm12Round m last a) = e.output a := by
  have hlast (next : SizeT A) : outputs (if next = 0#A.bits then pure (.inr ())
      else pure (.inl next) : Trace (LogEffect A) (SizeT A ⊕ Unit)) = [] := by
    split <;> rfl
  simp only [tpm12Round, outputs_bind, outputs_prettyprintTpm12Event he, outputs_tpm12EventNext h,
    hlast, List.append_nil]
  rfl

theorem pcrEventNext_of_laid {e e' : PcrEvent}
    (hlaid : m.Laid a ((e :: e' :: es).flatMap PcrEvent.encode))
    (hlast : (starts PcrEvent.encode a (e :: e' :: es)).getLast? = some last) :
    pcrEventNext m last a = some (a + BitVec.ofNat _ e.encode.length) := by
  have htail := Laid.tail PcrEvent.encode_ne_nil hlaid (List.cons_ne_nil _ _)
  have hle : a + BitVec.ofNat _ e.encode.length ≤ last :=
    le_last_start PcrEvent.encode_ne_nil hlaid hlast
      (List.mem_cons_of_mem _ (List.mem_cons_self ..))
  have htoNat : (a + BitVec.ofNat _ e.encode.length).toNat = a.toNat + e.encode.length :=
    Laid.toNat_right hlaid (flatMap_ne_nil PcrEvent.encode_ne_nil (List.cons_ne_nil e' es))
  have hpos := List.length_pos_of_ne_nil e.encode_ne_nil
  rw [pcrEventNext_eq_some_iff, pcrEventExtent_of_holds hlaid.holds]
  refine ⟨?_, rfl, hle, htail.ne_zero⟩
  rintro rfl
  rw [BitVec.le_def] at hle
  omega

theorem trail_outputs_of_laid (hlaid : m.Laid a (es.flatMap PcrEvent.encode))
    (hlast : (starts PcrEvent.encode a es).getLast? = some last) :
    Trail (pcrEventNext m last) a (starts PcrEvent.encode a es) ∧
      (starts PcrEvent.encode a es).flatMap (fun b => outputs (tpm12Round m last b)) =
        legacyOutput a es := by
  unfold legacyOutput
  induction es generalizing a with
  | nil => cases hlast
  | cons e es ih =>
    have he := standsAt_of_holds (m := m) (e := e) hlaid.holds
    cases es with
    | nil =>
      obtain rfl : a = last := Option.some.inj hlast
      constructor
      · exact .stop (if_pos rfl)
      · simp [located, outputs_tpm12Round he (.inl rfl)]
    | cons e' es =>
      have hnext := pcrEventNext_of_laid hlaid hlast
      obtain ⟨htrail, houtputs⟩ := ih
        (Laid.tail PcrEvent.encode_ne_nil hlaid (List.cons_ne_nil _ _)) hlast
      rw [starts_cons, List.flatMap_cons, located, List.flatMap_cons, houtputs,
        outputs_tpm12Round he (.inr ⟨_, hnext⟩)]
      exact ⟨.step hnext htrail, rfl⟩

theorem beyondEnd_not_mem_legacyOutput (a : SizeT A) (es : List PcrEvent) :
    .print beyondEnd ∉ legacyOutput a es := by
  have hentry (p : SizeT A × PcrEvent) : .print beyondEnd ∉ p.2.output p.1 := by
    simp [PcrEvent.output, beyondEnd]
  simp [legacyOutput, hentry]

theorem prettyprintTpm12Eventlog_encode {first last : UInt64}
    (hlaid : m.Laid (toPointer A first) (es.flatMap PcrEvent.encode))
    (hlast : (starts PcrEvent.encode (toPointer A first) es).getLast? = some (toPointer A last)) :
    ∃ t, Halts (prettyprintTpm12Eventlog m first last) t ∧
      visits t = starts PcrEvent.encode (toPointer A first) es ∧
      outputs t =
        .print ⟨"TPM2 EventLog, EFI_TCG2_EVENT_LOG_FORMAT_TCG_1_2 format\n", []⟩ ::
          legacyOutput (toPointer A first) es ∧
      .print beyondEnd ∉ t.log ∧
      t.Logs (LogEffect.Within (toPointer A first).toNat
        ((toPointer A first).toNat + (es.flatMap PcrEvent.encode).length)) := by
  obtain ⟨htrail, houtputs⟩ := trail_outputs_of_laid hlaid hlast
  have hprinted : outputs (⟨(), tpm12Opening A ++ (starts PcrEvent.encode (toPointer A first)
      es).flatMap fun b => (tpm12Round m (toPointer A last) b).log⟩ : Trace (LogEffect A) Unit) =
      .print ⟨"TPM2 EventLog, EFI_TCG2_EVENT_LOG_FORMAT_TCG_1_2 format\n", []⟩ ::
        legacyOutput (toPointer A first) es := by
    rw [← houtputs, outputs, List.filter_append, List.filter_flatMap]
    rfl
  refine ⟨_, prettyprintTpm12Eventlog_of_trail hlaid.ne_zero htrail,
    visits_tpm12_of_trail _ _ _, hprinted, ?_, ?_⟩
  · intro hmem
    have hout := List.mem_filter.mpr ⟨hmem, (rfl : LogEffect.isOutput (.print beyondEnd) = true)⟩
    rw [← outputs, hprinted, List.mem_cons] at hout
    rcases hout with heq | hout
    · exact absurd heq (by simp [beyondEnd])
    · exact beyondEnd_not_mem_legacyOutput _ _ hout
  · intro x hx
    rcases List.mem_append.mp hx with hx | hx
    · rcases List.mem_pair.mp hx with rfl | rfl <;> trivial
    · obtain ⟨b, hb, hx⟩ := List.mem_flatMap.mp hx
      obtain ⟨e, _, ys, hlaid', hlo, hhi⟩ := laid_of_mem_starts PcrEvent.encode_ne_nil hlaid hb
      have hreads := readSet_tpm12Round (m := m) (toPointer A last) b
      rw [pcrEventExtent_of_holds hlaid'.holds] at hreads
      exact within_of_subset hreads.subset hlaid'.left.fits hlo hhi x hx

end Legacy

/-- An entry without event data, which is one byte shorter than the struct. -/
def dataless (pcrIndex : UInt32) : PcrEvent where
  pcrIndex := pcrIndex
  eventType := 0x4
  digest := List.replicate 20 0xaa
  event := []
  digest_length := List.length_replicate
  event_lt := length_nil_lt

theorem prettyprintTpm12Eventlog_encode_two :
    ∃ t, Halts (prettyprintTpm12Eventlog
        (holding 4096 ([dataless 0, dataless 7].flatMap PcrEvent.encode) : Memory Arch.ia32.bits)
        4096 4128) t ∧
      visits t = [4096, 4128] ∧
      outputs t =
        .print ⟨"TPM2 EventLog, EFI_TCG2_EVENT_LOG_FORMAT_TCG_1_2 format\n", []⟩ ::
          legacyOutput 4096 [dataless 0, dataless 7] ∧
      .print beyondEnd ∉ t.log ∧ t.Logs (LogEffect.Within 4096 4160) := by
  have hlaid : (holding 4096 ([dataless 0, dataless 7].flatMap PcrEvent.encode) :
      Memory Arch.ia32.bits).Laid (toPointer .ia32 4096)
      ([dataless 0, dataless 7].flatMap PcrEvent.encode) :=
    ⟨holds_holding _ (by decide), by decide, by decide⟩
  exact prettyprintTpm12Eventlog_encode hlaid (by decide)

end TctiUefi.EventLog
