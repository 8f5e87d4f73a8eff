import TctiUefi.EventLog.Render

namespace TctiUefi.EventLog

open Memory

/-- What an entry says, in whichever format.  A digest of a legacy entry has no algorithm id. -/
structure Entry where
  pcrIndex : Nat
  eventType : Nat
  digests : List (Option Nat × List UInt8)
  event : List UInt8
  deriving DecidableEq

def Event2.entry (e : Event2) : Entry where
  pcrIndex := e.pcrIndex.toNat
  eventType := e.eventType.toNat
  digests := e.digests.map fun d => (some d.algorithmId.toNat, d.digest)
  event := e.event

def PcrEvent.entry (e : PcrEvent) : Entry where
  pcrIndex := e.pcrIndex.toNat
  eventType := e.eventType.toNat
  digests := [(none, e.digest)]
  event := e.event

/-- What a reader of the console knows: the entries that are complete, the one that is being
shown, the algorithm named last, and whether the next dump is event data. -/
structure Reader where
  complete : List Entry
  current : Entry
  algorithm : Option Nat
  atEvent : Bool

namespace Reader

def start : Reader := ⟨[], ⟨0, 0, [], []⟩, none, false⟩

def after (r : Reader) : LogEffect A → Reader
  | .print ⟨format, [.int n]⟩ =>
    if format = "  PCRIndex: %d\n" then
      ⟨r.complete, ⟨n, 0, [], []⟩, none, false⟩
    else if format = "  Event: %u bytes\n" then
      { r with atEvent := true }
    else r
  | .print ⟨format, [.str _, .int n]⟩ =>
    if format = "  EventType: %s (0x%x)\n" ∨ format = "  EventType: %s (0x%08x)\n" then
      { r with current := { r.current with eventType := n } }
    else if format = "    AlgorithmId: %s (0x%x)\n" then
      { r with algorithm := some n }
    else r
  | .print ⟨format, []⟩ => if format = "  Event: \n" then { r with atEvent := true } else r
  | .dumpHex _ bytes =>
    if r.atEvent then
      { r with complete := r.complete ++ [{ r.current with event := bytes }] }
    else
      { r with current :=
        { r.current with digests := r.current.digests ++ [(r.algorithm, bytes)] } }
  | _ => r

def read (r : Reader) (log : List (LogEffect A)) : Reader := log.foldl after r

@[simp] theorem read_nil (r : Reader) : r.read ([] : List (LogEffect A)) = r := rfl

theorem read_cons (r : Reader) (e : LogEffect A) (log : List (LogEffect A)) :
    r.read (e :: log) = (r.after e).read log := rfl

@[simp] theorem read_append (r : Reader) (xs ys : List (LogEffect A)) :
    r.read (xs ++ ys) = (r.read xs).read ys := List.foldl_append

theorem after_of_not_isOutput (r : Reader) {e : LogEffect A} (h : e.isOutput = false) :
    r.after e = r := by
  cases e with
  | read start len => rfl
  | event hdr => rfl
  | digest digest => rfl
  | print p => cases h
  | dumpHex indent bytes => cases h
  | lib e => rfl
  | decode format => rfl

theorem read_filter_isOutput (r : Reader) (log : List (LogEffect A)) :
    r.read (log.filter LogEffect.isOutput) = r.read log := by
  induction log generalizing r with
  | nil => rfl
  | cons e log ih =>
    cases he : e.isOutput with
    | true => rw [List.filter_cons_of_pos he, read_cons, read_cons, ih]
    | false =>
      rw [List.filter_cons_of_neg (by simp [he]), read_cons, r.after_of_not_isOutput he, ih]

end Reader

def shown (t : Trace (LogEffect A) α) : List Entry := (Reader.start.read t.log).complete

theorem shown_of_outputs {t : Trace (LogEffect A) α} {log : List (LogEffect A)}
    (h : outputs t = log) : shown t = (Reader.start.read log).complete := by
  rw [shown, ← h, outputs, Reader.read_filter_isOutput]

section Entries

variable {A : Arch}

theorem read_digest_output (A : Arch) (d : Digest2) {r : Reader} (hr : r.atEvent = false) :
    r.read (d.output A) = { r with
      algorithm := some d.algorithmId.toNat
      current := { r.current with
        digests := r.current.digests ++ [(some d.algorithmId.toNat, d.digest)] } } := by
  simp [Digest2.output, Reader.read_cons, Reader.after, hr]

theorem read_digests_output (A : Arch) (ds : List Digest2) {r : Reader} (hr : r.atEvent = false) :
    ∃ algorithm, r.read (ds.flatMap (Digest2.output A)) = { r with
      algorithm := algorithm
      current := { r.current with
        digests := r.current.digests ++
          ds.map fun d => (some d.algorithmId.toNat, d.digest) } } := by
  induction ds generalizing r with
  | nil => exact ⟨r.algorithm, by simp⟩
  | cons d ds ih =>
    rw [List.flatMap_cons, Reader.read_append, read_digest_output A d hr]
    obtain ⟨algorithm, hread⟩ := ih (r := { r with
      algorithm := some d.algorithmId.toNat
      current := { r.current with
        digests := r.current.digests ++ [(some d.algorithmId.toNat, d.digest)] } }) hr
    refine ⟨algorithm, ?_⟩
    rw [hread, List.map_cons, List.append_assoc]
    rfl

theorem complete_read_event2 (A : Arch) (e : Event2) (r : Reader) :
    (r.read (e.output A)).complete = r.complete ++ [e.entry] := by
  have hheader : r.read [(.print ⟨"  PCRIndex: %d\n", [.int e.pcrIndex.toNat]⟩ : LogEffect A),
      .print ⟨"  EventType: %s (0x%x)\n",
        [.str (eventtypeToString e.eventType), .int e.eventType.toNat]⟩,
      .print ⟨"  DigestCount: %d\n", [.int e.digests.length]⟩] =
        ⟨r.complete, ⟨e.pcrIndex.toNat, e.eventType.toNat, [], []⟩, none, false⟩ := by
    simp [Reader.read_cons, Reader.after]
  obtain ⟨algorithm, hdigests⟩ := read_digests_output A e.digests
    (r := ⟨r.complete, ⟨e.pcrIndex.toNat, e.eventType.toNat, [], []⟩, none, false⟩) rfl
  rw [Event2.output, Reader.read_append, hheader, Reader.read_append, hdigests]
  simp [Reader.read_cons, Reader.after, Event2.entry]

theorem complete_read_pcrEvent (e : PcrEvent) (a : SizeT A) (r : Reader) :
    (r.read (e.output a)).complete = r.complete ++ [e.entry] := by
  cases A <;> simp [PcrEvent.output, Reader.read_cons, Reader.after, PcrEvent.entry, prixptr]

theorem complete_read_flatMap {α : Type} {out : α → List (LogEffect A)} (entry : α → Entry)
    (h : ∀ x r, (Reader.read r (out x)).complete = r.complete ++ [entry x]) (xs : List α)
    (r : Reader) : (r.read (xs.flatMap out)).complete = r.complete ++ xs.map entry := by
  induction xs generalizing r with
  | nil => simp
  | cons x xs ih =>
    rw [List.flatMap_cons, Reader.read_append, ih, h, List.map_cons, List.append_assoc]
    rfl

theorem complete_read_logOutput (A : Arch) (es : List Event2) :
    (Reader.start.read (logOutput A es)).complete = es.map Event2.entry := by
  have hopening : Reader.start.after (.print ⟨"TPM2 EventLog, EFI_TCG2_EVENT_LOG_FORMAT_TCG_2 " ++
      "format\n", []⟩ : LogEffect A) = Reader.start := rfl
  have hclosing (r : Reader) : (r.read [(.print ⟨"TPM2 EventLog end\n", []⟩ : LogEffect A)]) = r :=
    rfl
  rw [logOutput, Reader.read_cons, Reader.read_append, hclosing,
    complete_read_flatMap Event2.entry (complete_read_event2 A)]
  rfl

theorem complete_read_legacyOutput (a : SizeT A) (es : List PcrEvent) (r : Reader) :
    (r.read (legacyOutput a es)).complete = r.complete ++ es.map PcrEvent.entry := by
  have hentry (p : SizeT A × PcrEvent) (r : Reader) :
      (r.read (p.2.output p.1)).complete = r.complete ++ [p.2.entry] :=
    complete_read_pcrEvent p.2 p.1 r
  rw [legacyOutput, complete_read_flatMap (fun p => p.2.entry) hentry]
  have hentries := congrArg (List.map PcrEvent.entry) (map_snd_located PcrEvent.encode a es)
  rw [List.map_map] at hentries
  exact congrArg (r.complete ++ ·) hentries

end Entries

def Entry.encodeEvent2 (e : Entry) : List UInt8 :=
  toLE 4 e.pcrIndex ++ toLE 4 e.eventType ++ toLE 4 e.digests.length ++
    (e.digests.flatMap (fun d => toLE 2 (d.1.getD 0) ++ d.2) ++ (toLE 4 e.event.length ++ e.event))

def Entry.encodePcrEvent (e : Entry) : List UInt8 :=
  toLE 4 e.pcrIndex ++ (toLE 4 e.eventType ++ (e.digests.flatMap Prod.snd ++
    (toLE 4 e.event.length ++ e.event)))

theorem Event2.encodeEvent2_entry (e : Event2) : e.entry.encodeEvent2 = e.encode := by
  rw [Entry.encodeEvent2, entry, List.flatMap_map, List.length_map]
  rfl

theorem PcrEvent.encodePcrEvent_entry (e : PcrEvent) : e.entry.encodePcrEvent = e.encode := by
  rw [Entry.encodePcrEvent, entry, List.flatMap_singleton]
  rfl

section ReadBack

variable {A : Arch} {m : Memory A.bits} {first last : UInt64}

theorem prettyprintTpm2Eventlog_readBack {es : List Event2}
    (h : LogBetween m (toPointer A first) (toPointer A last) es) :
    ∃ t, Halts (prettyprintEventlog m first last efiTcg2EventLogFormatTcg2) t ∧
      shown t = es.map Event2.entry ∧
      m.Laid (toPointer A first) ((shown t).flatMap Entry.encodeEvent2) := by
  obtain ⟨t, hhalts, houtputs, _⟩ := prettyprintTpm2Eventlog_of_logBetween h
  have hshown : shown t = es.map Event2.entry := by
    rw [shown_of_outputs houtputs, complete_read_logOutput]
  have hencode : (es.map Event2.entry).flatMap Entry.encodeEvent2 = es.flatMap Event2.encode := by
    rw [List.flatMap_map]
    exact List.flatMap_congr fun e _ => e.encodeEvent2_entry
  rw [prettyprintEventlog_tcg2]
  refine ⟨t, hhalts, hshown, ?_⟩
  rw [hshown, hencode]
  exact h.laid

theorem prettyprintTpm12Eventlog_readBack {es : List PcrEvent}
    (hlaid : m.Laid (toPointer A first) (es.flatMap PcrEvent.encode))
    (hlast : (starts PcrEvent.encode (toPointer A first) es).getLast? = some (toPointer A last)) :
    ∃ t, Halts (prettyprintEventlog m first last efiTcg2EventLogFormatTcg12) t ∧
      shown t = es.map PcrEvent.entry ∧
      m.Laid (toPointer A first) ((shown t).flatMap Entry.encodePcrEvent) := by
  obtain ⟨htrail, houtputs⟩ := trail_outputs_of_laid hlaid hlast
  have hprinted : outputs (⟨(), tpm12Opening A ++ (starts PcrEvent.encode (toPointer A first)
      es).flatMap fun b => (tpm12Round m (toPointer A last) b).log⟩ : Trace (LogEffect A) Unit) =
      (tpm12Opening A).filter LogEffect.isOutput ++ legacyOutput (toPointer A first) es := by
    rw [← houtputs, outputs, List.filter_append, List.filter_flatMap]
    rfl
  have hshown := shown_of_outputs hprinted
  have hopening : Reader.start.read ((tpm12Opening A).filter LogEffect.isOutput) = Reader.start :=
    rfl
  rw [Reader.read_append, hopening, complete_read_legacyOutput] at hshown
  have hencode : (es.map PcrEvent.entry).flatMap Entry.encodePcrEvent =
      es.flatMap PcrEvent.encode := by
    rw [List.flatMap_map]
    exact List.flatMap_congr fun e _ => e.encodePcrEvent_entry
  rw [prettyprintEventlog_tcg12]
  refine ⟨_, prettyprintTpm12Eventlog_of_trail hlaid.ne_zero htrail, hshown, ?_⟩
  rw [hshown]
  exact hencode ▸ hlaid

theorem prettyprintEventlog_readBack :
    (∀ es, LogBetween m (toPointer A first) (toPointer A last) es →
      ∃ t, Halts (prettyprintEventlog m first last efiTcg2EventLogFormatTcg2) t ∧
        shown t = es.map Event2.entry ∧
        m.Laid (toPointer A first) ((shown t).flatMap Entry.encodeEvent2)) ∧
    ∀ es, m.Laid (toPointer A first) (es.flatMap PcrEvent.encode) →
      (starts PcrEvent.encode (toPointer A first) es).getLast? = some (toPointer A last) →
        ∃ t, Halts (prettyprintEventlog m first last efiTcg2EventLogFormatTcg12) t ∧
          shown t = es.map PcrEvent.entry ∧
          m.Laid (toPointer A first) ((shown t).flatMap Entry.encodePcrEvent) :=
  ⟨fun _ h => prettyprintTpm2Eventlog_readBack h,
    fun _ hlaid hlast => prettyprintTpm12Eventlog_readBack hlaid hlast⟩

end ReadBack

theorem measured_logBetween :
    LogBetween (holding 4096 ([measured 0, measured 7].flatMap Event2.encode) :
      Memory Arch.x86_64.bits) (toPointer .x86_64 4096) (toPointer .x86_64 4137)
      [measured 0, measured 7] where
  nonempty := List.cons_ne_nil _ _
  laid := ⟨holds_holding _ (by decide), by decide, by decide⟩
  sized := by
    intro e he d hd
    rcases List.mem_pair.mp he with rfl | rfl <;> exact (measured_known _ d hd).sized
  started := by
    have hstarts : starts Event2.encode (toPointer .x86_64 4096) [measured 0, measured 7] =
        [toPointer .x86_64 4096, toPointer .x86_64 4137] := by decide
    intro p hp
    rw [hstarts] at hp
    rcases List.mem_pair.mp hp with rfl | rfl
    · exact BitVec.le_def.mpr (by decide)
    · exact BitVec.le_def.mpr (by decide)
  ended := by
    have hlen : ([measured 0, measured 7].flatMap Event2.encode).length = 82 := by decide
    rw [hlen]
    decide

theorem prettyprintEventlog_readBack_two :
    ∃ t, Halts (prettyprintEventlog
        (holding 4096 ([measured 0, measured 7].flatMap Event2.encode) : Memory Arch.x86_64.bits)
        4096 4137 efiTcg2EventLogFormatTcg2) t ∧
      shown t = [measured 0, measured 7].map Event2.entry ∧
      (holding 4096 ([measured 0, measured 7].flatMap Event2.encode) :
        Memory Arch.x86_64.bits).Laid (toPointer .x86_64 4096)
          ((shown t).flatMap Entry.encodeEvent2) :=
  prettyprintEventlog_readBack.1 _ measured_logBetween

end TctiUefi.EventLog
