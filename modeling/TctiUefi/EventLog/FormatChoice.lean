import TctiUefi.EventLog.Extent
import TctiUefi.EventLog.Tool

namespace TctiUefi.EventLog

def LogEffect.format? : LogEffect A → Option UInt32
  | .lib (.getEventLog format) => some format
  | .decode format => some format
  | _ => none

def Formatless (e : LogEffect A) : Prop := e.format? = none

def OnlyFormat (format : UInt32) (e : LogEffect A) : Prop := ∀ f, e.format? = some f → f = format

theorem Formatless.only {e : LogEffect A} (h : Formatless e) (format : UInt32) :
    OnlyFormat format e := by
  intro f hf
  rw [h] at hf
  cases hf

section Formatless

variable {A : Arch} {m : Memory A.bits}

@[simp] theorem print_formatless (format : String) (args : List PrintArg) :
    (print (A := A) format args).Logs Formatless := Trace.logs_tell rfl

@[simp] theorem member_formatless (layout : List (Layout.Member LogMember)) (p : SizeT A)
    (x : LogMember) : (member m layout p x).Logs Formatless :=
  member_logs (fun _ _ => rfl) layout p x

@[simp] theorem dumpHex_formatless (indent size : Nat) (p : SizeT A) :
    (dumpHex m indent size p).Logs Formatless := by
  simp only [dumpHex, Trace.logs_bind_iff, Trace.logs_tell_iff]
  exact ⟨rfl, rfl⟩

@[simp] theorem prettyprintTpm2Digest_formatless (digest : SizeT A) :
    (prettyprintTpm2Digest m digest).Logs Formatless := by
  simp [prettyprintTpm2Digest]

theorem prettyprintTpm2DigestCallback_formatless (digest : SizeT A) (data : Option (SizeT A)) :
    (prettyprintTpm2DigestCallback m digest data).Logs Formatless := by
  cases data with
  | none => simp [prettyprintTpm2DigestCallback]
  | some size => simp [prettyprintTpm2DigestCallback, sizeofDigest2]

@[simp] theorem prettyprintTpm2Event_formatless (eventHdr : SizeT A) :
    (prettyprintTpm2Event m eventHdr).Logs Formatless := by
  have hdigests := foreachDigest2_logs (m := m) (P := Formatless) (fun _ _ => rfl)
    (prettyprintTpm2DigestCallback_formatless (m := m)) (a := eventHdr) (fun _ _ => rfl)
    (some 0#A.bits)
  unfold prettyprintTpm2Event
  split
  · exact Trace.logs_pure _ _
  · refine Trace.Logs.bind (by simp [prettyprintTpm2EventHeader]) (hdigests.bind ?_)
    split
    · simp [prettyprintTpm2Eventbuf]
    · exact Trace.logs_pure _ _

@[simp] theorem prettyprintTpm12Event_formatless (event : SizeT A) :
    (prettyprintTpm12Event m event).Logs Formatless := by
  simp [prettyprintTpm12Event]

@[simp] theorem tpm12EventNext_formatless (current last : SizeT A) :
    (tpm12EventNext m current last).Logs Formatless := by
  unfold tpm12EventNext
  split
  · exact Trace.logs_pure _ _
  · refine Trace.Logs.bind (member_formatless _ _ _) ?_
    dsimp only
    split <;> simp

theorem tpm12Round_formatless (last event : SizeT A) :
    (tpm12Round m last event).Logs Formatless := by
  refine Trace.Logs.bind (Trace.logs_tell rfl) ?_
  refine Trace.Logs.bind (prettyprintTpm12Event_formatless event) ?_
  refine Trace.Logs.bind (tpm12EventNext_formatless event last) ?_
  split <;> exact Trace.logs_pure _ _

theorem eventRound_formatless (last : SizeT A) (s : SizeT A × Unit) :
    (eventRound m last (prettyprintTpm2EventCallback m) s).Logs Formatless := by
  unfold eventRound
  split
  · refine Trace.Logs.bind (Trace.logs_tell rfl) (Trace.Logs.bind ?_ ?_)
    · simp [prettyprintTpm2EventCallback]
    · split
      · exact (getNextEvent_logs (fun _ _ => rfl) (fun _ _ => rfl)).bind (Trace.logs_pure _ _)
      · exact Trace.logs_pure _ _
  · exact Trace.logs_pure _ _

theorem foreachEvent2_formatless (first last : SizeT A) (fuel : Nat) :
    (foreachEvent2 m first last (some (prettyprintTpm2EventCallback m)) () fuel).Logs
      Formatless := by
  simp only [foreachEvent2]
  split
  · exact Trace.logs_pure _ _
  · exact Loop.run_logs (eventRound_formatless last) fuel _

end Formatless

section OnlyFormat

variable {A : Arch} {m : Memory A.bits}

theorem Trace.Logs.only {x : Trace (LogEffect A) α} (h : x.Logs Formatless) (format : UInt32) :
    x.Logs (OnlyFormat format) := h.mono fun _ he => he.only format

theorem decode_only (format : UInt32) :
    (Trace.tell (.decode format) : Trace (LogEffect A) Unit).Logs (OnlyFormat format) := by
  apply Trace.logs_tell
  intro f hf
  exact (Option.some.inj hf).symm

theorem prettyprintTpm12Eventlog_only (first last : UInt64) (fuel : Nat) :
    (prettyprintTpm12Eventlog m first last fuel).Logs (OnlyFormat efiTcg2EventLogFormatTcg12) := by
  simp only [prettyprintTpm12Eventlog]
  split
  · exact Trace.Logs.only (by simp) _
  · refine (Trace.Logs.only (by simp) _).bind ((decode_only _).bind ?_)
    exact Trace.Logs.only (Loop.run_logs (tpm12Round_formatless _) fuel _) _

theorem prettyprintTpm2Eventlog_only (first last : UInt64) (fuel : Nat) :
    (prettyprintTpm2Eventlog m first last fuel).Logs (OnlyFormat efiTcg2EventLogFormatTcg2) := by
  simp only [prettyprintTpm2Eventlog]
  split
  · exact Trace.Logs.only (by simp) _
  · refine (Trace.Logs.only (by simp) _).bind ((decode_only _).bind ?_)
    refine (Trace.Logs.only (foreachEvent2_formatless _ _ fuel) _).bind ?_
    split
    · exact Trace.logs_pure _ _
    · exact Trace.Logs.only (by simp) _

theorem prettyprintEventlog_only (first last : UInt64) (format : UInt32) (fuel : Nat) :
    (prettyprintEventlog m first last format fuel).Logs (OnlyFormat format) := by
  unfold prettyprintEventlog
  split
  · rename_i h
    rw [h]
    exact prettyprintTpm2Eventlog_only first last fuel
  · split
    · rename_i h
      rw [h]
      exact prettyprintTpm12Eventlog_only first last fuel
    · exact Trace.Logs.only (by simp) _

end OnlyFormat

def highestFormat (supportedEventLogs : UInt32) : UInt32 :=
  if supportedEventLogs &&& efiTcg2EventLogFormatTcg2 ≠ 0 then efiTcg2EventLogFormatTcg2
  else if supportedEventLogs &&& efiTcg2EventLogFormatTcg12 ≠ 0 then efiTcg2EventLogFormatTcg12
  else 0

structure RespectsFormats (fw : Firmware A) (supportedEventLogs : UInt32) : Prop where
  selected : ∀ format, (getEventlogFormatHigh fw.locateProtocol.2 format).val =
    (efiSuccess A, highestFormat supportedEventLogs)
  used : ∀ m fuel, ∀ e ∈ (efiMain m fw fuel).log, ∀ format, e.format? = some format →
    supportedEventLogs &&& format ≠ 0

structure ReportsLogs (fw : Firmware A) (supportedEventLogs : UInt32) : Prop where
  located : efiError fw.locateProtocol.1 = false
  answered : efiError (fw.locateProtocol.2.getCapability .request).1 = false
  bitmap : (fw.locateProtocol.2.getCapability .request).2.supportedEventLogs = supportedEventLogs

section Choice

variable {fw : Firmware A} {bitmap : UInt32}

/-- The bitmap is tested as a whole, not bit by bit. -/
theorem getEventlogFormatHigh_val (h : ReportsLogs fw bitmap) (format : UInt32) :
    (getEventlogFormatHigh fw.locateProtocol.2 format).val =
      (efiSuccess A, if bitmap = 0 then 0 else efiTcg2EventLogFormatTcg2) := by
  have hformats : efiTcg2EventLogFormatTcg2 ≠ 0 ∧ efiTcg2EventLogFormatTcg12 ≠ 0 := by decide
  by_cases hzero : bitmap = 0
  · simp [getEventlogFormatHigh, h.answered, h.bitmap, hzero]
  · simp [getEventlogFormatHigh, h.answered, h.bitmap, hzero, hformats]

theorem getEventlogFormatHigh_formatless (p : Tcg2Protocol A) (format : UInt32) :
    ((getEventlogFormatHigh p format).mapLog LogEffect.lib).Logs
      (Formatless (A := A)) := by
  have hcaps : (tcg2GetCapability p .request).Logs
      fun e => Formatless (LogEffect.lib (A := A) e) := by
    simp only [tcg2GetCapability]
    split
    · exact Trace.Logs.bind (Trace.logs_tell rfl) (Trace.logs_pure _ _)
    · exact Trace.logs_pure _ _
  rw [Trace.logs_mapLog_iff]
  refine hcaps.bind ?_
  split
  · exact Trace.logs_pure _ _
  · split
    · exact Trace.logs_pure _ _
    · split <;> exact Trace.logs_pure _ _

theorem tcg2GetEventlog_only (p : Tcg2Protocol A) (format : UInt32) :
    ((tcg2GetEventlog p format).mapLog LogEffect.lib).Logs
      (OnlyFormat (A := A) format) := by
  rw [Trace.logs_mapLog_iff]
  refine Trace.Logs.bind (Trace.logs_tell ?_) ?_
  · intro f hf
    exact (Option.some.inj hf).symm
  · change Trace.Logs _ (if _ then _ else _)
    split
    · refine Trace.Logs.bind (Trace.logs_tell ?_) (Trace.logs_pure _ _)
      intro f hf
      cases hf
    · exact Trace.logs_pure _ _

theorem efiMain_formats (h : ReportsLogs fw bitmap) (m : Memory A.bits) (fuel : Nat) :
    (efiMain m fw fuel).Logs fun e => ∀ format, e.format? = some format →
      bitmap ≠ 0 ∧ format = efiTcg2EventLogFormatTcg2 := by
  have hprotocol : tcg2GetProtocol fw = (fw.locateProtocol.1, some fw.locateProtocol.2) := by
    simp [tcg2GetProtocol, h.located]
  have hnone {α : Type} {x : Trace (LogEffect A) α} (hx : x.Logs Formatless) :
      x.Logs fun e => ∀ format, e.format? = some format →
        bitmap ≠ 0 ∧ format = efiTcg2EventLogFormatTcg2 := by
    refine hx.mono ?_
    intro e he format hformat
    rw [he] at hformat
    cases hformat
  simp only [efiMain, hprotocol]
  refine (hnone (getEventlogFormatHigh_formatless _ _)).bind ?_
  rw [Trace.val_mapLog, getEventlogFormatHigh_val h, efiError_efiSuccess]
  by_cases hzero : bitmap = 0
  · exact hnone (by simp [hzero])
  have hsome {α : Type} {x : Trace (LogEffect A) α}
      (hx : x.Logs (OnlyFormat efiTcg2EventLogFormatTcg2)) :
      x.Logs fun e => ∀ format, e.format? = some format →
        bitmap ≠ 0 ∧ format = efiTcg2EventLogFormatTcg2 := by
    refine hx.mono ?_
    intro e he format hformat
    exact ⟨hzero, he format hformat⟩
  have hne : efiTcg2EventLogFormatTcg2 ≠ 0 := by decide
  simp only [if_neg hzero, if_neg hne, Bool.false_eq_true, if_false]
  refine (hsome (tcg2GetEventlog_only _ _)).bind ?_
  split
  · exact Trace.logs_pure _ _
  · split
    · refine (hnone (print_formatless _ _)).bind ?_
      exact (hsome (prettyprintEventlog_only _ _ _ _)).bind (Trace.logs_pure _ _)
    · exact (hsome (prettyprintEventlog_only _ _ _ _)).bind (Trace.logs_pure _ _)

theorem highestFormat_eq_iff :
    (if bitmap = 0 then 0 else efiTcg2EventLogFormatTcg2) = highestFormat bitmap ↔
      bitmap = 0 ∨ bitmap &&& efiTcg2EventLogFormatTcg2 ≠ 0 := by
  have hformats : efiTcg2EventLogFormatTcg2 ≠ efiTcg2EventLogFormatTcg12 ∧
      efiTcg2EventLogFormatTcg2 ≠ 0 := by decide
  by_cases hzero : bitmap = 0
  · simp [highestFormat, hzero]
  by_cases hnew : bitmap &&& efiTcg2EventLogFormatTcg2 = 0
  · by_cases hold : bitmap &&& efiTcg2EventLogFormatTcg12 = 0
    · simp [highestFormat, hzero, hnew, hold, hformats]
    · simp [highestFormat, hzero, hnew, hold, hformats]
  · simp [highestFormat, hzero, hnew]

theorem respectsFormats_iff (h : ReportsLogs fw bitmap) :
    RespectsFormats fw bitmap ↔ bitmap = 0 ∨ bitmap &&& efiTcg2EventLogFormatTcg2 ≠ 0 := by
  rw [← highestFormat_eq_iff]
  constructor
  · intro hrespects
    have hval := hrespects.selected 0
    rw [getEventlogFormatHigh_val h] at hval
    exact congrArg Prod.snd hval
  · intro heq
    constructor
    · intro format
      rw [getEventlogFormatHigh_val h, heq]
    · intro m fuel e he format hformat
      obtain ⟨hne, rfl⟩ := efiMain_formats h m fuel e he format hformat
      exact (highestFormat_eq_iff.mp heq).resolve_left hne

end Choice

def loggingFirmware (A : Arch) (supportedEventLogs : UInt32) : Firmware A where
  locateProtocol := (efiSuccess A, {
    getCapability := fun caps =>
      (efiSuccess A, { caps with supportedEventLogs := supportedEventLogs })
    getEventLog := fun _ => (efiSuccess A, ⟨0, 0, false⟩)
    submitCommand := fun _ _ _ out => (efiSuccess A, out)
    getActivePcrBanks := fun banks => (efiSuccess A, banks) })

theorem loggingFirmware_reports (A : Arch) (supportedEventLogs : UInt32) :
    ReportsLogs (loggingFirmware A supportedEventLogs) supportedEventLogs where
  located := efiError_efiSuccess A
  answered := efiError_efiSuccess A
  bitmap := rfl

theorem respectsFormats_both :
    RespectsFormats (loggingFirmware .x86_64 3) 3 ↔
      (3 : UInt32) = 0 ∨ (3 : UInt32) &&& efiTcg2EventLogFormatTcg2 ≠ 0 :=
  respectsFormats_iff (loggingFirmware_reports .x86_64 3)

theorem selects_unsupported_format : ¬RespectsFormats (loggingFirmware .x86_64 1) 1 := by
  intro h
  have hformat : efiTcg2EventLogFormatTcg2 = efiTcg2EventLogFormatTcg12 :=
    congrArg Prod.snd (h.selected 0)
  exact absurd hformat (by decide)

end TctiUefi.EventLog
