import TctiUefi.EventLog.FormatChoice
import TctiUefi.EventLog.ReadBack

namespace TctiUefi.EventLog

open Memory

structure Delivers (fw : Firmware A) (reply : EventLogReply) : Prop where
  reports : ∃ bitmap, bitmap ≠ 0 ∧ ReportsLogs fw bitmap
  given : efiError (fw.locateProtocol.2.getEventLog efiTcg2EventLogFormatTcg2).1 = false
  reply : (fw.locateProtocol.2.getEventLog efiTcg2EventLogFormatTcg2).2 = reply

def truncatedWarning : Print := ⟨"WARNING: Eventlog has been truncated\n", []⟩

def unsupportedFormat : Print :=
  ⟨"ERROR: TCG2 UEFI protocol doesn't support a log format " ++ "known to this tool.\n", []⟩

section Session

variable {A : Arch} {m : Memory A.bits} {fw : Firmware A} {reply : EventLogReply}

theorem tcg2GetProtocol_of_located (h : efiError fw.locateProtocol.1 = false) :
    tcg2GetProtocol fw = (fw.locateProtocol.1, some fw.locateProtocol.2) := by
  simp [tcg2GetProtocol, h]

theorem getEventlogFormatHigh_eq {bitmap : UInt32} (h : ReportsLogs fw bitmap) :
    getEventlogFormatHigh fw.locateProtocol.2 0 =
      pure (efiSuccess A, if bitmap = 0 then 0 else efiTcg2EventLogFormatTcg2) := by
  have hcaps : tcg2GetCapability fw.locateProtocol.2 .request =
      pure (fw.locateProtocol.2.getCapability .request) := by
    simp only [tcg2GetCapability, h.answered, Bool.false_eq_true, if_false]
  have hval := getEventlogFormatHigh_val h 0
  rw [getEventlogFormatHigh, hcaps, pure_bind] at hval ⊢
  rw [h.answered] at hval ⊢
  split at hval
  · contradiction
  · rename_i hok
    rw [if_neg hok]
    split at hval <;> rename_i hnew
    · rw [if_pos hnew, ← hval]
      rfl
    · split at hval <;> rename_i hold
      · rw [if_neg hnew, if_pos hold, ← hval]
        rfl
      · rw [if_neg hnew, if_neg hold, ← hval]
        rfl

theorem mapLog_lib_pure (x : α) :
    (pure x : Trace Effect α).mapLog (LogEffect.lib (A := A)) = pure x := rfl

theorem tcg2GetEventlog_of_given {p : Tcg2Protocol A} {format : UInt32}
    (h : efiError (p.getEventLog format).1 = false) :
    tcg2GetEventlog p format = ⟨p.getEventLog format, [.getEventLog format]⟩ := by
  simp only [tcg2GetEventlog, h, Bool.false_eq_true, if_false]
  rfl

theorem efiMain_of_delivers (h : Delivers fw reply) (m : Memory A.bits) (fuel : Nat) :
    efiMain m fw fuel =
      ⟨(prettyprintTpm2Eventlog m reply.first reply.last fuel).val.map fun _ =>
          (fw.locateProtocol.2.getEventLog efiTcg2EventLogFormatTcg2).1,
        .lib (.getEventLog efiTcg2EventLogFormatTcg2) ::
          ((if reply.truncated then [.print truncatedWarning] else []) ++
            (prettyprintTpm2Eventlog m reply.first reply.last fuel).log)⟩ := by
  obtain ⟨⟨bitmap, hbitmap, hreports⟩, hgiven, rfl⟩ := h
  have hformat : efiTcg2EventLogFormatTcg2 ≠ 0 := by decide
  simp only [efiMain, tcg2GetProtocol_of_located hreports.located,
    getEventlogFormatHigh_eq hreports, if_neg hbitmap, mapLog_lib_pure, pure_bind,
    efiError_efiSuccess, Bool.false_eq_true, if_false, if_neg hformat,
    tcg2GetEventlog_of_given hgiven]
  cases htruncated :
      (fw.locateProtocol.2.getEventLog efiTcg2EventLogFormatTcg2).2.truncated with
  | false =>
    simp [bind, Trace.mapLog, hgiven, htruncated, pure]
  | true =>
    simp [bind, Trace.mapLog, hgiven, htruncated, pure, print, Trace.tell, truncatedWarning]

theorem ne_efiSuccess {status : EfiStatus A} (h : efiError status = true) :
    status ≠ efiSuccess A := by
  rintro rfl
  rw [efiError_efiSuccess] at h
  cases h

/-- What the tool does before it has a log: library calls and messages that show no entry. -/
def Preliminary (e : LogEffect A) : Prop :=
  (∀ start len, e ≠ .read start len) ∧ e.event? = none ∧ ∀ r : Reader, r.after e = r

theorem lib_preliminary (x : Trace Effect α) :
    (x.mapLog (LogEffect.lib (A := A))).Logs Preliminary := by
  rw [Trace.logs_mapLog_iff]
  intro e _
  exact ⟨fun _ _ h => LogEffect.noConfusion rfl (heq_of_eq h), rfl, fun _ => rfl⟩

theorem Reader.read_preliminary {log : List (LogEffect A)} (h : ∀ e ∈ log, Preliminary e)
    (r : Reader) : r.read log = r := by
  induction log generalizing r with
  | nil => rfl
  | cons e log ih =>
    rw [Reader.read_cons, (h e (List.mem_cons_self ..)).2.2 r]
    exact ih (fun x hx => h x (List.mem_cons_of_mem _ hx)) r

def FailsEarly (m : Memory A.bits) (fw : Firmware A) : Prop :=
  ∃ t, Halts (efiMain m fw) t ∧ t.val ≠ efiSuccess A ∧ t.Logs Preliminary

theorem failsEarly_of_not_located (m : Memory A.bits)
    (hlocated : efiError fw.locateProtocol.1 = true) : FailsEarly m fw := by
  refine ⟨⟨fw.locateProtocol.1, []⟩, ⟨0, fun k _ => ?_⟩, ne_efiSuccess hlocated,
    Trace.logs_pure _ _⟩
  simp only [efiMain, tcg2GetProtocol, hlocated, if_true]
  rfl

theorem failsEarly_of_not_answered (m : Memory A.bits)
    (hlocated : efiError fw.locateProtocol.1 = false)
    (hanswered : efiError (fw.locateProtocol.2.getCapability .request).1 = true) :
    FailsEarly m fw := by
  have hval : (getEventlogFormatHigh fw.locateProtocol.2 0).val =
      ((fw.locateProtocol.2.getCapability .request).1, 0) := by
    simp [getEventlogFormatHigh, hanswered]
  refine ⟨⟨(fw.locateProtocol.2.getCapability .request).1,
    ((getEventlogFormatHigh fw.locateProtocol.2 0).mapLog LogEffect.lib).log⟩,
    ⟨0, fun k _ => ?_⟩, ne_efiSuccess hanswered, lib_preliminary _⟩
  simp [efiMain, tcg2GetProtocol_of_located hlocated, bind, hval, hanswered, pure]

theorem failsEarly_of_no_format (m : Memory A.bits) (hreports : ReportsLogs fw 0) :
    FailsEarly m fw := by
  refine ⟨⟨1#A.bits, [.print unsupportedFormat]⟩, ⟨0, fun k _ => ?_⟩, ?_, ?_⟩
  · simp only [efiMain, tcg2GetProtocol_of_located hreports.located,
      getEventlogFormatHigh_eq hreports, if_true, mapLog_lib_pure, pure_bind,
      efiError_efiSuccess, Bool.false_eq_true, if_false]
    rfl
  · cases A <;> decide
  · refine Trace.logs_tell ⟨?_, rfl, ?_⟩
    · exact fun _ _ h => LogEffect.noConfusion rfl (heq_of_eq h)
    · intro r
      have hformat : unsupportedFormat.format ≠ "  Event: \n" := by decide
      exact (if_neg hformat : ite _ { r with atEvent := true } r = r)

theorem failsEarly_of_refused (m : Memory A.bits) {bitmap : UInt32}
    (hreports : ReportsLogs fw bitmap) (hbitmap : bitmap ≠ 0)
    (hrefused : efiError (fw.locateProtocol.2.getEventLog efiTcg2EventLogFormatTcg2).1 = true) :
    FailsEarly m fw := by
  have hformat : efiTcg2EventLogFormatTcg2 ≠ 0 := by decide
  have hval : (tcg2GetEventlog fw.locateProtocol.2 efiTcg2EventLogFormatTcg2).val =
      fw.locateProtocol.2.getEventLog efiTcg2EventLogFormatTcg2 := by
    simp [tcg2GetEventlog]
  refine ⟨⟨(fw.locateProtocol.2.getEventLog efiTcg2EventLogFormatTcg2).1,
    ((tcg2GetEventlog fw.locateProtocol.2 efiTcg2EventLogFormatTcg2).mapLog
      LogEffect.lib).log⟩, ⟨0, fun k _ => ?_⟩, ne_efiSuccess hrefused, lib_preliminary _⟩
  simp [efiMain, tcg2GetProtocol_of_located hreports.located, getEventlogFormatHigh_eq hreports,
    hbitmap, bind, pure, Trace.mapLog, hformat, hval, hrefused]

theorem efiMain_of_not_delivers (h : ¬∃ reply, Delivers fw reply) (m : Memory A.bits) :
    FailsEarly m fw := by
  cases hlocated : efiError fw.locateProtocol.1 with
  | true => exact failsEarly_of_not_located m hlocated
  | false =>
    cases hanswered : efiError (fw.locateProtocol.2.getCapability .request).1 with
    | true => exact failsEarly_of_not_answered m hlocated hanswered
    | false =>
      have hreports : ReportsLogs fw
          (fw.locateProtocol.2.getCapability .request).2.supportedEventLogs :=
        ⟨hlocated, hanswered, rfl⟩
      by_cases hbitmap : (fw.locateProtocol.2.getCapability .request).2.supportedEventLogs = 0
      · exact failsEarly_of_no_format m (hbitmap ▸ hreports)
      · apply failsEarly_of_refused m hreports hbitmap
        by_contra hgiven
        exact h ⟨_, ⟨_, hbitmap, hreports⟩, Bool.eq_false_iff.mpr hgiven, rfl⟩

theorem shown_of_preliminary {t : Trace (LogEffect A) α} (h : t.Logs Preliminary) :
    shown t = [] := by
  rw [shown, Reader.read_preliminary h]
  rfl

theorem truncatedWarning_not_mem_logOutput (es : List Event2) :
    .print truncatedWarning ∉ logOutput A es := by
  have hdigest (d : Digest2) : .print truncatedWarning ∉ d.output A := by
    simp [Digest2.output, truncatedWarning]
  have hentry (e : Event2) : .print truncatedWarning ∉ e.output A := by
    simp only [Event2.output, List.mem_append, List.mem_flatMap, not_or, not_exists, not_and]
    exact ⟨by simp [truncatedWarning], fun d _ => hdigest d, by simp [truncatedWarning]⟩
  simp only [logOutput, List.mem_cons, List.mem_append, List.mem_flatMap, not_or, not_exists,
    not_and]
  exact ⟨by simp [truncatedWarning], fun e _ => hentry e, by simp [truncatedWarning]⟩

theorem efiMain_of_logBetween {es : List Event2} (h : Delivers fw reply)
    (hlog : LogBetween m (toPointer A reply.first) (toPointer A reply.last) es) :
    ∃ t, Halts (efiMain m fw) t ∧
      t.val = (fw.locateProtocol.2.getEventLog efiTcg2EventLogFormatTcg2).1 ∧
      shown t = es.map Event2.entry ∧
      (.print truncatedWarning ∈ t.log ↔ reply.truncated = true) := by
  obtain ⟨t, hhalts, houtputs, _⟩ := prettyprintTpm2Eventlog_of_logBetween hlog
  refine ⟨⟨(fw.locateProtocol.2.getEventLog efiTcg2EventLogFormatTcg2).1,
    .lib (.getEventLog efiTcg2EventLogFormatTcg2) ::
      ((if reply.truncated then [.print truncatedWarning] else []) ++ t.log)⟩, ?_, rfl, ?_, ?_⟩
  · obtain ⟨n, hn⟩ := hhalts
    refine ⟨n, fun k hk => ?_⟩
    rw [efiMain_of_delivers h, hn k hk]
    rfl
  · have hcall (r : Reader) : r.read [(.lib (.getEventLog efiTcg2EventLogFormatTcg2) :
        LogEffect A)] = r := rfl
    have hwarning (r : Reader) : r.read
        (if reply.truncated then [(.print truncatedWarning : LogEffect A)] else []) = r := by
      split
      · have hformat : truncatedWarning.format ≠ "  Event: \n" := by decide
        exact (if_neg hformat : ite _ { r with atEvent := true } r = r)
      · rfl
    have hshown := shown_of_outputs houtputs
    rw [complete_read_logOutput, shown] at hshown
    rw [shown, ← List.singleton_append, Reader.read_append, hcall, Reader.read_append, hwarning,
      hshown]
  · have hnot : .print truncatedWarning ∉ t.log := by
      intro hmem
      have hout := List.mem_filter.mpr
        ⟨hmem, (rfl : LogEffect.isOutput (.print truncatedWarning) = true)⟩
      rw [← outputs, houtputs] at hout
      exact truncatedWarning_not_mem_logOutput es hout
    cases reply.truncated with
    | false => simp [hnot]
    | true => simp

end Session

def deliveringFirmware : Firmware .x86_64 where
  locateProtocol := (efiSuccess _, {
    getCapability := fun caps => (efiSuccess _, { caps with supportedEventLogs := 3 })
    getEventLog := fun _ => (efiSuccess _, ⟨4096, 4137, true⟩)
    submitCommand := fun _ _ _ out => (efiSuccess _, out)
    getActivePcrBanks := fun banks => (efiSuccess _, banks) })

theorem deliveringFirmware_delivers : Delivers deliveringFirmware ⟨4096, 4137, true⟩ where
  reports := ⟨3, by decide, efiError_efiSuccess _, efiError_efiSuccess _, rfl⟩
  given := efiError_efiSuccess _
  reply := rfl

end TctiUefi.EventLog
