import TctiUefi.EventLog.Tool

namespace TctiUefi.EventLog

def Entryless : LogEffect A → Prop
  | .event _ => False
  | .read _ _ => False
  | .digest _ => False
  | .print _ => True
  | .dumpHex _ _ => False
  | .lib _ => True
  | .decode _ => True

def HoldsNoEntries {A : Arch} (m : Memory A.bits) (first last : UInt64) (format : UInt32) : Prop :=
  ∀ fuel, (prettyprintEventlog m first last format fuel).Logs Entryless

section EmptyRange

variable {A : Arch} {m : Memory A.bits} {first last : UInt64} {format : UInt32}

theorem print_entryless (format : String) (args : List PrintArg) :
    (print (A := A) format args).Logs Entryless := Trace.logs_tell trivial

theorem foreachEvent2_entryless {eventFirst eventLast : SizeT A} (h : eventLast < eventFirst)
    (callback : Callback A σ) (data : σ) (fuel : Nat) :
    (foreachEvent2 m eventFirst eventLast (some callback) data fuel).Logs Entryless := by
  have hround : eventRound m eventLast callback (eventFirst, data) = pure (.inr (true, data)) := by
    apply if_neg
    intro hin
    exact absurd hin.1 (BitVec.not_le.mpr h)
  simp only [foreachEvent2]
  split
  · exact Trace.logs_pure _ _
  · cases fuel with
    | zero => exact Trace.logs_pure _ _
    | succ fuel =>
      rw [Loop.run, hround]
      exact Trace.logs_pure _ _

theorem prettyprintTpm2Eventlog_entryless (h : toPointer A last < toPointer A first) (fuel : Nat) :
    (prettyprintTpm2Eventlog m first last fuel).Logs Entryless := by
  simp only [prettyprintTpm2Eventlog]
  split
  · exact (print_entryless _ _).bind (Trace.logs_pure _ _)
  · refine (print_entryless _ _).bind (Trace.Logs.bind (Trace.logs_tell trivial) ?_)
    refine (foreachEvent2_entryless h _ _ _).bind ?_
    split
    · exact Trace.logs_pure _ _
    · exact (print_entryless _ _).bind (Trace.logs_pure _ _)

theorem event_mem_prettyprintTpm12Eventlog (hfirst : toPointer A first ≠ 0#A.bits) (fuel : Nat) :
    .event (toPointer A first) ∈ (prettyprintTpm12Eventlog m first last (fuel + 1)).log := by
  have hround : .event (toPointer A first) ∈
      (tpm12Round m (toPointer A last) (toPointer A first)).log := List.mem_cons_self ..
  simp only [prettyprintTpm12Eventlog, if_neg hfirst, Trace.log_bind, Loop.run]
  apply List.mem_append_right
  apply List.mem_append_right
  exact List.mem_append_left _ hround

theorem holdsNoEntries_iff (hfirst : toPointer A first ≠ 0#A.bits)
    (hlast : toPointer A last < toPointer A first) :
    HoldsNoEntries m first last format ↔ format ≠ efiTcg2EventLogFormatTcg12 := by
  constructor
  · rintro hnone rfl
    have hentry := hnone 1
    rw [prettyprintEventlog_tcg12] at hentry
    exact hentry _ (event_mem_prettyprintTpm12Eventlog hfirst 0)
  · intro hformat fuel
    rw [prettyprintEventlog]
    by_cases hagile : format = efiTcg2EventLogFormatTcg2
    · rw [if_pos hagile]
      exact prettyprintTpm2Eventlog_entryless hlast fuel
    · rw [if_neg hagile, if_neg hformat]
      exact (print_entryless _ _).bind (Trace.logs_pure _ _)

end EmptyRange

/-- A range that nothing has been logged to: firmware reports 0 for the last entry. -/
theorem holdsNoEntries_unlogged :
    HoldsNoEntries (fun _ => 0 : Memory Arch.x86_64.bits) 4096 0 efiTcg2EventLogFormatTcg2 ↔
      efiTcg2EventLogFormatTcg2 ≠ efiTcg2EventLogFormatTcg12 :=
  holdsNoEntries_iff (by decide) (by decide)

theorem legacy_prints_unlogged :
    ¬HoldsNoEntries (fun _ => 0 : Memory Arch.x86_64.bits) 4096 0 efiTcg2EventLogFormatTcg12 := by
  have hfirst : toPointer .x86_64 4096 ≠ 0 := by decide
  intro hnone
  have hentry := hnone 1
  rw [prettyprintEventlog_tcg12] at hentry
  exact hentry _ (event_mem_prettyprintTpm12Eventlog hfirst 0)

end TctiUefi.EventLog
