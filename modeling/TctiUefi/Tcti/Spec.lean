import TctiUefi.Tcti.Ops

namespace TctiUefi

def Effect.IsPrint : Effect → Prop
  | .print _ => True
  | .write _ => False
  | .submit _ => False
  | .getEventLog _ => False

def Quiet (log : List Effect) : Prop := ∀ e ∈ log, e.IsPrint

@[simp] theorem quiet_nil : Quiet [] := by simp [Quiet]

@[simp] theorem quiet_print (p : Print) : Quiet [.print p] := by simp [Quiet, Effect.IsPrint]

theorem Quiet.not_write (h : Quiet log) (s : Layout.Span) : Effect.write s ∉ log := fun hs => h _ hs

theorem Quiet.not_submit (h : Quiet log) (b : SubmitCall) : Effect.submit b ∉ log :=
  fun hb => h _ hb

@[simp] theorem log_printText (s : String) : (printText s).log = [.print ⟨s, []⟩] := rfl

@[simp] theorem log_printStatus (s : String) (status : EfiStatus A) :
    (printStatus s status).log = [.print ⟨s, [.int status.toNat]⟩] := rfl

@[simp] theorem log_writeMember (A : Arch) (x : CtxMember) :
    (writeMember A x).log = [.write (memberSpan A x)] := rfl

structure TransmitAccepts (c : TctiUefiContext A) (size : SizeT A) : Prop where
  valid : c.Valid
  state : c.state = .transmit
  fits : size.toNat ≤ c.size.toNat
  header : tpm2HeaderSize < size.toNat

def TctiUefiContext.store (c : TctiUefiContext A) (cmd : Buffer) (n : Nat) : TctiUefiContext A :=
  { c with cmdBuf := c.cmdBuf.copy cmd n, state := .receive }

theorem tctiUefiTransmit_of_accepts {c : TctiUefiContext A} (h : TransmitAccepts c size)
    (cmd : Buffer) :
    tctiUefiTransmit (some c) size (some cmd) =
      ⟨(.success, some (c.store cmd size.toNat)),
        [.write ⟨offsetofCmdBuf A, size.toNat⟩, .write (memberSpan A .state)]⟩ := by
  have hsize : ¬(size > c.size ∨ size.toNat ≤ tpm2HeaderSize) := by
    rintro (hgt | hle)
    · exact absurd (BitVec.lt_def.mp hgt) (Nat.not_lt.mpr h.fits)
    · exact absurd h.header (Nat.not_lt.mpr hle)
  simp only [tctiUefiTransmit, tctiUefiContextCast_of_valid h.valid, h.state, ne_eq,
    not_true_eq_false, if_false, if_neg hsize]
  rfl

theorem tctiUefiTransmit_cases (context : Option (TctiUefiContext A)) (size : SizeT A)
    (command : Option Buffer) :
    (∃ c cmd, context = some c ∧ command = some cmd ∧ TransmitAccepts c size) ∨
      ((tctiUefiTransmit context size command).val.1 ≠ .success ∧
        (tctiUefiTransmit context size command).val.2 = context ∧
        Quiet (tctiUefiTransmit context size command).log) := by
  match context, command with
  | none, _ => right; simp [tctiUefiTransmit]
  | some c, none => right; simp [tctiUefiTransmit]
  | some c, some cmd =>
    by_cases hvalid : c.Valid
    case neg => right; simp [tctiUefiTransmit, hvalid]
    by_cases hstate : c.state = .transmit
    case neg => right; simp [tctiUefiTransmit, hvalid, hstate]
    by_cases hsize : size > c.size ∨ size.toNat ≤ tpm2HeaderSize
    case pos => right; simp [tctiUefiTransmit, hvalid, hstate, hsize]
    left
    have hfits : ¬c.size.toNat < size.toNat := fun hlt => hsize (.inl (BitVec.lt_def.mpr hlt))
    exact ⟨c, cmd, rfl, rfl, hvalid, hstate, Nat.not_lt.mp hfits,
      Nat.not_le.mp fun hle => hsize (.inr hle)⟩

/-- The tests a receive passes before it looks at its response buffer. -/
structure ReceiveReady (c : TctiUefiContext A) (timeout : Int32) : Prop where
  valid : c.Valid
  state : c.state = .receive
  timeout : timeout = tctiTimeoutBlock

/-- What receive hands to the firmware: the whole buffer as the input block. -/
def TctiUefiContext.submitCall (c : TctiUefiContext A) (n : SizeT A) : SubmitCall where
  inputSize := toUInt32 c.size
  input := c.cmdBuf.bytes (toUInt32 c.size).toNat
  outputSize := toUInt32 n

def Tcg2Protocol.submit (p : Tcg2Protocol A) (b : SubmitCall) (buf : Buffer) :
    EfiStatus A × Buffer :=
  p.submitCommand b.inputSize b.input b.outputSize buf

theorem tctiUefiReceive_query {c : TctiUefiContext A} (h : ReceiveReady c timeout) (n : SizeT A)
    (fw : Firmware A) :
    tctiUefiReceive (some c) (some n) none timeout fw =
      ⟨⟨.success, some c, some c.size, none⟩, []⟩ := by
  simp only [tctiUefiReceive, h.timeout, tctiUefiContextCast_of_valid h.valid, h.state, ne_eq,
    not_true_eq_false, if_false]
  rfl

theorem submitFailure_rc (status : EfiStatus A) : (submitFailure status).val ≠ .success := by
  unfold submitFailure
  split_ifs <;> simp

theorem submitFailure_quiet (status : EfiStatus A) : Quiet (submitFailure status).log := by
  unfold submitFailure
  split_ifs <;> simp

theorem tcg2SubmitCommand_val (p : Tcg2Protocol A) (m n : UInt32) (inp out : Buffer) :
    (tcg2SubmitCommand p m inp n out).val = p.submitCommand m (inp.bytes m.toNat) n out := by
  simp [tcg2SubmitCommand]

theorem tcg2SubmitCommand_log (p : Tcg2Protocol A) (m n : UInt32) (inp out : Buffer) :
    ∃ tail, (tcg2SubmitCommand p m inp n out).log =
        .submit ⟨m, inp.bytes m.toNat, n⟩ :: tail ∧ Quiet tail ∧
      (efiError (p.submitCommand m (inp.bytes m.toNat) n out).1 = false → tail = []) := by
  by_cases herr : efiError (p.submitCommand m (inp.bytes m.toNat) n out).1 = true
  · refine ⟨_, by simp only [tcg2SubmitCommand, Trace.log_bind, Trace.log_tell, herr, if_true,
      log_printStatus]; rfl, ?_, ?_⟩
    · simp
    · simp [herr]
  · exact ⟨[], by simp [tcg2SubmitCommand, herr], quiet_nil, fun _ => rfl⟩

section Receive

variable {c : TctiUefiContext A} {timeout : Int32} {fw : Firmware A} {p : Tcg2Protocol A}

theorem tctiUefiReceive_ready (h : ReceiveReady c timeout) (hp : (tcg2GetProtocol fw).2 = some p)
    (n : SizeT A) (buf : Buffer) :
    tctiUefiReceive (some c) (some n) (some buf) timeout fw = (do
      let reply ← tcg2SubmitCommand p (toUInt32 c.size) c.cmdBuf (toUInt32 n) buf
      if reply.1 = efiSuccess A then
        writeMember A .state
        pure ⟨.success, some { c with state := .transmit }, some n, some reply.2⟩
      else
        let rc ← submitFailure reply.1
        pure ⟨rc, some c, some n, some reply.2⟩) := by
  simp only [tctiUefiReceive, h.timeout, tctiUefiContextCast_of_valid h.valid, h.state, ne_eq,
    not_true_eq_false, if_false, hp]

theorem tctiUefiReceive_answered (h : ReceiveReady c timeout)
    (hp : (tcg2GetProtocol fw).2 = some p) (n : SizeT A) (buf : Buffer)
    (hs : (p.submit (c.submitCall n) buf).1 = efiSuccess A) :
    tctiUefiReceive (some c) (some n) (some buf) timeout fw =
      ⟨⟨.success, some { c with state := .transmit }, some n,
          some (p.submit (c.submitCall n) buf).2⟩,
        [.submit (c.submitCall n), .write (memberSpan A .state)]⟩ := by
  obtain ⟨tail, hlog, _, htail⟩ :=
    tcg2SubmitCommand_log p (toUInt32 c.size) (toUInt32 n) c.cmdBuf buf
  have hs' : (p.submitCommand (toUInt32 c.size) (c.cmdBuf.bytes (toUInt32 c.size).toNat)
      (toUInt32 n) buf).1 = efiSuccess A := hs
  rw [hs', efiError_efiSuccess] at htail
  rw [htail rfl] at hlog
  rw [tctiUefiReceive_ready h hp]
  simp only [bind, tcg2SubmitCommand_val, hs', if_true, hlog]
  rfl

theorem tctiUefiReceive_unanswered (h : ReceiveReady c timeout)
    (hp : (tcg2GetProtocol fw).2 = some p) (n : SizeT A) (buf : Buffer)
    (hs : (p.submit (c.submitCall n) buf).1 ≠ efiSuccess A) :
    ∃ rc tail, rc ≠ .success ∧ Quiet tail ∧
      tctiUefiReceive (some c) (some n) (some buf) timeout fw =
        ⟨⟨rc, some c, some n, some (p.submit (c.submitCall n) buf).2⟩,
          .submit (c.submitCall n) :: tail⟩ := by
  obtain ⟨tail, hlog, hquiet, _⟩ :=
    tcg2SubmitCommand_log p (toUInt32 c.size) (toUInt32 n) c.cmdBuf buf
  have hs' : (p.submitCommand (toUInt32 c.size) (c.cmdBuf.bytes (toUInt32 c.size).toNat)
      (toUInt32 n) buf).1 ≠ efiSuccess A := hs
  refine ⟨_, tail ++ (submitFailure (p.submit (c.submitCall n) buf).1).log,
    submitFailure_rc (p.submit (c.submitCall n) buf).1, ?_, ?_⟩
  · intro e he
    cases List.mem_append.mp he with
    | inl he => exact hquiet e he
    | inr he => exact submitFailure_quiet _ e he
  · rw [tctiUefiReceive_ready h hp]
    simp only [bind, tcg2SubmitCommand_val, if_neg hs', hlog]
    simp [TctiUefiContext.submitCall, Tcg2Protocol.submit, pure]

end Receive

theorem tctiUefiReceive_cases (context : Option (TctiUefiContext A)) (size : Option (SizeT A))
    (response : Option Buffer) (timeout : Int32) (fw : Firmware A) :
    (∃ c n, context = some c ∧ size = some n ∧ ReceiveReady c timeout ∧
      (response = none ∨
        ∃ buf p, response = some buf ∧ (tcg2GetProtocol fw).2 = some p)) ∨
      ∃ rc, rc ≠ .success ∧
        tctiUefiReceive context size response timeout fw =
          ⟨⟨rc, context, size, response⟩, []⟩ := by
  match context, size with
  | none, _ => right; exact ⟨.badReference, by simp, rfl⟩
  | some c, none => right; exact ⟨.badReference, by simp, rfl⟩
  | some c, some n =>
    by_cases htimeout : timeout = tctiTimeoutBlock
    case neg => right; exact ⟨.notImplemented, by simp, by simp [tctiUefiReceive, htimeout, pure]⟩
    by_cases hvalid : c.Valid
    case neg =>
      right; exact ⟨.badContext, by simp, by simp [tctiUefiReceive, htimeout, hvalid, pure]⟩
    by_cases hstate : c.state = .receive
    case neg =>
      right
      exact ⟨.badSequence, by simp, by simp [tctiUefiReceive, htimeout, hvalid, hstate, pure]⟩
    have hready : ReceiveReady c timeout := ⟨hvalid, hstate, htimeout⟩
    match response with
    | none => left; exact ⟨c, n, rfl, rfl, hready, .inl rfl⟩
    | some buf =>
      cases hp : (tcg2GetProtocol fw).2 with
      | some p => left; exact ⟨c, n, rfl, rfl, hready, .inr ⟨buf, p, rfl, rfl⟩⟩
      | none =>
        right
        exact ⟨.generalFailure, by simp,
          by simp [tctiUefiReceive, htimeout, hvalid, hstate, hp, pure]⟩

theorem tctiUefiFinalize_of_valid {c : TctiUefiContext A} (h : c.Valid) :
    tctiUefiFinalize (some c) =
      ⟨some { c with state := .final }, [.write (memberSpan A .state)]⟩ := by
  simp only [tctiUefiFinalize, tctiUefiContextCast_of_valid h]
  rfl

theorem tctiUefiFinalize_of_cast_none {context : Option (TctiUefiContext A)}
    (h : tctiUefiContextCast context = none) :
    (tctiUefiFinalize context).val = context ∧ Quiet (tctiUefiFinalize context).log := by
  match context with
  | none => simp [tctiUefiFinalize]
  | some c => simp [tctiUefiFinalize, h]

end TctiUefi
