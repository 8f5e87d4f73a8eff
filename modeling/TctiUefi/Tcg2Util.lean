import TctiUefi.Efi

namespace TctiUefi

structure SubmitCall where
  inputSize : UInt32
  input : List UInt8
  outputSize : UInt32
  deriving DecidableEq

/-- What the library does besides returning a value.  Writes are counted from the start
of the context. -/
inductive Effect
  | print (p : Print)
  | write (s : Layout.Span)
  | submit (c : SubmitCall)
  | getEventLog (format : UInt32)
  deriving DecidableEq

def printf (format : String) (args : List PrintArg) : Trace Effect PUnit :=
  Trace.tell (.print ⟨format, args⟩)

def printStatus (format : String) (status : EfiStatus A) : Trace Effect Unit :=
  Trace.tell (.print ⟨format, [.int status.toNat]⟩)

def tcg2GetEventlog (tpm2Prot : Tcg2Protocol A) (format : UInt32) :
    Trace Effect (EfiStatus A × EventLogReply) := do
  Trace.tell (.getEventLog format)
  let reply := tpm2Prot.getEventLog format
  if efiError reply.1 then
    printStatus "Tcg2 SubmitCommand failed: 0x%x\n" reply.1
  pure reply

def tcg2GetActivePcrBanks (tcg2Protocol : Tcg2Protocol A) (pcrBanks : UInt32) :
    Trace Effect (EfiStatus A × UInt32) := do
  let reply := tcg2Protocol.getActivePcrBanks pcrBanks
  if efiError reply.1 then
    printStatus "GetActivePcrBanks failed: 0x%x\n" reply.1
  pure reply

def tcg2GetCapability (tcg2Protocol : Tcg2Protocol A) (tcg2BsCaps : BootServiceCapability) :
    Trace Effect (EfiStatus A × BootServiceCapability) := do
  let reply := tcg2Protocol.getCapability tcg2BsCaps
  if efiError reply.1 then
    printStatus "GetCapability failed: 0x%x\n" reply.1
  pure reply

def tcg2GetMaxBuf (tcg2Protocol : Tcg2Protocol A) : Trace Effect UInt16 := do
  let reply ← tcg2GetCapability tcg2Protocol .request
  if efiError reply.1 then
    printStatus "Failed to GetCapability: 0x%x\n" reply.1
    pure 0
  else if reply.2.maxCommandSize > reply.2.maxResponseSize then
    pure reply.2.maxCommandSize
  else
    pure reply.2.maxResponseSize

def tcg2SubmitCommand (tcg2Protocol : Tcg2Protocol A) (inputSize : UInt32) (inputBuf : Buffer)
    (outputSize : UInt32) (outputBuf : Buffer) : Trace Effect (EfiStatus A × Buffer) := do
  let input := inputBuf.bytes inputSize.toNat
  Trace.tell (.submit ⟨inputSize, input, outputSize⟩)
  let reply := tcg2Protocol.submitCommand inputSize input outputSize outputBuf
  if efiError reply.1 then
    printStatus "Tcg2 SubmitCommand failed: 0x%x\n" reply.1
  pure reply

/-- The located protocol is passed on only when its lookup did not fail. -/
def tcg2GetProtocol (fw : Firmware A) : EfiStatus A × Option (Tcg2Protocol A) :=
  if efiError fw.locateProtocol.1 then
    (fw.locateProtocol.1, none)
  else
    (fw.locateProtocol.1, some fw.locateProtocol.2)

structure Firmware.Reports (fw : Firmware A) (maxCommandSize maxResponseSize : UInt16) :
    Prop where
  located : efiError fw.locateProtocol.1 = false
  answered : efiError (fw.locateProtocol.2.getCapability .request).1 = false
  command : (fw.locateProtocol.2.getCapability .request).2.maxCommandSize = maxCommandSize
  response : (fw.locateProtocol.2.getCapability .request).2.maxResponseSize = maxResponseSize

@[simp] theorem val_tcg2GetCapability (p : Tcg2Protocol A) (caps : BootServiceCapability) :
    (tcg2GetCapability p caps).val = p.getCapability caps := by simp [tcg2GetCapability]

theorem tcg2GetMaxBuf_of_reports {fw : Firmware A} (h : fw.Reports c r) :
    (tcg2GetMaxBuf fw.locateProtocol.2).val.toNat = max c.toNat r.toNat := by
  have hc := h.command
  have hr := h.response
  simp only [tcg2GetMaxBuf, Trace.val_bind, Trace.val_ite, val_tcg2GetCapability, h.answered, hc,
    hr, Bool.false_eq_true, ↓reduceIte, Trace.val_pure]
  split
  · rename_i hlt
    exact (Nat.max_eq_left (Nat.le_of_lt (UInt16.lt_iff_toNat_lt.mp hlt))).symm
  · rename_i hle
    apply (Nat.max_eq_right _).symm
    exact Nat.not_lt.mp fun hlt => hle (UInt16.lt_iff_toNat_lt.mpr hlt)

end TctiUefi
