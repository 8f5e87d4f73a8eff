import TctiUefi.Tcti.Context
import Mathlib.Data.List.Basic

namespace TctiUefi

def tpm2HeaderSize : Nat := 10

def tctiTimeoutBlock : Int32 := -1

def printText (format : String) : Trace Effect Unit := Trace.tell (.print ⟨format, []⟩)

def writeMember (A : Arch) (x : CtxMember) : Trace Effect Unit :=
  Trace.tell (.write (memberSpan A x))

def toUInt32 (n : SizeT A) : UInt32 := UInt32.ofNat n.toNat

@[simp] theorem toNat_toUInt32 (n : SizeT A) : (toUInt32 n).toNat = n.toNat % 2 ^ 32 := by
  simp [toUInt32]

def tctiUefiTransmit (context : Option (TctiUefiContext A)) (size : SizeT A)
    (command : Option Buffer) : Trace Effect (TctiRc × Option (TctiUefiContext A)) :=
  match context, command with
  | some _, some cmd =>
    match tctiUefiContextCast context with
    | none => do
      printText "upcast to TSS2_TCTI_UEFI_CONTEXT failed\n"
      pure (.badContext, context)
    | some tcti =>
      if tcti.state ≠ .transmit then
        pure (.badSequence, context)
      else if size > tcti.size ∨ size.toNat ≤ tpm2HeaderSize then
        pure (.badValue, context)
      else do
        Trace.tell (.write ⟨offsetofCmdBuf A, size.toNat⟩)
        writeMember A .state
        pure (.success,
          some { tcti with cmdBuf := tcti.cmdBuf.copy cmd size.toNat, state := .receive })
  | _, _ => pure (.badReference, context)

/-- What a call of receive leaves: its return code, and the contents of the context, of
`*size` and of the response buffer. -/
structure ReceiveResult (A : Arch) where
  rc : TctiRc
  context : Option (TctiUefiContext A)
  size : Option (SizeT A)
  response : Option Buffer

/-- The `switch` over a status that is not `EFI_SUCCESS`. -/
def submitFailure (status : EfiStatus A) : Trace Effect TctiRc :=
  if status = efiInvalidParameter A then do
    printText "EFI_INVALID_PARAMTER\n"
    pure .badValue
  else if status = efiBufferTooSmall A then do
    printText "EFI_BUFFER_TOO_SMALL\n"
    pure .insufficientBuffer
  else if status = efiDeviceError A then do
    printText "EFI_DEVICE_ERROR\n"
    pure .ioError
  else if status = efiAccessDenied A then do
    printText "EFI_ACCESS_DENIED\n"
    pure .generalFailure
  else do
    printText "Unexpected EFI error code\n"
    pure .generalFailure

def tctiUefiReceive (context : Option (TctiUefiContext A)) (size : Option (SizeT A))
    (response : Option Buffer) (timeout : Int32) (fw : Firmware A) :
    Trace Effect (ReceiveResult A) :=
  let unchanged (rc : TctiRc) : ReceiveResult A := ⟨rc, context, size, response⟩
  match context, size with
  | some _, some n =>
    if timeout ≠ tctiTimeoutBlock then
      pure (unchanged .notImplemented)
    else
      match tctiUefiContextCast context with
      | none => pure (unchanged .badContext)
      | some tcti =>
        if tcti.state ≠ .receive then
          pure (unchanged .badSequence)
        else
          match response with
          | none => pure { unchanged .success with size := some tcti.size }
          | some buf =>
            match (tcg2GetProtocol fw).2 with
            | none => pure (unchanged .generalFailure)
            | some tcg2Proto => do
              let reply ← tcg2SubmitCommand tcg2Proto (toUInt32 tcti.size) tcti.cmdBuf
                (toUInt32 n) buf
              if reply.1 = efiSuccess A then
                writeMember A .state
                pure ⟨.success, some { tcti with state := .transmit }, size, some reply.2⟩
              else
                let rc ← submitFailure reply.1
                pure ⟨rc, context, size, some reply.2⟩
  | _, _ => pure (unchanged .badReference)

def tctiUefiFinalize (context : Option (TctiUefiContext A)) :
    Trace Effect (Option (TctiUefiContext A)) :=
  match context with
  | none => do
    printText "Invalid parameter"
    pure context
  | some _ =>
    match tctiUefiContextCast context with
    | some tcti => do
      writeMember A .state
      pure (some { tcti with state := .final })
    | none => pure context

def sizeofTctiUefiContext (fw : Firmware A) : Trace Effect (SizeT A) :=
  match (tcg2GetProtocol fw).2 with
  | none => pure 0#A.bits
  | some tcg2Proto => do
    let maxBuf ← tcg2GetMaxBuf tcg2Proto
    let size := 0#A.bits + BitVec.ofNat _ maxBuf.toNat
    if size = 0#A.bits then
      pure 0#A.bits
    else
      pure (size + BitVec.ofNat _ (sizeofContext A))

structure InitResult (A : Arch) where
  rc : TctiRc
  context : Option (TctiUefiContext A)
  size : Option (SizeT A)

def initCommon : TctiContextCommon where
  magic := tctiUefiMagic
  version := tctiUefiVersion
  transmit := .tctiUefiTransmit
  receive := .tctiUefiReceive
  finalize := .tctiUefiFinalize
  cancel := .null
  getPollHandles := .null
  setLocality := .null
  makeSticky := .null

def tss2TctiUefiInit (context : Option (TctiUefiContext A)) (size : Option (SizeT A))
    (_conf : Option String) (fw : Firmware A) : Trace Effect (InitResult A) :=
  match size, context with
  | none, _ => pure ⟨.badValue, context, size⟩
  | some _, none => do
    let n ← sizeofTctiUefiContext fw
    if n = 0#A.bits then
      pure ⟨.generalFailure, none, some n⟩
    else
      pure ⟨.success, none, some n⟩
  | some n, some block => do
    writeMember A .magic
    writeMember A .version
    -- the cast cannot fail here: it reads the two members just written
    writeMember A .transmit
    writeMember A .receive
    writeMember A .finalize
    writeMember A .cancel
    writeMember A .getPollHandles
    writeMember A .setLocality
    writeMember A .makeSticky
    writeMember A .state
    writeMember A .size
    pure ⟨.success,
      some { block with
        common := initCommon
        state := .transmit
        size := n - BitVec.ofNat _ (sizeofContext A) },
      size⟩

end TctiUefi
