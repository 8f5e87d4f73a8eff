import TctiUefi.EventLog.Walk

namespace TctiUefi.EventLog

def efiTcg2EventLogFormatTcg12 : UInt32 := 0x00000001
def efiTcg2EventLogFormatTcg2 : UInt32 := 0x00000002

def eventtypes : List (UInt32 × String) :=
  [(0x0, "EV_PREBOOT_CERT"), (0x1, "EV_POST_CODE"), (0x2, "EV_UNUSED"), (0x3, "EV_NO_ACTION"),
    (0x4, "EV_SEPARATOR"), (0x5, "EV_ACTION"), (0x6, "EV_EVENT_TAG"), (0x7, "EV_S_CRTM_CONTENTS"),
    (0x8, "EV_S_CRTM_VERSION"), (0x9, "EV_CPU_MICROCODE"), (0xa, "EV_PLATFORM_CONFIG_FLAGS"),
    (0xb, "EV_TABLE_OF_DEVICES"), (0xc, "EV_COMPACT_HASH"), (0xd, "EV_IPL"),
    (0xe, "EV_IPL_PARTITION_DATA"), (0xf, "EV_NONHOST_CODE"), (0x10, "EV_NONHOST_CONFIG"),
    (0x11, "EV_NONHOST_INFO"), (0x12, "EV_OMIT_BOOT_DEVICE_EVENTS"),
    (0x80000001, "EV_EFI_VARIABLE_DRIVER_CONFIG"), (0x80000002, "EV_EFI_VARIABLE_BOOT"),
    (0x80000003, "EV_EFI_BOOT_SERVICES_APPLICATION"), (0x80000004, "EV_EFI_BOOT_SERVICES_DRIVER"),
    (0x80000005, "EV_EFI_RUNTIME_SERVICES_DRIVER"), (0x80000006, "EV_EFI_GPT_EVENT"),
    (0x80000007, "EV_EFI_ACTION"), (0x80000008, "EV_EFI_PLATFORM_FIRMWARE_BLOB"),
    (0x80000009, "EV_EFI_HANDOFF_TABLES"), (0x800000e0, "EV_EFI_VARIABLE_AUTHORITY")]

def eventtypeToString (eventType : UInt32) : String :=
  match eventtypes.find? fun p => p.1 = eventType with
  | some p => p.2
  | none => "Unknown event type"

def prixptr : Arch → String
  | .ia32 => "x"
  | .x86_64 => "lx"
  | .aarch64 => "lx"

def print (format : String) (args : List PrintArg) : Trace (LogEffect A) Unit :=
  Trace.tell (.print ⟨format, args⟩)

def dumpHex (m : Memory A.bits) (indent : Nat) (size : Nat) (p : SizeT A) :
    Trace (LogEffect A) Unit := do
  Trace.tell (.read p size)
  Trace.tell (.dumpHex indent ((m.view p).bytes size))

def prettyprintTpm2Digest (m : Memory A.bits) (digest : SizeT A) : Trace (LogEffect A) Unit := do
  let name ← member m digest2 digest .algorithmId
  let algorithmId ← member m digest2 digest .algorithmId
  print "    AlgorithmId: %s (0x%x)\n" [.str (getAlgName (UInt16.ofNat name)), .int algorithmId]
  let sized ← member m digest2 digest .algorithmId
  let digestSize := getAlgSize (UInt16.ofNat sized)
  print "    Digest: %d bytes\n" [.int digestSize]
  dumpHex m 4 digestSize (addressOf digest2 digest .digest)

def prettyprintTpm2DigestCallback (m : Memory A.bits) : Callback A (Option (SizeT A)) :=
  fun digest data => do
    prettyprintTpm2Digest m digest
    match data with
    | none => pure (true, none)
    | some size => do
      let n ← sizeofDigest2 m digest
      pure (true, some (size + n))

def prettyprintTpm2EventHeader (m : Memory A.bits) (eventHdr : SizeT A) :
    Trace (LogEffect A) Unit := do
  let pcrIndex ← member m eventHeader2 eventHdr .pcrIndex
  print "  PCRIndex: %d\n" [.int pcrIndex]
  let name ← member m eventHeader2 eventHdr .eventType
  let eventType ← member m eventHeader2 eventHdr .eventType
  print "  EventType: %s (0x%x)\n"
    [.str (eventtypeToString (UInt32.ofNat name)), .int eventType]
  let digestCount ← member m eventHeader2 eventHdr .digestCount
  print "  DigestCount: %d\n" [.int digestCount]

def prettyprintTpm2Eventbuf (m : Memory A.bits) (event : SizeT A) : Trace (LogEffect A) Unit := do
  let eventSize ← member m event2 event .eventSize
  print "  Event: %u bytes\n" [.int eventSize]
  let size ← member m event2 event .eventSize
  dumpHex m 2 size (addressOf event2 event .event)

def prettyprintTpm2Event (m : Memory A.bits) (eventHdr : SizeT A) : Trace (LogEffect A) Unit :=
  if eventHdr = 0#A.bits then
    pure ()
  else do
    prettyprintTpm2EventHeader m eventHdr
    let r ← foreachDigest2 m eventHdr (prettyprintTpm2DigestCallback m) (some 0#A.bits)
    if r.1 then
      prettyprintTpm2Eventbuf m
        (addressOf eventHeader2 eventHdr .digests + r.2.getD 0#A.bits)
    else
      pure ()

def prettyprintTpm2EventCallback (m : Memory A.bits) : Callback A Unit :=
  fun eventHdr data => do
    prettyprintTpm2Event m eventHdr
    pure (true, data)

def prettyprintTpm12Event (m : Memory A.bits) (event : SizeT A) : Trace (LogEffect A) Unit := do
  print ("TCG_PCR_EVENT: 0x%" ++ prixptr A ++ "\n") [.int event.toNat]
  let pcrIndex ← member m pcrEvent event .pcrIndex
  print "  PCRIndex: %d\n" [.int pcrIndex]
  let name ← member m pcrEvent event .eventType
  let eventType ← member m pcrEvent event .eventType
  print "  EventType: %s (0x%08x)\n"
    [.str (eventtypeToString (UInt32.ofNat name)), .int eventType]
  print "  Digest: \n" []
  dumpHex m 4 (Layout.memberSpan pcrEvent .digest).len (addressOf pcrEvent event .digest)
  let eventSize ← member m pcrEvent event .eventSize
  print "  EventSize: %d\n" [.int eventSize]
  print "  Event: \n" []
  let size ← member m pcrEvent event .eventSize
  dumpHex m 4 size (addressOf pcrEvent event .event)

def tpm12EventNext (m : Memory A.bits) (current last : SizeT A) :
    Trace (LogEffect A) (SizeT A) :=
  if current = last then
    pure 0#A.bits
  else do
    let eventSize ← member m pcrEvent current .eventSize
    let next :=
      current + BitVec.ofNat _ (Layout.sizeof pcrEvent) + BitVec.ofNat _ eventSize - 1#A.bits
    if next > last then
      print "Error: current element is beyond the end of the log\n" []
      pure 0#A.bits
    else
      pure next

/-- One round of the `do` loop: the entry is printed before anything is compared. -/
def tpm12Round (m : Memory A.bits) (last : SizeT A) (event : SizeT A) :
    Trace (LogEffect A) (SizeT A ⊕ Unit) := do
  Trace.tell (.event event)
  prettyprintTpm12Event m event
  let next ← tpm12EventNext m event last
  if next = 0#A.bits then
    pure (.inr ())
  else
    pure (.inl next)

def toPointer (A : Arch) (address : UInt64) : SizeT A := BitVec.ofNat _ address.toNat

def prettyprintTpm12Eventlog (m : Memory A.bits) (first last : UInt64) (fuel : Nat) :
    Trace (LogEffect A) (Option Unit) :=
  let event := toPointer A first
  let eventLast := toPointer A last
  if event = 0#A.bits then do
    print "TPM2 EventLog is empty." []
    pure (some ())
  else do
    print "TPM2 EventLog, EFI_TCG2_EVENT_LOG_FORMAT_TCG_1_2 format\n" []
    Trace.tell (.decode efiTcg2EventLogFormatTcg12)
    Loop.run (tpm12Round m eventLast) fuel event

def prettyprintTpm2Eventlog (m : Memory A.bits) (first last : UInt64) (fuel : Nat) :
    Trace (LogEffect A) (Option Unit) :=
  let event := toPointer A first
  let eventLast := toPointer A last
  if event = 0#A.bits then do
    print "TPM2 EventLog is empty.\n" []
    pure (some ())
  else do
    print "TPM2 EventLog, EFI_TCG2_EVENT_LOG_FORMAT_TCG_2 format\n" []
    Trace.tell (.decode efiTcg2EventLogFormatTcg2)
    match ← foreachEvent2 m event eventLast (some (prettyprintTpm2EventCallback m)) () fuel with
    | none => pure none
    | some _ => do
      print "TPM2 EventLog end\n" []
      pure (some ())

def prettyprintEventlog (m : Memory A.bits) (first last : UInt64) (format : UInt32)
    (fuel : Nat) : Trace (LogEffect A) (Option Unit) :=
  if format = efiTcg2EventLogFormatTcg2 then
    prettyprintTpm2Eventlog m first last fuel
  else if format = efiTcg2EventLogFormatTcg12 then
    prettyprintTpm12Eventlog m first last fuel
  else do
    print "ERROR: Unknown format: 0x%x\n" [.int format.toNat]
    pure (some ())

section Formats

variable {A : Arch} (m : Memory A.bits) (first last : UInt64)

@[simp] theorem prettyprintEventlog_tcg2 :
    prettyprintEventlog m first last efiTcg2EventLogFormatTcg2 =
      prettyprintTpm2Eventlog m first last := funext fun _ => if_pos rfl

@[simp] theorem prettyprintEventlog_tcg12 :
    prettyprintEventlog m first last efiTcg2EventLogFormatTcg12 =
      prettyprintTpm12Eventlog m first last := by
  have hformats : efiTcg2EventLogFormatTcg12 ≠ efiTcg2EventLogFormatTcg2 := by decide
  funext fuel
  rw [prettyprintEventlog, if_neg hformats, if_pos rfl]

end Formats

/-- The status, and what `*format` holds afterwards. -/
def getEventlogFormatHigh (tcg2Protocol : Tcg2Protocol A) (format : UInt32) :
    Trace Effect (EfiStatus A × UInt32) := do
  let reply ← tcg2GetCapability tcg2Protocol .request
  if efiError reply.1 then
    pure (reply.1, format)
  else if reply.2.supportedEventLogs ≠ 0 ∧ efiTcg2EventLogFormatTcg2 ≠ 0 then
    pure (efiSuccess A, efiTcg2EventLogFormatTcg2)
  else if reply.2.supportedEventLogs ≠ 0 ∧ efiTcg2EventLogFormatTcg12 ≠ 0 then
    pure (efiSuccess A, efiTcg2EventLogFormatTcg12)
  else
    pure (efiSuccess A, 0)

/-- The tool's `efi_main`.  It has no value when the decoder does not end within `fuel`. -/
def efiMain (m : Memory A.bits) (fw : Firmware A) (fuel : Nat) :
    Trace (LogEffect A) (Option (EfiStatus A)) :=
  match tcg2GetProtocol fw with
  | (status, none) => pure (some status)
  | (_, some tcg2Protocol) => do
    let r ← (getEventlogFormatHigh tcg2Protocol 0).mapLog .lib
    if efiError r.1 then
      pure (some r.1)
    else if r.2 = 0 then do
      print ("ERROR: TCG2 UEFI protocol doesn't support a log format " ++
        "known to this tool.\n") []
      pure (some 1#A.bits)
    else do
      let reply ← (tcg2GetEventlog tcg2Protocol r.2).mapLog .lib
      if efiError reply.1 then
        pure (some reply.1)
      else do
        if reply.2.truncated then
          print "WARNING: Eventlog has been truncated\n" []
        let done ← prettyprintEventlog m reply.2.first reply.2.last r.2 fuel
        pure (done.map fun _ => reply.1)

end TctiUefi.EventLog
