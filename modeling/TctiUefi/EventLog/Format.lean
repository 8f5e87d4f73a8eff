import TctiUefi.Algorithm
import TctiUefi.Efi
import TctiUefi.Lib.Memory
import TctiUefi.Tcg2Util

namespace TctiUefi.EventLog

inductive LogMember
  | pcrIndex | eventType | digest | digestCount | digests | eventSize | event | algorithmId
  deriving DecidableEq

/-- A struct with the attribute `PACKED`. -/
def packed (members : List (LogMember × Nat)) : List (Layout.Member LogMember) :=
  members.map fun p => ⟨p.1, p.2, 1⟩

def pcrEvent : List (Layout.Member LogMember) :=
  packed [(.pcrIndex, 4), (.eventType, 4), (.digest, 20), (.eventSize, 4), (.event, 1)]

def digest2 : List (Layout.Member LogMember) := packed [(.algorithmId, 2), (.digest, 0)]

def event2 : List (Layout.Member LogMember) := packed [(.eventSize, 4), (.event, 0)]

def eventHeader2 : List (Layout.Member LogMember) :=
  packed [(.pcrIndex, 4), (.eventType, 4), (.digestCount, 4), (.digests, 0)]

/-- What walking, printing or asking for a log does.  `event` and `digest` mark the entries
and digests that a callback or a printer is called on, `decode` the start of a decoder. -/
inductive LogEffect (A : Arch)
  | read (start : SizeT A) (len : Nat)
  | event (hdr : SizeT A)
  | digest (digest : SizeT A)
  | print (p : Print)
  | dumpHex (indent : Nat) (bytes : List UInt8)
  | lib (e : Effect)
  | decode (format : UInt32)
  deriving DecidableEq

def LogEffect.event? : LogEffect A → Option (SizeT A)
  | .event hdr => some hdr
  | _ => none

def LogEffect.Within (lo hi : Nat) : LogEffect A → Prop
  | .read start len => ∀ i < len, lo ≤ (start + BitVec.ofNat _ i).toNat ∧
      (start + BitVec.ofNat _ i).toNat < hi
  | _ => True

/-- `&p->x` -/
def addressOf (layout : List (Layout.Member LogMember)) (p : SizeT A) (x : LogMember) : SizeT A :=
  p + BitVec.ofNat _ (Layout.offsetof layout x)

/-- `p->x` for an integer member -/
def member (m : Memory A.bits) (layout : List (Layout.Member LogMember)) (p : SizeT A)
    (x : LogMember) : Trace (LogEffect A) Nat := do
  let len := (Layout.memberSpan layout x).len
  Trace.tell (.read (addressOf layout p x) len)
  pure (m.load (addressOf layout p x) len)

structure Digest2 where
  algorithmId : UInt16
  digest : List UInt8

def Digest2.encode (d : Digest2) : List UInt8 := toLE 2 d.algorithmId.toNat ++ d.digest

def Digest2.Known (d : Digest2) : Prop :=
  ∃ h : HashAlg, d.algorithmId = h.id ∧ d.digest.length = h.digestSize

/-- A crypto-agile entry: `TCG_EVENT_HEADER2`, its digests, and `TCG_EVENT2`. -/
structure Event2 where
  pcrIndex : UInt32
  eventType : UInt32
  digests : List Digest2
  event : List UInt8
  digests_lt : digests.length < 2 ^ 32
  event_lt : event.length < 2 ^ 32

namespace Event2

def encodeHeader (e : Event2) : List UInt8 :=
  toLE 4 e.pcrIndex.toNat ++ toLE 4 e.eventType.toNat ++ toLE 4 e.digests.length

def encodeEvent (e : Event2) : List UInt8 := toLE 4 e.event.length ++ e.event

def encode (e : Event2) : List UInt8 :=
  e.encodeHeader ++ (e.digests.flatMap Digest2.encode ++ e.encodeEvent)

@[simp] theorem length_encodeHeader (e : Event2) : e.encodeHeader.length = 12 := by
  simp [encodeHeader]

@[simp] theorem length_encodeEvent (e : Event2) :
    e.encodeEvent.length = 4 + e.event.length := by simp [encodeEvent]

theorem length_encode (e : Event2) :
    e.encode.length = 16 + (e.digests.flatMap Digest2.encode).length + e.event.length := by
  rw [encode, List.length_append, List.length_append, length_encodeHeader, length_encodeEvent]
  omega

end Event2

def evNoAction : UInt32 := 0x3

/-- A legacy entry: `TCG_PCR_EVENT` with `EventSize` bytes of event data. -/
structure PcrEvent where
  pcrIndex : UInt32
  eventType : UInt32
  digest : List UInt8
  event : List UInt8
  digest_length : digest.length = 20
  event_lt : event.length < 2 ^ 32

def PcrEvent.encode (e : PcrEvent) : List UInt8 :=
  toLE 4 e.pcrIndex.toNat ++ (toLE 4 e.eventType.toNat ++ (e.digest ++
    (toLE 4 e.event.length ++ e.event)))

theorem PcrEvent.length_encode (e : PcrEvent) : e.encode.length = 32 + e.event.length := by
  simp only [encode, List.length_append, length_toLE, e.digest_length]
  omega

/-- The Spec ID entry that a crypto-agile log starts with.  Its layout is the legacy one. -/
def specId (data : List UInt8) (h : data.length < 2 ^ 32) : PcrEvent where
  pcrIndex := 0
  eventType := evNoAction
  digest := List.replicate 20 0
  event := data
  digest_length := List.length_replicate
  event_lt := h

end TctiUefi.EventLog
