import TctiUefi.Lib.Buffer
import TctiUefi.Lib.Layout
import TctiUefi.Lib.Trace
import Mathlib.Data.BitVec

namespace TctiUefi

inductive Arch | ia32 | x86_64 | aarch64
  deriving DecidableEq

def Arch.bits : Arch → Nat
  | .ia32 => 32
  | .x86_64 => 64
  | .aarch64 => 64

def Arch.wordBytes (A : Arch) : Nat := A.bits / 8

/-- `UINTN`, `size_t` and `uintptr_t` are one word wide. -/
abbrev SizeT (A : Arch) := BitVec A.bits

abbrev EfiStatus (A : Arch) := SizeT A

def efiErr (A : Arch) (n : Nat) : EfiStatus A := BitVec.ofNat _ (2 ^ (A.bits - 1) + n)

def efiSuccess (A : Arch) : EfiStatus A := 0#A.bits
def efiInvalidParameter (A : Arch) : EfiStatus A := efiErr A 2
def efiBufferTooSmall (A : Arch) : EfiStatus A := efiErr A 5
def efiDeviceError (A : Arch) : EfiStatus A := efiErr A 7
def efiAccessDenied (A : Arch) : EfiStatus A := efiErr A 15

/-- `EFI_ERROR` tests the sign of the status, so that a warning is not an error. -/
def efiError (status : EfiStatus A) : Bool := status.msb

@[simp] theorem efiError_efiSuccess (A : Arch) : efiError (efiSuccess A) = false := by
  cases A <;> decide

inductive PrintArg
  | int (n : Nat)
  | str (s : String)
  deriving DecidableEq

structure Print where
  format : String
  args : List PrintArg
  deriving DecidableEq

structure Tcg2Version where
  major : UInt8
  minor : UInt8
  deriving DecidableEq

structure BootServiceCapability where
  size : UInt8
  structureVersion : Tcg2Version
  protocolVersion : Tcg2Version
  hashAlgorithmBitmap : UInt32
  supportedEventLogs : UInt32
  tpmPresentFlag : UInt8
  maxCommandSize : UInt16
  maxResponseSize : UInt16
  manufacturerId : UInt32
  numberOfPcrBanks : UInt32
  activePcrBanks : UInt32
  deriving DecidableEq

/-- The members of `EFI_TCG2_BOOT_SERVICE_CAPABILITY`, which is not packed. -/
def bootServiceCapabilityLayout : List (Layout.Member String) :=
  [⟨"Size", 1, 1⟩, ⟨"StructureVersion", 2, 1⟩, ⟨"ProtocolVersion", 2, 1⟩,
    ⟨"HashAlgorithmBitmap", 4, 4⟩, ⟨"SupportedEventLogs", 4, 4⟩, ⟨"TPMPresentFlag", 1, 1⟩,
    ⟨"MaxCommandSize", 2, 2⟩, ⟨"MaxResponseSize", 2, 2⟩, ⟨"ManufacturerID", 4, 4⟩,
    ⟨"NumberOfPcrBanks", 4, 4⟩, ⟨"ActivePcrBanks", 4, 4⟩]

/-- `{ .Size = sizeof (EFI_TCG2_BOOT_SERVICE_CAPABILITY), }` -/
def BootServiceCapability.request : BootServiceCapability where
  size := UInt8.ofNat (Layout.sizeof bootServiceCapabilityLayout)
  structureVersion := ⟨0, 0⟩
  protocolVersion := ⟨0, 0⟩
  hashAlgorithmBitmap := 0
  supportedEventLogs := 0
  tpmPresentFlag := 0
  maxCommandSize := 0
  maxResponseSize := 0
  manufacturerId := 0
  numberOfPcrBanks := 0
  activePcrBanks := 0

structure EventLogReply where
  first : UInt64
  last : UInt64
  truncated : Bool
  deriving DecidableEq

/-- The driver's side of the TCG2 protocol.  Each function maps what it is given, in and
out parameters alike, to its status and the out parameters it leaves. -/
structure Tcg2Protocol (A : Arch) where
  getCapability : BootServiceCapability → EfiStatus A × BootServiceCapability
  getEventLog : UInt32 → EfiStatus A × EventLogReply
  submitCommand : UInt32 → List UInt8 → UInt32 → Buffer → EfiStatus A × Buffer
  getActivePcrBanks : UInt32 → EfiStatus A × UInt32

/-- What the firmware answers during one call of a library function.  Nothing is assumed
of it, and a run may meet another firmware in every call. -/
structure Firmware (A : Arch) where
  locateProtocol : EfiStatus A × Tcg2Protocol A

end TctiUefi
