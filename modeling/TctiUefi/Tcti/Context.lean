import TctiUefi.Tcg2Util

namespace TctiUefi

inductive TctiRc
  | success
  | generalFailure
  | notImplemented
  | badContext
  | badReference
  | insufficientBuffer
  | badSequence
  | ioError
  | badValue
  deriving DecidableEq

/-- The three enumerators, and any other bits a corrupted context may hold. -/
inductive TctiUefiState
  | final
  | receive
  | transmit
  | invalid (raw : UInt32) (h : 2 < raw)
  deriving DecidableEq

inductive TctiFn
  | null
  | tctiUefiTransmit
  | tctiUefiReceive
  | tctiUefiFinalize
  | foreign (address : Nat)
  deriving DecidableEq

structure TctiContextCommon where
  magic : UInt64
  version : UInt64
  transmit : TctiFn
  receive : TctiFn
  finalize : TctiFn
  cancel : TctiFn
  getPollHandles : TctiFn
  setLocality : TctiFn
  makeSticky : TctiFn
  deriving DecidableEq

/-- `TSS2_TCTI_UEFI_CONTEXT`.  The flexible array member gives access to all the memory
that follows the header. -/
structure TctiUefiContext (A : Arch) where
  common : TctiContextCommon
  state : TctiUefiState
  size : SizeT A
  cmdBuf : Buffer

inductive CtxMember
  | magic | version
  | transmit | receive | finalize | cancel | getPollHandles | setLocality | makeSticky
  | state | size | cmdBuf
  deriving DecidableEq

/-- gcc aligns a `uint64_t` member to 4 bytes on ia32. -/
def Arch.alignUint64 : Arch → Nat
  | .ia32 => 4
  | .x86_64 => 8
  | .aarch64 => 8

def contextLayout (A : Arch) : List (Layout.Member CtxMember) :=
  [⟨.magic, 8, A.alignUint64⟩, ⟨.version, 8, A.alignUint64⟩,
    ⟨.transmit, A.wordBytes, A.wordBytes⟩, ⟨.receive, A.wordBytes, A.wordBytes⟩,
    ⟨.finalize, A.wordBytes, A.wordBytes⟩, ⟨.cancel, A.wordBytes, A.wordBytes⟩,
    ⟨.getPollHandles, A.wordBytes, A.wordBytes⟩, ⟨.setLocality, A.wordBytes, A.wordBytes⟩,
    ⟨.makeSticky, A.wordBytes, A.wordBytes⟩, ⟨.state, 4, 4⟩,
    ⟨.size, A.wordBytes, A.wordBytes⟩, ⟨.cmdBuf, 0, 1⟩]

def memberSpan (A : Arch) (x : CtxMember) : Layout.Span := Layout.memberSpan (contextLayout A) x

def offsetofCmdBuf (A : Arch) : Nat := Layout.offsetof (contextLayout A) .cmdBuf

def sizeofContext (A : Arch) : Nat := Layout.sizeof (contextLayout A)

example : sizeofContext .x86_64 = 88 := by decide

theorem contextLayout_align_pos (A : Arch) : ∀ m ∈ contextLayout A, 0 < m.align := by
  cases A <;> decide

theorem memberSpan_within (A : Arch) (x : CtxMember) :
    (memberSpan A x).Within (sizeofContext A) :=
  Layout.memberSpan_within (contextLayout_align_pos A) x

theorem offsetofCmdBuf_eq (A : Arch) : offsetofCmdBuf A = sizeofContext A := by
  cases A <;> decide

theorem sizeMember_end (A : Arch) :
    (memberSpan A .size).start + (memberSpan A .size).len = sizeofContext A := by
  cases A <;> decide

theorem sizeofContext_add_lt (A : Arch) {n : Nat} (h : n < 2 ^ 16) :
    n + sizeofContext A < 2 ^ A.bits := by
  have hsize : sizeofContext A ≤ 88 := by cases A <;> decide
  have hbits : 2 ^ 32 ≤ 2 ^ A.bits := by cases A <;> decide
  omega

def tctiUefiMagic : UInt64 := 0x3a2e16965be011f2
def tctiUefiVersion : UInt64 := 2

def TctiUefiContext.Valid (c : TctiUefiContext A) : Prop :=
  c.common.magic = tctiUefiMagic ∧ c.common.version = tctiUefiVersion

instance (c : TctiUefiContext A) : Decidable c.Valid :=
  inferInstanceAs (Decidable (_ ∧ _))

def tctiUefiContextCast (tctiCtx : Option (TctiUefiContext A)) : Option (TctiUefiContext A) :=
  match tctiCtx with
  | some c =>
    if c.common.magic = tctiUefiMagic ∧ c.common.version = tctiUefiVersion then some c else none
  | none => none

@[simp] theorem tctiUefiContextCast_of_valid {c : TctiUefiContext A} (h : c.Valid) :
    tctiUefiContextCast (some c) = some c := if_pos h

@[simp] theorem tctiUefiContextCast_of_not_valid {c : TctiUefiContext A} (h : ¬c.Valid) :
    tctiUefiContextCast (some c) = none := if_neg h

end TctiUefi
