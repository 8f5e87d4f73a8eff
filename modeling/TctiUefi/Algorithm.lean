import Mathlib.Data.List.Basic

namespace TctiUefi

inductive HashAlg | sha1 | sha256 | sha384 | sha512 | sm3_256
  deriving DecidableEq

namespace HashAlg

def all : List HashAlg := [.sha1, .sha256, .sha384, .sha512, .sm3_256]

/-- `TPM2_ALG_*` -/
def id : HashAlg → UInt16
  | .sha1 => 0x0004
  | .sha256 => 0x000b
  | .sha384 => 0x000c
  | .sha512 => 0x000d
  | .sm3_256 => 0x0012

/-- `TPM2_*_DIGEST_SIZE` -/
def digestSize : HashAlg → Nat
  | .sha1 => 20
  | .sha256 => 32
  | .sha384 => 48
  | .sha512 => 64
  | .sm3_256 => 32

def name : HashAlg → String
  | .sha1 => "EFI_TCG2_BOOT_HASH_ALG_SHA1"
  | .sha256 => "EFI_TCG2_BOOT_HASH_ALG_SHA256"
  | .sha384 => "EFI_TCG2_BOOT_HASH_ALG_SHA384"
  | .sha512 => "EFI_TCG2_BOOT_HASH_ALG_SHA512"
  | .sm3_256 => "EFI_TCG2_BOOT_HASH_ALG_SM3_256"

/-- `EFI_TCG2_BOOT_HASH_ALG_*` -/
def mask : HashAlg → UInt32
  | .sha1 => 0x00000001
  | .sha256 => 0x00000002
  | .sha384 => 0x00000004
  | .sha512 => 0x00000008
  | .sm3_256 => 0x00000010

def bit : HashAlg → Nat
  | .sha1 => 0
  | .sha256 => 1
  | .sha384 => 2
  | .sha512 => 3
  | .sm3_256 => 4

theorem mask_eq_twoPow (h : HashAlg) : h.mask.toBitVec = BitVec.twoPow 32 h.bit := by
  cases h <;> rfl

def ofId? (algId : UInt16) : Option HashAlg := all.find? fun h => h.id = algId

@[simp] theorem ofId?_id (h : HashAlg) : ofId? h.id = some h := by
  cases h <;> rfl

theorem id_injective : Function.Injective id := by
  intro h k heq
  have hof := congrArg ofId? heq
  rw [ofId?_id, ofId?_id] at hof
  exact Option.some.inj hof

theorem name_injective : Function.Injective name := by
  intro h k heq
  cases h <;> cases k <;> first | rfl | exact absurd heq (by decide)

theorem mem_all (h : HashAlg) : h ∈ all := by
  cases h <;> decide

theorem nodup_all : all.Nodup := by decide

end HashAlg

def getAlgSize (algId : UInt16) : Nat :=
  match HashAlg.ofId? algId with
  | some h => h.digestSize
  | none => 0

def getAlgName (algId : UInt16) : String :=
  match HashAlg.ofId? algId with
  | some h => h.name
  | none => "UNKNOWN_ALGORITHM"

@[simp] theorem getAlgSize_id (h : HashAlg) : getAlgSize h.id = h.digestSize := by
  simp [getAlgSize]

@[simp] theorem getAlgName_id (h : HashAlg) : getAlgName h.id = h.name := by
  simp [getAlgName]

end TctiUefi
