import TctiUefi.Sapi.Station

namespace TctiUefi.Sapi.NvOps

open TctiUefi.Pcr Client

def tpm2RhOwner : UInt32 := 0x40000001
def tpm2RhPw : UInt32 := 0x40000009
def tpmaNvOwnerwrite : UInt32 := 0x2
def tpmaNvAuthwrite : UInt32 := 0x4
def tpmaNvOwnerread : UInt32 := 0x20000
def tpmaNvAuthread : UInt32 := 0x40000
def tpm2RcRetry : UInt32 := 0x922

def nvIndex : UInt32 := 0x01000000

def tpm2b (size : UInt16) (buffer : List UInt8) : Tpm2bDigest :=
  ⟨size, Buffer.write (fun _ => 0) buffer⟩

def passwordAuth (hmac : Tpm2bDigest) : TpmsAuthCommand where
  sessionHandle := tpm2RhPw
  nonce := tpm2b 0 []
  sessionAttributes := 0
  hmac := hmac

/-- The size is zero, so that the two bytes are not part of the password. -/
def createAuths : List TpmsAuthCommand := [passwordAuth (tpm2b 0 [0x12, 0x34])]

def indexAuth : Tpm2bDigest := tpm2b 16 ((List.replicate 8 [0xAF, 0xFE]).flatten)

def indexAuths : List TpmsAuthCommand := [passwordAuth indexAuth]

def indexPublic : TpmsNvPublic where
  nvIndex := nvIndex
  nameAlg := HashAlg.sha256.id
  attributes := tpmaNvOwnerwrite ||| tpmaNvAuthwrite ||| tpmaNvAuthread ||| tpmaNvOwnerread
  authPolicy := tpm2b 0 []
  dataSize := 32

/-- `CopyMem` within one buffer -/
def memmove (b : Buffer) (dest src count : Nat) : Buffer := fun i =>
  if dest ≤ i ∧ i < dest + count then b (src + (i - dest)) else b i

def print (format : String) (args : List PrintArg) : Tool PUnit := .say (.print ⟨format, args⟩)

def returned (command : String) : Tool PUnit :=
  print (command ++ " returned TSS2_RC_SUCCESS\n") []

def failed (command : String) (rc : UInt32) : Tool UInt32 := do
  print ("Failed to " ++ command ++ ": 0x%x\n") [.int rc.toNat]
  pure rc

def nvWrite (data : Tpm2bMaxNvBuffer) : Tool UInt32 := do
  let written ← .call (.nvWrite nvIndex nvIndex indexAuths data 0)
  if written.rc = tpm2RcRetry then
    print "Tss2_Sys_NV_Write TPM asked for TPM2_RC_RETRY\n" []
    let written ← .call (.nvWrite nvIndex nvIndex indexAuths data 0)
    pure written.rc
  else
    pure written.rc

def nvRelease (randomBytes : Tpm2bDigest) : Tool UInt32 := do
  let undefined ← .call (.nvUndefineSpace tpm2RhOwner nvIndex createAuths)
  if undefined.rc ≠ 0 then
    failed "Tss2_Sys_NV_UndefineSpace" undefined.rc
  else
    returned "Tss2_Sys_NV_UndefineSpace"
    let random ← .call (.getRandom 32 randomBytes)
    if random.rc ≠ 0 then
      failed "Tss2_Sys_GetRandom" random.rc
    else
      returned "Tss2_Sys_GetRandom"
      pure random.rc

/-- The commands of the tool, up to the clean up.  The buffer is not initialised. -/
def nvOps (data : Tpm2bMaxNvBuffer) : Tool UInt32 := do
  let buffer := data.buffer.copy (fun _ => 0) 5
  -- what memcpy and then memmove do
  let buffer := memmove (memmove buffer 5 0 5) 5 0 5
  let random ← .call (.getRandom 32 (tpm2b 32 []))
  if random.rc ≠ 0 then
    failed "Tss2_Sys_NV_DefineSpace" random.rc
  else
    returned "Tss2_Sys_GetRandom"
    let data : Tpm2bMaxNvBuffer :=
      { size := random.randomBytes.size
        buffer := buffer.copy random.randomBytes.buffer random.randomBytes.size.toNat }
    let defined ← .call (.nvDefineSpace tpm2RhOwner createAuths indexAuth indexPublic)
    if defined.rc ≠ 0 then
      failed "Tss2_Sys_NV_DefineSpace" defined.rc
    else
      returned "Tss2_Sys_NV_DefineSpace"
      let rc ← nvWrite data
      if rc ≠ 0 then
        failed "Tss2_Sys_NV_Write" rc
      else
        returned "Tss2_Sys_NV_Write"
        nvRelease random.randomBytes

def efiMain {A : Arch} {T : Tss A} (L : SapiLibrary T τ) (P : Platform T)
    (data : Tpm2bMaxNvBuffer) (st : Station T τ) :
    Trace (Effect ⊕ SysCall) (EfiStatus A × Station T τ) :=
  initThen id P st (efiAborted A)
    (session L (nvOps data) fun rc => if rc = 0 then efiSuccess A else efiAborted A)

section Index

abbrev NvIndices := UInt32 → Option (List UInt8)

/-- What a command does to the NV indices when it is executed. -/
def Does (before after : NvIndices) : SysCommand → Prop
  | .nvDefineSpace _ _ _ publicInfo => before publicInfo.nvIndex = none ∧
      ∃ area, after = Function.update before publicInfo.nvIndex (some area)
  | .nvWrite _ nvIndex _ data offset => ∃ area,
      after = Function.update before nvIndex (some area) ∧
        data.bytes <+: area.drop offset.toNat
  | .nvUndefineSpace _ nvIndex _ => after = Function.update before nvIndex none
  | _ => after = before

/-- What a call does to the NV indices.  A command that fails may have been executed all the same,
and only its response been lost. -/
def Affects (before : NvIndices) (cmd : SysCommand) (reply : SysReply) (after : NvIndices) : Prop :=
  Does before after cmd ∨ (reply.rc ≠ 0 ∧ after = before)

def KeepsNv {σ : Type} (M : Machine σ SysCommand SysReply) (nv : σ → NvIndices) : Prop :=
  ∀ s cmd, Affects (nv s) cmd (M.step s cmd).2 (nv (M.step s cmd).1)

def defines : SysCall → Bool
  | (.nvDefineSpace _ _ _ publicInfo, reply) => publicInfo.nvIndex = nvIndex ∧ reply.rc = 0
  | _ => false

def writes : SysCall → Bool
  | (.nvWrite _ i _ _ _, reply) => i = nvIndex ∧ reply.rc = 0
  | _ => false

def random? : SysCall → Option (List UInt8)
  | (.getRandom _ _, reply) => some (reply.randomBytes.buffer.bytes reply.randomBytes.size.toNat)
  | _ => none

end Index

section Outcome

variable {σ : Type} {M : Machine σ SysCommand SysReply} {nv : σ → NvIndices}

@[simp] theorem wp_print {format : String} {args : List PrintArg}
    {Q : PUnit → σ → List SysCall → Prop} {s : σ} :
    (print format args).Wp M Q s ↔ Q ⟨⟩ s [] := Iff.rfl

@[simp] theorem wp_returned {command : String} {Q : PUnit → σ → List SysCall → Prop} {s : σ} :
    (returned command).Wp M Q s ↔ Q ⟨⟩ s [] := Iff.rfl

@[simp] theorem wp_failed {command : String} {rc : UInt32} {Q : UInt32 → σ → List SysCall → Prop}
    {s : σ} : (failed command rc).Wp M Q s ↔ Q rc s [] := Iff.rfl

theorem Affects.done {before after : NvIndices} {cmd : SysCommand} {reply : SysReply}
    (h : Affects before cmd reply after) (hrc : reply.rc = 0) : Does before after cmd :=
  h.resolve_right fun h => h.1 hrc

theorem Affects.getRandom {before after : NvIndices} {n : UInt16} {randomBytes : Tpm2bDigest}
    {reply : SysReply} (h : Affects before (.getRandom n randomBytes) reply after) :
    after = before := by
  rcases h with h | h
  · exact h
  · exact h.2

structure Written (data : Tpm2bMaxNvBuffer) (before after : NvIndices) (rc : UInt32)
    (calls : List SysCall) : Prop where
  only : ∀ e ∈ calls, ∃ i j auths data offset, e.1 = .nvWrite i j auths data offset
  kept : ∃ area, after = Function.update before nvIndex (some area) ∧
    (rc = 0 → data.bytes <+: area)
  failure : rc ≠ 0 → calls.any writes = false

theorem writes_of_ne {cmd : SysCommand} {reply : SysReply} (h : reply.rc ≠ 0) :
    writes (cmd, reply) = false := by
  cases cmd <;> simp [writes, h]

theorem Affects.nvWrite {before after : NvIndices} {auths : List TpmsAuthCommand}
    {data : Tpm2bMaxNvBuffer} {reply : SysReply} {area : List UInt8}
    (h : Affects before (.nvWrite nvIndex nvIndex auths data 0) reply after)
    (hbefore : before nvIndex = some area) :
    ∃ area, after = Function.update before nvIndex (some area) ∧
      (reply.rc = 0 → data.bytes <+: area) := by
  rcases h with ⟨area, hafter, hprefix⟩ | ⟨hrc, hsame⟩
  · exact ⟨area, hafter, fun _ => hprefix⟩
  · refine ⟨area, ?_, fun h => absurd h hrc⟩
    rw [hsame, ← hbefore, Function.update_eq_self]

theorem nvWrite_written (h : KeepsNv M nv) (data : Tpm2bMaxNvBuffer) {s : σ} {area : List UInt8}
    (hs : nv s nvIndex = some area) :
    (nvWrite data).Wp M (fun rc t calls => Written data (nv s) (nv t) rc calls) s := by
  apply Wp.call_of h
  intro written t ht
  obtain ⟨area', ht', hprefix⟩ := ht.nvWrite hs
  rw [wp_ite]
  constructor
  · intro hretry
    have hrc : written.rc ≠ 0 := by rw [hretry]; decide
    have hheld : nv t nvIndex = some area' := by rw [ht', Function.update_self]
    rw [wp_bind, wp_print]
    apply Wp.call_of h
    intro again u hu
    obtain ⟨area'', hu', hprefix'⟩ := hu.nvWrite hheld
    rw [ht', Function.update_idem] at hu'
    constructor
    · simp
    · exact ⟨area'', hu', hprefix'⟩
    · intro hagain
      simp [writes_of_ne hrc, writes_of_ne hagain]
  · intro _
    constructor
    · simp
    · exact ⟨area', ht', hprefix⟩
    · intro hrc
      simp [writes_of_ne hrc]

inductive Outcome (before after : NvIndices) (rc : UInt32) (calls : List SysCall) : Prop
  | same (hsame : after = before)
      (hheld : before nvIndex ≠ none → rc ≠ 0 ∧ calls.any defines = false)
  | leftBehind (area bytes : List UInt8) (hrc : rc ≠ 0) (hfree : before nvIndex = none)
      (hafter : after = Function.update before nvIndex (some area))
      (hrandom : calls.filterMap random? = [bytes])
      (hwrites : calls.any writes = true → bytes <+: area)

theorem Written.no_random {data : Tpm2bMaxNvBuffer} {before after : NvIndices} {rc : UInt32}
    {calls : List SysCall} (h : Written data before after rc calls) :
    calls.filterMap random? = [] := by
  rw [List.filterMap_eq_nil_iff]
  intro e he
  obtain ⟨i, j, auths, data, offset, hcmd⟩ := h.only e he
  obtain ⟨cmd, reply⟩ := e
  obtain rfl : cmd = _ := hcmd
  rfl

inductive Released (before after : NvIndices) (rc : UInt32) (calls : List SysCall) : Prop
  | kept (hrc : rc ≠ 0) (hsame : after = before) (hrandom : calls.filterMap random? = [])
  | released (hafter : after = Function.update before nvIndex none)

theorem nvRelease_released (h : KeepsNv M nv) (randomBytes : Tpm2bDigest) (s : σ) :
    (nvRelease randomBytes).Wp M (fun rc t calls => Released (nv s) (nv t) rc calls) s := by
  apply Wp.call_of h
  intro undefined t ht
  rw [wp_ite]
  constructor
  · intro hrc
    rcases ht with hgone | ⟨-, hsame⟩
    · exact .released hgone
    · exact .kept hrc hsame rfl
  · intro hrc
    have hgone := ht.done (not_not.mp hrc)
    rw [wp_bind, wp_returned]
    apply Wp.call_of h
    intro random u hu
    have hafter : nv u = Function.update (nv s) nvIndex none := hu.getRandom.trans hgone
    rw [wp_ite]
    exact ⟨fun _ => .released hafter, fun _ => .released hafter⟩

@[simp] theorem random?_getRandom (n : UInt16) (randomBytes : Tpm2bDigest) (reply : SysReply) :
    random? (.getRandom n randomBytes, reply) =
      some (reply.randomBytes.buffer.bytes reply.randomBytes.size.toNat) := rfl

@[simp] theorem random?_nvDefineSpace (i : UInt32) (auths : List TpmsAuthCommand)
    (auth : Tpm2bDigest) (publicInfo : TpmsNvPublic) (reply : SysReply) :
    random? (.nvDefineSpace i auths auth publicInfo, reply) = none := rfl

theorem nvOps_outcome (h : KeepsNv M nv) (data : Tpm2bMaxNvBuffer) (s : σ) :
    (nvOps data).Wp M (fun rc t calls => Outcome (nv s) (nv t) rc calls) s := by
  apply Wp.call_of h
  intro random t ht
  rw [wp_ite]
  refine ⟨fun hrc => .same ht.getRandom fun _ => ⟨hrc, rfl⟩, fun _ => ?_⟩
  rw [wp_bind, wp_returned]
  apply Wp.call_of h
  intro defined u hu
  rw [ht.getRandom] at hu
  rw [wp_ite]
  constructor
  · intro hrc
    rcases hu with ⟨hfree, area, hu⟩ | ⟨-, hsame⟩
    · -- the index was defined, and the tool does not know
      exact .leftBehind area (random.randomBytes.buffer.bytes random.randomBytes.size.toNat) hrc
        hfree hu rfl fun hwrites => absurd hwrites (by simp [writes])
    · exact .same hsame fun _ => ⟨hrc, by simp [defines, hrc]⟩
  · intro hdefined
    obtain ⟨hfree, area, hu⟩ : nv s nvIndex = none ∧ ∃ area,
      nv u = Function.update (nv s) nvIndex (some area) := hu.done (not_not.mp hdefined)
    have hheld : nv u nvIndex = some area := by rw [hu, Function.update_self]
    rw [wp_bind, wp_returned, wp_bind]
    apply (nvWrite_written h _ hheld).mono
    intro rc v calls hwritten
    have hnone := hwritten.no_random
    obtain ⟨area', hv, hprefix⟩ := hwritten.kept
    rw [hu, Function.update_idem] at hv
    rw [Tpm2bMaxNvBuffer.bytes, Buffer.bytes_copy] at hprefix
    rw [wp_ite]
    constructor
    · intro hrc
      refine .leftBehind area' (random.randomBytes.buffer.bytes random.randomBytes.size.toNat)
        hrc hfree hv (by simpa using hnone) fun hwrites => absurd hwrites ?_
      simp [writes, hwritten.failure hrc]
    · intro hrc
      rw [wp_bind, wp_returned]
      apply (nvRelease_released h _ v).mono
      intro rc w calls' hreleased
      cases hreleased with
      | kept hrc' hsame hrandom =>
        refine .leftBehind area' (random.randomBytes.buffer.bytes random.randomBytes.size.toNat)
          hrc' hfree (hsame.trans hv) ?_ fun _ => hprefix (not_not.mp hrc)
        simp only [List.nil_append, List.filterMap_cons, random?_getRandom, random?_nvDefineSpace,
          List.filterMap_append, hnone, hrandom]
      | released hafter =>
        refine .same ?_ fun hne => absurd hfree hne
        rw [hafter, hv, Function.update_idem, ← hfree, Function.update_eq_self]

theorem efiMain_outcome {A : Arch} {T : Tss A} {τ : Type} {L : SapiLibrary T τ}
    {nv : τ → NvIndices} (h : ∀ q, KeepsNv (L.sapi q) fun st => nv st.tpm) (P : Platform T)
    (data : Tpm2bMaxNvBuffer) (st : Station T τ) :
    ∃ rc, Outcome (nv st.tpm) (nv (efiMain L P data st).val.2.tpm) rc
        (callsOf (efiMain L P data st)) ∧
      (efiMain L P data st).val.1 = if rc = 0 then efiSuccess A else efiAborted A := by
  apply initThen_elim fun status st' calls => ∃ rc, Outcome (nv st.tpm) (nv st'.tpm) rc calls ∧
    status = if rc = 0 then efiSuccess A else efiAborted A
  · intro heap
    exact ⟨1, .same rfl fun _ => ⟨by decide, rfl⟩, rfl⟩
  · intro q heap
    simp only [status_session, tpm_session, callsOf_session]
    exact ⟨_, wp_iff.mp (nvOps_outcome (h q) data { st with heap := heap }), rfl⟩

end Outcome

end TctiUefi.Sapi.NvOps
