import TctiUefi.Lib.Client
import TctiUefi.Pcr.Tool
import TctiUefi.Sapi.Balance
import TctiUefi.Tcti.Run

namespace TctiUefi.Sapi

open TctiUefi.Pcr

structure Tpm2bMaxNvBuffer where
  size : UInt16
  buffer : Buffer

def Tpm2bMaxNvBuffer.bytes (data : Tpm2bMaxNvBuffer) : List UInt8 :=
  data.buffer.bytes data.size.toNat

structure TpmsAuthCommand where
  sessionHandle : UInt32
  nonce : Tpm2bDigest
  sessionAttributes : UInt8
  hmac : Tpm2bDigest

structure TpmsNvPublic where
  nvIndex : UInt32
  nameAlg : UInt16
  attributes : UInt32
  authPolicy : Tpm2bDigest
  dataSize : UInt16

structure TpmsTaggedProperty where
  property : UInt32
  value : UInt32
  deriving DecidableEq

structure TpmlTaggedTpmProperty where
  count : UInt32
  tpmProperty : Nat → TpmsTaggedProperty

def TpmlTaggedTpmProperty.list (properties : TpmlTaggedTpmProperty) : List TpmsTaggedProperty :=
  (List.range properties.count.toNat).map properties.tpmProperty

structure TpmsCapabilityData where
  capability : UInt32
  tpmProperties : TpmlTaggedTpmProperty

/-- The functions of the SAPI that the tools call, with their arguments.  An out parameter is an
argument too, since a function may leave it as it is. -/
inductive SysCommand
  | getRandom (bytesRequested : UInt16) (randomBytes : Tpm2bDigest)
  | nvDefineSpace (authHandle : UInt32) (cmdAuths : List TpmsAuthCommand) (auth : Tpm2bDigest)
      (publicInfo : TpmsNvPublic)
  | nvWrite (authHandle nvIndex : UInt32) (cmdAuths : List TpmsAuthCommand)
      (data : Tpm2bMaxNvBuffer) (offset : UInt16)
  | nvUndefineSpace (authHandle nvIndex : UInt32) (cmdAuths : List TpmsAuthCommand)
  | getCapability (capability property propertyCount : UInt32) (moreData : UInt8)
      (capabilityData : TpmsCapabilityData)
  | pcrRead (pcrSelectionIn pcrSelectionOut : TpmlPcrSelection)

/-- What a function returns, and what it leaves in its out parameters.  Those that it does not
have are of no account. -/
structure SysReply where
  rc : UInt32
  randomBytes : Tpm2bDigest
  moreData : UInt8
  capabilityData : TpmsCapabilityData
  pcrSelectionOut : TpmlPcrSelection
  pcrValues : TpmlDigest

def SysReply.ofRc (rc : UInt32) : SysReply where
  rc := rc
  randomBytes := ⟨0, fun _ => 0⟩
  moreData := 0
  capabilityData := ⟨0, 0, fun _ => ⟨0, 0⟩⟩
  pcrSelectionOut := zeroSelection
  pcrValues := zeroDigests

abbrev SysCall := SysCommand × SysReply

section Library

variable {A : Arch} (T : Tss A) (τ : Type)

/-- What a function of the SAPI does: to its own context, to the TCTI context by way of the
calls that it makes, and to the TPM. -/
structure SapiStep where
  sysCtx : T.SysContext
  calls : List (TctiUefi.Call A)
  tpm : τ
  reply : SysReply

/-- The SAPI of the TSS, over some TPM.  A function never changes which TCTI context is used. -/
structure SapiLibrary where
  command : T.SysContext → TctiUefiContext A → τ → SysCommand → SapiStep T τ
  command_tcti : ∀ sysCtx tctiCtx tpm cmd,
    T.sysGetTctiContext (command sysCtx tctiCtx tpm cmd).sysCtx = T.sysGetTctiContext sysCtx

structure Station where
  heap : Heap T
  tpm : τ

end Library

section Sapi

variable {A : Arch} {T : Tss A} {τ : Type}

def Heap.command (heap : Heap T) (q p : SizeT A) (step : SapiStep T τ) : Heap T :=
  { heap with
    tcti := Function.update heap.tcti p ((TctiUefi.tcti A).final (heap.tcti p) step.calls)
    sys := Function.update heap.sys q step.sysCtx }

def SapiLibrary.sapi (L : SapiLibrary T τ) (q : SizeT A) :
    Machine (Station T τ) SysCommand SysReply where
  step st cmd :=
    let p := st.heap.tctiOf q
    let step := L.command (st.heap.sys q) (st.heap.tcti p) st.tpm cmd
    (⟨st.heap.command q p step, step.tpm⟩, step.reply)

abbrev Tool := Client Effect SysCommand SysReply

def efiAborted (A : Arch) : EfiStatus A := efiErr A 21

structure AtWork (q p : SizeT A) (pool : Pool (SizeT A)) (heap : Heap T) : Prop where
  remembers : T.sysGetTctiContext (heap.sys q) = (0, some p)
  finalizable : Finalizable (heap.tcti p)
  pool : heap.pool = pool

theorem Finalizable.final {c : TctiUefiContext A} (h : Finalizable c)
    (calls : List (TctiUefi.Call A)) : Finalizable ((tcti A).final c calls) := by
  have hcommon := (final_header c calls).1
  obtain ⟨hvalid, hfinalize⟩ := h
  rw [Finalizable, TctiUefiContext.Valid, hcommon]
  exact ⟨hvalid, hfinalize⟩

theorem AtWork.tctiOf {q p : SizeT A} {pool : Pool (SizeT A)} {heap : Heap T}
    (h : AtWork q p pool heap) : heap.tctiOf q = p := by
  rw [Heap.tctiOf, h.remembers, Option.getD_some]

theorem preserves_atWork (L : SapiLibrary T τ) (q p : SizeT A) (pool : Pool (SizeT A)) :
    (L.sapi q).Preserves fun st => AtWork q p pool st.heap := by
  intro st cmd h
  constructor
  · simp only [SapiLibrary.sapi, Heap.command, Function.update_self, L.command_tcti]
    exact h.remembers
  · simp only [SapiLibrary.sapi, Heap.command, h.tctiOf, Function.update_self]
    exact h.finalizable.final _
  · exact h.pool

end Sapi

section Session

variable {A : Arch} {T : Tss A} {τ : Type} {ε α : Type}

def initThen (lift : Effect → ε) (P : Platform T) (st : Station T τ) (aborted : α)
    (body : SizeT A → Station T τ → Trace (ε ⊕ SysCall) (α × Station T τ)) :
    Trace (ε ⊕ SysCall) (α × Station T τ) := do
  let setup ← ((sysUefiInit P st.heap).mapLog lift).mapLog .inl
  let st := { st with heap := setup.heap }
  if setup.rc ≠ .success then
    pure (aborted, st)
  else
    body (setup.ctx.getD 0#A.bits) st

def tearDown (sysCtx : SizeT A) (st : Station T τ) : Trace (Effect ⊕ SysCall) (Station T τ) := do
  let heap ← (sysUefiTeardownFull (some sysCtx) st.heap).mapLog .inl
  pure { st with heap := heap }

def session (L : SapiLibrary T τ) (client : Tool β) (finish : β → α) (sysCtx : SizeT A)
    (st : Station T τ) : Trace (Effect ⊕ SysCall) (α × Station T τ) := do
  let (b, st) ← client.run (L.sapi sysCtx) st
  let st ← tearDown sysCtx st
  pure (finish b, st)

variable {P : Platform T} {st : Station T τ} {p : SizeT A} {lift : Effect → ε}
  {aborted : α} {body : SizeT A → Station T τ → Trace (ε ⊕ SysCall) (α × Station T τ)}

theorem initThen_of_failure {rc : SysRc} {heap : Heap T} (hrc : rc ≠ .success)
    (h : (sysUefiInit P st.heap).val = ⟨rc, none, heap⟩) :
    (initThen lift P st aborted body).val = (aborted, { st with heap := heap }) ∧
      Client.callsOf (initThen lift P st aborted body) = [] := by
  simp [initThen, h, hrc]

theorem initThen_of_success {q : SizeT A} {heap : Heap T}
    (h : (sysUefiInit P st.heap).val = ⟨.success, some q, heap⟩) :
    (initThen lift P st aborted body).val = (body q { st with heap := heap }).val ∧
      Client.callsOf (initThen lift P st aborted body) =
        Client.callsOf (body q { st with heap := heap }) := by
  simp [initThen, h]

theorem initThen_of_early (h : P.tctiBlock st.heap = none) :
    (initThen lift P st aborted body).val = (aborted, st) ∧
      Client.callsOf (initThen lift P st aborted body) = [] := by
  obtain ⟨rc, hrc, hval⟩ := sysUefiInit_of_early_failure h
  exact initThen_of_failure hrc hval

theorem initThen_of_late (hp : P.tctiBlock st.heap = some p)
    (hq : P.sysBlock (some p) (st.heap.openTcti p P.tctiSize) = none) :
    ∃ sys, (initThen lift P st aborted body).val = (aborted,
        { st with heap := { st.heap.openTcti p P.tctiSize with sys := sys } }) ∧
      Client.callsOf (initThen lift P st aborted body) = [] := by
  obtain ⟨rc, sys, hrc, -, hval⟩ := sysUefiInitFromTctiCtx_of_none hq
  rw [← sysUefiInit_of_tcti hp] at hval
  exact ⟨sys, initThen_of_failure hrc hval⟩

theorem initThen_of_ready {q : SizeT A} (hp : P.tctiBlock st.heap = some p)
    (hq : P.sysBlock (some p) (st.heap.openTcti p P.tctiSize) = some q) :
    q ∉ (st.heap.pool.take p).live ∧ ∃ heap : Heap T,
      AtWork q p ((st.heap.pool.take p).take q) heap ∧
        (initThen lift P st aborted body).val = (body q { st with heap := heap }).val ∧
          Client.callsOf (initThen lift P st aborted body) =
            Client.callsOf (body q { st with heap := heap }) := by
  obtain ⟨hfresh, reply, hreply, hval⟩ := sysUefiInitFromTctiCtx_of_some hq
  rw [← sysUefiInit_of_tcti hp] at hval
  refine ⟨hfresh, { st.heap.openTcti p P.tctiSize with
    pool := (st.heap.pool.take p).take q
    sys := Function.update st.heap.sys q reply }, ?_, initThen_of_success hval⟩
  constructor
  · simpa using hreply
  · simp [Heap.openTcti, finalizable_opened]
  · rfl

theorem initThen_elim (Q : α → Station T τ → List SysCall → Prop)
    (haborted : ∀ heap, Q aborted { st with heap := heap } [])
    (hbody : ∀ q heap, Q (body q { st with heap := heap }).val.1
      (body q { st with heap := heap }).val.2 (Client.callsOf (body q { st with heap := heap }))) :
    Q (initThen lift P st aborted body).val.1 (initThen lift P st aborted body).val.2
      (Client.callsOf (initThen lift P st aborted body)) := by
  rcases hsetup : sysUefiInit P st.heap with ⟨⟨rc, ctx, heap⟩, log⟩
  by_cases hrc : rc = .success
  · simpa [initThen, hsetup, hrc] using hbody (ctx.getD 0#A.bits) heap
  · simpa [initThen, hsetup, hrc] using haborted heap

theorem pool_session {L : SapiLibrary T τ} {client : Tool β} {finish : β → α} {q : SizeT A}
    {pool : Pool (SizeT A)} (h : AtWork q p pool st.heap) :
    (session L client finish q st).val.2.heap.pool = (pool.free q).free p := by
  have hfinal : AtWork q p pool (client.final (L.sapi q) st).heap :=
    Client.final_of_preserves (preserves_atWork L q p pool) client h
  change (sysUefiTeardownFull (some q) (client.final (L.sapi q) st).heap).val.pool = _
  rw [sysUefiTeardownFull_of_tcti hfinal.remembers hfinal.finalizable, hfinal.pool]

theorem status_session (L : SapiLibrary T τ) (client : Tool β) (finish : β → α) (q : SizeT A)
    (st : Station T τ) :
    (session L client finish q st).val.1 = finish (client.result (L.sapi q) st) := rfl

theorem tpm_session (L : SapiLibrary T τ) (client : Tool β) (finish : β → α) (q : SizeT A)
    (st : Station T τ) :
    (session L client finish q st).val.2.tpm = (client.final (L.sapi q) st).tpm := rfl

theorem callsOf_session (L : SapiLibrary T τ) (client : Tool β) (finish : β → α) (q : SizeT A)
    (st : Station T τ) :
    Client.callsOf (session L client finish q st) = client.calls (L.sapi q) st := by
  simp [session, tearDown]

end Session

end TctiUefi.Sapi
