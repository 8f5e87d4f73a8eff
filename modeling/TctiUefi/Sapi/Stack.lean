import TctiUefi.Sapi.Tools
import TctiUefi.Tcti.Channel

namespace TctiUefi.Sapi

open Client

section Transceive

variable {A : Arch} {τ : Type}

def transceive (room : SizeT A) (cmd : List UInt8) :
    Client Empty (Request A) (Event A) (Option (List UInt8)) := do
  let sent ← .call (.transmit .given (BitVec.ofNat _ cmd.length) (some (message cmd)))
  if sent.2.rc = some .success then
    let got ← .call (.receive .given (some room) (some fun _ => 0) tctiTimeoutBlock)
    if got.2.rc = some .success then
      pure (got.2.response.map fun out => out.bytes (sizeField out))
    else
      pure none
  else
    pure none

theorem submissions_transmit (c : TctiUefiContext A) (n : SizeT A) (command : Buffer) :
    (tctiUefiTransmit (some c) n (some command)).log.filterMap Effect.submission? = [] := by
  rcases tctiUefiTransmit_cases (some c) n (some command) with ⟨c', cmd, hc, _, h⟩ | ⟨_, _, h⟩
  · obtain rfl := Option.some.inj hc
    rw [tctiUefiTransmit_of_accepts h]
    rfl
  · exact h.submissions

theorem receive_context (c : TctiUefiContext A) (n : SizeT A) (buf : Buffer) (timeout : Int32)
    (fw : Firmware A) :
    ∃ c', (tctiUefiReceive (some c) (some n) (some buf) timeout fw).val.context = some c' := by
  rcases tctiUefiReceive_cases (some c) (some n) (some buf) timeout fw with
    ⟨c', n', hc, _, h, hbuf | ⟨buf', p, _, hp⟩⟩ | ⟨rc, _, heq⟩
  · cases hbuf
  · obtain rfl := Option.some.inj hc
    by_cases hs : (p.submit (c.submitCall n) buf).1 = efiSuccess A
    · rw [tctiUefiReceive_answered h hp n buf hs]
      exact ⟨_, rfl⟩
    · obtain ⟨rc, tail, _, _, heq⟩ := tctiUefiReceive_unanswered h hp n buf hs
      rw [heq]
      exact ⟨_, rfl⟩
  · rw [heq]
    exact ⟨_, rfl⟩

variable (dev : Device A τ)

theorem alone_transmit (c : TctiUefiContext A) (t : τ) (n : SizeT A) (command : Buffer) :
    let sent := tctiUefiTransmit (some c) n (some command)
    dev.sharing.alone.step (c, t) (.transmit .given n (some command)) =
      ((sent.val.2.getD c, t),
        (.transmit .given n (some command), ⟨some sent.val.1, none, none, sent.log⟩)) := by
  have hsubmissions := submissions_transmit c n command
  simp [Sharing.alone, Device.sharing, Request.call, Call.exec, ContextArg.resolve, submissions,
    hsubmissions]

theorem alone_receive (c : TctiUefiContext A) (t : τ) (n : SizeT A) (buf : Buffer)
    (timeout : Int32) :
    let got := tctiUefiReceive (some c) (some n) (some buf) timeout (dev.firmware t)
    dev.sharing.alone.step (c, t) (.receive .given (some n) (some buf) timeout) =
      ((got.val.context.getD c, (got.log.filterMap Effect.submission?).foldl dev.after t),
        (.receive .given (some n) (some buf) timeout (dev.firmware t),
          ⟨some got.val.rc, got.val.size, got.val.response, got.log⟩)) := by
  simp [Sharing.alone, Device.sharing, Request.call, Call.exec, ContextArg.resolve, submissions]

theorem served_transceive (room : SizeT A) :
    served (transceive room) dev.sharing.alone = dev.channel room := by
  rw [served, Device.channel]
  congr 1
  funext s cmd
  obtain ⟨c, t⟩ := s
  have hrun : ((transceive room cmd).run dev.sharing.alone (c, t)).val =
      ((dev.exchange room (c, t) cmd).2, (dev.exchange room (c, t) cmd).1) := by
    simp only [transceive, run_bind, Trace.val_bind, val_run_call, alone_transmit,
      Option.some.injEq, Device.exchange]
    rcases tctiUefiTransmit_cases (some c) (BitVec.ofNat _ cmd.length) (some (message cmd)) with
      ⟨c', _, hc', _, haccepts⟩ | ⟨hrc, _, _⟩
    · obtain rfl := Option.some.inj hc'
      rw [tctiUefiTransmit_of_accepts haccepts]
      obtain ⟨c', hc'⟩ := receive_context
        (c.store (message cmd) (BitVec.ofNat A.bits cmd.length).toNat) room (fun _ => 0)
        tctiTimeoutBlock (dev.firmware t)
      simp only [if_true, Option.getD_some, run_bind, Trace.val_bind, val_run_call, alone_receive,
        Option.some.injEq, hc']
      split
      · rfl
      · rfl
    · simp only [hrc, if_false]
      rfl
  exact Prod.ext (congrArg Prod.snd hrun) (congrArg Prod.fst hrun)

end Transceive

section Library

variable {A : Arch} {T : Tss A} {τ : Type}

/-- The functions of the SAPI as programs that send commands to the TPM, each of them with its
own length in its header.  What a function leaves in its context does not change which TCTI
context is used. -/
structure SapiCode (T : Tss A) where
  function : (sysCtx : T.SysContext) → SysCommand →
    Client Empty (List UInt8) (Option (List UInt8))
      (SysReply × { s : T.SysContext // T.sysGetTctiContext s = T.sysGetTctiContext sysCtx })
  framed : ∀ sysCtx cmd, (function sysCtx cmd).Asks fun bytes =>
    bytes.length < 2 ^ A.bits ∧ sizeField (message bytes) = bytes.length

def SapiCode.overTcti (code : SapiCode T) (dev : Device A τ) (room : SizeT A) :
    SapiLibrary T τ where
  command sysCtx tctiCtx tpm cmd :=
    let r := ((code.function sysCtx cmd).through (transceive room)).run dev.sharing.alone
      (tctiCtx, tpm)
    ⟨r.val.1.2, (callsOf r).map fun e => e.2.1, r.val.2.2, r.val.1.1⟩
  command_tcti sysCtx tctiCtx tpm cmd :=
    (((code.function sysCtx cmd).through (transceive room)).run dev.sharing.alone
      (tctiCtx, tpm)).val.1.2.property

/-- The functions right at the TPM, which get from the TCTI context only its capacity. -/
def SapiCode.atTpm (code : SapiCode T) (tpm : Tpm τ) : SapiLibrary T τ where
  command sysCtx tctiCtx t cmd :=
    let r := (code.function sysCtx cmd).run (attached tpm tctiCtx.size.toNat) t
    ⟨r.val.1.2, [], r.val.2, r.val.1.1⟩
  command_tcti sysCtx tctiCtx t cmd :=
    ((code.function sysCtx cmd).run (attached tpm tctiCtx.size.toNat) t).val.1.2.property

structure SameHeader (c c' : TctiUefiContext A) : Prop where
  common : c.common = c'.common
  state : c.state = c'.state
  size : c.size = c'.size

structure Heap.Alike (heap heap' : Heap T) : Prop where
  pool : heap.pool = heap'.pool
  opened : heap.opened = heap'.opened
  sys : heap.sys = heap'.sys
  tcti : ∀ p, SameHeader (heap.tcti p) (heap'.tcti p)

structure Station.Alike (st st' : Station T τ) : Prop where
  tpm : st.tpm = st'.tpm
  heap : st.heap.Alike st'.heap

/-- The TCTI context of the SAPI context at `q` is ready for a command, and its buffer is no longer
than the commands that the driver takes. -/
def Heap.Ready (heap : Heap T) (maxCommandSize : UInt16) (q : SizeT A) : Prop :=
  (heap.tcti (heap.tctiOf q)).size.toNat ≤ maxCommandSize.toNat ∧
    IdleContext (heap.tcti (heap.tctiOf q)).size.toNat (heap.tcti (heap.tctiOf q))

theorem SameHeader.update {tcti tcti' : SizeT A → TctiUefiContext A} {p : SizeT A}
    {c c' : TctiUefiContext A} (h : ∀ p, SameHeader (tcti p) (tcti' p)) (hc : SameHeader c c') :
    ∀ p', SameHeader (Function.update tcti p c p') (Function.update tcti' p c' p') := by
  intro p'
  by_cases hp : p' = p
  · subst hp
    rw [Function.update_self, Function.update_self]
    exact hc
  · rw [Function.update_of_ne hp, Function.update_of_ne hp]
    exact h p'

theorem Station.Alike.refl (st : Station T τ) : st.Alike st :=
  ⟨rfl, rfl, rfl, rfl, fun _ => ⟨rfl, rfl, rfl⟩⟩

variable {dev : Device A τ} {tpm : Tpm τ} {room : SizeT A}
  {maxCommandSize maxResponseSize : UInt16}

theorem final_calls {ε α : Type} (dev : Device A τ) (client : Client ε (Request A) (Event A) α)
    (s : TctiUefiContext A × τ) :
    (tcti A).final s.1 ((client.calls dev.sharing.alone s).map fun e => e.2.1) =
      (client.final dev.sharing.alone s).1 :=
  final_of_part Prod.fst (fun _ _ => rfl) client s

theorem command_overTcti (code : SapiCode T)
    (hdev : Drives dev tpm maxCommandSize maxResponseSize) (hresponds : Responds tpm room.toNat)
    (hroom : room.toNat ≤ maxResponseSize.toNat) {c c' : TctiUefiContext A}
    (hsize : c.size = c'.size) (hcap : c.size.toNat ≤ maxCommandSize.toNat)
    (hidle : IdleContext c.size.toNat c) (sysCtx : T.SysContext) (t : τ) (cmd : SysCommand) :
    let x := (code.overTcti dev room).command sysCtx c t cmd
    let y := (code.atTpm tpm).command sysCtx c' t cmd
    x.reply = y.reply ∧ x.sysCtx = y.sysCtx ∧ x.tpm = y.tpm ∧
      IdleContext c.size.toNat ((tcti A).final c x.calls) := by
  have hrun := val_run_through (transceive room) dev.sharing.alone (code.function sysCtx cmd) (c, t)
  rw [served_transceive] at hrun
  obtain ⟨hresult, _, htpm, hfinal⟩ := Client.run_of_related
    (channel_step hdev hresponds hroom hcap) (code.framed sysCtx cmd) (s := (c, t)) ⟨rfl, hidle⟩
  have hcalls := final_calls dev ((code.function sysCtx cmd).through (transceive room))
    (c, t)
  simp only [Client.result, Client.final] at hresult htpm hfinal hcalls
  rw [hrun] at hcalls
  rw [← hcalls] at hfinal
  simp only [SapiCode.overTcti, SapiCode.atTpm, hrun, hresult, htpm, ← hsize, true_and]
  exact hfinal

theorem sapi_overTcti (code : SapiCode T) (hdev : Drives dev tpm maxCommandSize maxResponseSize)
    (hresponds : Responds tpm room.toNat) (hroom : room.toNat ≤ maxResponseSize.toNat) (q : SizeT A)
    (st st' : Station T τ) (cmd : SysCommand)
    (h : st.Alike st' ∧ st.heap.Ready maxCommandSize q) :
    let x := ((code.overTcti dev room).sapi q).step st cmd
    let y := ((code.atTpm tpm).sapi q).step st' cmd
    x.2 = y.2 ∧ x.1.Alike y.1 ∧ x.1.heap.Ready maxCommandSize q := by
  obtain ⟨⟨htpm, hpool, hopened, hsys, htcti⟩, hcap, hidle⟩ := h
  have htctiOf : st'.heap.tctiOf q = st.heap.tctiOf q := by rw [Heap.tctiOf, Heap.tctiOf, hsys]
  obtain ⟨hreply, hsysCtx, htpm', hidle'⟩ := command_overTcti code hdev hresponds hroom
    (htcti (st.heap.tctiOf q)).size hcap hidle (st.heap.sys q) st.tpm cmd
  have hkept := final_header (st.heap.tcti (st.heap.tctiOf q))
    ((code.overTcti dev room).command (st.heap.sys q) (st.heap.tcti (st.heap.tctiOf q)) st.tpm
      cmd).calls
  have htcti' : (((code.overTcti dev room).sapi q).step st cmd).1.heap.tctiOf q =
      st.heap.tctiOf q := by
    simp only [SapiLibrary.sapi, Heap.command, Heap.tctiOf, Function.update_self,
      (code.overTcti dev room).command_tcti]
  refine ⟨?_, ?_, ?_⟩
  · simp only [SapiLibrary.sapi, htctiOf, ← hsys, ← htpm]
    exact hreply
  · refine ⟨?_, ?_⟩
    · simp only [SapiLibrary.sapi, htctiOf, ← hsys, ← htpm]
      exact htpm'
    constructor
    · exact hpool
    · exact hopened
    · simp only [SapiLibrary.sapi, Heap.command, htctiOf, ← hsys, ← htpm, hsysCtx]
    · simp only [SapiLibrary.sapi, Heap.command, htctiOf, ← hsys, ← htpm]
      obtain ⟨hcommon, hstate, hsize⟩ := htcti (st.heap.tctiOf q)
      exact SameHeader.update htcti ⟨hkept.1.trans hcommon,
        hidle'.state.trans (hidle.state.symm.trans hstate), hkept.2.trans hsize⟩
  · rw [Heap.Ready, htcti']
    simp only [SapiLibrary.sapi, Heap.command, Function.update_self, hkept.2]
    exact ⟨hcap, hidle'⟩

end Library

section Setup

variable {A : Arch} {T : Tss A} {τ : Type} {heap heap' : Heap T}

structure SameSetup {ρ : Type} (r r' : SetupResult T ρ) : Prop where
  rc : r.rc = r'.rc
  ctx : r.ctx = r'.ctx
  heap : r.heap.Alike r'.heap

open Trace

theorem tctiUefiInit_alike (P : Platform T) (h : heap.Alike heap') :
    Related SameSetup (tctiUefiInit P heap) (tctiUefiInit P heap') := by
  obtain ⟨hpool, hopened, hsys, htcti⟩ := h
  simp only [tctiUefiInit, ← hpool]
  apply Related.bind (Related.refl (R := Eq) rfl)
  intro _
  split
  · exact Related.pure ⟨rfl, rfl, hpool, hopened, hsys, htcti⟩
  · cases P.pool.allocate heap.pool.live
        ((tss2TctiUefiInit none (some P.size) none P.query).val.size.getD P.size) with
    | none =>
      apply Related.bind (Related.refl (R := Eq) rfl)
      exact fun _ => Related.pure ⟨rfl, rfl, hpool, hopened, hsys, htcti⟩
    | some p =>
      simp only [tss2TctiUefiInit_block]
      refine ⟨rfl, rfl, rfl, rfl, congrArg (insert p) hopened, hsys, ?_⟩
      exact SameHeader.update htcti ⟨rfl, rfl, rfl⟩

theorem sysUefiInitFromTctiCtx_alike (P : Platform T) (tctiCtx : Option (SizeT A))
    (h : heap.Alike heap') :
    Related SameSetup (sysUefiInitFromTctiCtx P tctiCtx heap)
      (sysUefiInitFromTctiCtx P tctiCtx heap') := by
  obtain ⟨hpool, hopened, hsys, htcti⟩ := h
  simp only [sysUefiInitFromTctiCtx, ← hpool, ← hsys]
  cases P.pool.allocate heap.pool.live (T.sysGetContextSize 0#A.bits) with
  | none =>
    apply Related.bind (Related.refl (R := Eq) rfl)
    exact fun _ => Related.pure ⟨rfl, rfl, hpool, hopened, hsys, htcti⟩
  | some q =>
    dsimp only
    split
    · apply Related.bind (Related.refl (R := Eq) rfl)
      exact fun _ => Related.pure ⟨rfl, rfl, rfl, hopened, rfl, htcti⟩
    · exact Related.pure ⟨rfl, rfl, rfl, hopened, rfl, htcti⟩

theorem sysUefiInit_alike (P : Platform T) (h : heap.Alike heap') :
    Related SameSetup (sysUefiInit P heap) (sysUefiInit P heap') := by
  apply Related.bind (tctiUefiInit_alike P h)
  rintro ⟨hrc, hctx, hheap⟩
  rw [← hrc, ← hctx]
  split
  · exact Related.pure ⟨rfl, rfl, hheap⟩
  · exact sysUefiInitFromTctiCtx_alike P _ hheap

def Platform.Within (P : Platform T) (maxCommandSize : UInt16) : Prop :=
  P.tctiSize.toNat ≤ sizeofContext A + maxCommandSize.toNat

instance (P : Platform T) (maxCommandSize : UInt16) : Decidable (P.Within maxCommandSize) :=
  inferInstanceAs (Decidable (_ ≤ _))

theorem idle_opened {P : Platform T} {maxCommandSize : UInt16} (hP : P.Within maxCommandSize)
    (h : P.tctiSize ≠ 0#A.bits) (c : TctiUefiContext A) :
    (c.opened P.tctiSize).size.toNat ≤ maxCommandSize.toNat ∧
      IdleContext (c.opened P.tctiSize).size.toNat (c.opened P.tctiSize) := by
  refine ⟨?_, opened_valid _ _, rfl, rfl⟩
  rcases sizeofTctiUefiContext_cases P.query with hzero | ⟨maxBuf, _, hsize⟩
  · exact absurd hzero h
  · have hle : sizeofContext A ≤ P.tctiSize.toNat := by
      rw [Platform.tctiSize, hsize]
      exact Nat.le_add_left _ _
    rw [opened_size_of_le hle]
    exact Nat.sub_le_iff_le_add'.mpr hP

theorem ready_of_sysUefiInit {P : Platform T} {maxCommandSize : UInt16}
    (hP : P.Within maxCommandSize) (h : (sysUefiInit P heap).val.rc = .success) :
    (sysUefiInit P heap).val.heap.Ready maxCommandSize
      ((sysUefiInit P heap).val.ctx.getD 0#A.bits) := by
  cases hp : P.tctiBlock heap with
  | none =>
    obtain ⟨rc, hrc, hval⟩ := sysUefiInit_of_early_failure hp
    rw [hval] at h
    exact absurd h hrc
  | some p =>
    have hsize : P.tctiSize ≠ 0#A.bits := by
      rintro hzero
      simp [Platform.tctiBlock, hzero] at hp
    rw [sysUefiInit_of_tcti hp] at h ⊢
    cases hq : P.sysBlock (some p) (heap.openTcti p P.tctiSize) with
    | none =>
      obtain ⟨rc, sys, hrc, _, hval⟩ := sysUefiInitFromTctiCtx_of_none hq
      rw [hval] at h
      exact absurd h hrc
    | some q =>
      obtain ⟨_, sysCtx, hsysCtx, hval⟩ := sysUefiInitFromTctiCtx_of_some hq
      rw [hval]
      simp only [Heap.Ready, Heap.tctiOf, Option.getD_some, Function.update_self, hsysCtx,
        Heap.openTcti]
      exact idle_opened hP hsize _

theorem tctiFinalize_alike (p : SizeT A) (h : heap.Alike heap') :
    Related Heap.Alike (tctiFinalize p heap) (tctiFinalize p heap') := by
  obtain ⟨hpool, hopened, hsys, htcti⟩ := h
  obtain ⟨hcommon, hstate, hsize⟩ := htcti p
  simp only [tctiFinalize, ← hcommon]
  split
  · by_cases hvalid : (heap.tcti p).Valid
    · have hvalid' : (heap'.tcti p).Valid := by rwa [TctiUefiContext.Valid, ← hcommon]
      rw [tctiUefiFinalize_of_valid hvalid, tctiUefiFinalize_of_valid hvalid']
      refine ⟨rfl, hpool, ?_, hsys, SameHeader.update htcti ⟨hcommon, rfl, hsize⟩⟩
      exact congrArg (Finset.erase · p) hopened
    · have hvalid' : ¬(heap'.tcti p).Valid := by rwa [TctiUefiContext.Valid, ← hcommon]
      simp only [tctiUefiFinalize, tctiUefiContextCast_of_not_valid hvalid,
        tctiUefiContextCast_of_not_valid hvalid']
      refine ⟨rfl, hpool, ?_, hsys, SameHeader.update htcti ⟨hcommon, hstate, hsize⟩⟩
      simp only [Trace.val_bind, Trace.val_pure, Option.getD_some, hstate, hopened]
  · exact Related.pure ⟨hpool, hopened, hsys, htcti⟩

theorem tctiUefiTeardown_alike (tctiCtx : Option (SizeT A)) (h : heap.Alike heap') :
    Related Heap.Alike (tctiUefiTeardown tctiCtx heap) (tctiUefiTeardown tctiCtx heap') := by
  cases tctiCtx with
  | none => exact Related.pure h
  | some p =>
    apply Related.bind (tctiFinalize_alike p h)
    rintro ⟨hpool, hopened, hsys, htcti⟩
    exact Related.pure ⟨congrArg (Pool.free · p) hpool, hopened, hsys, htcti⟩

theorem sysUefiTeardown_alike (q : SizeT A) (h : heap.Alike heap') :
    (sysUefiTeardown (some q) heap).Alike (sysUefiTeardown (some q) heap') := by
  obtain ⟨hpool, hopened, hsys, htcti⟩ := h
  constructor
  · exact congrArg (Pool.free · q) hpool
  · exact hopened
  · simp only [sysUefiTeardown, hsys]
  · exact htcti

theorem sysUefiTeardownFull_alike (q : SizeT A) (h : heap.Alike heap') :
    Related Heap.Alike (sysUefiTeardownFull (some q) heap)
      (sysUefiTeardownFull (some q) heap') := by
  simp only [sysUefiTeardownFull, ← h.sys]
  split
  · apply Related.bind (Related.refl (R := Eq) rfl)
    exact fun _ => Related.pure h
  · exact tctiUefiTeardown_alike _ (sysUefiTeardown_alike q h)

theorem tearDown_alike (q : SizeT A) {st st' : Station T τ} (h : st.Alike st') :
    Related Station.Alike (tearDown q st) (tearDown q st') := by
  unfold tearDown
  apply Related.bind ((sysUefiTeardownFull_alike q h.heap).mapLog _)
  exact fun hheap => Related.pure ⟨h.tpm, hheap⟩

end Setup

section Tools

variable {A : Arch} {T : Tss A} {τ ε α : Type} {st st' : Station T τ} {code : SapiCode T}
  {dev : Device A τ} {tpm : Tpm τ} {room : SizeT A} {maxCommandSize maxResponseSize : UInt16}

open Trace

def SameOutcome (r r' : α × Station T τ) : Prop := r.1 = r'.1 ∧ r.2.Alike r'.2

theorem initThen_alike {P : Platform T} (hP : P.Within maxCommandSize) (lift : Effect → ε)
    (aborted : α)
    {body body' : SizeT A → Station T τ → Trace (ε ⊕ SysCall) (α × Station T τ)}
    (hbody : ∀ q st st', st.Alike st' → st.heap.Ready maxCommandSize q →
      Related SameOutcome (body q st) (body' q st')) (h : st.Alike st') :
    Related SameOutcome (initThen lift P st aborted body) (initThen lift P st' aborted body') := by
  unfold initThen
  apply Related.bind (((sysUefiInit_alike P h.heap).mapLog _).mapLog _)
  rintro ⟨hrc, hctx, hheap⟩
  simp only [val_mapLog] at hrc hctx hheap
  have hst : Station.Alike ⟨(sysUefiInit P st.heap).val.heap, st.tpm⟩
    ⟨(sysUefiInit P st'.heap).val.heap, st'.tpm⟩ := ⟨h.tpm, hheap⟩
  by_cases hsuccess : (sysUefiInit P st.heap).val.rc = .success
  · have hsuccess' := hrc.symm.trans hsuccess
    simp only [val_mapLog, hsuccess, hsuccess', ← hctx, ne_eq, not_true_eq_false, if_false]
    exact hbody _ _ _ hst (ready_of_sysUefiInit hP hsuccess)
  · have hfailure := hrc ▸ hsuccess
    simp only [val_mapLog, hsuccess, hfailure, ne_eq, not_false_eq_true, if_true]
    exact Related.pure ⟨rfl, hst⟩

theorem run_alike (hdev : Drives dev tpm maxCommandSize maxResponseSize)
    (hresponds : Responds tpm room.toNat) (hroom : room.toNat ≤ maxResponseSize.toNat)
    (client : Client ε SysCommand SysReply α) {q : SizeT A} (h : st.Alike st')
    (hready : st.heap.Ready maxCommandSize q) :
    Related SameOutcome (client.run ((code.overTcti dev room).sapi q) st)
      (client.run ((code.atTpm tpm).sapi q) st') := by
  obtain ⟨hresult, hlog, hfinal, _⟩ := Client.run_of_related
    (fun s t cmd _ => sapi_overTcti code hdev hresponds hroom q s t cmd)
    (asks_true client) ⟨h, hready⟩
  exact ⟨hlog, hresult, hfinal⟩

theorem session_alike (hdev : Drives dev tpm maxCommandSize maxResponseSize)
    (hresponds : Responds tpm room.toNat) (hroom : room.toNat ≤ maxResponseSize.toNat)
    (client : Tool β) (finish : β → α) {q : SizeT A} (h : st.Alike st')
    (hready : st.heap.Ready maxCommandSize q) :
    Related SameOutcome (session (code.overTcti dev room) client finish q st)
      (session (code.atTpm tpm) client finish q st') := by
  unfold session
  apply Related.bind (run_alike hdev hresponds hroom client h hready)
  rintro ⟨hresult, hst⟩
  apply Related.bind (tearDown_alike q hst)
  exact fun hst => Related.pure ⟨congrArg finish hresult, hst⟩

theorem readPcrs_alike (hdev : Drives dev tpm maxCommandSize maxResponseSize)
    (hresponds : Responds tpm room.toNat) (hroom : room.toNat ≤ maxResponseSize.toNat)
    (activeBanks : UInt32) (fuel : Nat) {q : SizeT A} (h : st.Alike st')
    (hready : st.heap.Ready maxCommandSize q) :
    Related SameOutcome (GetPcrs.readPcrs (code.overTcti dev room) activeBanks fuel q st)
      (GetPcrs.readPcrs (code.atTpm tpm) activeBanks fuel q st') := by
  unfold GetPcrs.readPcrs
  apply Related.bind ((run_alike hdev hresponds hroom _ h hready).mapLog _)
  rintro ⟨hresult, hst⟩
  exact Related.pure ⟨congrArg (Option.map _) hresult, hst⟩

def ToolCall.efiMain (L : SapiLibrary T τ) (st : Station T τ) : ToolCall T →
    Trace ((Effect ⊕ Pcr.PcrEffect) ⊕ SysCall) (Option (EfiStatus A) × Station T τ)
  | .nvOps P data =>
    (NvOps.efiMain L P data st).mapLog (Sum.map .inl id) >>= fun r => pure (some r.1, r.2)
  | .capsFixed P hundredth =>
    (CapsFixed.efiMain hundredth L P st).mapLog (Sum.map .inl id) >>= fun r =>
      pure (some r.1, r.2)
  | .getPcrs P fw fuel => GetPcrs.efiMain L P fw fuel st

theorem efiMain_alike (code : SapiCode T) (hdev : Drives dev tpm maxCommandSize maxResponseSize)
    (hresponds : Responds tpm room.toNat) (hroom : room.toNat ≤ maxResponseSize.toNat)
    {tool : ToolCall T} (htool : tool.platform.Within maxCommandSize) (h : st.Alike st') :
    Related SameOutcome (tool.efiMain (code.overTcti dev room) st)
      (tool.efiMain (code.atTpm tpm) st') := by
  cases tool with
  | nvOps P data =>
    have hrun : Related SameOutcome (NvOps.efiMain (code.overTcti dev room) P data st)
        (NvOps.efiMain (code.atTpm tpm) P data st') := by
      refine initThen_alike htool id _ ?_ h
      exact fun q _ _ hst hready => session_alike hdev hresponds hroom _ _ hst hready
    apply Related.bind (hrun.mapLog _)
    exact fun hr => Related.pure ⟨congrArg some hr.1, hr.2⟩
  | capsFixed P hundredth =>
    have hrun : Related SameOutcome (CapsFixed.efiMain hundredth (code.overTcti dev room) P st)
        (CapsFixed.efiMain hundredth (code.atTpm tpm) P st') := by
      refine initThen_alike htool id _ ?_ h
      exact fun q _ _ hst hready => session_alike hdev hresponds hroom _ _ hst hready
    apply Related.bind (hrun.mapLog _)
    exact fun hr => Related.pure ⟨congrArg some hr.1, hr.2⟩
  | getPcrs P fw fuel =>
    simp only [ToolCall.efiMain, GetPcrs.efiMain]
    split
    · exact Related.pure ⟨rfl, h⟩
    · apply Related.bind (Related.refl (R := Eq) rfl)
      intro _
      split
      · exact Related.pure ⟨rfl, h⟩
      · refine initThen_alike htool _ _ ?_ h
        exact fun q _ _ hst hready => readPcrs_alike hdev hresponds hroom _ fuel hst hready

def shell (L : SapiLibrary T τ) : Machine (Station T τ) (ToolCall T)
    (Option (EfiStatus A) × List ((Effect ⊕ Pcr.PcrEffect) ⊕ SysCall)) where
  step st tool :=
    let x := tool.efiMain L st
    (x.val.2, (x.val.1, x.log))

end Tools

section Reference

def referenceCode : SapiCode (referenceTss .x86_64) where
  function sysCtx _ := .ask [0x80, 0x01, 0x00, 0x00, 0x00, 0x0c, 0x00, 0x00, 0x01, 0x7b, 0x00, 0x20]
    fun response => .done (match response with
      | none => .ofRc 0x80005
      | some bytes => .ofRc (bytes.getD 9 0).toUInt32, ⟨sysCtx, rfl⟩)
  framed _ _ := ⟨⟨by decide, rfl⟩, fun _ => trivial⟩

def countingStation : Station (referenceTss .x86_64) Nat := ⟨referenceStart.heap, 0⟩

def countingRuns : List (ToolCall (referenceTss .x86_64)) :=
  [nvOpsWithRoom [4096, 8192], nvOpsWithRoom [4096], nvOpsWithRoom [4096, 8192, 12288]]

end Reference

end TctiUefi.Sapi
