import TctiUefi.Pcr.Asked
import TctiUefi.Sapi.Station

namespace TctiUefi.Sapi.GetPcrs

open TctiUefi.Pcr Client

abbrev PcrTool := Client PcrEffect SysCommand SysReply

def SysReply.pcrs (reply : SysReply) : PcrReply :=
  ⟨reply.rc, reply.pcrSelectionOut, reply.pcrValues⟩

def readRound (s : RoundState) : PcrTool (RoundState ⊕ Nat) := do
  let reply ← .call (.pcrRead s.cbdata.pcrSelect s.pcrSelectOut)
  .ofTrace (Pcr.readRound (fun _ _ _ => SysReply.pcrs reply) s)

def readRounds : Nat → RoundState → PcrTool (Option Nat)
  | 0, _ => pure none
  | n + 1, s => do
    match ← readRound s with
    | .inl s' => readRounds n s'
    | .inr r => pure (some r)

def prettyprintPcrsAll (activeBanks : UInt32) (fuel : Nat) : PcrTool (Option Nat) :=
  readRounds fuel (startState activeBanks)

section Main

variable {A : Arch} {T : Tss A} {τ : Type}

/-- What the tool does with the SAPI.  The status is `none` if the fuel is used up, and there is
no teardown. -/
def readPcrs (L : SapiLibrary T τ) (activeBanks : UInt32) (fuel : Nat) (sysCtx : SizeT A)
    (st : Station T τ) :
    Trace ((Effect ⊕ PcrEffect) ⊕ SysCall) (Option (EfiStatus A) × Station T τ) := do
  let (r, st) ← ((prettyprintPcrsAll activeBanks fuel).run (L.sapi sysCtx) st).mapLog
    (Sum.map .inr id)
  pure (r.map fun n => BitVec.ofNat _ n, st)

def efiMain (L : SapiLibrary T τ) (P : Platform T) (fw : Firmware A) (fuel : Nat)
    (st : Station T τ) :
    Trace ((Effect ⊕ PcrEffect) ⊕ SysCall) (Option (EfiStatus A) × Station T τ) :=
  match tcg2GetProtocol fw with
  | (status, none) => pure (some status, st)
  | (_, some tcg2Protocol) => do
    let reply ← ((tcg2GetActivePcrBanks tcg2Protocol 0).mapLog .inl).mapLog .inl
    if efiError reply.1 then
      pure (some reply.1, st)
    else
      initThen .inl P st (some (efiAborted A)) (readPcrs L reply.2 fuel)

@[simp] theorem callsOf_readPcrs (L : SapiLibrary T τ) (activeBanks : UInt32) (fuel : Nat)
    (q : SizeT A) (st : Station T τ) : callsOf (readPcrs L activeBanks fuel q st) =
      (prettyprintPcrsAll activeBanks fuel).calls (L.sapi q) st := by
  simp [readPcrs]

theorem final_readPcrs (L : SapiLibrary T τ) (activeBanks : UInt32) (fuel : Nat) (q : SizeT A)
    (st : Station T τ) : (readPcrs L activeBanks fuel q st).val.2 =
      (prettyprintPcrsAll activeBanks fuel).final (L.sapi q) st := rfl

/-- The banks that the tool reads, if it gets as far as `sys_uefi_init`. -/
def banksOf (fw : Firmware A) : Option UInt32 :=
  (tcg2GetProtocol fw).2.bind fun p =>
    if efiError (p.getActivePcrBanks 0).1 then none else some (p.getActivePcrBanks 0).2

variable {L : SapiLibrary T τ} {P : Platform T} {fw : Firmware A} {fuel : Nat} {st : Station T τ}

theorem val_tcg2GetActivePcrBanks (p : Tcg2Protocol A) (pcrBanks : UInt32) :
    (tcg2GetActivePcrBanks p pcrBanks).val = p.getActivePcrBanks pcrBanks := by
  simp [tcg2GetActivePcrBanks]

theorem efiMain_of_none (h : banksOf fw = none) :
    (efiMain L P fw fuel st).val.2 = st ∧ callsOf (efiMain L P fw fuel st) = [] := by
  rcases hfw : tcg2GetProtocol fw with ⟨status, _ | p⟩
  · simp [efiMain, hfw]
  · have herror : efiError (p.getActivePcrBanks 0).1 = true := by
      simpa [banksOf, hfw] using h
    simp [efiMain, hfw, val_tcg2GetActivePcrBanks, herror]

theorem efiMain_of_some {activeBanks : UInt32} (h : banksOf fw = some activeBanks) :
    let x := initThen .inl P st (some (efiAborted A)) (readPcrs L activeBanks fuel)
    (efiMain L P fw fuel st).val = x.val ∧ callsOf (efiMain L P fw fuel st) = callsOf x := by
  rcases hfw : tcg2GetProtocol fw with ⟨status, _ | p⟩
  · simp [banksOf, hfw] at h
  · obtain ⟨hok, rfl⟩ : efiError (p.getActivePcrBanks 0).1 = false ∧
        (p.getActivePcrBanks 0).2 = activeBanks := by
      simpa [banksOf, hfw] using h
    simp [efiMain, hfw, val_tcg2GetActivePcrBanks, hok]

end Main

section Rounds

variable {σ : Type} {M : Machine σ SysCommand SysReply} {r : RoundState} {s : σ}

def answering (reply : SysReply) : Pcr.Tpm := fun _ _ _ => SysReply.pcrs reply

def command (r : RoundState) : SysCommand := .pcrRead r.cbdata.pcrSelect r.pcrSelectOut

theorem run_readRound (M : Machine σ SysCommand SysReply) (r : RoundState) (s : σ) :
    let answer := M.step s (command r)
    let round := Pcr.readRound (answering answer.2) r
    (readRound r).run M s =
      ⟨(round.val, answer.1), .inr (command r, answer.2) :: round.log.map .inl⟩ := by
  intro answer round
  have hrest : (ofTrace round : PcrTool (RoundState ⊕ Nat)).run M answer.1 =
      ⟨(round.val, answer.1), round.log.map .inl⟩ := run_ofTrace M round answer.1
  rw [readRound, run_bind]
  change Trace.mk ((ofTrace round).run M answer.1).val
    (_ :: ((ofTrace round).run M answer.1).log) = _
  rw [hrest]
  rfl

theorem run_readRounds (M : Machine σ SysCommand SysReply) (n : Nat) (r : RoundState) (s : σ) :
    let answer := M.step s (command r)
    let round := Pcr.readRound (answering answer.2) r
    let rest := match round.val with
      | .inl r' => (readRounds n r').run M answer.1
      | .inr i => pure (some i, answer.1)
    (readRounds (n + 1) r).run M s =
      ⟨rest.val, .inr (command r, answer.2) :: (round.log.map .inl ++ rest.log)⟩ := by
  intro answer round rest
  have hrest : (match round.val with
      | .inl r' => readRounds n r'
      | .inr i => pure (some i) : PcrTool (Option Nat)).run M answer.1 = rest := by
    dsimp only [rest]
    cases round.val with
    | inl r' => rfl
    | inr i => rfl
  rw [readRounds, run_bind, run_readRound, ← hrest]
  rfl

theorem log_readRounds (M : Machine σ SysCommand SysReply) (n : Nat) (r : RoundState) (s : σ) :
    let answer := M.step s (command r)
    let tpm := answering answer.2
    ((readRounds (n + 1) r).run M s).log =
      .inr (command r, answer.2) :: ((Pcr.readRound tpm r).log.map .inl ++
        match Loop.next (Pcr.readRound tpm) r with
        | some r' => ((readRounds n r').run M answer.1).log
        | none => []) := by
  intro answer tpm
  rw [run_readRounds, Loop.next]
  dsimp only
  cases (Pcr.readRound tpm r).val with
  | inl r' => rfl
  | inr i => rfl

theorem result_readRounds (M : Machine σ SysCommand SysReply) (n : Nat) (r : RoundState) (s : σ) :
    let answer := M.step s (command r)
    (readRounds (n + 1) r).result M s =
      match (Pcr.readRound (answering answer.2) r).val with
      | .inl r' => (readRounds n r').result M answer.1
      | .inr i => some i := by
  intro answer
  rw [Client.result, run_readRounds]
  dsimp only
  cases (Pcr.readRound (answering answer.2) r).val with
  | inl r' => rfl
  | inr i => rfl

theorem calls_readRounds (M : Machine σ SysCommand SysReply) (n : Nat) (r : RoundState) (s : σ) :
    let answer := M.step s (command r)
    (readRounds (n + 1) r).calls M s = (command r, answer.2) ::
      match Loop.next (Pcr.readRound (answering answer.2)) r with
      | some r' => (readRounds n r').calls M answer.1
      | none => [] := by
  intro answer
  rw [Client.calls, callsOf, log_readRounds]
  cases Loop.next (Pcr.readRound (answering answer.2)) r with
  | some r' =>
    simp [List.filterMap_map, Function.comp_def, Client.calls, callsOf, answer]
  | none => simp [List.filterMap_map, Function.comp_def, answer]

theorem length_calls_of_unfinished {n : Nat} (h : (readRounds n r).result M s = none) :
    ((readRounds n r).calls M s).length = n := by
  induction n generalizing r s with
  | zero => rfl
  | succ n ih =>
    rw [result_readRounds] at h
    rw [calls_readRounds, Loop.next]
    cases hval : (Pcr.readRound (answering (M.step s (command r)).2) r).val with
    | inl r' =>
      rw [hval] at h
      exact congrArg (· + 1) (ih h)
    | inr i =>
      rw [hval] at h
      cases h

def idleCall : SysCall → Bool
  | (.pcrRead request _, reply) => decide (Idle request (SysReply.pcrs reply))
  | _ => false

theorem toNat_idleRound (r : RoundState) (reply : SysReply) :
    (idleRound (answering reply) r).toNat = if idleCall (command r, reply) then 1 else 0 := by
  change (idleCall (command r, reply)).toNat = _
  cases idleCall (command r, reply) <;> rfl

theorem length_calls_le (M : Machine σ SysCommand SysReply) (n : Nat) (r : RoundState) (s : σ) :
    ((readRounds n r).calls M s).length ≤ r.cbdata.pcrSelect.selected.length + 1 +
      ((readRounds n r).calls M s).countP idleCall := by
  induction n generalizing r s with
  | zero => exact Nat.zero_le _
  | succ n ih =>
    rw [calls_readRounds, List.length_cons, List.countP_cons]
    cases hnext : Loop.next (Pcr.readRound (answering (M.step s (command r)).2)) r with
    | none =>
      rw [List.length_nil]
      omega
    | some r' =>
      have hrest := ih r' (M.step s (command r)).1
      have hround := length_selected_next hnext
      rw [toNat_idleRound] at hround
      dsimp only
      omega

theorem narrowed_of_call {start : TpmlPcrSelection} {c : Console} {n : Nat}
    (h : Narrowed start r.cbdata.pcrSelect c) (hc : c.Names r.cbdata.lastAlg)
    {pre post : List (PcrEffect ⊕ SysCall)} {call : SysCall}
    (hlog : ((readRounds n r).run M s).log = pre ++ .inr call :: post) :
    ∃ request before, call.1 = .pcrRead request before ∧
      Narrowed start request (c.read (pre.filterMap Sum.getLeft?)) := by
  induction n generalizing r s c pre with
  | zero => cases pre <;> cases hlog
  | succ n ih =>
    rw [log_readRounds] at hlog
    cases pre with
    | nil =>
      obtain ⟨heq, -⟩ := List.cons.inj hlog
      obtain rfl := Sum.inr.inj heq
      exact ⟨_, _, rfl, h⟩
    | cons e pre =>
      obtain ⟨rfl, hrest⟩ := List.cons.inj hlog
      -- a round makes no other call, so that this one is of a later round
      obtain ⟨rest, rfl, hlater⟩ := exists_of_append_eq (by simp) hrest
      cases hnext : Loop.next (Pcr.readRound (answering (M.step s (command r)).2)) r with
      | none =>
        rw [hnext] at hlater
        cases rest <;> cases hlater
      | some r' =>
        rw [hnext] at hlater
        obtain ⟨hround, hnames⟩ := h.round hc hnext
        obtain ⟨request, before, hcall, hnarrowed⟩ := ih hround hnames hlater
        refine ⟨request, before, hcall, ?_⟩
        have hsaid (log : List PcrEffect) : (Sum.inr (command r, (M.step s (command r)).2) ::
            (log.map Sum.inl ++ rest)).filterMap Sum.getLeft? =
              log ++ rest.filterMap Sum.getLeft? := by
          simp [List.filterMap_cons, List.filterMap_map, Function.comp_def]
        rw [hsaid, Console.read_append]
        exact hnarrowed

end Rounds

section Asks

variable {A : Arch} {T : Tss A} {τ : Type} {L : SapiLibrary T τ} {P : Platform T}
  {fw : Firmware A} {st : Station T τ} {activeBanks : UInt32}

def ready (P : Platform T) (st : Station T τ) : SizeT A × Station T τ :=
  ((sysUefiInit P st.heap).val.ctx.getD 0#A.bits,
    { st with heap := (sysUefiInit P st.heap).val.heap })

theorem log_efiMain (hbanks : banksOf fw = some activeBanks)
    (hsetup : (sysUefiInit P st.heap).val.rc = .success) (fuel : Nat) :
    ∃ early : List Effect, (efiMain L P fw fuel st).log = early.map (fun e => .inl (.inl e)) ++
      (((prettyprintPcrsAll activeBanks fuel).run (L.sapi (ready P st).1)
        (ready P st).2).log.map (Sum.map .inr id)) := by
  rcases hfw : tcg2GetProtocol fw with ⟨status, _ | p⟩
  · simp [banksOf, hfw] at hbanks
  · obtain ⟨hok, rfl⟩ : efiError (p.getActivePcrBanks 0).1 = false ∧
        (p.getActivePcrBanks 0).2 = activeBanks := by
      simpa [banksOf, hfw] using hbanks
    refine ⟨(tcg2GetActivePcrBanks p 0).log ++ (sysUefiInit P st.heap).log, ?_⟩
    simp [efiMain, hfw, val_tcg2GetActivePcrBanks, hok, initThen, hsetup, readPcrs, Trace.mapLog,
      ready, Function.comp_def]

def pcrEffects (log : List ((Effect ⊕ PcrEffect) ⊕ SysCall)) : List PcrEffect :=
  log.filterMap fun e => e.getLeft?.bind Sum.getRight?

theorem pcrEffects_of_early (early : List Effect) (log : List (PcrEffect ⊕ SysCall)) :
    pcrEffects (early.map (fun e => .inl (.inl e)) ++ log.map (Sum.map .inr id)) =
      log.filterMap Sum.getLeft? := by
  have hearly : pcrEffects (early.map fun e => .inl (.inl e)) = [] := by simp [pcrEffects]
  have hlog : pcrEffects (log.map (Sum.map .inr id)) = log.filterMap Sum.getLeft? := by
    rw [pcrEffects, List.filterMap_map]
    congr 1
    funext e
    cases e <;> rfl
  rw [← hlog, pcrEffects, List.filterMap_append, ← pcrEffects, hearly, List.nil_append, pcrEffects]

theorem callsOf_efiMain (hbanks : banksOf fw = some activeBanks)
    (hsetup : (sysUefiInit P st.heap).val.rc = .success) (fuel : Nat) :
    callsOf (efiMain L P fw fuel st) = (prettyprintPcrsAll activeBanks fuel).calls
      (L.sapi (ready P st).1) (ready P st).2 := by
  rw [(efiMain_of_some hbanks).2]
  simp [initThen, hsetup, ready]

theorem status_efiMain (hbanks : banksOf fw = some activeBanks)
    (hsetup : (sysUefiInit P st.heap).val.rc = .success) (fuel : Nat) :
    (efiMain L P fw fuel st).val.1 = ((prettyprintPcrsAll activeBanks fuel).result
      (L.sapi (ready P st).1) (ready P st).2).map fun n => BitVec.ofNat _ n := by
  rw [(efiMain_of_some hbanks).1]
  simp [initThen, hsetup, ready, readPcrs, Client.result]

theorem efiMain_of_failure (hbanks : banksOf fw = some activeBanks)
    (hsetup : (sysUefiInit P st.heap).val.rc ≠ .success) (fuel : Nat) :
    (efiMain L P fw fuel st).val.1 = some (efiAborted A) ∧
      callsOf (efiMain L P fw fuel st) = [] := by
  rw [(efiMain_of_some hbanks).1, (efiMain_of_some hbanks).2]
  simp [initThen, hsetup]

end Asks

end TctiUefi.Sapi.GetPcrs
