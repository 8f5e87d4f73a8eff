import TctiUefi.Sapi.CapsFixed
import TctiUefi.Sapi.GetPcrs
import TctiUefi.Sapi.NvOps

namespace TctiUefi.Sapi

open Client

inductive ToolCall {A : Arch} (T : Tss A)
  | nvOps (P : Platform T) (data : Tpm2bMaxNvBuffer)
  | capsFixed (P : Platform T) (hundredth : UInt32 → PrintArg)
  | getPcrs (P : Platform T) (fw : Firmware A) (fuel : Nat)

structure ToolRun (A : Arch) where
  status : Option (EfiStatus A)
  calls : List SysCall

section Tools

variable {A : Arch} {T : Tss A} {τ : Type}

def ToolCall.run (L : SapiLibrary T τ) (st : Station T τ) :
    ToolCall T → Station T τ × ToolRun A
  | .nvOps P data =>
    let x := NvOps.efiMain L P data st
    (x.val.2, ⟨some x.val.1, callsOf x⟩)
  | .capsFixed P hundredth =>
    let x := CapsFixed.efiMain hundredth L P st
    (x.val.2, ⟨some x.val.1, callsOf x⟩)
  | .getPcrs P fw fuel =>
    let x := GetPcrs.efiMain L P fw fuel st
    (x.val.2, ⟨x.val.1, callsOf x⟩)

def tools (L : SapiLibrary T τ) : Machine (Station T τ) (ToolCall T) (ToolRun A) where
  step st tool := tool.run L st

end Tools

section Pool

variable {A : Arch} {T : Tss A} {τ : Type}

def ToolCall.platform : ToolCall T → Platform T
  | .nvOps P _ => P
  | .capsFixed P _ => P
  | .getPcrs P _ _ => P

def ToolCall.starts : ToolCall T → Bool
  | .getPcrs _ fw _ => (GetPcrs.banksOf fw).isSome
  | _ => true

def ToolCall.tearsDown : ToolCall T → Bool
  | .getPcrs _ _ _ => false
  | _ => true

/-- The blocks that `sys_uefi_init` leaves behind if it fails, and `rest` of the two blocks if it
does not. -/
def Platform.leak (P : Platform T) (heap : Heap T) (rest : SizeT A → SizeT A → List (SizeT A)) :
    List (SizeT A) :=
  match P.tctiBlock heap with
  | none => []
  | some p =>
    match P.sysBlock (some p) (heap.openTcti p P.tctiSize) with
    | none => [p]
    | some q => rest q p

def ToolCall.leak (heap : Heap T) (tool : ToolCall T) : List (SizeT A) :=
  if tool.starts then tool.platform.leak heap fun q p => if tool.tearsDown then [] else [q, p]
  else []

variable {L : SapiLibrary T τ} {st : Station T τ} {base : Finset (SizeT A)}
  {owned : List (SizeT A)} {ε α : Type}

theorem owns_initThen {lift : Effect → ε} {P : Platform T} {aborted : α}
    {body : SizeT A → Station T τ → Trace (ε ⊕ SysCall) (α × Station T τ)}
    {rest : SizeT A → SizeT A → List (SizeT A)} (h : Pool.Owns base owned st.heap.pool)
    (hbody : ∀ q p pool st', AtWork q p pool st'.heap → Pool.Owns base (q :: p :: owned) pool →
      Pool.Owns base (rest q p ++ owned) (body q st').val.2.heap.pool) :
    Pool.Owns base (P.leak st.heap rest ++ owned)
      (initThen lift P st aborted body).val.2.heap.pool := by
  cases hp : P.tctiBlock st.heap with
  | none =>
    rw [(initThen_of_early hp).1, Platform.leak, hp]
    exact h
  | some p =>
    have htake := h.take (Platform.fresh_tctiBlock hp)
    cases hq : P.sysBlock (some p) (st.heap.openTcti p P.tctiSize) with
    | none =>
      obtain ⟨sys, hval, -⟩ := initThen_of_late hp hq
      rw [hval]
      simp only [Platform.leak, hp, hq]
      exact htake
    | some q =>
      obtain ⟨hfresh, heap, hwork, hval, -⟩ := initThen_of_ready hp hq
      rw [hval]
      simp only [Platform.leak, hp, hq]
      exact hbody q p _ _ hwork (htake.take hfresh)

theorem owns_session {β : Type} {client : Tool β} {finish : β → α} {q p : SizeT A}
    {pool : Pool (SizeT A)} (hwork : AtWork q p pool st.heap)
    (h : Pool.Owns base (q :: p :: owned) pool) :
    Pool.Owns base owned (session L client finish q st).val.2.heap.pool := by
  rw [pool_session hwork]
  exact h.free.free

theorem owns_run (tool : ToolCall T) (h : Pool.Owns base owned st.heap.pool) :
    Pool.Owns base (tool.leak st.heap ++ owned) (tool.run L st).1.heap.pool := by
  cases tool with
  | nvOps P data => exact owns_initThen h fun q p pool st' => owns_session
  | capsFixed P hundredth => exact owns_initThen h fun q p pool st' => owns_session
  | getPcrs P fw fuel =>
    cases hbanks : GetPcrs.banksOf fw with
    | none =>
      rw [ToolCall.run, (GetPcrs.efiMain_of_none hbanks).1, ToolCall.leak, ToolCall.starts, hbanks]
      exact h
    | some activeBanks =>
      rw [ToolCall.run, (GetPcrs.efiMain_of_some hbanks).1, ToolCall.leak, ToolCall.starts, hbanks]
      apply owns_initThen h
      intro q p pool st' hwork howns
      rw [GetPcrs.final_readPcrs]
      have hfinal := final_of_preserves (preserves_atWork L q p pool)
        (GetPcrs.prettyprintPcrsAll activeBanks fuel) hwork
      rw [hfinal.pool]
      exact howns

def leaked (L : SapiLibrary T τ) : Station T τ → List (ToolCall T) → List (SizeT A)
  | _, [] => []
  | st, tool :: rest => leaked L (tool.run L st).1 rest ++ tool.leak st.heap

theorem owns_final (calls : List (ToolCall T)) (h : Pool.Owns base owned st.heap.pool) :
    Pool.Owns base (leaked L st calls ++ owned) ((tools L).final st calls).heap.pool := by
  induction calls generalizing st owned with
  | nil => exact h
  | cons tool rest ih =>
    have htail := ih (owns_run (L := L) tool h)
    rw [leaked, List.append_assoc]
    exact htail

theorem leaked_eq_nil_iff (calls : List (ToolCall T)) : leaked L st calls = [] ↔
    (tools L).Along (fun st tool => tool.leak st.heap = []) st calls := by
  induction calls generalizing st with
  | nil => simp [leaked, Machine.Along]
  | cons tool rest ih =>
    rw [leaked, List.append_eq_nil_iff, ih, and_comm]
    rfl

theorem tools_leak (L : SapiLibrary T τ) (h : st.heap.pool.misfreed = [])
    (calls : List (ToolCall T)) :
    Pool.Owns st.heap.pool.live (leaked L st calls) ((tools L).final st calls).heap.pool ∧
      (((tools L).final st calls).heap.pool.live = st.heap.pool.live ↔
        (tools L).Along (fun st tool => tool.leak st.heap = []) st calls) := by
  have hstart : Pool.Owns st.heap.pool.live [] st.heap.pool :=
    ⟨List.nodup_nil, by simp, by simp, h⟩
  have howns := owns_final (L := L) calls hstart
  rw [List.append_nil] at howns
  refine ⟨howns, ?_⟩
  rw [← leaked_eq_nil_iff, howns.live, Finset.union_eq_left]
  constructor
  · intro hsubset
    apply List.eq_nil_iff_forall_not_mem.mpr
    intro p hp
    exact howns.disjoint p hp (hsubset (List.mem_toFinset.mpr hp))
  · intro hnil
    simp [hnil]

end Pool

section Index

variable {A : Arch} {T : Tss A} {τ : Type} {L : SapiLibrary T τ} {nv : τ → NvOps.NvIndices}
  {st : Station T τ}

def SysCommand.Observes : SysCommand → Prop
  | .getCapability .. | .pcrRead .. => True
  | _ => False

theorem SysCommand.Observes.not_defines {cmd : SysCommand} (h : cmd.Observes) (reply : SysReply) :
    NvOps.defines (cmd, reply) = false := by
  cases cmd with
  | getCapability | pcrRead => rfl
  | getRandom | nvDefineSpace | nvWrite | nvUndefineSpace => cases h

theorem keeps_of_observes {σ : Type} {M : Machine σ SysCommand SysReply} {nv : σ → NvOps.NvIndices}
    (h : NvOps.KeepsNv M nv) {s : σ} {cmd : SysCommand} (hcmd : cmd.Observes) :
    nv (M.step s cmd).1 = nv s := by
  rcases h s cmd with hdone | ⟨-, hsame⟩
  · cases cmd with
    | getCapability | pcrRead => exact hdone
    | getRandom | nvDefineSpace | nvWrite | nvUndefineSpace => cases hcmd
  · exact hsame

theorem asks_capsFixed (hundredth : UInt32 → PrintArg) :
    (CapsFixed.capsFixed A hundredth).Asks SysCommand.Observes := by
  apply Asks.bind (asks_call trivial)
  intro reply
  split
  · exact asks_ofTrace _
  · exact asks_ofTrace _

theorem asks_readRounds (n : Nat) (r : Pcr.RoundState) :
    (GetPcrs.readRounds n r).Asks SysCommand.Observes := by
  induction n generalizing r with
  | zero => trivial
  | succ n ih =>
    apply Asks.bind
    · exact Asks.bind (asks_call trivial) fun _ => asks_ofTrace _
    · intro next
      cases next with
      | inl r' => exact ih r'
      | inr i => trivial

structure LeavesNv (before after : NvOps.NvIndices) (calls : List SysCall) : Prop where
  same : after = before
  defines : calls.any NvOps.defines = false

theorem leavesNv_of_asks {σ ε β : Type} {M : Machine σ SysCommand SysReply}
    {nv : σ → NvOps.NvIndices} (h : NvOps.KeepsNv M nv) {client : Client ε SysCommand SysReply β}
    (hclient : client.Asks SysCommand.Observes) (s : σ) :
    LeavesNv (nv s) (nv (client.final M s)) (client.calls M s) := by
  constructor
  · have hstep (t : σ) (cmd : SysCommand) (hcmd : cmd.Observes) (ht : nv t = nv s) :
        nv (M.step t cmd).1 = nv s := (keeps_of_observes h hcmd).trans ht
    exact hclient.final hstep rfl
  · rw [List.any_eq_false]
    intro e he
    rw [(hclient.calls M s e he).not_defines e.2]
    exact Bool.false_ne_true

def ToolCall.isNvOps : ToolCall T → Bool
  | .nvOps _ _ => true
  | _ => false

inductive ToolCall.Outcome (tool : ToolCall T) (before after : NvOps.NvIndices) (r : ToolRun A) :
    Prop
  | nvOps (rc : UInt32) (houtcome : NvOps.Outcome before after rc r.calls)
      (hstatus : r.status = some (if rc = 0 then efiSuccess A else efiAborted A))
  | other (htool : tool.isNvOps = false) (hleaves : LeavesNv before after r.calls)

theorem run_outcome (h : ∀ q, NvOps.KeepsNv (L.sapi q) fun st => nv st.tpm) (tool : ToolCall T)
    (st : Station T τ) :
    tool.Outcome (nv st.tpm) (nv (tool.run L st).1.tpm) (tool.run L st).2 := by
  cases tool with
  | nvOps P data =>
    obtain ⟨rc, houtcome, hstatus⟩ := NvOps.efiMain_outcome h P data st
    exact .nvOps rc houtcome (congrArg some hstatus)
  | capsFixed P hundredth =>
    apply ToolCall.Outcome.other rfl
    apply initThen_elim fun _ st' calls => LeavesNv (nv st.tpm) (nv st'.tpm) calls
    · exact fun _ => ⟨rfl, rfl⟩
    · intro q heap
      simp only [tpm_session, callsOf_session]
      exact leavesNv_of_asks (h q) (asks_capsFixed hundredth) { st with heap := heap }
  | getPcrs P fw fuel =>
    apply ToolCall.Outcome.other rfl
    rw [ToolCall.run]
    cases hbanks : GetPcrs.banksOf fw with
    | none =>
      obtain ⟨hval, hcalls⟩ := GetPcrs.efiMain_of_none hbanks
      dsimp only
      rw [hval, hcalls]
      exact ⟨rfl, rfl⟩
    | some activeBanks =>
      obtain ⟨hval, hcalls⟩ := GetPcrs.efiMain_of_some hbanks
      dsimp only
      rw [hval, hcalls]
      apply initThen_elim fun _ st' calls => LeavesNv (nv st.tpm) (nv st'.tpm) calls
      · exact fun _ => ⟨rfl, rfl⟩
      · intro q heap
        rw [GetPcrs.final_readPcrs, GetPcrs.callsOf_readPcrs]
        exact leavesNv_of_asks (h q) (asks_readRounds fuel _) { st with heap := heap }

/-- A run that ends with the index defined.  If the index was written, it holds the random bytes of
this run. -/
structure LeftBehind (before after : NvOps.NvIndices) (r : ToolRun A) : Prop where
  free : before NvOps.nvIndex = none
  aborted : r.status = some (efiAborted A)
  contents : ∃ area bytes, after = Function.update before NvOps.nvIndex (some area) ∧
    r.calls.filterMap NvOps.random? = [bytes] ∧ (r.calls.any NvOps.writes = true → bytes <+: area)

structure Defeated (e : ToolCall T × ToolRun A) : Prop where
  defines : e.2.calls.any NvOps.defines = false
  aborted : e.1.isNvOps = true → e.2.status = some (efiAborted A)

structure Stays (L : SapiLibrary T τ) (nv : τ → NvOps.NvIndices) (indices : NvOps.NvIndices)
    (st : Station T τ) (calls : List (ToolCall T)) : Prop where
  same : ∀ s ∈ (tools L).states st calls, nv s.tpm = indices
  defeated : ∀ e ∈ (tools L).trace st calls, Defeated e

theorem stays_of_held (h : ∀ q, NvOps.KeepsNv (L.sapi q) fun st => nv st.tpm)
    {held : NvOps.NvIndices} (hheld : held NvOps.nvIndex ≠ none) (hst : nv st.tpm = held)
    (calls : List (ToolCall T)) : Stays L nv held st calls := by
  have hstep (s : Station T τ) (tool : ToolCall T) (hs : nv s.tpm = held) :
      nv (tool.run L s).1.tpm = held ∧ Defeated (tool, (tool.run L s).2) := by
    cases run_outcome h tool s with
    | other htool hleaves =>
      exact ⟨hleaves.same.trans hs, hleaves.defines, fun hnvOps => by simp [htool] at hnvOps⟩
    | nvOps rc houtcome hstatus =>
      cases houtcome with
      | same hsame hdefeated =>
        obtain ⟨hrc, hdefines⟩ := hdefeated (hs ▸ hheld)
        rw [if_neg hrc] at hstatus
        exact ⟨hsame.trans hs, hdefines, fun _ => hstatus⟩
      | leftBehind _ _ _ hfree => exact absurd (hs ▸ hfree) hheld
  have hpreserves : (tools L).Preserves fun s => nv s.tpm = held :=
    fun s tool hs => (hstep s tool hs).1
  exact ⟨hpreserves.states hst calls,
    hpreserves.trace (fun s tool hs => (hstep s tool hs).2) hst calls⟩

/-- Runs of the tools one after another: either all of them leave the NV indices as they are, or one
of them leaves the index of its own behind, and those after it do not get past it. -/
inductive IndexHistory (L : SapiLibrary T τ) (nv : τ → NvOps.NvIndices) (st : Station T τ)
    (calls : List (ToolCall T)) : Prop
  | clean (hsame : ∀ s ∈ (tools L).states st calls, nv s.tpm = nv st.tpm)
  | left (before : List (ToolCall T)) (tool : ToolCall T) (later : List (ToolCall T))
      (hcalls : calls = before ++ tool :: later)
      (hclean : ∀ s ∈ (tools L).states st before, nv s.tpm = nv st.tpm)
      (hleft : LeftBehind (nv st.tpm) (nv (tool.run L ((tools L).final st before)).1.tpm)
        (tool.run L ((tools L).final st before)).2)
      (hstays : Stays L nv (nv (tool.run L ((tools L).final st before)).1.tpm)
        (tool.run L ((tools L).final st before)).1 later)

theorem IndexHistory.cons {tool : ToolCall T} {rest : List (ToolCall T)}
    (hsame : nv (tool.run L st).1.tpm = nv st.tpm)
    (h : IndexHistory L nv (tool.run L st).1 rest) : IndexHistory L nv st (tool :: rest) := by
  have hstates {calls : List (ToolCall T)}
      (hcalls : ∀ s ∈ (tools L).states (tool.run L st).1 calls,
        nv s.tpm = nv (tool.run L st).1.tpm) :
      ∀ s ∈ (tools L).states st (tool :: calls), nv s.tpm = nv st.tpm :=
    List.forall_mem_cons.mpr ⟨rfl, fun s hs => (hcalls s hs).trans hsame⟩
  cases h with
  | clean hclean => exact .clean (hstates hclean)
  | left before tool' later hcalls hclean hleft hstays =>
    rw [hsame] at hleft
    exact .left (tool :: before) tool' later (congrArg (tool :: ·) hcalls) (hstates hclean)
      hleft hstays

end Index

section Reference

def nvStep (nv : NvOps.NvIndices) : SysCommand → NvOps.NvIndices × SysReply
  | .nvDefineSpace _ _ _ publicInfo =>
    if nv publicInfo.nvIndex = none then
      (Function.update nv publicInfo.nvIndex (some (List.replicate publicInfo.dataSize.toNat 0xff)),
        .ofRc 0)
    else (nv, .ofRc 0x14c)
  | .nvWrite _ nvIndex _ data offset =>
    match nv nvIndex with
    | none => (nv, .ofRc 0x18b)
    | some area =>
      if offset.toNat + data.bytes.length ≤ area.length then
        (Function.update nv nvIndex (some (area.take offset.toNat ++ (data.bytes ++
          area.drop (offset.toNat + data.bytes.length)))), .ofRc 0)
      else (nv, .ofRc 0x146)
  | .nvUndefineSpace _ nvIndex _ =>
    if nv nvIndex = none then (nv, .ofRc 0x18b)
    else (Function.update nv nvIndex none, .ofRc 0)
  | .getRandom n _ =>
    (nv, { SysReply.ofRc 0 with randomBytes := ⟨n, fun i => UInt8.ofNat (i + 1)⟩ })
  | _ => (nv, .ofRc 0)

/-- The functions of a SAPI that loses the responses to some commands. -/
def nvLibrary (A : Arch) (loses : SysCommand → Bool) :
    SapiLibrary (referenceTss A) NvOps.NvIndices where
  command sysCtx _ nv cmd := ⟨sysCtx, [], (nvStep nv cmd).1,
    if loses cmd then .ofRc 0xa000a else (nvStep nv cmd).2⟩
  command_tcti _ _ _ _ := rfl

theorem affects_refused {nv : NvOps.NvIndices} {cmd : SysCommand} {rc : UInt32} (h : rc ≠ 0) :
    NvOps.Affects nv cmd (.ofRc rc) nv := .inr ⟨h, rfl⟩

theorem nvStep_affects (nv : NvOps.NvIndices) (cmd : SysCommand) :
    NvOps.Affects nv cmd (nvStep nv cmd).2 (nvStep nv cmd).1 := by
  cases cmd with
  | getRandom | getCapability | pcrRead => exact .inl rfl
  | nvDefineSpace authHandle cmdAuths auth publicInfo =>
    rw [nvStep]
    split
    · rename_i hfree
      exact .inl ⟨hfree, _, rfl⟩
    · exact affects_refused (by decide)
  | nvUndefineSpace authHandle nvIndex cmdAuths =>
    rw [nvStep]
    split
    · exact affects_refused (by decide)
    · exact .inl rfl
  | nvWrite authHandle nvIndex cmdAuths data offset =>
    rw [nvStep]
    split
    · exact affects_refused (by decide)
    · rename_i area _
      split
      · rename_i hfits
        refine .inl ⟨_, rfl, ?_⟩
        have hlength : (area.take offset.toNat).length = offset.toNat := by
          rw [List.length_take]
          omega
        rw [List.drop_append_of_le_length (Nat.le_of_eq hlength.symm),
          List.drop_of_length_le (Nat.le_of_eq hlength)]
        exact List.prefix_append ..
      · exact affects_refused (by decide)

theorem nvLibrary_keepsNv (A : Arch) (loses : SysCommand → Bool) (q : SizeT A) :
    NvOps.KeepsNv ((nvLibrary A loses).sapi q) fun st => id st.tpm := by
  intro st cmd
  change NvOps.Affects st.tpm cmd (if loses cmd then .ofRc 0xa000a else (nvStep st.tpm cmd).2)
    (nvStep st.tpm cmd).1
  split
  · rcases nvStep_affects st.tpm cmd with hdone | ⟨-, hsame⟩
    · exact .inl hdone
    · exact .inr ⟨by decide, hsame⟩
  · exact nvStep_affects st.tpm cmd

def referenceStation : Station (referenceTss .x86_64) NvOps.NvIndices :=
  ⟨referenceStart.heap, fun _ => none⟩

def nvOpsWithRoom (ps : List (SizeT .x86_64)) : ToolCall (referenceTss .x86_64) :=
  .nvOps (referencePlatform .x86_64 ps) ⟨0, fun _ => 0⟩

def losesDefinitions : SysCommand → Bool
  | .nvDefineSpace .. => true
  | _ => false

theorem tools_leak_room_for_one :
    leaked (nvLibrary .x86_64 fun _ => false) referenceStation
        [nvOpsWithRoom [4096, 8192], nvOpsWithRoom [4096]] = [4096] ∧
      Pool.Owns ∅ [4096] ((tools (nvLibrary .x86_64 fun _ => false)).final referenceStation
        [nvOpsWithRoom [4096, 8192], nvOpsWithRoom [4096]]).heap.pool := by
  have hleaked : leaked (nvLibrary .x86_64 fun _ => false) referenceStation
      [nvOpsWithRoom [4096, 8192], nvOpsWithRoom [4096]] = [4096] := by decide +kernel
  have howns := (tools_leak (nvLibrary .x86_64 fun _ => false)
    (rfl : referenceStation.heap.pool.misfreed = [])
    [nvOpsWithRoom [4096, 8192], nvOpsWithRoom [4096]]).1
  rw [hleaked] at howns
  exact ⟨hleaked, howns⟩

end Reference

end TctiUefi.Sapi
