import TctiUefi.Tcti.Limits

namespace TctiUefi

/-- A context of a given queried size and the exchanges it has been through. -/
structure History (A : Arch) (size : SizeT A) where
  fw : Firmware A
  block : TctiUefiContext A
  ctx : TctiUefiContext A
  negotiated : Negotiated fw block size ctx
  calls : List (Call A)
  exchanges : ∀ i ∈ calls, i.isExchange = true

namespace History

def state (H : History A size) : TctiUefiContext A := (tcti A).final H.ctx H.calls

def sent (H : History A size) : List (List UInt8) := (events H.ctx H.calls).filterMap Event.sent

/-- What the allocation and the commands written over it leave in the command buffer. -/
def leftover (H : History A size) : Buffer := H.sent.foldl Buffer.write H.block.cmdBuf

def Accepts (H : History A size) (n : SizeT A) (cmd : Buffer) : Prop :=
  Event.succeeds (.transmit .given n (some cmd),
    ((Call.transmit .given n (some cmd)).exec H.state).2)

def inputs (H : History A size) (n : SizeT A) (cmd : Buffer) (m : SizeT A) (buf : Buffer)
    (fw : Firmware A) : List (UInt32 × List UInt8) :=
  (submissions (events H.state (exchange n cmd m buf fw))).map fun b => (b.inputSize, b.input)

end History

def SameInputs (H₁ H₂ : History A size) (n : SizeT A) (cmd : Buffer) (m : SizeT A) : Prop :=
  ∀ buf₁ buf₂ fw₁ fw₂, efiError fw₁.locateProtocol.1 = false →
    efiError fw₂.locateProtocol.1 = false →
      H₁.inputs n cmd m buf₁ fw₁ = H₂.inputs n cmd m buf₂ fw₂

theorem StepSpec.cmdBuf_eq {s : TctiUefiContext A} (h : StepSpec s i r) :
    r.1.cmdBuf = (Event.sent (i, r.2)).elim s.cmdBuf s.cmdBuf.write := by
  cases h with
  | @refused _ o hrc _ _ _ =>
    rw [Event.sent_of_not_succeeds (e := (i, o)) hrc]
    rfl
  | @stored n cmd _ => simp [Event.sent, TctiUefiContext.store, Buffer.copy_eq_write]
  | queried _ => rfl
  | answered _ => rfl
  | unanswered _ _ _ => rfl
  | finalized _ => rfl

theorem final_cmdBuf (s : TctiUefiContext A) (is : List (Call A)) :
    ((tcti A).final s is).cmdBuf =
      ((events s is).filterMap Event.sent).foldl Buffer.write s.cmdBuf := by
  induction is generalizing s with
  | nil => rfl
  | cons i is ih =>
    have hstep := (step_spec s i).cmdBuf_eq
    rw [Machine.final_cons, ih, tcti_step, hstep]
    simp only [events, Machine.trace_cons, tcti_step, List.filterMap_cons]
    cases Event.sent (i, (i.exec s).2) with
    | none => rfl
    | some cmd => rfl

theorem final_exchange {s : TctiUefiContext A} {fw : Firmware A} {p : Tcg2Protocol A}
    {cmd buf : Buffer} {m : SizeT A} (h : TransmitAccepts s n)
    (hp : (tcg2GetProtocol fw).2 = some p)
    (hs : (p.submit ((s.store cmd n.toNat).submitCall m) buf).1 = efiSuccess A) :
    (tcti A).final s (exchange n cmd m buf fw) =
      { s.store cmd n.toNat with state := .transmit } := by
  simp only [exchange, Machine.final_cons, Machine.final_nil, tcti_step, exec_transmit h]
  simp only [Call.exec, ContextArg.resolve,
    tctiUefiReceive_answered (store_ready h cmd n.toNat) hp m buf hs, Option.getD_some]

theorem accepts_of_succeeds {s : TctiUefiContext A} {n : SizeT A} {cmd : Buffer}
    (h : Event.succeeds (.transmit .given n (some cmd),
      ((Call.transmit .given n (some cmd)).exec s).2)) : TransmitAccepts s n := by
  have hspec := step_spec s (.transmit .given n (some cmd))
  generalize hr : (Call.transmit .given n (some cmd)).exec s = r at hspec h
  cases hspec with
  | refused hrc _ _ _ => exact absurd h hrc
  | stored haccepts => exact haccepts

namespace History

theorem state_cmdBuf (H : History A size) : H.state.cmdBuf = H.leftover := by
  rw [state, final_cmdBuf, H.negotiated.ctx_eq, leftover, sent, H.negotiated.ctx_eq]
  rfl

theorem state_size (H : History A size) :
    H.state.size = size - BitVec.ofNat _ (sizeofContext A) := by
  rw [state, (final_header H.ctx H.calls).2, H.negotiated.ctx_eq]
  rfl

theorem inputs_eq (H : History A size) {n : SizeT A} {cmd : Buffer} (h : H.Accepts n cmd)
    (m : SizeT A) (buf : Buffer) {fw : Firmware A} (hfw : efiError fw.locateProtocol.1 = false) :
    H.inputs n cmd m buf fw =
      [(toUInt32 H.state.size,
        (H.leftover.copy cmd n.toNat).bytes (toUInt32 H.state.size).toNat)] := by
  rw [inputs, submissions_exchange (accepts_of_succeeds h) cmd m buf hfw]
  simp only [List.map_cons, List.map_nil, TctiUefiContext.submitCall, TctiUefiContext.store,
    state_cmdBuf]

end History

theorem copy_bytes_eq_iff {b c : Buffer} (src : Buffer) {n k : Nat} :
    (b.copy src n).bytes k = (c.copy src n).bytes k ↔ ∀ i, n ≤ i → i < k → b i = c i := by
  rw [Buffer.bytes_inj]
  constructor
  · intro h i hn hk
    rw [← Buffer.copy_of_le b src hn, ← Buffer.copy_of_le c src hn]
    exact h i hk
  · intro h i hk
    by_cases hi : i < n
    · rw [Buffer.copy_of_lt _ _ hi, Buffer.copy_of_lt _ _ hi]
    · have hn : n ≤ i := Nat.not_lt.mp hi
      rw [Buffer.copy_of_le _ _ hn, Buffer.copy_of_le _ _ hn]
      exact h i hn hk

section Leak

variable {fw : Firmware A} {block ctx : TctiUefiContext A} {size : SizeT A}

theorem sameInputs_iff (h : Negotiated fw block size ctx) {H₁ H₂ : History A size} {n : SizeT A}
    {cmd : Buffer} (h₁ : H₁.Accepts n cmd) (h₂ : H₂.Accepts n cmd) (m : SizeT A) :
    SameInputs H₁ H₂ n cmd m ↔
      ∀ i, n.toNat ≤ i → i < ctx.size.toNat → H₁.leftover i = H₂.leftover i := by
  have hsize (H : History A size) : H.state.size = ctx.size := by
    rw [H.state_size, h.ctx_eq]
    rfl
  have hcap : (toUInt32 ctx.size).toNat = ctx.size.toNat := toNat_toUInt32_of_lt h.capacity_lt
  rw [← copy_bytes_eq_iff cmd]
  constructor
  · intro hsame
    have hfw : efiError (acceptingFirmware A 0 0).locateProtocol.1 = false := efiError_efiSuccess A
    have heq := hsame (fun _ => 0) (fun _ => 0) _ _ hfw hfw
    rw [H₁.inputs_eq h₁ m _ hfw, H₂.inputs_eq h₂ m _ hfw, hsize, hsize, hcap] at heq
    simpa using heq
  · intro heq buf₁ buf₂ fw₁ fw₂ hfw₁ hfw₂
    rw [H₁.inputs_eq h₁ m _ hfw₁, H₂.inputs_eq h₂ m _ hfw₂, hsize, hsize, hcap, heq]

def filledHistory (h : Negotiated fw block size ctx) (b : UInt8) : History A size where
  fw := fw
  block := filledBlock A b
  ctx := (filledBlock A b).opened size
  negotiated := h.reopen _
  calls := []
  exchanges := by simp

theorem filledHistory_accepts (h : Negotiated fw block size ctx) (b : UInt8) {n : SizeT A}
    (hlong : tpm2HeaderSize < n.toNat) (hfits : n.toNat ≤ ctx.size.toNat) (cmd : Buffer) :
    (filledHistory h b).Accepts n cmd := by
  have haccepts : TransmitAccepts (filledHistory h b).state n := by
    apply (h.reopen (filledBlock A b)).accepts _ hlong
    rw [h.ctx_eq] at hfits
    exact hfits
  simp [History.Accepts, Event.succeeds, exec_transmit haccepts]

theorem input_independent_of_history_iff (h : Negotiated fw block size ctx) {n : SizeT A}
    (hlong : tpm2HeaderSize < n.toNat) (hfits : n.toNat ≤ ctx.size.toNat) (cmd : Buffer)
    (m : SizeT A) :
    (∀ H₁ H₂ : History A size, H₁.Accepts n cmd → H₂.Accepts n cmd →
      (SameInputs H₁ H₂ n cmd m ↔
        ∀ i, n.toNat ≤ i → i < ctx.size.toNat → H₁.leftover i = H₂.leftover i)) ∧
    ((∀ H₁ H₂ : History A size, H₁.Accepts n cmd → H₂.Accepts n cmd →
      SameInputs H₁ H₂ n cmd m) ↔ n.toNat = ctx.size.toNat) := by
  constructor
  · intro H₁ H₂ h₁ h₂
    exact sameInputs_iff h h₁ h₂ m
  constructor
  · intro hall
    by_contra hne
    have hlt : n.toNat < ctx.size.toNat := Nat.lt_of_le_of_ne hfits hne
    have h₁ := filledHistory_accepts h 0 hlong hfits cmd
    have h₂ := filledHistory_accepts h 1 hlong hfits cmd
    have hbyte := (sameInputs_iff h h₁ h₂ m).mp (hall _ _ h₁ h₂) n.toNat (Nat.le_refl _) hlt
    change (0 : UInt8) = 1 at hbyte
    exact absurd hbyte (by decide)
  · intro heq H₁ H₂ h₁ h₂
    rw [sameInputs_iff h h₁ h₂ m]
    intro i hle hlt
    omega

def longerHistory (h : Negotiated fw block size ctx) (n : SizeT A) (cmd : Buffer) :
    History A size where
  fw := fw
  block := filledBlock A 0
  ctx := (filledBlock A 0).opened size
  negotiated := h.reopen _
  calls := exchange n cmd 4096 (fun _ => 0) (acceptingFirmware A 4096 4096)
  exchanges := by simp [exchange, Call.isExchange]

end Leak

theorem input_independent_of_history_4096 :
    (∀ H₁ H₂ : History .x86_64 4184, H₁.Accepts 12 (fun _ => 7) → H₂.Accepts 12 (fun _ => 7) →
      (SameInputs H₁ H₂ 12 (fun _ => 7) 4096 ↔
        ∀ i, 12 ≤ i → i < 4096 → H₁.leftover i = H₂.leftover i)) ∧
    ((∀ H₁ H₂ : History .x86_64 4184, H₁.Accepts 12 (fun _ => 7) → H₂.Accepts 12 (fun _ => 7) →
      SameInputs H₁ H₂ 12 (fun _ => 7) 4096) ↔ 12 = 4096) :=
  input_independent_of_history_iff (n := 12)
    (.of_reports (acceptingFirmware_reports .x86_64 4096 4096) (by decide)
      (filledBlock .x86_64 0)) (by decide) (by decide) (fun _ => 7) 4096

theorem input_leaks_earlier_command :
    ¬∀ H₁ H₂ : History .x86_64 4184, H₁.Accepts 12 (fun _ => 7) → H₂.Accepts 12 (fun _ => 7) →
      SameInputs H₁ H₂ 12 (fun _ => 7) 4096 := by
  intro hall
  have h := Negotiated.of_reports (acceptingFirmware_reports .x86_64 4096 4096) (by decide)
    (filledBlock .x86_64 0)
  have haccepts : TransmitAccepts ((filledBlock .x86_64 0).opened 4184) 16 :=
    (h.reopen _).accepts (by decide) (by decide)
  have hstate : (longerHistory h 16 fun _ => 90).state = _ := final_exchange haccepts rfl rfl
  have h₁ : (longerHistory h 16 fun _ => 90).Accepts 12 fun _ => 7 := by
    rw [History.Accepts, hstate]
    rfl
  have h₂ : (filledHistory h 0).Accepts 12 fun _ => 7 := rfl
  have hbyte := (sameInputs_iff h h₁ h₂ 4096).mp (hall _ _ h₁ h₂) 12 (by decide) (by decide)
  rw [← History.state_cmdBuf, hstate] at hbyte
  change (90 : UInt8) = 0 at hbyte
  exact absurd hbyte (by decide)

end TctiUefi
