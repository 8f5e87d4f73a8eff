import TctiUefi.Tcti.Spec

namespace TctiUefi

def TctiUefiContext.opened (block : TctiUefiContext A) (n : SizeT A) : TctiUefiContext A :=
  { block with
    common := initCommon
    state := .transmit
    size := n - BitVec.ofNat _ (sizeofContext A) }

def initMembers : List CtxMember :=
  [.magic, .version, .transmit, .receive, .finalize, .cancel, .getPollHandles, .setLocality,
    .makeSticky, .state, .size]

theorem tss2TctiUefiInit_block (block : TctiUefiContext A) (n : SizeT A) (conf : Option String)
    (fw : Firmware A) :
    tss2TctiUefiInit (some block) (some n) conf fw =
      ⟨⟨.success, some (block.opened n), some n⟩,
        initMembers.map fun x => .write (memberSpan A x)⟩ := rfl

@[simp] theorem opened_valid (block : TctiUefiContext A) (n : SizeT A) : (block.opened n).Valid :=
  ⟨rfl, rfl⟩

theorem toNat_sizeofContext (A : Arch) :
    (BitVec.ofNat A.bits (sizeofContext A)).toNat = sizeofContext A := by
  rw [BitVec.toNat_ofNat, Nat.mod_eq_of_lt]
  simpa using sizeofContext_add_lt A (n := 0) (by decide)

theorem opened_size_of_le {block : TctiUefiContext A} {n : SizeT A}
    (h : sizeofContext A ≤ n.toNat) :
    (block.opened n).size.toNat = n.toNat - sizeofContext A := by
  have hle : BitVec.ofNat A.bits (sizeofContext A) ≤ n := by
    rw [BitVec.le_def, toNat_sizeofContext]
    exact h
  simp only [TctiUefiContext.opened]
  rw [BitVec.toNat_sub_of_le hle, toNat_sizeofContext]

theorem toNat_sizeofTctiUefiContext {fw : Firmware A} {p : Tcg2Protocol A}
    (hp : (tcg2GetProtocol fw).2 = some p) (h : (tcg2GetMaxBuf p).val ≠ 0) :
    (sizeofTctiUefiContext fw).val.toNat =
      (tcg2GetMaxBuf p).val.toNat + sizeofContext A := by
  have hlt : (tcg2GetMaxBuf p).val.toNat < 2 ^ 16 := (tcg2GetMaxBuf p).val.toNat_lt
  have hroom := sizeofContext_add_lt A hlt
  have hmax : (BitVec.ofNat A.bits (tcg2GetMaxBuf p).val.toNat).toNat =
      (tcg2GetMaxBuf p).val.toNat := by
    rw [BitVec.toNat_ofNat, Nat.mod_eq_of_lt]
    omega
  have hpos : 0#A.bits + BitVec.ofNat _ (tcg2GetMaxBuf p).val.toNat ≠ 0#A.bits := by
    intro hzero
    apply h
    apply UInt16.toNat_inj.mp
    rw [← hmax, ← BitVec.zero_add (BitVec.ofNat _ _), hzero]
    simp
  simp only [sizeofTctiUefiContext, hp, Trace.val_bind, if_neg hpos, Trace.val_pure]
  rw [BitVec.zero_add, BitVec.toNat_add, hmax, toNat_sizeofContext, Nat.mod_eq_of_lt hroom]

theorem sizeofTctiUefiContext_cases (fw : Firmware A) :
    (sizeofTctiUefiContext fw).val = 0#A.bits ∨
      ∃ maxBuf : UInt16, maxBuf ≠ 0 ∧
        (sizeofTctiUefiContext fw).val.toNat = maxBuf.toNat + sizeofContext A := by
  cases hp : (tcg2GetProtocol fw).2 with
  | none => left; simp [sizeofTctiUefiContext, hp]
  | some p =>
    by_cases h : (tcg2GetMaxBuf p).val = 0
    · left; simp [sizeofTctiUefiContext, hp, h]
    · right; exact ⟨_, h, toNat_sizeofTctiUefiContext hp h⟩

section Reports

variable {fw : Firmware A} {c r : UInt16}

theorem tcg2GetProtocol_of_reports (h : fw.Reports c r) :
    (tcg2GetProtocol fw).2 = some fw.locateProtocol.2 := by simp [tcg2GetProtocol, h.located]

theorem toNat_sizeof_of_reports (h : fw.Reports c r) (hpos : c ≠ 0 ∨ r ≠ 0) :
    (sizeofTctiUefiContext fw).val.toNat = max c.toNat r.toNat + sizeofContext A := by
  rw [← tcg2GetMaxBuf_of_reports h]
  apply toNat_sizeofTctiUefiContext (tcg2GetProtocol_of_reports h)
  intro hzero
  have hmax := tcg2GetMaxBuf_of_reports h
  rw [hzero] at hmax
  simp only [UInt16.toNat_zero] at hmax
  have hc : c = 0 := UInt16.toNat_inj.mp (by simp only [UInt16.toNat_zero]; omega)
  have hr : r = 0 := UInt16.toNat_inj.mp (by simp only [UInt16.toNat_zero]; omega)
  exact hpos.elim (· hc) (· hr)

theorem tss2TctiUefiInit_query (h : fw.Reports c r) (hpos : c ≠ 0 ∨ r ≠ 0) (n : SizeT A)
    (conf : Option String) :
    (tss2TctiUefiInit none (some n) conf fw).val =
      ⟨.success, none, some (sizeofTctiUefiContext fw).val⟩ := by
  have hne : (sizeofTctiUefiContext fw).val ≠ 0#A.bits := by
    intro hzero
    have hsize := toNat_sizeof_of_reports h hpos
    rw [hzero] at hsize
    have : sizeofContext A ≠ 0 := by cases A <;> decide
    simp only [BitVec.toNat_zero] at hsize
    omega
  simp [tss2TctiUefiInit, hne]

end Reports

/-- `ctx` was set up the way the library asks for: a size query, then Init on a block
with the queried size. -/
structure Negotiated (fw : Firmware A) (block : TctiUefiContext A) (size : SizeT A)
    (ctx : TctiUefiContext A) : Prop where
  query : ∃ n conf, (tss2TctiUefiInit none (some n) conf fw).val = ⟨.success, none, some size⟩
  init : ∃ conf fw', (tss2TctiUefiInit (some block) (some size) conf fw').val =
    ⟨.success, some ctx, some size⟩

namespace Negotiated

variable {fw : Firmware A} {block ctx : TctiUefiContext A} {size : SizeT A}

theorem size_eq (h : Negotiated fw block size ctx) :
    size = (sizeofTctiUefiContext fw).val ∧ size ≠ 0#A.bits := by
  obtain ⟨n, conf, hquery⟩ := h.query
  by_cases hzero : (sizeofTctiUefiContext fw).val = 0#A.bits
  · simp [tss2TctiUefiInit, hzero] at hquery
  · simp only [tss2TctiUefiInit, Trace.val_bind, if_neg hzero, Trace.val_pure,
      InitResult.mk.injEq, true_and, Option.some.injEq] at hquery
    exact ⟨hquery.symm, hquery ▸ hzero⟩

theorem ctx_eq (h : Negotiated fw block size ctx) : ctx = block.opened size := by
  obtain ⟨conf, fw', hinit⟩ := h.init
  rw [tss2TctiUefiInit_block] at hinit
  simpa using (InitResult.mk.inj hinit).2.1.symm

theorem capacity (h : Negotiated fw block size ctx) :
    ∃ maxBuf : UInt16, maxBuf ≠ 0 ∧ ctx.size.toNat = maxBuf.toNat ∧
      size.toNat = maxBuf.toNat + sizeofContext A := by
  obtain ⟨hsize, hne⟩ := h.size_eq
  rcases sizeofTctiUefiContext_cases fw with hzero | ⟨maxBuf, hpos, htoNat⟩
  · exact absurd (hsize.trans hzero) hne
  · rw [← hsize] at htoNat
    refine ⟨maxBuf, hpos, ?_, htoNat⟩
    rw [h.ctx_eq, opened_size_of_le (by omega), htoNat, Nat.add_sub_cancel]

theorem capacity_lt (h : Negotiated fw block size ctx) : ctx.size.toNat < 2 ^ 16 := by
  obtain ⟨maxBuf, _, hcap, _⟩ := h.capacity
  exact hcap ▸ maxBuf.toNat_lt

theorem capacity_of_reports (h : Negotiated fw block size ctx) (hfw : fw.Reports c r)
    (hpos : c ≠ 0 ∨ r ≠ 0) : ctx.size.toNat = max c.toNat r.toNat := by
  have hsize := toNat_sizeof_of_reports hfw hpos
  rw [← h.size_eq.1] at hsize
  rw [h.ctx_eq, opened_size_of_le (by omega), hsize, Nat.add_sub_cancel]

theorem limits_ne_zero (h : Negotiated fw block size ctx) (hfw : fw.Reports c r) :
    c ≠ 0 ∨ r ≠ 0 := by
  by_contra hzero
  push Not at hzero
  obtain ⟨rfl, rfl⟩ := hzero
  have hmax := tcg2GetMaxBuf_of_reports hfw
  have hbuf : (tcg2GetMaxBuf fw.locateProtocol.2).val = 0 :=
    UInt16.toNat_inj.mp (hmax.trans (Nat.max_self 0))
  obtain ⟨hsize, hne⟩ := h.size_eq
  apply hne
  rw [hsize]
  simp [sizeofTctiUefiContext, tcg2GetProtocol_of_reports hfw, hbuf]

theorem of_reports (hfw : fw.Reports c r) (hpos : c ≠ 0 ∨ r ≠ 0) (block : TctiUefiContext A) :
    Negotiated fw block (sizeofTctiUefiContext fw).val
      (block.opened (sizeofTctiUefiContext fw).val) where
  query := ⟨0, none, tss2TctiUefiInit_query hfw hpos 0 none⟩
  init := ⟨none, fw, rfl⟩

theorem reopen (h : Negotiated fw block size ctx) (block' : TctiUefiContext A) :
    Negotiated fw block' size (block'.opened size) where
  query := h.query
  init := ⟨none, fw, rfl⟩

end Negotiated

def zeroCommon : TctiContextCommon where
  magic := 0
  version := 0
  transmit := .null
  receive := .null
  finalize := .null
  cancel := .null
  getPollHandles := .null
  setLocality := .null
  makeSticky := .null

def filledBlock (A : Arch) (b : UInt8) : TctiUefiContext A where
  common := zeroCommon
  state := .final
  size := 0
  cmdBuf := fun _ => b

def acceptingProtocol (A : Arch) (maxCommandSize maxResponseSize : UInt16) : Tcg2Protocol A where
  getCapability caps :=
    (efiSuccess A,
      { caps with maxCommandSize := maxCommandSize, maxResponseSize := maxResponseSize })
  getEventLog _ := (efiSuccess A, ⟨0, 0, false⟩)
  submitCommand _ _ _ out := (efiSuccess A, out)
  getActivePcrBanks banks := (efiSuccess A, banks)

def acceptingFirmware (A : Arch) (maxCommandSize maxResponseSize : UInt16) : Firmware A where
  locateProtocol := (efiSuccess A, acceptingProtocol A maxCommandSize maxResponseSize)

theorem acceptingFirmware_reports (A : Arch) (c r : UInt16) :
    (acceptingFirmware A c r).Reports c r where
  located := efiError_efiSuccess A
  answered := efiError_efiSuccess A
  command := rfl
  response := rfl

end TctiUefi
