import TctiUefi.EventLog.Tool
import TctiUefi.Pcr.ActiveBanks
import TctiUefi.Sapi.GetPcrs

namespace TctiUefi.Caps

open TctiUefi.EventLog TctiUefi.Pcr

def bitmapValStr (member selector : UInt32) : String :=
  if member &&& selector ≠ 0 then "true" else "false"

def bankLine (h : HashAlg) (val : String) : Print := ⟨"    " ++ h.name ++ ": %s\n", [.str val]⟩

def tcg2AlgorithmBitmapPrettyprint (bitmap : UInt32) : Trace Effect PUnit :=
  forM HashAlg.all fun h => Trace.tell (.print (bankLine h (bitmapValStr bitmap h.mask)))

def tcg2CapsPrettyprint (caps : BootServiceCapability) : Trace Effect PUnit := do
  printf "TPM2 Capabilities:\n" []
  printf "  Size: 0x%02x\n" [.int caps.size.toNat]
  printf "  StructureVersion:\n" []
  printf "    Major: 0x%02x\n" [.int caps.structureVersion.major.toNat]
  printf "    Minor: 0x%02x\n" [.int caps.structureVersion.minor.toNat]
  printf "  ProtocolVersion:\n" []
  printf "    Major: 0x%02x\n" [.int caps.protocolVersion.major.toNat]
  printf "    Minor: 0x%02x\n" [.int caps.protocolVersion.minor.toNat]
  printf "  HashAlgorithmBitmap: 0x%08x\n" [.int caps.hashAlgorithmBitmap.toNat]
  tcg2AlgorithmBitmapPrettyprint caps.hashAlgorithmBitmap
  printf "  SupportedEventLogs: 0x%08x\n" [.int caps.supportedEventLogs.toNat]
  printf "    EFI_TCG2_EVENT_LOG_FORMAT_TCG_1_2: %s\n"
    [.str (bitmapValStr caps.supportedEventLogs efiTcg2EventLogFormatTcg12)]
  printf "    EFI_TCG2_EVENT_LOG_FORMAT_TCG_2: %s\n"
    [.str (bitmapValStr caps.supportedEventLogs efiTcg2EventLogFormatTcg2)]
  printf "  TPMPresentFlag: 0x%02x : %s\n"
    [.int caps.tpmPresentFlag.toNat, .str (bitmapValStr caps.tpmPresentFlag.toUInt32 1)]
  printf "  MaxCommandSize: 0x%04x\n" [.int caps.maxCommandSize.toNat]
  printf "  MaxResponseSize: 0x%04x\n" [.int caps.maxResponseSize.toNat]
  printf "  ManufacturerID: 0x%08x\n" [.int caps.manufacturerId.toNat]
  printf "  NumberOfPcrBanks: 0x%08x\n" [.int caps.numberOfPcrBanks.toNat]
  printf "  ActivePcrBanks: 0x%08x\n" [.int caps.activePcrBanks.toNat]
  tcg2AlgorithmBitmapPrettyprint caps.activePcrBanks

namespace GetCaps

def efiMain (fw : Firmware A) : Trace Effect (EfiStatus A) :=
  match tcg2GetProtocol fw with
  | (status, none) => pure status
  | (_, some tcg2Protocol) => do
    let reply ← tcg2GetCapability tcg2Protocol .request
    if efiError reply.1 then
      pure reply.1
    else
      tcg2CapsPrettyprint reply.2
      pure reply.1

end GetCaps

namespace GetPcrBanks

def efiMain (fw : Firmware A) : Trace Effect (EfiStatus A) :=
  match tcg2GetProtocol fw with
  | (status, none) => pure status
  | (_, some tcg2Protocol) => do
    let caps ← tcg2GetCapability tcg2Protocol .request
    let protoMajor := caps.2.protocolVersion.major
    let protoMinor := caps.2.protocolVersion.minor
    if efiError caps.1 then
      pure caps.1
    -- the second half never holds, whatever the version
    else if protoMajor < 1 ∨ (protoMinor = 1 ∧ protoMinor < 1) then
      printf "ERROR: GetPcrBanks not supported in protocol version %u.%u\n"
        [.int protoMajor.toNat, .int protoMinor.toNat]
      pure 1#A.bits
    else
      let active ← tcg2GetActivePcrBanks tcg2Protocol 0
      if efiError active.1 then
        pure active.1
      else
        if active.2 ≠ caps.2.activePcrBanks then
          printf ("WARNING: GetActivePcrBanks disagrees with " ++
            "EFI_TCG2_BOOT_SERVICE_CAPABILITY.ActivePcrBanks.\n") []
        printf "GetActivePcrBanks: 0x%08x\n" [.int active.2.toNat]
        tcg2AlgorithmBitmapPrettyprint active.2
        pure active.1

end GetPcrBanks

section GetPcrBanks

def capsOf (fw : Firmware A) : Option BootServiceCapability :=
  (tcg2GetProtocol fw).2.bind fun p =>
    if efiError (p.getCapability .request).1 then none else some (p.getCapability .request).2

theorem tcg2GetCapability_of_ok {p : Tcg2Protocol A} {caps : BootServiceCapability}
    (h : efiError (p.getCapability caps).1 = false) :
    tcg2GetCapability p caps = pure (p.getCapability caps) := by
  simp [tcg2GetCapability, h]

def capabilityFailed (p : Tcg2Protocol A) : Effect :=
  .print ⟨"GetCapability failed: 0x%x\n", [.int (p.getCapability .request).1.toNat]⟩

theorem tcg2GetCapability_of_error {p : Tcg2Protocol A}
    (h : efiError (p.getCapability .request).1 = true) :
    tcg2GetCapability p .request = ⟨p.getCapability .request, [capabilityFailed p]⟩ := by
  simp only [tcg2GetCapability, h, if_true]
  rfl

def shownBanks (log : List Effect) : List HashAlg :=
  HashAlg.all.filter fun h => .print (bankLine h "true") ∈ log

def banksHeader (activeBanks : UInt32) : Effect :=
  .print ⟨"GetActivePcrBanks: 0x%08x\n", [.int activeBanks.toNat]⟩

def disagreement : Effect :=
  .print ⟨"WARNING: GetActivePcrBanks disagrees with " ++
    "EFI_TCG2_BOOT_SERVICE_CAPABILITY.ActivePcrBanks.\n", []⟩

def bankReport (caps : BootServiceCapability) (activeBanks : UInt32) : List Effect :=
  (if activeBanks ≠ caps.activePcrBanks then [disagreement] else []) ++
    banksHeader activeBanks :: (tcg2AlgorithmBitmapPrettyprint activeBanks).log

/-- What the tool needs to get from the firmware: the capabilities of any version from 1.0 on,
whatever the minor version, and the active banks. -/
structure Provides (fw : Firmware A) (caps : BootServiceCapability) (activeBanks : UInt32) :
    Prop where
  capabilities : capsOf fw = some caps
  major : 1 ≤ caps.protocolVersion.major
  banks : Sapi.GetPcrs.banksOf fw = some activeBanks

theorem log_of_provides {fw : Firmware A} {caps : BootServiceCapability} {activeBanks : UInt32}
    (h : Provides fw caps activeBanks) :
    (GetPcrBanks.efiMain fw).log = bankReport caps activeBanks := by
  obtain ⟨hcaps, hmajor, hbanks⟩ := h
  rcases hfw : tcg2GetProtocol fw with ⟨status, _ | p⟩
  · simp [capsOf, hfw] at hcaps
  · obtain ⟨hcapsOk, rfl⟩ : efiError (p.getCapability .request).1 = false ∧
        (p.getCapability .request).2 = caps := by
      simpa [capsOf, hfw] using hcaps
    obtain ⟨hbanksOk, rfl⟩ : efiError (p.getActivePcrBanks 0).1 = false ∧
        (p.getActivePcrBanks 0).2 = activeBanks := by
      simpa [Sapi.GetPcrs.banksOf, hfw] using hbanks
    have hversion : ¬((p.getCapability .request).2.protocolVersion.major < 1 ∨
        ((p.getCapability .request).2.protocolVersion.minor = 1 ∧
          (p.getCapability .request).2.protocolVersion.minor < 1)) := by
      rintro (hlt | ⟨heq, hlt⟩)
      · exact absurd hlt (UInt8.not_lt.mpr hmajor)
      · rw [heq] at hlt
        exact absurd hlt (by decide)
    have hactive : tcg2GetActivePcrBanks p 0 = pure (p.getActivePcrBanks 0) := by
      simp [tcg2GetActivePcrBanks, hbanksOk]
    simp only [GetPcrBanks.efiMain, hfw, tcg2GetCapability_of_ok hcapsOk, pure_bind, hcapsOk,
      hversion, hactive, hbanksOk, Bool.false_eq_true, if_false]
    by_cases hsame : (p.getActivePcrBanks 0).2 = (p.getCapability .request).2.activePcrBanks
    · simp [bankReport, hsame, printf, banksHeader]
    · simp [bankReport, hsame, printf, banksHeader, disagreement]

def banksFailed (p : Tcg2Protocol A) : Effect :=
  .print ⟨"GetActivePcrBanks failed: 0x%x\n", [.int (p.getActivePcrBanks 0).1.toNat]⟩

theorem log_of_not_provides {fw : Firmware A}
    (h : ∀ caps activeBanks, ¬Provides fw caps activeBanks) (activeBanks : UInt32) :
    banksHeader activeBanks ∉ (GetPcrBanks.efiMain fw).log := by
  rcases hfw : tcg2GetProtocol fw with ⟨status, _ | p⟩
  · simp [GetPcrBanks.efiMain, hfw]
  · cases hcaps : efiError (p.getCapability .request).1 with
    | true =>
      have hrun : GetPcrBanks.efiMain fw =
          ⟨(p.getCapability .request).1, [capabilityFailed p]⟩ := by
        simp only [GetPcrBanks.efiMain, hfw, tcg2GetCapability_of_error hcaps]
        simp only [Bind.bind, hcaps, if_true]
        rfl
      rw [hrun, List.mem_singleton]
      simp [capabilityFailed, banksHeader]
    | false =>
      simp only [GetPcrBanks.efiMain, hfw, tcg2GetCapability_of_ok hcaps, pure_bind, hcaps,
        Bool.false_eq_true, if_false]
      split
      · simp [printf, banksHeader]
      · rename_i hversion
        cases hbanks : efiError (p.getActivePcrBanks 0).1 with
        | true =>
          have hrun : tcg2GetActivePcrBanks p 0 = ⟨p.getActivePcrBanks 0, [banksFailed p]⟩ := by
            simp only [tcg2GetActivePcrBanks, hbanks, if_true]
            rfl
          simp only [hrun, Trace.log_bind, hbanks, if_true, Trace.log_pure, List.append_nil,
            List.mem_singleton]
          simp [banksFailed, banksHeader]
        | false =>
          have hmajor : 1 ≤ (p.getCapability .request).2.protocolVersion.major :=
            UInt8.not_lt.mp fun hlt => hversion (.inl hlt)
          refine absurd ⟨?_, hmajor, ?_⟩ (h (p.getCapability .request).2 (p.getActivePcrBanks 0).2)
          · simp [capsOf, hfw, hcaps]
          · simp [Sapi.GetPcrs.banksOf, hfw, hbanks]

theorem log_bitmap (bitmap : UInt32) : (tcg2AlgorithmBitmapPrettyprint bitmap).log =
    HashAlg.all.map fun h => .print (bankLine h (bitmapValStr bitmap h.mask)) := rfl

theorem bankLine_format (h k : HashAlg) :
    "    " ++ h.name ++ ": %s\n" = "    " ++ k.name ++ ": %s\n" → h = k := by
  cases h <;> cases k <;> decide

theorem bankLine_inj {h k : HashAlg} {v w : String} :
    bankLine h v = bankLine k w ↔ h = k ∧ v = w := by
  constructor
  · intro heq
    obtain ⟨hformat, hargs⟩ := Print.mk.inj heq
    exact ⟨bankLine_format h k hformat, by simpa using hargs⟩
  · rintro ⟨rfl, rfl⟩
    rfl

theorem mem_bankReport {caps : BootServiceCapability} {activeBanks : UInt32} {e : Effect} :
    e ∈ bankReport caps activeBanks ↔
      (activeBanks ≠ caps.activePcrBanks ∧ e = disagreement) ∨ e = banksHeader activeBanks ∨
        ∃ h, e = .print (bankLine h (bitmapValStr activeBanks h.mask)) := by
  rw [bankReport, log_bitmap, List.mem_append, List.mem_cons, List.mem_map]
  refine or_congr ?_ (or_congr Iff.rfl ?_)
  · by_cases hsame : activeBanks = caps.activePcrBanks <;> simp [hsame]
  · constructor
    · rintro ⟨h, -, rfl⟩
      exact ⟨h, rfl⟩
    · rintro ⟨h, rfl⟩
      exact ⟨h, HashAlg.mem_all h, rfl⟩

theorem banksHeader_mem_iff {caps : BootServiceCapability} {activeBanks other : UInt32} :
    banksHeader other ∈ bankReport caps activeBanks ↔ other = activeBanks := by
  rw [mem_bankReport]
  constructor
  · rintro (⟨-, heq⟩ | heq | ⟨h, heq⟩)
    · simp [banksHeader, disagreement] at heq
    · simpa [banksHeader, UInt32.toNat_inj] using heq
    · simp [banksHeader, bankLine] at heq
  · rintro rfl
    exact .inr (.inl rfl)

theorem disagreement_mem_iff {caps : BootServiceCapability} {activeBanks : UInt32} :
    disagreement ∈ bankReport caps activeBanks ↔ activeBanks ≠ caps.activePcrBanks := by
  rw [mem_bankReport]
  constructor
  · rintro (⟨hne, -⟩ | heq | ⟨h, heq⟩)
    · exact hne
    · simp [banksHeader, disagreement] at heq
    · simp [disagreement, bankLine] at heq
  · exact fun hne => .inl ⟨hne, rfl⟩

theorem bankLine_mem_bitmap_iff {bitmap : UInt32} {h : HashAlg} :
    .print (bankLine h "true") ∈ (tcg2AlgorithmBitmapPrettyprint bitmap).log ↔
      bitmap &&& h.mask ≠ 0 := by
  rw [log_bitmap, List.mem_map]
  constructor
  · rintro ⟨k, -, heq⟩
    obtain ⟨rfl, hval⟩ := bankLine_inj.mp (Effect.print.inj heq)
    rw [bitmapValStr] at hval
    split at hval
    · assumption
    · exact absurd hval (by decide)
  · intro hactive
    refine ⟨h, HashAlg.mem_all h, ?_⟩
    rw [bitmapValStr, if_pos hactive]

theorem shownBanks_bitmap (bitmap : UInt32) :
    shownBanks (tcg2AlgorithmBitmapPrettyprint bitmap).log = banks bitmap := by
  rw [shownBanks, banks]
  apply List.filter_congr
  intro h _
  rw [decide_eq_decide]
  exact bankLine_mem_bitmap_iff

theorem shownBanks_bankReport (caps : BootServiceCapability) (activeBanks : UInt32) :
    shownBanks (bankReport caps activeBanks) = banks activeBanks := by
  rw [← shownBanks_bitmap, shownBanks, shownBanks]
  apply List.filter_congr
  intro h _
  rw [decide_eq_decide, bankReport, List.mem_append, List.mem_cons]
  constructor
  · rintro (hmem | heq | hmem)
    · split at hmem
      · simp [disagreement, bankLine] at hmem
      · cases hmem
    · simp [banksHeader, bankLine] at heq
    · exact hmem
  · exact fun hmem => .inr (.inr hmem)

def lastBanks (log : List Effect) : List HashAlg :=
  shownBanks (log.drop (log.length - HashAlg.all.length))

theorem lastBanks_append (front : List Effect) (bitmap : UInt32) :
    lastBanks (front ++ (tcg2AlgorithmBitmapPrettyprint bitmap).log) = banks bitmap := by
  have hlength : (tcg2AlgorithmBitmapPrettyprint bitmap).log.length = HashAlg.all.length := by
    rw [log_bitmap, List.length_map]
  rw [lastBanks, List.length_append, hlength, Nat.add_sub_cancel, List.drop_left,
    shownBanks_bitmap]

theorem lastBanks_capsPrettyprint (caps : BootServiceCapability) :
    lastBanks (tcg2CapsPrettyprint caps).log = banks caps.activePcrBanks := by
  simp only [tcg2CapsPrettyprint, Trace.log_bind, ← List.append_assoc]
  exact lastBanks_append _ _

theorem lastBanks_getCaps {fw : Firmware A} {caps : BootServiceCapability}
    (h : capsOf fw = some caps) :
    lastBanks (GetCaps.efiMain fw).log = banks caps.activePcrBanks := by
  rcases hfw : tcg2GetProtocol fw with ⟨status, _ | p⟩
  · simp [capsOf, hfw] at h
  · obtain ⟨hok, rfl⟩ : efiError (p.getCapability .request).1 = false ∧
        (p.getCapability .request).2 = caps := by
      simpa [capsOf, hfw] using h
    rw [← lastBanks_capsPrettyprint]
    simp [GetCaps.efiMain, hfw, tcg2GetCapability_of_ok hok, hok]

theorem getPcrBanks_agrees (fw : Firmware A) (activeBanks : UInt32) :
    (banksHeader activeBanks ∈ (GetPcrBanks.efiMain fw).log ↔
        ∃ caps, Provides fw caps activeBanks) ∧
      ∀ caps, Provides fw caps activeBanks →
        shownBanks (GetPcrBanks.efiMain fw).log = banks activeBanks ∧
          (disagreement ∈ (GetPcrBanks.efiMain fw).log ↔ activeBanks ≠ caps.activePcrBanks) ∧
          lastBanks (GetCaps.efiMain fw).log = banks caps.activePcrBanks ∧
          (OnlyKnownBanks activeBanks →
            let request := (startState activeBanks).cbdata.pcrSelect
            (List.range request.count.toNat).map request.hashAt =
                (shownBanks (GetPcrBanks.efiMain fw).log).map HashAlg.id ∧
              ∀ (T : Sapi.Tss A) (τ : Type) (L : Sapi.SapiLibrary T τ) (P : Sapi.Platform T)
                (st : Sapi.Station T τ) (fuel : Nat),
                (Sapi.sysUefiInit P st.heap).val.rc = .success → ∃ reply rest,
                  Client.callsOf (Sapi.GetPcrs.efiMain L P fw (fuel + 1) st) =
                    (.pcrRead request zeroSelection, reply) :: rest) := by
  constructor
  · constructor
    · intro hmem
      by_contra hnot
      by_cases h : ∃ caps other, Provides fw caps other
      · obtain ⟨caps, other, hprovides⟩ := h
        rw [log_of_provides hprovides, banksHeader_mem_iff] at hmem
        exact hnot ⟨caps, hmem ▸ hprovides⟩
      · exact log_of_not_provides (fun caps other hprovides => h ⟨caps, other, hprovides⟩) _ hmem
    · rintro ⟨caps, hprovides⟩
      rw [log_of_provides hprovides]
      exact banksHeader_mem_iff.mpr rfl
  · intro caps hprovides
    rw [log_of_provides hprovides, shownBanks_bankReport]
    refine ⟨rfl, disagreement_mem_iff, lastBanks_getCaps hprovides.capabilities, ?_⟩
    intro hknown
    refine ⟨selectAllActivePcrs_hashes hknown, ?_⟩
    intro T τ L P st fuel hsetup
    rw [Sapi.GetPcrs.callsOf_efiMain hprovides.banks hsetup]
    exact ⟨_, _, Sapi.GetPcrs.calls_readRounds _ fuel (startState activeBanks) _⟩

end GetPcrBanks
end TctiUefi.Caps
