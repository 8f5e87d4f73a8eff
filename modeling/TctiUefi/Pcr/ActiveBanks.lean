import TctiUefi.Pcr.Selection

namespace TctiUefi.Pcr

/-- The list holds an entry for each known bank that is active, in the order of the tests,
with PCRs 0 to 23 selected, and nothing past the array of the list has changed. -/
structure SelectsActiveBanks (activeBanks : UInt32) (before after : TpmlPcrSelection) : Prop where
  hashes : (List.range after.count.toNat).map after.hashAt = (banks activeBanks).map HashAlg.id
  pcrs : ∀ i < after.count.toNat, ∀ pcr < tpm2MaxPcrs,
    isPcrSelected (after.pcrSelections i).pcrSelect (UInt8.ofNat pcr) = decide (pcr < 24)
  capacity : after.count.toNat ≤ tpm2NumPcrBanks
  frame : ∀ i, tpm2NumPcrBanks ≤ i → after.pcrSelections i = before.pcrSelections i

section Entries

variable {activeBanks : UInt32} {selections : TpmlPcrSelection}

/-- Three bytes are set, and `foreach_selection` looks at four. -/
theorem isPcrSelected_allPcrs (h : HashAlg) (old : TpmsPcrSelection) {pcr : Nat}
    (hpcr : pcr < tpm2MaxPcrs) :
    isPcrSelected (allPcrs h old).pcrSelect (UInt8.ofNat pcr) =
      (decide (pcr < 24) || old.pcrSelect.hasBit pcr) := by
  have hlt : pcr < 32 := hpcr
  have hnat : (UInt8.ofNat pcr).toNat = pcr :=
    UInt8.toNat_ofNat_of_lt' (Nat.lt_trans hlt (by decide))
  rw [isPcrSelected_eq, hnat]
  simp only [allPcrs, Buffer.hasBit, Buffer.write]
  by_cases hset : pcr < 24
  · have hbyte : pcr / 8 < 3 := by omega
    have hbit : ∀ j < 8, (0xff : UInt8).toBitVec.getLsbD j = true := by decide
    have hget : (List.replicate 3 (0xff : UInt8)).getD (pcr / 8)
        (old.pcrSelect (pcr / 8)) = 0xff := by
      rw [List.getD_eq_getElem?_getD, List.getElem?_replicate, if_pos hbyte, Option.getD_some]
    rw [hget, hbit _ (Nat.mod_lt _ (by decide)), decide_eq_true hset, Bool.true_or]
  · have hbyte : pcr / 8 = 3 := by omega
    rw [hbyte, decide_eq_false hset, Bool.false_or]
    rfl

theorem hasBit_of_last_byte {old : Buffer} :
    (∀ pcr, 24 ≤ pcr → pcr < tpm2MaxPcrs → old.hasBit pcr = false) ↔ old 3 = 0 := by
  constructor
  · intro hbits
    apply UInt8.eq_of_toBitVec_eq
    apply BitVec.eq_of_getLsbD_eq
    intro j hj
    have hdiv : (24 + j) / 8 = 3 := by omega
    have hmod : (24 + j) % 8 = j := by omega
    have hbit := hbits (24 + j) (Nat.le_add_right _ _) (Nat.add_lt_add_left hj 24)
    rw [Buffer.hasBit, hdiv, hmod] at hbit
    rw [hbit]
    exact (BitVec.getLsbD_zero).symm
  · intro hzero pcr hge hlt
    have hmax : pcr < 32 := hlt
    have hdiv : pcr / 8 = 3 := by omega
    rw [Buffer.hasBit, hdiv, hzero]
    exact BitVec.getLsbD_zero

theorem selectAllActivePcrs_hashes (hknown : OnlyKnownBanks activeBanks) :
    (List.range (selectAllActivePcrs activeBanks selections).count.toNat).map
        (selectAllActivePcrs activeBanks selections).hashAt =
      (banks activeBanks).map HashAlg.id := by
  rw [selectAllActivePcrs_count hknown]
  apply List.ext_getElem
  · simp
  · intro i hi hbanks
    have hlt : i < (banks activeBanks).length := by simpa using hbanks
    rw [List.getElem_map, List.getElem_range, List.getElem_map, TpmlPcrSelection.hashAt,
      selectAllActivePcrs_entry hknown selections hlt]
    rfl

theorem selectAllActivePcrs_frame (hknown : OnlyKnownBanks activeBanks) {i : Nat}
    (hi : (banks activeBanks).length ≤ i) :
    (selectAllActivePcrs activeBanks selections).pcrSelections i =
      selections.pcrSelections i := by
  simp only [selectAllActivePcrs, (countAlgsInBitmap_eq_iff activeBanks).mpr hknown]
  rw [selectLoop_of_banks rfl]
  simp [List.getElem?_eq_none hi]

theorem selectsActiveBanks_iff (activeBanks : UInt32) (selections : TpmlPcrSelection) :
    SelectsActiveBanks activeBanks selections (selectAllActivePcrs activeBanks selections) ↔
      OnlyKnownBanks activeBanks ∧
        ∀ i < (banks activeBanks).length, (selections.pcrSelections i).pcrSelect 3 = 0 := by
  constructor
  · intro hselects
    have hcount := congrArg List.length hselects.hashes
    rw [List.length_map, List.length_range, List.length_map, count_toNat] at hcount
    have hknown := (countAlgsInBitmap_eq_iff activeBanks).mp hcount
    refine ⟨hknown, ?_⟩
    intro i hi
    apply hasBit_of_last_byte.mp
    intro pcr hge hlt
    have hselected := hselects.pcrs i (by rwa [count_toNat, hcount]) pcr hlt
    rw [selectAllActivePcrs_entry hknown selections hi, isPcrSelected_allPcrs _ _ hlt,
      decide_eq_false (Nat.not_lt.mpr hge), Bool.false_or] at hselected
    exact hselected
  · rintro ⟨hknown, hclear⟩
    have hlen := length_banks activeBanks
    have hcount := selectAllActivePcrs_count hknown selections
    refine ⟨selectAllActivePcrs_hashes hknown, ?_, ?_, ?_⟩
    · intro i hi pcr hpcr
      rw [hcount] at hi
      rw [selectAllActivePcrs_entry hknown selections hi, isPcrSelected_allPcrs _ _ hpcr]
      by_cases hset : pcr < 24
      · rw [decide_eq_true hset, Bool.true_or]
      · rw [hasBit_of_last_byte.mpr (hclear i hi) pcr (Nat.not_lt.mp hset) hpcr, Bool.or_false]
    · rw [hcount]
      exact Nat.le_trans hlen (by decide)
    · intro i hi
      exact selectAllActivePcrs_frame hknown (Nat.le_trans hlen (Nat.le_trans (by decide) hi))

end Entries

def clearedSelections : TpmlPcrSelection where
  count := 0
  pcrSelections := fun _ => ⟨0, 0, fun _ => 0⟩

theorem unknown_bank_selected :
    ¬SelectsActiveBanks 0x21 clearedSelections (selectAllActivePcrs 0x21 clearedSelections) := by
  intro hselects
  exact absurd hselects.hashes (by decide)

end TctiUefi.Pcr
