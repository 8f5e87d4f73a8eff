import TctiUefi.Algorithm
import TctiUefi.Lib.Buffer
import TctiUefi.Lib.Loop
import Mathlib.Data.BitVec
import Mathlib.Data.List.Nodup
import Mathlib.Data.List.NodupEquivFin

namespace TctiUefi.Pcr

def tpm2MaxPcrs : Nat := 32
def tpm2NumPcrBanks : Nat := 16

def promote (b : UInt8) : BitVec 32 := b.toBitVec.setWidth 32

def isPcrSelected (pcrSelection : Buffer) (pcr : UInt8) : Bool :=
  promote (pcrSelection (pcr.toNat / 8)) &&& (1#32 <<< (pcr.toNat % 8)) != 0#32

def selectPcr (pcrSelection : Buffer) (pcr : UInt8) : Buffer :=
  Function.update pcrSelection (pcr.toNat / 8)
    (.ofBitVec ((promote (pcrSelection (pcr.toNat / 8)) ||| (1#32 <<< (pcr.toNat % 8))).setWidth 8))

def deselectPcr (pcrSelection : Buffer) (pcr : UInt8) : Buffer :=
  Function.update pcrSelection (pcr.toNat / 8)
    (.ofBitVec
      ((promote (pcrSelection (pcr.toNat / 8)) &&& ~~~(1#32 <<< (pcr.toNat % 8))).setWidth 8))

structure TpmsPcrSelection where
  hash : UInt16
  sizeofSelect : UInt8
  pcrSelect : Buffer

/-- `TPML_PCR_SELECTION`.  The array gives access to the memory past its end too. -/
structure TpmlPcrSelection where
  count : UInt32
  pcrSelections : Nat → TpmsPcrSelection

def foreachSelection (pcrSelection : TpmlPcrSelection)
    (callback : UInt16 → UInt8 → σ → Trace ε (Bool × σ)) (data : σ) : Trace ε σ := do
  let r ← forWhile (fun i data =>
    forWhile (fun pcr data =>
      let selection := pcrSelection.pcrSelections i
      if isPcrSelected selection.pcrSelect (UInt8.ofNat pcr) then
        callback selection.hash (UInt8.ofNat pcr) data
      else
        pure (true, data)) (List.range tpm2MaxPcrs) data) (List.range pcrSelection.count.toNat) data
  pure r.2

def countAlgsInBitmap (bitmap : UInt32) : Nat :=
  (List.range 32).foldl (fun bitcount i => bitcount + ((bitmap >>> UInt32.ofNat i) &&& 1).toNat) 0

def firstBank (activeBanks : UInt32) : Option HashAlg :=
  HashAlg.all.find? fun h => activeBanks &&& h.mask ≠ 0

/-- The loop of `select_all_active_pcrs`.  The first argument is `count - i`. -/
def selectLoop : Nat → Nat → UInt32 → (Nat → TpmsPcrSelection) → Nat → TpmsPcrSelection
  | 0, _, _, selections => selections
  | left + 1, i, activeBanks, selections =>
    let selection : TpmsPcrSelection :=
      { selections i with
        sizeofSelect := 3
        pcrSelect := (selections i).pcrSelect.write (List.replicate 3 0xff) }
    match firstBank activeBanks with
    | some h =>
      selectLoop left (i + 1) (activeBanks &&& ~~~h.mask)
        (Function.update selections i { selection with hash := h.id })
    | none => selectLoop left (i + 1) activeBanks (Function.update selections i selection)

def selectAllActivePcrs (activeBanks : UInt32) (selections : TpmlPcrSelection) :
    TpmlPcrSelection where
  count := UInt32.ofNat (countAlgsInBitmap activeBanks)
  pcrSelections :=
    selectLoop (countAlgsInBitmap activeBanks) 0 activeBanks selections.pcrSelections

section Bits

variable (s : Buffer) (pcr : UInt8)

theorem isPcrSelected_eq : isPcrSelected s pcr = s.hasBit pcr.toNat := by
  have hlt : pcr.toNat % 8 < 8 := Nat.mod_lt _ (by decide)
  have hne : BitVec.twoPow 32 (pcr.toNat % 8) ≠ 0#32 := by
    intro hzero
    have hbit := congrArg (fun x => BitVec.getLsbD x (pcr.toNat % 8)) hzero
    simp at hbit
    omega
  rw [isPcrSelected, ← BitVec.twoPow_eq, BitVec.and_twoPow, promote, BitVec.getLsbD_setWidth,
    Buffer.hasBit]
  cases (s (pcr.toNat / 8)).toBitVec.getLsbD (pcr.toNat % 8) with
  | false => simp
  | true => simp [hne]; omega

theorem getLsbD_one_shiftLeft {j k : Nat} (hj : j < 8) :
    (1#32 <<< k).getLsbD j = decide (j = k) := by
  rw [← BitVec.twoPow_eq, BitVec.getLsbD_twoPow]
  by_cases h : k = j
  · simp [h]; omega
  · simp [h, Ne.symm h]

theorem hasBit_update {x : BitVec 32} {f : Bool → Bool}
    (h : ∀ j < 8, x.getLsbD j = if j = pcr.toNat % 8 then
      f ((s (pcr.toNat / 8)).toBitVec.getLsbD j) else (s (pcr.toNat / 8)).toBitVec.getLsbD j)
    (q : Nat) :
    Buffer.hasBit (Function.update s (pcr.toNat / 8) (.ofBitVec (x.setWidth 8))) q =
      if q = pcr.toNat then f (s.hasBit q) else s.hasBit q := by
  have hq : q % 8 < 8 := Nat.mod_lt _ (by decide)
  unfold Buffer.hasBit
  by_cases hbyte : q / 8 = pcr.toNat / 8
  · rw [hbyte, Function.update_self]
    simp only [BitVec.getLsbD_setWidth, hq, decide_true, Bool.true_and]
    rw [h _ hq]
    have hiff : q % 8 = pcr.toNat % 8 ↔ q = pcr.toNat := by omega
    simp only [hiff]
  · have hne : q ≠ pcr.toNat := by
      intro heq
      exact hbyte (congrArg (· / 8) heq)
    rw [Function.update_of_ne hbyte, if_neg hne]

theorem hasBit_selectPcr (q : Nat) :
    (selectPcr s pcr).hasBit q = (s.hasBit q || decide (q = pcr.toNat)) := by
  rw [selectPcr, hasBit_update (f := fun _ => true)]
  · by_cases h : q = pcr.toNat <;> simp [h]
  · intro j hj
    have hint : j < 32 := Nat.lt_trans hj (by decide)
    rw [BitVec.getLsbD_or, getLsbD_one_shiftLeft hj, promote, BitVec.getLsbD_setWidth]
    by_cases h : j = pcr.toNat % 8
    · simp [h]
    · simp [h, hint]

theorem hasBit_deselectPcr (q : Nat) :
    (deselectPcr s pcr).hasBit q = (s.hasBit q && decide (q ≠ pcr.toNat)) := by
  rw [deselectPcr, hasBit_update (f := fun _ => false)]
  · by_cases h : q = pcr.toNat <;> simp [h]
  · intro j hj
    have hint : j < 32 := Nat.lt_trans hj (by decide)
    rw [BitVec.getLsbD_and, BitVec.getLsbD_not, getLsbD_one_shiftLeft hj, promote,
      BitVec.getLsbD_setWidth]
    by_cases h : j = pcr.toNat % 8
    · simp [h]
    · simp [h, hint]

end Bits

/-- The positions in a list of `n` banks, as bank index and PCR, in the order of the loops. -/
def positions (n : Nat) : List (Nat × Nat) :=
  (List.range n).flatMap fun i => (List.range tpm2MaxPcrs).map fun p => (i, p)

theorem mem_positions {n : Nat} {x : Nat × Nat} :
    x ∈ positions n ↔ x.1 < n ∧ x.2 < tpm2MaxPcrs := by
  obtain ⟨i, p⟩ := x
  simp [positions]

theorem nodup_positions (n : Nat) : (positions n).Nodup := by
  rw [positions, List.nodup_flatMap]
  constructor
  · intro i _
    exact List.nodup_range.map fun p q h => (Prod.mk.inj h).2
  · refine List.nodup_range.imp ?_
    intro i j hij x hi hj
    simp only [List.mem_map, List.mem_range] at hi hj
    obtain ⟨p, _, rfl⟩ := hi
    obtain ⟨q, _, hq⟩ := hj
    exact hij (Prod.mk.inj hq).1.symm

namespace TpmlPcrSelection

def has (sel : TpmlPcrSelection) (x : Nat × Nat) : Bool :=
  (sel.pcrSelections x.1).pcrSelect.hasBit x.2

def hashAt (sel : TpmlPcrSelection) (i : Nat) : UInt16 := (sel.pcrSelections i).hash

def pair (sel : TpmlPcrSelection) (x : Nat × Nat) : UInt16 × UInt8 :=
  (sel.hashAt x.1, UInt8.ofNat x.2)

def selected (sel : TpmlPcrSelection) : List (Nat × Nat) :=
  (positions sel.count.toNat).filter sel.has

end TpmlPcrSelection

theorem foreachSelection_eq (sel : TpmlPcrSelection)
    (callback : UInt16 → UInt8 → σ → Trace ε (Bool × σ)) (data : σ) :
    foreachSelection sel callback data = Prod.snd <$>
      forWhile (fun x => callback (sel.hashAt x.1) (UInt8.ofNat x.2)) sel.selected data := by
  rw [TpmlPcrSelection.selected, forWhile_filter, positions, forWhile_flatMap, foreachSelection]
  rw [map_eq_pure_bind]
  congr 1
  apply forWhile_congr
  intro i _ s
  rw [forWhile_map]
  apply forWhile_congr
  intro p hp s
  have hnat : (UInt8.ofNat p).toNat = p := by
    have hlt : p < 32 := List.mem_range.mp hp
    exact UInt8.toNat_ofNat_of_lt' (Nat.lt_trans hlt (by decide))
  simp only [isPcrSelected_eq, hnat]
  rfl

section SelectAll

def banks (activeBanks : UInt32) : List HashAlg :=
  HashAlg.all.filter fun h => activeBanks &&& h.mask ≠ 0

theorem mem_banks {activeBanks : UInt32} {h : HashAlg} :
    h ∈ banks activeBanks ↔ activeBanks &&& h.mask ≠ 0 := by
  rw [banks, List.mem_filter, decide_eq_true_eq]
  exact and_iff_right (HashAlg.mem_all h)

theorem nodup_banks (activeBanks : UInt32) : (banks activeBanks).Nodup :=
  HashAlg.nodup_all.filter _

theorem firstBank_eq (activeBanks : UInt32) : firstBank activeBanks = (banks activeBanks).head? :=
  (List.head?_filter ..).symm

theorem clear_and_mask (activeBanks : UInt32) (h k : HashAlg) :
    activeBanks &&& ~~~h.mask &&& k.mask ≠ 0 ↔ activeBanks &&& k.mask ≠ 0 ∧ k ≠ h := by
  have hmask : ~~~h.mask &&& k.mask = if k = h then 0 else k.mask := by
    cases h <;> cases k <;> decide
  rw [UInt32.and_assoc, hmask]
  by_cases heq : k = h
  · simp [heq]
  · simp [heq]

theorem banks_clear {activeBanks : UInt32} {h : HashAlg} {hs : List HashAlg}
    (hbanks : banks activeBanks = h :: hs) : banks (activeBanks &&& ~~~h.mask) = hs := by
  have hnodup : (h :: hs).Nodup := hbanks ▸ nodup_banks activeBanks
  have hfilter : banks (activeBanks &&& ~~~h.mask) =
      (banks activeBanks).filter fun k => k ≠ h := by
    simp only [banks, clear_and_mask, List.filter_filter]
    apply List.filter_congr
    intro k _
    simp [and_comm]
  rw [hfilter, hbanks, List.filter_cons_of_neg (by simp), List.filter_eq_self]
  intro k hk
  have hne : k ≠ h := by
    rintro rfl
    exact (List.nodup_cons.mp hnodup).1 hk
  simpa using hne

def allPcrs (h : HashAlg) (old : TpmsPcrSelection) : TpmsPcrSelection where
  hash := h.id
  sizeofSelect := 3
  pcrSelect := old.pcrSelect.write (List.replicate 3 0xff)

theorem selectLoop_of_banks {hs : List HashAlg} {activeBanks : UInt32}
    (hbanks : banks activeBanks = hs) (i : Nat) (selections : Nat → TpmsPcrSelection) (j : Nat) :
    selectLoop hs.length i activeBanks selections j =
      match (if i ≤ j then hs[j - i]? else none) with
      | some h => allPcrs h (selections j)
      | none => selections j := by
  induction hs generalizing activeBanks i selections with
  | nil => simp [selectLoop]
  | cons h hs ih =>
    have hfirst : firstBank activeBanks = some h := by rw [firstBank_eq, hbanks, List.head?_cons]
    rw [List.length_cons, selectLoop, hfirst]
    simp only [ih (banks_clear hbanks)]
    rcases Nat.lt_trichotomy j i with hlt | rfl | hgt
    · have hij : ¬i ≤ j := by omega
      have hij' : ¬i + 1 ≤ j := by omega
      simp [hij, hij', Function.update_of_ne (Nat.ne_of_lt hlt)]
    · have hij' : ¬j + 1 ≤ j := by omega
      simp [hij', allPcrs]
    · have hij : i ≤ j := by omega
      have hij' : i + 1 ≤ j := by omega
      obtain ⟨k, rfl⟩ := Nat.exists_eq_add_of_le hij'
      have hk : i + 1 + k - i = k + 1 := by omega
      have hk' : i + 1 + k - (i + 1) = k := by omega
      rw [if_pos hij, if_pos hij', hk, hk', List.getElem?_cons_succ,
        Function.update_of_ne (by omega)]

/-- No bit of the bitmap stands for an algorithm the tools do not know. -/
def OnlyKnownBanks (activeBanks : UInt32) : Prop := activeBanks &&& ~~~0x1f = 0

instance (activeBanks : UInt32) : Decidable (OnlyKnownBanks activeBanks) :=
  inferInstanceAs (Decidable (_ = _))

theorem and_mask_ne_zero (activeBanks : UInt32) (h : HashAlg) :
    activeBanks &&& h.mask ≠ 0 ↔ activeBanks.toBitVec.getLsbD h.bit = true := by
  have hlt : h.bit < 32 := by cases h <;> decide
  have hpos : BitVec.twoPow 32 h.bit ≠ 0#32 := by cases h <;> decide
  rw [ne_eq, ← UInt32.toBitVec_inj, UInt32.toBitVec_and, HashAlg.mask_eq_twoPow, BitVec.and_twoPow]
  cases activeBanks.toBitVec.getLsbD h.bit with
  | false => simp
  | true => simpa using hpos

theorem length_banks_eq (activeBanks : UInt32) :
    (banks activeBanks).length = (List.range 5).countP activeBanks.toBitVec.getLsbD := by
  have hbits : List.range 5 = HashAlg.all.map HashAlg.bit := by decide
  rw [banks, ← List.countP_eq_length_filter, hbits, List.countP_map]
  apply List.countP_congr
  intro h _
  simp only [decide_eq_true_eq, Function.comp_apply]
  exact and_mask_ne_zero activeBanks h

theorem toNat_bit (bitmap : UInt32) {i : Nat} (hi : i < 32) :
    ((bitmap >>> UInt32.ofNat i) &&& 1).toNat = if bitmap.toBitVec.getLsbD i then 1 else 0 := by
  have hshift : (UInt32.ofNat i).toNat = i :=
    UInt32.toNat_ofNat_of_lt' (Nat.lt_trans hi (by decide))
  rw [UInt32.toNat_and, UInt32.toNat_shiftRight, hshift, Nat.mod_eq_of_lt hi, UInt32.toNat_one,
    Nat.and_one_is_mod, BitVec.getLsbD, Nat.testBit_eq_decide_div_mod_eq, Nat.shiftRight_eq_div_pow]
  have hmod := Nat.mod_two_eq_zero_or_one (bitmap.toNat / 2 ^ i)
  rcases hmod with hmod | hmod <;> simp [hmod]

theorem foldl_add_eq_countP (p : Nat → Bool) (f : Nat → Nat) (is : List Nat)
    (hf : ∀ i ∈ is, f i = if p i then 1 else 0) (n : Nat) :
    is.foldl (fun bitcount i => bitcount + f i) n = n + is.countP p := by
  induction is generalizing n with
  | nil => rfl
  | cons i is ih =>
    have htail : ∀ j ∈ is, f j = if p j then 1 else 0 :=
      fun j hj => hf j (List.mem_cons_of_mem _ hj)
    rw [List.foldl_cons, ih htail, hf i (List.mem_cons_self ..), List.countP_cons]
    omega

theorem countAlgsInBitmap_eq (bitmap : UInt32) :
    countAlgsInBitmap bitmap = (List.range 32).countP bitmap.toBitVec.getLsbD := by
  rw [countAlgsInBitmap, foldl_add_eq_countP bitmap.toBitVec.getLsbD]
  · exact Nat.zero_add _
  · intro i hi
    exact toNat_bit bitmap (List.mem_range.mp hi)

theorem onlyKnownBanks_iff_bits (activeBanks : UInt32) :
    OnlyKnownBanks activeBanks ↔
      ∀ i ∈ List.range' 5 27, ¬activeBanks.toBitVec.getLsbD i = true := by
  have hhigh : ∀ j ∈ List.range' 5 27, (~~~(0x1f : UInt32)).toBitVec.getLsbD j = true := by decide
  have hlow : ∀ j < 5, (~~~(0x1f : UInt32)).toBitVec.getLsbD j = false := by decide
  rw [OnlyKnownBanks, ← UInt32.toBitVec_inj, UInt32.toBitVec_and]
  constructor
  · intro hzero i hi
    have hbit := congrArg (fun x => BitVec.getLsbD x i) hzero
    rw [BitVec.getLsbD_and, hhigh i hi, Bool.and_true] at hbit
    rw [hbit, UInt32.toBitVec_ofNat, BitVec.getLsbD_zero]
    exact Bool.false_ne_true
  · intro hbits
    apply BitVec.eq_of_getLsbD_eq
    intro i hi
    rw [BitVec.getLsbD_and, UInt32.toBitVec_ofNat, BitVec.getLsbD_zero]
    by_cases hi5 : i < 5
    · rw [hlow i hi5, Bool.and_false]
    · have hmem : i ∈ List.range' 5 27 := by
        rw [List.mem_range'_1]
        omega
      rw [Bool.eq_false_iff.mpr (hbits i hmem), Bool.false_and]

theorem countAlgsInBitmap_eq_iff (activeBanks : UInt32) :
    countAlgsInBitmap activeBanks = (banks activeBanks).length ↔ OnlyKnownBanks activeBanks := by
  have hsplit : List.range 32 = List.range 5 ++ List.range' 5 27 := by decide
  rw [countAlgsInBitmap_eq, length_banks_eq, hsplit, List.countP_append, onlyKnownBanks_iff_bits,
    ← List.countP_eq_zero]
  exact Nat.add_eq_left

theorem count_toNat (activeBanks : UInt32) (selections : TpmlPcrSelection) :
    (selectAllActivePcrs activeBanks selections).count.toNat = countAlgsInBitmap activeBanks := by
  have hle : countAlgsInBitmap activeBanks ≤ 32 := by
    rw [countAlgsInBitmap_eq]
    exact List.countP_le_length
  exact UInt32.toNat_ofNat_of_lt' (Nat.lt_of_le_of_lt hle (by decide))

theorem length_banks (activeBanks : UInt32) : (banks activeBanks).length ≤ 5 :=
  List.length_filter_le _ _

section Known

variable {activeBanks : UInt32} (h : OnlyKnownBanks activeBanks) (selections : TpmlPcrSelection)
include h

theorem selectAllActivePcrs_count :
    (selectAllActivePcrs activeBanks selections).count.toNat = (banks activeBanks).length := by
  rw [count_toNat]
  exact (countAlgsInBitmap_eq_iff activeBanks).mpr h

theorem selectAllActivePcrs_entry {i : Nat} (hi : i < (banks activeBanks).length) :
    (selectAllActivePcrs activeBanks selections).pcrSelections i =
      allPcrs ((banks activeBanks)[i]) (selections.pcrSelections i) := by
  simp only [selectAllActivePcrs, (countAlgsInBitmap_eq_iff activeBanks).mpr h]
  rw [selectLoop_of_banks rfl]
  simp [hi]

end Known

end SelectAll

end TctiUefi.Pcr
