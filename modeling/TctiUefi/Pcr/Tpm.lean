import TctiUefi.Pcr.Tool

namespace TctiUefi.Pcr

structure PcrBanks where
  implemented : UInt16 → Nat → Bool
  value : UInt16 → Nat → List UInt8
  value_lt : ∀ alg pcr, (value alg pcr).length < 2 ^ 16

def tpm2PcrSelectMax : Nat := 4

def TpmlPcrSelection.sizeAt (sel : TpmlPcrSelection) (i : Nat) : Nat :=
  (sel.pcrSelections i).sizeofSelect.toNat

structure TpmlPcrSelection.WellFormed (sel : TpmlPcrSelection) : Prop where
  count : sel.count.toNat ≤ tpm2NumPcrBanks
  size : ∀ i < sel.count.toNat, sel.sizeAt i ≤ tpm2PcrSelectMax

/-- No bit is set past the arrays of the request. -/
def TpmlPcrSelection.ClearPast (sel request : TpmlPcrSelection) : Prop :=
  ∀ x ∈ positions request.count.toNat, 8 * request.sizeAt x.1 ≤ x.2 → sel.has x = false

/-- The selected and implemented PCRs of a request, by bank and then by PCR. -/
def PcrBanks.wanted (B : PcrBanks) (request : TpmlPcrSelection) : List (Nat × Nat) :=
  (positions request.count.toNat).filter fun x =>
    x.2 < 8 * request.sizeAt x.1 && request.has x && B.implemented (request.hashAt x.1) x.2

structure Conforms (B : PcrBanks) (request : TpmlPcrSelection) (reply : PcrReply) (m : Nat) :
    Prop where
  success : reply.rc = 0
  at_most : m ≤ 8
  at_least : B.wanted request ≠ [] → 0 < m
  available : m ≤ (B.wanted request).length
  count : reply.pcrSelectOut.count = request.count
  hash : ∀ i < request.count.toNat, reply.pcrSelectOut.hashAt i = request.hashAt i
  bits : ∀ x ∈ positions request.count.toNat,
    (reply.pcrSelectOut.has x = true ↔ x ∈ (B.wanted request).take m)
  digestCount : reply.tpmlDigests.count.toNat = m
  digest : ∀ k x, ((B.wanted request).take m)[k]? = some x →
    (reply.tpmlDigests.digests k).buffer.bytes (reply.tpmlDigests.digests k).size.toNat =
      B.value (request.hashAt x.1) x.2

/-- What a reply leaves in the out parameter past its arrays is what was there before, so that
nothing is asked of a TPM where bits are set there. -/
def Tpm.Conforming (tpm : Tpm) (B : PcrBanks) : Prop :=
  ∀ round request before, request.WellFormed → before.ClearPast request →
    ∃ m, Conforms B request (tpm round request before) m

theorem mem_wanted {B : PcrBanks} {request : TpmlPcrSelection} {x : Nat × Nat} :
    x ∈ B.wanted request ↔ (x.1 < request.count.toNat ∧ x.2 < tpm2MaxPcrs) ∧
      x.2 < 8 * request.sizeAt x.1 ∧ request.has x = true ∧
        B.implemented (request.hashAt x.1) x.2 = true := by
  rw [PcrBanks.wanted, List.mem_filter, mem_positions]
  simp [and_assoc]

theorem nodup_wanted (B : PcrBanks) (request : TpmlPcrSelection) : (B.wanted request).Nodup :=
  (nodup_positions _).filter _

section Reference

def referenceTpm (B : PcrBanks) : Tpm := fun _ request before =>
  let taken := (B.wanted request).take 8
  { rc := 0
    pcrSelectOut :=
      { count := request.count
        pcrSelections := fun i =>
          { hash := request.hashAt i
            sizeofSelect := (request.pcrSelections i).sizeofSelect
            pcrSelect := Buffer.copy (before.pcrSelections i).pcrSelect
              ((taken.filter fun x => x.1 = i).foldl (fun s x => selectPcr s (UInt8.ofNat x.2))
                fun _ => 0) (request.sizeAt i) } }
    tpmlDigests :=
      { count := UInt32.ofNat taken.length
        digests := fun k =>
          match taken[k]? with
          | some x =>
            { size := UInt16.ofNat (B.value (request.hashAt x.1) x.2).length
              buffer := Buffer.write (fun _ => 0) (B.value (request.hashAt x.1) x.2) }
          | none => ⟨0, fun _ => 0⟩ } }

theorem hasBit_foldl_selectPcr (xs : List (Nat × Nat)) (hxs : ∀ x ∈ xs, x.2 < 256) (s : Buffer)
    (q : Nat) : (xs.foldl (fun s x => selectPcr s (UInt8.ofNat x.2)) s).hasBit q =
      (s.hasBit q || xs.any fun x => x.2 == q) := by
  induction xs generalizing s with
  | nil => simp
  | cons x xs ih =>
    have hx : (UInt8.ofNat x.2).toNat = x.2 :=
      UInt8.toNat_ofNat_of_lt' (hxs x (List.mem_cons_self ..))
    rw [List.foldl_cons, ih fun y hy => hxs y (List.mem_cons_of_mem _ hy), hasBit_selectPcr, hx,
      List.any_cons]
    by_cases h : q = x.2
    · simp [h]
    · rw [decide_eq_false h, beq_eq_false_iff_ne.mpr (Ne.symm h), Bool.or_false, Bool.false_or]

section Taken

variable {taken : List (Nat × Nat)} {x : Nat × Nat}

theorem hasBit_takenOf (htaken : ∀ y ∈ taken, y.2 < 256) : Buffer.hasBit
    ((taken.filter fun y => y.1 = x.1).foldl (fun s y => selectPcr s (UInt8.ofNat y.2)) fun _ => 0)
      x.2 = true ↔ x ∈ taken := by
  rw [hasBit_foldl_selectPcr _ fun y hy => htaken y (List.mem_of_mem_filter hy)]
  simp only [Buffer.hasBit, UInt8.toBitVec_ofNat, BitVec.getLsbD_zero, Bool.false_or,
    List.any_eq_true, List.mem_filter, decide_eq_true_eq, beq_iff_eq]
  constructor
  · rintro ⟨y, ⟨hy, hi⟩, hp⟩
    rwa [← Prod.ext hi hp]
  · intro hmem
    exact ⟨x, ⟨hmem, rfl⟩, rfl⟩

end Taken

theorem referenceTpm_conforming (B : PcrBanks) : (referenceTpm B).Conforming B := by
  intro round request before _ hclear
  have hlen : ((B.wanted request).take 8).length = min 8 (B.wanted request).length :=
    List.length_take
  refine ⟨((B.wanted request).take 8).length, ?_⟩
  have htake : (B.wanted request).take ((B.wanted request).take 8).length =
      (B.wanted request).take 8 := by
    rw [hlen]
    simp
  constructor
  · rfl
  · omega
  · intro hne
    have hpos := List.length_pos_of_ne_nil hne
    omega
  · omega
  · rfl
  · intro i _
    rfl
  · intro x hx
    have hpcrs : ∀ y ∈ (B.wanted request).take 8, y.2 < 256 := fun y hy =>
      Nat.lt_trans (mem_wanted.mp (List.mem_of_mem_take hy)).1.2 (by decide)
    rw [htake, ← hasBit_takenOf hpcrs]
    by_cases hsize : x.2 < 8 * request.sizeAt x.1
    · have hbyte : x.2 / 8 < request.sizeAt x.1 := Nat.div_lt_of_lt_mul hsize
      simp only [TpmlPcrSelection.has, referenceTpm, Buffer.hasBit, Buffer.copy_of_lt _ _ hbyte]
    · -- the bit is past the array: the out parameter keeps it
      have hbyte : request.sizeAt x.1 ≤ x.2 / 8 := by omega
      have hnot : x ∉ (B.wanted request).take 8 := fun hmem =>
        hsize (mem_wanted.mp (List.mem_of_mem_take hmem)).2.1
      have hkept := hclear x hx (Nat.le_of_not_lt hsize)
      simp only [TpmlPcrSelection.has, referenceTpm, Buffer.hasBit,
        Buffer.copy_of_le _ _ hbyte] at hkept ⊢
      rw [hkept, ← Buffer.hasBit, hasBit_takenOf hpcrs]
      simp [hnot]
  · change (UInt32.ofNat _).toNat = _
    apply UInt32.toNat_ofNat_of_lt'
    exact Nat.lt_of_le_of_lt (List.length_take_le ..) (by decide)
  · intro k x hk
    rw [htake] at hk
    simp only [referenceTpm, hk]
    rw [UInt16.toNat_ofNat_of_lt' (B.value_lt _ _)]
    exact Buffer.bytes_write _ _

end Reference

def sha256Selection (sizeofSelect : UInt8) (pcrSelect : List UInt8) : TpmlPcrSelection where
  count := 1
  pcrSelections := fun _ => ⟨0x000b, sizeofSelect, Buffer.write (fun _ => 0) pcrSelect⟩

end TctiUefi.Pcr
