import TctiUefi.Lib.Edit
import TctiUefi.Pcr.Selection

namespace TctiUefi.Pcr

def editPcr (a : Buffer) : Edit UInt8 → Buffer
  | .insert pcr => selectPcr a pcr
  | .erase pcr => deselectPcr a pcr

def editPcrs (a : Buffer) (es : List (Edit UInt8)) : Buffer := es.foldl editPcr a

def selectedPcrs (a : Buffer) : Set UInt8 := {pcr | isPcrSelected a pcr = true}

section BitSet

variable {a b : Buffer} {e : Edit UInt8}

theorem hasBit_editPcr (a : Buffer) (e : Edit UInt8) (q : Nat) :
    (editPcr a e).hasBit q = if q = e.target.toNat then e.inserts else a.hasBit q := by
  cases e with
  | insert pcr =>
    rw [editPcr, hasBit_selectPcr, Edit.target, Edit.inserts]
    by_cases h : q = pcr.toNat
    · simp [h]
    · simp [h]
  | erase pcr =>
    rw [editPcr, hasBit_deselectPcr, Edit.target, Edit.inserts]
    by_cases h : q = pcr.toNat
    · simp [h]
    · simp [h]

theorem selectedPcrs_editPcr (a : Buffer) (e : Edit UInt8) :
    selectedPcrs (editPcr a e) = Edit.apply (selectedPcrs a) e := by
  ext pcr
  simp only [selectedPcrs, Set.mem_ofPred_eq, Edit.mem_apply_iff, isPcrSelected_eq, hasBit_editPcr,
    UInt8.toNat_inj]
  by_cases h : e.target = pcr
  · simp [h]
  · simp [h, Ne.symm h]

theorem selectedPcrs_editPcrs (a : Buffer) (es : List (Edit UInt8)) :
    selectedPcrs (editPcrs a es) = Edit.run (selectedPcrs a) es := by
  induction es generalizing a with
  | nil => rfl
  | cons e es ih =>
    rw [editPcrs, List.foldl_cons, ← editPcrs, ih, selectedPcrs_editPcr]
    rfl

theorem buffer_ext_hasBit (h : ∀ q, a.hasBit q = b.hasBit q) : a = b := by
  funext i
  apply UInt8.eq_of_toBitVec_eq
  apply BitVec.eq_of_getLsbD_eq
  intro j hj
  have hdiv : (8 * i + j) / 8 = i := by omega
  have hmod : (8 * i + j) % 8 = j := by omega
  have hbit := h (8 * i + j)
  rw [Buffer.hasBit, Buffer.hasBit, hdiv, hmod] at hbit
  exact hbit

theorem editPcr_comm {e' : Edit UInt8} (h : e.target ≠ e'.target) :
    editPcr (editPcr a e) e' = editPcr (editPcr a e') e := by
  apply buffer_ext_hasBit
  intro q
  simp only [hasBit_editPcr]
  by_cases hq : q = e.target.toNat
  · have hne : q ≠ e'.target.toNat := by
      rintro rfl
      exact h (UInt8.toNat_inj.mp hq.symm)
    rw [if_neg hne, if_pos hq, if_pos hq]
  · rw [if_neg hq, if_neg hq]

theorem editPcr_of_ne {i : Nat} (h : e.target.toNat / 8 ≠ i) : editPcr a e i = a i := by
  cases e with
  | insert pcr => exact Function.update_of_ne (Ne.symm h) _ _
  | erase pcr => exact Function.update_of_ne (Ne.symm h) _ _

theorem editPcrs_of_ne {es : List (Edit UInt8)} {i : Nat} (h : ∀ e ∈ es, e.target.toNat / 8 ≠ i) :
    editPcrs a es i = a i := by
  induction es generalizing a with
  | nil => rfl
  | cons e es ih =>
    rw [editPcrs, List.foldl_cons, ← editPcrs, ih fun e' he' => h e' (List.mem_cons_of_mem _ he')]
    exact editPcr_of_ne (h e (List.mem_cons_self ..))

theorem editPcrs_behaves (a : Buffer) (es : List (Edit UInt8)) :
    (∀ pcr, isPcrSelected (editPcrs a es) pcr =
      match Edit.lastOn pcr es with
      | some e => e.inserts
      | none => isPcrSelected a pcr) ∧
    (∀ e e' : Edit UInt8, e.target ≠ e'.target →
      editPcr (editPcr a e) e' = editPcr (editPcr a e') e) ∧
    (∀ i, (∀ e ∈ es, e.target.toNat / 8 ≠ i) → editPcrs a es i = a i) ∧
    ∀ n, (∀ e ∈ es, e.target.toNat < 8 * n) → ∀ i, n ≤ i → editPcrs a es i = a i := by
  refine ⟨?_, fun e e' h => editPcr_comm h, fun i h => editPcrs_of_ne h, ?_⟩
  · intro pcr
    have hmem : pcr ∈ selectedPcrs (editPcrs a es) ↔ pcr ∈ Edit.run (selectedPcrs a) es := by
      rw [selectedPcrs_editPcrs]
    rw [Edit.mem_run_iff] at hmem
    apply Bool.eq_iff_iff.mpr
    cases hlast : Edit.lastOn pcr es with
    | none =>
      rw [hlast] at hmem
      exact hmem
    | some e =>
      rw [hlast] at hmem
      exact hmem
  · intro n hes i hi
    apply editPcrs_of_ne
    intro e he
    have hlt := Nat.div_lt_of_lt_mul (hes e he)
    exact Nat.ne_of_lt (Nat.lt_of_lt_of_le hlt hi)

end BitSet

end TctiUefi.Pcr
