import TctiUefi.Pcr.Tpm

universe v

namespace TctiUefi.Pcr

namespace TpmlPcrSelection

variable {sel : TpmlPcrSelection}

/-- What a list selects: of each bank the PCRs of its first `sizeofSelect` bytes. -/
def declared (sel : TpmlPcrSelection) : List (UInt16 × UInt8) :=
  (List.range sel.count.toNat).flatMap fun i =>
    ((List.range (8 * sel.sizeAt i)).filter fun p => sel.has (i, p)).map fun p => sel.pair (i, p)

/-- `foreach_selection` calls every callback on what the list selects, up to a call that
returns false. -/
def Enumerated (sel : TpmlPcrSelection) : Prop :=
  ∀ (σ : Type v) (f : UInt16 × UInt8 → σ → Bool × σ) (data : σ),
    foreachSelection sel (fun hash pcr => observed f (hash, pcr)) data =
      ⟨(feed f sel.declared data).state, (feed f sel.declared data).taken⟩

/-- A byte past the size of its selection has a bit set. -/
def Stale (sel : TpmlPcrSelection) : Prop :=
  ∃ i < sel.count.toNat, ∃ p < tpm2MaxPcrs, sel.sizeAt i ≤ p / 8 ∧ sel.has (i, p) = true

instance (sel : TpmlPcrSelection) : Decidable sel.Stale :=
  inferInstanceAs (Decidable (∃ i < _, ∃ p < _, _ ∧ _))

def covered (sel : TpmlPcrSelection) : List (Nat × Nat) :=
  sel.selected.filter fun x => x.2 / 8 < sel.sizeAt x.1

theorem covered_sublist (sel : TpmlPcrSelection) : sel.covered.Sublist sel.selected :=
  List.filter_sublist

theorem covered_eq_selected_iff : sel.covered = sel.selected ↔ ¬sel.Stale := by
  rw [covered, List.filter_eq_self]
  constructor
  · rintro h ⟨i, hi, p, hp, hsize, hbit⟩
    have hmem : (i, p) ∈ sel.selected :=
      List.mem_filter.mpr ⟨mem_positions.mpr ⟨hi, hp⟩, hbit⟩
    have hlt := h (i, p) hmem
    exact Nat.not_lt.mpr hsize (of_decide_eq_true hlt)
  · rintro h ⟨i, p⟩ hx
    obtain ⟨hpos, hbit⟩ := List.mem_filter.mp hx
    obtain ⟨hi, hp⟩ := mem_positions.mp hpos
    by_contra hsize
    exact h ⟨i, hi, p, hp, Nat.not_lt.mp fun hlt => hsize (decide_eq_true hlt), hbit⟩

theorem filter_range_lt {m n : Nat} (h : m ≤ n) :
    (List.range n).filter (fun p => p < m) = List.range m := by
  obtain ⟨k, rfl⟩ := Nat.exists_eq_add_of_le h
  rw [List.range_add, List.filter_append, List.filter_eq_self.mpr, List.filter_eq_nil_iff.mpr,
    List.append_nil]
  · intro p hp
    obtain ⟨q, _, rfl⟩ := List.mem_map.mp hp
    simp
  · intro p hp
    exact decide_eq_true (List.mem_range.mp hp)

theorem declared_eq (h : ∀ i < sel.count.toNat, sel.sizeAt i ≤ tpm2PcrSelectMax) :
    sel.declared = sel.covered.map sel.pair := by
  rw [declared, covered, selected, List.filter_filter, positions, List.filter_flatMap,
    List.map_flatMap]
  apply List.flatMap_congr
  intro i hi
  have hsize : 8 * sel.sizeAt i ≤ tpm2MaxPcrs :=
    Nat.mul_le_mul_left 8 (h i (List.mem_range.mp hi))
  rw [List.filter_map, List.map_map, ← filter_range_lt hsize, List.filter_filter]
  congr 1
  apply List.filter_congr
  intro p _
  have hbyte : p / 8 < sel.sizeAt i ↔ p < 8 * sel.sizeAt i := by omega
  simp only [Function.comp_apply, hbyte]
  exact Bool.and_comm _ _

end TpmlPcrSelection

theorem foreachSelection_observed (sel : TpmlPcrSelection) (f : UInt16 × UInt8 → σ → Bool × σ)
    (data : σ) : foreachSelection sel (fun hash pcr => observed f (hash, pcr)) data =
      ⟨(feed f (sel.selected.map sel.pair) data).state,
        (feed f (sel.selected.map sel.pair) data).taken⟩ := by
  have hmap := forWhile_map (observed f) sel.pair sel.selected data
  rw [forWhile_observed] at hmap
  rw [foreachSelection_eq]
  change Prod.snd <$> forWhile (fun x => observed f (sel.pair x)) sel.selected data = _
  rw [← hmap]
  exact congrArg (Trace.mk _) (List.append_nil _)

theorem enumerated_iff_not_stale {sel : TpmlPcrSelection}
    (h : ∀ i < sel.count.toNat, sel.sizeAt i ≤ tpm2PcrSelectMax) :
    TpmlPcrSelection.Enumerated.{v} sel ↔ ¬sel.Stale := by
  rw [← TpmlPcrSelection.covered_eq_selected_iff]
  constructor
  · intro henum
    -- a callback that always returns true is called on everything
    let accept : UInt16 × UInt8 → PUnit.{v + 1} → Bool × PUnit.{v + 1} := fun _ s => (true, s)
    have hcalls := congrArg Trace.log (henum PUnit accept ⟨⟩)
    rw [foreachSelection_observed, TpmlPcrSelection.declared_eq h,
      feed_taken_of_accepting fun _ _ => rfl, feed_taken_of_accepting fun _ _ => rfl] at hcalls
    have hlen := congrArg List.length hcalls
    rw [List.length_map, List.length_map] at hlen
    exact sel.covered_sublist.eq_of_length hlen.symm
  · intro heq σ f data
    rw [foreachSelection_observed, TpmlPcrSelection.declared_eq h, heq]

theorem enumerated_of_three_bytes :
    TpmlPcrSelection.Enumerated.{0} (sha256Selection 3 [0x01, 0x00, 0x80]) :=
  (enumerated_iff_not_stale (by decide)).mpr (by decide)

theorem not_enumerated_of_fourth_byte :
    (sha256Selection 3 [0x00, 0x00, 0x00, 0x01]).count.toNat ≤ tpm2NumPcrBanks ∧
      (∀ i < (sha256Selection 3 [0x00, 0x00, 0x00, 0x01]).count.toNat,
        (sha256Selection 3 [0x00, 0x00, 0x00, 0x01]).sizeAt i ≤ tpm2PcrSelectMax) ∧
      ¬TpmlPcrSelection.Enumerated.{0} (sha256Selection 3 [0x00, 0x00, 0x00, 0x01]) := by
  refine ⟨by decide, by decide, ?_⟩
  intro henum
  have hcalls := congrArg Trace.log (henum Unit (fun _ s => (true, s)) ())
  exact absurd hcalls (by decide)

end TctiUefi.Pcr
