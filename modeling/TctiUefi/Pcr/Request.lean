import TctiUefi.Pcr.Tpm

namespace TctiUefi.Pcr

section Deselect

/-- A request as the tool makes it: one selection of 24 PCRs for each of some known banks. -/
structure Readable (request : TpmlPcrSelection) : Prop where
  count : request.count.toNat ≤ tpm2NumPcrBanks
  size : ∀ i < request.count.toNat, request.sizeAt i = 3
  hash_ne_zero : ∀ i < request.count.toNat, request.hashAt i ≠ 0
  hash_inj : ∀ i < request.count.toNat, ∀ j < request.count.toNat,
    request.hashAt i = request.hashAt j → i = j

theorem Readable.wellFormed {request : TpmlPcrSelection} (h : Readable request) :
    request.WellFormed where
  count := h.count
  size i hi := by
    rw [h.size i hi]
    decide

theorem Readable.clearPast_iff {request sel : TpmlPcrSelection} (h : Readable request) :
    sel.ClearPast request ↔ ∀ x ∈ positions request.count.toNat, 24 ≤ x.2 → sel.has x = false := by
  refine forall₂_congr ?_
  intro x hx
  rw [h.size x.1 (mem_positions.mp hx).1]

structure SameBanks (request request' : TpmlPcrSelection) : Prop where
  count : request'.count = request.count
  hash : ∀ i, request'.hashAt i = request.hashAt i
  size : ∀ i, request'.sizeAt i = request.sizeAt i

theorem SameBanks.readable {request request' : TpmlPcrSelection} (h : SameBanks request request')
    (hr : Readable request) : Readable request' where
  count := h.count ▸ hr.count
  size i hi := by
    rw [h.size]
    exact hr.size i (h.count ▸ hi)
  hash_ne_zero i hi := by
    rw [h.hash]
    exact hr.hash_ne_zero i (h.count ▸ hi)
  hash_inj i hi j hj := by
    rw [h.hash, h.hash]
    exact hr.hash_inj i (h.count ▸ hi) j (h.count ▸ hj)

theorem sameBanks_deselect (request : TpmlPcrSelection) (alg : UInt16) (pcr : UInt8) :
    SameBanks request (deselect request alg pcr) where
  count := rfl
  hash i := by
    simp only [TpmlPcrSelection.hashAt, deselect]
    split <;> rfl
  size i := by
    simp only [TpmlPcrSelection.sizeAt, deselect]
    split <;> rfl

theorem has_deselect_iff {request : TpmlPcrSelection} {alg : UInt16} {pcr : UInt8} {y : Nat × Nat}
    (hy : y.1 < request.count.toNat) :
    (deselect request alg pcr).has y = true ↔
      request.has y = true ∧ ¬(request.hashAt y.1 = alg ∧ y.2 = pcr.toNat) := by
  simp only [TpmlPcrSelection.has, TpmlPcrSelection.hashAt, deselect, hy, true_and]
  by_cases halg : (request.pcrSelections y.1).hash = alg
  · simp [halg, hasBit_deselectPcr]
  · simp [halg]

theorem sameBanks_foldl (alg : Nat → UInt16) (xs : List (Nat × Nat)) (request : TpmlPcrSelection) :
    SameBanks request
      (xs.foldl (fun sel x => deselect sel (alg x.1) (UInt8.ofNat x.2)) request) := by
  induction xs generalizing request with
  | nil => exact ⟨rfl, fun _ => rfl, fun _ => rfl⟩
  | cons x xs ih =>
    have hfirst := sameBanks_deselect request (alg x.1) (UInt8.ofNat x.2)
    have hrest := ih (deselect request (alg x.1) (UInt8.ofNat x.2))
    exact ⟨hrest.count.trans hfirst.count, fun i => (hrest.hash i).trans (hfirst.hash i),
      fun i => (hrest.size i).trans (hfirst.size i)⟩

theorem has_deselectAll_iff {alg : Nat → UInt16} {xs : List (Nat × Nat)}
    {request : TpmlPcrSelection} (hxs : ∀ x ∈ xs, x.2 < 256) {y : Nat × Nat}
    (hy : y.1 < request.count.toNat) :
    (xs.foldl (fun sel x => deselect sel (alg x.1) (UInt8.ofNat x.2)) request).has y = true ↔
      request.has y = true ∧ ∀ x ∈ xs, ¬(request.hashAt y.1 = alg x.1 ∧ y.2 = x.2) := by
  induction xs generalizing request with
  | nil => simp
  | cons x xs ih =>
    have hsame := sameBanks_deselect request (alg x.1) (UInt8.ofNat x.2)
    have hnat : (UInt8.ofNat x.2).toNat = x.2 :=
      UInt8.toNat_ofNat_of_lt' (hxs x (List.mem_cons_self ..))
    rw [List.foldl_cons, ih (fun z hz => hxs z (List.mem_cons_of_mem _ hz)) (hsame.count ▸ hy),
      has_deselect_iff hy, hnat, hsame.hash, List.forall_mem_cons, and_assoc]

theorem deselect_all {alg : Nat → UInt16} {xs : List (Nat × Nat)} {request : TpmlPcrSelection}
    (hr : Readable request) (halg : ∀ i < request.count.toNat, request.hashAt i = alg i)
    (hxs : ∀ x ∈ xs, x.1 < request.count.toNat ∧ x.2 < 256) :
    SameBanks request (xs.foldl (fun sel x => deselect sel (alg x.1) (UInt8.ofNat x.2)) request) ∧
    ∀ y, y.1 < request.count.toNat →
      (xs.foldl (fun sel x => deselect sel (alg x.1) (UInt8.ofNat x.2)) request).has y =
        (request.has y && decide (y ∉ xs)) := by
  refine ⟨sameBanks_foldl alg xs request, ?_⟩
  intro y hy
  -- the banks of a readable request are told apart by their algorithms
  have hsame : (∀ x ∈ xs, ¬(request.hashAt y.1 = alg x.1 ∧ y.2 = x.2)) ↔ y ∉ xs := by
    constructor
    · intro h hmem
      exact h y hmem ⟨halg y.1 hy, rfl⟩
    · rintro h x hx ⟨hhash, hpcr⟩
      have hbank := hr.hash_inj _ hy _ (hxs x hx).1 (hhash.trans (halg x.1 (hxs x hx).1).symm)
      have heq : y = x := Prod.ext hbank hpcr
      exact h (heq ▸ hx)
  rw [Bool.eq_iff_iff, has_deselectAll_iff (fun x hx => (hxs x hx).2) hy, hsame, Bool.and_eq_true,
    decide_eq_true_eq]

end Deselect

end TctiUefi.Pcr
