import TctiUefi.Lib.Buffer
import Mathlib.Data.BitVec
import Mathlib.Algebra.Group.Basic
import Mathlib.Data.Set.Basic

namespace TctiUefi

def toLE : Nat → Nat → List UInt8
  | 0, _ => []
  | n + 1, v => UInt8.ofNat v :: toLE n (v / 256)

def ofLE : List UInt8 → Nat
  | [] => 0
  | b :: bs => b.toNat + 256 * ofLE bs

@[simp] theorem length_toLE (n v : Nat) : (toLE n v).length = n := by
  induction n generalizing v with
  | zero => rfl
  | succ n ih => simp [toLE, ih]

theorem ofLE_toLE {n v : Nat} (h : v < 256 ^ n) : ofLE (toLE n v) = v := by
  induction n generalizing v with
  | zero =>
    have hv : v = 0 := by simpa using h
    exact hv.symm
  | succ n ih =>
    have hdiv : v / 256 < 256 ^ n := by
      apply Nat.div_lt_of_lt_mul
      rw [Nat.mul_comm, ← Nat.pow_succ]
      exact h
    simp only [toLE, ofLE, ih hdiv, UInt8.toNat_ofNat']
    omega

theorem ofLE_lt (bs : List UInt8) : ofLE bs < 256 ^ bs.length := by
  induction bs with
  | nil => exact Nat.one_pos
  | cons b bs ih =>
    have hb : b.toNat < 256 := b.toNat_lt
    rw [ofLE, List.length_cons, Nat.pow_succ]
    omega

theorem toLE_ofLE (bs : List UInt8) : toLE bs.length (ofLE bs) = bs := by
  induction bs with
  | nil => rfl
  | cons b bs ih =>
    have hb : b.toNat < 256 := b.toNat_lt
    have hdiv : (b.toNat + 256 * ofLE bs) / 256 = ofLE bs := by omega
    have hlow : UInt8.ofNat (b.toNat + 256 * ofLE bs) = b := by
      apply UInt8.toNat_inj.mp
      rw [UInt8.toNat_ofNat']
      omega
    rw [List.length_cons, ofLE, toLE, hdiv, hlow, ih]

def Buffer.loadBE (b : Buffer) (offset n : Nat) : Nat :=
  ofLE (Buffer.bytes (fun i => b (offset + i)) n).reverse

theorem Buffer.loadBE_congr {a b : Buffer} {offset n : Nat}
    (h : ∀ i < n, a (offset + i) = b (offset + i)) : a.loadBE offset n = b.loadBE offset n := by
  rw [loadBE, loadBE, Buffer.bytes_congr h]

abbrev Memory (w : Nat) := BitVec w → UInt8

theorem toNat_add_ofNat {a : BitVec w} {k : Nat} (h : a.toNat + k < 2 ^ w) :
    (a + BitVec.ofNat w k).toNat = a.toNat + k := by
  have hk : k % 2 ^ w = k := Nat.mod_eq_of_lt (by omega)
  rw [BitVec.toNat_add, BitVec.toNat_ofNat, hk, Nat.mod_eq_of_lt h]

theorem ne_zero_of_toNat_pos {a : BitVec w} (h : 0 < a.toNat) : a ≠ 0#w := by
  intro hzero
  rw [hzero] at h
  exact Nat.lt_irrefl 0 h

theorem ne_zero_of_le {a b : BitVec w} (h : a ≤ b) (ha : a ≠ 0#w) : b ≠ 0#w :=
  ne_zero_of_toNat_pos (Nat.lt_of_lt_of_le (BitVec.toNat_pos_of_ne_zero ha) h)

theorem add_ofNat_add (a : BitVec w) (j k : Nat) :
    a + BitVec.ofNat w j + BitVec.ofNat w k = a + BitVec.ofNat w (j + k) := by
  rw [BitVec.add_assoc, ← BitVec.ofNat_add]

def block (a : BitVec w) (n : Nat) : Set (BitVec w) := {x | ∃ k < n, x = a + BitVec.ofNat w k}

@[simp] theorem block_zero (a : BitVec w) : block a 0 = ∅ := by
  ext x
  simp [block]

theorem block_add (a : BitVec w) (j k : Nat) :
    block a (j + k) = block a j ∪ block (a + BitVec.ofNat w j) k := by
  ext x
  simp only [block, Set.mem_ofPred_eq, Set.mem_union]
  constructor
  · rintro ⟨i, hi, rfl⟩
    by_cases hij : i < j
    · exact .inl ⟨i, hij, rfl⟩
    · refine .inr ⟨i - j, by omega, ?_⟩
      rw [add_ofNat_add, Nat.add_sub_cancel' (Nat.not_lt.mp hij)]
  · rintro (⟨i, hi, rfl⟩ | ⟨i, hi, rfl⟩)
    · exact ⟨i, Nat.lt_add_right k hi, rfl⟩
    · exact ⟨j + i, Nat.add_lt_add_left hi j, add_ofNat_add a j i⟩

theorem block_subset_block (a : BitVec w) {j k n : Nat} (h : j + k ≤ n) :
    block (a + BitVec.ofNat w j) k ⊆ block a n := by
  obtain ⟨i, rfl⟩ := Nat.exists_eq_add_of_le h
  rw [block_add, block_add]
  exact fun x hx => .inl (.inr hx)

theorem block_mono (a : BitVec w) {k n : Nat} (h : k ≤ n) : block a k ⊆ block a n := by
  rintro x ⟨i, hi, rfl⟩
  exact ⟨i, Nat.lt_of_lt_of_le hi h, rfl⟩

theorem block_within_iff {a : BitVec w} {n lo hi : Nat} (hlo : 0 < lo) (ha : lo ≤ a.toNat)
    (hahi : a.toNat < hi) (hfits : hi ≤ 2 ^ w) :
    (∀ x ∈ block a n, lo ≤ x.toNat ∧ x.toNat < hi) ↔ a.toNat + n ≤ hi := by
  constructor
  · intro hwithin
    by_contra hlong
    obtain ⟨hx, hxhi⟩ := hwithin (a + BitVec.ofNat w (hi - a.toNat)) ⟨_, by omega, rfl⟩
    rw [BitVec.toNat_add, BitVec.toNat_ofNat, Nat.add_mod_mod,
      Nat.add_sub_cancel' (Nat.le_of_lt hahi)] at hx hxhi
    rcases Nat.lt_or_eq_of_le hfits with hlt | heq
    · rw [Nat.mod_eq_of_lt hlt] at hxhi
      exact Nat.lt_irrefl hi hxhi
    · rw [heq, Nat.mod_self] at hx
      omega
  · rintro hn x ⟨k, hk, rfl⟩
    rw [toNat_add_ofNat (by omega)]
    omega

namespace Memory

/-- The bytes from an address on, going around at the end of the memory. -/
def view (m : Memory w) (a : BitVec w) : Buffer := fun i => m (a + BitVec.ofNat w i)

def load (m : Memory w) (a : BitVec w) (n : Nat) : Nat := ofLE ((m.view a).bytes n)

theorem load_lt (m : Memory w) (a : BitVec w) (n : Nat) : m.load a n < 256 ^ n := by
  have hlt := ofLE_lt ((m.view a).bytes n)
  rwa [Buffer.length_bytes] at hlt

def Holds (m : Memory w) (a : BitVec w) (bs : List UInt8) : Prop :=
  (m.view a).bytes bs.length = bs

theorem holds_toLE_load (m : Memory w) (a : BitVec w) (n : Nat) :
    m.Holds a (toLE n (m.load a n)) := by
  have hbytes := toLE_ofLE ((m.view a).bytes n)
  rw [Buffer.length_bytes] at hbytes
  rw [Holds, length_toLE, load, hbytes]

theorem view_add (m : Memory w) (a : BitVec w) (k : Nat) :
    (fun i => m.view a (k + i)) = m.view (a + BitVec.ofNat w k) := by
  funext i
  simp only [view, add_ofNat_add]

theorem holds_append {m : Memory w} {a : BitVec w} {xs ys : List UInt8} :
    m.Holds a (xs ++ ys) ↔ m.Holds a xs ∧ m.Holds (a + BitVec.ofNat w xs.length) ys := by
  rw [Holds, List.length_append, Buffer.bytes_add, view_add]
  constructor
  · intro h
    exact List.append_inj h (by simp)
  · intro h
    exact congrArg₂ (· ++ ·) h.1 h.2

theorem load_of_holds {m : Memory w} {a : BitVec w} (h : m.Holds a (toLE n v))
    (hv : v < 256 ^ n) : m.load a n = v := by
  rw [Holds, length_toLE] at h
  rw [load, h, ofLE_toLE hv]

theorem load_field {m : Memory w} {a : BitVec w} {xs ys : List UInt8} {n v : Nat}
    (h : m.Holds a (xs ++ (toLE n v ++ ys))) (hv : v < 256 ^ n) :
    m.load (a + BitVec.ofNat w xs.length) n = v :=
  load_of_holds (holds_append.mp (holds_append.mp h).2).1 hv

theorem load_of_holds_drop {m : Memory w} {a : BitVec w} {bs : List UInt8} {k n : Nat}
    (h : m.Holds a bs) (hk : k + n ≤ bs.length) :
    m.load (a + BitVec.ofNat w k) n = ofLE ((bs.drop k).take n) := by
  obtain ⟨i, hi⟩ := Nat.exists_eq_add_of_le hk
  have hbytes : (m.view a).bytes (k + (n + i)) = bs := by
    rw [← Nat.add_assoc, ← hi]
    exact h
  rw [load, ← hbytes, Buffer.bytes_add, view_add, List.drop_left' (Buffer.length_bytes _ _),
    Buffer.take_bytes _ (Nat.le_add_right _ _)]

/-- The bytes are in memory at an address that is not null, and do not go around its end. -/
structure Laid (m : Memory w) (a : BitVec w) (bs : List UInt8) : Prop where
  holds : m.Holds a bs
  ne_zero : a ≠ 0#w
  fits : a.toNat + bs.length ≤ 2 ^ w

namespace Laid

variable {m : Memory w} {a : BitVec w} {xs ys : List UInt8}

theorem left (h : m.Laid a (xs ++ ys)) : m.Laid a xs where
  holds := (holds_append.mp h.holds).1
  ne_zero := h.ne_zero
  fits := by
    have := h.fits
    rw [List.length_append] at this
    omega

theorem toNat_right (h : m.Laid a (xs ++ ys)) (hy : ys ≠ []) :
    (a + BitVec.ofNat w xs.length).toNat = a.toNat + xs.length := by
  have hfits := h.fits
  have hpos := List.length_pos_of_ne_nil hy
  rw [List.length_append] at hfits
  apply toNat_add_ofNat
  omega

theorem right (h : m.Laid a (xs ++ ys)) (hy : ys ≠ []) :
    m.Laid (a + BitVec.ofNat w xs.length) ys where
  holds := (holds_append.mp h.holds).2
  ne_zero := by
    apply ne_zero_of_toNat_pos
    rw [h.toNat_right hy]
    exact Nat.add_pos_left (BitVec.toNat_pos_of_ne_zero h.ne_zero) _
  fits := by
    rw [h.toNat_right hy, Nat.add_assoc, ← List.length_append]
    exact h.fits

end Laid

def starts {α : Type*} (enc : α → List UInt8) : BitVec w → List α → List (BitVec w)
  | _, [] => []
  | a, x :: xs => a :: starts enc (a + BitVec.ofNat w (enc x).length) xs

def located {α : Type*} (enc : α → List UInt8) : BitVec w → List α → List (BitVec w × α)
  | _, [] => []
  | a, x :: xs => (a, x) :: located enc (a + BitVec.ofNat w (enc x).length) xs

section Starts

variable {α : Type*} {enc : α → List UInt8} {m : Memory w} {a p : BitVec w} {xs : List α}

@[simp] theorem starts_nil (enc : α → List UInt8) (a : BitVec w) : starts enc a [] = [] := rfl

@[simp] theorem starts_cons (enc : α → List UInt8) (a : BitVec w) (x : α) (xs : List α) :
    starts enc a (x :: xs) = a :: starts enc (a + BitVec.ofNat w (enc x).length) xs := rfl

theorem starts_eq_map (enc : α → List UInt8) (a : BitVec w) (xs : List α) :
    starts enc a xs = (located enc a xs).map Prod.fst := by
  induction xs generalizing a with
  | nil => rfl
  | cons x xs ih => rw [starts, located, List.map_cons, ih]

theorem map_snd_located (enc : α → List UInt8) (a : BitVec w) (xs : List α) :
    (located enc a xs).map Prod.snd = xs := by
  induction xs generalizing a with
  | nil => rfl
  | cons x xs ih => rw [located, List.map_cons, ih]

theorem mem_starts_iff : p ∈ starts enc a xs ↔ ∃ x, (p, x) ∈ located enc a xs := by
  simp [starts_eq_map]

theorem ne_nil_of_mem_located {x : α} (hp : (p, x) ∈ located enc a xs) : xs ≠ [] := by
  rintro rfl
  cases hp

theorem flatMap_ne_nil (henc : ∀ x, enc x ≠ []) (h : xs ≠ []) : xs.flatMap enc ≠ [] := by
  cases xs with
  | nil => exact absurd rfl h
  | cons x xs => simp [henc x]

theorem Laid.tail {x : α} (henc : ∀ x, enc x ≠ []) (h : m.Laid a ((x :: xs).flatMap enc))
    (hxs : xs ≠ []) : m.Laid (a + BitVec.ofNat w (enc x).length) (xs.flatMap enc) :=
  h.right (flatMap_ne_nil henc hxs)

theorem laid_of_mem_located {x : α} (henc : ∀ x, enc x ≠ []) (h : m.Laid a (xs.flatMap enc))
    (hp : (p, x) ∈ located enc a xs) :
    x ∈ xs ∧ ∃ ys, m.Laid p (enc x ++ ys) ∧ a.toNat ≤ p.toNat ∧
      p.toNat + (enc x).length ≤ a.toNat + (xs.flatMap enc).length := by
  induction xs generalizing a with
  | nil => cases hp
  | cons y xs ih =>
    rw [List.flatMap_cons, List.length_append]
    cases hp with
    | head =>
      rw [List.flatMap_cons] at h
      exact ⟨List.mem_cons_self .., _, h, Nat.le_refl _, by omega⟩
    | tail _ hp =>
      have hxs := ne_nil_of_mem_located hp
      have htoNat := Laid.toNat_right h (flatMap_ne_nil henc hxs)
      obtain ⟨hx, ys, hlaid, hlo, hhi⟩ := ih (h.tail henc hxs) hp
      exact ⟨List.mem_cons_of_mem _ hx, ys, hlaid, by omega, by omega⟩

theorem laid_of_mem_starts (henc : ∀ x, enc x ≠ []) (h : m.Laid a (xs.flatMap enc))
    (hp : p ∈ starts enc a xs) :
    ∃ x ∈ xs, ∃ ys, m.Laid p (enc x ++ ys) ∧ a.toNat ≤ p.toNat ∧
      p.toNat + (enc x).length ≤ a.toNat + (xs.flatMap enc).length := by
  obtain ⟨x, hx⟩ := mem_starts_iff.mp hp
  exact ⟨x, laid_of_mem_located henc h hx⟩

theorem located_disjoint {q : BitVec w} {x y : α} (henc : ∀ x, enc x ≠ [])
    (h : m.Laid a (xs.flatMap enc)) (hp : (p, x) ∈ located enc a xs)
    (hq : (q, y) ∈ located enc a xs) :
    (p, x) = (q, y) ∨ p.toNat + (enc x).length ≤ q.toNat ∨
      q.toNat + (enc y).length ≤ p.toNat := by
  induction xs generalizing a with
  | nil => cases hp
  | cons z xs ih =>
    have hbehind : ∀ r v, (r, v) ∈ located enc (a + BitVec.ofNat w (enc z).length) xs →
        xs ≠ [] ∧ a.toNat + (enc z).length ≤ r.toNat := by
      intro r v hr
      have hxs := ne_nil_of_mem_located hr
      obtain ⟨_, _, _, hlo, _⟩ := laid_of_mem_located henc (h.tail henc hxs) hr
      rw [Laid.toNat_right h (flatMap_ne_nil henc hxs)] at hlo
      exact ⟨hxs, hlo⟩
    cases hp with
    | head =>
      cases hq with
      | head => exact .inl rfl
      | tail _ hq => exact .inr (.inl (hbehind q y hq).2)
    | tail _ hp =>
      cases hq with
      | head => exact .inr (.inr (hbehind p x hp).2)
      | tail _ hq => exact ih (h.tail henc (hbehind p x hp).1) hp hq

theorem end_of_mem_located {x : α} (hp : (p, x) ∈ located enc a xs) :
    p + BitVec.ofNat w (enc x).length ∈ starts enc a xs ∨
      p + BitVec.ofNat w (enc x).length = a + BitVec.ofNat w (xs.flatMap enc).length := by
  induction xs generalizing a with
  | nil => cases hp
  | cons y ys ih =>
    cases hp with
    | head =>
      cases ys with
      | nil =>
        rw [List.flatMap_cons, List.flatMap_nil, List.append_nil]
        exact .inr rfl
      | cons z zs => exact .inl (List.mem_cons_of_mem _ (List.mem_cons_self ..))
    | tail _ hp =>
      rcases ih hp with hstart | hend
      · exact .inl (List.mem_cons_of_mem _ hstart)
      · rw [hend, add_ofNat_add, List.flatMap_cons, List.length_append]
        exact .inr rfl

theorem mem_starts (henc : ∀ x, enc x ≠ []) (h : m.Laid a (xs.flatMap enc))
    (hp : p ∈ starts enc a xs) :
    a.toNat ≤ p.toNat ∧ p.toNat < a.toNat + (xs.flatMap enc).length := by
  obtain ⟨x, _, _, _, hlo, hhi⟩ := laid_of_mem_starts henc h hp
  have hx := List.length_pos_of_ne_nil (henc x)
  omega

theorem le_last_start {last : BitVec w} (henc : ∀ x, enc x ≠ []) (h : m.Laid a (xs.flatMap enc))
    (hlast : (starts enc a xs).getLast? = some last) (hp : p ∈ starts enc a xs) : p ≤ last := by
  induction xs generalizing a with
  | nil => cases hp
  | cons x xs ih =>
    cases hp with
    | head => exact (mem_starts henc h (List.mem_of_getLast? hlast)).1
    | tail _ hp =>
      have hxs : xs ≠ [] := by
        intro hnil
        rw [hnil] at hp
        cases hp
      apply ih (h.tail henc hxs) _ hp
      cases xs with
      | nil => cases hp
      | cons y ys => exact hlast

end Starts

def holding (a : BitVec w) (bs : List UInt8) : Memory w := fun x => bs.getD (x - a).toNat 0

theorem holds_holding (a : BitVec w) {bs : List UInt8} (h : bs.length ≤ 2 ^ w) :
    (holding a bs).Holds a bs := by
  apply List.ext_getElem
  · simp
  · intro i hi hbs
    have hlt : i < 2 ^ w := Nat.lt_of_lt_of_le hbs h
    rw [Buffer.getElem_bytes]
    simp only [view, holding]
    rw [add_sub_cancel_left, BitVec.toNat_ofNat, Nat.mod_eq_of_lt hlt]
    simp [hbs]

end Memory

end TctiUefi
