import TctiUefi.Lib.Machine
import TctiUefi.Sapi.Setup

namespace TctiUefi.Sapi

/-- The heap, and the SAPI contexts that were returned and not torn down since. -/
structure World {A : Arch} (T : Tss A) where
  heap : Heap T
  held : List (SizeT A)

inductive Call {A : Arch} (T : Tss A)
  | init (P : Platform T)
  | teardown (sysCtx : Option (SizeT A))

section World

variable {A : Arch} {T : Tss A}

def setup (T : Tss A) : Machine (World T) (Call T) (Option SysRc) where
  step w
    | .init P =>
      let r := (sysUefiInit P w.heap).val
      (⟨r.heap, if r.rc = .success then r.ctx.toList ++ w.held else w.held⟩, some r.rc)
    | .teardown sysCtx =>
      (⟨(sysUefiTeardownFull sysCtx w.heap).val, w.held.filter fun q => some q ≠ sysCtx⟩, none)

def World.start (live : Finset (SizeT A)) (tcti : SizeT A → TctiUefiContext A)
    (sys : SizeT A → T.SysContext) : World T :=
  ⟨⟨⟨live, []⟩, ∅, tcti, sys⟩, []⟩

/-- Only a context that was returned is torn down, and only once. -/
def Permitted (w : World T) : Call T → Prop
  | .init _ => True
  | .teardown none => True
  | .teardown (some q) => q ∈ w.held

def Heap.tctiOf (heap : Heap T) (q : SizeT A) : SizeT A :=
  (T.sysGetTctiContext (heap.sys q)).2.getD 0#A.bits

def World.blocks (w : World T) : List (SizeT A) := w.held.flatMap fun q => [q, w.heap.tctiOf q]

/-- Besides what was live at the start there are two blocks for each context that is held, and
its TCTI context is the only one left open. -/
structure Balanced (live : Finset (SizeT A)) (w : World T) : Prop where
  owns : Pool.Owns live w.blocks w.heap.pool
  opened : w.heap.opened = (w.held.map w.heap.tctiOf).toFinset

def FailsLate (w : World T) : Call T → Prop
  | .init P => ∃ p ∈ P.tctiBlock w.heap,
      P.sysBlock (some p) (w.heap.openTcti p P.tctiSize) = none
  | .teardown _ => False

instance (w : World T) (c : Call T) : Decidable (FailsLate w c) :=
  match c with
  | .init P => Option.decidableExistsMem (P.tctiBlock w.heap)
  | .teardown _ => inferInstanceAs (Decidable False)

end World

section Init

variable {A : Arch} {T : Tss A} {P : Platform T} {heap : Heap T} {p q : SizeT A}

theorem sysUefiInit_of_early_failure (h : P.tctiBlock heap = none) :
    ∃ rc, rc ≠ SysRc.success ∧ (sysUefiInit P heap).val = ⟨rc, none, heap⟩ := by
  obtain ⟨rc, hrc, hval⟩ := tctiUefiInit_of_none h
  refine ⟨.tcti rc, fun heq => hrc (SysRc.tcti.inj heq), ?_⟩
  simp [sysUefiInit, hval, hrc]

theorem sysUefiInit_of_tcti (h : P.tctiBlock heap = some p) : (sysUefiInit P heap).val =
    (sysUefiInitFromTctiCtx P (some p) (heap.openTcti p P.tctiSize)).val := by
  simp [sysUefiInit, tctiUefiInit_of_some h]

theorem Platform.fresh_tctiBlock (h : P.tctiBlock heap = some p) : p ∉ heap.pool.live := by
  rw [Platform.tctiBlock] at h
  split at h
  · cases h
  · exact P.pool.fresh _ _ _ h

end Init

/-- What the calls keep true: of each held context the TCTI context is known and can be
finalised. -/
structure Sound {A : Arch} {T : Tss A} (live : Finset (SizeT A)) (w : World T) : Prop extends
    Balanced live w where
  remembers : ∀ q ∈ w.held, T.sysGetTctiContext (w.heap.sys q) = (0, some (w.heap.tctiOf q))
  finalizable : ∀ q ∈ w.held, Finalizable (w.heap.tcti (w.heap.tctiOf q))

section Steps

variable {A : Arch} {T : Tss A} {live : Finset (SizeT A)} {w : World T} {P : Platform T}
  {p q : SizeT A}

theorem sound_start (live : Finset (SizeT A)) (tcti : SizeT A → TctiUefiContext A)
    (sys : SizeT A → T.SysContext) : Sound live (World.start live tcti sys) where
  owns := .initial live
  opened := rfl
  remembers := by simp [World.start]
  finalizable := by simp [World.start]

theorem World.mem_blocks (hq : q ∈ w.held) : q ∈ w.blocks ∧ w.heap.tctiOf q ∈ w.blocks :=
  ⟨List.mem_flatMap.mpr ⟨q, hq, List.mem_cons_self ..⟩,
    List.mem_flatMap.mpr ⟨q, hq, List.mem_cons_of_mem _ (List.mem_cons_self ..)⟩⟩

theorem Heap.tctiOf_congr {heap heap' : Heap T} (h : heap'.sys q = heap.sys q) :
    heap'.tctiOf q = heap.tctiOf q := by rw [Heap.tctiOf, h, Heap.tctiOf]

theorem World.blocks_congr {heap heap' : Heap T} {held : List (SizeT A)}
    (h : ∀ q ∈ held, heap'.sys q = heap.sys q) :
    World.blocks ⟨heap', held⟩ = World.blocks ⟨heap, held⟩ := by
  apply List.flatMap_congr
  intro q hq
  rw [Heap.tctiOf_congr (h q hq)]

theorem map_tctiOf_congr {heap heap' : Heap T} {held : List (SizeT A)}
    (h : ∀ q ∈ held, heap'.sys q = heap.sys q) :
    held.map heap'.tctiOf = held.map heap.tctiOf :=
  List.map_congr_left fun q hq => Heap.tctiOf_congr (h q hq)

theorem Sound.held_live (h : Sound live w) (hq : q ∈ w.held) :
    q ∈ w.heap.pool.live ∧ w.heap.tctiOf q ∈ w.heap.pool.live :=
  ⟨h.owns.mem_live (World.mem_blocks hq).1, h.owns.mem_live (World.mem_blocks hq).2⟩

theorem finalizable_opened (block : TctiUefiContext A) (n : SizeT A) :
    Finalizable (block.opened n) := ⟨opened_valid block n, rfl⟩

theorem Sound.setUp (h : Sound live w) (hp : p ∉ w.heap.pool.live)
    (hq : q ∉ (w.heap.pool.take p).live) (n : SizeT A) {sysCtx : T.SysContext}
    (hsysCtx : T.sysGetTctiContext sysCtx = (0, some p)) :
    Sound live ⟨{ w.heap.openTcti p n with
      pool := (w.heap.pool.take p).take q
      sys := Function.update w.heap.sys q sysCtx }, q :: w.held⟩ := by
  have hne : ∀ q' ∈ w.held, q' ≠ q := by
    rintro q' hq' rfl
    exact hq (Finset.mem_insert_of_mem (h.held_live hq').1)
  have hsame : ∀ q' ∈ w.held, Function.update w.heap.sys q sysCtx q' = w.heap.sys q' :=
    fun q' hq' => Function.update_of_ne (hne q' hq') _ _
  generalize hheap : ({ w.heap.openTcti p n with
    pool := (w.heap.pool.take p).take q
    sys := Function.update w.heap.sys q sysCtx } : Heap T) = heap
  have hsys : ∀ q' ∈ w.held, heap.sys q' = w.heap.sys q' := by
    rw [← hheap]
    exact hsame
  have hnew : T.sysGetTctiContext (heap.sys q) = (0, some p) := by
    rw [← hheap]
    simpa using hsysCtx
  have htcti : heap.tctiOf q = p := by rw [Heap.tctiOf, hnew, Option.getD_some]
  constructor
  · constructor
    · have hblocks : World.blocks ⟨heap, q :: w.held⟩ = q :: p :: w.blocks := by
        rw [World.blocks, List.flatMap_cons, htcti]
        exact congrArg ([q, p] ++ ·) (World.blocks_congr hsys)
      rw [hblocks, ← hheap]
      exact (h.owns.take hp).take hq
    · rw [List.map_cons, htcti, map_tctiOf_congr hsys, List.toFinset_cons, ← h.opened, ← hheap]
      rfl
  · intro q' hq'
    rcases List.mem_cons.mp hq' with rfl | hq'
    · rw [htcti]
      exact hnew
    · rw [hsys q' hq', Heap.tctiOf_congr (hsys q' hq')]
      exact h.remembers q' hq'
  · intro q' hq'
    rcases List.mem_cons.mp hq' with rfl | hq'
    · rw [htcti, ← hheap]
      simp [Heap.openTcti, finalizable_opened]
    · have hold : w.heap.tctiOf q' ≠ p := by
        rintro rfl
        exact hp (h.held_live hq').2
      rw [Heap.tctiOf_congr (hsys q' hq'), ← hheap]
      simp only [Heap.openTcti, Function.update_of_ne hold]
      exact h.finalizable q' hq'

theorem Sound.of_agrees (h : Sound live w) {heap : Heap T} {held : List (SizeT A)}
    (hheld : ∀ q ∈ held, q ∈ w.held) (hsys : ∀ q ∈ held, heap.sys q = w.heap.sys q)
    (htcti : ∀ q ∈ held, heap.tcti (w.heap.tctiOf q) = w.heap.tcti (w.heap.tctiOf q))
    (howns : Pool.Owns live (World.blocks ⟨w.heap, held⟩) heap.pool)
    (hopened : heap.opened = (held.map w.heap.tctiOf).toFinset) : Sound live ⟨heap, held⟩ where
  owns := by
    rw [World.blocks_congr hsys]
    exact howns
  opened := by
    rw [map_tctiOf_congr hsys]
    exact hopened
  remembers q hq := by
    rw [hsys q hq, Heap.tctiOf_congr (hsys q hq)]
    exact h.remembers q (hheld q hq)
  finalizable q hq := by
    rw [Heap.tctiOf_congr (hsys q hq), htcti q hq]
    exact h.finalizable q (hheld q hq)

section TearDown

variable {as bs : List (SizeT A)} (hheld : w.held = as ++ q :: bs)
include hheld

theorem World.blocks_perm :
    w.blocks.Perm (q :: w.heap.tctiOf q :: World.blocks ⟨w.heap, as ++ bs⟩) := by
  rw [World.blocks, World.blocks, hheld, List.flatMap_append, List.flatMap_append,
    List.flatMap_cons]
  exact List.perm_append_comm_assoc ..

theorem Sound.others (h : Sound live w) :
    ∀ q' ∈ as ++ bs, q' ≠ q ∧ w.heap.tctiOf q' ≠ w.heap.tctiOf q := by
  obtain ⟨hq, hrest⟩ := List.nodup_cons.mp (h.owns.perm (World.blocks_perm hheld)).nodup
  have hp := (List.nodup_cons.mp hrest).1
  intro q' hq'
  obtain ⟨hmem, htcti⟩ := World.mem_blocks (w := ⟨w.heap, as ++ bs⟩) hq'
  constructor
  · rintro rfl
    exact hq (List.mem_cons_of_mem _ hmem)
  · intro heq
    exact hp (heq ▸ htcti)

theorem Sound.held_filter (h : Sound live w) :
    w.held.filter (fun q' => some q' ≠ some q) = as ++ bs := by
  have hkeep : (as ++ bs).filter (fun q' => some q' ≠ some q) = as ++ bs := by
    rw [List.filter_eq_self]
    intro q' hq'
    simpa using (h.others hheld q' hq').1
  rw [hheld, List.filter_append, List.filter_cons_of_neg (by simp), ← List.filter_append, hkeep]

theorem Sound.opened_erase (h : Sound live w) :
    w.heap.opened.erase (w.heap.tctiOf q) = ((as ++ bs).map w.heap.tctiOf).toFinset := by
  have hnot : w.heap.tctiOf q ∉ ((as ++ bs).map w.heap.tctiOf).toFinset := by
    rw [List.mem_toFinset, List.mem_map]
    rintro ⟨q', hq', heq⟩
    exact (h.others hheld q' hq').2 heq
  have hall : w.heap.opened =
      insert (w.heap.tctiOf q) ((as ++ bs).map w.heap.tctiOf).toFinset := by
    rw [h.opened, hheld, List.map_append, List.map_cons, List.map_append, List.toFinset_append,
      List.toFinset_append, List.toFinset_cons, Finset.union_insert]
  rw [hall, Finset.erase_insert hnot]

end TearDown

theorem Sound.tornDown (h : Sound live w) (hq : q ∈ w.held) :
    Sound live ⟨(sysUefiTeardownFull (some q) w.heap).val,
      w.held.filter fun q' => some q' ≠ some q⟩ := by
  rw [sysUefiTeardownFull_of_tcti (h.remembers q hq) (h.finalizable q hq)]
  obtain ⟨as, bs, hheld⟩ := List.append_of_mem hq
  have hothers := h.others hheld
  have hold : ∀ q' ∈ as ++ bs, q' ∈ w.held := by
    intro q' hq'
    rw [hheld]
    exact List.mem_append.mpr ((List.mem_append.mp hq').imp_right (List.mem_cons_of_mem _))
  have hsys : ∀ q' ∈ as ++ bs,
      Function.update w.heap.sys q (T.sysFinalize (w.heap.sys q)) q' = w.heap.sys q' :=
    fun q' hq' => Function.update_of_ne (hothers q' hq').1 _ _
  have howns := (h.owns.perm (World.blocks_perm hheld)).free.free
  rw [h.held_filter hheld]
  apply h.of_agrees hold hsys ?_ howns (h.opened_erase hheld)
  exact fun q' hq' => Function.update_of_ne (hothers q' hq').2 _ _

end Steps

section Runs

variable {A : Arch} {T : Tss A} {live : Finset (SizeT A)} {w : World T} {P : Platform T}
  {sysCtx : Option (SizeT A)} {c : Call T}

theorem step_of_failure {rc : SysRc} {heap : Heap T} (hrc : rc ≠ .success)
    (h : (sysUefiInit P w.heap).val = ⟨rc, none, heap⟩) :
    ((setup T).step w (.init P)).1 = ⟨heap, w.held⟩ := by
  simp only [setup, h, if_neg hrc]

theorem Sound.init (h : Sound live w) (hlate : ¬FailsLate w (.init P)) :
    Sound live ((setup T).step w (.init P)).1 := by
  cases hp : P.tctiBlock w.heap with
  | none =>
    obtain ⟨rc, hrc, hval⟩ := sysUefiInit_of_early_failure hp
    rw [step_of_failure hrc hval]
    exact h
  | some p =>
    have hfresh := Platform.fresh_tctiBlock hp
    cases hq : P.sysBlock (some p) (w.heap.openTcti p P.tctiSize) with
    | none => exact absurd ⟨p, hp, hq⟩ hlate
    | some q =>
      obtain ⟨hq, reply, hreply, hval⟩ := sysUefiInitFromTctiCtx_of_some hq
      have hstep : ((setup T).step w (.init P)).1 =
          ⟨{ w.heap.openTcti p P.tctiSize with
            pool := (w.heap.pool.take p).take q
            sys := Function.update w.heap.sys q reply }, q :: w.held⟩ := by
        simp only [setup, sysUefiInit_of_tcti hp, hval, if_true, Option.toList_some,
          List.singleton_append]
        rfl
      rw [hstep]
      exact h.setUp hfresh hq _ hreply

theorem Sound.teardown (h : Sound live w) (hpermitted : Permitted w (.teardown sysCtx)) :
    Sound live ((setup T).step w (.teardown sysCtx)).1 := by
  cases sysCtx with
  | none =>
    have hkeep : w.held.filter (fun q => some q ≠ none) = w.held := by simp
    simp only [setup, sysUefiTeardownFull, Trace.val_pure, hkeep]
    exact h
  | some q => exact h.tornDown hpermitted

theorem not_balanced_of_failsLate (h : Sound live w) (hlate : FailsLate w (.init P)) :
    ¬Balanced live ((setup T).step w (.init P)).1 := by
  obtain ⟨p, hp, hq⟩ := hlate
  obtain ⟨rc, sys, hrc, hsys, hval⟩ := sysUefiInitFromTctiCtx_of_none hq
  rw [← sysUefiInit_of_tcti hp] at hval
  rw [step_of_failure hrc hval]
  intro hbalanced
  have hsame : ∀ q ∈ w.held, sys q = w.heap.sys q :=
    fun q hq => hsys q (Finset.mem_insert_of_mem (h.held_live hq).1)
  have hblocks : World.blocks ⟨{ w.heap.openTcti p P.tctiSize with sys := sys }, w.held⟩ =
      w.blocks := World.blocks_congr hsame
  have howns := hbalanced.owns
  rw [hblocks] at howns
  exact h.owns.not_owns_take (Platform.fresh_tctiBlock hp) howns

theorem balanced_iff {tcti : SizeT A → TctiUefiContext A} {sys : SizeT A → T.SysContext}
    {calls : List (Call T)}
    (hpermitted : (setup T).Along Permitted (World.start live tcti sys) calls) :
    (∀ w ∈ (setup T).states (World.start live tcti sys) calls, Balanced live w) ↔
      (setup T).Along (fun w c => ¬FailsLate w c) (World.start live tcti sys) calls := by
  apply Machine.forall_states_iff (I := Sound live) (fun _ h => h.toBalanced) ?_ ?_ hpermitted
    (sound_start live tcti sys)
  · intro w c hpermitted h hlate
    cases c with
    | init P => exact h.init hlate
    | teardown sysCtx => exact h.teardown hpermitted
  · intro w c _ h hlate
    cases c with
    | init P => exact not_balanced_of_failsLate h (not_not.mp hlate)
    | teardown sysCtx => exact absurd id hlate

end Runs

section Reference

def referenceTss (A : Arch) : Tss A where
  SysContext := Option (SizeT A)
  sysGetContextSize size := size + 4096#A.bits
  sysGetTctiContext sysCtx := (0, sysCtx)
  sysFinalize _ := none
  tctiFinalize common := common.finalize
  tctiFinalize_eq _ _ := rfl

def roomFor (A : Arch) (ps : List (SizeT A)) : Allocator (SizeT A) (SizeT A) where
  allocate live _ := ps.find? fun p => p ∉ live
  fresh _ _ _ h := by simpa using List.find?_some h

def referencePlatform (A : Arch) (ps : List (SizeT A)) : Platform (referenceTss A) where
  query := acceptingFirmware A 4096 4096
  init := acceptingFirmware A 4096 4096
  size := 0#A.bits
  pool := roomFor A ps
  sysInitialize _ _ tctiCtx _ := (0, tctiCtx)
  sysInitialize_tcti _ _ _ _ _ := rfl

def referenceStart : World (referenceTss .x86_64) :=
  .start ∅ (fun _ => filledBlock .x86_64 0) fun _ => none

def initWithRoom (ps : List (SizeT .x86_64)) : Call (referenceTss .x86_64) :=
  .init (referencePlatform .x86_64 ps)

theorem balanced_reference :
    (setup (referenceTss .x86_64)).Along Permitted referenceStart
        [initWithRoom [], initWithRoom [4096, 8192], .teardown (some 8192)] ∧
      ∀ w ∈ (setup (referenceTss .x86_64)).states referenceStart
        [initWithRoom [], initWithRoom [4096, 8192], .teardown (some 8192)], Balanced ∅ w := by
  have hheld : (8192 : SizeT .x86_64) ∈
      ((setup _).final referenceStart [initWithRoom [], initWithRoom [4096, 8192]]).held := by
    decide +kernel
  have hpermitted : (setup (referenceTss .x86_64)).Along Permitted referenceStart
      [initWithRoom [], initWithRoom [4096, 8192], .teardown (some 8192)] :=
    ⟨trivial, trivial, hheld, trivial⟩
  exact ⟨hpermitted, (balanced_iff hpermitted).mpr
    ⟨by decide +kernel, by decide +kernel, by decide +kernel, trivial⟩⟩

theorem not_balanced_of_room_for_one :
    (setup (referenceTss .x86_64)).Along Permitted referenceStart [initWithRoom [4096]] ∧
      ¬∀ w ∈ (setup (referenceTss .x86_64)).states referenceStart [initWithRoom [4096]],
        Balanced ∅ w := by
  refine ⟨⟨trivial, trivial⟩, ?_⟩
  intro hbalanced
  have hlast := hbalanced ((setup _).step referenceStart (initWithRoom [4096])).1
    (List.mem_cons_of_mem _ (List.mem_singleton_self _))
  have hleft : (4096 : SizeT .x86_64) ∈
      ((setup _).step referenceStart (initWithRoom [4096])).1.heap.pool.live := by decide +kernel
  rw [hlast.owns.live] at hleft
  exact absurd hleft (by decide +kernel)

end Reference

end TctiUefi.Sapi
