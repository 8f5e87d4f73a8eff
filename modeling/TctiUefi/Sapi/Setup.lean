import TctiUefi.Lib.Pool
import TctiUefi.Tcti.Init

namespace TctiUefi.Sapi

structure AbiVersion where
  tssCreator : UInt32
  tssFamily : UInt32
  tssLevel : UInt32
  tssVersion : UInt32

def abiVersion : AbiVersion := ⟨1, 2, 1, 108⟩

/-- The libraries of the TSS.  `tctiFinalize` is the function that the macro
`Tss2_Tcti_Finalize` calls with a context. -/
structure Tss (A : Arch) where
  SysContext : Type
  sysGetContextSize : SizeT A → SizeT A
  sysGetTctiContext : SysContext → UInt32 × Option (SizeT A)
  sysFinalize : SysContext → SysContext
  tctiFinalize : TctiContextCommon → TctiFn
  tctiFinalize_eq : ∀ common, 1 ≤ common.version → tctiFinalize common = common.finalize

/-- What one call of `sys_uefi_init` meets: the firmware in its two calls of Init, the value of
`size` before them, the pool, and what `Tss2_Sys_Initialize` returns and leaves in its block.
A context that was initialised knows the TCTI context it was given. -/
structure Platform {A : Arch} (T : Tss A) where
  query : Firmware A
  init : Firmware A
  size : SizeT A
  pool : Allocator (SizeT A) (SizeT A)
  sysInitialize : T.SysContext → SizeT A → Option (SizeT A) → AbiVersion → UInt32 × T.SysContext
  sysInitialize_tcti : ∀ sysCtx size tctiCtx version,
    (sysInitialize sysCtx size tctiCtx version).1 = 0 →
      T.sysGetTctiContext (sysInitialize sysCtx size tctiCtx version).2 = (0, tctiCtx)

/-- The pool and the contents of its blocks.  `opened` are the TCTI contexts that were
initialised and not finalised. -/
structure Heap {A : Arch} (T : Tss A) where
  pool : Pool (SizeT A)
  opened : Finset (SizeT A)
  tcti : SizeT A → TctiUefiContext A
  sys : SizeT A → T.SysContext

inductive SysRc
  | tcti (rc : TctiRc)
  | sys (rc : UInt32)
  deriving DecidableEq

def SysRc.success : SysRc := .tcti .success

structure SetupResult {A : Arch} (T : Tss A) (ρ : Type) where
  rc : ρ
  ctx : Option (SizeT A)
  heap : Heap T

section Setup

variable {A : Arch} {T : Tss A}

def tctiUefiInit (P : Platform T) (heap : Heap T) : Trace Effect (SetupResult T TctiRc) := do
  let query ← tss2TctiUefiInit none (some P.size) none P.query
  if query.rc ≠ .success then
    pure ⟨query.rc, none, heap⟩
  else
    let size := query.size.getD P.size
    match P.pool.allocate heap.pool.live size with
    | none => do
      Trace.tell (.print ⟨"Failed to allocate 0x%x bytes\n", [.int size.toNat]⟩)
      pure ⟨.generalFailure, none, heap⟩
    | some ctx => do
      let init ← tss2TctiUefiInit (some (heap.tcti ctx)) (some size) none P.init
      let heap : Heap T :=
        { heap with
          pool := heap.pool.take ctx
          tcti := Function.update heap.tcti ctx (init.context.getD (heap.tcti ctx)) }
      if init.rc ≠ .success then
        pure ⟨init.rc, some ctx, { heap with pool := heap.pool.free ctx }⟩
      else
        pure ⟨init.rc, some ctx, { heap with opened := insert ctx heap.opened }⟩

/-- `Tss2_Tcti_Finalize` -/
def tctiFinalize (tctiCtx : SizeT A) (heap : Heap T) : Trace Effect (Heap T) :=
  match T.tctiFinalize (heap.tcti tctiCtx).common with
  | .tctiUefiFinalize => do
    let context ← tctiUefiFinalize (some (heap.tcti tctiCtx))
    let tcti := context.getD (heap.tcti tctiCtx)
    pure { heap with
      tcti := Function.update heap.tcti tctiCtx tcti
      opened := if tcti.state = .final then heap.opened.erase tctiCtx else heap.opened }
  | _ => pure heap

def tctiUefiTeardown (tctiCtx : Option (SizeT A)) (heap : Heap T) : Trace Effect (Heap T) :=
  match tctiCtx with
  | none => pure heap
  | some ctx => do
    let heap ← tctiFinalize ctx heap
    pure { heap with pool := heap.pool.free ctx }

def sysUefiInitFromTctiCtx (P : Platform T) (tctiCtx : Option (SizeT A)) (heap : Heap T) :
    Trace Effect (SetupResult T SysRc) :=
  let size := T.sysGetContextSize 0#A.bits
  match P.pool.allocate heap.pool.live size with
  | none => do
    Trace.tell (.print
      ⟨"Failed to allocate 0x%zx bytes for the SAPI context\n", [.int size.toNat]⟩)
    pure ⟨.tcti .generalFailure, none, heap⟩
  | some sysCtxTmp =>
    let reply := P.sysInitialize (heap.sys sysCtxTmp) size tctiCtx abiVersion
    let heap : Heap T :=
      { heap with
        pool := heap.pool.take sysCtxTmp
        sys := Function.update heap.sys sysCtxTmp reply.2 }
    if reply.1 ≠ 0 then do
      Trace.tell (.print ⟨"Failed to initialize SAPI context: 0x%x\n", [.int reply.1.toNat]⟩)
      pure ⟨.sys reply.1, none, { heap with pool := heap.pool.free sysCtxTmp }⟩
    else
      pure ⟨.success, some sysCtxTmp, heap⟩

def sysUefiInit (P : Platform T) (heap : Heap T) : Trace Effect (SetupResult T SysRc) := do
  let tcti ← tctiUefiInit P heap
  if tcti.rc ≠ .success then
    pure ⟨.tcti tcti.rc, none, tcti.heap⟩
  else
    sysUefiInitFromTctiCtx P tcti.ctx tcti.heap

def sysUefiTeardown (sysCtx : Option (SizeT A)) (heap : Heap T) : Heap T :=
  match sysCtx with
  | none => heap
  | some ctx =>
    { heap with
      sys := Function.update heap.sys ctx (T.sysFinalize (heap.sys ctx))
      pool := heap.pool.free ctx }

def sysUefiTeardownFull (sysCtx : Option (SizeT A)) (heap : Heap T) : Trace Effect (Heap T) :=
  match sysCtx with
  | none => pure heap
  | some ctx =>
    let reply := T.sysGetTctiContext (heap.sys ctx)
    if reply.1 ≠ 0 then do
      printText "Tss2_Sys_GetTctiContext failed\n"
      pure heap
    else
      tctiUefiTeardown reply.2 (sysUefiTeardown sysCtx heap)

end Setup

section Spec

variable {A : Arch} {T : Tss A} {P : Platform T} {heap : Heap T} {p q : SizeT A}

def Platform.tctiSize (P : Platform T) : SizeT A := (sizeofTctiUefiContext P.query).val

def Platform.tctiBlock (P : Platform T) (heap : Heap T) : Option (SizeT A) :=
  if P.tctiSize = 0#A.bits then none else P.pool.allocate heap.pool.live P.tctiSize

def Heap.openTcti (heap : Heap T) (p size : SizeT A) : Heap T :=
  { heap with
    pool := heap.pool.take p
    tcti := Function.update heap.tcti p ((heap.tcti p).opened size)
    opened := insert p heap.opened }

def Platform.sysReply (P : Platform T) (tctiCtx : Option (SizeT A)) (heap : Heap T) (q : SizeT A) :
    UInt32 × T.SysContext :=
  P.sysInitialize (heap.sys q) (T.sysGetContextSize 0#A.bits) tctiCtx abiVersion

def Platform.sysBlock (P : Platform T) (tctiCtx : Option (SizeT A)) (heap : Heap T) :
    Option (SizeT A) :=
  (P.pool.allocate heap.pool.live (T.sysGetContextSize 0#A.bits)).filter fun q =>
    (P.sysReply tctiCtx heap q).1 = 0

theorem query_val (n : SizeT A) (fw : Firmware A) :
    (tss2TctiUefiInit none (some n) none fw).val =
      if (sizeofTctiUefiContext fw).val = 0#A.bits then
        ⟨.generalFailure, none, some (sizeofTctiUefiContext fw).val⟩
      else ⟨.success, none, some (sizeofTctiUefiContext fw).val⟩ := by
  simp only [tss2TctiUefiInit, Trace.val_bind, Trace.val_ite, Trace.val_pure]

theorem tctiUefiInit_of_none (h : P.tctiBlock heap = none) :
    ∃ rc, rc ≠ .success ∧ (tctiUefiInit P heap).val = ⟨rc, none, heap⟩ := by
  refine ⟨.generalFailure, by decide, ?_⟩
  rw [Platform.tctiBlock] at h
  by_cases hsize : (sizeofTctiUefiContext P.query).val = 0#A.bits
  · simp [tctiUefiInit, query_val, hsize]
  · rw [Platform.tctiSize, if_neg hsize] at h
    simp [tctiUefiInit, query_val, hsize, h]

theorem tctiUefiInit_of_some (h : P.tctiBlock heap = some p) :
    (tctiUefiInit P heap).val = ⟨.success, some p, heap.openTcti p P.tctiSize⟩ := by
  rw [Platform.tctiBlock] at h
  by_cases hsize : (sizeofTctiUefiContext P.query).val = 0#A.bits
  · rw [Platform.tctiSize, if_pos hsize] at h
    cases h
  · rw [Platform.tctiSize, if_neg hsize] at h
    simp [tctiUefiInit, query_val, hsize, h, tss2TctiUefiInit_block]
    rfl

theorem sysUefiInitFromTctiCtx_of_none {tctiCtx : Option (SizeT A)}
    (h : P.sysBlock tctiCtx heap = none) :
    ∃ rc sys, rc ≠ SysRc.success ∧ (∀ q ∈ heap.pool.live, sys q = heap.sys q) ∧
      (sysUefiInitFromTctiCtx P tctiCtx heap).val = ⟨rc, none, { heap with sys := sys }⟩ := by
  rw [Platform.sysBlock] at h
  cases hq : P.pool.allocate heap.pool.live (T.sysGetContextSize 0#A.bits) with
  | none =>
    refine ⟨.tcti .generalFailure, heap.sys, by decide, fun _ _ => rfl, ?_⟩
    simp [sysUefiInitFromTctiCtx, hq]
  | some q =>
    have hfresh := P.pool.fresh _ _ _ hq
    rw [hq, Option.filter_some] at h
    have hrc : (P.sysReply tctiCtx heap q).1 ≠ 0 := by
      intro hzero
      simp [hzero] at h
    refine ⟨.sys (P.sysReply tctiCtx heap q).1,
      Function.update heap.sys q (P.sysReply tctiCtx heap q).2, by simp [SysRc.success], ?_, ?_⟩
    · intro q' hq'
      apply Function.update_of_ne
      rintro rfl
      exact hfresh hq'
    · rw [Platform.sysReply] at hrc
      simp only [sysUefiInitFromTctiCtx, hq, ne_eq, hrc, not_false_eq_true, if_true,
        Trace.val_bind, Trace.val_pure, Pool.free_take hfresh]
      rfl

theorem sysUefiInitFromTctiCtx_of_some {tctiCtx : Option (SizeT A)}
    (h : P.sysBlock tctiCtx heap = some q) :
    q ∉ heap.pool.live ∧ ∃ sysCtx, T.sysGetTctiContext sysCtx = (0, tctiCtx) ∧
      (sysUefiInitFromTctiCtx P tctiCtx heap).val = ⟨.success, some q,
        { heap with
          pool := heap.pool.take q
          sys := Function.update heap.sys q sysCtx }⟩ := by
  obtain ⟨hq, hrc⟩ := Option.filter_eq_some_iff.mp h
  have hrc : (P.sysReply tctiCtx heap q).1 = 0 := by simpa using hrc
  refine ⟨P.pool.fresh _ _ _ hq, (P.sysReply tctiCtx heap q).2,
    P.sysInitialize_tcti _ _ _ _ hrc, ?_⟩
  rw [Platform.sysReply] at hrc
  simp only [sysUefiInitFromTctiCtx, hq, ne_eq, hrc, not_true_eq_false, if_false, Trace.val_pure]
  rfl

/-- A TCTI context that Init has made of a block, whatever was done with it since. -/
def Finalizable (c : TctiUefiContext A) : Prop :=
  c.Valid ∧ c.common.finalize = .tctiUefiFinalize

theorem sysUefiTeardownFull_of_tcti (hq : T.sysGetTctiContext (heap.sys q) = (0, some p))
    (hp : Finalizable (heap.tcti p)) :
    (sysUefiTeardownFull (some q) heap).val =
      { pool := (heap.pool.free q).free p
        opened := heap.opened.erase p
        tcti := Function.update heap.tcti p { heap.tcti p with state := .final }
        sys := Function.update heap.sys q (T.sysFinalize (heap.sys q)) } := by
  have hversion : 1 ≤ (heap.tcti p).common.version := by
    rw [hp.1.2]
    decide
  have hcall : T.tctiFinalize (heap.tcti p).common = .tctiUefiFinalize :=
    (T.tctiFinalize_eq _ hversion).trans hp.2
  simp [sysUefiTeardownFull, hq, sysUefiTeardown, tctiUefiTeardown, tctiFinalize, hcall,
    tctiUefiFinalize_of_valid hp.1]

end Spec

end TctiUefi.Sapi
