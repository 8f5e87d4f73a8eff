import TctiUefi.Sapi.CapsFixed
import Mathlib.Order.Interval.Finset.Nat

namespace TctiUefi.Sapi.CapsFixed

open Client

section Setup

variable {A : Arch} {T : Tss A} {τ : Type}

def Plain (e : Effect) : Prop := readEffect e = none

theorem logs_printed {α : Type} {format : String} (args : List PrintArg) (a : α)
    (h : (fixedCases.find? fun c => c.format = format) = none) (hother : format ∉ otherFormats) :
    (printf format args >>= fun _ => pure a).Logs Plain := by
  have hplain : Plain (.print ⟨format, args⟩) := readEffect_plain h hother
  exact (Trace.logs_tell hplain).bind (Trace.logs_pure _ _)

theorem logs_tcg2GetMaxBuf (p : Tcg2Protocol A) : (tcg2GetMaxBuf p).Logs Plain := by
  have hcaps : (tcg2GetCapability p .request).Logs Plain := by
    rw [tcg2GetCapability]
    split
    · exact logs_printed _ _ (by decide +kernel) (by decide)
    · exact Trace.logs_pure _ _
  apply hcaps.bind
  split
  · exact logs_printed _ _ (by decide +kernel) (by decide)
  · split <;> exact Trace.logs_pure _ _

theorem logs_sizeofTctiUefiContext (fw : Firmware A) :
    (sizeofTctiUefiContext fw).Logs Plain := by
  rw [sizeofTctiUefiContext]
  split
  · exact Trace.logs_pure _ _
  · apply (logs_tcg2GetMaxBuf _).bind
    dsimp only
    split <;> exact Trace.logs_pure _ _

theorem logs_tss2TctiUefiInit (context : Option (TctiUefiContext A)) (n : SizeT A)
    (fw : Firmware A) : (tss2TctiUefiInit context (some n) none fw).Logs Plain := by
  cases context with
  | none =>
    apply (logs_sizeofTctiUefiContext fw).bind
    split <;> exact Trace.logs_pure _ _
  | some block =>
    rw [tss2TctiUefiInit_block]
    intro e he
    obtain ⟨x, -, rfl⟩ := List.mem_map.mp he
    rfl

theorem logs_tctiUefiInit (P : Platform T) (heap : Heap T) :
    (tctiUefiInit P heap).Logs Plain := by
  apply (logs_tss2TctiUefiInit _ _ _).bind
  split
  · exact Trace.logs_pure _ _
  · dsimp only
    split
    · exact logs_printed _ _ (by decide +kernel) (by decide)
    · apply (logs_tss2TctiUefiInit _ _ _).bind
      split <;> exact Trace.logs_pure _ _

theorem logs_sysUefiInitFromTctiCtx (P : Platform T) (tctiCtx : Option (SizeT A))
    (heap : Heap T) : (sysUefiInitFromTctiCtx P tctiCtx heap).Logs Plain := by
  rw [sysUefiInitFromTctiCtx]
  split
  · exact logs_printed _ _ (by decide +kernel) (by decide)
  · dsimp only
    split
    · exact logs_printed _ _ (by decide +kernel) (by decide)
    · exact Trace.logs_pure _ _

theorem logs_sysUefiInit (P : Platform T) (heap : Heap T) : (sysUefiInit P heap).Logs Plain := by
  apply (logs_tctiUefiInit P heap).bind
  split
  · exact Trace.logs_pure _ _
  · exact logs_sysUefiInitFromTctiCtx _ _ _

theorem logs_tctiUefiTeardown (tctiCtx : Option (SizeT A)) (heap : Heap T) :
    (tctiUefiTeardown tctiCtx heap).Logs Plain := by
  cases tctiCtx with
  | none => exact Trace.logs_pure _ _
  | some ctx =>
    refine Trace.Logs.bind ?_ (Trace.logs_pure _ _)
    rw [tctiFinalize]
    split
    · refine Trace.Logs.bind ?_ (Trace.logs_pure _ _)
      rw [tctiUefiFinalize]
      split
      · have hplain : Plain (.write (memberSpan A .state)) := rfl
        exact (Trace.logs_tell hplain).bind (Trace.logs_pure _ _)
      · exact Trace.logs_pure _ _
    · exact Trace.logs_pure _ _

theorem logs_sysUefiTeardownFull (q : SizeT A) (heap : Heap T) :
    (sysUefiTeardownFull (some q) heap).Logs Plain := by
  rw [sysUefiTeardownFull]
  split
  · exact logs_printed _ _ (by decide +kernel) (by decide)
  · exact logs_tctiUefiTeardown _ _

end Setup

section Shows

variable {A : Arch} {T : Tss A} {τ : Type} {L : SapiLibrary T τ} {limit : Nat}
  {properties : τ → List TpmsTaggedProperty}

/-- The properties from some number on that are in its group of 256. -/
def groupFrom (property : UInt32) (properties : List TpmsTaggedProperty) :
    List TpmsTaggedProperty :=
  properties.filter fun p =>
    property.toNat ≤ p.property.toNat ∧ p.property.toNat / 256 = property.toNat / 256

/-- A TPM with its properties in ascending order.  A successful `TPM2_GetCapability` gives those of
the group from the one asked for on, as many as asked for and at most `limit`, and says whether
there are more. -/
structure Offers (L : SapiLibrary T τ) (limit : Nat) (properties : τ → List TpmsTaggedProperty) :
    Prop where
  sorted : ∀ tpm, (properties tpm).Pairwise fun p q => p.property.toNat < q.property.toNat
  answer : ∀ sysCtx tctiCtx tpm property count moreData data,
    let reply := (L.command sysCtx tctiCtx tpm
      (.getCapability tpm2CapTpmProperties property count moreData data)).reply
    let group := groupFrom property (properties tpm)
    reply.rc = 0 →
      reply.capabilityData.tpmProperties.list = group.take (min count.toNat limit) ∧
        (reply.moreData ≠ 0 ↔ min count.toNat limit < group.length)

def console (x : Trace (Effect ⊕ SysCall) α) : List Line := (said x).filterMap readEffect

@[simp] theorem console_pure (a : α) : console (pure a : Trace (Effect ⊕ SysCall) α) = [] := rfl

@[simp] theorem console_bind (x : Trace (Effect ⊕ SysCall) α)
    (f : α → Trace (Effect ⊕ SysCall) β) : console (x >>= f) = console x ++ console (f x.val) := by
  simp [console]

@[simp] theorem console_map (f : α → β) (x : Trace (Effect ⊕ SysCall) α) :
    console (f <$> x) = console x := by
  rw [console, said, Trace.log_map]
  rfl

theorem console_mapLog_inl {x : Trace Effect α} (h : x.Logs Plain) :
    console (x.mapLog .inl) = [] := by
  have hsaid : said (x.mapLog .inl : Trace (Effect ⊕ SysCall) α) = x.log := by
    simp [said, Trace.mapLog, List.filterMap_map, Function.comp_def]
  rw [console, hsaid]
  exact List.filterMap_eq_nil_iff.mpr h

theorem console_capsFixed (A : Arch) (hundredth : UInt32 → PrintArg) {σ : Type}
    (M : Machine σ SysCommand SysReply) (s : σ) :
    console ((capsFixed A hundredth).run M s) = report A (M.step s fixedRequest).2 := by
  have hreturned : readEffect (.print ⟨"Tss2_Sys_GetCapability returned TSS2_RC_SUCCESS\n", []⟩) =
      none := readEffect_plain (by decide +kernel) (by decide)
  have hdump : readEffect (.print ⟨"dump_tpm_properties_fixed\n", []⟩) = none :=
    readEffect_plain (by decide +kernel) (by decide)
  by_cases hrc : (M.step s fixedRequest).2.rc = 0 <;>
    simp [capsFixed, console, run_bind, hrc, hreturned, readEffect_failed, readEffect_more, hdump,
      readEffect_dump, report]

theorem calls_capsFixed (A : Arch) (hundredth : UInt32 → PrintArg) {σ : Type}
    (M : Machine σ SysCommand SysReply) (s : σ) :
    (capsFixed A hundredth).calls M s = [(fixedRequest, (M.step s fixedRequest).2)] := by
  rw [capsFixed, calls_bind, calls_call]
  dsimp only
  split <;> simp

theorem mem_take_of_keys {α : Type} {l : List α} (key : α → Nat) (keys : Finset Nat)
    (hl : l.Pairwise fun x y => key x < key y) {x : α} (hx : x ∈ l)
    (h : ∀ y ∈ l, key y ≤ key x → key y ∈ keys) : x ∈ l.take keys.card := by
  rw [← List.take_append_drop keys.card l] at hl
  have hbelow : ∀ y ∈ l.take keys.card, x ∈ l.drop keys.card → key y < key x :=
    fun y hy hx => (List.pairwise_append.mp hl).2.2 y hy x hx
  have hnodup : ((l.take keys.card).map key).Nodup :=
    List.pairwise_map.mpr ((List.pairwise_append.mp hl).1.imp fun hlt => Nat.ne_of_lt hlt)
  by_contra hnot
  -- behind the first ones it would be one key too many
  rw [← List.take_append_drop keys.card l, List.mem_append] at hx
  have hdrop := hx.resolve_left hnot
  have hlength : ((l.take keys.card).map key).toFinset.card = keys.card := by
    rw [List.toFinset_card_of_nodup hnodup, List.length_map, List.length_take, Nat.min_eq_left]
    have hpos := List.length_pos_of_mem hdrop
    rw [List.length_drop] at hpos
    omega
  have hmem : key x ∉ ((l.take keys.card).map key).toFinset := by
    rw [List.mem_toFinset, List.mem_map]
    rintro ⟨y, hy, heq⟩
    exact Nat.ne_of_lt (hbelow y hy hdrop) heq
  have hsubset : insert (key x) ((l.take keys.card).map key).toFinset ⊆ keys := by
    intro k hk
    rcases Finset.mem_insert.mp hk with rfl | hk
    · exact h x (List.mem_of_mem_drop hdrop) (Nat.le_refl _)
    · obtain ⟨y, hy, rfl⟩ := List.mem_map.mp (List.mem_toFinset.mp hk)
      exact h y (List.mem_of_mem_take hy) (Nat.le_of_lt (hbelow y hy hdrop))
  have hcard := Finset.card_le_card hsubset
  rw [Finset.card_insert_of_notMem hmem, hlength] at hcard
  omega

/-- What is on the console after a command that did not fail.  The first 45 properties are all up to
`TPM2_PT_MODES` unless the TPM has the one that has no name. -/
structure ShowsFixed (A : Arch) (limit : Nat) (properties : List TpmsTaggedProperty)
    (lines : List Line) : Prop where
  shows : ∃ more, lines =
    .more more :: ((groupFrom tpm2PtFixed properties).take (min 45 limit)).map (shown A)
  complete : .more "false" ∈ lines ↔ (groupFrom tpm2PtFixed properties).length ≤ min 45 limit
  named : 45 ≤ limit → (∀ p ∈ properties, p.property ≠ tpm2PtFixed + 21) →
    ∀ p ∈ properties, tpm2PtFixed.toNat ≤ p.property.toNat →
      p.property.toNat ≤ tpm2PtModes.toNat → shown A p ∈ lines

theorem more_ne_shown (A : Arch) (val : String) (p : TpmsTaggedProperty) :
    .more val ≠ shown A p := by
  rw [shown]
  split
  · split <;> exact Line.noConfusion
  · exact Line.noConfusion

theorem mem_take_fixed {properties : List TpmsTaggedProperty}
    (hsorted : properties.Pairwise fun p q => p.property.toNat < q.property.toNat)
    (hnamed : ∀ p ∈ properties, p.property ≠ tpm2PtFixed + 21) {p : TpmsTaggedProperty}
    (hp : p ∈ properties) (hlo : tpm2PtFixed.toNat ≤ p.property.toNat)
    (hhi : p.property.toNat ≤ tpm2PtModes.toNat) :
    p ∈ (groupFrom tpm2PtFixed properties).take 45 := by
  have hfixed : tpm2PtFixed.toNat = 256 := rfl
  have hmodes : tpm2PtModes.toNat = 301 := rfl
  have hmem : p ∈ groupFrom tpm2PtFixed properties := by
    refine List.mem_filter.mpr ⟨hp, decide_eq_true ⟨hlo, ?_⟩⟩
    omega
  apply mem_take_of_keys (fun p => p.property.toNat)
    ((Finset.Icc tpm2PtFixed.toNat tpm2PtModes.toNat).erase (tpm2PtFixed + 21).toNat)
    (hsorted.filter _) hmem
  intro q hq hle
  obtain ⟨hq, hge⟩ := List.mem_filter.mp hq
  refine Finset.mem_erase.mpr ⟨fun heq => hnamed q hq (UInt32.toNat_inj.mp heq), ?_⟩
  exact Finset.mem_Icc.mpr ⟨(of_decide_eq_true hge).1, Nat.le_trans hle hhi⟩

theorem showsFixed_report {sysCtx : T.SysContext} {tctiCtx : TctiUefiContext A} {tpm : τ}
    (h : Offers L limit properties)
    (hrc : (L.command sysCtx tctiCtx tpm fixedRequest).reply.rc = 0) :
    ShowsFixed A limit (properties tpm)
      (report A (L.command sysCtx tctiCtx tpm fixedRequest).reply) := by
  obtain ⟨hlist, hmore⟩ := h.answer sysCtx tctiCtx tpm tpm2PtFixed (tpm2PtModes - tpm2PtFixed) 0
    ⟨0, 0, fun _ => ⟨0, 0⟩⟩ hrc
  have hcount : (tpm2PtModes - tpm2PtFixed).toNat = 45 := rfl
  rw [hcount] at hlist hmore
  have hreport : report A (L.command sysCtx tctiCtx tpm fixedRequest).reply =
      .more (propStr (L.command sysCtx tctiCtx tpm fixedRequest).reply.moreData) ::
        ((groupFrom tpm2PtFixed (properties tpm)).take (min 45 limit)).map (shown A) := by
    rw [report, if_neg (not_not.mpr hrc), List.nil_append]
    exact congrArg (_ :: List.map _ ·) hlist
  rw [hreport]
  refine ⟨⟨_, rfl⟩, ?_, ?_⟩
  · have hfalse : .more "false" ∈ Line.more (propStr
          (L.command sysCtx tctiCtx tpm fixedRequest).reply.moreData) ::
            ((groupFrom tpm2PtFixed (properties tpm)).take (min 45 limit)).map (shown A) ↔
        ¬(L.command sysCtx tctiCtx tpm fixedRequest).reply.moreData ≠ 0 := by
      rw [List.mem_cons, propStr]
      constructor
      · rintro (heq | hmem) hne
        · rw [if_pos hne] at heq
          exact absurd heq (by decide)
        · obtain ⟨p, -, heq⟩ := List.mem_map.mp hmem
          exact more_ne_shown A "false" p heq.symm
      · intro heq
        rw [if_neg heq]
        exact .inl rfl
    rw [hfalse, ← Nat.not_lt]
    exact not_congr hmore
  · intro hlimit hnamed p hp hlo hhi
    rw [Nat.min_eq_left hlimit]
    exact List.mem_cons_of_mem _
      (List.mem_map_of_mem (mem_take_fixed (h.sorted tpm) hnamed hp hlo hhi))

end Shows

section Reference

abbrev Ascending :=
  { properties : List TpmsTaggedProperty //
    properties.Pairwise fun p q => p.property.toNat < q.property.toNat }

def offering (A : Arch) : SapiLibrary (referenceTss A) Ascending where
  command sysCtx _ properties
    | .getCapability capability property count _ _ =>
      let group := groupFrom property properties.val
      let sent := group.take (min count.toNat tpm2MaxTpmProperties)
      ⟨sysCtx, [], properties, { SysReply.ofRc 0 with
        moreData := if min count.toNat tpm2MaxTpmProperties < group.length then 1 else 0
        capabilityData := ⟨capability, UInt32.ofNat sent.length, fun i => sent.getD i ⟨0, 0⟩⟩ }⟩
    | _ => ⟨sysCtx, [], properties, SysReply.ofRc 0⟩
  command_tcti := by
    intro sysCtx tctiCtx properties cmd
    cases cmd <;> rfl

theorem map_getD_range {α : Type} (l : List α) (a : α) :
    (List.range l.length).map (fun i => l.getD i a) = l := by
  apply List.ext_getElem
  · simp
  · intro i _ hi
    rw [List.getElem_map, List.getElem_range, List.getD_eq_getElem?_getD,
      List.getElem?_eq_getElem hi, Option.getD_some]

theorem offering_offers (A : Arch) :
    Offers (offering A) tpm2MaxTpmProperties Subtype.val where
  sorted properties := properties.property
  answer sysCtx tctiCtx properties property count _ _ _ := by
    constructor
    · have hlength : ((groupFrom property properties.val).take
          (min count.toNat tpm2MaxTpmProperties)).length < 2 ^ 32 := by
        have hle := List.length_take_le (min count.toNat tpm2MaxTpmProperties)
          (groupFrom property properties.val)
        rw [tpm2MaxTpmProperties] at hle ⊢
        omega
      simp only [offering, TpmlTaggedTpmProperty.list, UInt32.toNat_ofNat_of_lt' hlength]
      exact map_getD_range _ _
    · have hflag (p : Prop) [Decidable p] : (if p then (1 : UInt8) else 0) ≠ 0 ↔ p := by
        by_cases hp : p <;> simp [hp]
      exact hflag _

def referenceProperties : Ascending :=
  ⟨[⟨tpm2PtFixed + 1, 0⟩, ⟨tpm2PtFixed + 5, 0x49424d00⟩, ⟨0x200, 0⟩], by decide⟩

def referenceRun : Trace (Effect ⊕ SysCall)
    (EfiStatus .x86_64 × Station (referenceTss .x86_64) Ascending) :=
  efiMain (fun value => .int value.toNat) (offering .x86_64)
    (referencePlatform .x86_64 [4096, 8192]) ⟨referenceStart.heap, referenceProperties⟩

end Reference

end TctiUefi.Sapi.CapsFixed
