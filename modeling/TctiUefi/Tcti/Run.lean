import TctiUefi.Lib.Machine
import TctiUefi.Tcti.Spec

namespace TctiUefi

/-- The context argument of a call: `NULL`, or the context the run is about. -/
inductive ContextArg | null | given
  deriving DecidableEq

def ContextArg.resolve (c : TctiUefiContext A) : ContextArg → Option (TctiUefiContext A)
  | .null => none
  | .given => some c

/-- A call of one of the three entry points with all its arguments.  Pointers are `none`
when they are `NULL`, and the contents of the memory they point to otherwise; that memory
is taken to be apart from the context.  A receive brings the firmware it meets. -/
inductive Call (A : Arch)
  | transmit (context : ContextArg) (size : SizeT A) (command : Option Buffer)
  | receive (context : ContextArg) (size : Option (SizeT A)) (response : Option Buffer)
      (timeout : Int32) (fw : Firmware A)
  | finalize (context : ContextArg)

/-- What the caller and the firmware see of a call.  `rc` is `none` for finalize, which
returns nothing; `size` and `response` are what the two pointers of receive lead to. -/
structure Outcome (A : Arch) where
  rc : Option TctiRc
  size : Option (SizeT A)
  response : Option Buffer
  effects : List Effect

def Call.exec (s : TctiUefiContext A) : Call A → TctiUefiContext A × Outcome A
  | .transmit context size command =>
    let r := tctiUefiTransmit (context.resolve s) size command
    (r.val.2.getD s, ⟨some r.val.1, none, none, r.log⟩)
  | .receive context size response timeout fw =>
    let r := tctiUefiReceive (context.resolve s) size response timeout fw
    (r.val.context.getD s, ⟨some r.val.rc, r.val.size, r.val.response, r.log⟩)
  | .finalize context =>
    let r := tctiUefiFinalize (context.resolve s)
    (r.val.getD s, ⟨none, none, none, r.log⟩)

def tcti (A : Arch) : Machine (TctiUefiContext A) (Call A) (Outcome A) where
  step s i := i.exec s

@[simp] theorem tcti_step (s : TctiUefiContext A) (i : Call A) : (tcti A).step s i = i.exec s := rfl

def Call.size : Call A → Option (SizeT A)
  | .transmit _ _ _ => none
  | .receive _ size _ _ _ => size
  | .finalize _ => none

abbrev Event (A : Arch) := Call A × Outcome A

abbrev events (s : TctiUefiContext A) (is : List (Call A)) : List (Event A) := (tcti A).trace s is

def Event.succeeds (e : Event A) : Prop := e.2.rc = some .success

def Event.sent : Event A → Option (List UInt8)
  | (.transmit _ n (some cmd), o) => if o.rc = some .success then some (cmd.bytes n.toNat) else none
  | _ => none

def Event.answered : Event A → Bool
  | (.receive _ _ (some _) _ _, o) => o.rc = some .success
  | _ => false

def Event.submits (e : Event A) (b : SubmitCall) : Prop := .submit b ∈ e.2.effects

def Event.finalizes : Event A → Bool
  | (.finalize .given, _) => true
  | _ => false

theorem Event.sent_of_not_succeeds {e : Event A} (h : ¬e.succeeds) : e.sent = none := by
  unfold Event.sent
  split
  · exact if_neg h
  · rfl

inductive StepSpec (s : TctiUefiContext A) : Call A → TctiUefiContext A × Outcome A → Prop
  | refused {i o} (hrc : o.rc ≠ some .success) (hsize : o.size = i.size) (hq : Quiet o.effects)
      (hfin : i = .finalize .given → ¬s.Valid) : StepSpec s i (s, o)
  | stored {n cmd} (h : TransmitAccepts s n) :
      StepSpec s (.transmit .given n (some cmd))
        (s.store cmd n.toNat, ⟨some .success, none, none,
          [.write ⟨offsetofCmdBuf A, n.toNat⟩, .write (memberSpan A .state)]⟩)
  | queried {n timeout fw} (h : ReceiveReady s timeout) :
      StepSpec s (.receive .given (some n) none timeout fw)
        (s, ⟨some .success, some s.size, none, []⟩)
  | answered {n buf timeout fw out} (h : ReceiveReady s timeout) :
      StepSpec s (.receive .given (some n) (some buf) timeout fw)
        ({ s with state := .transmit }, ⟨some .success, some n, some out,
          [.submit (s.submitCall n), .write (memberSpan A .state)]⟩)
  | unanswered {n buf timeout fw rc out tail} (h : ReceiveReady s timeout) (hrc : rc ≠ .success)
      (hq : Quiet tail) :
      StepSpec s (.receive .given (some n) (some buf) timeout fw)
        (s, ⟨some rc, some n, some out, .submit (s.submitCall n) :: tail⟩)
  | finalized (h : s.Valid) :
      StepSpec s (.finalize .given)
        ({ s with state := .final }, ⟨none, none, none, [.write (memberSpan A .state)]⟩)

theorem resolve_eq_some {s c : TctiUefiContext A} {p : ContextArg} (h : p.resolve s = some c) :
    p = .given ∧ s = c := by
  cases p with
  | null => simp [ContextArg.resolve] at h
  | given => exact ⟨rfl, by simpa [ContextArg.resolve] using h⟩

@[simp] theorem getD_resolve (s : TctiUefiContext A) (p : ContextArg) :
    (p.resolve s).getD s = s := by cases p <;> rfl

theorem transmit_spec (s : TctiUefiContext A) (p : ContextArg) (n : SizeT A)
    (command : Option Buffer) :
    StepSpec s (.transmit p n command) ((Call.transmit p n command).exec s) := by
  rcases tctiUefiTransmit_cases (p.resolve s) n command with
    ⟨c, cmd, hc, rfl, haccepts⟩ | ⟨hrc, hctx, hquiet⟩
  · obtain ⟨rfl, rfl⟩ := resolve_eq_some hc
    simp only [Call.exec, hc, tctiUefiTransmit_of_accepts haccepts, Option.getD_some]
    exact .stored haccepts
  · simp only [Call.exec, hctx, getD_resolve]
    exact .refused (by simpa using hrc) rfl hquiet (by simp)

theorem receive_spec (s : TctiUefiContext A) (p : ContextArg) (size : Option (SizeT A))
    (response : Option Buffer) (timeout : Int32) (fw : Firmware A) :
    StepSpec s (.receive p size response timeout fw)
      ((Call.receive p size response timeout fw).exec s) := by
  rcases tctiUefiReceive_cases (p.resolve s) size response timeout fw with
    ⟨c, n, hc, rfl, hready, rfl | ⟨buf, prot, rfl, hprot⟩⟩ | ⟨rc, hrc, heq⟩
  · obtain ⟨rfl, rfl⟩ := resolve_eq_some hc
    simp only [Call.exec, hc, tctiUefiReceive_query hready, Option.getD_some]
    exact .queried hready
  · obtain ⟨rfl, rfl⟩ := resolve_eq_some hc
    by_cases hs : (prot.submit (s.submitCall n) buf).1 = efiSuccess A
    · simp only [Call.exec, hc, tctiUefiReceive_answered hready hprot n buf hs, Option.getD_some]
      exact .answered hready
    · obtain ⟨rc, tail, hrc, hquiet, heq⟩ := tctiUefiReceive_unanswered hready hprot n buf hs
      simp only [Call.exec, hc, heq, Option.getD_some]
      exact .unanswered hready hrc hquiet
  · simp only [Call.exec, heq, getD_resolve]
    exact .refused (by simpa using hrc) rfl quiet_nil (by simp)

theorem finalize_spec (s : TctiUefiContext A) (p : ContextArg) :
    StepSpec s (.finalize p) ((Call.finalize p).exec s) := by
  by_cases h : p = .given ∧ s.Valid
  · obtain ⟨rfl, hvalid⟩ := h
    simp only [Call.exec, ContextArg.resolve, tctiUefiFinalize_of_valid hvalid, Option.getD_some]
    exact .finalized hvalid
  · have hcast : tctiUefiContextCast (p.resolve s) = none := by
      cases p with
      | null => rfl
      | given => exact tctiUefiContextCast_of_not_valid fun hvalid => h ⟨rfl, hvalid⟩
    obtain ⟨hval, hquiet⟩ := tctiUefiFinalize_of_cast_none hcast
    simp only [Call.exec, hval, getD_resolve]
    refine .refused (by simp) rfl hquiet ?_
    intro hp hvalid
    exact h ⟨by simpa using hp, hvalid⟩

theorem step_spec (s : TctiUefiContext A) (i : Call A) : StepSpec s i (i.exec s) := by
  cases i with
  | transmit p n command => exact transmit_spec s p n command
  | receive p size response timeout fw => exact receive_spec s p size response timeout fw
  | finalize p => exact finalize_spec s p

theorem StepSpec.submission {s : TctiUefiContext A} {b : SubmitCall} (h : StepSpec s i r)
    (hb : Event.submits (i, r.2) b) : ∃ n, i.size = some n ∧ b = s.submitCall n := by
  cases h with
  | refused _ _ hquiet _ => exact absurd hb (hquiet.not_submit b)
  | stored _ => simp [Event.submits] at hb
  | queried _ => simp [Event.submits] at hb
  | @answered n => exact ⟨n, rfl, by simpa [Event.submits] using hb⟩
  | @unanswered n _ _ _ _ _ _ _ _ hquiet =>
    cases List.mem_cons.mp hb with
    | inl heq => exact ⟨n, rfl, Effect.submit.inj heq⟩
    | inr hmem => exact absurd hmem (hquiet.not_submit b)
  | finalized _ => simp [Event.submits] at hb

theorem StepSpec.frame {s : TctiUefiContext A} (h : StepSpec s i r) :
    r.1.common = s.common ∧ r.1.size = s.size := by
  cases h <;> exact ⟨rfl, rfl⟩

theorem preserves_header (common : TctiContextCommon) (size : SizeT A) :
    (tcti A).Preserves fun s => s.common = common ∧ s.size = size := by
  rintro s i ⟨hcommon, hsize⟩
  obtain ⟨hcommon', hsize'⟩ := (step_spec s i).frame
  exact ⟨hcommon'.trans hcommon, hsize'.trans hsize⟩

theorem events_forall {P : Event A → Prop} (s : TctiUefiContext A)
    (h : ∀ t i r, StepSpec t i r → t.size = s.size → P (i, r.2)) (is : List (Call A)) :
    ∀ e ∈ events s is, P e := by
  refine (preserves_header s.common s.size).trace ?_ ⟨rfl, rfl⟩ is
  intro t i ht
  exact h t i _ (step_spec t i) ht.2

theorem final_header (s : TctiUefiContext A) (is : List (Call A)) :
    ((tcti A).final s is).common = s.common ∧ ((tcti A).final s is).size = s.size :=
  (preserves_header s.common s.size).final ⟨rfl, rfl⟩ is

def Effect.submission? : Effect → Option SubmitCall
  | .print _ => none
  | .write _ => none
  | .submit b => some b
  | .getEventLog _ => none

def submissions (tr : List (Event A)) : List SubmitCall :=
  tr.flatMap fun e => e.2.effects.filterMap Effect.submission?

theorem mem_submissions {tr : List (Event A)} {b : SubmitCall} :
    b ∈ submissions tr ↔ ∃ e : Event A, e ∈ tr ∧ e.submits b := by
  have heff (e : Effect) : e.submission? = some b ↔ e = .submit b := by
    cases e <;> simp [Effect.submission?]
  simp [submissions, Event.submits, heff]

theorem Quiet.submissions (h : Quiet log) : log.filterMap Effect.submission? = [] := by
  rw [List.filterMap_eq_nil_iff]
  intro e he
  cases e with
  | print p => rfl
  | write s => rfl
  | submit b => exact (h.not_submit b he).elim
  | getEventLog format => exact (h _ he).elim

def exchange (n : SizeT A) (cmd : Buffer) (m : SizeT A) (buf : Buffer) (fw : Firmware A) :
    List (Call A) :=
  [.transmit .given n (some cmd), .receive .given (some m) (some buf) tctiTimeoutBlock fw]

theorem exec_transmit {s : TctiUefiContext A} (h : TransmitAccepts s n) (cmd : Buffer) :
    (Call.transmit .given n (some cmd)).exec s =
      (s.store cmd n.toNat, ⟨some .success, none, none,
        [.write ⟨offsetofCmdBuf A, n.toNat⟩, .write (memberSpan A .state)]⟩) := by
  simp only [Call.exec, ContextArg.resolve, tctiUefiTransmit_of_accepts h, Option.getD_some]

theorem receive_submissions {s : TctiUefiContext A} {fw : Firmware A} (h : ReceiveReady s timeout)
    (hfw : efiError fw.locateProtocol.1 = false) (m : SizeT A) (buf : Buffer) :
    (tctiUefiReceive (some s) (some m) (some buf) timeout fw).log.filterMap Effect.submission? =
      [s.submitCall m] := by
  have hp : (tcg2GetProtocol fw).2 = some fw.locateProtocol.2 := by simp [tcg2GetProtocol, hfw]
  by_cases hs : (fw.locateProtocol.2.submit (s.submitCall m) buf).1 = efiSuccess A
  · rw [tctiUefiReceive_answered h hp m buf hs]
    rfl
  · obtain ⟨rc, tail, _, hquiet, heq⟩ := tctiUefiReceive_unanswered h hp m buf hs
    rw [heq]
    simp [Effect.submission?, hquiet.submissions]

theorem store_ready {s : TctiUefiContext A} (h : TransmitAccepts s n) (cmd : Buffer) (k : Nat) :
    ReceiveReady (s.store cmd k) tctiTimeoutBlock := ⟨h.valid, rfl, rfl⟩

theorem submissions_exchange {s : TctiUefiContext A} {fw : Firmware A} (h : TransmitAccepts s n)
    (cmd : Buffer) (m : SizeT A) (buf : Buffer) (hfw : efiError fw.locateProtocol.1 = false) :
    submissions (events s (exchange n cmd m buf fw)) = [(s.store cmd n.toNat).submitCall m] := by
  simp only [exchange, events, Machine.trace_cons, Machine.trace_nil, tcti_step, exec_transmit h,
    submissions, List.flatMap_cons, List.flatMap_nil, List.append_nil]
  exact receive_submissions (store_ready h cmd n.toNat) hfw m buf

end TctiUefi
