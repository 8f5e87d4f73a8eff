import TctiUefi.Lib.Family
import TctiUefi.Tcti.Header
import TctiUefi.Tcti.Pairing

namespace TctiUefi

open Exchange Sharing

inductive Request (A : Arch)
  | transmit (context : ContextArg) (size : SizeT A) (command : Option Buffer)
  | receive (context : ContextArg) (size : Option (SizeT A)) (response : Option Buffer)
      (timeout : Int32)
  | finalize (context : ContextArg)

def Request.call (fw : Firmware A) : Request A → Call A
  | .transmit context size command => .transmit context size command
  | .receive context size response timeout => .receive context size response timeout fw
  | .finalize context => .finalize context

/-- The one TPM of a machine, with the firmware in front of it.  Only a submission changes it. -/
structure Device (A : Arch) (τ : Type) where
  firmware : τ → Firmware A
  after : τ → SubmitCall → τ

def Device.sharing (dev : Device A τ) :
    Sharing (TctiUefiContext A) (Call A) (Outcome A) (Request A) τ where
  machine := tcti A
  meet t r := r.call (dev.firmware t)
  advance t e := (submissions [e]).foldl dev.after t

def Device.contexts (dev : Device A τ) (κ : Type) [DecidableEq κ] :=
  dev.sharing.family κ

def Event.attempts (e : Event A) : List (SubmitCall × Bool) :=
  (submissions [e]).map fun b => (b, e.answered)

/-- The commands sent on a context are submitted in their order: each of them in vain as often as
its receive fails, and then once with an answer, which only the one sent last may still lack. -/
def InOrder (tr : List (Event A)) : Prop :=
  ∃ asked fates, Fates (tr.filterMap Event.sent) asked fates ∧
    List.Forall₂ (fun x y => SubmitCall.Carries x.1 y.1 ∧ x.2 = y.2)
      (tr.flatMap Event.attempts) asked

def Event.AnsweredBy (e : Event A) (fw : Firmware A) : Prop :=
  ∃ n buf timeout b, e.1 = .receive .given (some n) (some buf) timeout fw ∧
    submissions [e] = [b] ∧ (fw.locateProtocol.2.submit b buf).1 = efiSuccess A ∧
    e.2.response = some (fw.locateProtocol.2.submit b buf).2

section Answers

variable {A : Arch}

theorem eq_of_tcg2GetProtocol {fw : Firmware A} {p : Tcg2Protocol A}
    (h : (tcg2GetProtocol fw).2 = some p) : p = fw.locateProtocol.2 := by
  unfold tcg2GetProtocol at h
  split at h
  · cases h
  · exact (Option.some.inj h).symm

theorem answeredBy_of_answered {s : TctiUefiContext A} {context : ContextArg}
    {size : Option (SizeT A)} {response : Option Buffer} {timeout : Int32} {fw : Firmware A}
    (h : Event.answered (.receive context size response timeout fw,
      ((Call.receive context size response timeout fw).exec s).2) = true) :
    Event.AnsweredBy (.receive context size response timeout fw,
      ((Call.receive context size response timeout fw).exec s).2) fw := by
  rcases tctiUefiReceive_cases (context.resolve s) size response timeout fw with
    ⟨c, n, hc, rfl, hready, rfl | ⟨buf, p, rfl, hp⟩⟩ | ⟨rc, hrc, heq⟩
  · cases h
  · obtain ⟨rfl, rfl⟩ := resolve_eq_some hc
    obtain rfl := eq_of_tcg2GetProtocol hp
    by_cases hs : (fw.locateProtocol.2.submit (s.submitCall n) buf).1 = efiSuccess A
    · refine ⟨n, buf, timeout, s.submitCall n, rfl, ?_, hs, ?_⟩
      · simp only [Call.exec, hc, tctiUefiReceive_answered hready hp n buf hs]
        rfl
      · simp only [Call.exec, hc, tctiUefiReceive_answered hready hp n buf hs]
    · obtain ⟨rc, tail, hrc, _, heq⟩ := tctiUefiReceive_unanswered hready hp n buf hs
      simp only [Event.answered, Call.exec, hc, heq] at h
      exact absurd (Option.some.inj (of_decide_eq_true h)) hrc
  · cases response with
    | none => cases h
    | some buf =>
      simp only [Event.answered, Call.exec, heq] at h
      exact absurd (Option.some.inj (of_decide_eq_true h)) hrc

end Answers

section Delivery

variable {A : Arch}

theorem submissions_eq_nil {e : Event A} (h : ∀ b, ¬e.submits b) : submissions [e] = [] := by
  rw [List.eq_nil_iff_forall_not_mem]
  intro b hb
  obtain ⟨e', he', hsubmits⟩ := mem_submissions.mp hb
  rw [List.mem_singleton.mp he'] at hsubmits
  exact h b hsubmits

theorem Observed.attempts {e : Event A} {a : Act (List UInt8)} (h : Observed e a) :
    List.Forall₂ (fun x y => SubmitCall.Carries x.1 y.1 ∧ x.2 = y.2) e.attempts
      a.asked?.toList := by
  have hquiet (hnone : ∀ b, ¬e.submits b) (ha : a.asked? = none) :
      List.Forall₂ (fun x y => SubmitCall.Carries x.1 y.1 ∧ x.2 = y.2) e.attempts
        a.asked?.toList := by
    rw [Event.attempts, submissions_eq_nil hnone, ha]
    exact .nil
  cases a with
  | send cmd => exact hquiet h.2.2 rfl
  | ask cmd answered =>
    obtain ⟨_, hanswered, _, b, hb, hcarries⟩ := h
    rw [Event.attempts, hb]
    exact .cons ⟨hcarries, hanswered⟩ .nil
  | peek => exact hquiet h.2.2.2 rfl
  | close => exact hquiet h.2.2.2 rfl
  | silent => exact hquiet h.2.2.2.2 rfl

theorem Observed.sent_eq {e : Event A} {a : Act (List UInt8)} (h : Observed e a) :
    e.sent = a.sent? := by
  cases a with
  | send cmd => exact h.1
  | ask cmd answered => exact h.1
  | peek => exact h.1
  | close => exact h.1
  | silent => exact h.1

theorem attempts_of_observed {tr : List (Event A)} {as : List (Act (List UInt8))}
    (hobs : List.Forall₂ Observed tr as) :
    List.Forall₂ (fun x y => SubmitCall.Carries x.1 y.1 ∧ x.2 = y.2)
      (tr.flatMap Event.attempts) (as.filterMap Act.asked?) := by
  induction hobs with
  | nil => exact .nil
  | @cons e a tr as h _ ih =>
    have hsplit : (a :: as).filterMap Act.asked? = a.asked?.toList ++ as.filterMap Act.asked? := by
      rw [List.filterMap_cons]
      cases a.asked? <;> rfl
    rw [List.flatMap_cons, hsplit]
    exact List.rel_append h.attempts ih

open Machine in
theorem inOrder_of_path {tr : List (Event A)} {as : List (Act (List UInt8))}
    {q : Phase (List UInt8)} (hobs : List.Forall₂ Observed tr as)
    (hpath : Path Exchange.Step .idle as q) : InOrder tr := by
  obtain ⟨fates, hfates⟩ := Path.exists_fates hpath
  refine ⟨as.filterMap Act.asked?, fates, ?_, attempts_of_observed hobs⟩
  rw [filterMap_eq_of_forall₂ (fun _ _ h => Observed.sent_eq h) hobs]
  exact hfates

end Delivery

/-- Each answered receive of a run got what the device answers after all submissions before it,
whichever context they came from. -/
structure Serialized {κ : Type} (dev : Device A τ) (t : τ)
    (tr : List ((κ × Request A) × Event A)) : Prop where
  answers : ∀ pre e post, tr = pre ++ e :: post → e.2.answered = true →
    e.2.AnsweredBy (dev.firmware ((submissions (pre.map Prod.snd)).foldl dev.after t))

section Shared

variable {A : Arch} {τ κ : Type} [DecidableEq κ] {dev : Device A τ}
  {s : (κ → TctiUefiContext A) × τ}

omit [DecidableEq κ] in
theorem environment_eq (dev : Device A τ) (t : τ) (tr : List ((κ × Request A) × Event A)) :
    dev.sharing.environment t tr = (submissions (tr.map Prod.snd)).foldl dev.after t := by
  induction tr generalizing t with
  | nil => rfl
  | cons e tr ih =>
    have hsplit : submissions ((e :: tr).map Prod.snd) =
        submissions [e.2] ++ submissions (tr.map Prod.snd) := by simp [submissions]
    rw [environment_cons, ih, hsplit, List.foldl_append]
    rfl

theorem serialized (dev : Device A τ) (s : (κ → TctiUefiContext A) × τ)
    (js : List (κ × Request A)) : Serialized dev s.2 ((dev.contexts κ).trace s js) where
  answers := by
    intro pre e post htr hans
    have hmeets := dev.sharing.meets_environment htr
    rw [environment_eq] at hmeets
    have htrue : (dev.contexts κ).Preserves fun _ => True := fun _ _ _ => trivial
    have hmem : e ∈ (dev.contexts κ).trace s js := by
      rw [htr]
      exact List.mem_append_right _ (List.mem_cons_self ..)
    obtain ⟨c, hc⟩ := htrue.trace (Q := fun e => ∃ c, e.2.2 = (e.2.1.exec c).2)
      (fun s j _ => ⟨s.1 j.1, rfl⟩) trivial js e hmem
    obtain ⟨⟨k, r⟩, i, o⟩ := e
    dsimp only at hmeets hc hans ⊢
    subst hc
    cases r with
    | transmit context size command =>
      subst hmeets
      cases hans
    | finalize context =>
      subst hmeets
      cases hans
    | receive context size response timeout =>
      subst hmeets
      exact answeredBy_of_answered hans

end Shared

def countingDevice (A : Arch) : Device A Nat where
  firmware n := ⟨efiSuccess A, { acceptingProtocol A 4096 4096 with
    submitCommand := fun _ _ _ out => (efiSuccess A, out.write [UInt8.ofNat n]) }⟩
  after n _ := n + 1

def openedContext : TctiUefiContext .x86_64 :=
  (filledBlock .x86_64 0).opened (sizeofTctiUefiContext (acceptingFirmware .x86_64 4096 4096)).val

def crossedRequests : List (Bool × Request .x86_64) :=
  [(false, .transmit .given 12 (some fun _ => 7)), (true, .transmit .given 14 (some fun _ => 8)),
    (true, .receive .given (some 4096) (some fun _ => 0) tctiTimeoutBlock),
    (false, .receive .given (some 4096) (some fun _ => 0) tctiTimeoutBlock)]

end TctiUefi
