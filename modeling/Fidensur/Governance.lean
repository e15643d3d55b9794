import Fidensur.Authenticity

set_option autoImplicit false

/-! Who changes what the contract trusts: its owner, its TEE address and its extension. -/

namespace Fidensur

open NestedCalls ByteWords

structure Mandate where
  owner : Address
  pendingOwner : Address
  teeAddress : Address
  extensionId : ℕ
  deriving DecidableEq

def Storage.mandate (s : Storage) : Mandate := ⟨s.owner, s.pendingOwner, s.teeAddress, s.extensionId⟩

/-- The first public extension whose instructions the contract sends. -/
structure FirstExtension (D : Deployment) (view : RegistryView) (id : ℕ) : Prop where
  isPublic : firstPublicExtensionId ≤ id
  registered : id < view.nextPublicExtensionId
  sender : view.instructionsSender id = D.self
  first : ∀ j, firstPublicExtensionId ≤ j → j < id → view.instructionsSender j ≠ D.self

def Mandate.after (m : Mandate) (e : Entry) : Mandate :=
  match e.call, e.phase with
  | .transferOwnership newOwner, .started _ => { m with pendingOwner := newOwner }
  | .acceptOwnership, .started _ => { m with owner := e.msg.sender, pendingOwner := 0 }
  | .setTeeAddress tee, .started _ => { m with teeAddress := tee }
  | .setExtensionId, .started _ => { m with extensionId := e.post.extensionId }
  | _, _ => m

/-- The authority an effect needs, under the mandate of its moment. -/
def Mandate.Permits (D : Deployment) (m : Mandate) (e : Entry) : Prop :=
  match e.call, e.phase with
  | .transferOwnership newOwner, .started _ => e.msg.sender = m.owner ∧ newOwner ≠ 0
  | .acceptOwnership, .started _ => e.msg.sender = m.pendingOwner
  | .setTeeAddress tee, .started _ => e.msg.sender = m.owner ∧ tee ≠ 0
  | .rescue .., .started _ => e.msg.sender = m.owner
  | .setExtensionId, .started _ => m.extensionId = 0 ∧ FirstExtension D e.msg.registry e.post.extensionId
  | .requestCompute .., .started _ | .requestDisclosure .., .started _ | .requestAttestation .., .started _ =>
      m.extensionId ≠ 0
  | .finalizeRound resultData actionId submissionTag status signature, .started _ =>
      m.teeAddress ≠ 0 ∧ status = TeeResultVerifier.statusSuccess ∧
        TeeResultVerifier.recoverSigner D resultData actionId submissionTag status signature = .ok m.teeAddress
  | _, _ => True

def mandateAt (initialOwner : Address) : List Entry → Mandate
  | [] => ⟨initialOwner, 0, 0, 0⟩
  | e :: log => (mandateAt initialOwner log).after e

def Governed (D : Deployment) (initialOwner : Address) : List Entry → Prop
  | [] => True
  | e :: log => (mandateAt initialOwner log).Permits D e ∧ Governed D initialOwner log

variable {D : Deployment} {msg : Msg} {view : Address → ℕ} {s s' : Storage} {call : Call}
  {x : Option Interaction} {initialOwner : Address} {log : List Entry}

section Calls

theorem findExtension_some {registry : RegistryView} {n i id : ℕ} (h : findExtension D registry n i = some id) :
    i ≤ id ∧ id < i + n ∧ registry.instructionsSender id = D.self ∧
      ∀ j, i ≤ j → j < id → registry.instructionsSender j ≠ D.self := by
  induction n generalizing i with
  | zero => cases h
  | succ n ih =>
    unfold findExtension at h
    split at h
    · next hself =>
      cases h
      exact ⟨le_rfl, by omega, hself, fun j hle hlt => absurd hlt (not_lt.mpr hle)⟩
    · next hother =>
      obtain ⟨hle, hlt, hself, hfirst⟩ := ih h
      refine ⟨by omega, by omega, hself, fun j hij hj => ?_⟩
      rcases Nat.eq_or_lt_of_le hij with rfl | hij
      · exact hother
      · exact hfirst j hij hj

theorem setExtensionId_governed (h : setExtensionId D msg s = .ok (s', x)) :
    s.extensionId = 0 ∧ FirstExtension D msg.registry s'.extensionId ∧
      s' = { s with extensionId := s'.extensionId } := by
  simp only [setExtensionId, bind_ok, require_ok, exists_const] at h
  obtain ⟨hzero, h⟩ := h
  split at h
  · next id hid =>
    cases h
    obtain ⟨hle, hlt, hself, hfirst⟩ := findExtension_some hid
    have hlt' : id < msg.registry.nextPublicExtensionId := by omega
    exact ⟨hzero, ⟨hle, hlt', hself, hfirst⟩, rfl⟩
  · cases h

theorem Started.mandate (h : Started D msg view s call s' x) (hc : call.configures = false) :
    s'.mandate = s.mandate := by
  cases h with
  | configure _ _ _ _ _ hconf =>
    rw [hc] at hconf
    cases hconf
  | _ => rfl

theorem Finished.mandate {y : Interaction} {reply : Reply} (h : Finished msg s y reply call s') :
    s'.mandate = s.mandate := by
  cases h <;> rfl

theorem Mandate.after_of_call (m : Mandate) {e : Entry} (h : e.call.configures = false) : m.after e = m := by
  obtain ⟨msg, call, phase, post⟩ := e
  cases call <;> first | rfl | cases h

theorem mandate_unstarted (m : Mandate) {e : Entry} (h : ∀ x, e.phase ≠ .started x) :
    m.after e = m ∧ m.Permits D e := by
  obtain ⟨msg, call, phase, post⟩ := e
  cases phase with
  | started x => exact absurd rfl (h x)
  | settled => cases call <;> exact ⟨rfl, trivial⟩
  | finished => cases call <;> exact ⟨rfl, trivial⟩

theorem start_governed (h : start D msg view s call = .ok (s', x)) :
    s'.mandate = s.mandate.after ⟨msg, call, .started x, s'⟩ ∧
      s.mandate.Permits D ⟨msg, call, .started x, s'⟩ := by
  have hstarted := Started.of_start h
  have hkeeps (hc : call.configures = false) : s'.mandate = s.mandate.after ⟨msg, call, .started x, s'⟩ := by
    rw [Mandate.after_of_call _ hc, hstarted.mandate hc]
  obtain ⟨_, -, h⟩ := bind_ok.mp h
  cases call with
  | transferOwnership newOwner =>
    simp only [dispatch, transferOwnership, onlyOwner, bind_ok, require_ok, exists_const, pure, Except.pure,
      Except.ok.injEq, Prod.mk.injEq] at h
    obtain ⟨howner, hne, rfl, rfl⟩ := h
    exact ⟨rfl, howner, hne⟩
  | acceptOwnership =>
    simp only [dispatch, acceptOwnership, bind_ok, require_ok, exists_const, pure, Except.pure,
      Except.ok.injEq, Prod.mk.injEq] at h
    obtain ⟨hpending, rfl, rfl⟩ := h
    refine ⟨?_, hpending⟩
    simp only [Storage.mandate, Mandate.after, hpending]
  | setExtensionId =>
    have hset : setExtensionId D msg s = .ok (s', x) := h
    obtain ⟨hzero, hfirst, hsame⟩ := setExtensionId_governed hset
    refine ⟨?_, hzero, hfirst⟩
    exact congrArg Storage.mandate hsame
  | setTeeAddress tee =>
    simp only [dispatch, setTeeAddress, onlyOwner, bind_ok, require_ok, exists_const, pure, Except.pure,
      Except.ok.injEq, Prod.mk.injEq] at h
    obtain ⟨howner, hne, rfl, rfl⟩ := h
    exact ⟨rfl, howner, hne⟩
  | rescue token recipient =>
    simp only [dispatch, rescue, onlyOwner, bind_ok, require_ok, exists_const] at h
    exact ⟨hkeeps rfl, h.1⟩
  | requestCompute roundId ciphertext =>
    simp only [dispatch, requestCompute, bind_ok, require_ok, pickTee_ok, exists_const] at h
    obtain ⟨_, -, -, -, _, -, -, _, ⟨hset, -⟩, -⟩ := h
    exact ⟨hkeeps rfl, hset⟩
  | requestDisclosure roundId disclosureKey =>
    simp only [dispatch, requestDisclosure, bind_ok, require_ok, pickTee_ok, exists_const] at h
    obtain ⟨_, -, -, -, _, ⟨hset, -⟩, -⟩ := h
    exact ⟨hkeeps rfl, hset⟩
  | requestAttestation roundId =>
    simp only [dispatch, requestAttestation, bind_ok, require_ok, pickTee_ok, exists_const] at h
    obtain ⟨_, -, -, _, ⟨hset, -⟩, -⟩ := h
    exact ⟨hkeeps rfl, hset⟩
  | finalizeRound resultData actionId submissionTag status signature =>
    refine ⟨hkeeps rfl, ?_⟩
    cases hstarted with
    | configure _ _ _ _ _ hconf => cases hconf
    | finalizeRound _ _ _ _ res ht hsig => exact ⟨ht, rfl, hsig⟩
  | _ => exact ⟨hkeeps rfl, trivial⟩

end Calls

section Custody

variable {m : Mandate} {e : Entry} {a : Address}

/-- The owners there have been: the first, and whoever accepted a nomination by one of them. -/
inductive Custodian (initialOwner : Address) (log : List Entry) : Address → Prop
  | first : Custodian initialOwner log initialOwner
  | accepted {e e' : Entry} (he : e ∈ log) (he' : e' ∈ log) (hby : Custodian initialOwner log e.msg.sender)
      (hnominated : e.call = .transferOwnership e'.msg.sender) (haccepted : e'.call = .acceptOwnership) :
      Custodian initialOwner log e'.msg.sender

theorem Custodian.cons (h : Custodian initialOwner log a) (e : Entry) : Custodian initialOwner (e :: log) a := by
  induction h with
  | first => exact .first
  | accepted he he' _ hnominated haccepted ih =>
    exact .accepted (List.mem_cons_of_mem _ he) (List.mem_cons_of_mem _ he') ih hnominated haccepted

def Appointed (initialOwner : Address) (log : List Entry) (tee : Address) : Prop :=
  ∃ e ∈ log, e.call = .setTeeAddress tee ∧ Custodian initialOwner log e.msg.sender

theorem Appointed.cons {tee : Address} (h : Appointed initialOwner log tee) (e : Entry) :
    Appointed initialOwner (e :: log) tee := by
  obtain ⟨g, hg, hcall, hby⟩ := h
  exact ⟨g, List.mem_cons_of_mem _ hg, hcall, hby.cons e⟩

def Call.ownerOnly : Call → Bool
  | .transferOwnership .. | .setTeeAddress .. | .rescue .. => true
  | _ => false

/-- What an entry owes to the owners of its time. -/
structure Entry.Answers (D : Deployment) (initialOwner : Address) (log : List Entry) (e : Entry) : Prop where
  privileged : ∀ x, e.phase = .started x → e.call.ownerOnly = true → Custodian initialOwner log e.msg.sender
  signed : ∀ x resultData actionId submissionTag status signature, e.phase = .started x →
    e.call = .finalizeRound resultData actionId submissionTag status signature →
    ∃ tee, TeeResultVerifier.SignedBy D
        (TeeResultVerifier.digest D resultData actionId submissionTag status) signature tee ∧
      Appointed initialOwner log tee

theorem Entry.Answers.cons (h : e.Answers D initialOwner log) (e' : Entry) :
    e.Answers D initialOwner (e' :: log) where
  privileged x hx hc := (h.privileged x hx hc).cons e'
  signed x resultData actionId submissionTag status signature hx hc := by
    obtain ⟨tee, hsig, happointed⟩ := h.signed x resultData actionId submissionTag status signature hx hc
    exact ⟨tee, hsig, happointed.cons e'⟩

structure Accountable (D : Deployment) (initialOwner : Address) (log : List Entry) (m : Mandate) : Prop where
  owner : Custodian initialOwner log m.owner
  pendingOwner : m.pendingOwner ≠ 0 →
    ∃ e ∈ log, e.call = .transferOwnership m.pendingOwner ∧ Custodian initialOwner log e.msg.sender
  teeAddress : m.teeAddress ≠ 0 → Appointed initialOwner log m.teeAddress
  answers : ∀ e ∈ log, e.Answers D initialOwner log

theorem Accountable.answer (h : Accountable D initialOwner log m) (hp : m.Permits D e) :
    e.Answers D initialOwner (e :: log) := by
  obtain ⟨msg, call, phase, post⟩ := e
  constructor
  · rintro x rfl hc
    have hsender : msg.sender = m.owner := by
      cases call with
      | transferOwnership newOwner => exact hp.1
      | setTeeAddress tee => exact hp.1
      | rescue token recipient => exact hp
      | _ => cases hc
    change Custodian initialOwner _ msg.sender
    rw [hsender]
    exact h.owner.cons _
  · rintro x resultData actionId submissionTag status signature rfl rfl
    obtain ⟨hset, -, hsig⟩ := hp
    exact ⟨m.teeAddress, ((TeeResultVerifier.recoverSigner_ok D).mp hsig).1, (h.teeAddress hset).cons _⟩

theorem Accountable.cons (h : Accountable D initialOwner log m) (hp : m.Permits D e) (hs : e.msg.sender ≠ 0) :
    Accountable D initialOwner (e :: log) (m.after e) := by
  have hanswers : ∀ e' ∈ e :: log, e'.Answers D initialOwner (e :: log) :=
    List.forall_mem_cons.mpr ⟨h.answer hp, fun e' he' => (h.answers e' he').cons e⟩
  have hpending (hne : m.pendingOwner ≠ 0) : ∃ e' ∈ e :: log, e'.call = .transferOwnership m.pendingOwner ∧
      Custodian initialOwner (e :: log) e'.msg.sender := by
    obtain ⟨g, hg, hcall, hby⟩ := h.pendingOwner hne
    exact ⟨g, List.mem_cons_of_mem _ hg, hcall, hby.cons e⟩
  have htee (hne : m.teeAddress ≠ 0) : Appointed initialOwner (e :: log) m.teeAddress :=
    (h.teeAddress hne).cons e
  have hsame (hafter : m.after e = m) : Accountable D initialOwner (e :: log) (m.after e) := by
    rw [hafter]
    exact ⟨h.owner.cons e, hpending, htee, hanswers⟩
  obtain ⟨msg, call, phase, post⟩ := e
  cases phase with
  | settled x => exact hsame (mandate_unstarted (D := D) m (fun _ h => Phase.noConfusion h)).1
  | finished reply => exact hsame (mandate_unstarted (D := D) m (fun _ h => Phase.noConfusion h)).1
  | started x =>
    cases call with
    | transferOwnership newOwner =>
      have hby : Custodian initialOwner log msg.sender := hp.1 ▸ h.owner
      exact ⟨h.owner.cons _, fun _ => ⟨_, List.mem_cons_self, rfl, hby.cons _⟩, htee, hanswers⟩
    | acceptOwnership =>
      have hsender : msg.sender = m.pendingOwner := hp
      obtain ⟨g, hg, hcall, hby⟩ := hpending (hsender ▸ hs)
      refine ⟨?_, fun hne => absurd rfl hne, htee, hanswers⟩
      exact .accepted hg List.mem_cons_self hby (hsender ▸ hcall) rfl
    | setTeeAddress tee =>
      have hby : Custodian initialOwner log msg.sender := hp.1 ▸ h.owner
      exact ⟨h.owner.cons _, hpending, fun _ => ⟨_, List.mem_cons_self, rfl, hby.cons _⟩, hanswers⟩
    | setExtensionId => exact ⟨h.owner.cons _, hpending, htee, hanswers⟩
    | _ => exact hsame rfl

theorem Governed.accountable (hg : Governed D initialOwner log) (hs : ∀ e ∈ log, e.msg.sender ≠ 0) :
    Accountable D initialOwner log (mandateAt initialOwner log) := by
  induction log with
  | nil => exact ⟨.first, fun hne => absurd rfl hne, fun hne => absurd rfl hne, List.forall_mem_nil _⟩
  | cons e log ih =>
    obtain ⟨hsender, hs⟩ := List.forall_mem_cons.mp hs
    exact (ih hg.2 hs).cons hg.1 hsender

end Custody

section Runs

variable {c d : ContractConfig} {act : Act} {balance : Address → ℕ} {now : ℕ}

/-- The zero address sends nothing. -/
def SendersReal (_ : ContractConfig) (act : Act) : Prop :=
  ∀ msg call, act = .call msg call → msg.sender ≠ 0

def MandateRecorded (D : Deployment) (initialOwner : Address) (c : ContractConfig) : Prop :=
  mandateAt initialOwner c.world.log = c.world.storage.mandate ∧ Governed D initialOwner c.world.log

theorem MandateRecorded.record {w w' : World} {fs fs' : List (Frame World PendingCall)} {e : Entry}
    (h : MandateRecorded D initialOwner ⟨w, fs⟩) (hlog : w'.log = e :: w.log)
    (hafter : w'.storage.mandate = w.storage.mandate.after e) (hp : w.storage.mandate.Permits D e) :
    MandateRecorded D initialOwner ⟨w', fs'⟩ := by
  obtain ⟨hm, hg⟩ := h
  simp only at hm hg
  unfold MandateRecorded
  rw [hlog, hafter, mandateAt, hm]
  exact ⟨rfl, hm ▸ hp, hg⟩

theorem machine_call {w : World} {fs : List (Frame World PendingCall)} {e : Effect World PendingCall}
    (he : machine D (.call msg call) ⟨w, fs⟩ = some e) (hd : e.apply ⟨w, fs⟩ = some d) :
    ∃ s x b, start D msg (msg.received w.balance) w.storage call = .ok (s, x) ∧
      d.world = w.record msg call (.started x) s b := by
  simp only [machine] at he
  split_ifs at he
  cases hs : start D msg (msg.received w.balance) w.storage call with
  | error err =>
    rw [hs] at he
    cases he
  | ok out =>
    obtain ⟨s, x⟩ := out
    rw [hs] at he
    cases x with
    | none =>
      cases he
      cases hd
      exact ⟨s, none, _, rfl, rfl⟩
    | some x =>
      simp only at he
      split at he
      · cases he
      · cases he
        cases hd
        exact ⟨s, some x, _, rfl, rfl⟩

theorem MandateRecorded.called {e : Effect World PendingCall} (h : MandateRecorded D initialOwner c)
    (he : machine D (.call msg call) c = some e) (hd : e.apply c = some d) :
    MandateRecorded D initialOwner d := by
  obtain ⟨s, x, b, hstart, hworld⟩ := machine_call he hd
  obtain ⟨hafter, hp⟩ := start_governed hstart
  obtain ⟨w', fs'⟩ := d
  simp only at hworld
  subst hworld
  exact h.record rfl hafter hp

theorem MandateRecorded.step {e : Effect World PendingCall} (h : MandateRecorded D initialOwner c)
    (he : machine D act c = some e) (hne : e ≠ .abort) (hd : e.apply c = some d) :
    MandateRecorded D initialOwner d := by
  obtain ⟨w, fs⟩ := c
  cases act with
  | call msg call => exact h.called he hd
  | settle =>
    cases Stepped.of_machine he hne hd with
    | settled p =>
      have hun (m : Mandate) := mandate_unstarted (D := D) m
        (e := ⟨p.msg, p.call, .settled p.interaction, w.storage⟩) fun _ h => Phase.noConfusion h
      exact h.record rfl (hun _).1.symm (hun _).2
  | reply reply =>
    cases Stepped.of_machine he hne hd with
    | @replied _ saved fs p _ s ha hf =>
      have hun (m : Mandate) := mandate_unstarted (D := D) m
        (e := ⟨p.msg, p.call, .finished reply, s⟩) fun _ h => Phase.noConfusion h
      exact h.record rfl (hf.mandate.trans (hun _).1.symm) (hun _).2
  | credit token amount =>
    cases Stepped.of_machine he hne hd
    exact h
  | drift token amount =>
    cases Stepped.of_machine he hne hd
    exact h
  | tick seconds =>
    cases Stepped.of_machine he hne hd
    exact h

/-- Whoever calls what, at any depth: the owner, the nomination, the TEE address and the extension are
what the permitted calls made of them; every privileged call came from an owner in a chain of
accepted nominations from the first one, and every accepted result was signed by an address that
such an owner appointed. -/
theorem trust_chain (D : Deployment) (initialOwner : Address) (balance : Address → ℕ) (now : ℕ)
    (c : ContractConfig) (h : Reachable D initialOwner balance now SendersReal c) :
    mandateAt initialOwner c.world.log = c.world.storage.mandate ∧ Governed D initialOwner c.world.log ∧
      Accountable D initialOwner c.world.log c.world.storage.mandate := by
  have hdeployed : MandateRecorded D initialOwner (deployed initialOwner balance now) := ⟨rfl, trivial⟩
  have hrecorded : MandateRecorded D initialOwner c := by
    refine Reaches.invariant (P := MandateRecorded D initialOwner) rfl hdeployed ?_ h
    intro c act e d _ hp _ he hne hd
    exact hp.step he hne hd
  obtain ⟨hmandate, hgoverned⟩ := hrecorded
  have hsenders : ∀ e ∈ c.world.log, e.msg.sender ≠ 0 := by
    refine (Reachable.calls (Q := fun msg _ => msg.sender ≠ 0) ?_ h).1
    exact fun c act ha => ha
  exact ⟨hmandate, hgoverned, hmandate ▸ hgoverned.accountable hsenders⟩

/-- The first owner hands the contract over; the second replaces the TEE of a round that it
finalized. -/
def handoverRun : List Act :=
  sampleRun 2 100 2 1 ++ [.call (sampleMsg 1 0) (.transferOwnership 4),
    .call (sampleMsg 4 0) .acceptOwnership, .call (sampleMsg 4 0) (.setTeeAddress 8)]

def fromSomeone (_ : ContractConfig) : Act → Bool
  | .call msg _ => decide (msg.sender ≠ 0)
  | _ => true

theorem fromSomeone_ok (h : fromSomeone c act = true) : SendersReal c act := by
  rintro msg call rfl
  exact of_decide_eq_true h

theorem trust_chain_sample : ∃ c, (machine sampleDeployment).run handoverRun sampleStart = some c ∧
    c.world.storage.mandate = ⟨4, 0, 8, 65536⟩ ∧
    Accountable sampleDeployment 1 c.world.log ⟨4, 0, 8, 65536⟩ := by
  have hrun : ((machine sampleDeployment).run handoverRun sampleStart).map (fun c => c.world.storage.mandate) =
      some ⟨4, 0, 8, 65536⟩ := by
    decide +kernel
  have hsteps : StepsMeet (machine sampleDeployment) handoverRun sampleStart SendersReal :=
    .of_meets (fun _ _ => fromSomeone_ok) (by decide +kernel)
  obtain ⟨c, hc, hmandate⟩ := Option.map_eq_some_iff.mp hrun
  obtain ⟨-, -, haccountable⟩ := trust_chain sampleDeployment 1 (fun _ => 0) 0 c
    (hsteps.reaches _ List.prefix_rfl c hc)
  exact ⟨c, hc, hmandate, hmandate ▸ haccountable⟩

end Runs

end Fidensur
