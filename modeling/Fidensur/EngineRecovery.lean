import Fidensur.EngineStore
import Fidensur.RelyGuarantee

set_option autoImplicit false

/-! What `GET /state` counts, and what a restarted engine answers after its rounds are recomputed. -/

namespace Fidensur

open CriticalSections ByteWords

section Definitions

structure State where
  engineVersion : String
  roundsComputed : ℕ
  computeRequests : ℕ
  discloseRequests : ℕ
  attestRequests : ℕ
  failedRequests : ℕ
  lastComputedAt : ℤ
  contractAddress : String

structure StateResponse where
  stateVersion : Bytes32
  state : State

variable (E : Enclave)

@[irreducible] def Engine.stored (engine : Engine) : Finset Bytes32 :=
  Finset.univ.filter fun c => (engine.rounds c).isSome

def stateHandler (engine : Engine) : StateResponse where
  stateVersion := E.cfg.engineVersion
  state :=
    { engineVersion := engineVersionText
      roundsComputed := engine.stored.card
      computeRequests := engine.stats.computeRequests
      discloseRequests := engine.stats.discloseRequests
      attestRequests := engine.stats.attestRequests
      failedRequests := engine.stats.failedRequests
      lastComputedAt := engine.stats.lastComputedAt
      contractAddress := E.addressHex E.cfg.contractAddress }

theorem stateHandler_roundsComputed (engine : Engine) :
    (stateHandler E engine).state.roundsComputed = engine.stored.card := rfl

def ComputedRound.rowFor (round : ComputedRound) (requester : Address) : Except String Disclosure :=
  match round.byRecipient requester with
  | none => .error "requester has no allocation in this round"
  | some idx => .ok (round.disclosure E idx (round.allocations.getD idx ⟨0, 0, 0⟩))

def disclosureFor (engine : Engine) (req : DiscloseRequest) : Except String Disclosure := do
  let round ← lookupRound engine req.roundId req.policyCommitment
  round.rowFor E req.requester

/-- What `processDisclose` does with the disclosure: the answer depends on the engine through it alone. -/
def sealDisclosure (req : DiscloseRequest) (draw : ℕ) (d : Disclosure) : Except String Bytes := do
  let ciphertext ← (encryptToRecipient E draw req.disclosureKey (E.marshal d)).mapError
    ("encrypting disclosure: " ++ ·)
  return encodeDisclosureResult req.requester req.roundId ciphertext

def Disclosure.undated (d : Disclosure) : Disclosure := { d with computedAt := 0 }

inductive RequestKind
  | compute | disclose | attest
  deriving DecidableEq

def Request.kind : Request → RequestKind
  | .compute .. => .compute
  | .disclose .. => .disclose
  | .attest .. => .attest

def committed (t : Request × ActionResult) : Option Bytes32 :=
  match t.1 with
  | .compute _ df _ => if t.2.status = statusSuccess then some (E.keccak df.originalMessage) else none
  | _ => none

def failed (t : Request × ActionResult) : Bool := t.2.status == statusError

end Definitions

section Counters

variable {E : Enclave} {S : Set Bytes} {p : Pool Engine Request ActionResult}

variable {c : Stats → ℕ} {a : RequestKind → ℕ} {e : ℕ}

/-- A counter that every request moves by what its kind is worth, and every failure by `e`. -/
structure Counts (c : Stats → ℕ) (a : RequestKind → ℕ) (e : ℕ) : Prop where
  compute (s : Stats) : c { s with computeRequests := s.computeRequests + 1 } = c s + a .compute
  disclose (s : Stats) : c { s with discloseRequests := s.discloseRequests + 1 } = c s + a .disclose
  attest (s : Stats) : c { s with attestRequests := s.attestRequests + 1 } = c s + a .attest
  fail (s : Stats) : c { s with failedRequests := s.failedRequests + 1 } = c s + e
  last (s : Stats) (t : ℤ) : c { s with lastComputedAt := t } = c s

def weight (a : RequestKind → ℕ) (e : ℕ) (q : Request) (r : ActionResult) : ℕ :=
  a q.kind + if failed (q, r) then e else 0

theorem weight_error (q : Request) (action : Action) (df : DataFixed) (err : String) :
    weight a e q (buildResult action df [] statusError err) = a q.kind + e := by
  simp [weight, failed]

theorem weight_success (q : Request) (action : Action) (df : DataFixed) (data : Bytes) :
    weight a e q (buildResult action df data statusSuccess "") = a q.kind := by
  simp [weight, failed, statusError, statusSuccess]

theorem failHandler_adds (h : Counts c a e) (q : Request) (action : Action) (df : DataFixed) (err : String) :
    Adds (fun engine : Engine => c engine.stats) (weight a e q) (0 + a q.kind) (failHandler action df err) := by
  apply Adds.locked e
  · exact fun engine => h.fail engine.stats
  · intro _
    apply Adds.done
    rw [weight_error, Nat.zero_add]

theorem done_adds (q : Request) (action : Action) (df : DataFixed) (data : Bytes) :
    Adds (fun engine : Engine => c engine.stats) (weight a e q) (0 + a q.kind + 0)
      (.done (buildResult action df data statusSuccess "")) := by
  apply Adds.done
  rw [weight_success, Nat.zero_add, Nat.add_zero]

theorem handler_adds (h : Counts c a e) (q : Request) :
    Adds (fun engine : Engine => c engine.stats) (weight a e q) 0 (handler E q) := by
  cases q with
  | compute action df now =>
    apply Adds.locked (a .compute)
    · exact fun engine => h.compute engine.stats
    · intro _
      cases computeRound E df.originalMessage now with
      | error err => exact failHandler_adds h (.compute action df now) action df err
      | ok round =>
        apply Adds.locked 0
        · exact fun engine => h.last engine.stats round.computedAt
        · exact fun _ => done_adds (.compute action df now) action df _
  | disclose action df draw =>
    apply Adds.locked (a .disclose)
    · exact fun engine => h.disclose engine.stats
    · intro _
      cases discloseRequest E df.originalMessage with
      | error err => exact failHandler_adds h (.disclose action df draw) action df err
      | ok req =>
        apply Adds.locked 0
        · exact fun engine => rfl
        · intro engine
          cases discloseFrom E engine req draw with
          | error err => exact failHandler_adds h (.disclose action df draw) action df err
          | ok data => exact done_adds (.disclose action df draw) action df data
  | attest action df =>
    apply Adds.locked (a .attest)
    · exact fun engine => h.attest engine.stats
    · intro _
      cases attestRequest E df.originalMessage with
      | error err => exact failHandler_adds h (.attest action df) action df err
      | ok req =>
        apply Adds.locked 0
        · exact fun engine => rfl
        · intro engine
          cases attestFrom E engine req with
          | error err => exact failHandler_adds h (.attest action df) action df err
          | ok data => exact done_adds (.attest action df) action df data

theorem sum_weight (p : Pool Engine Request ActionResult) :
    p.returned (weight a e) = (p.finished.map fun t => a t.1.kind).sum + e * p.finished.countP failed := by
  unfold Pool.returned
  induction p.finished with
  | nil => rfl
  | cons t rest ih =>
    rw [List.map_cons, List.sum_cons, ih, List.map_cons, List.sum_cons, List.countP_cons, weight]
    by_cases hf : failed t = true
    · simp only [hf, ↓reduceIte]
      ring
    · simp only [hf, Bool.false_eq_true, ↓reduceIte]
      ring

theorem sum_kind {α : Type} (kind : RequestKind) (l : List (Request × α)) :
    (l.map fun t => if t.1.kind = kind then 1 else 0).sum = l.countP fun t => t.1.kind = kind := by
  induction l with
  | nil => rfl
  | cons t rest ih =>
    rw [List.map_cons, List.sum_cons, ih, List.countP_cons]
    by_cases hk : t.1.kind = kind <;> simp [hk, Nat.add_comm]

theorem counter_bounds (h : Counts c a e) (hp : Reaches (handler E) (Admitted S) (.start emptyEngine) p) :
    let answered := (p.finished.map fun t => a t.1.kind).sum + e * p.finished.countP failed
    c ⟨0, 0, 0, 0, 0⟩ + answered ≤ c p.shared.stats ∧
      c p.shared.stats ≤ c ⟨0, 0, 0, 0, 0⟩ + answered + (p.running.map fun t => a t.1.kind + e).sum := by
  obtain ⟨n, hadded, hcount⟩ := counted (fun engine : Engine => c engine.stats) (weight a e)
    (fun q _ => handler_adds h q) hp
  have hweight : ∀ q r, weight a e q r ≤ a q.kind + e := by
    intro q r
    unfold weight
    split_ifs <;> omega
  have hn := hadded.le hweight emptyEngine
  rw [sum_weight] at hcount
  simp only [emptyEngine] at hcount ⊢
  omega

end Counters

section Store

variable {E : Enclave} {S : Set Bytes} {p : Pool Engine Request ActionResult}

def StoresSuccess (E : Enclave) (q : Request) (r : ActionResult) (engine : Engine) : Prop :=
  match q with
  | .compute _ df _ =>
      (r.status = statusSuccess → (engine.rounds (E.keccak df.originalMessage)).isSome) ∧
      (r.status ≠ statusSuccess → ∀ now round, computeRound E df.originalMessage now ≠ .ok round)
  | _ => True

theorem storesSuccess_stable (q : Request) (r : ActionResult) : Stable (Computed E S) Refreshes (StoresSuccess E q r) := by
  intro engine engine' _ hmoves hkept
  cases q with
  | compute action df now =>
    refine ⟨?_, hkept.2⟩
    intro hstatus
    obtain ⟨old, hold⟩ := Option.isSome_iff_exists.mp (hkept.1 hstatus)
    obtain ⟨new, hnew, -⟩ := hmoves _ old hold
    exact Option.isSome_iff_exists.mpr ⟨new, hnew⟩
  | disclose => trivial
  | attest => trivial

theorem computeRound_time {message : Bytes} {now : ℤ} {round : ComputedRound} (now' : ℤ)
    (h : computeRound E message now = .ok round) : ∃ round', computeRound E message now' = .ok round' := by
  obtain ⟨p, table, tree, hopen, hvalid, htable, htree, -⟩ := computeRound_ok.mp h
  exact ⟨_, computeRound_ok.mpr ⟨p, table, tree, hopen, hvalid, htable, htree, rfl⟩⟩

theorem ensures_of_keeps {post : ActionResult → Prop} {prog : Handler}
    (h : Keeps (Computed E S) Refreshes post prog) :
    Ensures (Computed E S) Refreshes (fun r _ => post r) (fun _ => True) prog := by
  induction h with
  | done h => exact .done fun _ _ _ => h
  | locked hinv hmove _ ih =>
    apply Ensures.locked fun _ _ => True
    · exact fun _ _ _ => stable_true
    · exact fun engine hengine _ => ⟨hinv engine hengine, hmove engine hengine, trivial⟩
    · exact fun engine hengine _ => ih engine hengine

theorem handler_storesSuccess (hS : Set.InjOn E.keccak S) (q : Request) (hq : Admitted S q) :
    Ensures (Computed E S) Refreshes (StoresSuccess E q) (fun _ => True) (handler E q) := by
  cases q with
  | compute action df now =>
    apply Ensures.locked fun _ _ => True
    · exact fun _ _ _ => stable_true
    · exact fun engine hengine _ => ⟨hengine, .refl engine, trivial⟩
    · intro _ _ _
      cases hround : computeRound E df.originalMessage now with
      | error err =>
        apply Ensures.locked fun _ _ => True
        · exact fun _ _ _ => stable_true
        · exact fun engine hengine _ => ⟨hengine, .refl engine, trivial⟩
        · intro _ _ _
          apply Ensures.done
          intro _ _ _
          refine ⟨fun hstatus => absurd hstatus (status_failed _ _ _), ?_⟩
          intro _ now' round hround'
          obtain ⟨round', hround''⟩ := computeRound_time now hround'
          rw [hround] at hround''
          cases hround''
      | ok round =>
        have hcommitment : round.policyCommitment = E.keccak df.originalMessage :=
          (recorded_of_computeRound hq rfl hround).commitment
        let stored (engine : Engine) : Prop := (engine.rounds (E.keccak df.originalMessage)).isSome
        apply Ensures.locked fun _ => stored
        · intro _ _ _ engine engine' _ hmoves hstored
          obtain ⟨old, hold⟩ := Option.isSome_iff_exists.mp hstored
          obtain ⟨new, hnew, -⟩ := hmoves _ old hold
          exact Option.isSome_iff_exists.mpr ⟨new, hnew⟩
        · intro engine hengine _
          obtain ⟨hinv, hmoves⟩ := hengine.store hS hq hround
          refine ⟨hinv, hmoves, ?_⟩
          simp only [stored, Engine.store, hcommitment, Function.update_self, Option.isSome_some]
        · intro _ _ _
          apply Ensures.done
          intro engine _ hstored
          refine ⟨fun _ => hstored, fun hstatus => ?_⟩
          exact absurd (buildResult_status _ _ _ _ _) hstatus
  | disclose action df draw =>
    exact ensures_of_keeps ((handler_keeps hS _ hq).mono fun _ _ => trivial)
  | attest action df =>
    exact ensures_of_keeps ((handler_keeps hS _ hq).mono fun _ _ => trivial)

theorem computed_empty (E : Enclave) (S : Set Bytes) : Computed E S emptyEngine := by
  intro c round hc
  cases hc

theorem held_of_run (hS : Set.InjOn E.keccak S)
    (hp : Reaches (handler E) (Admitted S) (.start emptyEngine) p) :
    Held (Computed E S) Refreshes (StoresSuccess E) p :=
  held_of_reaches storesSuccess_stable (handler_storesSuccess hS) (computed_empty E S) hp

theorem computed_of_run (hS : Set.InjOn E.keccak S)
    (hp : Reaches (handler E) (Admitted S) (.start emptyEngine) p) :
    Computed E {m | m ∈ S ∧ ∃ action df now, (.compute action df now) ∈ p.requests ∧ df.originalMessage = m}
      p.shared := by
  have hrestricted : Reaches (handler E) (Admitted {m | m ∈ S ∧ ∃ action df now,
      (.compute action df now) ∈ p.requests ∧ df.originalMessage = m}) (.start emptyEngine) p := by
    refine Relation.ReflTransGen.mono ?_ _ _ hp.present
    intro old new hstep
    cases hstep with
    | arrive p' q hq =>
      apply Step.arrive
      cases q with
      | compute action df now => exact ⟨hq.1, action, df, now, hq.2, rfl⟩
      | disclose => trivial
      | attest => trivial
    | advance s finished before after q update next => exact .advance s finished before after q update next
    | finish s finished before after q r => exact .finish s finished before after q r
  have hinj := hS.mono (Set.sep_subset S fun m => ∃ action df now,
    Request.compute action df now ∈ p.requests ∧ df.originalMessage = m)
  exact (safe_of_reaches (handler_keeps hinj) (computed_empty E _) hrestricted).shared

theorem stored_of_idle (hS : Set.InjOn E.keccak S)
    (hp : Reaches (handler E) (Admitted S) (.start emptyEngine) p) (hidle : p.running = []) :
    p.shared.stored = (p.finished.filterMap (committed E)).toFinset := by
  have hheld := held_of_run hS hp
  ext c
  simp only [Engine.stored, Finset.mem_filter, Finset.mem_univ, true_and, List.mem_toFinset,
    List.mem_filterMap]
  constructor
  · intro hc
    obtain ⟨round, hround⟩ := Option.isSome_iff_exists.mp hc
    obtain ⟨_, ⟨_, action, df, now, hmem, rfl⟩, rfl, time, hcomputed⟩ := computed_of_run hS hp c round hround
    simp only [Pool.requests, hidle, List.map_nil, List.nil_append, List.mem_map] at hmem
    obtain ⟨⟨q, r⟩, hfinished, rfl⟩ := hmem
    refine ⟨_, hfinished, ?_⟩
    have hkept := hheld.finished _ hfinished
    by_cases hstatus : r.status = statusSuccess
    · simp only [committed, hstatus, ↓reduceIte]
    · exact absurd hcomputed (hkept.2 hstatus time round)
  · rintro ⟨⟨q, r⟩, hfinished, hcommitted⟩
    cases q with
    | compute action df now =>
      simp only [committed] at hcommitted
      split_ifs at hcommitted with hstatus
      cases hcommitted
      exact (hheld.finished _ hfinished).1 hstatus
    | disclose => cases hcommitted
    | attest => cases hcommitted

end Store

section Public

variable {E E' : Enclave} {S S' : Set Bytes} {p p' : Pool Engine Request ActionResult}

/-- What an observer of the requests and of the public results sees of one of them. -/
def observed (E : Enclave) (t : Request × ActionResult) : RequestKind × Bool × Option Bytes32 :=
  (t.1.kind, failed t, committed E t)

theorem counts_kind (kind : RequestKind) : Counts
    (match kind with
      | .compute => Stats.computeRequests
      | .disclose => Stats.discloseRequests
      | .attest => Stats.attestRequests)
    (fun k => if k = kind then 1 else 0) 0 := by
  cases kind <;> exact ⟨fun _ => rfl, fun _ => rfl, fun _ => rfl, fun _ => rfl, fun _ _ => rfl⟩

theorem counts_failed : Counts Stats.failedRequests (fun _ => 0) 1 :=
  ⟨fun _ => rfl, fun _ => rfl, fun _ => rfl, fun _ => rfl, fun _ _ => rfl⟩

/-- No request is lost from the counters, and none is counted twice, whatever the order of the
critical sections. -/
theorem state_counts (E : Enclave) (S : Set Bytes) (hS : Set.InjOn E.keccak S)
    (p : Pool Engine Request ActionResult)
    (hp : Reaches (handler E) (Admitted S) (.start emptyEngine) p) :
    let state := (stateHandler E p.shared).state
    let answered (kind : RequestKind) := p.finished.countP fun t => t.1.kind = kind
    let pending (kind : RequestKind) := p.running.countP fun t => t.1.kind = kind
    (answered .compute ≤ state.computeRequests ∧
      state.computeRequests ≤ answered .compute + pending .compute) ∧
    (answered .disclose ≤ state.discloseRequests ∧
      state.discloseRequests ≤ answered .disclose + pending .disclose) ∧
    (answered .attest ≤ state.attestRequests ∧
      state.attestRequests ≤ answered .attest + pending .attest) ∧
    (p.finished.countP failed ≤ state.failedRequests ∧
      state.failedRequests ≤ p.finished.countP failed + p.running.length) ∧
    (p.running = [] →
      state.roundsComputed = (p.finished.filterMap (committed E)).toFinset.card) := by
  have hkind (kind : RequestKind) := counter_bounds (counts_kind kind) hp
  have hfailed := counter_bounds counts_failed hp
  have hcompute := hkind .compute
  have hdisclose := hkind .disclose
  have hattest := hkind .attest
  simp only [sum_kind, Nat.zero_mul, Nat.add_zero, Nat.zero_add] at hcompute hdisclose hattest
  have hzero : (p.finished.map fun _ : Request × ActionResult => 0).sum = 0 := by simp
  have hones : (p.running.map fun _ : Request × Handler => 0 + 1).sum = p.running.length := by simp
  simp only [hzero, hones, Nat.one_mul, Nat.zero_add] at hfailed
  refine ⟨hcompute, hdisclose, hattest, hfailed, ?_⟩
  intro hidle
  rw [stateHandler_roundsComputed, stored_of_idle hS hp hidle]

theorem counters_of_idle (hp : Reaches (handler E) (Admitted S) (.start emptyEngine) p)
    (hidle : p.running = []) :
    (∀ kind, (match kind with
      | .compute => Stats.computeRequests
      | .disclose => Stats.discloseRequests
      | .attest => Stats.attestRequests) p.shared.stats =
        ((p.finished.map (observed E)).countP fun o => o.1 = kind)) ∧
    p.shared.stats.failedRequests = (p.finished.map (observed E)).countP fun o => o.2.1 := by
  have hfailed := counter_bounds counts_failed hp
  have hzero : (p.finished.map fun _ : Request × ActionResult => 0).sum = 0 := by simp
  rw [hidle] at hfailed
  simp only [hzero, List.map_nil, List.sum_nil, Nat.one_mul, Nat.zero_add, Nat.add_zero] at hfailed
  constructor
  · intro kind
    have hkind := counter_bounds (counts_kind kind) hp
    rw [hidle] at hkind
    simp only [sum_kind, List.map_nil, List.sum_nil, Nat.zero_mul, Nat.add_zero] at hkind
    have hcount : ((p.finished.map (observed E)).countP fun o => o.1 = kind) =
        p.finished.countP fun t => t.1.kind = kind := List.countP_map
    rw [hcount]
    cases kind <;> exact Nat.le_antisymm (by simpa using hkind.2) (by simpa using hkind.1)
  · have hcount : ((p.finished.map (observed E)).countP fun o => o.2.1) = p.finished.countP failed :=
      List.countP_map
    rw [hcount]
    exact Nat.le_antisymm hfailed.2 hfailed.1

/-- Two engines that were asked the same and succeeded alike report the same state, whatever the
policies behind the ciphertexts were, except for the time of the last computation. -/
theorem state_independent_of_policies (E E' : Enclave) (S S' : Set Bytes) (hcfg : E'.cfg = E.cfg)
    (hkeccak : E'.keccak = E.keccak) (hS : Set.InjOn E.keccak S) (hS' : Set.InjOn E'.keccak S')
    (p p' : Pool Engine Request ActionResult)
    (hp : Reaches (handler E) (Admitted S) (.start emptyEngine) p) (hidle : p.running = [])
    (hp' : Reaches (handler E') (Admitted S') (.start emptyEngine) p') (hidle' : p'.running = [])
    (hsame : (p'.finished.map (observed E')).Perm (p.finished.map (observed E))) (time : ℤ) :
    { stateHandler E' p'.shared with
      state := { (stateHandler E' p'.shared).state with lastComputedAt := time } } =
    { stateHandler E p.shared with
      state := { (stateHandler E p.shared).state with lastComputedAt := time } } := by
  obtain ⟨hkinds, hfailed⟩ := counters_of_idle hp hidle
  obtain ⟨hkinds', hfailed'⟩ := counters_of_idle hp' hidle'
  simp only [hsame.countP_eq] at hkinds' hfailed'
  have hcompute := (hkinds' .compute).trans (hkinds .compute).symm
  have hdisclose := (hkinds' .disclose).trans (hkinds .disclose).symm
  have hattest := (hkinds' .attest).trans (hkinds .attest).symm
  have hcommitted {E : Enclave} (l : List (Request × ActionResult)) :
      l.filterMap (committed E) = (l.map (observed E)).filterMap fun o => o.2.2 := by
    rw [List.filterMap_map]
    rfl
  have hstored : p'.shared.stored = p.shared.stored := by
    rw [stored_of_idle hS hp hidle, stored_of_idle hS' hp' hidle', hcommitted, hcommitted]
    exact List.toFinset_eq_of_perm _ _ (hsame.filterMap _)
  simp only [stateHandler, hstored, hcfg, E.addressHex_eq, E'.addressHex_eq, hkeccak, hfailed', ← hfailed]
  simp only at hcompute hdisclose hattest
  rw [hcompute, hdisclose, hattest]

end Public

section Recovery

variable {E : Enclave} {S : Set Bytes} {engine engine' : Engine} {round round' : ComputedRound}
  {c : Bytes32}

theorem discloseFrom_eq (req : DiscloseRequest) (draw : ℕ) :
    discloseFrom E engine req draw = disclosureFor E engine req >>= sealDisclosure E req draw := by
  unfold discloseFrom disclosureFor ComputedRound.rowFor
  cases hlookup : lookupRound engine req.roundId req.policyCommitment with
  | error err => rfl
  | ok round =>
    have hid : round.roundId = req.roundId := by
      simp only [lookupRound] at hlookup
      split at hlookup
      · cases hlookup
      · simp only [bind_ok, require_ok, exists_const, pure, Except.pure, Except.ok.injEq] at hlookup
        exact hlookup.2 ▸ hlookup.1
    simp only [bind, Except.bind]
    cases round.byRecipient req.requester with
    | none => rfl
    | some idx => simp only [hid, sealDisclosure, bind, Except.bind]

theorem lookupRound_undated (hround : engine.rounds c = some round) (hround' : engine'.rounds c = some round')
    (hsame : round'.undated = round.undated) (roundId : ℤ) {α : Type} {f : ComputedRound → Except String α}
    (hf : ∀ r, f r = f r.undated) :
    (lookupRound engine' roundId c >>= f) = (lookupRound engine roundId c >>= f) := by
  have hid : round'.undated.roundId = round.undated.roundId := congrArg ComputedRound.roundId hsame
  simp only [ComputedRound.undated] at hid
  simp only [lookupRound, hround, hround', hid, bind_assoc, pure_bind]
  rw [hf round', hf round, hsame]

theorem answers_undated (hround : engine.rounds c = some round) (hround' : engine'.rounds c = some round')
    (hsame : round'.undated = round.undated) :
    (∀ req : AttestRequest, req.policyCommitment = c → attestFrom E engine' req = attestFrom E engine req) ∧
    ∀ req : DiscloseRequest, req.policyCommitment = c →
      (disclosureFor E engine' req).map Disclosure.undated = (disclosureFor E engine req).map Disclosure.undated := by
  constructor
  · rintro req rfl
    exact lookupRound_undated hround hround' hsame req.roundId fun _ => rfl
  · rintro req rfl
    have hrow (r : ComputedRound) : (r.rowFor E req.requester).map Disclosure.undated =
        (r.undated.rowFor E req.requester).map Disclosure.undated := by
      simp only [ComputedRound.rowFor, ComputedRound.undated]
      cases r.byRecipient req.requester <;> rfl
    have hmap (engine : Engine) : (disclosureFor E engine req).map Disclosure.undated =
        (lookupRound engine req.roundId req.policyCommitment >>= fun r =>
          (r.rowFor E req.requester).map Disclosure.undated) := by
      unfold disclosureFor
      cases lookupRound engine req.roundId req.policyCommitment <;> rfl
    rw [hmap, hmap]
    exact lookupRound_undated hround hround' hsame req.roundId hrow

/-- An engine that lost its memory answers as before once COMPUTE was repeated: the repeated request
succeeds with the same result, and its round is attested and disclosed as it was, only the time of
computation differs. -/
theorem recompute_recovers (E : Enclave) (S : Set Bytes) (hS : Set.InjOn E.keccak S)
    (p p' : Pool Engine Request ActionResult)
    (hp : Reaches (handler E) (Admitted S) (.start emptyEngine) p)
    (hp' : Reaches (handler E) (Admitted S) (.start emptyEngine) p') (c : Bytes32) (round : ComputedRound)
    (hround : p.shared.rounds c = some round) (action : Action) (df : DataFixed) (now : ℤ) (r : ActionResult)
    (hserved : (.compute action df now, r) ∈ p'.finished) (hc : E.keccak df.originalMessage = c) :
    r.status = statusSuccess ∧ r.data = encodeAllocationResult E round ∧
    (∃ round', p'.shared.rounds c = some round' ∧ round'.undated = round.undated) ∧
    (∀ req : AttestRequest, req.policyCommitment = c → attestFrom E p'.shared req = attestFrom E p.shared req) ∧
    ∀ req : DiscloseRequest, req.policyCommitment = c →
      (disclosureFor E p'.shared req).map Disclosure.undated =
        (disclosureFor E p.shared req).map Disclosure.undated ∧
      ∀ draw,
        discloseFrom E p'.shared req draw = disclosureFor E p'.shared req >>= sealDisclosure E req draw ∧
        discloseFrom E p.shared req draw = disclosureFor E p.shared req >>= sealDisclosure E req draw := by
  have hsafe := safe_of_reaches (handler_keeps hS) (computed_empty E S) hp
  have hsafe' := safe_of_reaches (handler_keeps hS) (computed_empty E S) hp'
  have hadmitted : df.originalMessage ∈ S :=
    admitted_of_reaches hp' _ (List.mem_append_right _ (List.mem_map_of_mem hserved))
  obtain ⟨message, hm, hmessage, time, hcomputed⟩ := hsafe.shared c round hround
  obtain rfl : message = df.originalMessage := hS hm hadmitted (hmessage.trans hc.symm)
  have hkept := (held_of_run hS hp').finished _ hserved
  have hstatus : r.status = statusSuccess := by
    by_contra hfailed
    exact hkept.2 hfailed time round hcomputed
  obtain ⟨-, time', computed', hcomputed', hdata⟩ := hsafe'.finished _ hserved hstatus
  obtain ⟨round', hround'⟩ := Option.isSome_iff_exists.mp (hkept.1 hstatus)
  rw [hc] at hround'
  obtain ⟨message', hm', hmessage', time'', hcomputed''⟩ := hsafe'.shared c round' hround'
  obtain rfl : message' = df.originalMessage := hS hm' hadmitted (hmessage'.trans hc.symm)
  have hsame : round'.undated = round.undated := computeRound_undated hcomputed'' hcomputed
  obtain ⟨hattest, hdisclose⟩ := answers_undated (E := E) hround hround' hsame
  refine ⟨hstatus, ?_, ⟨round', hround', hsame⟩, hattest, ?_⟩
  · rw [hdata]
    exact encodeAllocationResult_undated (computeRound_undated hcomputed' hcomputed)
  · intro req hreq
    exact ⟨hdisclose req hreq, fun draw => ⟨discloseFrom_eq req draw, discloseFrom_eq req draw⟩⟩

end Recovery

section Sample

/-- The same engine in front of another policy: the recipients are paid something else. -/
def otherEnclave : Enclave :=
  { sampleEnclave with
    decodePolicy := fun b => if b = [42] then
        .ok { samplePolicy with entries := samplePolicy.entries.map fun e => { e with amount := some 2 } }
      else .error "abi: cannot unmarshal" }

def servedOnce (E : Enclave) : Pool Engine Request ActionResult :=
  ⟨((handler E storeRequest).run emptyEngine).1, [],
    [(storeRequest, ((handler E storeRequest).run emptyEngine).2)]⟩

theorem servedOnce_reached (E : Enclave) :
    Reaches (handler E) (Admitted {[42]}) (.start emptyEngine) (servedOnce E) :=
  reaches_run (handler E) (show Admitted {[42]} storeRequest from rfl) (.start emptyEngine) rfl

theorem state_counts_sample :
    (stateHandler sampleEnclave (servedOnce sampleEnclave).shared).state.roundsComputed = 1 ∧
    (stateHandler sampleEnclave (servedOnce sampleEnclave).shared).state.computeRequests = 1 := by
  obtain ⟨hcompute, -, -, -, hrounds⟩ := state_counts sampleEnclave {[42]} (Set.injOn_singleton _ _)
    (servedOnce sampleEnclave) (servedOnce_reached sampleEnclave)
  have hcommitted : (servedOnce sampleEnclave).finished.filterMap (committed sampleEnclave) =
      [sampleEnclave.keccak [42]] := by
    decide
  constructor
  · rw [hrounds rfl, hcommitted]
    rfl
  · exact Nat.le_antisymm hcompute.2 hcompute.1

theorem state_independent_of_policies_sample :
    sampleEnclave.decodePolicy [42] ≠ otherEnclave.decodePolicy [42] ∧ ∀ time,
    { stateHandler otherEnclave (servedOnce otherEnclave).shared with
      state := { (stateHandler otherEnclave (servedOnce otherEnclave).shared).state with
        lastComputedAt := time } } =
    { stateHandler sampleEnclave (servedOnce sampleEnclave).shared with
      state := { (stateHandler sampleEnclave (servedOnce sampleEnclave).shared).state with
        lastComputedAt := time } } := by
  refine ⟨?_, ?_⟩
  · intro h
    exact absurd (congrArg Policy.entries (Except.ok.inj h)) (by decide)
  · apply state_independent_of_policies sampleEnclave otherEnclave {[42]} {[42]} rfl rfl
      (Set.injOn_singleton _ _) (Set.injOn_singleton _ _) (servedOnce sampleEnclave) (servedOnce otherEnclave)
    · exact servedOnce_reached sampleEnclave
    · rfl
    · exact servedOnce_reached otherEnclave
    · rfl
    · decide

theorem recompute_recovers_sample : ∃ r round',
    (storeRequest, r) ∈ (servedOnce sampleEnclave).finished ∧ r.status = statusSuccess ∧
    (servedOnce sampleEnclave).shared.rounds (sampleEnclave.keccak [42]) = some round' ∧
    round'.undated = sampleRound.undated := by
  have hfirst : Reaches (handler sampleEnclave) (Admitted {[42]}) (.start emptyEngine)
      ⟨emptyEngine.bump (fun s => { s with computeRequests := s.computeRequests + 1 }) |>.store sampleRound, [],
        [(.compute ⟨99, []⟩ ⟨opTypeAlloc, opCommandCompute, [42]⟩ 0,
          buildResult ⟨99, []⟩ ⟨opTypeAlloc, opCommandCompute, [42]⟩
            (encodeAllocationResult sampleEnclave sampleRound) statusSuccess "")]⟩ := by
    have hrun := reaches_run (handler sampleEnclave)
      (show Admitted {[42]} (.compute ⟨99, []⟩ ⟨opTypeAlloc, opCommandCompute, [42]⟩ 0) from rfl)
      (.start emptyEngine) rfl
    rw [handler_run] at hrun
    simp only [process, processCompute, computeRound_sample, Pool.start] at hrun
    exact hrun
  have hstored (engine : Engine) :
      (engine.store sampleRound).rounds (sampleEnclave.keccak [42]) = some sampleRound := by
    have hcommitment : sampleRound.policyCommitment = sampleEnclave.keccak [42] := rfl
    simp only [Engine.store, hcommitment, Function.update_self]
  obtain ⟨hstatus, -, ⟨round', hround', hsame⟩, -⟩ := recompute_recovers sampleEnclave {[42]}
    (Set.injOn_singleton _ _) _ (servedOnce sampleEnclave) hfirst (servedOnce_reached sampleEnclave)
    (sampleEnclave.keccak [42]) sampleRound (hstored _) ⟨99, []⟩ ⟨opTypeAlloc, opCommandCompute, [42]⟩ 5 _
    (List.mem_singleton_self _) rfl
  exact ⟨_, round', List.mem_singleton_self _, hstatus, hround', hsame⟩

end Sample

end Fidensur
