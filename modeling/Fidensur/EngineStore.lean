import Fidensur.CriticalSections
import Fidensur.Attestation

set_option autoImplicit false

namespace Fidensur

open CriticalSections ByteWords

abbrev Handler := Program Engine ActionResult

/-- A request with what its handler draws from outside: the clock, or the random source. -/
inductive Request
  | compute (action : Action) (df : DataFixed) (now : ℤ)
  | disclose (action : Action) (df : DataFixed) (draw : ℕ)
  | attest (action : Action) (df : DataFixed)
  deriving DecidableEq

section Handlers

variable (E : Enclave)

def failHandler (action : Action) (df : DataFixed) (err : String) : Handler :=
  .locked (fun engine => engine.bump fun s => { s with failedRequests := s.failedRequests + 1 })
    fun _ => .done (buildResult action df [] statusError err)

def computeHandler (action : Action) (df : DataFixed) (now : ℤ) : Handler :=
  .locked (fun engine => engine.bump fun s => { s with computeRequests := s.computeRequests + 1 })
    fun _ =>
      match computeRound E df.originalMessage now with
      | .error err => failHandler action df err
      | .ok computed => .locked (fun engine => engine.store computed) fun _ =>
          .done (buildResult action df (encodeAllocationResult E computed) statusSuccess "")

def discloseRequest (message : Bytes) : Except String DiscloseRequest := do
  let req ← (E.decodeDisclose message).mapError ("decoding disclosure request: " ++ ·)
  requireServed E req.contractAddr
  require (req.requester ≠ 0) "requester must not be the zero address"
  return req

def discloseFrom (engine : Engine) (req : DiscloseRequest) (draw : ℕ) : Except String Bytes := do
  let round ← lookupRound engine req.roundId req.policyCommitment
  match round.byRecipient req.requester with
  | none => .error "requester has no allocation in this round"
  | some idx => do
      let alloc := round.allocations.getD idx ⟨0, 0, 0⟩
      let plaintext := E.marshal (round.disclosure E idx alloc)
      let ciphertext ← (encryptToRecipient E draw req.disclosureKey plaintext).mapError
        ("encrypting disclosure: " ++ ·)
      return encodeDisclosureResult req.requester round.roundId ciphertext

def discloseHandler (action : Action) (df : DataFixed) (draw : ℕ) : Handler :=
  .locked (fun engine => engine.bump fun s => { s with discloseRequests := s.discloseRequests + 1 })
    fun _ =>
      match discloseRequest E df.originalMessage with
      | .error err => failHandler action df err
      | .ok req => .locked id fun engine =>
          match discloseFrom E engine req draw with
          | .error err => failHandler action df err
          | .ok data => .done (buildResult action df data statusSuccess "")

def attestRequest (message : Bytes) : Except String AttestRequest := do
  let req ← (E.decodeAttest message).mapError ("decoding attestation request: " ++ ·)
  requireServed E req.contractAddr
  return req

def attestFrom (engine : Engine) (req : AttestRequest) : Except String Bytes := do
  let round ← lookupRound engine req.roundId req.policyCommitment
  require (rootIsIntact E round = true) "internal: stored root does not match stored allocations"
  return encodeAllocationResult E round

def attestHandler (action : Action) (df : DataFixed) : Handler :=
  .locked (fun engine => engine.bump fun s => { s with attestRequests := s.attestRequests + 1 })
    fun _ =>
      match attestRequest E df.originalMessage with
      | .error err => failHandler action df err
      | .ok req => .locked id fun engine =>
          match attestFrom E engine req with
          | .error err => failHandler action df err
          | .ok data => .done (buildResult action df data statusSuccess "")

def handler : Request → Handler
  | .compute action df now => computeHandler E action df now
  | .disclose action df draw => discloseHandler E action df draw
  | .attest action df => attestHandler E action df

def process (engine : Engine) : Request → Engine × ActionResult
  | .compute action df now => processCompute E engine action df now
  | .disclose action df draw => processDisclose E engine action df draw
  | .attest action df => processAttest E engine action df

theorem handler_run (engine : Engine) (q : Request) : (handler E q).run engine = process E engine q := by
  cases q with
  | compute action df now =>
    simp only [handler, computeHandler, process, processCompute, Program.run]
    cases computeRound E df.originalMessage now <;> rfl
  | disclose action df draw =>
    have hdisclose (engine' : Engine) : disclose E engine' df.originalMessage draw =
        (discloseRequest E df.originalMessage >>= fun req => discloseFrom E engine' req draw) := by
      unfold disclose discloseRequest discloseFrom
      cases (E.decodeDisclose df.originalMessage).mapError ("decoding disclosure request: " ++ ·) with
      | error err => rfl
      | ok req =>
        cases hserved : requireServed E req.contractAddr with
        | error err => simp only [bind, Except.bind, hserved]
        | ok _ =>
          simp only [bind, Except.bind, hserved]
          cases require (req.requester ≠ 0) "requester must not be the zero address" <;> rfl
    simp only [handler, discloseHandler, process, processDisclose, Program.run, hdisclose]
    generalize engine.bump _ = bumped
    cases discloseRequest E df.originalMessage with
    | error err => rfl
    | ok req =>
      simp only [bind, Except.bind, Program.run, id]
      cases discloseFrom E bumped req draw <;> rfl
  | attest action df =>
    have hattest (engine' : Engine) : attest E engine' df.originalMessage =
        (attestRequest E df.originalMessage >>= fun req => attestFrom E engine' req) := by
      simp only [attest, attestRequest, attestFrom, bind_assoc, pure_bind]
    simp only [handler, attestHandler, process, processAttest, Program.run, hattest]
    generalize engine.bump _ = bumped
    cases attestRequest E df.originalMessage with
    | error err => rfl
    | ok req =>
      simp only [bind, Except.bind, Program.run, id]
      cases attestFrom E bumped req <;> rfl

end Handlers

section Entries

variable {E : Enclave} {S : Set Bytes} {engine : Engine} {c : Bytes32} {round round' : ComputedRound}
  {message : Bytes} {now now' : ℤ}

def ComputedRound.undated (round : ComputedRound) : ComputedRound := { round with computedAt := 0 }

structure Recorded (E : Enclave) (S : Set Bytes) (c : Bytes32) (round : ComputedRound) : Prop where
  source : ∃ message ∈ S, E.keccak message = c ∧ ∃ p, E.Opens message p ∧ validate E.cfg p = .ok () ∧
    evaluate p = .ok round.allocations ∧ round.roundId = value p.roundId ∧
    round.organization = p.organization
  commitment : round.policyCommitment = c
  tree : MerkleTree.buildMerkleTree E.keccak (leavesOf E.keccak round.roundId round.allocations) =
    some round.tree
  root : round.root = MerkleTree.root round.tree
  total : round.total = sumAllocations round.allocations
  indexed : ∀ a i, round.byRecipient a = some i ↔
    ∃ row, round.allocations[i]? = some row ∧ row.recipient = a
  intact : rootIsIntact E round = true

def Computed (E : Enclave) (S : Set Bytes) (engine : Engine) : Prop :=
  ∀ c round, engine.rounds c = some round →
    ∃ message ∈ S, E.keccak message = c ∧ ∃ now, computeRound E message now = .ok round

theorem indexRecipients_iff {allocations : List Allocation}
    (hn : (allocations.map Allocation.recipient).Nodup) (a : Address) (i : ℕ) :
    indexRecipients 0 allocations (fun _ => none) a = some i ↔
      ∃ row, allocations[i]? = some row ∧ row.recipient = a := by
  constructor
  · intro h
    by_cases ha : a ∈ allocations.map Allocation.recipient
    · obtain ⟨row, hrow, rfl⟩ := List.mem_map.mp ha
      obtain ⟨j, hj, rfl⟩ := List.getElem_of_mem hrow
      rw [indexRecipients_getElem hn j hj, Nat.zero_add, Option.some.injEq] at h
      subst h
      exact ⟨allocations[j], List.getElem?_eq_getElem hj, rfl⟩
    · rw [indexRecipients_of_notMem ha] at h
      cases h
  · rintro ⟨row, hrow, rfl⟩
    obtain ⟨hi, rfl⟩ := List.getElem?_eq_some_iff.mp hrow
    rw [indexRecipients_getElem hn i hi, Nat.zero_add]

theorem recorded_of_computeRound (hS : message ∈ S) (hc : E.keccak message = c)
    (h : computeRound E message now = .ok round) : Recorded E S c round := by
  have hintact : rootIsIntact E round = true := by
    obtain ⟨p, table, tree, -, -, -, htree, rfl⟩ := computeRound_ok.mp h
    simp [rootIsIntact, ComputedRound.build, htree]
  obtain ⟨p, table, tree, hopen, hvalid, htable, htree, rfl⟩ := computeRound_ok.mp h
  have hdistinct := (evaluate_ok (Policy.Valid.of_validate hvalid) htable).distinct
  exact ⟨⟨message, hS, hc, p, hopen, hvalid, htable, rfl, rfl⟩, hc, htree, rfl, rfl,
    indexRecipients_iff hdistinct, hintact⟩

theorem computeRound_undated (h : computeRound E message now = .ok round)
    (h' : computeRound E message now' = .ok round') : round.undated = round'.undated := by
  obtain ⟨p, table, tree, ⟨plaintext, hplain, hp⟩, -, htable, htree, rfl⟩ := computeRound_ok.mp h
  obtain ⟨p', table', tree', ⟨plaintext', hplain', hp'⟩, -, htable', htree', rfl⟩ := computeRound_ok.mp h'
  obtain rfl := Except.ok.inj (hplain.symm.trans hplain')
  obtain rfl := Except.ok.inj (hp.symm.trans hp')
  obtain rfl := Except.ok.inj (htable.symm.trans htable')
  obtain rfl := Option.some.inj (htree.symm.trans htree')
  rfl

theorem encodeAllocationResult_undated (h : round.undated = round'.undated) :
    encodeAllocationResult E round = encodeAllocationResult E round' := by
  have hencode (r : ComputedRound) : encodeAllocationResult E r = encodeAllocationResult E r.undated := rfl
  rw [hencode, h, ← hencode]

theorem Computed.store (hS : Set.InjOn E.keccak S) (h : Computed E S engine) (hm : message ∈ S)
    (hround : computeRound E message now = .ok round) :
    Computed E S (engine.store round) ∧
      ∀ c old, engine.rounds c = some old →
        ∃ new, (engine.store round).rounds c = some new ∧ new.undated = old.undated := by
  have hcommitment : round.policyCommitment = E.keccak message :=
    (recorded_of_computeRound hm rfl hround).commitment
  constructor
  · intro c new hc
    by_cases heq : c = round.policyCommitment
    · simp only [Engine.store, heq, Function.update_self, Option.some.injEq] at hc
      subst hc
      exact ⟨message, hm, hcommitment.symm.trans heq.symm, now, hround⟩
    · simp only [Engine.store, Function.update_of_ne heq] at hc
      exact h c new hc
  · intro c old hc
    by_cases heq : c = round.policyCommitment
    · obtain ⟨message', hm', hc', now', hold⟩ := h c old hc
      obtain rfl : message' = message := hS hm' hm (by rw [hc', heq, hcommitment])
      refine ⟨round, ?_, computeRound_undated hround hold⟩
      simp only [Engine.store, heq, Function.update_self]
    · refine ⟨old, ?_, rfl⟩
      simp only [Engine.store, Function.update_of_ne heq]
      exact hc

end Entries

section Serving

variable {E : Enclave} {S : Set Bytes} {engine : Engine} {c : Bytes32} {round : ComputedRound}

def Admitted (S : Set Bytes) : Request → Prop
  | .compute _ df _ => df.originalMessage ∈ S
  | _ => True

def Refreshes (engine engine' : Engine) : Prop :=
  ∀ c old, engine.rounds c = some old →
    ∃ new, engine'.rounds c = some new ∧ new.undated = old.undated

theorem Refreshes.refl (engine : Engine) : Refreshes engine engine := fun _ old h => ⟨old, h, rfl⟩

def brokenRoot : String := "internal: stored root does not match stored allocations"

def Disclosed (E : Enclave) (S : Set Bytes) (req : DiscloseRequest) (draw : ℕ) (data : Bytes) : Prop :=
  ∃ round, Recorded E S req.policyCommitment round ∧ round.roundId = req.roundId ∧
    ∃ i row ciphertext, round.allocations[i]? = some row ∧ row.recipient = req.requester ∧
      (∀ other ∈ round.allocations, other.recipient = req.requester → other = row) ∧
      encryptToRecipient E draw req.disclosureKey (E.marshal (round.disclosure E i row)) = .ok ciphertext ∧
      data = encodeDisclosureResult req.requester round.roundId ciphertext

def Answered (E : Enclave) (S : Set Bytes) : Request → ActionResult → Prop
  | .compute _ df _, r => r.status = statusSuccess → df.originalMessage ∈ S ∧
      ∃ now round, computeRound E df.originalMessage now = .ok round ∧
        r.data = encodeAllocationResult E round
  | .disclose _ df draw, r => r.status = statusSuccess →
      ∃ req, E.decodeDisclose df.originalMessage = .ok req ∧ Disclosed E S req draw r.data
  | .attest _ df, r => r.log ≠ "error: " ++ brokenRoot ∧ (r.status = statusSuccess →
      ∃ req, E.decodeAttest df.originalMessage = .ok req ∧
        ∃ message ∈ S, E.keccak message = req.policyCommitment ∧
        ∃ now round, computeRound E message now = .ok round ∧ r.data = encodeAllocationResult E round)

theorem keeps_fail {post : ActionResult → Prop} {action : Action} {df : DataFixed} {err : String}
    (hpost : post (buildResult action df [] statusError err)) :
    Keeps (Computed E S) Refreshes post (failHandler action df err) := by
  apply Keeps.locked
  · exact fun engine h => h
  · exact fun engine _ => .refl engine
  · exact fun _ _ => .done hpost

theorem keeps_bump {post : ActionResult → Prop} {f : Stats → Stats} {next : Engine → Handler}
    (hnext : ∀ engine, Computed E S engine → Keeps (Computed E S) Refreshes post (next engine)) :
    Keeps (Computed E S) Refreshes post (.locked (fun engine => engine.bump f) next) := by
  apply Keeps.locked
  · exact fun engine h => h
  · exact fun engine _ => .refl engine
  · exact hnext

theorem discloseFrom_ok {req : DiscloseRequest} {draw : ℕ} {data : Bytes} (h : Computed E S engine)
    (hdata : discloseFrom E engine req draw = .ok data) : Disclosed E S req draw data := by
  obtain ⟨round, hround, hdata⟩ := bind_ok.mp hdata
  simp only [lookupRound] at hround
  split at hround
  · cases hround
  · next stored hstored =>
    simp only [bind_ok, require_ok, exists_const, pure, Except.pure, Except.ok.injEq] at hround
    obtain ⟨hid, rfl⟩ := hround
    obtain ⟨message, hm, hc, now, hcomputed⟩ := h _ _ hstored
    have hrecorded := recorded_of_computeRound hm hc hcomputed
    split at hdata
    · cases hdata
    · next idx hidx =>
      simp only [bind_ok, mapError_ok, pure, Except.pure, Except.ok.injEq] at hdata
      obtain ⟨ciphertext, hcipher, rfl⟩ := hdata
      obtain ⟨row, hrow, hrecipient⟩ := (hrecorded.indexed _ _).mp hidx
      rw [List.getD_eq_getElem?_getD, hrow, Option.getD_some] at hcipher
      refine ⟨stored, hrecorded, hid, idx, row, ciphertext, hrow, hrecipient, ?_, hcipher, rfl⟩
      intro other hother hsame
      obtain ⟨j, hj, rfl⟩ := List.getElem_of_mem hother
      have hfound := (hrecorded.indexed req.requester j).mpr ⟨_, List.getElem?_eq_getElem hj, hsame⟩
      rw [hidx, Option.some.injEq] at hfound
      subst hfound
      rw [List.getElem?_eq_getElem hj, Option.some.injEq] at hrow
      exact hrow

theorem append_ne_of_head {s t u : String} {x y : Char} (hs : s.toList.head? = some x)
    (hu : u.toList.head? = some y) (hxy : x ≠ y) : s ++ t ≠ u := by
  rintro rfl
  rw [String.toList_append, List.head?_append, hs] at hu
  exact hxy (Option.some.inj hu)

theorem attestRequest_error {message : Bytes} {err : String} (h : attestRequest E message = .error err) :
    err ≠ brokenRoot := by
  simp only [attestRequest, bind_error, mapError_ok, mapError_error, requireServed, require_error,
    pure, Except.pure, reduceCtorEq, and_false, exists_false, or_false] at h
  rcases h with ⟨e, -, rfl⟩ | ⟨req, -, -, rfl⟩
  · exact append_ne_of_head (x := 'd') (y := 'i') (by decide) (by decide) (by decide)
  · simp only [String.append_assoc]
    exact append_ne_of_head (x := 'r') (y := 'i') (by decide) (by decide) (by decide)

theorem attestFrom_error (h : Computed E S engine) {req : AttestRequest} {err : String}
    (herr : attestFrom E engine req = .error err) : err ≠ brokenRoot := by
  simp only [attestFrom, lookupRound, bind_error, require_error, pure, Except.pure, reduceCtorEq,
    and_false, exists_false, or_false] at herr
  rcases herr with hlookup | ⟨round, hround, hbroken, -⟩
  · split at hlookup
    · cases hlookup
      simp only [String.append_assoc]
      exact append_ne_of_head (x := 'n') (y := 'i') (by decide) (by decide) (by decide)
    · simp only [bind_error, require_error, reduceCtorEq, and_false, exists_false, or_false] at hlookup
      obtain ⟨-, rfl⟩ := hlookup
      simp only [String.append_assoc]
      exact append_ne_of_head (x := 'c') (y := 'i') (by decide) (by decide) (by decide)
  · split at hround
    · cases hround
    · next stored hstored =>
      simp only [bind_ok, require_ok, exists_const, Except.ok.injEq] at hround
      obtain ⟨-, rfl⟩ := hround
      obtain ⟨message, hm, hc, now, hcomputed⟩ := h _ _ hstored
      exact absurd (recorded_of_computeRound hm hc hcomputed).intact hbroken

theorem attestFrom_ok (h : Computed E S engine) {req : AttestRequest} {data : Bytes}
    (hdata : attestFrom E engine req = .ok data) :
    ∃ message ∈ S, E.keccak message = req.policyCommitment ∧
      ∃ now round, computeRound E message now = .ok round ∧ data = encodeAllocationResult E round := by
  simp only [attestFrom, lookupRound, bind_ok, require_ok, exists_const, pure, Except.pure,
    Except.ok.injEq] at hdata
  obtain ⟨round, hround, -, rfl⟩ := hdata
  split at hround
  · cases hround
  · next stored hstored =>
    simp only [bind_ok, require_ok, exists_const, Except.ok.injEq] at hround
    obtain ⟨-, rfl⟩ := hround
    obtain ⟨message, hm, hc, now, hcomputed⟩ := h _ _ hstored
    exact ⟨message, hm, hc, now, stored, hcomputed, rfl⟩

theorem status_failed (action : Action) (df : DataFixed) (err : String) :
    (buildResult action df [] statusError err).status ≠ statusSuccess :=
  (by decide : statusError ≠ statusSuccess)

theorem handler_keeps (hS : Set.InjOn E.keccak S) (q : Request) (hq : Admitted S q) :
    Keeps (Computed E S) Refreshes (Answered E S q) (handler E q) := by
  cases q with
  | compute action df now =>
    apply keeps_bump
    intro _ _
    cases hround : computeRound E df.originalMessage now with
    | error err => exact keeps_fail fun hst => absurd hst (status_failed _ _ _)
    | ok round =>
      apply Keeps.locked
      · exact fun engine h => (h.store hS hq hround).1
      · exact fun engine h => (h.store hS hq hround).2
      · exact fun _ _ => .done fun _ => ⟨hq, now, round, hround, buildResult_data _ _ _ _ _⟩
  | disclose action df draw =>
    apply keeps_bump
    intro _ _
    cases hreq : discloseRequest E df.originalMessage with
    | error err => exact keeps_fail fun hst => absurd hst (status_failed _ _ _)
    | ok req =>
      have hdecode : E.decodeDisclose df.originalMessage = .ok req := by
        simp only [discloseRequest, bind_ok, mapError_ok, pure, Except.pure, Except.ok.injEq] at hreq
        obtain ⟨req', hdecode, _, -, _, -, rfl⟩ := hreq
        exact hdecode
      apply Keeps.locked
      · exact fun engine h => h
      · exact fun engine _ => .refl engine
      · intro engine h
        cases hdata : discloseFrom E engine req draw with
        | error err => exact keeps_fail fun hst => absurd hst (status_failed _ _ _)
        | ok data =>
          refine .done fun _ => ⟨req, hdecode, ?_⟩
          rw [buildResult_data]
          exact discloseFrom_ok h hdata
  | attest action df =>
    have hfail {err : String} (herr : err ≠ brokenRoot) :
        Answered E S (.attest action df) (buildResult action df [] statusError err) := by
      refine ⟨?_, fun hst => absurd hst (status_failed _ _ _)⟩
      intro hlog
      exact herr ((String.append_right_inj _).mp hlog)
    apply keeps_bump
    intro _ _
    cases hreq : attestRequest E df.originalMessage with
    | error err => exact keeps_fail (hfail (attestRequest_error hreq))
    | ok req =>
      have hdecode : E.decodeAttest df.originalMessage = .ok req := by
        simp only [attestRequest, bind_ok, mapError_ok, pure, Except.pure, Except.ok.injEq] at hreq
        obtain ⟨req', hdecode, _, -, rfl⟩ := hreq
        exact hdecode
      apply Keeps.locked
      · exact fun engine h => h
      · exact fun engine _ => .refl engine
      · intro engine h
        cases hdata : attestFrom E engine req with
        | error err => exact keeps_fail (hfail (attestFrom_error h hdata))
        | ok data =>
          refine .done ⟨?_, fun _ => ⟨req, hdecode, ?_⟩⟩
          · exact (by decide : "ok" ≠ "error: " ++ brokenRoot)
          · rw [buildResult_data]
            exact attestFrom_ok h hdata

end Serving

/-- Whatever the order of the critical sections, the map holds what its ciphertexts evaluate to, and
the three handlers answer from it alike. -/
theorem store_coherent (E : Enclave) (S : Set Bytes) (hS : Set.InjOn E.keccak S)
    (p : Pool Engine Request ActionResult)
    (h : Reaches (handler E) (Admitted S) (.start emptyEngine) p) :
    (∀ c round, p.shared.rounds c = some round → Recorded E S c round) ∧
    (∀ p', Step (handler E) (Admitted S) p p' → Refreshes p.shared p'.shared) ∧
    (∀ action df r, (.attest action df, r) ∈ p.finished → r.log ≠ "error: " ++ brokenRoot) ∧
    (∀ action df now r action' df' r' req, (.compute action df now, r) ∈ p.finished →
      (.attest action' df', r') ∈ p.finished → r.status = statusSuccess → r'.status = statusSuccess →
      E.decodeAttest df'.originalMessage = .ok req →
      req.policyCommitment = E.keccak df.originalMessage → r'.data = r.data) ∧
    ∀ action df draw r, (.disclose action df draw, r) ∈ p.finished → r.status = statusSuccess →
      ∃ req, E.decodeDisclose df.originalMessage = .ok req ∧ Disclosed E S req draw r.data := by
  have hnone : Computed E S (emptyEngine : Engine) := fun _ _ hc => nomatch hc
  have hsafe : Safe (Computed E S) Refreshes (Answered E S) p :=
    safe_of_reaches (handler_keeps hS) hnone h
  refine ⟨?_, ?_, ?_, ?_, ?_⟩
  · intro c round hround
    obtain ⟨message, hm, hc, now, hcomputed⟩ := hsafe.shared c round hround
    exact recorded_of_computeRound hm hc hcomputed
  · exact fun p' hstep => hsafe.moves Refreshes.refl hstep
  · exact fun action df r hr => (hsafe.finished _ hr).1
  · intro action df now r action' df' r' req hr hr' hst hst' hdecode hcommitment
    obtain ⟨hprocessed, time, round, hround, hdata⟩ := hsafe.finished _ hr hst
    obtain ⟨req', hdecode', message, hm, hc, time', round', hround', hdata'⟩ :=
      (hsafe.finished _ hr').2 hst'
    obtain rfl := Except.ok.inj (hdecode.symm.trans hdecode')
    obtain rfl : message = df.originalMessage := hS hm hprocessed (hc.trans hcommitment)
    have hundated := computeRound_undated hround' hround
    rw [hdata, hdata']
    exact encodeAllocationResult_undated hundated
  · exact fun action df draw r hr hst => hsafe.finished _ hr hst

section Sample

def storeRequest : Request := .compute ⟨99, []⟩ ⟨opTypeAlloc, opCommandCompute, [42]⟩ 5

def undecodableRequest : Request := .compute ⟨97, []⟩ ⟨opTypeAlloc, opCommandCompute, [41]⟩ 1

def repeatedRequest : Request := .compute ⟨98, []⟩ ⟨opTypeAlloc, opCommandCompute, [42]⟩ 9

def attestRequested : Request := .attest ⟨100, []⟩ attestData

def discloseData : DataFixed :=
  ⟨opTypeAlloc, opCommandDisclose,
    encodeDiscloseMessage sampleDeployment 0 4 (sampleDeployment.keccak [42]) (List.replicate 33 2)⟩

def discloseRequested : Request := .disclose ⟨101, []⟩ discloseData 0

/-- Two computations of one ciphertext overtake each other, next to one of a ciphertext that does not
decode, while the round is attested and the row of recipient 4 is disclosed. -/
def racingTurns : List (Turn Request) :=
  [.arrive undecodableRequest, .arrive repeatedRequest, .arrive storeRequest, .advance 1, .advance 0,
    .advance 2, .advance 0, .arrive discloseRequested, .arrive attestRequested, .advance 0, .advance 1,
    .advance 0, .advance 3, .advance 1, .advance 0, .advance 0, .advance 2, .advance 1, .advance 0,
    .advance 0]

def racedPool : Pool Engine Request ActionResult :=
  (Pool.start emptyEngine).play (handler sampleEnclave) racingTurns

theorem racedPool_reached :
    Reaches (handler sampleEnclave) (Admitted {b | b ∈ [[41], [42]]}) (.start emptyEngine) racedPool := by
  apply reaches_play
  simp [racingTurns, Turn.Admitted, Admitted, undecodableRequest, repeatedRequest, storeRequest,
    attestRequested, discloseRequested]

theorem racedPool_served {q : Request}
    (h : q ∈ [storeRequest, repeatedRequest, discloseRequested, attestRequested]) :
    ∃ r, (q, r) ∈ racedPool.finished ∧ r.status = statusSuccess := by
  have hserved : racedPool.finished.map (fun t => (t.1, t.2.status)) =
      [(undecodableRequest, statusError), (storeRequest, statusSuccess), (repeatedRequest, statusSuccess),
        (discloseRequested, statusSuccess), (attestRequested, statusSuccess)] := by
    decide +kernel
  have hmem : (q, statusSuccess) ∈ racedPool.finished.map (fun t => (t.1, t.2.status)) := by
    rw [hserved, List.mem_cons]
    exact .inr (by simpa using h)
  obtain ⟨⟨q', r⟩, hr, heq⟩ := List.mem_map.mp hmem
  obtain ⟨rfl, hstatus⟩ := Prod.mk.inj heq
  exact ⟨r, hr, hstatus⟩

theorem store_coherent_sample :
    (∀ c round, racedPool.shared.rounds c = some round →
      Recorded sampleEnclave {b | b ∈ [[41], [42]]} c round) ∧
    (∃ r r' attested, (storeRequest, r) ∈ racedPool.finished ∧ (repeatedRequest, r') ∈ racedPool.finished ∧
      (attestRequested, attested) ∈ racedPool.finished ∧ attested.data = r.data ∧ attested.data = r'.data) ∧
    ∃ disclosed, (discloseRequested, disclosed) ∈ racedPool.finished ∧
      ∃ req, sampleEnclave.decodeDisclose discloseData.originalMessage = .ok req ∧
        Disclosed sampleEnclave {b | b ∈ [[41], [42]]} req 0 disclosed.data := by
  have hk : Set.InjOn sampleEnclave.keccak {b | b ∈ [[41], [42]]} := by
    apply injOn_hashed
    decide
  obtain ⟨hrecorded, -, -, hattest, hdisclose⟩ := store_coherent sampleEnclave _ hk racedPool racedPool_reached
  obtain ⟨r, hr, hst⟩ := racedPool_served (q := storeRequest) (by simp)
  obtain ⟨r', hr', hst'⟩ := racedPool_served (q := repeatedRequest) (by simp)
  obtain ⟨attested, ha, hsta⟩ := racedPool_served (q := attestRequested) (by simp)
  obtain ⟨disclosed, hd, hstd⟩ := racedPool_served (q := discloseRequested) (by simp)
  obtain ⟨req, hreq⟩ : ∃ req, sampleEnclave.decodeAttest attestData.originalMessage = .ok req := ⟨_, rfl⟩
  have hcommitment : req.policyCommitment = sampleEnclave.keccak [42] := by
    obtain rfl := Except.ok.inj hreq
    decide
  refine ⟨hrecorded, ⟨r, r', attested, hr, hr', ha, ?_, ?_⟩, disclosed, hd, ?_⟩
  · exact hattest _ _ _ _ _ _ _ req hr ha hst hsta hreq hcommitment
  · exact hattest _ _ _ _ _ _ _ req hr' ha hst' hsta hreq hcommitment
  · exact hdisclose _ _ _ _ hd hstd

end Sample

end Fidensur
