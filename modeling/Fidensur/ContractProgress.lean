import Fidensur.ContractMachine

set_option autoImplicit false

namespace Fidensur

open NestedCalls ByteWords

variable {D : Deployment} {msg : Msg} {s s' : Storage} {call : Call} {w : World}

section Calls

theorem finalizeRound_ok {resultData submissionTag signature : Bytes} {actionId : Bytes32}
    {res : AllocationResult} (htee : s.teeAddress ≠ 0)
    (hsig : TeeResultVerifier.recoverSigner D resultData actionId submissionTag
      TeeResultVerifier.statusSuccess signature = .ok s.teeAddress)
    (hd : AllocationResult.decode resultData = some res) (hself : res.contractAddr = D.self)
    (hst : (s.rounds res.roundId).status = .computing)
    (hid : actionId = (s.rounds res.roundId).computeInstructionId)
    (hp : res.policyCommitment = (s.rounds res.roundId).policyCommitment)
    (hroot : res.merkleRoot ≠ 0) (hn : res.recipientCount ≠ 0)
    (htotal : (res.totalAllocated : ℕ) ≤ (s.rounds res.roundId).funded)
    (hdeadline : blockTimestamp48 msg + (s.rounds res.roundId).claimWindow < 2 ^ 48) :
    finalizeRound D msg resultData actionId submissionTag TeeResultVerifier.statusSuccess signature s =
      .ok (s.setRound res.roundId { s.rounds res.roundId with
        merkleRoot := res.merkleRoot
        totalAllocated := res.totalAllocated
        recipientCount := res.recipientCount
        engineVersion := res.engineVersion
        claimDeadline := blockTimestamp48 msg + (s.rounds res.roundId).claimWindow
        status := .finalized }, none) := by
  simp only [finalizeRound, bind_ok, require_ok, TeeResultVerifier.requireValid_ok, exists_const]
  refine ⟨htee, ⟨trivial, hsig⟩, ?_⟩
  rw [hd]
  simp only [applyAllocationResult, bind_ok, requireRound_ok, require_ok, exists_const, pure,
    Except.pure]
  exact ⟨hself, _, ⟨by simp [hst], rfl⟩, hst, hid, hp, hroot, hn, htotal, hdeadline, rfl⟩

theorem requestCompute_ok {roundId : Uint256} {ciphertext : Bytes}
    (ho : msg.sender = (s.rounds roundId).organization) (hne : ciphertext ≠ [])
    (hst : (s.rounds roundId).status = .computing)
    (hclock : (s.rounds roundId).computeRequestedAt + computeRetryTimeout < 2 ^ 48)
    (hlate : (s.rounds roundId).computeRequestedAt + computeRetryTimeout ≤ blockTimestamp48 msg)
    (hp : D.keccak ciphertext = (s.rounds roundId).policyCommitment) (hext : s.extensionId ≠ 0)
    (htees : msg.registry.randomTeeIds ≠ []) :
    requestCompute D msg roundId ciphertext s =
      .ok (s, some (send msg opCommandCompute ciphertext msg.registry.randomTeeIds)) := by
  simp only [requestCompute, bind_ok, requireRound_ok, require_ok, requireDispatchable_ok, pickTee_ok,
    exists_const, pure, Except.pure]
  exact ⟨_, ⟨by simp [hst], rfl⟩, ho, hne, .inr ⟨hst, hclock, hlate⟩, hp, _, ⟨hext, htees, rfl⟩, rfl⟩

theorem setExtensionId_ok {sender : Address} {value timestamp : ℕ} {teeIds : List Address}
    (h : s.extensionId = 0) :
    setExtensionId D ⟨sender, value, timestamp, ⟨firstPublicExtensionId + 1, fun _ => D.self, teeIds⟩⟩ s =
      .ok ({ s with extensionId := firstPublicExtensionId }, none) := by
  simp only [setExtensionId, bind_ok, require_ok, exists_const, Nat.add_sub_cancel_left, findExtension,
    if_true]
  exact ⟨h, rfl⟩

theorem claim_ok {roundId index amount : Uint256} {proof : List Bytes32} (hg : s.entered = false)
    (hst : (s.rounds roundId).status = .finalized)
    (ht : blockTimestamp48 msg ≤ (s.rounds roundId).claimDeadline)
    (hb : isClaimed s roundId index = false)
    (hp : AllocationMerkle.verify D.keccak (s.rounds roundId).merkleRoot roundId index msg.sender amount
      proof = true)
    (hc : (s.rounds roundId).totalClaimed + amount < 2 ^ 256)
    (ho : amount ≤ s.outstanding (s.rounds roundId).token) :
    claim D msg roundId index amount proof s =
      .ok ({ s.claimPaid roundId index amount with
        entered := (SafeTransfer.payOut (s.rounds roundId).token msg.sender amount).isSome },
        SafeTransfer.payOut (s.rounds roundId).token msg.sender amount) := by
  refine nonReentrant_ok.mpr ⟨hg, { s.claimPaid roundId index amount with entered := true }, ?_, rfl⟩
  simp only [bind_ok, requireRound_ok, require_ok, exists_const, pure, Except.pure]
  exact ⟨_, ⟨by simp [hst], rfl⟩, hst, ht, hb, hp, hc, ho, rfl⟩

theorem closeRound_ok {roundId : Uint256} (hg : s.entered = false)
    (hst : (s.rounds roundId).status = .finalized)
    (ht : (s.rounds roundId).claimDeadline < blockTimestamp48 msg)
    (hw : (s.rounds roundId).swept = false)
    (hf : (s.rounds roundId).totalClaimed ≤ (s.rounds roundId).funded)
    (ho : (s.rounds roundId).funded - (s.rounds roundId).totalClaimed ≤
      s.outstanding (s.rounds roundId).token) :
    closeRound msg roundId s =
      .ok ({ s.wound roundId .closed ((s.rounds roundId).funded - (s.rounds roundId).totalClaimed) with
        entered := (SafeTransfer.payOut (s.rounds roundId).token (s.rounds roundId).organization
          ((s.rounds roundId).funded - (s.rounds roundId).totalClaimed)).isSome },
        SafeTransfer.payOut (s.rounds roundId).token (s.rounds roundId).organization
          ((s.rounds roundId).funded - (s.rounds roundId).totalClaimed)) := by
  refine nonReentrant_ok.mpr ⟨hg, { s.wound roundId .closed
    ((s.rounds roundId).funded - (s.rounds roundId).totalClaimed) with entered := true }, ?_, rfl⟩
  simp only [bind_ok, requireRound_ok, require_ok, exists_const, pure, Except.pure]
  exact ⟨_, ⟨by simp [hst], rfl⟩, hst, ht, hw, hf, ho, rfl⟩

theorem cancelRound_ok {roundId : Uint256} (hg : s.entered = false)
    (hst : (s.rounds roundId).status = .opened ∨ (s.rounds roundId).status = .committed)
    (hsender : msg.sender = (s.rounds roundId).organization)
    (ho : (s.rounds roundId).funded ≤ s.outstanding (s.rounds roundId).token) :
    cancelRound msg roundId s =
      .ok ({ s.wound roundId .cancelled (s.rounds roundId).funded with
        entered := (SafeTransfer.payOut (s.rounds roundId).token (s.rounds roundId).organization
          (s.rounds roundId).funded).isSome },
        SafeTransfer.payOut (s.rounds roundId).token (s.rounds roundId).organization
          (s.rounds roundId).funded) := by
  have hne : (s.rounds roundId).status ≠ .none := by rcases hst with hst | hst <;> simp [hst]
  refine nonReentrant_ok.mpr ⟨hg, { s.wound roundId .cancelled (s.rounds roundId).funded with
    entered := true }, ?_, rfl⟩
  simp only [bind_ok, requireRound_ok, require_ok, exists_const, pure, Except.pure]
  exact ⟨_, ⟨hne, rfl⟩, hst, hsender, ho, rfl⟩

theorem createRound_ok {token : Address} (hnext : s.nextRoundId + 1 < 2 ^ 256) :
    createRound msg token 3600 s = .ok ({ s with nextRoundId := s.nextRoundId + 1 }.setRound s.nextRoundId
      { s.rounds s.nextRoundId with
        organization := msg.sender, status := .opened, token := token, claimWindow := (3600 : Uint48) }, none) := by
  have hwindow : minClaimWindow ≤ (3600 : Uint48) ∧ ((3600 : Uint48) : ℕ) ≤ maxClaimWindow := by decide
  simp only [createRound, require, if_pos hwindow, if_pos hnext, bind, Except.bind, pure, Except.pure]

theorem fund_native_ok {roundId amount : Uint256} (hg : s.entered = false)
    (hst : (s.rounds roundId).status = .opened) (ha : amount ≠ 0) (ht : (s.rounds roundId).token = 0)
    (hv : msg.value = amount) (hf : (s.rounds roundId).funded + amount < 2 ^ 256)
    (ho : s.outstanding (s.rounds roundId).token + amount < 2 ^ 256) :
    fund msg roundId amount s = .ok ({ s.credited roundId amount with entered := false }, none) := by
  refine nonReentrant_ok.mpr ⟨hg, { s.credited roundId amount with entered := true }, ?_, rfl⟩
  simp only [bind_ok, requireRound_ok, require_ok, exists_const]
  refine ⟨_, ⟨by simp [hst], rfl⟩, hst, ha, ?_⟩
  have hcollect : SafeTransfer.collect (s.rounds roundId).token msg.sender amount msg.value = .ok none := by
    rw [SafeTransfer.collect, if_pos ht, hv]
    simp [require, bind, Except.bind, pure, Except.pure]
  refine ⟨none, hcollect, ?_⟩
  simp only [bind_ok, creditRound_ok, pure, Except.pure]
  exact ⟨_, ⟨hf, ho, rfl⟩, rfl⟩

theorem fund_token_ok {roundId amount : Uint256} (hg : s.entered = false)
    (hst : (s.rounds roundId).status = .opened) (ha : amount ≠ 0) (ht : (s.rounds roundId).token ≠ 0)
    (hv : msg.value = 0) :
    fund msg roundId amount s = .ok ({ s with entered := true },
      some (.transferFrom (s.rounds roundId).token msg.sender amount)) := by
  refine nonReentrant_ok.mpr ⟨hg, { s with entered := true }, ?_, rfl⟩
  simp only [bind_ok, requireRound_ok, require_ok, exists_const]
  refine ⟨_, ⟨by simp [hst], rfl⟩, hst, ha, ?_⟩
  have hcollect : SafeTransfer.collect (s.rounds roundId).token msg.sender amount msg.value =
      .ok (some (.transferFrom (s.rounds roundId).token msg.sender amount)) := by
    rw [SafeTransfer.collect, if_neg ht, hv]
    simp [require, bind, Except.bind, pure, Except.pure]
  exact ⟨_, hcollect, rfl⟩

end Calls

section Steps

variable {ok : ContractConfig → Act → Prop}

theorem next_done (ht : msg.timestamp = w.now) (hself : msg.sender ≠ D.self)
    (h : start D msg (msg.received w.balance) w.storage call = .ok (s, none)) :
    (machine D).next (.call msg call) ⟨w, []⟩ =
      some ⟨w.record msg call (.started none) s (msg.received w.balance), []⟩ := by
  simp [System.next, machine, ht, hself, h, Effect.apply]

theorem reaches_done (hok : ok ⟨w, []⟩ (.call msg call)) (ht : msg.timestamp = w.now)
    (hself : msg.sender ≠ D.self)
    (h : start D msg (msg.received w.balance) w.storage call = .ok (s, none)) :
    Reaches (machine D) ok ⟨w, []⟩
      ⟨w.record msg call (.started none) s (msg.received w.balance), []⟩ :=
  Reaches.refl.tail hok (next_done ht hself h)

theorem reaches_tick (seconds : ℕ) (hok : ok ⟨w, []⟩ (.tick seconds)) :
    Reaches (machine D) ok ⟨w, []⟩ ⟨{ w with now := w.now + seconds }, []⟩ :=
  Reaches.refl.tail hok rfl

theorem exists_tick (t : ℕ) {n : ℕ} (h : t < n) (now : ℕ) : ∃ seconds, (now + seconds) % n = t := by
  refine ⟨t + n * (now + 1) - now, ?_⟩
  have hle : now ≤ n * (now + 1) := (Nat.le_succ now).trans (Nat.le_mul_of_pos_left _ (by omega))
  rw [show now + (t + n * (now + 1) - now) = t + n * (now + 1) by omega, Nat.add_mul_mod_self_left,
    Nat.mod_eq_of_lt h]

variable (ok) in
theorem reaches_payout {token recipient : Address} {amount : ℕ} (hcall : call.paysOut = true)
    (hok : ok ⟨w, []⟩ (.call msg call)) (hsettle : ∀ c, ok c .settle)
    (hreply : ∀ c f, c.stack = [f] → f.info.call = call → f.info.settled = true →
      ok c (.reply (.returned true [])))
    (ht : msg.timestamp = w.now) (hself : msg.sender ≠ D.self) (ha : amount ≠ 0)
    (hb : amount ≤ msg.received w.balance token)
    (h : start D msg (msg.received w.balance) w.storage call =
      .ok (s, SafeTransfer.payOut token recipient amount)) :
    ∃ w' later, Reaches (machine D) ok ⟨w, []⟩ ⟨w', []⟩ ∧ w'.storage = { s with entered := false } ∧
      w'.now = w.now ∧
      w'.log = later ++ ⟨msg, call, .started (SafeTransfer.payOut token recipient amount), s⟩ :: w.log ∧
      ∀ e ∈ later, ∀ y, e.phase ≠ .started y := by
  have hfinish (x : Interaction) (hx : x.accept (.returned true []) = .ok 0) :
      finish msg s x (.returned true []) call = .ok { s with entered := false } := by
    cases call <;> first | (rw [finish, hx]; rfl) | cases hcall
  rw [SafeTransfer.payOut, if_neg ha] at h ⊢
  by_cases htoken : token = 0
  · subst htoken
    rw [if_pos rfl] at h ⊢
    have hdepart : ∃ b, (Interaction.sendNative recipient amount).depart D.self
        (msg.received w.balance) = some b := ⟨_, if_pos hb⟩
    obtain ⟨b, hdepart⟩ := hdepart
    let w₁ := w.record msg call (.started (some (.sendNative recipient amount))) s b
    have hstart : (machine D).next (.call msg call) ⟨w, []⟩ =
        some ⟨w₁, [⟨w, ⟨msg, call, .sendNative recipient amount, true⟩⟩]⟩ := by
      simp [System.next, machine, ht, hself, h, hdepart, Effect.apply, Interaction.movesAtOnce, w₁]
    have hdone : (machine D).next (.reply (.returned true []))
        ⟨w₁, [⟨w, ⟨msg, call, .sendNative recipient amount, true⟩⟩]⟩ =
        some ⟨w₁.record msg call (.finished (.returned true [])) { s with entered := false } b, []⟩ := by
      simp [System.next, machine, World.record, hfinish (.sendNative recipient amount) rfl, Effect.apply, w₁]
    refine ⟨_, [⟨msg, call, .finished (.returned true []), _⟩],
      (Reaches.refl.tail hok hstart).tail (hreply _ _ rfl rfl rfl) hdone, rfl, rfl, rfl, ?_⟩
    simp
  · rw [if_neg htoken] at h ⊢
    have hsettled : ∃ b, (Interaction.transfer token recipient amount).settle D.self
        (msg.received w.balance) = some b := ⟨_, if_pos hb⟩
    obtain ⟨b, hsettled⟩ := hsettled
    let w₁ := w.record msg call (.started (some (.transfer token recipient amount))) s
      (msg.received w.balance)
    let w₂ := w₁.record msg call (.settled (.transfer token recipient amount)) s b
    have hstart : (machine D).next (.call msg call) ⟨w, []⟩ =
        some ⟨w₁, [⟨w, ⟨msg, call, .transfer token recipient amount, false⟩⟩]⟩ := by
      simp [System.next, machine, ht, hself, h, Interaction.depart, Effect.apply,
        Interaction.movesAtOnce, w₁]
    have hmove : (machine D).next .settle
        ⟨w₁, [⟨w, ⟨msg, call, .transfer token recipient amount, false⟩⟩]⟩ =
        some ⟨w₂, [⟨w, ⟨msg, call, .transfer token recipient amount, true⟩⟩]⟩ := by
      simp [System.next, machine, World.record, hsettled, Effect.apply, w₁, w₂]
    have hdone : (machine D).next (.reply (.returned true []))
        ⟨w₂, [⟨w, ⟨msg, call, .transfer token recipient amount, true⟩⟩]⟩ =
        some ⟨w₂.record msg call (.finished (.returned true [])) { s with entered := false } b, []⟩ := by
      simp [System.next, machine, World.record, hfinish (.transfer token recipient amount) rfl,
        Effect.apply, w₁, w₂]
    refine ⟨_, [⟨msg, call, .finished (.returned true []), _⟩, ⟨msg, call, .settled _, _⟩],
      ((Reaches.refl.tail hok hstart).tail (hsettle _) hmove).tail (hreply _ _ rfl rfl rfl) hdone,
      rfl, rfl, rfl, ?_⟩
    simp

variable (ok) in
theorem reaches_created (w : World) (token : Address) {sender : Address}
    (hok : ∀ msg, ok ⟨w, []⟩ (.call msg (.createRound token 3600))) (hsender : sender ≠ D.self)
    (hnext : w.storage.nextRoundId + 1 < 2 ^ 256) :
    ∃ w', Reaches (machine D) ok ⟨w, []⟩ ⟨w', []⟩ ∧ w'.storage.entered = w.storage.entered ∧
      w'.storage.outstanding = w.storage.outstanding ∧
      w'.storage.rounds = Function.update w.storage.rounds w.storage.nextRoundId
        { w.storage.rounds w.storage.nextRoundId with
          organization := sender, status := .opened, token := token, claimWindow := (3600 : Uint48) } := by
  let msg : Msg := ⟨sender, 0, w.now, ⟨0, fun _ => 0, []⟩⟩
  have hstart : start D msg (msg.received w.balance) w.storage (.createRound token 3600) = _ :=
    bind_ok.mpr ⟨(), require_ok.mpr (.inr rfl), createRound_ok hnext⟩
  exact ⟨_, reaches_done (hok msg) rfl hsender hstart, rfl, rfl, rfl⟩

variable (ok) in
theorem reaches_funded (w : World) (roundId amount : Uint256) {sender : Address}
    (hok : ∀ msg, ok ⟨w, []⟩ (.call msg (.fund roundId amount))) (hsettle : ∀ c, ok c .settle)
    (hreply : ∀ c f, c.stack = [f] → f.info.settled = true → ok c (.reply (.returned true [])))
    (hsender : sender ≠ D.self) (hg : w.storage.entered = false)
    (hst : (w.storage.rounds roundId).status = .opened) (ha : amount ≠ 0)
    (hf : (w.storage.rounds roundId).funded + amount < 2 ^ 256)
    (ho : w.storage.outstanding (w.storage.rounds roundId).token + amount < 2 ^ 256) :
    ∃ w', Reaches (machine D) ok ⟨w, []⟩ ⟨w', []⟩ ∧
      w'.storage = { w.storage.credited roundId amount with entered := false } := by
  by_cases ht : (w.storage.rounds roundId).token = 0
  · let msg : Msg := ⟨sender, amount, w.now, ⟨0, fun _ => 0, []⟩⟩
    have hstart : start D msg (msg.received w.balance) w.storage (.fund roundId amount) = _ :=
      bind_ok.mpr ⟨(), require_ok.mpr (.inl rfl), fund_native_ok hg hst ha ht rfl hf ho⟩
    exact ⟨_, reaches_done (hok msg) rfl hsender hstart, rfl⟩
  · let msg : Msg := ⟨sender, 0, w.now, ⟨0, fun _ => 0, []⟩⟩
    let x : Interaction := .transferFrom (w.storage.rounds roundId).token sender amount
    have hstart : start D msg (msg.received w.balance) w.storage (.fund roundId amount) = _ :=
      bind_ok.mpr ⟨(), require_ok.mpr (.inl rfl), fund_token_ok hg hst ha ht rfl⟩
    let pending : PendingCall := ⟨msg, .fund roundId amount, x, false⟩
    let s₁ : Storage := { w.storage with entered := true }
    let w₁ := w.record msg pending.call (.started (some x)) s₁ (msg.received w.balance)
    have hsettled : ∃ b, x.settle D.self (msg.received w.balance) = some b := ⟨_, rfl⟩
    obtain ⟨b, hsettled⟩ := hsettled
    let w₂ := w₁.record msg pending.call (.settled x) s₁ b
    have hcall : (machine D).next (.call msg (.fund roundId amount)) ⟨w, []⟩ = some ⟨w₁, [⟨w, pending⟩]⟩ := by
      simp [System.next, machine, hsender, hstart, Interaction.depart, Effect.apply, Interaction.movesAtOnce,
        w₁, s₁, pending, x, msg]
    have hmove : (machine D).next .settle ⟨w₁, [⟨w, pending⟩]⟩ =
        some ⟨w₂, [⟨w, { pending with settled := true }⟩]⟩ := by
      simp [System.next, machine, World.record, hsettled, Effect.apply, w₁, w₂, pending]
    have hcredit : creditRound roundId amount s₁ = .ok (s₁.credited roundId amount) :=
      creditRound_ok.mpr ⟨hf, ho, rfl⟩
    have hfinish : finish msg s₁ x (.returned true []) (.fund roundId amount) =
        .ok { w.storage.credited roundId amount with entered := false } := by
      simp only [finish, Interaction.accept, SafeTransfer.succeeded, require, hcredit, bind, Except.bind, pure,
        Except.pure, x]
      rfl
    have hdone : (machine D).next (.reply (.returned true [])) ⟨w₂, [⟨w, { pending with settled := true }⟩]⟩ =
        some ⟨w₂.record msg pending.call (.finished (.returned true []))
          { w.storage.credited roundId amount with entered := false } b, []⟩ := by
      simp [System.next, machine, World.record, hfinish, Effect.apply, w₁, w₂, pending]
    exact ⟨_, ((Reaches.refl.tail (hok msg) hcall).tail (hsettle _) hmove).tail (hreply _ _ rfl rfl) hdone, rfl⟩

variable (ok) in
theorem reaches_dispatch {roundId : Uint256} {ciphertext : Bytes} {teeIds : List Address}
    {params : TeeInstructionParams} (id : Bytes32)
    (hok : ok ⟨w, []⟩ (.call msg (.requestCompute roundId ciphertext)))
    (hreply : ∀ c f, c.stack = [f] → f.info.call = .requestCompute roundId ciphertext →
      f.info.settled = true → c.world.storage = s → ok c (.reply (.instruction id)))
    (ht : msg.timestamp = w.now) (hself : msg.sender ≠ D.self)
    (h : start D msg (msg.received w.balance) w.storage (.requestCompute roundId ciphertext) =
      .ok (s, some (.sendInstructions teeIds params msg.value))) :
    ∃ w', Reaches (machine D) ok ⟨w, []⟩ ⟨w', []⟩ ∧ w'.storage = recordDispatch msg roundId id s ∧
      w'.now = w.now ∧ ∃ e ∈ w'.log, e.call = .requestCompute roundId ciphertext ∧
        e.phase = .finished (.instruction id) := by
  have hvalue : msg.value ≤ msg.received w.balance 0 := by
    rw [Msg.received, Function.update_self]
    exact Nat.le_add_left _ _
  have hdepart : ∃ b, (Interaction.sendInstructions teeIds params msg.value).depart D.self
      (msg.received w.balance) = some b := ⟨_, if_pos hvalue⟩
  obtain ⟨b, hdepart⟩ := hdepart
  let pending : PendingCall :=
    ⟨msg, .requestCompute roundId ciphertext, .sendInstructions teeIds params msg.value, true⟩
  let w₁ := w.record msg pending.call (.started (some pending.interaction)) s b
  have hstart : (machine D).next (.call msg (.requestCompute roundId ciphertext)) ⟨w, []⟩ =
      some ⟨w₁, [⟨w, pending⟩]⟩ := by
    simp [System.next, machine, ht, hself, h, hdepart, Effect.apply, Interaction.movesAtOnce, w₁, pending]
  have hdone : (machine D).next (.reply (.instruction id)) ⟨w₁, [⟨w, pending⟩]⟩ =
      some ⟨w₁.record msg pending.call (.finished (.instruction id)) (recordDispatch msg roundId id s) b,
        []⟩ := by
    simp [System.next, machine, World.record, finish, Interaction.accept, bind, Except.bind, pure,
      Except.pure, Effect.apply, w₁, pending]
  exact ⟨_, (Reaches.refl.tail hok hstart).tail (hreply _ _ rfl rfl rfl rfl) hdone, rfl, rfl, _,
    List.mem_cons_self, rfl, rfl⟩

variable (ok) in
theorem reaches_finalized {resultData submissionTag signature : Bytes} {actionId : Bytes32}
    {res : AllocationResult} {sender : Address}
    (hok : ∀ msg w', w'.storage = w.storage → w'.log = w.log → ok ⟨w', []⟩ (.call msg
      (.finalizeRound resultData actionId submissionTag TeeResultVerifier.statusSuccess signature)))
    (htick : ∀ seconds, ok ⟨w, []⟩ (.tick seconds)) (hsender : sender ≠ D.self)
    (htee : w.storage.teeAddress ≠ 0)
    (hsig : TeeResultVerifier.recoverSigner D resultData actionId submissionTag
      TeeResultVerifier.statusSuccess signature = .ok w.storage.teeAddress)
    (hd : AllocationResult.decode resultData = some res) (hself : res.contractAddr = D.self)
    (hst : (w.storage.rounds res.roundId).status = .computing)
    (hid : actionId = (w.storage.rounds res.roundId).computeInstructionId)
    (hp : res.policyCommitment = (w.storage.rounds res.roundId).policyCommitment)
    (hroot : res.merkleRoot ≠ 0) (hn : res.recipientCount ≠ 0)
    (htotal : (res.totalAllocated : ℕ) ≤ (w.storage.rounds res.roundId).funded)
    (hwindow : (w.storage.rounds res.roundId).claimWindow < 2 ^ 48) :
    ∃ w', Reaches (machine D) ok ⟨w, []⟩ ⟨w', []⟩ ∧ w'.storage.nextRoundId = w.storage.nextRoundId ∧
      w'.storage.rounds res.roundId = { w.storage.rounds res.roundId with
        merkleRoot := res.merkleRoot
        totalAllocated := res.totalAllocated
        recipientCount := res.recipientCount
        engineVersion := res.engineVersion
        claimDeadline := (w.storage.rounds res.roundId).claimWindow
        status := .finalized } := by
  obtain ⟨seconds, htime⟩ := exists_tick 0 (n := 2 ^ 48) (by norm_num) w.now
  let w₁ : World := { w with now := w.now + seconds }
  let msg : Msg := ⟨sender, 0, w₁.now, ⟨0, fun _ => 0, []⟩⟩
  have hzero : blockTimestamp48 msg = 0 := htime
  have hdeadline : blockTimestamp48 msg + (w.storage.rounds res.roundId).claimWindow < 2 ^ 48 := by
    rw [hzero, Nat.zero_add]
    exact hwindow
  have hfinal := finalizeRound_ok htee hsig hd hself hst hid hp hroot hn htotal hdeadline
  rw [hzero, Nat.zero_add] at hfinal
  have hstart : start D msg (msg.received w₁.balance) w₁.storage (.finalizeRound resultData actionId
      submissionTag TeeResultVerifier.statusSuccess signature) = _ :=
    bind_ok.mpr ⟨(), require_ok.mpr (.inr rfl), hfinal⟩
  refine ⟨_, (reaches_tick seconds (htick seconds)).trans
    (reaches_done (hok msg w₁ rfl rfl) rfl hsender hstart), rfl, ?_⟩
  simp [World.record]

end Steps

end Fidensur
