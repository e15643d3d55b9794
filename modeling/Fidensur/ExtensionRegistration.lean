import Fidensur.AllocationPolicy
import Fidensur.Solvency
import Fidensur.HexText

set_option autoImplicit false

/-!
Runs of the registration tool for one contract. The chain moves on while they scan, wait and write,
and a run may end at any point while its transaction stays pending.
-/

namespace Fidensur.ExtensionRegistration

open ByteWords DigitText HexText

def bigBytes (n : ℕ) : Bytes := ofNat ((n.size + 7) / 8) n

def leftPadBytes (b : Bytes) (l : ℕ) : Bytes := List.replicate (l - b.length) 0 ++ b

def extensionIDHex (extensionID : ℕ) : Text := ofBytes (leftPadBytes (bigBytes extensionID) 32)

/-- The assignments of the file the rest of the pipeline reads. -/
structure EnvFile where
  extensionId : Text
  instructionSender : Text
  fidensurContract : Text
  deriving DecidableEq

variable (D : Deployment)

def writeEnv (extensionID : ℕ) : EnvFile :=
  ⟨extensionIDHex extensionID, (checksumHex D.keccak D.self).toList, (checksumHex D.keccak D.self).toList⟩

inductive Progress
  | idle
  | scanning (next i : ℕ)
  | registering
  | waiting
  | allowing (extensionID : ℕ)
  | writing (extensionID : ℕ)
  | completed (env : EnvFile)
  | stopped
  deriving DecidableEq

inductive Transaction
  | unsent
  | pending
  | landed (extensionId : ℕ)
  | reverted
  deriving DecidableEq

/-- The registry's senders in the order of their ids, the contract, and the runs of the tool. -/
structure World where
  senders : List Address
  storage : Storage
  progress : ℕ → Progress
  transaction : ℕ → Transaction

def World.initial (owner : Address) : World := ⟨[], .deployed owner, fun _ => .idle, fun _ => .unsent⟩

namespace World

variable (w : World)

def nextPublicExtensionId : ℕ := firstPublicExtensionId + w.senders.length

def instructionsSender (i : ℕ) : Address :=
  if i < firstPublicExtensionId then 0 else w.senders.getD (i - firstPublicExtensionId) 0

def setProgress (run : ℕ) (p : Progress) : World := { w with progress := Function.update w.progress run p }

def setTransaction (run : ℕ) (t : Transaction) : World :=
  { w with transaction := Function.update w.transaction run t }

def register (sender : Address) : World := { w with senders := w.senders ++ [sender] }

section

variable (run : ℕ) (p : Progress) (t : Transaction) (sender : Address)

@[simp] theorem setProgress_senders : (w.setProgress run p).senders = w.senders := rfl

@[simp] theorem setProgress_storage : (w.setProgress run p).storage = w.storage := rfl

@[simp] theorem setProgress_progress :
    (w.setProgress run p).progress = Function.update w.progress run p := rfl

@[simp] theorem setProgress_transaction : (w.setProgress run p).transaction = w.transaction := rfl

@[simp] theorem setTransaction_senders : (w.setTransaction run t).senders = w.senders := rfl

@[simp] theorem setTransaction_storage : (w.setTransaction run t).storage = w.storage := rfl

@[simp] theorem setTransaction_progress : (w.setTransaction run t).progress = w.progress := rfl

@[simp] theorem setTransaction_transaction :
    (w.setTransaction run t).transaction = Function.update w.transaction run t := rfl

@[simp] theorem register_senders : (w.register sender).senders = w.senders ++ [sender] := rfl

@[simp] theorem register_storage : (w.register sender).storage = w.storage := rfl

@[simp] theorem register_progress : (w.register sender).progress = w.progress := rfl

@[simp] theorem register_transaction : (w.register sender).transaction = w.transaction := rfl

end

def message (msg : Msg) : Msg :=
  { msg with registry := ⟨w.nextPublicExtensionId, w.instructionsSender, msg.registry.randomTeeIds⟩ }

end World

def scanned (w : World) (next i : ℕ) : Progress :=
  if i < next then
    if w.instructionsSender i = D.self then .allowing i else .scanning next (i + 1)
  else .registering

def confirmed (extensionId : ℕ) : Progress := if extensionId = 0 then .stopped else .allowing extensionId

/-- A failed request, a timeout and a killed process all stop a run. -/
inductive Action
  | start (run : ℕ)
  | scan (run : ℕ)
  | send (run : ℕ)
  | land (run : ℕ)
  | revert (run : ℕ)
  | confirm (run : ℕ)
  | allow (run : ℕ)
  | write (run : ℕ)
  | stop (run : ℕ)
  | register (sender : Address)
  | setExtensionId (msg : Msg)

def step (w : World) : Action → Option World
  | .start run =>
    match w.progress run with
    | .idle => some (w.setProgress run (.scanning w.nextPublicExtensionId firstPublicExtensionId))
    | _ => none
  | .scan run =>
    match w.progress run with
    | .scanning next i => some (w.setProgress run (scanned D w next i))
    | _ => none
  | .send run =>
    match w.progress run with
    | .registering => some ((w.setProgress run .waiting).setTransaction run .pending)
    | _ => none
  | .land run =>
    match w.transaction run with
    | .pending => some ((w.register D.self).setTransaction run (.landed w.nextPublicExtensionId))
    | _ => none
  | .revert run =>
    match w.transaction run with
    | .pending => some (w.setTransaction run .reverted)
    | _ => none
  | .confirm run =>
    match w.progress run, w.transaction run with
    | .waiting, .landed id => some (w.setProgress run (confirmed id))
    | .waiting, .reverted => some (w.setProgress run .stopped)
    | _, _ => none
  | .allow run =>
    match w.progress run with
    | .allowing id => some (w.setProgress run (.writing id))
    | _ => none
  | .write run =>
    match w.progress run with
    | .writing id => some (w.setProgress run (.completed (writeEnv D id)))
    | _ => none
  | .stop run =>
    match w.progress run with
    | .completed _ => none
    | _ => some (w.setProgress run .stopped)
  | .register sender => some (w.register sender)
  | .setExtensionId msg =>
    match setExtensionId D (w.message msg) w.storage with
    | .ok (s, _) => some { w with storage := s }
    | .error _ => none

def execute : World → List Action → Option World := List.foldlM (step D)

section Text

theorem value_replicate_zero_append (k : ℕ) (b : Bytes) :
    ByteWords.value (List.replicate k 0 ++ b) = ByteWords.value b := by
  induction k with
  | zero => rfl
  | succ k ih => exact ih

theorem value_leftPadBytes_bigBytes (n l : ℕ) : ByteWords.value (leftPadBytes (bigBytes n) l) = n := by
  rw [leftPadBytes, value_replicate_zero_append, bigBytes, value_ofNat]
  apply Nat.mod_eq_of_lt
  calc
    n < 2 ^ n.size := Nat.lt_size_self n
    _ ≤ 2 ^ (8 * ((n.size + 7) / 8)) := Nat.pow_le_pow_right (by decide) (by omega)
    _ = 256 ^ ((n.size + 7) / 8) := by norm_num [pow_mul]

theorem extensionIDHex_injective : Function.Injective extensionIDHex := by
  intro n n' h
  have hbytes := congrArg ByteWords.value (ofBytes_injective h)
  rwa [value_leftPadBytes_bigBytes, value_leftPadBytes_bigBytes] at hbytes

end Text

/-- The first extension of the contract, which its own scan settles on. -/
def FirstExtension (senders : List Address) (extensionId : ℕ) : Prop :=
  ∃ before after, senders = before ++ D.self :: after ∧ D.self ∉ before ∧
    extensionId = firstPublicExtensionId + before.length

section Registry

variable {D} {senders : List Address} {id id' : ℕ}

theorem FirstExtension.append (h : FirstExtension D senders id) (later : List Address) :
    FirstExtension D (senders ++ later) id := by
  obtain ⟨before, after, rfl, hnot, rfl⟩ := h
  exact ⟨before, after ++ later, by simp, hnot, rfl⟩

theorem FirstExtension.unique (h : FirstExtension D senders id) (h' : FirstExtension D senders id') :
    id = id' := by
  obtain ⟨before, after, rfl, hnot, rfl⟩ := h
  obtain ⟨before', after', heq, hnot', rfl⟩ := h'
  rw [(append_cons_inj hnot hnot' heq).1]

theorem FirstExtension.ne_zero (h : FirstExtension D senders id) : id ≠ 0 := by
  obtain ⟨before, -, -, -, rfl⟩ := h
  simp [firstPublicExtensionId]

theorem FirstExtension.lt (h : FirstExtension D senders id) :
    id < firstPublicExtensionId + senders.length := by
  obtain ⟨before, after, rfl, -, rfl⟩ := h
  simp

theorem exists_firstExtension (h : D.self ∈ senders) : ∃ id, FirstExtension D senders id := by
  obtain ⟨before, after, rfl, hnot⟩ := List.eq_append_cons_of_mem h
  exact ⟨_, before, after, rfl, hnot, rfl⟩

theorem instructionsSender_append {w : World} {before after : List Address} {a : Address}
    (h : w.senders = before ++ a :: after) :
    w.instructionsSender (firstPublicExtensionId + before.length) = a := by
  rw [World.instructionsSender, if_neg (by omega), Nat.add_sub_cancel_left, h]
  simp

theorem findExtension_eq_some {w : World} {msg : Msg} {before rest : List Address}
    (h : w.senders = before ++ rest) (hnot : D.self ∉ before) :
    findExtension D (w.message msg).registry rest.length (firstPublicExtensionId + before.length) = some id ↔
      FirstExtension D w.senders id := by
  induction rest generalizing before with
  | nil =>
    rw [List.append_nil] at h
    refine iff_of_false nofun fun ⟨b, a, heq, _⟩ => hnot ?_
    rw [← h, heq]
    simp
  | cons a rest ih =>
    have hread := instructionsSender_append h
    change (if w.instructionsSender (firstPublicExtensionId + before.length) = D.self then _ else
      findExtension D (w.message msg).registry rest.length (firstPublicExtensionId + before.length + 1)) = _ ↔ _
    rw [hread]
    split_ifs with ha
    · subst ha
      have hfirst : FirstExtension D w.senders (firstPublicExtensionId + before.length) :=
        ⟨before, rest, h, hnot, rfl⟩
      rw [Option.some_inj]
      constructor
      · rintro rfl
        exact hfirst
      · exact hfirst.unique
    · have hnot' : D.self ∉ before ++ [a] := by
        simpa [hnot] using Ne.symm ha
      have hrest := @ih (before ++ [a]) (by simpa using h) hnot'
      rwa [List.length_append, List.length_singleton, ← Nat.add_assoc] at hrest

theorem setExtensionId_eq_ok {w : World} {msg : Msg} {s : Storage} {x : Option Interaction} :
    setExtensionId D (w.message msg) w.storage = .ok (s, x) ↔ w.storage.extensionId = 0 ∧
      ∃ id, FirstExtension D w.senders id ∧ s = { w.storage with extensionId := id } ∧ x = none := by
  have hscan (id : ℕ) : findExtension D (w.message msg).registry w.senders.length firstPublicExtensionId =
      some id ↔ FirstExtension D w.senders id :=
    findExtension_eq_some (List.nil_append w.senders).symm List.not_mem_nil
  have hlength : (w.message msg).registry.nextPublicExtensionId - firstPublicExtensionId = w.senders.length :=
    Nat.add_sub_cancel_left ..
  simp only [setExtensionId, bind_ok, require_ok, exists_const, hlength]
  apply and_congr_right
  intro _
  cases hfind : findExtension D (w.message msg).registry w.senders.length firstPublicExtensionId with
  | none =>
    refine iff_of_false (fun h => by cases h) ?_
    rintro ⟨id, hid, -⟩
    cases hfind.symm.trans ((hscan id).mpr hid)
  | some id =>
    have hid := (hscan id).mp hfind
    simp only [pure, Except.pure, Except.ok.injEq, Prod.mk.injEq]
    constructor
    · rintro ⟨rfl, rfl⟩
      exact ⟨id, hid, rfl, rfl⟩
    · rintro ⟨id', hid', rfl, rfl⟩
      rw [hid.unique hid']
      exact ⟨rfl, rfl⟩

end Registry

structure Scanned (senders : List Address) (next i : ℕ) : Prop where
  first : firstPublicExtensionId ≤ i
  le : i ≤ next
  next_le : next ≤ firstPublicExtensionId + senders.length
  notMem : D.self ∉ senders.take (i - firstPublicExtensionId)

/-- The id a run works with: what its scan found, or what its own transaction was given. -/
def Settled (senders : List Address) (t : Transaction) (extensionID : ℕ) : Prop :=
  t = .unsent ∧ FirstExtension D senders extensionID ∨ t = .landed extensionID

def Established (senders : List Address) : Progress → Transaction → Prop
  | .idle, t | .registering, t => t = .unsent
  | .scanning next i, t => t = .unsent ∧ Scanned D senders next i
  | .waiting, t => t ≠ .unsent
  | .allowing id, t | .writing id, t => Settled D senders t id
  | .completed env, t => ∃ id, env = writeEnv D id ∧ Settled D senders t id
  | .stopped, _ => True

structure Consistent (w : World) : Prop where
  runs : ∀ run, Established D w.senders (w.progress run) (w.transaction run)
  cached : w.storage.extensionId ≠ 0 → FirstExtension D w.senders w.storage.extensionId

section Steps

variable {D} {w w' : World} {a : Action} {run extensionId : ℕ} {env : EnvFile}

inductive Step (D : Deployment) (w : World) : Action → World → Prop
  | start {run : ℕ} (h : w.progress run = .idle) :
      Step D w (.start run) (w.setProgress run (.scanning w.nextPublicExtensionId firstPublicExtensionId))
  | scan {run next i : ℕ} (h : w.progress run = .scanning next i) :
      Step D w (.scan run) (w.setProgress run (scanned D w next i))
  | send {run : ℕ} (h : w.progress run = .registering) :
      Step D w (.send run) ((w.setProgress run .waiting).setTransaction run .pending)
  | land {run : ℕ} (h : w.transaction run = .pending) :
      Step D w (.land run) ((w.register D.self).setTransaction run (.landed w.nextPublicExtensionId))
  | revert {run : ℕ} (h : w.transaction run = .pending) :
      Step D w (.revert run) (w.setTransaction run .reverted)
  | confirm {run id : ℕ} (h : w.progress run = .waiting) (ht : w.transaction run = .landed id) :
      Step D w (.confirm run) (w.setProgress run (confirmed id))
  | reject {run : ℕ} (h : w.progress run = .waiting) (ht : w.transaction run = .reverted) :
      Step D w (.confirm run) (w.setProgress run .stopped)
  | allow {run id : ℕ} (h : w.progress run = .allowing id) :
      Step D w (.allow run) (w.setProgress run (.writing id))
  | write {run id : ℕ} (h : w.progress run = .writing id) :
      Step D w (.write run) (w.setProgress run (.completed (writeEnv D id)))
  | stop {run : ℕ} (h : ∀ env, w.progress run ≠ .completed env) :
      Step D w (.stop run) (w.setProgress run .stopped)
  | register (sender : Address) : Step D w (.register sender) (w.register sender)
  | setExtensionId (msg : Msg) {id : ℕ} (h : w.storage.extensionId = 0) (hid : FirstExtension D w.senders id) :
      Step D w (.setExtensionId msg) { w with storage := { w.storage with extensionId := id } }

theorem step_cases (h : step D w a = some w') : Step D w a w' := by
  cases a <;> simp only [step] at h
  case setExtensionId msg =>
    split at h
    · next s x hok =>
      obtain ⟨hunset, id, hid, rfl, -⟩ := setExtensionId_eq_ok.mp hok
      cases h
      exact .setExtensionId msg hunset hid
    · cases h
  case confirm run =>
    split at h
    · next hp ht =>
      cases h
      exact .confirm hp ht
    · next hp ht =>
      cases h
      exact .reject hp ht
    · cases h
  case stop run =>
    split at h
    · cases h
    · next hp =>
      cases h
      exact .stop hp
  case register sender =>
    cases h
    exact .register sender
  all_goals
    split at h
    · next hp =>
      cases h
      first
      | exact .start hp
      | exact .scan hp
      | exact .send hp
      | exact .land hp
      | exact .revert hp
      | exact .allow hp
      | exact .write hp
    · cases h

theorem Step.senders (h : Step D w a w') : ∃ later, w'.senders = w.senders ++ later := by
  cases h with
  | land => exact ⟨[D.self], rfl⟩
  | register sender => exact ⟨[sender], rfl⟩
  | _ => exact ⟨[], (List.append_nil _).symm⟩

theorem Step.progress_completed (h : Step D w a w') (hc : w.progress run = .completed env) :
    w'.progress run = .completed env := by
  have hkeep (r : ℕ) (p : Progress) (hr : w.progress r ≠ .completed env) :
      Function.update w.progress r p run = .completed env := by
    rw [Function.update_of_ne, hc]
    rintro rfl
    exact hr hc
  cases h with
  | start hp | scan hp | confirm hp | reject hp | allow hp | write hp => exact hkeep _ _ (by simp [hp])
  | send hp =>
    rw [World.setTransaction_progress]
    exact hkeep _ _ (by simp [hp])
  | stop hp => exact hkeep _ _ (hp env)
  | _ => exact hc

theorem Step.completed_or_write (h : Step D w a w') (hc : w'.progress run = .completed env) :
    w.progress run = .completed env ∨ a = .write run := by
  have hback (r : ℕ) (p : Progress) (hp : p ≠ .completed env)
      (hc : Function.update w.progress r p run = .completed env) : w.progress run = .completed env := by
    by_cases hrun : run = r
    · subst hrun
      rw [Function.update_self] at hc
      exact absurd hc hp
    · rwa [Function.update_of_ne hrun] at hc
  cases h with
  | scan => exact .inl (hback _ _ (by unfold scanned; split_ifs <;> simp) hc)
  | confirm => exact .inl (hback _ _ (by unfold confirmed; split_ifs <;> simp) hc)
  | start | reject | allow | stop => exact .inl (hback _ _ (by simp) hc)
  | send =>
    rw [World.setTransaction_progress] at hc
    exact .inl (hback _ _ (by simp) hc)
  | @write r =>
    by_cases hrun : run = r
    · exact .inr (congrArg Action.write hrun.symm)
    · rw [World.setProgress_progress, Function.update_of_ne hrun] at hc
      exact .inl hc
  | _ => exact .inl hc

theorem Step.written (h : Step D w (.write run) w') : ∃ env, w'.progress run = .completed env := by
  cases h
  exact ⟨_, Function.update_self ..⟩

theorem Step.landed_iff (hw : Consistent D w) (h : Step D w a w') :
    w'.transaction run = .landed extensionId ↔ w.transaction run = .landed extensionId ∨
      a = .land run ∧ extensionId = w.nextPublicExtensionId := by
  cases h with
  | @land r hr =>
    by_cases hrun : run = r
    · subst hrun
      simp [hr, eq_comm]
    · simp [hrun, Ne.symm hrun]
  | @send r hr =>
    have hunsent := hw.runs r
    rw [hr] at hunsent
    by_cases hrun : run = r
    · subst hrun
      simp [show w.transaction run = .unsent from hunsent]
    · simp [hrun]
  | @revert r hr =>
    by_cases hrun : run = r
    · subst hrun
      simp [hr]
    · simp [hrun]
  | _ => simp

end Steps

section Invariant

variable {D} {w w' : World} {a : Action} {senders : List Address} {p : Progress} {t : Transaction}

theorem Scanned.append {next i : ℕ} (h : Scanned D senders next i) (later : List Address) :
    Scanned D (senders ++ later) next i := by
  obtain ⟨hfirst, hle, hnext, hnot⟩ := h
  refine ⟨hfirst, hle, ?_, ?_⟩
  · rw [List.length_append]
    omega
  · rw [List.take_append_of_le_length (by omega)]
    exact hnot

theorem Settled.append {id : ℕ} (h : Settled D senders t id) (later : List Address) :
    Settled D (senders ++ later) t id :=
  h.imp_left (And.imp_right fun hfirst => hfirst.append later)

theorem Established.append (h : Established D senders p t) (later : List Address) :
    Established D (senders ++ later) p t := by
  cases p with
  | scanning => exact h.imp_right fun hscan => hscan.append later
  | allowing | writing => exact Settled.append h later
  | completed =>
    obtain ⟨id, henv, hid⟩ := h
    exact ⟨id, henv, hid.append later⟩
  | _ => exact h

theorem instructionsSender_eq {i : ℕ} (hfirst : firstPublicExtensionId ≤ i)
    (hi : i - firstPublicExtensionId < w.senders.length) :
    w.instructionsSender i = w.senders[i - firstPublicExtensionId] := by
  rw [World.instructionsSender, if_neg (by omega), List.getD_eq_getElem]

theorem Scanned.scan {next i : ℕ} (h : Scanned D w.senders next i) :
    Established D w.senders (scanned D w next i) .unsent := by
  obtain ⟨hfirst, hle, hnext, hnot⟩ := h
  unfold scanned
  split_ifs with hi hread
  · have hlt : i - firstPublicExtensionId < w.senders.length := by omega
    rw [instructionsSender_eq hfirst hlt] at hread
    have hsplit : w.senders = w.senders.take (i - firstPublicExtensionId) ++ D.self ::
        w.senders.drop (i - firstPublicExtensionId + 1) := by
      rw [← hread, List.getElem_cons_drop, List.take_append_drop]
    refine .inl ⟨rfl, _, _, hsplit, hnot, ?_⟩
    rw [List.length_take]
    omega
  · have hlt : i - firstPublicExtensionId < w.senders.length := by omega
    rw [instructionsSender_eq hfirst hlt] at hread
    refine ⟨rfl, by omega, by omega, hnext, ?_⟩
    rw [Nat.sub_add_comm hfirst, List.take_succ_eq_append_getElem hlt, List.mem_append, List.mem_singleton]
    rintro (hmem | heq)
    · exact hnot hmem
    · exact hread heq.symm
  · rfl

/-- Only the run that moved has anything new to establish. -/
theorem Consistent.of_run (h : Consistent D w) (run : ℕ) (hsenders : w'.senders = w.senders)
    (hstorage : w'.storage = w.storage)
    (hrun : Established D w.senders (w'.progress run) (w'.transaction run))
    (hother : ∀ r ≠ run, w'.progress r = w.progress r ∧ w'.transaction r = w.transaction r) :
    Consistent D w' := by
  constructor
  · intro r
    rw [hsenders]
    by_cases hr : r = run
    · subst hr
      exact hrun
    · rw [(hother r hr).1, (hother r hr).2]
      exact h.runs r
  · rw [hstorage, hsenders]
    exact h.cached

theorem Consistent.setProgress (h : Consistent D w) {run : ℕ}
    (hp : Established D w.senders p (w.transaction run)) : Consistent D (w.setProgress run p) :=
  h.of_run run rfl rfl (by simpa using hp) (fun r hr => by simp [hr])

theorem Consistent.setTransaction (h : Consistent D w) {run : ℕ}
    (ht : Established D w.senders (w.progress run) t) : Consistent D (w.setTransaction run t) :=
  h.of_run run rfl rfl (by simpa using ht) (fun r hr => by simp [hr])

theorem Consistent.register (h : Consistent D w) (sender : Address) : Consistent D (w.register sender) :=
  ⟨fun run => (h.runs run).append [sender], fun hset => (h.cached hset).append [sender]⟩

/-- Once its transaction is sent, a run establishes nothing that depends on how it ends. -/
theorem Established.of_pending (h : Established D senders p .pending) (t : Transaction) (ht : t ≠ .unsent) :
    Established D senders p t := by
  cases p with
  | idle | registering | waiting => first | exact ht | cases h
  | scanning => cases h.1
  | allowing | writing =>
    rcases h with ⟨h, -⟩ | h <;> cases h
  | completed =>
    obtain ⟨_, -, h⟩ := h
    rcases h with ⟨h, -⟩ | h <;> cases h
  | stopped => trivial

theorem Consistent.step (h : Consistent D w) (hstep : Step D w a w') : Consistent D w' := by
  cases hstep with
  | @start run hp =>
    have hunsent := h.runs run
    rw [hp] at hunsent
    exact h.setProgress ⟨hunsent, le_rfl, Nat.le_add_right .., le_rfl, by simp⟩
  | @scan run next i hp =>
    have hscan := h.runs run
    rw [hp] at hscan
    apply h.setProgress
    rw [hscan.1]
    exact hscan.2.scan
  | @send run hp =>
    refine h.of_run run rfl rfl ?_ (fun r hr => by simp [hr])
    simp [Established]
  | @land run ht =>
    have hrun := h.runs run
    rw [ht] at hrun
    refine (h.register D.self).setTransaction ?_
    exact (hrun.append [D.self]).of_pending _ nofun
  | @revert run ht =>
    have hrun := h.runs run
    rw [ht] at hrun
    exact h.setTransaction (hrun.of_pending _ nofun)
  | @confirm run id hp ht =>
    apply h.setProgress
    unfold confirmed
    split_ifs
    · trivial
    · exact .inr ht
  | reject => exact h.setProgress trivial
  | @allow run id hp =>
    have hrun := h.runs run
    rw [hp] at hrun
    exact h.setProgress hrun
  | @write run id hp =>
    have hrun := h.runs run
    rw [hp] at hrun
    exact h.setProgress ⟨id, rfl, hrun⟩
  | stop => exact h.setProgress trivial
  | register sender => exact h.register sender
  | setExtensionId msg _ hid => exact ⟨h.runs, fun _ => hid⟩

theorem Consistent.initial (owner : Address) : Consistent D (.initial owner) :=
  ⟨fun _ => rfl, fun h => absurd rfl h⟩

end Invariant

section Runs

variable {D} {w w' w'' : World} {a : Action} {acts acts' : List Action} {run extensionId : ℕ}

theorem execute_cons : execute D w (a :: acts) = some w' ↔
    ∃ w₁, step D w a = some w₁ ∧ execute D w₁ acts = some w' :=
  Option.bind_eq_some_iff

theorem execute_append : execute D w (acts ++ acts') = some w'' ↔
    ∃ w', execute D w acts = some w' ∧ execute D w' acts' = some w'' := by
  rw [execute, List.foldlM_append]
  exact Option.bind_eq_some_iff

theorem Consistent.execute (h : Consistent D w) (hrun : execute D w acts = some w') : Consistent D w' := by
  induction acts generalizing w with
  | nil =>
    cases hrun
    exact h
  | cons a acts ih =>
    obtain ⟨w₁, hstep, hrest⟩ := execute_cons.mp hrun
    exact ih (h.step (step_cases hstep)) hrest

theorem execute_senders (h : execute D w acts = some w') : ∃ later, w'.senders = w.senders ++ later := by
  induction acts generalizing w with
  | nil =>
    cases h
    exact ⟨[], (List.append_nil _).symm⟩
  | cons a acts ih =>
    obtain ⟨w₁, hstep, hrest⟩ := execute_cons.mp h
    obtain ⟨later, hlater⟩ := (step_cases hstep).senders
    obtain ⟨later', hlater'⟩ := ih hrest
    exact ⟨later ++ later', by rw [hlater', hlater, List.append_assoc]⟩

theorem execute_landed_iff (hw : Consistent D w) (h : execute D w acts = some w') :
    w'.transaction run = .landed extensionId ↔ w.transaction run = .landed extensionId ∨
      ∃ pre post w₁, acts = pre ++ .land run :: post ∧ execute D w pre = some w₁ ∧
        extensionId = w₁.nextPublicExtensionId := by
  induction acts generalizing w with
  | nil =>
    cases h
    simp
  | cons a acts ih =>
    obtain ⟨w₁, hstep, hrest⟩ := execute_cons.mp h
    have hcases := step_cases hstep
    rw [ih (hw.step hcases) hrest, hcases.landed_iff hw, or_assoc]
    apply or_congr_right
    constructor
    · rintro (⟨rfl, hid⟩ | ⟨pre, post, w₂, rfl, hpre, hid⟩)
      · exact ⟨[], acts, w, rfl, rfl, hid⟩
      · exact ⟨a :: pre, post, w₂, rfl, execute_cons.mpr ⟨w₁, hstep, hpre⟩, hid⟩
    · rintro ⟨pre, post, w₂, heq, hpre, hid⟩
      cases pre with
      | nil =>
        cases hpre
        exact .inl ⟨(List.cons.inj heq).1, hid⟩
      | cons b pre =>
        obtain ⟨rfl, rfl⟩ := List.cons.inj heq
        obtain ⟨w₁', hstep', hpre'⟩ := execute_cons.mp hpre
        cases hstep.symm.trans hstep'
        exact .inr ⟨pre, post, w₂, rfl, hpre', hid⟩

theorem execute_completed_iff (h : execute D w acts = some w') :
    (∃ env, w'.progress run = .completed env) ↔
      (∃ env, w.progress run = .completed env) ∨ .write run ∈ acts := by
  induction acts generalizing w with
  | nil =>
    cases h
    simp
  | cons a acts ih =>
    obtain ⟨w₁, hstep, hrest⟩ := execute_cons.mp h
    have hcases := step_cases hstep
    rw [ih hrest, List.mem_cons, ← or_assoc]
    apply or_congr_left
    constructor
    · rintro ⟨env, henv⟩
      exact (hcases.completed_or_write henv).imp (fun hc => ⟨env, hc⟩) Eq.symm
    · rintro (⟨env, henv⟩ | rfl)
      · exact ⟨env, hcases.progress_completed henv⟩
      · exact hcases.written

end Runs

section Agreement

/-- The id a completed run wrote is the one the contract caches, whenever it caches it. -/
def Agrees (w : World) : Prop :=
  ∀ run env, w.progress run = .completed env → ∀ later w', execute D w later = some w' →
    w'.storage.extensionId ≠ 0 → env.extensionId = extensionIDHex w'.storage.extensionId

/-- When the transaction of a run that completes lands, no extension is bound to the contract yet. -/
def LandsFirst (owner : Address) (acts : List Action) : Prop :=
  ∀ pre post run w, acts = pre ++ .land run :: post → .write run ∈ acts →
    execute D (.initial owner) pre = some w → D.self ∉ w.senders

variable {D} {owner : Address} {acts : List Action} {w : World}

theorem exists_cached (hw : Consistent D w) {first : ℕ} (hfirst : FirstExtension D w.senders first) :
    ∃ later w', execute D w later = some w' ∧ w'.storage.extensionId = first := by
  by_cases hset : w.storage.extensionId = 0
  · let msg : Msg := ⟨0, 0, 0, ⟨0, fun _ => 0, []⟩⟩
    have hcall : setExtensionId D (w.message msg) w.storage =
        .ok ({ w.storage with extensionId := first }, none) :=
      setExtensionId_eq_ok.mpr ⟨hset, first, hfirst, rfl, rfl⟩
    refine ⟨[.setExtensionId msg], { w with storage := { w.storage with extensionId := first } }, ?_, rfl⟩
    refine execute_cons.mpr ⟨_, ?_, rfl⟩
    rw [step, hcall]
  · exact ⟨[], w, rfl, (hw.cached hset).unique hfirst⟩

theorem firstExtension_of_land {run : ℕ} {w' : World} (hnot : D.self ∉ w.senders)
    (h : execute D w (.land run :: acts) = some w') :
    FirstExtension D w'.senders w.nextPublicExtensionId := by
  obtain ⟨w₁, hland, hrest⟩ := execute_cons.mp h
  obtain ⟨later, hlater⟩ := execute_senders hrest
  cases step_cases hland
  exact ⟨w.senders, later, by simpa using hlater, hnot, rfl⟩

/-- The tool and the contract agree exactly when no completing run registered a second time. -/
theorem agrees_iff_landsFirst (h : execute D (.initial owner) acts = some w) :
    Agrees D w ↔ LandsFirst D owner acts := by
  have hw : Consistent D w := (Consistent.initial owner).execute h
  constructor
  · rintro hagrees pre post run w₁ rfl hwrite hpre hmem
    obtain ⟨env, henv⟩ := (execute_completed_iff h).mpr (.inr hwrite)
    have hlanded : w.transaction run = .landed w₁.nextPublicExtensionId :=
      (execute_landed_iff (.initial owner) h).mpr (.inr ⟨pre, post, w₁, rfl, hpre, rfl⟩)
    have hrun := hw.runs run
    rw [henv, hlanded] at hrun
    obtain ⟨id, rfl, hid⟩ := hrun
    obtain rfl : w₁.nextPublicExtensionId = id := by simpa [Settled] using hid
    obtain ⟨first, hfirst⟩ := exists_firstExtension hmem
    obtain ⟨w₁', hpre', hpost⟩ := execute_append.mp h
    cases hpre.symm.trans hpre'
    obtain ⟨more, hmore⟩ := execute_senders hpost
    have hfirst' : FirstExtension D w.senders first := hmore ▸ hfirst.append more
    obtain ⟨later, w', hlater, hcached⟩ := exists_cached hw hfirst'
    have heq := hagrees run _ henv later w' hlater (hcached ▸ hfirst.ne_zero)
    rw [hcached] at heq
    have hsame : w₁.nextPublicExtensionId = first := extensionIDHex_injective heq
    have hlt : first < w₁.nextPublicExtensionId := hfirst.lt
    omega
  · intro hlands run env henv later w' hlater hset
    obtain ⟨more, hmore⟩ := execute_senders hlater
    have hcached := (hw.execute hlater).cached hset
    have hrun := hw.runs run
    rw [henv] at hrun
    obtain ⟨id, rfl, hid⟩ := hrun
    have hfirst : FirstExtension D w.senders id := by
      rcases hid with ⟨-, hfirst⟩ | hlanded
      · exact hfirst
      · obtain hnone | ⟨pre, post, w₁, rfl, hpre, rfl⟩ := (execute_landed_iff (.initial owner) h).mp hlanded
        · cases hnone
        · have hwrite := ((execute_completed_iff h).mp ⟨_, henv⟩).resolve_left (fun ⟨_, hc⟩ => nomatch hc)
          obtain ⟨w₁', hpre', hpost⟩ := execute_append.mp h
          cases hpre.symm.trans hpre'
          exact firstExtension_of_land (hlands pre post run w₁ rfl hwrite hpre) hpost
    rw [hcached.unique (hmore ▸ hfirst.append more)]
    rfl

section Sample

def quietRun : List Action :=
  [.start 0, .scan 0, .send 0, .land 0, .confirm 0, .allow 0, .write 0]

/-- The first run is cut off while its transaction is pending; the second scans before it lands. -/
def retriedRun : List Action :=
  [.start 0, .scan 0, .send 0, .stop 0, .start 1, .scan 1, .send 1, .land 0, .land 1,
    .confirm 1, .allow 1, .write 1]

theorem agrees_iff_landsFirst_sample : ∃ w, execute sampleDeployment (.initial 1) quietRun = some w ∧
    (Agrees sampleDeployment w ↔ LandsFirst sampleDeployment 1 quietRun) :=
  ⟨_, rfl, agrees_iff_landsFirst rfl⟩

theorem retried_run_disagrees : ∃ w, execute sampleDeployment (.initial 1) retriedRun = some w ∧
    ¬ Agrees sampleDeployment w := by
  refine ⟨_, rfl, fun hagrees => ?_⟩
  have heq := hagrees 1 (writeEnv sampleDeployment 65537) rfl
    [.setExtensionId ⟨0, 0, 0, ⟨0, fun _ => 0, []⟩⟩] _ rfl (by decide)
  have hsame : 65537 = 65536 := extensionIDHex_injective heq
  omega

end Sample

end Agreement

end Fidensur.ExtensionRegistration
