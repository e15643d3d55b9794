import Fidensur.ContractCalls

set_option autoImplicit false

/-!
Organization consoles that create rounds of one contract, while other accounts and other tabs create
theirs.
-/

namespace Fidensur.RoundConsole

section Windows

variable {α : Type} [DecidableEq α]

def between (first last : α) (xs : List α) : List α :=
  (xs.dropWhile (· ≠ first)).takeWhile (· ≠ last)

variable {first last : α} {xs : List α}

theorem dropWhile_eq_nil_iff_notMem : xs.dropWhile (· ≠ first) = [] ↔ first ∉ xs := by
  rw [List.dropWhile_eq_nil_iff]
  constructor
  · intro h hmem
    simpa using h first hmem
  · intro h x hx
    simpa using ne_of_mem_of_not_mem hx h

structure IsOpen (first last : α) (xs : List α) : Prop where
  opened : first ∈ xs
  unclosed : last ∉ xs.dropWhile (· ≠ first)

def IsClosed (first last : α) (xs : List α) : Prop := last ∈ xs.dropWhile (· ≠ first)

theorem dropWhile_append_of_mem (h : first ∈ xs) (ys : List α) :
    (xs ++ ys).dropWhile (· ≠ first) = xs.dropWhile (· ≠ first) ++ ys := by
  rw [List.dropWhile_append, if_neg]
  rw [List.isEmpty_iff, dropWhile_eq_nil_iff_notMem]
  exact not_not.mpr h

theorem between_open (hne : first ≠ last) (h : first ∉ xs) :
    IsOpen first last (xs ++ [first]) ∧ between first last (xs ++ [first]) = [first] := by
  have hdrop : (xs ++ [first]).dropWhile (· ≠ first) = [first] := by
    rw [List.dropWhile_append, if_pos]
    · simp
    · rw [List.isEmpty_iff, dropWhile_eq_nil_iff_notMem]
      exact h
  refine ⟨⟨by simp, ?_⟩, ?_⟩
  · rw [hdrop]
    simpa using hne.symm
  · rw [between, hdrop]
    simp [hne]

theorem IsOpen.between (h : IsOpen first last xs) : between first last xs = xs.dropWhile (· ≠ first) := by
  rw [RoundConsole.between, List.takeWhile_eq_self_iff]
  intro x hx
  simpa using ne_of_mem_of_not_mem hx h.unclosed

theorem IsOpen.append (h : IsOpen first last xs) {x : α} (hx : x ≠ last) :
    IsOpen first last (xs ++ [x]) ∧
      RoundConsole.between first last (xs ++ [x]) = RoundConsole.between first last xs ++ [x] := by
  have hopen : IsOpen first last (xs ++ [x]) := by
    refine ⟨List.mem_append_left _ h.opened, ?_⟩
    rw [dropWhile_append_of_mem h.opened, List.mem_append, List.mem_singleton]
    exact not_or.mpr ⟨h.unclosed, hx.symm⟩
  refine ⟨hopen, ?_⟩
  rw [hopen.between, h.between, dropWhile_append_of_mem h.opened]

theorem IsOpen.close (h : IsOpen first last xs) :
    IsClosed first last (xs ++ [last]) ∧
      RoundConsole.between first last (xs ++ [last]) = RoundConsole.between first last xs := by
  have hdrop := dropWhile_append_of_mem h.opened [last]
  refine ⟨?_, ?_⟩
  · rw [IsClosed, hdrop]
    simp
  · rw [h.between, RoundConsole.between, hdrop, List.takeWhile_append, if_pos]
    · simp
    · rw [← RoundConsole.between, h.between]

theorem IsClosed.append (h : IsClosed first last xs) (ys : List α) :
    IsClosed first last (xs ++ ys) ∧
      RoundConsole.between first last (xs ++ ys) = RoundConsole.between first last xs := by
  have hmem : first ∈ xs := by
    by_contra hnot
    rw [IsClosed, dropWhile_eq_nil_iff_notMem.mpr hnot] at h
    cases h
  have hdrop := dropWhile_append_of_mem hmem ys
  refine ⟨?_, ?_⟩
  · rw [IsClosed, hdrop]
    exact List.mem_append_left _ h
  · rw [RoundConsole.between, RoundConsole.between, hdrop, List.takeWhile_append, if_neg]
    intro hlen
    have hall := (List.takeWhile_prefix _).eq_of_length hlen
    simpa using List.takeWhile_eq_self_iff.mp hall last h

end Windows

/-- `MIN_WINDOW_SECONDS` and `MAX_WINDOW_SECONDS` of the page. -/
def minWindowSeconds : ℤ := 3600

def maxWindowSeconds : ℤ := 31536000

/-- What `create` throws, before the page words it. -/
inductive Failure
  | message (text : String)
  | simulation (e : Error)
  /-- A failed request, a wallet that refuses, or a page that is left. -/
  | interrupted
  deriving DecidableEq

inductive Progress
  | idle
  | reading (seconds : Uint48)
  | simulating (seconds : Uint48) (next : ℕ)
  | writing (seconds : Uint48) (next : ℕ)
  | waiting (next : ℕ)
  | opened (id : ℕ)
  | failed (failure : Failure)
  deriving DecidableEq

inductive Transaction
  | unsent
  | pending (seconds : Uint48)
  | landed (roundId : ℕ)
  | reverted
  deriving DecidableEq

structure World where
  storage : Storage
  progress : ℕ → Progress
  transaction : ℕ → Transaction

def World.initial (s : Storage) : World := ⟨s, fun _ => .idle, fun _ => .unsent⟩

namespace World

variable (w : World) (run : ℕ) (p : Progress) (t : Transaction) (s : Storage)

def setProgress : World := { w with progress := Function.update w.progress run p }

def setTransaction : World := { w with transaction := Function.update w.transaction run t }

def setStorage : World := { w with storage := s }

@[simp] theorem setProgress_storage : (w.setProgress run p).storage = w.storage := rfl

@[simp] theorem setProgress_progress :
    (w.setProgress run p).progress = Function.update w.progress run p := rfl

@[simp] theorem setProgress_transaction : (w.setProgress run p).transaction = w.transaction := rfl

@[simp] theorem setTransaction_storage : (w.setTransaction run t).storage = w.storage := rfl

@[simp] theorem setTransaction_progress : (w.setTransaction run t).progress = w.progress := rfl

@[simp] theorem setTransaction_transaction :
    (w.setTransaction run t).transaction = Function.update w.transaction run t := rfl

@[simp] theorem setStorage_storage : (w.setStorage s).storage = s := rfl

@[simp] theorem setStorage_progress : (w.setStorage s).progress = w.progress := rfl

@[simp] theorem setStorage_transaction : (w.setStorage s).transaction = w.transaction := rfl

end World

/-- The first checks of `create`; `none` is a window that is not a finite number of days. -/
def requested : Option ℤ → Progress
  | none => .failed (.message "The claim window must be a number of days.")
  | some seconds =>
    if seconds < minWindowSeconds then
      .failed (.message "The claim window must be at least 1 hour (0.042 days).")
    else if seconds > maxWindowSeconds then
      .failed (.message "The claim window must be at most 365 days.")
    else .reading (Fin.ofNat _ seconds.toNat)

theorem requested_cases (seconds : Option ℤ) :
    (∃ failure, requested seconds = .failed failure) ∨ ∃ n, requested seconds = .reading n := by
  cases seconds with
  | none => exact .inl ⟨_, rfl⟩
  | some seconds =>
    simp only [requested]
    split_ifs
    · exact .inl ⟨_, rfl⟩
    · exact .inl ⟨_, rfl⟩
    · exact .inr ⟨_, rfl⟩

def create (sender token : Address) (claimWindow : Uint48) (s : Storage) : Except Error Storage := do
  let (s, _) ← createRound ⟨sender, 0, 0, ⟨0, fun _ => 0, []⟩⟩ token claimWindow s
  return s

/-- The last action is a transaction of somebody else. -/
inductive Action
  | create (run : ℕ) (seconds : Option ℤ)
  | read (run : ℕ)
  | simulate (run : ℕ)
  | write (run : ℕ)
  | land (run : ℕ)
  | revert (run : ℕ)
  | confirm (run : ℕ)
  | fail (run : ℕ)
  | createRound (sender token : Address) (claimWindow : Uint48)
  deriving DecidableEq

def Action.creates : Action → Bool
  | .land _ | .createRound .. => true
  | _ => false

variable (account : ℕ → Address)

def step (w : World) : Action → Option World
  | .create run seconds =>
    match w.progress run with
    | .idle => some (w.setProgress run (requested seconds))
    | _ => none
  | .read run =>
    match w.progress run with
    | .reading seconds => some (w.setProgress run (.simulating seconds w.storage.nextRoundId))
    | _ => none
  | .simulate run =>
    match w.progress run with
    | .simulating seconds next =>
      match create (account run) 0 seconds w.storage with
      | .ok _ => some (w.setProgress run (.writing seconds next))
      | .error e => some (w.setProgress run (.failed (.simulation e)))
    | _ => none
  | .write run =>
    match w.progress run with
    | .writing seconds next => some ((w.setProgress run (.waiting next)).setTransaction run (.pending seconds))
    | _ => none
  | .land run =>
    match w.transaction run with
    | .pending seconds =>
      match create (account run) 0 seconds w.storage with
      -- `createRound` returns the counter as it stood before.
      | .ok s => some ((w.setStorage s).setTransaction run (.landed w.storage.nextRoundId))
      | .error _ => none
    | _ => none
  | .revert run =>
    match w.transaction run with
    | .pending _ => some (w.setTransaction run .reverted)
    | _ => none
  | .confirm run =>
    match w.progress run, w.transaction run with
    | .waiting next, .landed _ => some (w.setProgress run (.opened next))
    | .waiting _, .reverted => some (w.setProgress run (.failed (.message "createRound reverted")))
    | _, _ => none
  | .fail run =>
    match w.progress run with
    | .idle | .opened _ | .failed _ => none
    | _ => some (w.setProgress run (.failed .interrupted))
  | .createRound sender token claimWindow =>
    match create sender token claimWindow w.storage with
    | .ok s => some (w.setStorage s)
    | .error _ => none

def execute : World → List Action → Option World := List.foldlM (step account)

section Creation

variable {sender token : Address} {claimWindow : Uint48} {s s' : Storage}

theorem create_ok (h : create sender token claimWindow s = .ok s') :
    s'.nextRoundId = s.nextRoundId + 1 ∧
    (s'.rounds s.nextRoundId).organization = sender ∧
    ∀ id, id ≠ s.nextRoundId → s'.rounds id = s.rounds id := by
  simp only [create, Fidensur.createRound, bind_ok, require_ok, exists_const] at h
  obtain ⟨x, ⟨-, -, hx⟩, hs⟩ := h
  cases hx
  cases hs
  exact ⟨rfl, by simp, fun id hid => by simp [hid]⟩

end Creation

def Action.run? : Action → Option ℕ
  | .create run _ | .read run | .simulate run | .write run | .land run | .revert run | .confirm run
  | .fail run => some run
  | .createRound .. => none

/-- How many rounds were created from the moment a console read the counter to its own. -/
def createdMeanwhile (run : ℕ) (as : List Action) : ℕ :=
  (between (.read run) (.land run) as).countP Action.creates

section Steps

variable {account} {w w' : World} {a : Action} {as : List Action} {run : ℕ}

theorem step_other (h : step account w a = some w') (ha : a.run? ≠ some run) :
    w'.progress run = w.progress run ∧ w'.transaction run = w.transaction run := by
  have hupdate {β : Type} {r : ℕ} (hr : some r ≠ some run) (f : ℕ → β) (b : β) :
      Function.update f r b run = f run :=
    Function.update_of_ne (fun hrun => hr (congrArg some hrun.symm)) ..
  cases a with
  | simulate r =>
    simp only [step] at h
    repeat' split at h
    all_goals cases h
    all_goals exact ⟨hupdate ha .., rfl⟩
  | createRound =>
    simp only [step] at h
    split at h <;> cases h
    exact ⟨rfl, rfl⟩
  | land r =>
    simp only [step] at h
    repeat' split at h
    all_goals cases h
    exact ⟨rfl, hupdate ha ..⟩
  | revert r =>
    simp only [step] at h
    split at h <;> cases h
    exact ⟨rfl, hupdate ha ..⟩
  | write r =>
    simp only [step] at h
    split at h <;> cases h
    exact ⟨hupdate ha .., hupdate ha ..⟩
  | _ =>
    simp only [step] at h
    split at h <;> cases h
    all_goals exact ⟨hupdate ha .., rfl⟩

theorem step_next (h : step account w a = some w') :
    w'.storage.nextRoundId = w.storage.nextRoundId + a.creates.toNat := by
  cases a with
  | createRound =>
    simp only [step] at h
    split at h <;> cases h
    next hs => exact (create_ok hs).1
  | land =>
    simp only [step] at h
    repeat' split at h
    all_goals cases h
    next hs => exact (create_ok hs).1
  | simulate =>
    simp only [step] at h
    repeat' split at h
    all_goals cases h
    all_goals rfl
  | _ =>
    simp only [step] at h
    split at h <;> cases h
    all_goals rfl

theorem IsOpen.created (h : IsOpen (.read run) (.land run) as) (ha : a ≠ .land run) :
    createdMeanwhile run (as ++ [a]) = createdMeanwhile run as + a.creates.toNat := by
  rw [createdMeanwhile, (h.append ha).2, List.countP_append, ← createdMeanwhile]
  cases hc : a.creates <;> simp [hc]

def Established (as : List Action) (w : World) (run : ℕ) : Prop :=
  match w.progress run with
  | .idle | .reading _ => w.transaction run = .unsent ∧ .read run ∉ as
  | .simulating _ next | .writing _ next =>
    w.transaction run = .unsent ∧ IsOpen (.read run) (.land run) as ∧
      w.storage.nextRoundId = next + createdMeanwhile run as
  | .waiting next =>
    match w.transaction run with
    | .unsent => False
    | .pending _ => IsOpen (.read run) (.land run) as ∧
        w.storage.nextRoundId = next + createdMeanwhile run as
    | .landed own => IsClosed (.read run) (.land run) as ∧ own = next + createdMeanwhile run as
    | .reverted => True
  | .opened next => ∃ own, w.transaction run = .landed own ∧
      IsClosed (.read run) (.land run) as ∧ own = next + createdMeanwhile run as
  | .failed _ => True

theorem IsOpen.keep {next : ℕ} (hstep : step account w a = some w')
    (h : IsOpen (.read run) (.land run) as ∧ w.storage.nextRoundId = next + createdMeanwhile run as)
    (ha : a ≠ .land run) :
    IsOpen (.read run) (.land run) (as ++ [a]) ∧
      w'.storage.nextRoundId = next + createdMeanwhile run (as ++ [a]) := by
  refine ⟨(h.1.append ha).1, ?_⟩
  rw [h.1.created ha, step_next hstep, h.2, Nat.add_assoc]

theorem IsClosed.keep {next own : ℕ}
    (h : IsClosed (.read run) (.land run) as ∧ own = next + createdMeanwhile run as) (a : Action) :
    IsClosed (.read run) (.land run) (as ++ [a]) ∧ own = next + createdMeanwhile run (as ++ [a]) := by
  obtain ⟨hclosed, hbetween⟩ := h.1.append [a]
  refine ⟨hclosed, ?_⟩
  rw [createdMeanwhile, hbetween]
  exact h.2

theorem Established.other (hstep : step account w a = some w') (ha : a.run? ≠ some run)
    (h : Established as w run) : Established (as ++ [a]) w' run := by
  obtain ⟨hp, ht⟩ := step_other hstep ha
  have hread : a ≠ .read run := by
    rintro rfl
    exact ha rfl
  have hland : a ≠ .land run := by
    rintro rfl
    exact ha rfl
  have hnot (hmem : .read run ∉ as) : .read run ∉ as ++ [a] := by
    simpa using ⟨hmem, hread.symm⟩
  unfold Established at h ⊢
  rw [hp, ht]
  cases hprogress : w.progress run with
  | idle => simp only [hprogress] at h; exact ⟨h.1, hnot h.2⟩
  | reading => simp only [hprogress] at h; exact ⟨h.1, hnot h.2⟩
  | simulating => simp only [hprogress] at h; exact ⟨h.1, IsOpen.keep hstep h.2 hland⟩
  | writing => simp only [hprogress] at h; exact ⟨h.1, IsOpen.keep hstep h.2 hland⟩
  | waiting =>
    simp only [hprogress] at h
    cases htx : w.transaction run with
    | unsent => simp only [htx] at h
    | pending => simp only [htx] at h; exact IsOpen.keep hstep h hland
    | landed => simp only [htx] at h; exact IsClosed.keep h a
    | reverted => trivial
  | opened =>
    simp only [hprogress] at h
    obtain ⟨own, htx, hc⟩ := h
    exact ⟨own, htx, IsClosed.keep hc a⟩
  | failed => trivial

theorem Established.create {seconds : Option ℤ} (hstep : step account w (.create run seconds) = some w')
    (h : Established as w run) : Established (as ++ [.create run seconds]) w' run := by
  unfold Established at h ⊢
  simp only [RoundConsole.step] at hstep
  split at hstep <;> cases hstep
  next hp =>
    simp only [hp] at h
    simp only [World.setProgress_progress, Function.update_self, World.setProgress_transaction]
    rcases requested_cases seconds with ⟨failure, hr⟩ | ⟨n, hr⟩
    · simp [hr]
    · simpa [hr] using h

/-- Reading the counter opens the window of the run. -/
theorem Established.read (hstep : step account w (.read run) = some w') (h : Established as w run) :
    Established (as ++ [(.read run)]) w' run := by
  unfold Established at h ⊢
  simp only [RoundConsole.step] at hstep
  split at hstep <;> cases hstep
  next hp =>
    simp only [hp] at h
    obtain ⟨hopen, hbetween⟩ := between_open (show Action.read run ≠ Action.land run by simp) h.2
    simp only [World.setProgress_progress, Function.update_self, World.setProgress_transaction,
      World.setProgress_storage]
    refine ⟨h.1, hopen, ?_⟩
    rw [createdMeanwhile, hbetween]
    rfl

theorem Established.simulate (hstep : step account w (.simulate run) = some w') (h : Established as w run) :
    Established (as ++ [(.simulate run)]) w' run := by
  unfold Established at h ⊢
  simp only [RoundConsole.step] at hstep
  split at hstep
  · next hp =>
    simp only [hp] at h
    split at hstep <;> cases hstep
    · simp only [World.setProgress_progress, Function.update_self, World.setProgress_transaction,
        World.setProgress_storage]
      refine ⟨h.1, (h.2.1.append (by simp)).1, ?_⟩
      rw [h.2.1.created (by simp), h.2.2]
      rfl
    · simp
  · cases hstep

theorem Established.write (hstep : step account w (.write run) = some w') (h : Established as w run) :
    Established (as ++ [(.write run)]) w' run := by
  unfold Established at h ⊢
  simp only [RoundConsole.step] at hstep
  split at hstep <;> cases hstep
  next hp =>
    simp only [hp] at h
    simp only [World.setProgress_progress, World.setTransaction_progress, Function.update_self,
      World.setTransaction_transaction, World.setProgress_storage, World.setTransaction_storage]
    refine ⟨(h.2.1.append (by simp)).1, ?_⟩
    rw [h.2.1.created (by simp), h.2.2]
    rfl

/-- Its own creation closes the window. -/
theorem Established.land (hstep : step account w (.land run) = some w') (h : Established as w run) :
    Established (as ++ [(.land run)]) w' run := by
  unfold Established at h ⊢
  simp only [RoundConsole.step] at hstep
  split at hstep
  · next ht =>
    split at hstep <;> cases hstep
    simp only [World.setStorage_progress, World.setTransaction_progress, Function.update_self,
      World.setTransaction_transaction, World.setStorage_transaction]
    cases hp : w.progress run with
    | waiting next =>
      simp only [hp, ht] at h
      obtain ⟨hclosed, hbetween⟩ := h.1.close
      refine ⟨hclosed, ?_⟩
      rw [createdMeanwhile, hbetween]
      exact h.2
    | failed => trivial
    | opened => simp [hp, ht] at h
    | _ => simp [hp, ht] at h
  · cases hstep

theorem Established.revert (hstep : step account w (.revert run) = some w') (h : Established as w run) :
    Established (as ++ [(.revert run)]) w' run := by
  unfold Established at h ⊢
  simp only [RoundConsole.step] at hstep
  split at hstep <;> cases hstep
  next ht =>
    simp only [World.setTransaction_progress, World.setTransaction_transaction, Function.update_self]
    cases hp : w.progress run with
    | waiting next => trivial
    | failed => trivial
    | opened => simp [hp, ht] at h
    | _ => simp [hp, ht] at h

theorem Established.confirm (hstep : step account w (.confirm run) = some w') (h : Established as w run) :
    Established (as ++ [(.confirm run)]) w' run := by
  unfold Established at h ⊢
  simp only [RoundConsole.step] at hstep
  split at hstep <;> cases hstep
  · next hp ht =>
    simp only [hp, ht] at h
    simp only [World.setProgress_progress, Function.update_self, World.setProgress_transaction]
    exact ⟨_, ht, IsClosed.keep h _⟩
  · simp

theorem Established.own (hstep : step account w a = some w') (ha : a.run? = some run)
    (h : Established as w run) : Established (as ++ [a]) w' run := by
  cases a with
  | createRound => cases ha
  | create r seconds =>
    cases ha
    exact h.create hstep
  | read r =>
    cases ha
    exact h.read hstep
  | simulate r =>
    cases ha
    exact h.simulate hstep
  | write r =>
    cases ha
    exact h.write hstep
  | land r =>
    cases ha
    exact h.land hstep
  | revert r =>
    cases ha
    exact h.revert hstep
  | confirm r =>
    cases ha
    exact h.confirm hstep
  | fail r =>
    cases ha
    unfold Established
    simp only [step] at hstep
    split at hstep <;> cases hstep
    simp

theorem Established.step (hstep : RoundConsole.step account w a = some w') (h : Established as w run) :
    Established (as ++ [a]) w' run := by
  by_cases ha : a.run? = some run
  · exact h.own hstep ha
  · exact h.other hstep ha

theorem execute_append (as : List Action) (a : Action) (w : World) :
    execute account w (as ++ [a]) = (execute account w as).bind (fun w => RoundConsole.step account w a) := by
  simp [execute, List.foldlM_append]

theorem Established.execute {s : Storage} (h : execute account (.initial s) as = some w) (run : ℕ) :
    Established as w run := by
  induction as using List.reverseRecOn generalizing w with
  | nil =>
    cases h
    exact ⟨rfl, List.not_mem_nil⟩
  | append_singleton as a ih =>
    rw [execute_append] at h
    obtain ⟨v, hv, hstep⟩ := Option.bind_eq_some_iff.mp h
    exact (ih hv).step hstep

def Owned (account : ℕ → Address) (w : World) : Prop :=
  ∀ run own, w.transaction run = .landed own →
    own < w.storage.nextRoundId ∧ (w.storage.rounds own).organization = account run

theorem Owned.create {sender token : Address} {claimWindow : Uint48} {s : Storage}
    (h : Owned account w) (hs : create sender token claimWindow w.storage = .ok s) :
    Owned account (w.setStorage s) := by
  intro run own ht
  obtain ⟨hnext, -, hkeep⟩ := create_ok hs
  obtain ⟨hlt, horganization⟩ := h run own ht
  refine ⟨by simp only [World.setStorage_storage]; omega, ?_⟩
  rw [World.setStorage_storage, hkeep own (by omega)]
  exact horganization

theorem Owned.setTransaction (h : Owned account w) {t : Transaction}
    (ht : ∀ own, t = .landed own →
      own < w.storage.nextRoundId ∧ (w.storage.rounds own).organization = account run) :
    Owned account (w.setTransaction run t) := by
  intro r own hr
  by_cases hrun : r = run
  · subst hrun
    exact ht own (by simpa using hr)
  · exact h r own (by simpa [hrun] using hr)

theorem Owned.step (hstep : RoundConsole.step account w a = some w') (h : Owned account w) :
    Owned account w' := by
  cases a with
  | createRound =>
    simp only [RoundConsole.step] at hstep
    split at hstep <;> cases hstep
    next hs => exact h.create hs
  | land r =>
    simp only [RoundConsole.step] at hstep
    repeat' split at hstep
    all_goals cases hstep
    next hs =>
      obtain ⟨hnext, horganization, -⟩ := create_ok hs
      apply (h.create hs).setTransaction
      intro own hown
      cases hown
      exact ⟨by simp only [World.setStorage_storage]; omega, horganization⟩
  | revert r =>
    simp only [RoundConsole.step] at hstep
    split at hstep <;> cases hstep
    exact h.setTransaction nofun
  | write r =>
    simp only [RoundConsole.step] at hstep
    split at hstep <;> cases hstep
    next n _ =>
      have hprogress : Owned account (w.setProgress r (.waiting n)) := h
      exact hprogress.setTransaction nofun
  | simulate r =>
    simp only [RoundConsole.step] at hstep
    repeat' split at hstep
    all_goals cases hstep
    all_goals exact h
  | _ =>
    simp only [RoundConsole.step] at hstep
    split at hstep <;> cases hstep
    all_goals exact h

theorem Owned.execute {s : Storage} (h : execute account (.initial s) as = some w) :
    Owned account w := by
  induction as using List.reverseRecOn generalizing w with
  | nil =>
    cases h
    exact nofun
  | append_singleton as a ih =>
    rw [execute_append] at h
    obtain ⟨v, hv, hstep⟩ := Option.bind_eq_some_iff.mp h
    exact (ih hv).step hstep

end Steps

/-- A console opens its own round unless another one is created between its read and its own
creation. -/
theorem opens_own_iff (account : ℕ → Address) (s : Storage) (as : List Action) (w : World)
    (h : execute account (.initial s) as = some w) (run id : ℕ) (ho : w.progress run = .opened id) :
    ∃ own, w.transaction run = .landed own ∧ (w.storage.rounds own).organization = account run ∧
      (id = own ↔ ∀ a ∈ between (.read run) (.land run) as, a.creates = false) := by
  have he := Established.execute h run
  simp only [Established, ho] at he
  obtain ⟨own, ht, -, hown⟩ := he
  refine ⟨own, ht, (Owned.execute h run own ht).2, ?_⟩
  have hcount : id = own ↔ createdMeanwhile run as = 0 := by omega
  rw [hcount, createdMeanwhile, List.countP_eq_zero]
  simp

section Race

def sampleAccount (run : ℕ) : Address := if run = 0 then 5 else 6

def pressed (meanwhile : List Action) : List Action :=
  [.create 0 (some 604800), .read 0] ++ meanwhile ++ [.simulate 0, .write 0, .land 0, .confirm 0]

/-- Another account's transaction lands after the read: its round 0 is opened, the console's own
is 1. -/
theorem raced_console_opens_other :
    ¬ ∀ (account : ℕ → Address) (s : Storage) (as : List Action) (w : World) (run id : ℕ),
      execute account (.initial s) as = some w → w.progress run = .opened id →
      w.transaction run = .landed id := by
  intro hall
  have hread : (execute sampleAccount (.initial (.deployed 1)) (pressed [.createRound 6 0 3600])).map
      (fun w => (w.progress 0, w.transaction 0)) = some (.opened 0, .landed 1) := by
    decide
  obtain ⟨w, hw, hread⟩ := Option.map_eq_some_iff.mp hread
  obtain ⟨hp, ht⟩ := Prod.mk.inj hread
  have hown := hall _ _ _ w 0 0 hw hp
  rw [ht] at hown
  cases hown

/-- Other accounts create rounds before the console reads and after its transaction has landed, and a
second console is open all along. -/
def undisturbed : List Action :=
  [.createRound 6 0 3600, .create 1 (some 3600), .create 0 (some 604800), .read 0, .simulate 0, .write 0,
    .land 0, .read 1, .createRound 7 0 3600, .simulate 1, .confirm 0]

theorem opens_own_iff_sample : ∃ w,
    execute sampleAccount (.initial (.deployed 1)) undisturbed = some w ∧
    w.progress 0 = .opened 1 ∧ w.transaction 0 = .landed 1 ∧ (w.storage.rounds 1).organization = 5 := by
  have hread : (execute sampleAccount (.initial (.deployed 1)) undisturbed).map
      (fun w => w.progress 0) = some (.opened 1) := by
    decide
  obtain ⟨w, hw, hp⟩ := Option.map_eq_some_iff.mp hread
  obtain ⟨own, ht, horganization, hiff⟩ :=
    opens_own_iff sampleAccount (.deployed 1) undisturbed w hw 0 1 hp
  have hundisturbed : ∀ a ∈ between (.read 0) (.land 0) undisturbed, a.creates = false := by
    decide
  obtain rfl := hiff.mpr hundisturbed
  exact ⟨w, hw, hp, ht, horganization⟩

end Race

end Fidensur.RoundConsole
