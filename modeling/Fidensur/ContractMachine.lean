import Fidensur.NestedCalls
import Fidensur.ContractSteps

set_option autoImplicit false

namespace Fidensur

open NestedCalls

inductive Phase
  | started (x : Option Interaction)
  | settled (x : Interaction)
  | finished (reply : Reply)

/-- One uninterrupted piece of contract code, or the token movement it asked for, and the storage
after it. -/
structure Entry where
  msg : Msg
  call : Call
  phase : Phase
  post : Storage

/-- The contract, what it holds of each token, and the history of effects that were not rolled
back, newest first. -/
structure World where
  storage : Storage
  balance : Address → ℕ
  log : List Entry
  now : ℕ

structure PendingCall where
  msg : Msg
  call : Call
  interaction : Interaction
  settled : Bool

abbrev ContractConfig := Config World PendingCall

inductive Act
  | call (msg : Msg) (call : Call)
  | settle
  | reply (reply : Reply)
  | credit (token : Address) (amount : ℕ)
  | drift (token : Address) (amount : ℕ)
  | tick (seconds : ℕ)

/-- Native value moves with the call itself, and not at all without the balance for it. -/
def Interaction.depart (self : Address) (balance : Address → ℕ) :
    Interaction → Option (Address → ℕ)
  | .sendNative recipient amount =>
      if amount ≤ balance 0 then
        some (if recipient = self then balance else Function.update balance 0 (balance 0 - amount))
      else none
  | .sendInstructions _ _ value =>
      if value ≤ balance 0 then some (Function.update balance 0 (balance 0 - value)) else none
  | .transfer .. | .transferFrom .. => some balance

/-- A token moves at some moment of its own call, before, between or after its hooks. -/
def Interaction.settle (self : Address) (balance : Address → ℕ) :
    Interaction → Option (Address → ℕ)
  | .transfer token recipient amount =>
      if amount ≤ balance token then
        some (if recipient = self then balance
          else Function.update balance token (balance token - amount))
      else none
  | .transferFrom token _ amount =>
      some (Function.update balance token (balance token + amount))
  | .sendNative .. | .sendInstructions .. => none

def Interaction.movesAtOnce : Interaction → Bool
  | .sendNative .. | .sendInstructions .. => true
  | .transfer .. | .transferFrom .. => false

def World.record (w : World) (msg : Msg) (call : Call) (phase : Phase) (s : Storage)
    (balance : Address → ℕ) : World :=
  { w with storage := s, balance := balance, log := ⟨msg, call, phase, s⟩ :: w.log }

def Msg.received (msg : Msg) (balance : Address → ℕ) : Address → ℕ :=
  Function.update balance 0 (balance 0 + msg.value)

/-- Calls come from outside, at the time of the block. A call that reverts leaves nothing and is no
step; one that reverts after its interaction aborts to the world it started from. Between the
steps anyone may call again, at any depth. -/
def machine (D : Deployment) : System World PendingCall Act
  | .call msg call, ⟨w, _⟩ =>
      if msg.timestamp = w.now ∧ msg.sender ≠ D.self then
        match start D msg (msg.received w.balance) w.storage call with
        | .error _ => none
        | .ok (s, none) => some (.alter (w.record msg call (.started none) s (msg.received w.balance)))
        | .ok (s, some x) =>
            match x.depart D.self (msg.received w.balance) with
            | none => none
            | some balance => some (.enter ⟨msg, call, x, x.movesAtOnce⟩
                (w.record msg call (.started (some x)) s balance))
      else none
  | .settle, ⟨w, ⟨_, p⟩ :: _⟩ =>
      if p.settled then none
      else
        match p.interaction.settle D.self w.balance with
        | none => none
        | some balance => some (.update { p with settled := true }
            (w.record p.msg p.call (.settled p.interaction) w.storage balance))
  | .reply reply, ⟨w, ⟨_, p⟩ :: _⟩ =>
      match finish p.msg w.storage p.interaction reply p.call with
      | .error _ => some .abort
      | .ok s => some (.leave (w.record p.msg p.call (.finished reply) s w.balance))
  | .credit token amount, ⟨w, _⟩ =>
      some (.alter { w with balance := Function.update w.balance token (w.balance token + amount) })
  | .drift token amount, ⟨w, _⟩ =>
      if token = 0 then none
      else some (.alter { w with balance := Function.update w.balance token amount })
  | .tick seconds, ⟨w, []⟩ => some (.alter { w with now := w.now + seconds })
  | _, _ => none

def World.initial (initialOwner : Address) (balance : Address → ℕ) (now : ℕ) : World :=
  ⟨.deployed initialOwner, balance, [], now⟩

def deployed (initialOwner : Address) (balance : Address → ℕ) (now : ℕ) : ContractConfig :=
  ⟨.initial initialOwner balance now, []⟩

inductive Stepped (D : Deployment) : ContractConfig → Act → ContractConfig → Prop
  | done {w : World} {fs : List (Frame World PendingCall)} (msg : Msg) (call : Call) {s : Storage}
      (ht : msg.timestamp = w.now) (hself : msg.sender ≠ D.self)
      (h : Started D msg (msg.received w.balance) w.storage call s none)
      (hv : call.payable = true ∨ msg.value = 0) :
      Stepped D ⟨w, fs⟩ (.call msg call)
        ⟨w.record msg call (.started none) s (msg.received w.balance), fs⟩
  | pending {w : World} {fs : List (Frame World PendingCall)} (msg : Msg) (call : Call) {s : Storage}
      {x : Interaction} {balance : Address → ℕ}
      (ht : msg.timestamp = w.now) (hself : msg.sender ≠ D.self)
      (h : Started D msg (msg.received w.balance) w.storage call s (some x))
      (hv : call.payable = true ∨ msg.value = 0)
      (hb : x.depart D.self (msg.received w.balance) = some balance) :
      Stepped D ⟨w, fs⟩ (.call msg call)
        ⟨w.record msg call (.started (some x)) s balance, ⟨w, ⟨msg, call, x, x.movesAtOnce⟩⟩ :: fs⟩
  | settled {w saved : World} {fs : List (Frame World PendingCall)} (p : PendingCall)
      {balance : Address → ℕ} (hp : p.settled = false)
      (hb : p.interaction.settle D.self w.balance = some balance) :
      Stepped D ⟨w, ⟨saved, p⟩ :: fs⟩ .settle
        ⟨w.record p.msg p.call (.settled p.interaction) w.storage balance,
          ⟨saved, { p with settled := true }⟩ :: fs⟩
  | replied {w saved : World} {fs : List (Frame World PendingCall)} (p : PendingCall) (reply : Reply)
      {s : Storage} (ha : ∃ id, p.interaction.accept reply = .ok id)
      (h : Finished p.msg w.storage p.interaction reply p.call s) :
      Stepped D ⟨w, ⟨saved, p⟩ :: fs⟩ (.reply reply)
        ⟨w.record p.msg p.call (.finished reply) s w.balance, fs⟩
  | credit {w : World} {fs : List (Frame World PendingCall)} (token : Address) (amount : ℕ) :
      Stepped D ⟨w, fs⟩ (.credit token amount)
        ⟨{ w with balance := Function.update w.balance token (w.balance token + amount) }, fs⟩
  | drift {w : World} {fs : List (Frame World PendingCall)} (token : Address) (amount : ℕ)
      (ht : token ≠ 0) :
      Stepped D ⟨w, fs⟩ (.drift token amount)
        ⟨{ w with balance := Function.update w.balance token amount }, fs⟩
  | tick {w : World} (seconds : ℕ) :
      Stepped D ⟨w, []⟩ (.tick seconds) ⟨{ w with now := w.now + seconds }, []⟩

section Machine

variable {D : Deployment} {w saved : World} {fs : List (Frame World PendingCall)} {p : PendingCall}
  {c d : ContractConfig} {e : Effect World PendingCall}

theorem Stepped.of_call {msg : Msg} {call : Call} (h : machine D (.call msg call) ⟨w, fs⟩ = some e)
    (hd : e.apply ⟨w, fs⟩ = some d) : Stepped D ⟨w, fs⟩ (.call msg call) d := by
  simp only [machine] at h
  split_ifs at h with hm
  obtain ⟨ht, hself⟩ := hm
  cases hs : start D msg (msg.received w.balance) w.storage call with
  | error err =>
    rw [hs] at h
    cases h
  | ok out =>
    obtain ⟨s, x⟩ := out
    have hv : call.payable = true ∨ msg.value = 0 := by
      obtain ⟨_, hv, -⟩ := bind_ok.mp hs
      exact require_ok.mp hv
    have hst := Started.of_start hs
    rw [hs] at h
    cases x with
    | none =>
      cases h
      cases hd
      exact .done msg call ht hself hst hv
    | some x =>
      simp only at h
      cases hb : x.depart D.self (msg.received w.balance) with
      | none =>
        rw [hb] at h
        cases h
      | some balance =>
        rw [hb] at h
        cases h
        cases hd
        exact .pending msg call ht hself hst hv hb

theorem Stepped.of_settle (h : machine D .settle ⟨w, ⟨saved, p⟩ :: fs⟩ = some e)
    (hd : e.apply ⟨w, ⟨saved, p⟩ :: fs⟩ = some d) : Stepped D ⟨w, ⟨saved, p⟩ :: fs⟩ .settle d := by
  simp only [machine] at h
  split_ifs at h with hp
  cases hb : p.interaction.settle D.self w.balance with
  | none =>
    rw [hb] at h
    cases h
  | some balance =>
    rw [hb] at h
    cases h
    cases hd
    exact .settled p (by simpa using hp) hb

theorem Stepped.of_reply {reply : Reply} (h : machine D (.reply reply) ⟨w, ⟨saved, p⟩ :: fs⟩ = some e)
    (hne : e ≠ .abort) (hd : e.apply ⟨w, ⟨saved, p⟩ :: fs⟩ = some d) :
    Stepped D ⟨w, ⟨saved, p⟩ :: fs⟩ (.reply reply) d := by
  simp only [machine] at h
  cases hf : finish p.msg w.storage p.interaction reply p.call with
  | error err =>
    rw [hf] at h
    cases h
    exact absurd rfl hne
  | ok s =>
    rw [hf] at h
    cases h
    cases hd
    obtain ⟨id, hid, -⟩ := bind_ok.mp hf
    exact .replied p reply ⟨id, hid⟩ (.of_finish hf)

theorem Stepped.of_machine {a : Act} (h : machine D a c = some e) (hne : e ≠ .abort)
    (hd : e.apply c = some d) : Stepped D c a d := by
  obtain ⟨w, fs⟩ := c
  cases a with
  | call msg call => exact .of_call h hd
  | settle =>
    cases fs with
    | nil => cases h
    | cons f fs => exact .of_settle h hd
  | reply reply =>
    cases fs with
    | nil => cases h
    | cons f fs => exact .of_reply h hne hd
  | credit token amount =>
    cases h
    cases hd
    exact .credit token amount
  | drift token amount =>
    simp only [machine] at h
    split_ifs at h with ht
    cases h
    cases hd
    exact .drift token amount ht
  | tick seconds =>
    cases fs with
    | nil =>
      cases h
      cases hd
      exact .tick seconds
    | cons f fs => cases h

theorem Stepped.of_next {msg : Msg} {call : Call} (h : (machine D).next (.call msg call) c = some d) :
    Stepped D c (.call msg call) d := by
  obtain ⟨e, he, hd⟩ := Option.bind_eq_some_iff.mp h
  obtain ⟨w, fs⟩ := c
  exact .of_call he hd

end Machine

section

variable {D : Deployment} {initialOwner : Address} {balance : Address → ℕ} {now : ℕ}
  {ok : ContractConfig → Act → Prop}

/-- Configurations the contract can be in when control is outside it. -/
abbrev Reachable (D : Deployment) (initialOwner : Address) (balance : Address → ℕ) (now : ℕ)
    (ok : ContractConfig → Act → Prop) : ContractConfig → Prop :=
  Reaches (machine D) ok (deployed initialOwner balance now)

theorem Reachable.invariant {P : ContractConfig → Prop} (h₀ : P (deployed initialOwner balance now))
    (hstep : ∀ c a d, Reachable D initialOwner balance now ok c → P c → ok c a → Stepped D c a d → P d)
    {c : ContractConfig} (h : Reachable D initialOwner balance now ok c) : P c :=
  Reaches.invariant rfl h₀
    (fun c a _ d hr hp ha he hne hd => hstep c a d hr hp ha (.of_machine he hne hd)) h

end

end Fidensur
