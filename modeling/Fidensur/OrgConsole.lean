import Fidensur.ContractEvents
import Fidensur.PolicyVault
import Fidensur.SealedPolicy

set_option autoImplicit false

/-! The console of an organization: the steps of a round, and the ciphertext between sealing and dispatch. -/

namespace Fidensur.OrgConsole

open NestedCalls ByteWords HexText Ecies BrowserPolicy PolicyVault

section Vault

/-- What the browser keeps for the console, by the number of the round. -/
abbrev Vault := ℕ → Option StoredPolicy

def savePolicy (writes : Bool) (entry : StoredPolicy) (vault : Vault) : Vault :=
  -- the quota may be exceeded, or storage disabled
  if writes = true then Function.update vault entry.roundId (some entry) else vault

def loadPolicy (vault : Vault) (roundId : ℕ) : Option StoredPolicy := vault roundId

end Vault

section Sealing

structure Platform (keccak : Keccak) where
  viem : Viem keccak
  codec : PolicyCodec keccak
  crypto : Crypto
  -- how viem reads a text given as a `bytes` argument
  encodeBytes : Text → Except String Bytes
  encodeBytes_ofBytes (b : Bytes) : encodeBytes (ofBytes b) = .ok b
  -- how the wallet library writes an account
  accountText : Address → Text
  contract : Text

structure PolicyDraft where
  entries : List BrowserPolicy.PolicyEntry
  mode : ℕ
  totalBudget : ℤ
  minAlloc : ℤ
  maxAlloc : ℤ
  bands : List ℤ
  validation : ValidationResult
  parseErrors : List Text

def PolicyDraft.ready (draft : PolicyDraft) : Bool :=
  !draft.entries.isEmpty && draft.parseErrors.isEmpty && draft.validation.ok

/-- What one press of the button finds: the configuration, the draft, the report of the proxy and what
the random generators return. -/
structure SealInput where
  proxyUrl : Bool
  draft : Option PolicyDraft
  info : Except String (Option TeePublicKey)
  salt : Text
  ephemeralPrivate : Bytes
  iv : Bytes

def SealInput.ready (input : SealInput) : Bool := input.draft.any PolicyDraft.ready

def noMachineKey : String := "proxy /info reported no machine public key — is the TEE node running?"

def extensionPublicKey (info : Except String (Option TeePublicKey)) : Except String Text := do
  match ← info with
  | some key => if key.x = [] ∨ key.y = [] then .error noMachineKey else encodeTeePublicKey key
  | none => .error noMachineKey

variable {keccak : Keccak} (P : Platform keccak)

def sealDraft (organization : Text) (roundId : ℕ) (input : SealInput) : Except String SealedPolicy := do
  require (input.proxyUrl = true) "NEXT_PUBLIC_EXT_PROXY_URL is not set"
  match input.draft with
  | none => .error "No policy has been composed yet."
  | some draft =>
      let teePubKey ← extensionPublicKey input.info
      let policy : BrowserPolicy.Policy :=
        { contractAddr := P.contract
          roundId := roundId
          organization := organization
          mode := draft.mode
          totalBudget := draft.totalBudget
          minAlloc := draft.minAlloc
          maxAlloc := draft.maxAlloc
          bands := draft.bands
          salt := input.salt
          entries := draft.entries }
      sealPolicy P.viem P.codec P.crypto input.ephemeralPrivate input.iv policy teePubKey

end Sealing

section Page

/-- The state of the panel on the page, which lasts as long as the panel does. -/
inductive Panel
  | policy (sealing : Option SealedPolicy) (saved : Bool)
  | compute (stored : Option StoredPolicy) (uploaded : Option Text)
  | other

structure ReadRound where
  roundId : ℕ
  round : Round

inductive Screen
  | create
  | checking
  | foreign
  | relay
  | wizard (step : ℕ)
deriving DecidableEq

structure Tab where
  account : Option Address
  roundId : Option ℕ
  round : Option ReadRound
  reads : List ReadRound
  viewing : ℕ
  panel : Panel

def blankTab : Tab := ⟨none, none, none, [], 0, .other⟩

def stepForRound (r : Round) : ℕ :=
  match r.status with
  | .finalized | .closed | .cancelled => 4
  | .computing | .committed => 3
  | .opened => if 0 < r.funded then 2 else 1
  | .none => 0

def Tab.screen (t : Tab) : Screen :=
  match t.roundId, t.round with
  | some _, some r =>
      match t.account with
      | none => .checking
      | some account =>
          if r.round.organization = account then .wizard t.viewing
          else if r.round.status = .computing then .relay
          else .foreign
  | _, _ => .create

def Tab.mounted (vault : Vault) (t : Tab) : Panel :=
  match t.screen with
  | .wizard 2 => .policy none false
  | .wizard 3 | .relay => .compute (t.roundId.bind (loadPolicy vault)) none
  | _ => .other

/-- A panel keeps its state while the screen stays the same, and a new one is mounted when it changes. -/
def Tab.render (vault : Vault) (t t' : Tab) : Tab :=
  if t'.screen = t.screen then t' else { t' with panel := t'.mounted vault }

def Tab.landed (t : Tab) (n : ℕ) : Tab :=
  match t.reads[n]? with
  | some r => { t with round := some r, viewing := stepForRound r.round, reads := t.reads.eraseIdx n }
  | none => t

def Tab.selects (t : Tab) (step : ℕ) : Bool :=
  match t.screen, t.round with
  | .wizard _, some r => decide (step ≤ stepForRound r.round)
  | _, _ => false

def Tab.composes (t : Tab) : Bool :=
  match t.round with
  | some r => decide (t.screen = .wizard 2) && decide (r.round.status = .opened)
  | none => false

def Tab.dispatches (t : Tab) : Bool :=
  match t.round with
  | some r => decide (t.screen = .wizard 3) && decide (r.round.status = .committed)
  | none => false

def Tab.ciphertext (t : Tab) : Option Text :=
  match t.panel with
  | .compute stored uploaded => uploaded.or (stored.map StoredPolicy.ciphertext)
  | _ => none

def Tab.matches (t : Tab) : Bool :=
  match t.panel, t.round with
  | .compute stored _, some r =>
      -- an uploaded text is not compared with anything
      t.ciphertext.isSome && decide (stored.map StoredPolicy.commitment = some (wordText r.round.policyCommitment))
  | _, _ => false

end Page

section Desk

def word32 (t : Text) : Option Bytes32 :=
  (toBytes t).bind fun b => if b.length = 32 then some (Fin.ofNat _ (ByteWords.value b)) else none

/-- A transaction that commits a round, on its way to the chain. Its ciphertext is noted for the proofs. -/
structure Submission where
  sender : Address
  roundId : Uint256
  commitment : Bytes32
  ciphertext : Option Bytes

/-- The tabs of one browser beside the chain, and the files that they gave and took. What was sealed, and
the ciphertexts whose commitments the console got accepted, are noted for the proofs. -/
structure Desk where
  chain : ContractConfig
  vault : Vault
  tabs : ℕ → Tab
  files : List Text
  uploads : List Text
  submissions : List Submission
  sealed : List Bytes
  committed : ℕ → Option Bytes

inductive Deed
  | chain (act : Act)
  | connect (tab : ℕ) (account : Option Address)
  | enter (tab roundId : ℕ)
  | leave (tab : ℕ)
  -- the number is the one that the refresh was started with
  | read (tab roundId : ℕ) (answered : Bool)
  | land (tab n : ℕ)
  | select (tab step : ℕ)
  | sealing (tab : ℕ) (input : SealInput) (writes : Bool)
  -- the panel that began the sealing is gone
  | stray (account : Address) (roundId : ℕ) (input : SealInput) (writes : Bool)
  | download (tab : ℕ)
  -- simulated and sent; it lands with `mine`
  | commit (tab : ℕ) (msg : Msg)
  | mine (n : ℕ) (msg : Msg)
  | upload (tab : ℕ) (file : Text)
  | clear

variable {D : Deployment} (P : Platform D.keccak)

def Desk.setTab (d : Desk) (tab : ℕ) (t : Tab) : Desk :=
  { d with tabs := Function.update d.tabs tab ((d.tabs tab).render d.vault t) }

def Desk.setPanel (d : Desk) (tab : ℕ) (panel : Panel) : Desk :=
  { d with tabs := Function.update d.tabs tab { d.tabs tab with panel := panel } }

/-- Sealing for a round stores the ciphertext, whether or not a panel still waits for it. -/
def Desk.stored (d : Desk) (roundId : ℕ) (sealedPolicy : SealedPolicy) (writes : Bool) : Desk :=
  { d with
    vault := savePolicy writes ⟨roundId, sealedPolicy.commitment, sealedPolicy.ciphertext⟩ d.vault
    sealed := (toBytes sealedPolicy.ciphertext).toList ++ d.sealed }

def Tab.submission (t : Tab) (sender : Address) : Option Submission :=
  match t.composes, t.panel, t.roundId with
  | true, .policy (some sealedPolicy) true, some roundId =>
      if h : roundId < 2 ^ 256 then
        (word32 sealedPolicy.commitment).map fun w =>
          ⟨sender, ⟨roundId, h⟩, w, toBytes sealedPolicy.ciphertext⟩
      else none
  | _, _, _ => none

def Submission.act (submission : Submission) (msg : Msg) : Act :=
  .call msg (.submitPolicy submission.roundId submission.commitment)

def Desk.mined (d : Desk) (n : ℕ) (submission : Submission) (c : ContractConfig) : Desk :=
  { d with
    chain := c
    submissions := d.submissions.eraseIdx n
    committed := Function.update d.committed submission.roundId submission.ciphertext }

def fetchRead (s : Storage) (roundId : ℕ) (answered : Bool) : Option ReadRound :=
  if answered = true ∧ roundId < 2 ^ 256 then (requireRound s roundId).toOption.map (ReadRound.mk roundId)
  else none

/-- What one deed does; one that the page refuses or that the library or the chain rejects does nothing. -/
@[simp] def work : Deed → Desk → Option Desk
  | .chain act, d => ((machine D).next act d.chain).map fun c => { d with chain := c }
  | .connect tab account, d => some (d.setTab tab { d.tabs tab with account := account })
  | .enter tab roundId, d =>
      if (d.tabs tab).screen = .create then
        some (d.setTab tab { d.tabs tab with roundId := some roundId, viewing := 0 })
      else none
  | .leave tab, d =>
      if (d.tabs tab).screen = .create ∨ (d.tabs tab).screen = .checking then none
      else some (d.setTab tab { d.tabs tab with roundId := none, round := none })
  | .read tab roundId answered, d =>
      if d.chain.stack ≠ [] then none
      else some (d.setTab tab { d.tabs tab with
        reads := (d.tabs tab).reads ++ (fetchRead d.chain.world.storage roundId answered).toList })
  | .land tab n, d => some (d.setTab tab ((d.tabs tab).landed n))
  | .select tab step, d =>
      if (d.tabs tab).selects step = true then some (d.setTab tab { d.tabs tab with viewing := step }) else none
  | .sealing tab input writes, d =>
      -- the button stays disabled until the draft is ready
      match (d.tabs tab).composes && input.ready, (d.tabs tab).panel, (d.tabs tab).roundId, (d.tabs tab).account with
      | true, .policy none saved, some roundId, some account =>
          match sealDraft P (P.accountText account) roundId input with
          | .ok sealedPolicy =>
              some ((d.stored roundId sealedPolicy writes).setPanel tab (.policy (some sealedPolicy) saved))
          | .error _ => some d
      | _, _, _, _ => none
  | .stray account roundId input writes, d =>
      if input.ready = true then
        match sealDraft P (P.accountText account) roundId input with
        | .ok sealedPolicy => some (d.stored roundId sealedPolicy writes)
        | .error _ => some d
      else none
  | .download tab, d =>
      match (d.tabs tab).composes, (d.tabs tab).panel, (d.tabs tab).roundId with
      | true, .policy (some sealedPolicy) _, some roundId =>
          let file := policyText ⟨roundId, sealedPolicy.commitment, sealedPolicy.ciphertext⟩
          some ({ d with files := file :: d.files }.setPanel tab (.policy (some sealedPolicy) true))
      | _, _, _ => none
  | .commit tab msg, d =>
      if d.chain.stack ≠ [] then none
      else
        match (d.tabs tab).submission msg.sender with
        | none => none
        | some submission =>
            match (machine D).next (submission.act msg) d.chain with
            | some _ => some { d with submissions := submission :: d.submissions }
            | none => some d
  | .mine n msg, d =>
      if d.chain.stack ≠ [] then none
      else
        match d.submissions[n]? with
        | none => none
        | some submission =>
            if msg.sender = submission.sender then
              match (machine D).next (submission.act msg) d.chain with
              | some c => some (d.mined n submission c)
              | none => some { d with submissions := d.submissions.eraseIdx n }
            else none
  | .upload tab file, d =>
      match (d.tabs tab).dispatches, (d.tabs tab).panel with
      | true, .compute none uploaded =>
          -- a second file may have been picked before the first was read
          some ({ d with uploads := file :: d.uploads }.setPanel tab
            (.compute none ((parsePolicyFile file).or uploaded)))
      | _, _ => none
  | .clear, d => some { d with vault := fun _ => none }

inductive Worked (ok : Desk → Deed → Prop) (start : Desk) : Desk → Prop
  | refl : Worked ok start start
  | tail {d e : Desk} {x : Deed} : Worked ok start d → ok d x → work P x d = some e → Worked ok start e

def blankDesk (initialOwner : Address) (balance : Address → ℕ) (now : ℕ) : Desk :=
  ⟨deployed initialOwner balance now, fun _ => none, fun _ => blankTab, [], [], [], [], fun _ => none⟩

def Deed.act? (d : Desk) : Deed → Option Act
  | .chain act => some act
  | .mine n msg => (d.submissions[n]?).map fun submission => submission.act msg
  | _ => none

def Runs (ok : ContractConfig → Act → Prop) (d : Desk) (x : Deed) : Prop :=
  ∀ act, x.act? d = some act → ok d.chain act

end Desk

section Ciphertexts

variable {keccak : Keccak} {P : Platform keccak} {organization : Text} {roundId : ℕ} {input : SealInput}
  {sealedPolicy : SealedPolicy}

def entryOf (keccak : Keccak) (roundId : ℕ) (c : Bytes) : StoredPolicy :=
  ⟨roundId, wordText (keccak c), ofBytes c⟩

theorem sealPolicy_spells {V : Viem keccak} {C : PolicyCodec keccak} {crypto : Crypto}
    {ephemeralPrivate iv : Bytes} {policy : BrowserPolicy.Policy} {key : Text}
    (h : sealPolicy V C crypto ephemeralPrivate iv policy key = .ok sealedPolicy) :
    ∃ c : Bytes, sealedPolicy = ⟨ofBytes c, wordText (keccak c)⟩ ∧ 32 < c.length := by
  unfold sealPolicy at h
  dsimp only at h
  split_ifs at h with hok
  simp only [bind_ok, V.bytesToHex_eq, V.keccak256_ofBytes, pure, Except.pure, Except.ok.injEq] at h
  obtain ⟨encoded, -, plaintext, -, recipient, -, ciphertext, hciphertext, commitment, rfl, rfl⟩ := h
  exact ⟨ciphertext.bytes, rfl, length_of_eciesEncrypt hciphertext⟩

theorem sealDraft_spells (h : sealDraft P organization roundId input = .ok sealedPolicy) :
    ∃ c : Bytes, sealedPolicy = ⟨ofBytes c, wordText (keccak c)⟩ ∧ 32 < c.length := by
  simp only [sealDraft, bind_ok, require_ok, exists_const] at h
  obtain ⟨-, h⟩ := h
  cases hdraft : input.draft with
  | none =>
    rw [hdraft] at h
    cases h
  | some draft =>
    rw [hdraft] at h
    obtain ⟨key, -, hseal⟩ := bind_ok.mp h
    exact sealPolicy_spells hseal

theorem word32_wordText (w : Bytes32) : word32 (wordText w) = some w := by
  have hbytes : toBytes (wordText w) = some (ofNat 32 (w : ℕ)) := toBytes_ofBytes _
  rw [word32, hbytes, Option.bind_some, if_pos (length_ofNat _ _), value_ofNat, Nat.mod_eq_of_lt (word_lt w),
    Fin.ofNat_val_eq_self]

end Ciphertexts

section Pledges

variable {D : Deployment} {initialOwner : Address} {balance : Address → ℕ} {now : ℕ}
  {ok : ContractConfig → Act → Prop} {c d : ContractConfig} {a : Act} {w : World} {msg : Msg}
  {view : Address → ℕ} {s s' : Storage} {call : Call} {x : Option Interaction} {id : ℕ} {k : Bytes32}
  {Q : Storage → Prop}

/-- A round that has its commitment, past the state in which it could get one. -/
structure Pledged (id : ℕ) (k : Bytes32) (s : Storage) : Prop where
  known : id < s.nextRoundId
  past : (s.rounds id).status ≠ .none ∧ (s.rounds id).status ≠ .opened
  commitment : (s.rounds id).policyCommitment = k

theorem Pledged.update (h : Pledged id k s) {i : ℕ} {r : Round} (hr : s'.rounds = Function.update s.rounds i r)
    (hn : s.nextRoundId ≤ s'.nextRoundId) (hc : id = i → r.policyCommitment = k)
    (hs : id = i → r.status ≠ .none ∧ r.status ≠ .opened) : Pledged id k s' := by
  refine ⟨h.known.trans_le hn, ?_, ?_⟩
  · rw [hr]
    by_cases hid : id = i
    · rw [hid, Function.update_self]
      exact hs hid
    · rw [Function.update_of_ne hid]
      exact h.past
  · rw [hr]
    by_cases hid : id = i
    · rw [hid, Function.update_self]
      exact hc hid
    · rw [Function.update_of_ne hid]
      exact h.commitment

theorem Pledged.congr (h : Pledged id k s) (hr : s'.rounds = s.rounds) (hn : s'.nextRoundId = s.nextRoundId) :
    Pledged id k s' := by
  refine ⟨?_, ?_, ?_⟩
  · rw [hn]
    exact h.known
  · rw [hr]
    exact h.past
  · rw [hr]
    exact h.commitment

theorem Pledged.started (h : Pledged id k s) (hst : Started D msg view s call s' x) : Pledged id k s' := by
  cases hst with
  | createRound =>
    refine h.update rfl (Nat.le_succ _) ?_ ?_
    · exact fun hid => absurd h.known (by omega)
    · exact fun hid => absurd h.known (by omega)
  -- only an open round is funded or committed, and this one is past that
  | fundNative i _ _ hopen =>
    refine h.update rfl le_rfl ?_ ?_
    · exact fun hid => absurd (hid ▸ hopen) h.past.2
    · exact fun hid => absurd (hid ▸ hopen) h.past.2
  | submitPolicy i _ hopen =>
    refine h.update rfl le_rfl ?_ ?_
    · exact fun hid => absurd (hid ▸ hopen) h.past.2
    · exact fun hid => absurd (hid ▸ hopen) h.past.2
  | finalizeRound =>
    refine h.update rfl le_rfl ?_ ?_
    · exact fun hid => hid ▸ h.commitment
    · exact fun _ => ⟨RoundStatus.noConfusion, RoundStatus.noConfusion⟩
  | claim =>
    refine h.update rfl le_rfl ?_ ?_
    · exact fun hid => hid ▸ h.commitment
    · exact fun hid => hid ▸ h.past
  | closeRound =>
    refine h.update rfl le_rfl ?_ ?_
    · exact fun hid => hid ▸ h.commitment
    · exact fun _ => ⟨RoundStatus.noConfusion, RoundStatus.noConfusion⟩
  | cancelRound =>
    refine h.update rfl le_rfl ?_ ?_
    · exact fun hid => hid ▸ h.commitment
    · exact fun _ => ⟨RoundStatus.noConfusion, RoundStatus.noConfusion⟩
  | _ => exact h.congr rfl rfl

theorem Pledged.finished (h : Pledged id k s) {y : Interaction} {reply : Reply}
    (hf : Finished msg s y reply call s') : Pledged id k s' := by
  cases hf with
  | fund =>
    refine h.update rfl le_rfl ?_ ?_
    · exact fun hid => hid ▸ h.commitment
    · exact fun hid => hid ▸ h.past
  | requestCompute =>
    refine h.update rfl le_rfl ?_ ?_
    · exact fun hid => hid ▸ h.commitment
    · exact fun _ => ⟨RoundStatus.noConfusion, RoundStatus.noConfusion⟩
  | _ => exact h.congr rfl rfl

/-- Whatever runs, callbacks and aborted calls included, a commitment stays. -/
theorem Pledged.reaches (h : Pledged id k w.storage) (hc : Reaches (machine D) ok ⟨w, []⟩ c) :
    Pledged id k c.world.storage := by
  refine Reaches.invariant (P := fun c => Pledged id k c.world.storage) rfl h ?_ hc
  intro c a e d _ hp _ he hne hd
  cases Stepped.of_machine he hne hd with
  | done msg call ht hself hst => exact hp.started hst
  | pending msg call ht hself hst => exact hp.started hst
  | replied p reply hacc hf => exact hp.finished hf
  | _ => exact hp

theorem Reachable.unused (h : Reachable D initialOwner balance now ok c) : c.world.storage.Unused := by
  suffices horderly : Orderly c from horderly.unused
  refine Reachable.invariant (P := Orderly) ?_ ?_ h
  · exact ⟨rfl, fun _ _ => rfl, List.forall_mem_nil _, List.forall_mem_nil _, .nil⟩
  · exact fun c a d _ hp _ hstep => hp.step hstep

/-- Something that held in the contract at some moment between its calls. -/
def Since (D : Deployment) (initialOwner : Address) (balance : Address → ℕ) (now : ℕ)
    (ok : ContractConfig → Act → Prop) (Q : Storage → Prop) (c : ContractConfig) : Prop :=
  ∃ w : World, Reachable D initialOwner balance now ok ⟨w, []⟩ ∧ Q w.storage ∧
    Reaches (machine D) ok ⟨w, []⟩ c

theorem Since.tail (h : Since D initialOwner balance now ok Q c) (ha : ok c a)
    (hd : (machine D).next a c = some d) : Since D initialOwner balance now ok Q d := by
  obtain ⟨w, hreached, hq, hsince⟩ := h
  exact ⟨w, hreached, hq, hsince.tail ha hd⟩

theorem Since.idle (h : Reachable D initialOwner balance now ok c) (hstack : c.stack = [])
    (hq : Q c.world.storage) : Since D initialOwner balance now ok Q c := by
  have hidle : c = ⟨c.world, []⟩ := by rw [← hstack]
  refine ⟨c.world, ?_, hq, ?_⟩
  · rw [← hidle]
    exact h
  · rw [← hidle]
    exact .refl

theorem Since.pledged (h : Since D initialOwner balance now ok (Pledged id k) c) :
    Pledged id k c.world.storage := by
  obtain ⟨w, -, hp, hsince⟩ := h
  exact hp.reaches hsince

end Pledges

section Soundness

variable {D : Deployment} {P : Platform D.keccak} {initialOwner : Address} {balance : Address → ℕ} {now : ℕ}
  {ok : ContractConfig → Act → Prop} {okDesk : Desk → Deed → Prop} {keccak : Keccak} {sealed sealed' : List Bytes}
  {files files' uploads uploads' : List Text} {vault : Vault} {t t' : Tab} {d e : Desk} {x : Deed} {tab : ℕ} {p : Panel}
  {roundId : Option ℕ} {c : ContractConfig}

def Vault.Sound (keccak : Keccak) (sealed : List Bytes) (vault : Vault) : Prop :=
  ∀ id e, vault id = some e → ∃ c ∈ sealed, e = entryOf keccak id c

/-- What a panel holds was sealed, stored or downloaded for the round that the tab has open. -/
def Panel.Sound (keccak : Keccak) (sealed : List Bytes) (files uploads : List Text) (roundId : Option ℕ) :
    Panel → Prop
  | .policy none saved => saved = false
  | .policy (some sealedPolicy) saved => ∃ id, roundId = some id ∧ ∃ c ∈ sealed,
      sealedPolicy = ⟨ofBytes c, wordText (keccak c)⟩ ∧ (saved = true → policyText (entryOf keccak id c) ∈ files)
  | .compute stored uploaded =>
      (∀ e, stored = some e → ∃ id, roundId = some id ∧ ∃ c ∈ sealed, e = entryOf keccak id c) ∧
        ∀ u, uploaded = some u → stored = none ∧ ∃ f ∈ uploads, parsePolicyFile f = some u
  | .other => True

structure Tab.Sound (keccak : Keccak) (sealed : List Bytes) (files uploads : List Text) (t : Tab) : Prop where
  panel : t.panel.Sound keccak sealed files uploads t.roundId
  create : t.screen = .create → t.panel = .other

theorem Vault.Sound.mono (h : vault.Sound keccak sealed) (hs : sealed ⊆ sealed') : vault.Sound keccak sealed' := by
  intro id e he
  obtain ⟨c, hc, rfl⟩ := h id e he
  exact ⟨c, hs hc, rfl⟩

theorem Panel.Sound.mono (h : p.Sound keccak sealed files uploads roundId) (hs : sealed ⊆ sealed') (hf : files ⊆ files')
    (hu : uploads ⊆ uploads') :
    p.Sound keccak sealed' files' uploads' roundId := by
  cases p with
  | policy sealedPolicy saved =>
    cases sealedPolicy with
    | none => exact h
    | some sealedPolicy =>
      obtain ⟨id, hid, c, hc, hsealed, hsaved⟩ := h
      exact ⟨id, hid, c, hs hc, hsealed, fun hsv => hf (hsaved hsv)⟩
  | compute stored uploaded =>
    obtain ⟨hstored, huploaded⟩ := h
    constructor
    · intro e he
      obtain ⟨id, hid, c, hc, hentry⟩ := hstored e he
      exact ⟨id, hid, c, hs hc, hentry⟩
    · intro u h
      obtain ⟨hnone, f, hfile, hparse⟩ := huploaded u h
      exact ⟨hnone, f, hu hfile, hparse⟩
  | other => trivial

theorem Tab.Sound.mono (h : t.Sound keccak sealed files uploads) (hs : sealed ⊆ sealed') (hf : files ⊆ files')
    (hu : uploads ⊆ uploads') :
    t.Sound keccak sealed' files' uploads' :=
  ⟨h.panel.mono hs hf hu, h.create⟩

theorem mounted_sound (hv : vault.Sound keccak sealed) :
    (t.mounted vault).Sound keccak sealed files uploads t.roundId := by
  have hcompute : (Panel.compute (t.roundId.bind (loadPolicy vault)) none).Sound keccak sealed files uploads t.roundId := by
    constructor
    · intro e he
      obtain ⟨id, hid, hload⟩ := Option.bind_eq_some_iff.mp he
      exact ⟨id, hid, hv id e hload⟩
    · intro u hu
      cases hu
  unfold Tab.mounted
  split
  · rfl
  · exact hcompute
  · exact hcompute
  · trivial

/-- A change of a tab that leaves its panel alone, before the page is drawn again. -/
theorem Tab.Sound.render (h : t.Sound keccak sealed files uploads) (hv : vault.Sound keccak sealed)
    (hpanel : t'.panel = t.panel) (hid : t'.screen = t.screen → t'.roundId = t.roundId ∨ t.screen = .create) :
    (t.render vault t').Sound keccak sealed files uploads := by
  unfold Tab.render
  split_ifs with hscreen
  · constructor
    · rw [hpanel]
      rcases hid hscreen with hid | hcreate
      · rw [hid]
        exact h.panel
      · rw [h.create hcreate]
        trivial
    · intro hcreate
      rw [hpanel]
      exact h.create (hscreen.symm.trans hcreate)
  · constructor
    · exact mounted_sound (t := t') hv
    · intro hcreate
      have hcreate' : t'.screen = .create := hcreate
      simp only [Tab.mounted, hcreate']

/-- The round on a page, and any read still to return, came from the chain. -/
def Tab.FromChain (Q : ReadRound → Prop) (t : Tab) : Prop := ∀ r, r ∈ t.reads ∨ t.round = some r → Q r

def ReadSince (D : Deployment) (initialOwner : Address) (balance : Address → ℕ) (now : ℕ)
    (ok : ContractConfig → Act → Prop) (c : ContractConfig) (r : ReadRound) : Prop :=
  Since D initialOwner balance now ok (fun s => s.rounds r.roundId = r.round) c

def Submission.Sound (keccak : Keccak) (sealed : List Bytes) (files : List Text) (submission : Submission) : Prop :=
  ∃ c ∈ sealed, submission.commitment = keccak c ∧ submission.ciphertext = some c ∧
    policyText (entryOf keccak submission.roundId c) ∈ files

theorem Submission.Sound.mono {submission : Submission} (h : submission.Sound keccak sealed files)
    (hs : sealed ⊆ sealed') (hf : files ⊆ files') : submission.Sound keccak sealed' files' := by
  obtain ⟨c, hc, hcommitment, hciphertext, hfile⟩ := h
  exact ⟨c, hs hc, hcommitment, hciphertext, hf hfile⟩

structure Desk.Sound (D : Deployment) (initialOwner : Address) (balance : Address → ℕ) (now : ℕ)
    (ok : ContractConfig → Act → Prop) (d : Desk) : Prop where
  reached : Reachable D initialOwner balance now ok d.chain
  long : ∀ c ∈ d.sealed, 32 < c.length
  vault : d.vault.Sound D.keccak d.sealed
  files : ∀ f ∈ d.files, ∃ id, ∃ c ∈ d.sealed, f = policyText (entryOf D.keccak id c)
  tabs : ∀ tab, (d.tabs tab).Sound D.keccak d.sealed d.files d.uploads
  reads : ∀ tab, (d.tabs tab).FromChain (ReadSince D initialOwner balance now ok d.chain)
  submissions : ∀ x ∈ d.submissions, x.Sound D.keccak d.sealed d.files
  committed : ∀ id c, d.committed id = some c → c ∈ d.sealed ∧ policyText (entryOf D.keccak id c) ∈ d.files ∧
    Since D initialOwner balance now ok (Pledged id (D.keccak c)) d.chain

theorem Desk.Sound.update (h : d.Sound D initialOwner balance now ok)
    (ht : t.Sound D.keccak d.sealed d.files d.uploads) (hreads : t.FromChain (ReadSince D initialOwner balance now ok d.chain)) :
    { d with tabs := Function.update d.tabs tab t }.Sound D initialOwner balance now ok := by
  refine ⟨h.reached, h.long, h.vault, h.files, ?_, ?_, h.submissions, h.committed⟩
  · apply (Function.forall_update_iff d.tabs (p := fun _ t => t.Sound D.keccak d.sealed d.files d.uploads)).mpr
    exact ⟨ht, fun i _ => h.tabs i⟩
  · apply (Function.forall_update_iff d.tabs
      (p := fun _ t => t.FromChain (ReadSince D initialOwner balance now ok d.chain))).mpr
    exact ⟨hreads, fun i _ => h.reads i⟩

theorem Desk.Sound.setTab (h : d.Sound D initialOwner balance now ok) (hpanel : t.panel = (d.tabs tab).panel)
    (hid : t.screen = (d.tabs tab).screen → t.roundId = (d.tabs tab).roundId ∨ (d.tabs tab).screen = .create)
    (hreads : t.FromChain (ReadSince D initialOwner balance now ok d.chain)) :
    (d.setTab tab t).Sound D initialOwner balance now ok := by
  apply h.update
  · exact (h.tabs tab).render h.vault hpanel hid
  · intro r hr
    apply hreads r
    unfold Tab.render at hr
    split_ifs at hr
    · exact hr
    · exact hr

theorem Desk.Sound.setPanel (h : d.Sound D initialOwner balance now ok)
    (hpanel : p.Sound D.keccak d.sealed d.files d.uploads (d.tabs tab).roundId) (hscreen : (d.tabs tab).screen ≠ .create) :
    (d.setPanel tab p).Sound D initialOwner balance now ok := by
  apply h.update
  · exact ⟨hpanel, fun hcreate => absurd hcreate hscreen⟩
  · exact h.reads tab

theorem Desk.Sound.stored (h : d.Sound D initialOwner balance now ok) (id : ℕ) {c : Bytes} (hc : 32 < c.length)
    (writes : Bool) : (d.stored id ⟨ofBytes c, wordText (D.keccak c)⟩ writes).Sound D initialOwner balance now ok ∧
      c ∈ (d.stored id ⟨ofBytes c, wordText (D.keccak c)⟩ writes).sealed := by
  have hsealed : (d.stored id ⟨ofBytes c, wordText (D.keccak c)⟩ writes).sealed = c :: d.sealed := by
    simp only [Desk.stored, toBytes_ofBytes, Option.toList_some, List.cons_append, List.nil_append]
  have hsub : d.sealed ⊆ c :: d.sealed := List.subset_cons_self _ _
  refine ⟨⟨h.reached, ?_, ?_, ?_, ?_, h.reads, ?_, ?_⟩, ?_⟩
  · rw [hsealed]
    exact List.forall_mem_cons.mpr ⟨hc, h.long⟩
  · rw [hsealed]
    intro i e he
    simp only [Desk.stored, savePolicy] at he
    split_ifs at he
    · by_cases hi : i = id
      · rw [hi, Function.update_self] at he
        obtain rfl := Option.some.inj he
        exact ⟨c, List.mem_cons_self, by rw [hi, entryOf]⟩
      · rw [Function.update_of_ne hi] at he
        exact h.vault.mono hsub i e he
    · exact h.vault.mono hsub i e he
  · rw [hsealed]
    intro f hf
    obtain ⟨i, c', hc', hfile⟩ := h.files f hf
    exact ⟨i, c', hsub hc', hfile⟩
  · intro tab
    rw [hsealed]
    exact (h.tabs tab).mono hsub (List.Subset.refl _) (List.Subset.refl _)
  · intro submission hsubmission
    rw [hsealed]
    exact (h.submissions submission hsubmission).mono hsub (List.Subset.refl _)
  · intro i c' hc'
    obtain ⟨hin, hfile, hsince⟩ := h.committed i c' hc'
    rw [hsealed]
    exact ⟨hsub hin, hfile, hsince⟩
  · rw [hsealed]
    exact List.mem_cons_self

theorem Desk.Sound.chained (h : d.Sound D initialOwner balance now ok) {a : Act} (ha : ok d.chain a)
    (hc : (machine D).next a d.chain = some c) : { d with chain := c }.Sound D initialOwner balance now ok := by
  refine ⟨h.reached.tail ha hc, h.long, h.vault, h.files, h.tabs, ?_, h.submissions, ?_⟩
  · exact fun tab r hr => (h.reads tab r hr).tail ha hc
  · intro id c' hc'
    obtain ⟨hin, hfile, hsince⟩ := h.committed id c' hc'
    exact ⟨hin, hfile, hsince.tail ha hc⟩

end Soundness

section Working

variable {D : Deployment} {P : Platform D.keccak} {initialOwner : Address} {balance : Address → ℕ} {now : ℕ}
  {ok : ContractConfig → Act → Prop} {okDesk : Desk → Deed → Prop} {t : Tab} {d e : Desk} {x : Deed} {tab : ℕ}
  {c : ContractConfig}

theorem composes_screen (h : t.composes = true) : t.screen = .wizard 2 := by
  unfold Tab.composes at h
  split at h
  · rw [Bool.and_eq_true, decide_eq_true_eq] at h
    exact h.1
  · cases h

theorem composes_shown (h : t.composes = true) : t.screen ≠ .create := by
  rw [composes_screen h]
  exact Screen.noConfusion

theorem dispatches_ok (h : t.dispatches = true) :
    t.screen = .wizard 3 ∧ ∃ r, t.round = some r ∧ r.round.status = .committed := by
  unfold Tab.dispatches at h
  split at h
  · next r hr =>
    rw [Bool.and_eq_true, decide_eq_true_eq, decide_eq_true_eq] at h
    exact ⟨h.1, r, hr, h.2⟩
  · cases h

theorem dispatches_shown (h : t.dispatches = true) : t.screen ≠ .create := by
  rw [(dispatches_ok h).1]
  exact Screen.noConfusion

theorem submission_ok {sender : Address} {submission : Submission} (h : t.submission sender = some submission) :
    ∃ sealedPolicy, t.panel = .policy (some sealedPolicy) true ∧ t.roundId = some (submission.roundId : ℕ) ∧
      word32 sealedPolicy.commitment = some submission.commitment ∧
      submission.ciphertext = toBytes sealedPolicy.ciphertext := by
  unfold Tab.submission at h
  split at h
  · next hcomposes sealedPolicy roundId hscreen hpanel hid =>
    split_ifs at h with hlt
    obtain ⟨w, hw, rfl⟩ := Option.map_eq_some_iff.mp h
    exact ⟨sealedPolicy, hpanel, hid, hw, rfl⟩
  · cases h

theorem Desk.Sound.submission (h : d.Sound D initialOwner balance now ok) {sender : Address}
    {submission : Submission} (hs : (d.tabs tab).submission sender = some submission) :
    submission.Sound D.keccak d.sealed d.files := by
  obtain ⟨sealedPolicy, hpanel, hid, hw, hciphertext⟩ := submission_ok hs
  have hsound := (h.tabs tab).panel
  rw [hpanel, hid] at hsound
  obtain ⟨id, hsame, c, hc, rfl, hfile⟩ := hsound
  obtain rfl := Option.some.inj hsame
  rw [word32_wordText] at hw
  rw [toBytes_ofBytes] at hciphertext
  exact ⟨c, hc, (Option.some.inj hw).symm, hciphertext, hfile rfl⟩

theorem fetchRead_ok {s : Storage} {roundId : ℕ} {answered : Bool} {r : ReadRound}
    (h : r ∈ (fetchRead s roundId answered).toList) : s.rounds r.roundId = r.round := by
  rw [Option.mem_toList, fetchRead] at h
  split_ifs at h
  obtain ⟨round, hround, rfl⟩ := Option.map_eq_some_iff.mp h
  cases hread : requireRound s roundId with
  | error err =>
    rw [hread] at hround
    cases hround
  | ok read =>
    rw [hread] at hround
    obtain rfl := Option.some.inj hround
    exact (requireRound_ok.mp hread).2.symm

theorem submitted_pledged {msg : Msg} {roundId : Uint256} {w : Bytes32} (hstack : d.chain.stack = [])
    (hunused : d.chain.world.storage.Unused)
    (hc : (machine D).next (.call msg (.submitPolicy roundId w)) d.chain = some c) :
    c.stack = [] ∧ Pledged roundId w c.world.storage := by
  cases hchain : d.chain with
  | mk world stack =>
    rw [hchain] at hc hstack hunused
    have hstep := Stepped.of_next hc
    cases hstep with
    | done _ _ ht hself hst =>
      cases hst with
      | configure _ _ _ _ _ hconf => cases hconf
      | submitPolicy _ _ hopen =>
        have hne : (world.storage.rounds roundId).status ≠ .none := by
          rw [hopen]
          exact RoundStatus.noConfusion
        refine ⟨hstack, hunused.lt hne, ?_, ?_⟩
        · simp [World.record]
        · simp [World.record]
    | pending _ _ ht hself hst => cases hst

theorem Desk.Sound.mined (h : d.Sound D initialOwner balance now ok) {n : ℕ} {msg : Msg} {submission : Submission}
    (hstack : d.chain.stack = []) (hn : d.submissions[n]? = some submission) (ha : ok d.chain (submission.act msg))
    (hc : (machine D).next (submission.act msg) d.chain = some c) :
    (d.mined n submission c).Sound D initialOwner balance now ok := by
  obtain ⟨b, hb, hcommitment, hciphertext, hfile⟩ := h.submissions submission (List.mem_of_getElem? hn)
  have hchained := h.chained ha hc
  obtain ⟨hidle, hpledged⟩ := submitted_pledged hstack (Reachable.unused h.reached) hc
  rw [hcommitment] at hpledged
  refine ⟨hchained.reached, h.long, h.vault, h.files, h.tabs, hchained.reads, ?_, ?_⟩
  · exact fun x hx => h.submissions x (List.mem_of_mem_eraseIdx hx)
  · intro i b' hb'
    simp only [Desk.mined] at hb'
    by_cases hi : i = submission.roundId
    · rw [hi, Function.update_self, hciphertext] at hb'
      obtain rfl := Option.some.inj hb'
      rw [hi]
      exact ⟨hb, hfile, .idle hchained.reached hidle hpledged⟩
    · rw [Function.update_of_ne hi] at hb'
      exact hchained.committed i b' hb'

theorem Desk.Sound.sent (h : d.Sound D initialOwner balance now ok) {submissions : List Submission}
    (hs : ∀ x ∈ submissions, x.Sound D.keccak d.sealed d.files) :
    { d with submissions := submissions }.Sound D initialOwner balance now ok :=
  ⟨h.reached, h.long, h.vault, h.files, h.tabs, h.reads, hs, h.committed⟩

theorem Desk.Sound.landed (h : d.Sound D initialOwner balance now ok) (tab n : ℕ) :
    (d.setTab tab ((d.tabs tab).landed n)).Sound D initialOwner balance now ok := by
  unfold Tab.landed
  split
  · next r hr =>
    refine h.setTab rfl (fun _ => .inl rfl) ?_
    intro r' hr'
    rcases hr' with hr' | hr'
    · exact h.reads tab r' (.inl (List.mem_of_mem_eraseIdx hr'))
    · obtain rfl := Option.some.inj hr'
      exact h.reads tab r (.inl (List.mem_of_getElem? hr))
  · exact h.setTab rfl (fun _ => .inl rfl) (h.reads tab)

theorem Desk.Sound.drafted (h : d.Sound D initialOwner balance now ok) {organization : Text} {roundId : ℕ}
    {input : SealInput} {sealedPolicy : SealedPolicy} (writes : Bool)
    (hseal : sealDraft P organization roundId input = .ok sealedPolicy) :
    (d.stored roundId sealedPolicy writes).Sound D initialOwner balance now ok ∧
      ∃ b ∈ (d.stored roundId sealedPolicy writes).sealed, sealedPolicy = ⟨ofBytes b, wordText (D.keccak b)⟩ := by
  obtain ⟨b, rfl, hlong⟩ := sealDraft_spells hseal
  obtain ⟨hstored, hin⟩ := h.stored roundId hlong writes
  exact ⟨hstored, b, hin, rfl⟩

theorem Desk.Sound.downloaded (h : d.Sound D initialOwner balance now ok) (roundId : ℕ) {b : Bytes}
    (hb : b ∈ d.sealed) : { d with files := policyText (entryOf D.keccak roundId b) :: d.files }.Sound D
      initialOwner balance now ok := by
  refine ⟨h.reached, h.long, h.vault, ?_, ?_, h.reads, ?_, ?_⟩
  · exact List.forall_mem_cons.mpr ⟨⟨roundId, b, hb, rfl⟩, h.files⟩
  · intro tab
    exact (h.tabs tab).mono (List.Subset.refl _) (List.subset_cons_self _ _) (List.Subset.refl _)
  · intro submission hsubmission
    exact (h.submissions submission hsubmission).mono (List.Subset.refl _) (List.subset_cons_self _ _)
  · intro id c hc
    obtain ⟨hin, hfile, hsince⟩ := h.committed id c hc
    exact ⟨hin, List.mem_cons_of_mem _ hfile, hsince⟩

theorem Desk.Sound.uploaded (h : d.Sound D initialOwner balance now ok) (file : Text) :
    { d with uploads := file :: d.uploads }.Sound D initialOwner balance now ok := by
  refine ⟨h.reached, h.long, h.vault, h.files, ?_, h.reads, h.submissions, h.committed⟩
  intro tab
  exact (h.tabs tab).mono (List.Subset.refl _) (List.Subset.refl _) (List.subset_cons_self _ _)

theorem Desk.Sound.left (h : d.Sound D initialOwner balance now ok) (hx : work P (.leave tab) d = some e) :
    e.Sound D initialOwner balance now ok := by
  simp only [OrgConsole.work] at hx
  split_ifs at hx with hscreen
  obtain rfl := Option.some.inj hx
  refine h.setTab rfl ?_ ?_
  · intro hsame
    exact absurd (Eq.symm hsame) (not_or.mp hscreen).1
  · intro r hr
    rcases hr with hr | hr
    · exact h.reads tab r (.inl hr)
    · cases hr

theorem Desk.Sound.read (h : d.Sound D initialOwner balance now ok) {roundId : ℕ} {answered : Bool}
    (hx : work P (.read tab roundId answered) d = some e) : e.Sound D initialOwner balance now ok := by
  simp only [OrgConsole.work] at hx
  split_ifs at hx with hstack
  obtain rfl := Option.some.inj hx
  refine h.setTab rfl (fun _ => .inl rfl) ?_
  intro r hr
  rcases hr with hr | hr
  · rcases List.mem_append.mp hr with hr | hr
    · exact h.reads tab r (.inl hr)
    · exact .idle h.reached (not_not.mp hstack) (fetchRead_ok hr)
  · exact h.reads tab r (.inr hr)

theorem Desk.Sound.sealing (h : d.Sound D initialOwner balance now ok) {input : SealInput} {writes : Bool}
    (hx : work P (.sealing tab input writes) d = some e) : e.Sound D initialOwner balance now ok := by
  simp only [OrgConsole.work] at hx
  split at hx
  · next saved roundId account hready hpanel hid haccount =>
    have hcomposes : (d.tabs tab).composes = true := (Bool.and_eq_true_iff.mp hready).1
    cases hseal : sealDraft P (P.accountText account) roundId input with
    | error err =>
      rw [hseal] at hx
      obtain rfl := Option.some.inj hx
      exact h
    | ok sealedPolicy =>
      rw [hseal] at hx
      obtain rfl := Option.some.inj hx
      obtain ⟨hstored, c, hin, hsealed⟩ := h.drafted writes hseal
      have hsaved := (h.tabs tab).panel
      rw [hpanel] at hsaved
      refine hstored.setPanel ⟨roundId, hid, c, hin, hsealed, ?_⟩ (composes_shown hcomposes)
      intro hsv
      rw [hsaved] at hsv
      cases hsv
  · cases hx

theorem Desk.Sound.stray (h : d.Sound D initialOwner balance now ok) {account : Address} {roundId : ℕ}
    {input : SealInput} {writes : Bool} (hx : work P (.stray account roundId input writes) d = some e) :
    e.Sound D initialOwner balance now ok := by
  simp only [OrgConsole.work] at hx
  split_ifs at hx
  cases hseal : sealDraft P (P.accountText account) roundId input with
  | error err =>
    rw [hseal] at hx
    obtain rfl := Option.some.inj hx
    exact h
  | ok sealedPolicy =>
    rw [hseal] at hx
    obtain rfl := Option.some.inj hx
    exact (h.drafted writes hseal).1

theorem Desk.Sound.download (h : d.Sound D initialOwner balance now ok) (hx : work P (.download tab) d = some e) :
    e.Sound D initialOwner balance now ok := by
  simp only [OrgConsole.work] at hx
  split at hx
  · next sealedPolicy saved roundId hcomposes hpanel hid =>
    obtain rfl := Option.some.inj hx
    have hsound := (h.tabs tab).panel
    rw [hpanel, hid] at hsound
    obtain ⟨id, hsame, c, hc, rfl, -⟩ := hsound
    obtain rfl := Option.some.inj hsame
    apply (h.downloaded roundId hc).setPanel
    · exact ⟨roundId, hid, c, hc, rfl, fun _ => List.mem_cons_self⟩
    · exact composes_shown hcomposes
  · cases hx

theorem Desk.Sound.commit (h : d.Sound D initialOwner balance now ok) {msg : Msg}
    (hx : work P (.commit tab msg) d = some e) : e.Sound D initialOwner balance now ok := by
  simp only [OrgConsole.work] at hx
  split_ifs at hx with hstack
  split at hx
  · cases hx
  · next submission hsubmission =>
    split at hx
    · obtain rfl := Option.some.inj hx
      exact h.sent (List.forall_mem_cons.mpr ⟨h.submission hsubmission, h.submissions⟩)
    · obtain rfl := Option.some.inj hx
      exact h

theorem Desk.Sound.mine (h : d.Sound D initialOwner balance now ok) {n : ℕ} {msg : Msg}
    (hq : Runs ok d (.mine n msg)) (hx : work P (.mine n msg) d = some e) : e.Sound D initialOwner balance now ok := by
  simp only [OrgConsole.work] at hx
  split_ifs at hx with hstack
  split at hx
  · cases hx
  · next submission hn =>
    split_ifs at hx with hsender
    split at hx
    · next c hc =>
      obtain rfl := Option.some.inj hx
      apply h.mined (not_not.mp hstack) hn _ hc
      apply hq
      rw [Deed.act?, hn, Option.map_some]
    · obtain rfl := Option.some.inj hx
      exact h.sent fun x hx => h.submissions x (List.mem_of_mem_eraseIdx hx)

theorem Desk.Sound.upload (h : d.Sound D initialOwner balance now ok) {file : Text}
    (hx : work P (.upload tab file) d = some e) : e.Sound D initialOwner balance now ok := by
  simp only [OrgConsole.work] at hx
  split at hx
  · next uploaded hdispatches hpanel =>
    obtain rfl := Option.some.inj hx
    have hsound := (h.tabs tab).panel
    rw [hpanel] at hsound
    refine (h.uploaded file).setPanel ⟨?_, ?_⟩ (dispatches_shown hdispatches)
    · intro e he
      cases he
    · intro u hu
      refine ⟨rfl, ?_⟩
      rcases Option.or_eq_some_iff.mp hu with hparsed | ⟨-, hbefore⟩
      · exact ⟨file, List.mem_cons_self, hparsed⟩
      · obtain ⟨-, f, hf, hparsed⟩ := hsound.2 u hbefore
        exact ⟨f, List.mem_cons_of_mem _ hf, hparsed⟩
  · cases hx

theorem Desk.Sound.work (h : d.Sound D initialOwner balance now ok) (hq : Runs ok d x) (hx : work P x d = some e) :
    e.Sound D initialOwner balance now ok := by
  cases x with
  | chain act =>
    obtain ⟨c, hc, rfl⟩ := Option.map_eq_some_iff.mp hx
    exact h.chained (hq act rfl) hc
  | connect tab account =>
    obtain rfl := Option.some.inj hx
    exact h.setTab rfl (fun _ => .inl rfl) (h.reads tab)
  | enter tab roundId =>
    simp only [OrgConsole.work] at hx
    split_ifs at hx with hscreen
    obtain rfl := Option.some.inj hx
    exact h.setTab rfl (fun _ => .inr hscreen) (h.reads tab)
  | leave tab => exact h.left hx
  | read tab roundId answered => exact h.read hx
  | land tab n =>
    obtain rfl := Option.some.inj hx
    exact h.landed tab n
  | select tab step =>
    simp only [OrgConsole.work] at hx
    split_ifs at hx
    obtain rfl := Option.some.inj hx
    exact h.setTab rfl (fun _ => .inl rfl) (h.reads tab)
  | sealing tab input writes => exact h.sealing hx
  | stray account roundId input writes => exact h.stray hx
  | download tab => exact h.download hx
  | commit tab msg => exact h.commit hx
  | mine n msg => exact h.mine hq hx
  | upload tab file => exact h.upload hx
  | clear =>
    obtain rfl := Option.some.inj hx
    refine ⟨h.reached, h.long, ?_, h.files, h.tabs, h.reads, h.submissions, h.committed⟩
    intro id e he
    cases he

theorem Worked.sound (hok : ∀ d x, okDesk d x → Runs ok d x)
    (h : Worked P okDesk (blankDesk initialOwner balance now) d) : d.Sound D initialOwner balance now ok := by
  induction h with
  | refl =>
    refine ⟨.refl, List.forall_mem_nil _, ?_, List.forall_mem_nil _, ?_, ?_, List.forall_mem_nil _, ?_⟩
    · intro id e he
      cases he
    · exact fun tab => ⟨trivial, fun _ => rfl⟩
    · intro tab r hr
      rcases hr with hr | hr
      · cases hr
      · cases hr
    · intro id c hc
      cases hc
  | tail _ hx hwork ih => exact ih.work (hok _ _ hx) hwork

end Working

section Dispatching

variable {D : Deployment} {msg : Msg} {view : Address → ℕ} {s : Storage} {roundId : Uint256} {b : Bytes}

/-- What a request for the computation asks of the contract besides its ciphertext. -/
structure Dispatchable (s : Storage) (msg : Msg) (roundId : Uint256) : Prop where
  organization : msg.sender = (s.rounds roundId).organization
  status : requireDispatchable msg roundId (s.rounds roundId) = .ok ()
  extension : s.extensionId ≠ 0
  machines : msg.registry.randomTeeIds ≠ []

theorem requestCompute_iff (hb : b ≠ []) :
    (∃ out, start D msg view s (.requestCompute roundId b) = .ok out) ↔
      D.keccak b = (s.rounds roundId).policyCommitment ∧ Dispatchable s msg roundId := by
  constructor
  · rintro ⟨out, hstart⟩
    obtain ⟨-, -, hcall⟩ := bind_ok.mp hstart
    have hcall' : requestCompute D msg roundId b s = .ok out := hcall
    simp only [requestCompute, bind_ok, requireRound_ok, require_ok, pickTee_ok, exists_const] at hcall'
    obtain ⟨_, ⟨-, rfl⟩, ho, -, u, hdispatch, hp, -, ⟨hext, htees, -⟩, -⟩ := hcall'
    exact ⟨hp, ho, hdispatch, hext, htees⟩
  · rintro ⟨hp, ho, hdispatch, hext, htees⟩
    have hst : (s.rounds roundId).status ≠ .none := by
      rcases requireDispatchable_ok.mp hdispatch with hst | ⟨hst, -⟩
      · rw [hst]
        exact RoundStatus.noConfusion
      · rw [hst]
        exact RoundStatus.noConfusion
    exact ⟨_, bind_ok.mpr ⟨(), require_ok.mpr (.inl rfl), requestCompute_sent ho hb hst hdispatch hp hext htees⟩⟩

variable {P : Platform D.keccak} {initialOwner : Address} {balance : Address → ℕ} {now : ℕ} {d : Desk} {id : Uint256}
  {c : Bytes} {tab : ℕ} {r : Round} {text : Text} {ok : ContractConfig → Act → Prop}

/-- A page that shows a committed round shows the commitment that the round still has. -/
theorem Desk.Sound.shown (h : d.Sound D initialOwner balance now ok) {n : ℕ}
    (hround : (d.tabs tab).round = some ⟨n, r⟩) (hst : r.status = .committed) :
    (d.chain.world.storage.rounds n).policyCommitment = r.policyCommitment := by
  obtain ⟨w, hreached, hread, hsince⟩ := h.reads tab ⟨n, r⟩ (.inr hround)
  have hread' : w.storage.rounds n = r := hread
  have hpledged : Pledged n r.policyCommitment w.storage := by
    refine ⟨?_, ?_, ?_⟩
    · apply (Reachable.unused hreached).lt
      rw [hread', hst]
      exact RoundStatus.noConfusion
    · rw [hread', hst]
      exact ⟨RoundStatus.noConfusion, RoundStatus.noConfusion⟩
    · rw [hread']
  exact (hpledged.reaches hsince).commitment

/-- What a panel sends was stored for its round, or read from a file in which the commitment comes first. -/
theorem Desk.Sound.sends (h : d.Sound D initialOwner balance now ok) (howned : ∀ f ∈ d.uploads, f ∈ d.files)
    {n : ℕ} (hid : (d.tabs tab).roundId = some n) (htext : (d.tabs tab).ciphertext = some text) :
    (∃ c ∈ d.sealed, (d.tabs tab).panel = .compute (some (entryOf D.keccak n c)) none ∧ text = ofBytes c) ∨
      ∃ u, ∃ c ∈ d.sealed, (d.tabs tab).panel = .compute none (some u) ∧
        text = ofBytes (ofNat 32 (D.keccak c : ℕ)) := by
  unfold Tab.ciphertext at htext
  split at htext
  · next stored uploaded hpanel =>
    have hsound := (h.tabs tab).panel
    rw [hpanel] at hsound
    obtain ⟨hstored, huploaded⟩ := hsound
    cases uploaded with
    | some u =>
      obtain ⟨hnone, f, hf, hparse⟩ := huploaded u rfl
      obtain ⟨m, c, hc, hfile⟩ := h.files f (howned f hf)
      rw [hfile, entryOf, parsePolicyFile_policyText] at hparse
      obtain rfl := Option.some.inj hparse
      obtain rfl := Option.some.inj htext
      rw [hnone] at hpanel
      exact .inr ⟨_, c, hc, hpanel, rfl⟩
    | none =>
      obtain ⟨e, he, rfl⟩ := Option.map_eq_some_iff.mp htext
      obtain ⟨m, hm, c, hc, rfl⟩ := hstored e he
      obtain rfl := Option.some.inj (hid.symm.trans hm)
      rw [he] at hpanel
      exact .inl ⟨c, hc, hpanel, rfl⟩
  · cases htext

/-- The console commits to nothing that it has not given to be kept, and whatever its tabs and the chain
did since, a round committed from it is dispatched by a tab exactly if the tab says that its ciphertext
matches; the kept file never makes it match. -/
theorem console_dispatches (D : Deployment) (P : Platform D.keccak) (initialOwner : Address)
    (balance : Address → ℕ) (now : ℕ) (d : Desk)
    (h : Worked P (fun _ _ => True) (blankDesk initialOwner balance now) d)
    (hk : Set.InjOn D.keccak {b | ∃ c ∈ d.sealed, b = c ∨ b = ofNat 32 (D.keccak c : ℕ)})
    (howned : ∀ f ∈ d.uploads, f ∈ d.files) (id : Uint256) (c : Bytes) (hc : d.committed id = some c) :
    policyText (entryOf D.keccak id c) ∈ d.files ∧
      ∀ tab r text, (d.tabs tab).roundId = some (id : ℕ) → (d.tabs tab).round = some ⟨id, r⟩ →
        (d.tabs tab).dispatches = true → (d.tabs tab).ciphertext = some text →
        ((d.tabs tab).matches = true ↔ (d.tabs tab).panel = .compute (some (entryOf D.keccak id c)) none) ∧
        ∃ b, P.encodeBytes text = .ok b ∧ ((d.tabs tab).matches = true ↔ b = c) ∧
          ∀ msg, (∃ out, start D msg (msg.received d.chain.world.balance) d.chain.world.storage
              (.requestCompute id b) = .ok out) ↔
            (d.tabs tab).matches = true ∧ Dispatchable d.chain.world.storage msg id := by
  have hsound : d.Sound D initialOwner balance now (fun _ _ => True) :=
    h.sound fun _ _ _ _ _ => trivial
  obtain ⟨hin, hfile, hsince⟩ := hsound.committed id c hc
  refine ⟨hfile, ?_⟩
  intro tab r text hid hround hdispatches htext
  obtain ⟨-, r', hr', hst⟩ := dispatches_ok hdispatches
  obtain rfl := Option.some.inj (hround.symm.trans hr')
  have hchain := hsince.pledged.commitment
  have hshown : r.policyCommitment = D.keccak c := (hsound.shown hround hst).symm.trans hchain
  have hlong := hsound.long c hin
  rcases hsound.sends howned hid htext with ⟨b, hb, hpanel, rfl⟩ | ⟨u, b, hb, hpanel, rfl⟩
  · have hsame : D.keccak b = D.keccak c ↔ b = c := by
      constructor
      · exact fun heq => hk ⟨b, hb, .inl rfl⟩ ⟨c, hin, .inl rfl⟩ heq
      · exact congrArg D.keccak
    have hmatches : (d.tabs tab).matches = true ↔ b = c := by
      simp only [Tab.matches, hround, hpanel, htext, hshown, Option.isSome_some, Bool.true_and,
        decide_eq_true_eq, Option.map_some, entryOf, Option.some.injEq, BrowserMerkle.wordText_inj]
      exact hsame
    have hne : b ≠ [] := by
      rintro rfl
      exact absurd (hsound.long [] hb) (by simp)
    refine ⟨?_, b, P.encodeBytes_ofBytes b, hmatches, ?_⟩
    · rw [hmatches, hpanel]
      constructor
      · rintro rfl
        rfl
      · intro hentry
        simp only [Panel.compute.injEq, Option.some.injEq, entryOf, StoredPolicy.mk.injEq] at hentry
        exact ofBytes_injective hentry.1.2.2
    · intro msg
      rw [requestCompute_iff hne, hchain, hsame, hmatches]
  · have hmatches : (d.tabs tab).matches = false := by
      simp only [Tab.matches, hround, hpanel, htext]
      rfl
    -- the upload is the commitment in the header of a file, and shorter than any ciphertext
    have hlength : (ofNat 32 (D.keccak b : ℕ)).length = 32 := length_ofNat _ _
    have hne : ofNat 32 (D.keccak b : ℕ) ≠ c := by
      intro heq
      rw [heq] at hlength
      omega
    have hfresh : D.keccak (ofNat 32 (D.keccak b : ℕ)) ≠ D.keccak c := by
      intro heq
      exact hne (hk ⟨b, hb, .inr rfl⟩ ⟨c, hin, .inl rfl⟩ heq)
    have hnil : ofNat 32 (D.keccak b : ℕ) ≠ [] := by
      intro heq
      rw [heq] at hlength
      cases hlength
    rw [hmatches, hpanel]
    refine ⟨by simp, _, P.encodeBytes_ofBytes _, by simp [hne], ?_⟩
    intro msg
    rw [requestCompute_iff hnil, hchain]
    exact iff_of_false (fun hp => hfresh hp.1) (fun hp => by cases hp.1)

end Dispatching

section Sample

def consolePlatform : Platform Fidensur.sampleDeployment.keccak where
  viem := .standard _
  codec := .standard _
  crypto := sampleCrypto
  encodeBytes := Viem.hexBytes
  encodeBytes_ofBytes := Viem.hexBytes_ofBytes
  accountText a := (checksumHex Fidensur.sampleDeployment.keccak a).toList
  contract := addressText Fidensur.sampleDeployment.self

def consoleInput : SealInput where
  proxyUrl := true
  draft := some ⟨draftPolicy.entries, draftPolicy.mode, draftPolicy.totalBudget, draftPolicy.minAlloc,
    draftPolicy.maxAlloc, draftPolicy.bands, validatePolicy draftPolicy, []⟩
  info := .ok (some reportedKey)
  salt := draftPolicy.salt
  ephemeralPrivate := one
  iv := ByteView.zeros 16

def consoleBytes : Bytes :=
  ((sealDraft consolePlatform (consolePlatform.accountText 2) 0 consoleInput).toOption.bind
    fun sealedPolicy => toBytes sealedPolicy.ciphertext).getD []

def consoleFile : Text := policyText (entryOf Fidensur.sampleDeployment.keccak 0 consoleBytes)

/-- One tab takes the round to its commitment; the storage is cleared, and another tab is given the file. -/
def consoleDeeds : List Deed :=
  ((waitingRun [] 10).take 4).map .chain ++
    [.connect 0 (some 2), .enter 0 0, .read 0 0 true, .land 0 0, .sealing 0 consoleInput true, .download 0,
      .commit 0 (sampleMsg 2 0), .mine 0 (sampleMsg 2 0), .read 0 0 true, .land 0 0, .clear,
      .connect 1 (some 2), .enter 1 0, .read 1 0 true, .land 1 0, .upload 1 consoleFile]

def workAll {D : Deployment} (P : Platform D.keccak) (deeds : List Deed) (d : Desk) : Option Desk :=
  deeds.foldlM (fun d x => work P x d) d

theorem worked_of_workAll {D : Deployment} {P : Platform D.keccak} {start d e : Desk} {deeds : List Deed}
    (h : Worked P (fun _ _ => True) start d) (hrun : workAll P deeds d = some e) :
    Worked P (fun _ _ => True) start e := by
  induction deeds generalizing d with
  | nil =>
    obtain rfl := Option.some.inj hrun
    exact h
  | cons x deeds ih =>
    obtain ⟨d', hd', hrest⟩ := Option.bind_eq_some_iff.mp hrun
    exact ih (h.tail trivial hd') hrest

structure Glance where
  sealed : List Bytes
  committed : Option Bytes
  owned : Bool
  opened : List (Option ℕ × Option ℕ)
  dispatching : List (Bool × Bool)
  sending : List (Option Text)
  dispatchable : Bool
deriving DecidableEq

def Desk.glance (d : Desk) : Glance where
  sealed := d.sealed
  committed := d.committed 0
  owned := d.uploads.all fun f => d.files.contains f
  opened := [0, 1].map fun tab => ((d.tabs tab).roundId, (d.tabs tab).round.map ReadRound.roundId)
  dispatching := [0, 1].map fun tab => ((d.tabs tab).dispatches, (d.tabs tab).matches)
  sending := [0, 1].map fun tab => (d.tabs tab).ciphertext
  dispatchable :=
    let s := d.chain.world.storage
    decide ((s.rounds 0).status = .committed ∧ (s.rounds 0).organization = 2 ∧ s.extensionId ≠ 0)

theorem console_glance : (workAll consolePlatform consoleDeeds (blankDesk 1 (fun _ => 0) 0)).map Desk.glance =
    some ⟨[consoleBytes], some consoleBytes, true, [(some 0, some 0), (some 0, some 0)],
      [(true, true), (true, false)], [some (ofBytes consoleBytes), parsePolicyFile consoleFile], true⟩ := by
  decide +kernel

theorem console_hash_fresh : Fidensur.sampleDeployment.keccak consoleBytes ≠
    Fidensur.sampleDeployment.keccak (ofNat 32 (Fidensur.sampleDeployment.keccak consoleBytes : ℕ)) := by
  decide +kernel

theorem injOn_sealed_once {keccak : Keccak} {c : Bytes} (h : keccak c ≠ keccak (ofNat 32 (keccak c : ℕ))) :
    Set.InjOn keccak {b | ∃ c' ∈ [c], b = c' ∨ b = ofNat 32 (keccak c' : ℕ)} := by
  rintro a ⟨c₁, hc₁, ha⟩ b ⟨c₂, hc₂, hb⟩ hab
  obtain rfl := List.mem_singleton.mp hc₁
  obtain rfl := List.mem_singleton.mp hc₂
  rcases ha with ha | ha
  · rcases hb with hb | hb
    · exact ha.trans hb.symm
    · rw [ha, hb] at hab
      exact absurd hab h
  · rcases hb with hb | hb
    · rw [ha, hb] at hab
      exact absurd hab.symm h
    · exact ha.trans hb.symm

theorem console_dispatches_sample : ∃ d,
    workAll consolePlatform consoleDeeds (blankDesk 1 (fun _ => 0) 0) = some d ∧ consoleFile ∈ d.files ∧
    (∃ out, start Fidensur.sampleDeployment (sampleMsg 2 1000000)
      ((sampleMsg 2 1000000).received d.chain.world.balance) d.chain.world.storage
        (.requestCompute 0 consoleBytes) = .ok out) ∧
    ∃ b, parsePolicyFile consoleFile = some (ofBytes b) ∧
      ¬ ∃ out, start Fidensur.sampleDeployment (sampleMsg 2 1000000)
        ((sampleMsg 2 1000000).received d.chain.world.balance) d.chain.world.storage (.requestCompute 0 b) =
          .ok out := by
  obtain ⟨c, hbytes⟩ : ∃ c, consoleBytes = c := ⟨_, rfl⟩
  obtain ⟨v, hv⟩ : ∃ v : ℕ, v = Fidensur.sampleDeployment.keccak c := ⟨_, rfl⟩
  have hrun := console_glance
  have hdistinct := console_hash_fresh
  have hparse : parsePolicyFile consoleFile = some (ofBytes (ofNat 32 v)) := by
    rw [consoleFile, entryOf, parsePolicyFile_policyText, hbytes, hv]
    rfl
  rw [hbytes] at hrun hdistinct
  rw [hparse] at hrun
  obtain ⟨d, hd, hglance⟩ := Option.map_eq_some_iff.mp hrun
  simp only [Desk.glance, Glance.mk.injEq, List.map_cons, List.map_nil, List.cons.injEq, Prod.mk.injEq, and_true,
    decide_eq_true_eq] at hglance
  obtain ⟨hsealed, hcommitted, howned, ⟨⟨hid₀, hround₀⟩, hid₁, hround₁⟩, ⟨⟨hdispatches₀, hmatches₀⟩, hdispatches₁,
    hmatches₁⟩, ⟨htext₀, htext₁⟩, hst, ho, hext⟩ := hglance
  have hworked := worked_of_workAll (P := consolePlatform) .refl hd
  have hk : Set.InjOn Fidensur.sampleDeployment.keccak
      {b | ∃ c ∈ d.sealed, b = c ∨ b = ofNat 32 (Fidensur.sampleDeployment.keccak c : ℕ)} := by
    rw [hsealed]
    exact injOn_sealed_once hdistinct
  have howned' : ∀ f ∈ d.uploads, f ∈ d.files := by
    intro f hf
    simpa using List.all_eq_true.mp howned f hf
  obtain ⟨hfile, htabs⟩ := console_dispatches Fidensur.sampleDeployment consolePlatform 1 (fun _ => 0) 0 d hworked hk
    howned' 0 c hcommitted
  obtain ⟨⟨n₀, r₀⟩, hr₀, rfl⟩ := Option.map_eq_some_iff.mp hround₀
  obtain ⟨⟨n₁, r₁⟩, hr₁, hn₁⟩ := Option.map_eq_some_iff.mp hround₁
  obtain rfl : n₁ = 0 := hn₁
  obtain ⟨-, b₀, -, hb₀, haccepts₀⟩ := htabs 0 r₀ _ hid₀ hr₀ hdispatches₀ htext₀
  obtain ⟨-, b₁, hb₁, -, haccepts₁⟩ := htabs 1 r₁ _ hid₁ hr₁ hdispatches₁ htext₁
  obtain rfl := hb₀.mp hmatches₀
  have huploaded := Except.ok.inj (hb₁.symm.trans (consolePlatform.encodeBytes_ofBytes _))
  rw [huploaded] at haccepts₁
  refine ⟨d, hd, ?_, ?_, _, hparse, ?_⟩
  · rw [consoleFile, hbytes]
    exact hfile
  · rw [hbytes]
    apply (haccepts₀ _).mpr
    refine ⟨hmatches₀, ho.symm, ?_, hext, List.cons_ne_nil _ _⟩
    exact requireDispatchable_ok.mpr (.inl hst)
  · intro hout
    have hcontra := ((haccepts₁ _).mp hout).1
    rw [hmatches₁] at hcontra
    cases hcontra

end Sample

end Fidensur.OrgConsole
