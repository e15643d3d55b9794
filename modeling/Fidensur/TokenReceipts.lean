import Fidensur.Solvency
import Fidensur.BalanceCoverage

set_option autoImplicit false

namespace Fidensur

open NestedCalls ByteWords

structure Chain where
  contract : World
  code : Address → Bool

def Chain.deploy (v : Chain) (address : Address) : Chain :=
  { v with code := Function.update v.code address true }

abbrev ChainConfig := Config Chain PendingCall

inductive ChainAct
  | deploy (address : Address)
  | act (a : Act)

def callsNoCode (f : Frame Chain PendingCall) : Bool :=
  match f.info.interaction with
  | .transfer token _ _ | .transferFrom token _ _ => !f.saved.code token
  | .sendNative .. | .sendInstructions .. => false

def ChainAct.returnsNothing : ChainAct → Bool
  | .act (.reply (.returned true [])) => true
  | _ => false

def ChainAct.heldBy (code : Address → Bool) : ChainAct → Bool
  | .act (.credit token _) | .act (.drift token _) => token = 0 || code token
  | _ => true

def permits (c : ChainConfig) (a : ChainAct) : Bool :=
  a.heldBy c.world.code && (!c.stack.head?.any callsNoCode || a.returnsNothing)

def chain (D : Deployment) : System Chain PendingCall ChainAct
  | a, c =>
      if permits c a = true then
        match a with
        | .deploy address => some (.alter (c.world.deploy address))
        | .act a => (machine D a (c.map Chain.contract)).map (Effect.map (fun w => ⟨w, c.world.code⟩))
      else none

def launched (initialOwner : Address) (balance : Address → ℕ) (now : ℕ) (code : Address → Bool) :
    ChainConfig := ⟨⟨.initial initialOwner balance now, code⟩, []⟩

/-- Tokens that have code move the exact amount, and report success only when they did. -/
def ExactTransfers (c : ChainConfig) (a : ChainAct) : Prop :=
  (∀ token amount, a ≠ .act (.drift token amount)) ∧
  ∀ reply f fs id, a = .act (.reply reply) → c.stack = f :: fs → callsNoCode f = false →
    f.info.interaction.accept reply = .ok id → f.info.settled = true

/-- Registry answers stay in time, and tokens that have code obey ERC-20. -/
def ProperChain (c : ChainConfig) : ChainAct → Prop
  | .deploy _ => True
  | .act a => DispatchFresh (c.map Chain.contract) a ∧ ExactTransfers c (.act a)

def Storage.HasRoom (s : Storage) (roundId amount : ℕ) : Prop :=
  (s.rounds roundId).funded + amount < 2 ^ 256 ∧
    s.outstanding (s.rounds roundId).token + amount < 2 ^ 256

/-- A `fund` that will be credited pulls from a token that had code when it was called. -/
def FundsCoded (c : ChainConfig) (a : ChainAct) : Prop :=
  ∀ reply f fs roundId amount, a = .act (.reply reply) → c.stack = f :: fs →
    f.info.call = .fund roundId amount → c.world.contract.storage.HasRoom roundId amount →
    f.saved.code (c.world.contract.storage.rounds roundId).token = true

def Entry.received (roundId : ℕ) (e : Entry) : ℕ :=
  match e.call, e.phase with
  | .fund id amount, .started none | .fund id _, .settled (.transferFrom _ _ amount) =>
      if (id : ℕ) = roundId then amount else 0
  | _, _ => 0

def received (log : List Entry) (roundId : ℕ) : ℕ := (log.map (Entry.received roundId)).sum

def PendingCall.uncredited (roundId : ℕ) (p : PendingCall) : ℕ :=
  match p.call, p.interaction, p.settled with
  | .fund id _, .transferFrom _ _ amount, true => if (id : ℕ) = roundId then amount else 0
  | _, _, _ => 0

def uncredited (stack : List (Frame World PendingCall)) (roundId : ℕ) : ℕ :=
  (stack.map (fun f => f.info.uncredited roundId)).sum

/-- Every credited unit was received, the balance covers the ledger, and what leaves on behalf of a
round whose claims stay within its funds was received for it. -/
structure Backed (c : ContractConfig) : Prop where
  credited (roundId : ℕ) : (c.world.storage.rounds roundId).funded + uncredited c.stack roundId =
    received c.world.log roundId
  held (token : Address) : c.world.storage.outstanding token ≤ c.world.balance token
  paid (roundId : ℕ) (h : (c.world.storage.rounds roundId).totalClaimed ≤
    (c.world.storage.rounds roundId).funded) : paid c.world.log roundId ≤ received c.world.log roundId

theorem received_cons (e : Entry) (log : List Entry) (roundId : ℕ) :
    received (e :: log) roundId = e.received roundId + received log roundId := rfl

theorem uncredited_cons (f : Frame World PendingCall) (fs : List (Frame World PendingCall))
    (roundId : ℕ) : uncredited (f :: fs) roundId = f.info.uncredited roundId + uncredited fs roundId :=
  rfl

theorem received_finished (msg : Msg) (call : Call) (reply : Reply) (post : Storage) (roundId : ℕ) :
    (⟨msg, call, .finished reply, post⟩ : Entry).received roundId = 0 := by
  cases call <;> rfl

variable {D : Deployment} {initialOwner : Address} {balance : Address → ℕ} {now : ℕ}
  {code : Address → Bool}

section Receipts

variable {msg : Msg} {view : Address → ℕ} {s s' : Storage} {call : Call} {x : Option Interaction}
  {c : ContractConfig} {ok : ContractConfig → Act → Prop}

theorem Started.receipt (h : Started D msg view s call s' x) (roundId : ℕ) :
    (s'.rounds roundId).funded + x.elim 0
        (fun y => (⟨msg, call, y, y.movesAtOnce⟩ : PendingCall).uncredited roundId) =
      (s.rounds roundId).funded + (⟨msg, call, .started x, s'⟩ : Entry).received roundId := by
  have hkeep (hf : (s'.rounds roundId).funded = (s.rounds roundId).funded)
      (hc : ∀ id amount, call ≠ .fund id amount) :
      (s'.rounds roundId).funded + x.elim 0
          (fun y => (⟨msg, call, y, y.movesAtOnce⟩ : PendingCall).uncredited roundId) =
        (s.rounds roundId).funded + (⟨msg, call, .started x, s'⟩ : Entry).received roundId := by
    rw [hf]
    cases call <;> first
      | exact absurd rfl (hc _ _)
      | (cases x <;> rfl)
  cases h with
  | configure call _ _ _ _ hconf =>
    apply hkeep rfl
    rintro id amount rfl
    cases hconf
  | createRound => exact hkeep (Round.field_same Round.funded rfl (by rfl) roundId) (by simp)
  | fundNative id amount =>
    by_cases hid : (id : ℕ) = roundId
    · subst hid
      simp [Storage.credited, Entry.received]
    · have hid' : roundId ≠ (id : ℕ) := Ne.symm hid
      simp [Storage.credited, Entry.received, hid, hid']
  | fundToken => rfl
  | submitPolicy => exact hkeep (Round.field_same Round.funded rfl (by rfl) roundId) (by simp)
  | requestCompute => exact hkeep rfl (by simp)
  | finalizeRound => exact hkeep (Round.field_same Round.funded rfl (by rfl) roundId) (by simp)
  | requestDisclosure => exact hkeep rfl (by simp)
  | requestAttestation => exact hkeep rfl (by simp)
  | claim => exact hkeep (Round.field_same Round.funded rfl (by rfl) roundId) (by simp)
  | closeRound => exact hkeep (Round.field_same Round.funded rfl (by rfl) roundId) (by simp)
  | cancelRound => exact hkeep (Round.field_same Round.funded rfl (by rfl) roundId) (by simp)
  | rescue => exact hkeep rfl (by simp)

theorem settle_receipt {p : PendingCall} (hp : p.settled = false) (post : Storage) (roundId : ℕ) :
    (⟨p.msg, p.call, .settled p.interaction, post⟩ : Entry).received roundId =
        ({ p with settled := true } : PendingCall).uncredited roundId ∧
      p.uncredited roundId = 0 := by
  obtain ⟨pmsg, pcall, y, settled⟩ := p
  cases hp
  cases pcall <;> cases y <;> exact ⟨rfl, rfl⟩

theorem Finished.receipt {y : Interaction} {reply : Reply} (h : Finished msg s y reply call s')
    (hfund : ∀ id amount, call = .fund id amount → ∃ token sender, y = .transferFrom token sender amount)
    (roundId : ℕ) :
    (s'.rounds roundId).funded =
      (s.rounds roundId).funded + (⟨msg, call, y, true⟩ : PendingCall).uncredited roundId := by
  cases h with
  | fund id amount =>
    obtain ⟨token, sender, rfl⟩ := hfund id amount rfl
    by_cases hid : (id : ℕ) = roundId
    · subst hid
      simp [Storage.credited, PendingCall.uncredited]
    · have hid' : roundId ≠ (id : ℕ) := Ne.symm hid
      simp [Storage.credited, PendingCall.uncredited, hid, hid']
  | release call hc =>
    cases call <;> first
      | rfl
      | cases hc
  | requestCompute => exact Round.field_same Round.funded rfl (by rfl) roundId
  | keep call _ hf =>
    cases call <;> first
      | exact absurd rfl (hf _ _)
      | rfl

theorem Reachable.credited (hok : ∀ c a, ok c a → DispatchFresh c a ∧ TokensExact c a)
    (h : Reachable D initialOwner balance now ok c) (roundId : ℕ) :
    (c.world.storage.rounds roundId).funded + uncredited c.stack roundId =
      received c.world.log roundId := by
  refine Reachable.invariant (P := fun c => (c.world.storage.rounds roundId).funded +
    uncredited c.stack roundId = received c.world.log roundId) rfl ?_ h
  intro c a d hr hp ha hstep
  cases hstep with
  | done msg call ht hself hst =>
    have hreceipt := hst.receipt roundId
    simp only [World.record, received_cons, Option.elim] at hp hreceipt ⊢
    omega
  | pending msg call ht hself hst =>
    have hreceipt := hst.receipt roundId
    simp only [World.record, received_cons, uncredited_cons, Option.elim] at hp hreceipt ⊢
    omega
  | @settled w saved fs p b hs hb =>
    obtain ⟨hentry, hzero⟩ := settle_receipt hs w.storage roundId
    simp only [World.record, received_cons, uncredited_cons] at hp ⊢
    omega
  | @replied w saved fs p reply s hacc hf =>
    obtain ⟨id, hid⟩ := hacc
    have hsettled := (hok _ _ ha).2.2 reply _ fs id rfl rfl hid
    have hcoherent := Reachable.coherent (fun c a ha => (hok c a ha).1) hr
    obtain ⟨pmsg, pcall, y, settled⟩ := p
    simp only at hsettled hf
    subst hsettled
    have hreceipt := hf.receipt (fun id amount hcall =>
      ⟨_, _, (hcoherent.funding _ List.mem_cons_self id amount hcall).2⟩) roundId
    simp only [World.record, received_cons, uncredited_cons, received_finished] at hp ⊢
    omega
  | _ => exact hp

theorem Reachable.backed (hok : ∀ c a, ok c a → DispatchFresh c a ∧ TokensExact c a)
    (h : Reachable D initialOwner balance now ok c) : Backed c := by
  have hfresh := fun c a ha => (hok c a ha).1
  have hcredited := Reachable.credited hok h
  refine ⟨hcredited, fun token => ?_, fun roundId hclaimed => ?_⟩
  · have hcover := Reachable.covered (fun c a ha => (hok c a ha).2) h token
    omega
  · have hordered := Reachable.ordered_eq (fun c a ha => (hok c a ha).2) h roundId
    have hreleased := (Reachable.ledger hfresh h).ordered roundId
    have hle : (c.world.storage.rounds roundId).released ≤
        (c.world.storage.rounds roundId).funded := by
      unfold Round.released
      split <;> first
        | exact le_rfl
        | exact hclaimed
    have heq := hcredited roundId
    omega

end Receipts

theorem permits_iff {c : ChainConfig} {a : ChainAct} : permits c a = true ↔
    a.heldBy c.world.code = true ∧
      ∀ f fs, c.stack = f :: fs → callsNoCode f = true → a.returnsNothing = true := by
  obtain ⟨v, fs⟩ := c
  cases fs with
  | nil => simp [permits]
  | cons f fs =>
    cases hf : callsNoCode f <;> simp [permits, hf]

@[simp] theorem contract_world (c : ChainConfig) :
    (c.map Chain.contract).world = c.world.contract := rfl

section Projection

variable {c d : ChainConfig} {a : ChainAct} {b : Act} {e : Effect Chain PendingCall}
  {ok : ChainConfig → ChainAct → Prop} {ok' : ContractConfig → Act → Prop}

theorem chain_act (h : chain D (.act b) c = some e) :
    permits c (.act b) = true ∧ ∃ e', machine D b (c.map Chain.contract) = some e' ∧
      e = e'.map (fun w => ⟨w, c.world.code⟩) := by
  simp only [chain] at h
  split_ifs at h with hp
  obtain ⟨e', he', rfl⟩ := Option.map_eq_some_iff.mp h
  exact ⟨hp, e', he', rfl⟩

theorem chain_deploy {address : Address} (h : chain D (.deploy address) c = some e) :
    e = .alter (c.world.deploy address) := by
  simp only [chain] at h
  split_ifs at h
  exact (Option.some.inj h).symm

theorem machine_of_chain (h : (chain D).next (.act b) c = some d) :
    (machine D).next b (c.map Chain.contract) = some (d.map Chain.contract) := by
  obtain ⟨e, he, hd⟩ := Option.bind_eq_some_iff.mp h
  obtain ⟨-, e', he', rfl⟩ := chain_act he
  have happly := Effect.apply_map (g := Chain.contract) (h := fun w => ⟨w, c.world.code⟩)
    (fun _ => rfl) e' c
  rw [hd] at happly
  rw [System.next, he']
  exact happly.symm

theorem Reaches.onContract (hok : ∀ c b, ok c (.act b) → ok' (c.map Chain.contract) b)
    (h : Reaches (chain D) ok (launched initialOwner balance now code) c) :
    Reachable D initialOwner balance now ok' (c.map Chain.contract) := by
  refine Reaches.project Chain.contract ?_ h
  intro c a d ha hn
  cases a with
  | deploy address =>
    obtain ⟨e, he, hd⟩ := Option.bind_eq_some_iff.mp hn
    rw [chain_deploy he] at hd
    cases hd
    exact .inl rfl
  | act b => exact .inr ⟨b, hok c b ha, machine_of_chain hn⟩

theorem code_kept (he : chain D a c = some e) (hne : e ≠ .abort) (hd : e.apply c = some d)
    {address : Address} (h : c.world.code address = true) : d.world.code address = true := by
  obtain ⟨v, fs⟩ := c
  cases a with
  | deploy created =>
    rw [chain_deploy he] at hd
    cases hd
    by_cases hc : address = created
    · simp [Chain.deploy, hc]
    · simpa [Chain.deploy, hc] using h
  | act b =>
    obtain ⟨-, e', -, rfl⟩ := chain_act he
    cases e' with
    | enter info world => cases hd; exact h
    | alter world => cases hd; exact h
    | update info world =>
      cases fs with
      | nil => cases hd
      | cons f fs => cases hd; exact h
    | leave world =>
      cases fs with
      | nil => cases hd
      | cons f fs => cases hd; exact h
    | abort => exact absurd rfl hne

theorem machine_enter {c : ContractConfig} {info : PendingCall} {world : World}
    (h : machine D b c = some (.enter info world)) :
    info.settled = info.interaction.movesAtOnce ∧ ∃ msg s', Started D msg
      (msg.received c.world.balance) c.world.storage info.call s' (some info.interaction) := by
  obtain ⟨w, fs⟩ := c
  have hstep : Stepped D ⟨w, fs⟩ b ⟨world, ⟨w, info⟩ :: fs⟩ := .of_machine h nofun rfl
  generalize hfs : (⟨w, info⟩ :: fs : List (Frame World PendingCall)) = gs at hstep
  have hlen : fs.length < gs.length := by simp [← hfs]
  cases hstep with
  | pending msg call ht hself hst =>
    cases hfs
    exact ⟨rfl, msg, _, hst⟩
  | replied =>
    simp only [List.length_cons] at hlen
    omega
  | _ => simp at hlen

theorem machine_update {c : ContractConfig} {info : PendingCall} {world : World}
    (h : machine D b c = some (.update info world)) :
    b = .settle ∧ ∃ f fs, c.stack = f :: fs ∧ info.interaction = f.info.interaction := by
  obtain ⟨w, fs⟩ := c
  cases b with
  | settle =>
    cases fs with
    | nil => cases h
    | cons f fs =>
      simp only [machine] at h
      split_ifs at h
      split at h
      · cases h
      · cases h
        exact ⟨rfl, f, fs, rfl, rfl⟩
  | call msg call =>
    simp only [machine] at h
    split_ifs at h
    split at h
    · cases h
    · cases h
    · split at h <;> cases h
  | reply reply =>
    cases fs with
    | nil => cases h
    | cons f fs =>
      simp only [machine] at h
      split at h <;> cases h
  | credit => cases h
  | drift token amount =>
    simp only [machine] at h
    split_ifs at h
    cases h
  | tick => cases fs <;> cases h

theorem frames_of_step (he : chain D a c = some e) (hne : e ≠ .abort) (hd : e.apply c = some d)
    {f : Frame Chain PendingCall} (hf : f ∈ d.stack) :
    (∃ g ∈ c.stack, f.saved = g.saved ∧ f.info.interaction = g.info.interaction ∧
      (f.info.settled = g.info.settled ∨ callsNoCode g = false)) ∨
    f.saved = c.world ∧ f.info.settled = f.info.interaction.movesAtOnce ∧ ∃ msg s', Started D msg
      (msg.received c.world.contract.balance) c.world.contract.storage f.info.call s'
      (some f.info.interaction) := by
  obtain ⟨v, fs⟩ := c
  have hsame (hmem : f ∈ fs) : ∃ g ∈ fs, f.saved = g.saved ∧
      f.info.interaction = g.info.interaction ∧
      (f.info.settled = g.info.settled ∨ callsNoCode g = false) :=
    ⟨f, hmem, rfl, rfl, .inl rfl⟩
  cases a with
  | deploy created =>
    rw [chain_deploy he] at hd
    cases hd
    exact .inl (hsame hf)
  | act b =>
    obtain ⟨hp, e', he', rfl⟩ := chain_act he
    cases e' with
    | enter info world =>
      cases hd
      rcases List.mem_cons.mp hf with rfl | hf
      · exact .inr ⟨rfl, machine_enter he'⟩
      · exact .inl (hsame hf)
    | alter world => cases hd; exact .inl (hsame hf)
    | update info world =>
      cases fs with
      | nil => cases hd
      | cons g fs =>
        cases hd
        rcases List.mem_cons.mp hf with rfl | hf
        · obtain ⟨rfl, _, _, hstack, hinfo⟩ := machine_update he'
          cases hstack
          exact .inl ⟨g, List.mem_cons_self, rfl, hinfo, .inr (by
            simpa [ChainAct.returnsNothing] using (permits_iff.mp hp).2 g fs rfl)⟩
        · exact .inl (hsame (List.mem_cons_of_mem _ hf))
    | leave world =>
      cases fs with
      | nil => cases hd
      | cons g fs => cases hd; exact .inl (hsame (List.mem_cons_of_mem _ hf))
    | abort => exact absurd rfl hne

def Unmoved (c : ChainConfig) : Prop :=
  ∀ f ∈ c.stack, callsNoCode f = true → f.info.settled = false

theorem Reaches.unmoved (h : Reaches (chain D) ok (launched initialOwner balance now code) c) :
    Unmoved c := by
  refine Reaches.invariant rfl (List.forall_mem_nil _) ?_ h
  intro c a e d _ hp _ he hne hd f hf hcode
  rcases frames_of_step he hne hd hf with ⟨g, hg, hsaved, hx, hsettled⟩ | ⟨-, hsettled, -⟩
  · have hsame : callsNoCode g = callsNoCode f := by simp only [callsNoCode, hsaved, hx]
    rw [hcode] at hsame
    rcases hsettled with hsettled | hfalse
    · rw [hsettled]
      exact hp g hg hsame
    · rw [hfalse] at hsame
      cases hsame
  · rw [hsettled]
    cases hx : f.info.interaction <;> simp_all [callsNoCode, Interaction.movesAtOnce]

end Projection

section Holdings

variable {msg : Msg} {view : Address → ℕ} {s s' : Storage} {call : Call} {x : Option Interaction}
  {token : Address}

theorem payOut_transfer {t recipient target : Address} {amount paid : ℕ}
    (h : some (.transfer token target paid) = SafeTransfer.payOut t recipient amount) :
    token ≠ 0 ∧ token = t ∧ amount ≠ 0 := by
  unfold SafeTransfer.payOut at h
  split_ifs at h with ha ht <;> cases h
  exact ⟨ht, rfl, ha⟩

theorem Started.transfers {target : Address} {amount : ℕ}
    (h : Started D msg view s call s' (some (.transfer token target amount))) :
    token ≠ 0 ∧ (s.outstanding token ≠ 0 ∨ view token ≠ 0) := by
  generalize hx : some (Interaction.transfer token target amount) = x at h
  cases h with
  | claim roundId index paid proof _ _ _ _ _ _ ho =>
    obtain ⟨h0, rfl, ha⟩ := payOut_transfer hx
    exact ⟨h0, .inl (by omega)⟩
  | closeRound roundId _ _ _ _ _ ho =>
    obtain ⟨h0, rfl, ha⟩ := payOut_transfer hx
    exact ⟨h0, .inl (by omega)⟩
  | cancelRound roundId _ _ _ ho =>
    obtain ⟨h0, rfl, ha⟩ := payOut_transfer hx
    exact ⟨h0, .inl (by omega)⟩
  | rescue t recipient _ ho =>
    obtain ⟨h0, rfl, ha⟩ := payOut_transfer hx
    exact ⟨h0, .inr (by omega)⟩
  | _ => cases hx

theorem Started.pulls {sender : Address} {amount : ℕ}
    (h : Started D msg view s call s' (some (.transferFrom token sender amount))) :
    ∃ roundId paid : Uint256, call = .fund roundId paid ∧ paid ≠ 0 := by
  have hpay {t recipient : Address} {paid : ℕ}
      (hx : some (.transferFrom token sender amount) = SafeTransfer.payOut t recipient paid) : False := by
    unfold SafeTransfer.payOut at hx
    split_ifs at hx <;> cases hx
  generalize hx : some (Interaction.transferFrom token sender amount) = x at h
  cases h with
  | fundToken roundId paid _ _ ha => exact ⟨roundId, paid, rfl, ha⟩
  | claim => exact (hpay hx).elim
  | closeRound => exact (hpay hx).elim
  | cancelRound => exact (hpay hx).elim
  | rescue => exact (hpay hx).elim
  | _ => cases hx

theorem Started.outstanding_le (h : Started D msg view s call s' x) (ht : token ≠ 0) :
    s'.outstanding token ≤ s.outstanding token := by
  have hmove {t : Address} {amount : ℕ} :
      Function.update s.outstanding t (s.outstanding t - amount) token ≤ s.outstanding token := by
    by_cases htt : token = t
    · subst htt
      simp
    · simp [htt]
  cases h with
  | fundNative roundId amount hg hs ha hz => simp [Storage.credited, hz, ht]
  | claim => exact hmove
  | closeRound => exact hmove
  | cancelRound => exact hmove
  | _ => exact le_rfl

theorem depart_other {self : Address} {b b' : Address → ℕ} {y : Interaction}
    (h : y.depart self b = some b') (ht : token ≠ 0) : b' token = b token := by
  cases y with
  | sendNative recipient amount =>
    simp only [Interaction.depart] at h
    split_ifs at h <;> cases h
    · rfl
    · simp [ht]
  | sendInstructions teeIds params value =>
    simp only [Interaction.depart] at h
    split_ifs at h
    cases h
    simp [ht]
  | transfer => cases h; rfl
  | transferFrom => cases h; rfl

theorem settle_empty {self : Address} {b b' : Address → ℕ} {y : Interaction}
    (h : y.settle self b = some b') (hb : b token = 0)
    (hy : ∀ sender amount, y ≠ .transferFrom token sender amount) : b' token = 0 := by
  cases y with
  | transfer t recipient amount =>
    simp only [Interaction.settle] at h
    split_ifs at h <;> cases h
    · exact hb
    · by_cases htt : token = t
      · subst htt
        simp [hb]
      · simpa [htt] using hb
  | transferFrom t sender amount =>
    cases h
    have htt : token ≠ t := fun heq => hy sender amount (by rw [heq])
    simpa [htt] using hb
  | sendNative => cases h
  | sendInstructions => cases h

theorem Stepped.stays_empty {c d : ContractConfig} {a : Act} (hstep : Stepped D c a d)
    (ht : token ≠ 0)
    (h : c.world.storage.outstanding token = 0 ∧ c.world.balance token = 0)
    (hheld : ∀ amount, a ≠ .credit token amount ∧ a ≠ .drift token amount)
    (hpull : ∀ f fs sender amount, a = .settle → c.stack = f :: fs →
      f.info.interaction ≠ .transferFrom token sender amount)
    (hfund : ∀ reply f fs roundId amount, a = .reply reply → c.stack = f :: fs →
      f.info.call = .fund roundId amount → (c.world.storage.rounds roundId).token ≠ token) :
    d.world.storage.outstanding token = 0 ∧ d.world.balance token = 0 := by
  obtain ⟨ho, hb⟩ := h
  cases hstep with
  | done msg call _ _ hst =>
    have hle := hst.outstanding_le ht
    simp only [World.record, Msg.received, Function.update_of_ne ht] at *
    exact ⟨by omega, hb⟩
  | pending msg call _ _ hst _ hd =>
    have hle := hst.outstanding_le ht
    have hsame := depart_other hd ht
    simp only [World.record, Msg.received, Function.update_of_ne ht] at *
    exact ⟨by omega, by omega⟩
  | settled p _ hs => exact ⟨ho, settle_empty hs hb (fun sender amount => hpull _ _ sender amount rfl rfl)⟩
  | replied p reply _ hf =>
    refine ⟨?_, hb⟩
    have hround := fun roundId amount => hfund reply _ _ roundId amount rfl rfl
    simp only [World.record] at ho hround ⊢
    generalize p.call = call at hf hround
    cases hf with
    | fund roundId amount => simpa [Storage.credited, (hround roundId amount rfl).symm] using ho
    | _ => exact ho
  | credit t amount =>
    have htt : token ≠ t := fun heq => (hheld amount).1 (by rw [heq])
    exact ⟨ho, by simpa [htt] using hb⟩
  | drift t amount =>
    have htt : token ≠ t := fun heq => (hheld amount).2 (by rw [heq])
    exact ⟨ho, by simpa [htt] using hb⟩
  | tick => exact ⟨ho, hb⟩

end Holdings

structure Housed (c : ChainConfig) : Prop where
  empty (token : Address) (h0 : token ≠ 0) (hcode : c.world.code token = false) :
    c.world.contract.storage.outstanding token = 0 ∧ c.world.contract.balance token = 0
  kept : ∀ f ∈ c.stack, ∀ address, f.saved.code address = true → c.world.code address = true
  payout : ∀ f ∈ c.stack, ∀ token recipient amount,
    f.info.interaction = .transfer token recipient amount → f.saved.code token = true

section Runs

variable {c d : ChainConfig} {a : ChainAct} {b : Act} {e : Effect Chain PendingCall}
  {ok : ChainConfig → ChainAct → Prop}

theorem hasRoom_of_reply {c : ContractConfig} {reply : Reply} {e : Effect World PendingCall}
    (h : machine D (.reply reply) c = some e) (hne : e ≠ .abort) {f : Frame World PendingCall}
    {fs : List (Frame World PendingCall)} (hstack : c.stack = f :: fs) {roundId amount : Uint256}
    (hcall : f.info.call = .fund roundId amount) : c.world.storage.HasRoom roundId amount := by
  obtain ⟨w, _⟩ := c
  cases hstack
  simp only [machine] at h
  cases hf : finish f.info.msg w.storage f.info.interaction reply f.info.call with
  | error err =>
    rw [hf] at h
    cases h
    exact absurd rfl hne
  | ok s =>
    rw [hcall] at hf
    obtain ⟨_, -, hf⟩ := bind_ok.mp hf
    simp only [bind_ok, creditRound_ok] at hf
    obtain ⟨_, ⟨hfunded, houtstanding, -⟩, -⟩ := hf
    exact ⟨hfunded, houtstanding⟩

theorem Effect.map_ne_abort {e : Effect World PendingCall} {g : World → Chain} (h : e.map g ≠ .abort) :
    e ≠ .abort := by
  rintro rfl
  exact h rfl

theorem Housed.step (h : Housed c) (hcoded : FundsCoded c a) (he : chain D a c = some e)
    (hne : e ≠ .abort) (hd : e.apply c = some d) : Housed d := by
  have hcode {address : Address} (hc : c.world.code address = true) : d.world.code address = true :=
    code_kept he hne hd hc
  refine ⟨fun token h0 hnone => ?_, fun f hf address hsaved => ?_, fun f hf token recipient amount hx => ?_⟩
  · have hbefore : c.world.code token = false := by
      rw [← Bool.not_eq_true]
      intro hc
      rw [hcode hc] at hnone
      cases hnone
    have hempty := h.empty token h0 hbefore
    cases a with
    | deploy created =>
      rw [chain_deploy he] at hd
      cases hd
      exact hempty
    | act b =>
      obtain ⟨hp, e', he', rfl⟩ := chain_act he
      obtain ⟨hheld, hquiet⟩ := permits_iff.mp hp
      have happly := Effect.apply_map (g := Chain.contract) (h := fun w => ⟨w, c.world.code⟩)
        (fun _ => rfl) e' c
      rw [hd] at happly
      have hstep := Stepped.of_machine he' (Effect.map_ne_abort hne) happly.symm
      refine hstep.stays_empty h0 hempty (fun amount => ⟨?_, ?_⟩) ?_ ?_
      · rintro rfl
        simp [ChainAct.heldBy, h0, hbefore] at hheld
      · rintro rfl
        simp [ChainAct.heldBy, h0, hbefore] at hheld
      · rintro f fs sender amount rfl hstack hx
        obtain ⟨g, gs, hg, rfl, -⟩ := List.map_eq_cons_iff.mp hstack
        have hcodeless : callsNoCode g = true → False := by
          intro hn
          have := hquiet g gs hg hn
          cases this
        have hsaved := h.kept g (by simp [hg]) token
        simp only [Frame.map] at hx
        cases hgc : g.saved.code token with
        | true => simp [hsaved hgc] at hbefore
        | false => exact hcodeless (by simp [callsNoCode, hx, hgc])
      · rintro reply f fs roundId amount rfl hstack hcall rfl
        have hroom := hasRoom_of_reply he' (Effect.map_ne_abort hne) hstack hcall
        obtain ⟨g, gs, hg, rfl, -⟩ := List.map_eq_cons_iff.mp hstack
        have hsaved := hcoded reply g gs roundId amount rfl hg hcall hroom
        have hnow := h.kept g (by simp [hg]) _ hsaved
        exact absurd (hnow.symm.trans hbefore) (by simp)
  · rcases frames_of_step he hne hd hf with ⟨g, hg, heq, -⟩ | ⟨heq, -⟩
    · rw [heq] at hsaved
      exact hcode (h.kept g hg address hsaved)
    · rw [heq] at hsaved
      exact hcode hsaved
  · rcases frames_of_step he hne hd hf with ⟨g, hg, heq, hxg, -⟩ | ⟨heq, -, msg, s', hst⟩
    · rw [heq]
      exact h.payout g hg token recipient amount (hxg ▸ hx)
    · rw [hx] at hst
      obtain ⟨h0, hsource⟩ := hst.transfers
      rw [heq]
      cases hc : c.world.code token with
      | true => rfl
      | false =>
        obtain ⟨ho, hb⟩ := h.empty token h0 hc
        rcases hsource with hsource | hsource
        · exact absurd ho hsource
        · rw [Msg.received, Function.update_of_ne h0] at hsource
          exact absurd hb hsource

theorem Reaches.housed (hok : ∀ c a, ok c a → FundsCoded c a)
    (hempty : ∀ token, token ≠ 0 → code token = false → balance token = 0)
    (h : Reaches (chain D) ok (launched initialOwner balance now code) c) : Housed c := by
  have hinitial : Housed (launched initialOwner balance now code) :=
    ⟨fun token h0 hcode => ⟨rfl, hempty token h0 hcode⟩, List.forall_mem_nil _, List.forall_mem_nil _⟩
  refine Reaches.invariant rfl hinitial ?_ h
  intro c a e d _ hp ha he hne hd
  exact hp.step (hok c a ha) he hne hd

/-- Whoever answers with success had code, so it moved what it was asked to move. -/
theorem tokensExact_of_coded (hproper : ProperChain c (.act b)) (hcoded : FundsCoded c (.act b))
    (hhoused : Housed c) (hcoherent : Coherent D (c.map Chain.contract))
    (hne : chain D (.act b) c ≠ some .abort) (hn : (chain D).next (.act b) c = some d) :
    TokensExact (c.map Chain.contract) b := by
  refine ⟨fun token amount hb => hproper.2.1 token amount (congrArg _ hb), ?_⟩
  rintro reply f fs id rfl hstack hid
  obtain ⟨g, gs, hg, rfl, -⟩ := List.map_eq_cons_iff.mp hstack
  have hmem : g ∈ c.stack := by simp [hg]
  have hmapped : g.map Chain.contract ∈ (c.map Chain.contract).stack := List.mem_map_of_mem hmem
  cases hcode : callsNoCode g with
  | false => exact hproper.2.2 reply g gs id rfl hg hcode hid
  | true =>
    exfalso
    cases hx : g.info.interaction with
    | sendNative => simp [callsNoCode, hx] at hcode
    | sendInstructions => simp [callsNoCode, hx] at hcode
    | transfer token recipient amount =>
      have hsaved := hhoused.payout g hmem token recipient amount hx
      simp [callsNoCode, hx, hsaved] at hcode
    | transferFrom token sender amount =>
      obtain ⟨_, _, _, hst⟩ := hcoherent.origin _ hmapped
      simp only [Frame.map, hx] at hst
      obtain ⟨roundId, paid, hcall, -⟩ := hst.pulls
      obtain ⟨e, he, -⟩ := Option.bind_eq_some_iff.mp hn
      obtain ⟨-, e', he', rfl⟩ := chain_act he
      have hroom := hasRoom_of_reply he' (Effect.map_ne_abort (fun hz => hne (hz ▸ he))) hstack hcall
      have hsaved := hcoded reply g gs roundId paid rfl hg hcall hroom
      have hfunding := (hcoherent.funding _ hmapped roundId paid hcall).2
      simp only [Frame.map, hx] at hfunding
      cases hfunding
      simp only [callsNoCode, hx, Bool.not_eq_true'] at hcode
      exact absurd (hsaved.symm.trans hcode) (by simp)

theorem Reaches.backed (hok : ∀ c a, ok c a → ProperChain c a ∧ FundsCoded c a)
    (hempty : ∀ token, token ≠ 0 → code token = false → balance token = 0)
    (h : Reaches (chain D) ok (launched initialOwner balance now code) c) :
    Backed (c.map Chain.contract) := by
  have hfresh (c : ChainConfig) (b : Act) (ha : ok c (.act b)) : ProperChain c (.act b) := (hok c _ ha).1
  have hcommitted : Reaches (chain D) (fun c a => (ok c a ∧ chain D a c ≠ some .abort) ∧ Housed c ∧
      Coherent D (c.map Chain.contract)) (launched initialOwner balance now code) c := by
    apply (Reaches.committed rfl h).and
    intro c a hr _
    constructor
    · exact Reaches.housed (fun c a ha => (hok c a ha.1).2) hempty hr
    · exact Reachable.coherent (fun _ _ ha => ha) (Reaches.onContract (fun c b ha => (hfresh c b ha.1).1) hr)
  suffices hreach : Reachable D initialOwner balance now (fun c b => DispatchFresh c b ∧ TokensExact c b)
      (c.map Chain.contract) from Reachable.backed (fun _ _ ha => ha) hreach
  refine Reaches.project Chain.contract ?_ hcommitted
  rintro c a d ⟨⟨ha, hne⟩, hhoused, hcoherent⟩ hn
  cases a with
  | deploy address =>
    obtain ⟨e, he, hd⟩ := Option.bind_eq_some_iff.mp hn
    rw [chain_deploy he] at hd
    cases hd
    exact .inl rfl
  | act b =>
    obtain ⟨hproper, hcoded⟩ := hok c _ ha
    exact .inr ⟨b, ⟨hproper.1, tokensExact_of_coded hproper hcoded hhoused hcoherent hne hn⟩,
      machine_of_chain hn⟩

theorem fund_of_nothing {c : ContractConfig} {d : ContractConfig} {f : Frame World PendingCall}
    {fs : List (Frame World PendingCall)} {roundId amount : Uint256} {token sender : Address} {paid : ℕ}
    (hn : (machine D).next (.reply (.returned true [])) c = some d) (hstack : c.stack = f :: fs)
    (hcall : f.info.call = .fund roundId amount) (hx : f.info.interaction = .transferFrom token sender paid)
    (hroom : c.world.storage.HasRoom roundId amount) :
    d = ⟨c.world.record f.info.msg f.info.call (.finished (.returned true []))
      { c.world.storage.credited roundId amount with entered := false } c.world.balance, fs⟩ := by
  obtain ⟨w, _⟩ := c
  cases hstack
  have hcredit := creditRound_ok.mpr ⟨hroom.1, hroom.2, rfl⟩
  have hfinish : finish f.info.msg w.storage f.info.interaction (.returned true []) f.info.call =
      .ok { w.storage.credited roundId amount with entered := false } := by
    rw [hcall, hx]
    simp only [finish]
    rw [hcredit]
    rfl
  simp only [System.next, machine, hfinish, Option.bind_some, Effect.apply, Option.some.injEq] at hn
  exact hn.symm

/-- A credit that keeps the books was asked of a token with code. -/
theorem coded_of_backed (hcoherent : Coherent D (c.map Chain.contract)) (hunmoved : Unmoved c)
    (hn : (chain D).next a c = some d) (hc : Backed (c.map Chain.contract))
    (hd : Backed (d.map Chain.contract)) : FundsCoded c a := by
  rintro reply f fs roundId amount rfl hstack hcall hroom
  by_contra hnone
  have hmem : f ∈ c.stack := by simp [hstack]
  have hmapped : (c.map Chain.contract).stack = f.map Chain.contract :: fs.map (Frame.map Chain.contract) := by
    simp [Config.map, hstack]
  have hframe : f.map Chain.contract ∈ (c.map Chain.contract).stack := List.mem_map_of_mem hmem
  have hx := (hcoherent.funding _ hframe roundId amount hcall).2
  have hcodeless : callsNoCode f = true := by
    rw [callsNoCode, show f.info.interaction = _ from hx]
    simpa [Config.map] using hnone
  have hsettled := hunmoved f hmem hcodeless
  obtain ⟨e, he, -⟩ := Option.bind_eq_some_iff.mp hn
  have hsilent := (permits_iff.mp (chain_act he).1).2 f fs hstack hcodeless
  have hreply : reply = .returned true [] := by
    unfold ChainAct.returnsNothing at hsilent
    split at hsilent <;> simp_all
  subst hreply
  have hdone := fund_of_nothing (machine_of_chain hn) hmapped hcall hx hroom
  have hbefore := hc.credited roundId
  have hafter := hd.credited roundId
  obtain ⟨_, _, _, hst⟩ := hcoherent.origin _ hframe
  rw [hx] at hst
  obtain ⟨id, paid, hfund, hpaid⟩ := hst.pulls
  have hamount : (amount : ℕ) ≠ 0 := by
    have heq := hfund.symm.trans hcall
    cases heq
    exact fun hz => hpaid (Fin.ext hz)
  rw [hdone] at hafter
  rw [hmapped, uncredited_cons] at hbefore
  have hnothing : (f.map Chain.contract).info.uncredited roundId = 0 := by
    simp [Frame.map, PendingCall.uncredited, hsettled]
  have hfunds : ((c.map Chain.contract).world.storage.credited roundId amount).rounds roundId =
      { (c.map Chain.contract).world.storage.rounds roundId with
        funded := ((c.map Chain.contract).world.storage.rounds roundId).funded + amount } := by
    simp [Storage.credited]
  simp only [World.record, received_cons, hfunds, received_finished] at hafter
  rw [hnothing] at hbefore
  omega

theorem backed_iff_funds_coded (D : Deployment) (initialOwner : Address) (balance : Address → ℕ)
    (now : ℕ) (code : Address → Bool) (as : List ChainAct)
    (hempty : ∀ token, token ≠ 0 → code token = false → balance token = 0)
    (hrun : ((chain D).run as (launched initialOwner balance now code)).isSome)
    (hproper : StepsMeet (chain D) as (launched initialOwner balance now code) ProperChain) :
    Always (chain D) as (launched initialOwner balance now code)
        (fun c => Backed (c.map Chain.contract)) ↔
      StepsMeet (chain D) as (launched initialOwner balance now code) FundsCoded := by
  apply always_iff_stepsMeet hrun hproper
  · exact fun c hc => Reaches.backed (fun _ _ ha => ha) hempty hc
  · intro c a d hr hn hc hd
    exact coded_of_backed (Reachable.coherent (fun _ _ ha => ha)
      (Reaches.onContract (fun _ _ ha => ha.1) hr)) (Reaches.unmoved hr) hn hc hd

end Runs

section LateDeployment

/-- Two rounds name the same address; the first is funded before anything is deployed there, and is
cancelled once the second has brought tokens in. -/
def refundRun : List ChainAct :=
  let token : Address := 50
  let first : Address := 2
  let second : Address := 3
  [.act (.call (sampleMsg first 0) (.createRound token 3600)),
    .act (.call (sampleMsg second 0) (.createRound token 3600)),
    .act (.call (sampleMsg first 0) (.fund 0 100)),
    .act (.reply (.returned true [])),
    .deploy token,
    .act (.call (sampleMsg second 0) (.fund 1 100)),
    .act .settle,
    .act (.reply (.returned true [])),
    .act (.call (sampleMsg first 0) (.cancelRound 0)),
    .act .settle,
    .act (.reply (.returned true []))]

def sampleLaunch : ChainConfig := launched 1 (fun _ => 0) 0 (fun _ => false)

def properStep (c : ChainConfig) : ChainAct → Bool
  | .deploy _ => true
  | .act (.drift ..) => false
  | .act (.reply reply) => pendingDispatchable (c.map Chain.contract) (.reply reply) &&
      c.stack.head?.all (fun f => callsNoCode f || f.info.settled)
  | .act a => pendingDispatchable (c.map Chain.contract) a

theorem properChain_of_properStep {c : ChainConfig} {a : ChainAct} (h : properStep c a = true) :
    ProperChain c a := by
  cases a with
  | deploy => trivial
  | act b =>
    cases b with
    | drift => cases h
    | reply reply =>
      obtain ⟨hpending, htop⟩ := Bool.and_eq_true_iff.mp h
      refine ⟨dispatchFresh_of_pending hpending, fun _ _ heq => (nomatch heq), ?_⟩
      intro _ f fs id _ hstack hcode _
      simpa [hstack, hcode] using htop
    | _ => refine ⟨dispatchFresh_of_pending h, fun _ _ heq => ?_, fun _ _ _ _ heq => ?_⟩ <;> cases heq

/-- The first round received nothing and takes the whole deposit of the second. -/
theorem refunded_from_other_round :
    StepsMeet (chain sampleDeployment) refundRun sampleLaunch ProperChain ∧
    ∃ c, (chain sampleDeployment).run refundRun sampleLaunch = some c ∧
      received c.world.contract.log 0 = 0 ∧ paid c.world.contract.log 0 = 100 ∧
      ¬ Backed (c.map Chain.contract) := by
  constructor
  · exact .of_meets (fun _ _ => properChain_of_properStep) (by decide)
  · have hflows : ((chain sampleDeployment).run refundRun sampleLaunch).map (fun c =>
        (received c.world.contract.log 0, paid c.world.contract.log 0,
          (c.world.contract.storage.rounds 0).totalClaimed)) = some (0, 100, 0) := by
      decide
    obtain ⟨c, hc, hf⟩ := Option.map_eq_some_iff.mp hflows
    simp only [Prod.mk.injEq] at hf
    obtain ⟨hreceived, hpaid, hclaimed⟩ := hf
    refine ⟨c, hc, hreceived, hpaid, fun hbacked => ?_⟩
    have hle := hbacked.paid 0 (hclaimed.trans_le (Nat.zero_le _))
    simp only [contract_world] at hle
    omega

theorem backed_iff_funds_coded_sample :
    Always (chain sampleDeployment) refundRun sampleLaunch (fun c => Backed (c.map Chain.contract)) ↔
      StepsMeet (chain sampleDeployment) refundRun sampleLaunch FundsCoded :=
  backed_iff_funds_coded sampleDeployment 1 (fun _ => 0) 0 (fun _ => false) refundRun
    (fun _ _ _ => rfl) (by decide)
    (.of_meets (fun _ _ => properChain_of_properStep) (by decide))

end LateDeployment

end Fidensur
