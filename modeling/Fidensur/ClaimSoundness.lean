import Fidensur.Authenticity
import Fidensur.EvaluationBounds
import Fidensur.TreeSoundness

set_option autoImplicit false

namespace Fidensur

open NestedCalls ByteWords

def Finalization.root (f : Finalization) : Option Bytes32 :=
  (AllocationResult.decode f.resultData).map AllocationResult.merkleRoot

def Leaf.row (l : Leaf) : Allocation := ⟨l.index, l.recipient, (l.amount : ℕ)⟩

theorem Leaf.row_injective (l : Leaf) {l' : Leaf} (h : l.row = l'.row) : l = l' := by
  obtain ⟨i, r, x⟩ := l
  obtain ⟨j, r', y⟩ := l'
  simp only [Leaf.row, Allocation.mk.injEq, Nat.cast_inj, Fin.val_inj] at h
  obtain ⟨rfl, rfl, rfl⟩ := h
  rfl

theorem sum_map_row (leaves : List Leaf) :
    sumAllocations (leaves.map Leaf.row) = ((amounts leaves).sum : ℕ) := by
  rw [sumAllocations, List.map_map, amounts, Nat.cast_list_sum, List.map_map]
  rfl

theorem nodup_map_row {leaves : List Leaf} (hn : (leaves.map Leaf.index).Nodup) : (leaves.map Leaf.row).Nodup :=
  hn.of_map.map fun l _ heq => l.row_injective heq

structure ClaimsUnder (keccak : Keccak) (root : Bytes32) (roundId : Uint256) (s : Storage)
    (log : List Entry) : Prop where
  stored : (s.rounds roundId).merkleRoot = 0 ∨ (s.rounds roundId).merkleRoot = root
  verified : ∀ e ∈ log, ∀ index amount proof x, e.call = .claim roundId index amount proof →
    e.phase = .started x →
    AllocationMerkle.verify keccak root roundId index e.msg.sender amount proof = true

variable {D : Deployment} {msg : Msg} {view : Address → ℕ} {s s' : Storage} {call : Call}
  {x : Option Interaction} {c d : ContractConfig} {a : Act} {initialOwner : Address}
  {balance : Address → ℕ} {now : ℕ} {ok : ContractConfig → Act → Prop} {log : List Entry}
  {root : Bytes32} {roundId : Uint256}

section Runs

theorem ClaimsUnder.started (h : ClaimsUnder D.keccak root roundId s log)
    (hst : Started D msg view s call s' x)
    (hroot : ∀ f, .finalized f ∈ events (⟨msg, call, .started x, s'⟩ :: log) roundId →
      f.root = some root) :
    ClaimsUnder D.keccak root roundId s' (⟨msg, call, .started x, s'⟩ :: log) := by
  constructor
  · rcases hst.promise roundId with hp |
      ⟨resultData, actionId, tag, status, signature, res, rfl, hd, hid, -, hp⟩
    · have hsame : (s'.rounds roundId).merkleRoot = (s.rounds roundId).merkleRoot :=
        congrArg Prod.fst hp
      rw [hsame]
      exact h.stored
    · right
      let f : Finalization := ⟨resultData, actionId, tag, status, signature, s'.teeAddress⟩
      have hevent : (⟨msg, .finalizeRound resultData actionId tag status signature, .started x,
          s'⟩ : Entry).event roundId = some (.finalized f) := by
        simp only [Entry.event, hd, Option.any_some, hid, beq_self_eq_true, if_true, f]
      have hf := hroot f (List.mem_filterMap.mpr ⟨_, List.mem_cons_self, hevent⟩)
      rw [Finalization.root, hd] at hf
      have hwritten : (s'.rounds roundId).merkleRoot = res.merkleRoot := congrArg Prod.fst hp
      rw [hwritten]
      exact Option.some.inj hf
  · refine List.forall_mem_cons.mpr ⟨?_, h.verified⟩
    rintro index amount proof y hcall -
    subst hcall
    cases hst with
    | configure _ _ _ _ _ hconf => cases hconf
    | claim _ _ _ _ _ _ _ _ hp =>
      rcases h.stored with hz | hr
      · exact absurd hz (verify_root_ne_zero hp)
      · rw [← hr]
        exact hp

theorem ClaimsUnder.keep {e : Entry} (h : ClaimsUnder D.keccak root roundId s log)
    (hroot : (s'.rounds roundId).merkleRoot = (s.rounds roundId).merkleRoot)
    (he : ∀ y, e.phase ≠ .started y) : ClaimsUnder D.keccak root roundId s' (e :: log) := by
  refine ⟨by rw [hroot]; exact h.stored, List.forall_mem_cons.mpr ⟨?_, h.verified⟩⟩
  intro _ _ _ y _ hy
  exact absurd hy (he y)

theorem Reachable.claimsUnder (h : Reachable D initialOwner balance now ok c)
    (hroot : ∀ f, .finalized f ∈ events c.world.log roundId → f.root = some root) :
    ClaimsUnder D.keccak root roundId c.world.storage c.world.log := by
  refine Reachable.invariant (P := fun c =>
    (∀ f, .finalized f ∈ events c.world.log roundId → f.root = some root) →
    ClaimsUnder D.keccak root roundId c.world.storage c.world.log) ?_ ?_ h hroot
  · exact fun _ => ⟨.inl rfl, List.forall_mem_nil _⟩
  · intro c a d _ hp _ hstep hroot
    have hearlier {e : Entry} {log : List Entry}
        (h : ∀ f, .finalized f ∈ events (e :: log) roundId → f.root = some root) :
        ∀ f, .finalized f ∈ events log roundId → f.root = some root := by
      intro f hf
      apply h f
      rw [events_cons]
      exact List.mem_append_right _ hf
    cases hstep with
    | done msg call ht hself hst => exact (hp (hearlier hroot)).started hst hroot
    | pending msg call ht hself hst => exact (hp (hearlier hroot)).started hst hroot
    | settled p => exact (hp (hearlier hroot)).keep rfl (fun _ hy => Phase.noConfusion hy)
    | replied p reply ha hf =>
      exact (hp (hearlier hroot)).keep (congrArg Prod.fst (hf.promise roundId))
        (fun _ hy => Phase.noConfusion hy)
    | _ => exact hp hroot

theorem claimed_some {e : Entry} {l : Leaf} (h : e.claimed roundId = some l) :
    ∃ proof y, e.call = .claim roundId l.index l.amount proof ∧ e.phase = .started y ∧
      e.msg.sender = l.recipient := by
  obtain ⟨emsg, ecall, phase, post⟩ := e
  unfold Entry.claimed at h
  split at h
  · next id index amount proof y hcall hphase =>
    simp only at hcall hphase
    split at h
    · next hid =>
      cases h
      obtain rfl := Fin.ext hid
      exact ⟨proof, y, hcall, hphase, rfl⟩
    · cases h
  · cases h

theorem mem_claims {l : Leaf} (h : l ∈ claims log roundId) :
    ∃ e ∈ log, ∃ proof y, e.call = .claim roundId l.index l.amount proof ∧ e.phase = .started y ∧
      e.msg.sender = l.recipient := by
  obtain ⟨e, he, hl⟩ := List.mem_filterMap.mp h
  exact ⟨e, he, claimed_some hl⟩

/-- What verifies under the root of a table is the row at its index. -/
theorem Policy.Tabulated.row_of_claim {cfg : EngineConfig} {p : Policy} {table : List Allocation}
    {tree : List (List Bytes32)} {keccak : Keccak} {S : Set Bytes} {index amount : Uint256}
    {recipient : Address} {proof : List Bytes32} (htab : p.Tabulated table) (hp : p.Valid cfg)
    (hk : Set.InjOn keccak S)
    (htree : MerkleTree.buildMerkleTree keccak (leavesOf keccak (roundId : ℕ) table) = some tree)
    (hbuilt : ∀ b ∈ MerkleTree.preimages keccak (roundId : ℕ) table tree, b ∈ S)
    (hclaim : ∀ b ∈ AllocationMerkle.preimages keccak roundId index recipient amount proof, b ∈ S)
    (hv : AllocationMerkle.verify keccak (MerkleTree.root tree) roundId index recipient amount proof =
      true) :
    table[(index : ℕ)]? = some (Leaf.row ⟨index, recipient, amount⟩) := by
  obtain ⟨r, hr, heq⟩ := MerkleTree.row_of_verify hk htree hbuilt hclaim hv
  obtain ⟨i, hi, rfl⟩ := List.mem_iff_getElem.mp hr
  have hindex := htab.indexed i hi
  have hsmall : table[i].index < 256 ^ 32 := by
    have hcount : table.length ≤ 4096 := htab.count.trans hp.count
    rw [hindex]
    have : 4096 ≤ 256 ^ 32 := by norm_num
    omega
  obtain ⟨hidx, hrec, hamount⟩ := MerkleTree.leafPreimage_inj hsmall (htab.positive _ hr).le heq
  rw [← hidx, hindex, List.getElem?_eq_getElem hi, Leaf.row, ← hidx, ← hrec, ← hamount]

end Runs

/-- Whatever is claimed from a round with the engine's root is a row of its table, each one at most
once and for its own recipient. -/
theorem claims_are_rows (D : Deployment) (initialOwner : Address) (balance : Address → ℕ) (now : ℕ)
    (cfg : EngineConfig) (p : Policy) (table : List Allocation) (tree : List (List Bytes32))
    (roundId : Uint256) (hvalid : validate cfg p = .ok ()) (htable : evaluate p = .ok table)
    (hid : p.roundId = some (roundId : ℕ))
    (htree : MerkleTree.buildMerkleTree D.keccak (leavesOf D.keccak (value p.roundId) table) =
      some tree)
    (S : Set Bytes) (hk : Set.InjOn D.keccak S)
    (hbuilt : ∀ b ∈ MerkleTree.preimages D.keccak (value p.roundId) table tree, b ∈ S)
    (c : ContractConfig)
    (h : Reachable D initialOwner balance now (ClaimsHashedIn D S roundId) c)
    (hroot : ∀ f, .finalized f ∈ events c.world.log roundId →
      f.root = some (MerkleTree.root tree)) :
    (∀ l ∈ claims c.world.log roundId, table[(l.index : ℕ)]? = some l.row) ∧
    ((claims c.world.log roundId).map Leaf.row).Nodup ∧
    ((claims c.world.log roundId).map Leaf.recipient).Nodup ∧
    (c.world.storage.rounds roundId).totalClaimed =
      sumAllocations ((claims c.world.log roundId).map Leaf.row) := by
  have hp := Policy.Valid.of_validate hvalid
  have htab := evaluate_ok hp htable
  have hvalue : value p.roundId = (roundId : ℕ) := by rw [hid]; rfl
  rw [hvalue] at htree hbuilt
  have hcounted := h.claimsCounted
  have hunder := Reachable.claimsUnder h hroot
  have hhashed := (Reachable.calls (Q := fun msg call => ∀ index amount proof,
    call = .claim roundId index amount proof →
      ∀ b ∈ AllocationMerkle.preimages D.keccak roundId index msg.sender amount proof, b ∈ S)
    (fun c a ha msg call hc index amount proof heq =>
      ha msg index amount proof (hc.trans (by rw [heq]))) h).1
  have hrow : ∀ l ∈ claims c.world.log roundId, table[(l.index : ℕ)]? = some l.row := by
    intro l hl
    obtain ⟨e, he, proof, y, hcall, hphase, hsender⟩ := mem_claims hl
    have hv := hunder.verified e he _ _ _ y hcall hphase
    have hrow := htab.row_of_claim hp hk htree hbuilt (hhashed e he _ _ _ hcall) hv
    rwa [hsender] at hrow
  have hinj : ∀ l ∈ claims c.world.log roundId, ∀ l' ∈ claims c.world.log roundId,
      l.recipient = l'.recipient → l = l' := fun l hl l' hl' heq =>
    l.row_injective (List.inj_on_of_nodup_map htab.distinct (List.mem_of_getElem? (hrow l hl))
      (List.mem_of_getElem? (hrow l' hl')) heq)
  have hnodup := (hcounted.distinct roundId).of_map
  refine ⟨hrow, ?_, ?_, ?_⟩
  · exact nodup_map_row (hcounted.distinct roundId)
  · exact hnodup.map_on hinj
  · rw [← hcounted.total, sum_map_row]

section Sample

def samplePolicy : Policy where
  contractAddr := 1000
  roundId := some 0
  organization := 2
  mode := modeExplicit
  totalBudget := some 18
  minAlloc := none
  maxAlloc := none
  bands := []
  salt := 0
  entries := [⟨4, some 0, some 6⟩, ⟨6, some 0, some 7⟩, ⟨3, some 0, some 5⟩]

def sampleConfig : EngineConfig := ⟨1000, true, 5⟩

def sampleTable : List Allocation := [⟨0, 3, 5⟩, ⟨1, 4, 6⟩, ⟨2, 6, 7⟩]

def sampleTree : List (List Bytes32) :=
  MerkleTree.buildLevels sampleDeployment.keccak 3 (leavesOf sampleDeployment.keccak 0 sampleTable)

def tableRun : List Act :=
  let ciphertext : Bytes := [42]
  let commitment : Bytes32 := sampleDeployment.keccak ciphertext
  let result : AllocationResult := ⟨1000, 0, commitment, MerkleTree.root sampleTree, 18, 3, 5⟩
  [.call (sampleMsg 1 0) .setExtensionId,
    .call (sampleMsg 1 0) (.setTeeAddress 7),
    .call (sampleMsg 2 0) (.createRound 0 3600),
    .call (sampleMsg 2 18) (.fund 0 18),
    .call (sampleMsg 2 0) (.submitPolicy 0 commitment),
    .call (sampleMsg 2 0) (.requestCompute 0 ciphertext),
    .reply (.instruction 99),
    .call (sampleMsg 3 0) (.finalizeRound result.encode 99 [] 1 (List.replicate 64 0 ++ [27])),
    .call (sampleMsg 6 0) (.claim 0 2 7 (MerkleTree.proof sampleTree 2)),
    .reply (.returned true []),
    .call (sampleMsg 4 0) (.claim 0 1 6 (MerkleTree.proof sampleTree 1)),
    .reply (.returned true [])]

def tableHashed : List Bytes :=
  MerkleTree.preimages sampleDeployment.keccak 0 sampleTable sampleTree ++
    tableRun.flatMap fun a =>
      match a with
      | .call msg (.claim roundId index amount proof) =>
          AllocationMerkle.preimages sampleDeployment.keccak roundId index msg.sender amount proof
      | _ => []

theorem tableHashed_injOn : Set.InjOn sampleDeployment.keccak {b | b ∈ tableHashed} := by
  apply injOn_hashed
  decide +kernel

def writtenRoots (log : List Entry) (roundId : ℕ) : List (Option Bytes32) :=
  (events log roundId).filterMap fun ev =>
    match ev with
    | .finalized f => some f.root
    | _ => none

theorem claims_are_rows_sample : ∃ c,
    (machine sampleDeployment).run tableRun sampleStart = some c ∧
    (claims c.world.log 0).length = 2 ∧
    (∀ l ∈ claims c.world.log 0, sampleTable[(l.index : ℕ)]? = some l.row) ∧
    (c.world.storage.rounds 0).totalClaimed = sumAllocations ((claims c.world.log 0).map Leaf.row) := by
  have hrun : ((machine sampleDeployment).run tableRun sampleStart).map
      (fun c => ((claims c.world.log 0).length, writtenRoots c.world.log 0)) =
      some (2, [some (MerkleTree.root sampleTree)]) := by
    decide +kernel
  have hsteps : StepsMeet (machine sampleDeployment) tableRun sampleStart
      (ClaimsHashedIn sampleDeployment {b | b ∈ tableHashed} 0) :=
    .of_meets (fun _ _ h => claimsKnown_ok h 0) (by decide +kernel)
  obtain ⟨c, hc, hend⟩ := Option.map_eq_some_iff.mp hrun
  obtain ⟨hlength, hroots⟩ := Prod.mk.inj hend
  have hroot : ∀ f, .finalized f ∈ events c.world.log (0 : Uint256) →
      f.root = some (MerkleTree.root sampleTree) := by
    intro f hf
    have hmem : f.root ∈ writtenRoots c.world.log 0 := List.mem_filterMap.mpr ⟨_, hf, rfl⟩
    rw [hroots] at hmem
    exact List.mem_singleton.mp hmem
  obtain ⟨hrow, -, -, htotal⟩ := claims_are_rows sampleDeployment 1 (fun _ => 0) 0 sampleConfig
    samplePolicy sampleTable sampleTree 0 (by decide) (by decide) rfl
    (by decide +kernel) {b | b ∈ tableHashed} tableHashed_injOn
    (fun b hb => List.mem_append_left _ hb) c (hsteps.reaches _ List.prefix_rfl c hc) hroot
  exact ⟨c, hc, hlength, hrow, htotal⟩

end Sample

end Fidensur
