import Fidensur.ClaimHistory

set_option autoImplicit false

/-!
The claimed bits of the contract as a set of rounds and indices.
-/

namespace Fidensur

variable {s : Storage} {roundId index : ℕ}

def claimedSet (s : Storage) : Set (ℕ × ℕ) := {p | isClaimed s p.1 p.2 = true}

theorem claimedSet_deployed (owner : Address) : claimedSet (.deployed owner) = ∅ := by
  apply Set.eq_empty_of_forall_notMem
  intro p hp
  change isClaimed (.deployed owner) p.1 p.2 = true at hp
  rw [isClaimed_iff] at hp
  simp [Storage.deployed] at hp

theorem claimedSet_setClaimed :
    claimedSet (setClaimed roundId index s) = insert (roundId, index) (claimedSet s) := by
  ext ⟨id, i⟩
  change isClaimed _ id i = true ↔ _
  rw [isClaimed_setClaimed, Bool.or_eq_true, decide_eq_true_eq, Set.mem_insert_iff, Prod.mk.injEq]
  rfl

def setAllClaimed (ops : List (Uint256 × Uint256)) (s : Storage) : Storage :=
  ops.foldl (fun s op => setClaimed op.1 op.2 s) s

def pairOf (op : Uint256 × Uint256) : ℕ × ℕ := (op.1, op.2)

theorem pairOf_injective : Function.Injective pairOf := by
  rintro ⟨r, i⟩ ⟨r', i'⟩ h
  obtain ⟨hr, hi⟩ := Prod.mk.inj h
  exact Prod.ext (Fin.ext hr) (Fin.ext hi)

theorem claimedSet_setAllClaimed (ops : List (Uint256 × Uint256)) (s : Storage) :
    claimedSet (setAllClaimed ops s) = claimedSet s ∪ pairOf '' {op | op ∈ ops} := by
  induction ops generalizing s with
  | nil => simp [setAllClaimed]
  | cons op ops ih =>
    have hcons : {o | o ∈ op :: ops} = insert op {o | o ∈ ops} := by
      ext o
      simp
    change claimedSet (setAllClaimed ops (setClaimed op.1 op.2 s)) = _
    rw [ih, claimedSet_setClaimed, hcons, Set.image_insert_eq, Set.insert_union, Set.union_insert]
    rfl

theorem isClaimed_setAllClaimed {ops : List (Uint256 × Uint256)} {r i : Uint256} :
    isClaimed (setAllClaimed ops s) r i = true ↔ isClaimed s r i = true ∨ (r, i) ∈ ops := by
  change pairOf (r, i) ∈ claimedSet (setAllClaimed ops s) ↔ _
  rw [claimedSet_setAllClaimed, Set.mem_union, Set.mem_image]
  refine or_congr_right ⟨?_, fun h => ⟨_, h, rfl⟩⟩
  rintro ⟨op, hop, heq⟩
  rwa [← pairOf_injective heq]

/-- The bitmap records exactly the pairs that were set: none is lost later, and setting one changes
the answer for no other. -/
theorem bitmap_is_set (owner : Address) (ops : List (Uint256 × Uint256)) :
    (∀ r i : Uint256, isClaimed (setAllClaimed ops (.deployed owner)) r i = true ↔ (r, i) ∈ ops) ∧
    (∀ (later : List (Uint256 × Uint256)) (r i : Uint256),
      isClaimed (setAllClaimed ops (.deployed owner)) r i = true →
        isClaimed (setAllClaimed (ops ++ later) (.deployed owner)) r i = true) ∧
    ∀ r i r' i' : Uint256, (r', i') ≠ (r, i) →
      isClaimed (setClaimed r i (setAllClaimed ops (.deployed owner))) r' i' =
        isClaimed (setAllClaimed ops (.deployed owner)) r' i' := by
  have hset {ops : List (Uint256 × Uint256)} {r i : Uint256} :
      isClaimed (setAllClaimed ops (.deployed owner)) r i = true ↔ (r, i) ∈ ops := by
    have hempty : isClaimed (.deployed owner) r i ≠ true := by
      intro h
      have hmem : ((r : ℕ), (i : ℕ)) ∈ claimedSet (.deployed owner) := h
      rwa [claimedSet_deployed] at hmem
    rw [isClaimed_setAllClaimed, or_iff_right hempty]
  refine ⟨fun r i => hset, fun later r i h => ?_, fun r i r' i' hne => ?_⟩
  · exact hset.mpr (List.mem_append_left later (hset.mp h))
  · have hpair : ¬ ((r' : ℕ) = r ∧ (i' : ℕ) = i) := by
      rintro ⟨hr, hi⟩
      exact hne (Prod.ext (Fin.ext hr) (Fin.ext hi))
    rw [isClaimed_setClaimed, decide_eq_false hpair, Bool.false_or]

end Fidensur
