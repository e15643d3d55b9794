import Mathlib

set_option autoImplicit false

/-!
Hash trees that combine neighbours level by level and promote an odd trailing node. Nothing is
assumed of the combination until a lemma asks for it.
-/

namespace PairHashTree

variable {H : Type} (pair : H → H → H)

def nextLevel : List H → List H
  | [] => []
  | [a] => [a]
  | a :: b :: rest => pair a b :: nextLevel rest

theorem length_nextLevel (level : List H) : (nextLevel pair level).length = (level.length + 1) / 2 := by
  induction level using nextLevel.induct with
  | case1 => simp [nextLevel]
  | case2 a => simp [nextLevel]
  | case3 a b rest ih =>
    simp only [nextLevel, List.length_cons, ih]
    omega

theorem getElem_nextLevel (level : List H) (i : ℕ) (h : i < (nextLevel pair level).length)
    (hi : 2 * i < level.length) :
    (nextLevel pair level)[i] = (level[2 * i + 1]?).elim level[2 * i] (pair level[2 * i]) := by
  induction level using nextLevel.induct generalizing i with
  | case1 => simp at hi
  | case2 a =>
    obtain rfl : i = 0 := by simpa using hi
    rfl
  | case3 a b rest ih =>
    cases i with
    | zero => rfl
    | succ i =>
      have hrec := ih i (by simpa [nextLevel] using h) (by simp only [List.length_cons] at hi; omega)
      simpa [nextLevel, Nat.mul_succ] using hrec

theorem map_range_eq_nextLevel (default : H) (level : List H) :
    (List.range ((level.length + 1) / 2)).map (fun i =>
      if 2 * i + 1 < level.length then pair (level.getD (2 * i) default) (level.getD (2 * i + 1) default)
      else level.getD (2 * i) default) = nextLevel pair level := by
  apply List.ext_getElem
  · rw [List.length_map, List.length_range, length_nextLevel]
  · intro i h h'
    have hi : 2 * i < level.length := by
      rw [length_nextLevel] at h'
      omega
    rw [List.getElem_map, List.getElem_range, getElem_nextLevel pair level i h' hi]
    split
    · next hr => rw [List.getD_eq_getElem _ _ hi, List.getD_eq_getElem _ _ hr,
        List.getElem?_eq_getElem hr, Option.elim_some]
    · next hr => rw [List.getD_eq_getElem _ _ hi, List.getElem?_eq_none (by omega), Option.elim_none]

def levels : ℕ → List H → List (List H)
  | 0, level => [level]
  | fuel + 1, level =>
      if level.length ≤ 1 then [level] else level :: levels fuel (nextLevel pair level)

def root (default : H) (levels : List (List H)) : H := (levels.getLastD []).headD default

/-- The siblings on the way up from position `idx`; a promoted node has none at its level. -/
def proof : List (List H) → ℕ → List H
  | level :: next :: above, idx => (level[idx ^^^ 1]?).toList ++ proof (next :: above) (idx / 2)
  | _, _ => []

def levelPairs : List H → List (H × H)
  | a :: b :: rest => (a, b) :: levelPairs rest
  | _ => []

theorem levels_ne_nil (fuel : ℕ) (level : List H) : levels pair fuel level ≠ [] := by
  cases fuel with
  | zero => exact List.cons_ne_nil _ _
  | succ fuel =>
    rw [levels]
    split_ifs <;> exact List.cons_ne_nil _ _

theorem levels_cons (fuel : ℕ) (level : List H) :
    ∃ above, levels pair fuel level = level :: above := by
  cases fuel with
  | zero => exact ⟨[], rfl⟩
  | succ fuel =>
    rw [levels]
    split_ifs
    · exact ⟨[], rfl⟩
    · exact ⟨_, rfl⟩

theorem levels_of_length_le_one {fuel : ℕ} {level : List H} (h : level.length ≤ 1) :
    levels pair fuel level = [level] := by
  cases fuel with
  | zero => rfl
  | succ fuel => rw [levels, if_pos h]

theorem levels_of_one_lt {fuel : ℕ} {level : List H} (h : 1 < level.length) :
    levels pair (fuel + 1) level = level :: levels pair fuel (nextLevel pair level) := by
  rw [levels, if_neg (by omega)]

theorem root_cons (default : H) (level : List H) {above : List (List H)} (h : above ≠ []) :
    root default (level :: above) = root default above := by
  obtain ⟨next, rest, rfl⟩ := List.exists_cons_of_ne_nil h
  simp only [root, List.getLastD_cons]

theorem length_nextLevel_le {fuel : ℕ} {level : List H} (h : level.length ≤ fuel + 1)
    (h1 : 1 < level.length) : (nextLevel pair level).length ≤ fuel := by
  rw [length_nextLevel]
  omega

theorem getLast_levels {fuel : ℕ} {level : List H} (h : level.length ≤ fuel) (hne : level ≠ []) :
    ∃ r, (levels pair fuel level).getLastD [] = [r] := by
  induction fuel generalizing level with
  | zero => exact absurd (List.length_eq_zero_iff.mp (Nat.le_zero.mp h)) hne
  | succ fuel ih =>
    have hpos : 0 < level.length := List.length_pos_iff.mpr hne
    by_cases h1 : level.length ≤ 1
    · rw [levels_of_length_le_one pair h1]
      have h2 : level.length = 1 := by omega
      exact List.length_eq_one_iff.mp h2
    · have hnext := length_nextLevel pair level
      have hne' : nextLevel pair level ≠ [] := by
        apply List.ne_nil_of_length_pos
        omega
      obtain ⟨r, hr⟩ := ih (length_nextLevel_le pair h (by omega)) hne'
      refine ⟨r, ?_⟩
      rw [levels_of_one_lt pair (Nat.not_le.mp h1), List.getLastD_cons, ← hr]
      obtain ⟨above, habove⟩ := levels_cons pair fuel (nextLevel pair level)
      rw [habove]
      rfl

theorem proof_ne_nil {fuel : ℕ} {level : List H} (h : level.length ≤ fuel) (h1 : 1 < level.length)
    {i : ℕ} (hi : i < level.length) : proof (levels pair fuel level) i ≠ [] := by
  induction fuel generalizing level i with
  | zero => omega
  | succ fuel ih =>
    obtain ⟨above, habove⟩ := levels_cons pair fuel (nextLevel pair level)
    rw [levels_of_one_lt pair h1, habove, proof, ← habove]
    cases hs : level[i ^^^ 1]? with
    | some sibling => simp
    | none =>
      have hlast := List.getElem?_eq_none_iff.mp hs
      have hnext := length_nextLevel pair level
      -- a node without a sibling is the last of an odd number, at least three
      have heven : i ^^^ 1 = i + 1 := by
        rcases Nat.even_or_odd i with he | ho
        · exact Nat.xor_one_of_even he
        · have := Nat.xor_one_of_odd ho
          omega
      have hparity : i % 2 = 0 := by
        rcases Nat.even_or_odd i with he | ho
        · exact Nat.even_iff.mp he
        · have := Nat.xor_one_of_odd ho
          omega
      have hrec := ih (length_nextLevel_le pair h h1) (i := i / 2) (by omega) (by omega)
      simpa using hrec

section Completeness

theorem xor_one_succ_succ (i : ℕ) : (i + 2) ^^^ 1 = (i ^^^ 1) + 2 := by
  rcases Nat.even_or_odd i with h | h
  · rw [Nat.xor_one_of_even h, Nat.xor_one_of_even (h.add (by decide))]
  · have hpos := h.pos
    rw [Nat.xor_one_of_odd h, Nat.xor_one_of_odd (h.add_even (by decide))]
    omega

theorem nextLevel_half (hcomm : ∀ a b, pair a b = pair b a) (level : List H) (i : ℕ)
    (hi : i < level.length) :
    (nextLevel pair level)[i / 2]? = some ((level[i ^^^ 1]?).toList.foldl pair level[i]) := by
  induction level using nextLevel.induct generalizing i with
  | case1 => simp at hi
  | case2 a =>
    obtain rfl : i = 0 := by simpa using hi
    rfl
  | case3 a b rest ih =>
    match i with
    | 0 => rfl
    | 1 => simp [nextLevel, hcomm]
    | i + 2 =>
      have hi' : i < rest.length := by simpa using hi
      have hdiv : (i + 2) / 2 = i / 2 + 1 := by omega
      rw [hdiv, xor_one_succ_succ]
      simpa [nextLevel] using ih i hi'

/-- Every position has a proof that leads to the root. -/
theorem foldl_proof (hcomm : ∀ a b, pair a b = pair b a) (default : H) {fuel : ℕ} {level : List H}
    (h : level.length ≤ fuel) (i : ℕ) (hi : i < level.length) :
    (proof (levels pair fuel level) i).foldl pair level[i] = root default (levels pair fuel level) := by
  induction fuel generalizing level i with
  | zero => omega
  | succ fuel ih =>
    by_cases h1 : level.length ≤ 1
    · rw [levels_of_length_le_one pair h1]
      obtain ⟨a, rfl⟩ := List.length_eq_one_iff.mp (by omega : level.length = 1)
      obtain rfl : i = 0 := by simpa using hi
      rfl
    · rw [levels_of_one_lt pair (by omega), root_cons default level (levels_ne_nil pair _ _)]
      have hlen := length_nextLevel pair level
      have hi' : i / 2 < (nextLevel pair level).length := by omega
      have hparent := nextLevel_half pair hcomm level i hi
      rw [List.getElem?_eq_getElem hi', Option.some.injEq] at hparent
      have hrec := ih (length_nextLevel_le pair h (by omega)) (i / 2) hi'
      obtain ⟨above, habove⟩ := levels_cons pair fuel (nextLevel pair level)
      rw [habove] at hrec ⊢
      rw [proof, List.foldl_append, ← hparent, hrec]

theorem mem_levelPairs_xor (level : List H) (i : ℕ) (hi : i < level.length) (hs : i ^^^ 1 < level.length) :
    (level[i], level[i ^^^ 1]) ∈ levelPairs level ∨ (level[i ^^^ 1], level[i]) ∈ levelPairs level := by
  induction level using nextLevel.induct generalizing i with
  | case1 => simp at hi
  | case2 a =>
    obtain rfl : i = 0 := by simpa using hi
    simp at hs
  | case3 a b rest ih =>
    match i with
    | 0 => exact .inl (by simp [levelPairs])
    | 1 => exact .inr (by simp [levelPairs])
    | i + 2 =>
      have hi' : i < rest.length := by simpa using hi
      have hs' : i ^^^ 1 < rest.length := by
        rw [xor_one_succ_succ] at hs
        simpa using hs
      simp only [xor_one_succ_succ, List.getElem_cons_succ, levelPairs, List.mem_cons]
      exact (ih i hi' hs').imp .inr .inr

theorem pair_of_proof (hcomm : ∀ a b, pair a b = pair b a) {fuel : ℕ} {level : List H}
    (h : level.length ≤ fuel) {i : ℕ} (hi : i < level.length) {q rest : List H} {s : H}
    (hproof : proof (levels pair fuel level) i = q ++ s :: rest) :
    (q.foldl pair level[i], s) ∈ (levels pair fuel level).flatMap levelPairs ∨
      (s, q.foldl pair level[i]) ∈ (levels pair fuel level).flatMap levelPairs := by
  induction fuel generalizing level i q with
  | zero => omega
  | succ fuel ih =>
    by_cases h1 : level.length ≤ 1
    · rw [levels_of_length_le_one pair h1] at hproof
      simp [proof] at hproof
    · have hlen := length_nextLevel pair level
      have hi' : i / 2 < (nextLevel pair level).length := by omega
      have hparent := nextLevel_half pair hcomm level i hi
      rw [List.getElem?_eq_getElem hi', Option.some.injEq] at hparent
      have hrec := @ih _ (length_nextLevel_le pair h (by omega)) _ hi'
      obtain ⟨above, habove⟩ := levels_cons pair fuel (nextLevel pair level)
      rw [levels_of_one_lt pair (by omega), List.flatMap_cons]
      rw [levels_of_one_lt pair (by omega), habove, proof, ← habove] at hproof
      have habovePair {q' : List H} (hq' : proof (levels pair fuel (nextLevel pair level)) (i / 2) = q' ++ s :: rest)
          (heq : q.foldl pair level[i] = q'.foldl pair (nextLevel pair level)[i / 2]) :
          (q.foldl pair level[i], s) ∈ levelPairs level ++ (levels pair fuel (nextLevel pair level)).flatMap levelPairs ∨
            (s, q.foldl pair level[i]) ∈ levelPairs level ++ (levels pair fuel (nextLevel pair level)).flatMap levelPairs := by
        rw [heq]
        exact (hrec hq').imp (List.mem_append_right _) (List.mem_append_right _)
      by_cases hs : i ^^^ 1 < level.length
      · rw [List.getElem?_eq_getElem hs] at hproof hparent
        cases q with
        | nil =>
          obtain ⟨rfl, -⟩ := List.cons.inj hproof
          exact (mem_levelPairs_xor level i hi hs).imp (List.mem_append_left _) (List.mem_append_left _)
        | cons y q =>
          obtain ⟨rfl, htail⟩ := List.cons.inj hproof
          exact habovePair htail (by rw [hparent]; rfl)
      · rw [List.getElem?_eq_none (by omega)] at hproof hparent
        exact habovePair hproof (by rw [hparent]; rfl)

end Completeness

section Lengths

/-- The loop as it runs, with the function that makes the next level: it goes on while a level has
more than one node. -/
inductive Built (next : List H → List H) : List H → List (List H) → Prop
  | single {level : List H} (h : level.length ≤ 1) : Built next level [level]
  | turn {level : List H} {above : List (List H)} (h : 1 < level.length)
      (hrest : Built next (next level) above) : Built next level (level :: above)

/-- The fuel outlasts the loop. -/
theorem built_levels {fuel : ℕ} {level : List H} (h : level.length ≤ fuel) :
    Built (nextLevel pair) level (levels pair fuel level) := by
  induction fuel generalizing level with
  | zero => exact .single (by omega)
  | succ fuel ih =>
    by_cases h1 : level.length ≤ 1
    · rw [levels_of_length_le_one pair h1]
      exact .single h1
    · rw [levels_of_one_lt pair (by omega)]
      exact .turn (by omega) (ih (length_nextLevel_le pair h (by omega)))

def width (n depth : ℕ) : ℕ := (n + (2 ^ depth - 1)) / 2 ^ depth

def paired (nodes idx : ℕ) : Bool := !(decide (idx + 1 = nodes) && decide (nodes % 2 = 1))

/-- The levels of a tree with `n` leaves at which the ancestor of leaf `i` is paired. -/
def pairedLevels (n i : ℕ) : ℕ :=
  (List.range (Nat.clog 2 n)).countP fun depth => paired (width n depth) (i / 2 ^ depth)

theorem width_succ (n depth : ℕ) : width n (depth + 1) = width ((n + 1) / 2) depth := by
  have hpos : 0 < 2 ^ depth := Nat.two_pow_pos depth
  have hhalf : (n + 1) / 2 + (2 ^ depth - 1) = (n + (2 ^ (depth + 1) - 1)) / 2 := by
    rw [Nat.pow_succ]
    omega
  rw [width, width, hhalf, Nat.div_div_eq_div_mul, Nat.pow_succ, Nat.mul_comm 2]

theorem xor_one_lt_iff {n i : ℕ} (hi : i < n) : i ^^^ 1 < n ↔ paired n i = true := by
  simp only [paired, Bool.not_eq_true', Bool.and_eq_false_iff, decide_eq_false_iff_not]
  rcases Nat.even_or_odd i with h | h
  · have hmod := Nat.even_iff.mp h
    rw [Nat.xor_one_of_even h]
    omega
  · have hmod := Nat.odd_iff.mp h
    rw [Nat.xor_one_of_odd h]
    omega

theorem pairedLevels_of_one_lt {n : ℕ} (h : 1 < n) (i : ℕ) :
    pairedLevels n i = (if paired n i then 1 else 0) + pairedLevels ((n + 1) / 2) (i / 2) := by
  have hclog : Nat.clog 2 n = Nat.clog 2 ((n + 1) / 2) + 1 := Nat.clog_of_one_lt (by decide) h
  have hshift : (fun depth => paired (width n depth) (i / 2 ^ depth)) ∘ Nat.succ =
      fun depth => paired (width ((n + 1) / 2) depth) (i / 2 / 2 ^ depth) := by
    funext depth
    simp only [Function.comp_apply, Nat.succ_eq_add_one, width_succ]
    rw [Nat.div_div_eq_div_mul, Nat.pow_succ, Nat.mul_comm 2]
  have hfirst : width n 0 = n := by simp [width]
  rw [pairedLevels, hclog, List.range_succ_eq_map, List.countP_cons, List.countP_map, hshift, hfirst,
    Nat.pow_zero, Nat.div_one, Nat.add_comm]
  rfl

theorem pairedLevels_le (n i : ℕ) : pairedLevels n i ≤ Nat.clog 2 n := by
  have hle := List.countP_le_length (p := fun depth => paired (width n depth) (i / 2 ^ depth))
    (l := List.range (Nat.clog 2 n))
  rwa [List.length_range] at hle

theorem length_proof {fuel : ℕ} {level : List H} (h : level.length ≤ fuel) {i : ℕ} (hi : i < level.length) :
    (proof (levels pair fuel level) i).length = pairedLevels level.length i := by
  induction fuel generalizing level i with
  | zero => omega
  | succ fuel ih =>
    by_cases h1 : level.length ≤ 1
    · rw [levels_of_length_le_one pair h1, pairedLevels, Nat.clog_of_right_le_one h1]
      rfl
    · have hnext := length_nextLevel pair level
      have hrec := ih (length_nextLevel_le pair h (by omega)) (i := i / 2) (by omega)
      obtain ⟨above, habove⟩ := levels_cons pair fuel (nextLevel pair level)
      rw [levels_of_one_lt pair (by omega), pairedLevels_of_one_lt (by omega), ← hnext, ← hrec, habove, proof,
        List.length_append]
      congr 1
      by_cases hs : i ^^^ 1 < level.length
      · rw [if_pos ((xor_one_lt_iff hi).mp hs), List.getElem?_eq_getElem hs]
        rfl
      · rw [if_neg (fun hp => hs ((xor_one_lt_iff hi).mpr hp)), List.getElem?_eq_none (by omega)]
        rfl

end Lengths

section Soundness

/-- What the tree over `leaves` is made of, `built` being the pairs that were combined. -/
inductive Node (leaves : List H) (built : List (H × H)) : H → Prop
  | leaf (x : H) (h : x ∈ leaves) : Node leaves built x
  | combined (a b : H) (h : (a, b) ∈ built) (ha : Node leaves built a) (hb : Node leaves built b) :
      Node leaves built (pair a b)

theorem mem_nextLevel {x : H} (level : List H) (h : x ∈ nextLevel pair level) :
    x ∈ level ∨ ∃ a b, (a, b) ∈ levelPairs level ∧ a ∈ level ∧ b ∈ level ∧ x = pair a b := by
  induction level using nextLevel.induct with
  | case1 => simp [nextLevel] at h
  | case2 a => exact .inl h
  | case3 a b rest ih =>
    rw [nextLevel, List.mem_cons] at h
    rcases h with rfl | h
    · exact .inr ⟨a, b, by simp [levelPairs], by simp, by simp, rfl⟩
    · rcases ih h with hx | ⟨a', b', hp, ha, hb, rfl⟩
      · exact .inl (by simp [hx])
      · exact .inr ⟨a', b', by simp [levelPairs, hp], by simp [ha], by simp [hb], rfl⟩

theorem node_of_mem_levels {leaves : List H} {built : List (H × H)} {fuel : ℕ} {level : List H}
    (hlevel : ∀ x ∈ level, Node pair leaves built x)
    (hbuilt : ∀ l ∈ levels pair fuel level, ∀ p ∈ levelPairs l, p ∈ built)
    {l : List H} (hl : l ∈ levels pair fuel level) {x : H} (hx : x ∈ l) :
    Node pair leaves built x := by
  induction fuel generalizing level with
  | zero =>
    obtain rfl := List.mem_singleton.mp hl
    exact hlevel x hx
  | succ fuel ih =>
    rw [levels] at hl hbuilt
    split_ifs at hl hbuilt with h1
    · obtain rfl := List.mem_singleton.mp hl
      exact hlevel x hx
    · rcases List.mem_cons.mp hl with rfl | hl
      · exact hlevel x hx
      · refine ih (fun y hy => ?_) (fun l' hl' => hbuilt l' (List.mem_cons_of_mem _ hl')) hl
        rcases mem_nextLevel pair level hy with hy | ⟨a, b, hp, ha, hb, rfl⟩
        · exact hlevel y hy
        · exact .combined a b (hbuilt level List.mem_cons_self _ hp) (hlevel a ha) (hlevel b hb)

theorem node_root (default : H) {fuel : ℕ} {leaves : List H} (h : leaves.length ≤ fuel)
    (hne : leaves ≠ []) :
    Node pair leaves ((levels pair fuel leaves).flatMap levelPairs)
      (root default (levels pair fuel leaves)) := by
  obtain ⟨r, hr⟩ := getLast_levels pair h hne
  have hmem : [r] ∈ levels pair fuel leaves := by
    rw [← hr, List.getLastD_eq_getLast?, List.getLast?_eq_some_getLast (levels_ne_nil pair _ _)]
    exact List.getLast_mem _
  rw [root, hr]
  exact node_of_mem_levels pair (fun x hx => .leaf x hx)
    (fun l hl p hp => List.mem_flatMap.mpr ⟨l, hl, hp⟩) hmem (List.mem_singleton_self r)

/--
Walking down from a node along any list of siblings stays inside the tree, as long as the steps of
the walk (`used`) are not leaves and share no value with a different built pair.
-/
theorem node_of_foldl {leaves : List H} {built : List (H × H)} {used : H → H → Prop}
    (hleaf : ∀ x ∈ leaves, ∀ a b, used a b → x ≠ pair a b)
    (hpair : ∀ a b c d, (a, b) ∈ built → used c d → pair a b = pair c d → c = a ∨ c = b)
    (siblings : List H) (x : H)
    (hused : ∀ q s rest, siblings = q ++ s :: rest → used (q.foldl pair x) s)
    (h : Node pair leaves built (siblings.foldl pair x)) : Node pair leaves built x := by
  induction siblings using List.reverseRecOn with
  | nil => exact h
  | append_singleton q s ih =>
    have hlast := hused q s [] rfl
    have hinit : Node pair leaves built (q.foldl pair x) := by
      rw [List.foldl_append] at h
      generalize hy : [s].foldl pair (q.foldl pair x) = y at h
      cases h with
      | leaf _ hmem => exact absurd hy.symm (hleaf y hmem _ _ hlast)
      | combined a b hb ha hb' =>
        rcases hpair a b _ _ hb hlast hy.symm with hc | hc <;> rw [hc] <;> assumption
    refine ih (fun q' s' rest heq => hused q' s' (rest ++ [s]) ?_) hinit
    rw [heq, List.append_assoc, List.cons_append]

theorem mem_leaves_of_node {leaves : List H} {built : List (H × H)} {x : H}
    (hx : ∀ a b, (a, b) ∈ built → x ≠ pair a b) (h : Node pair leaves built x) : x ∈ leaves := by
  cases h with
  | leaf _ hmem => exact hmem
  | combined a b hb => exact absurd rfl (hx a b hb)

end Soundness

end PairHashTree
