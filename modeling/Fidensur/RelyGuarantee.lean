import Fidensur.CriticalSections

set_option autoImplicit false

/-!
What holds of a shared state whatever the other handlers do to it, how much handlers have added to
a counter, and what is left when some of them die.
-/

namespace CriticalSections

variable {S Q R R' : Type}

section Map

def Program.map (f : R → R') : Program S R → Program S R'
  | .done r => .done (f r)
  | .locked update next => .locked update fun s => (next s).map f

theorem Keeps.map {inv : S → Prop} {guarantee : S → S → Prop} {post : R → Prop} {post' : R' → Prop}
    {f : R → R'} (hpost : ∀ r, post r → post' (f r)) {prog : Program S R}
    (h : Keeps inv guarantee post prog) : Keeps inv guarantee post' (prog.map f) := by
  induction h with
  | done h => exact .done (hpost _ h)
  | locked hinv hmove _ ih => exact .locked hinv hmove ih

theorem Keeps.mono {inv : S → Prop} {guarantee : S → S → Prop} {post post' : R → Prop}
    (hpost : ∀ r, post r → post' r) {prog : Program S R} (h : Keeps inv guarantee post prog) :
    Keeps inv guarantee post' prog := by
  induction h with
  | done h => exact .done (hpost _ h)
  | locked hinv hmove _ ih => exact .locked hinv hmove ih

theorem Keeps.and {inv : S → Prop} {guarantee : S → S → Prop} {post post' : R → Prop}
    {prog : Program S R} (h : Keeps inv guarantee post prog) (h' : Keeps inv guarantee post' prog) :
    Keeps inv guarantee (fun r => post r ∧ post' r) prog := by
  induction h with
  | done h =>
    cases h' with
    | done h' => exact .done ⟨h, h'⟩
  | locked hinv hmove _ ih =>
    cases h' with
    | locked _ _ hnext => exact .locked hinv hmove fun s hs => ih s hs (hnext s hs)

end Map

section Loss

variable {inv : S → Prop} {guarantee : S → S → Prop} {post : Q → R → Prop}

/-- A handler that dies between two critical sections leaves nothing behind. -/
theorem Safe.lose {s : S} {finished : List (Q × R)} {before after : List (Q × Program S R)}
    {t : Q × Program S R} (h : Safe inv guarantee post ⟨s, before ++ t :: after, finished⟩) :
    Safe inv guarantee post ⟨s, before ++ after, finished⟩ := by
  constructor
  · exact h.shared
  · intro u hu
    apply h.running u
    simp only [List.mem_append, List.mem_cons] at hu ⊢
    tauto
  · exact h.finished

end Loss

section Assertions

def Stable (inv : S → Prop) (guarantee : S → S → Prop) (P : S → Prop) : Prop :=
  ∀ s s', inv s → guarantee s s' → P s → P s'

/-- From `pre` the program returns in a state that meets `post`; between two of its critical
sections it relies on an assertion that the others leave alone. -/
inductive Ensures (inv : S → Prop) (guarantee : S → S → Prop) (post : R → S → Prop) :
    (S → Prop) → Program S R → Prop
  | done {pre : S → Prop} {r : R} (h : ∀ s, inv s → pre s → post r s) :
      Ensures inv guarantee post pre (.done r)
  | locked {pre : S → Prop} {update : S → S} {next : S → Program S R} (mid : S → S → Prop)
      (hstable : ∀ s, inv s → pre s → Stable inv guarantee (mid s))
      (hupdate : ∀ s, inv s → pre s → inv (update s) ∧ guarantee s (update s) ∧ mid s (update s))
      (hnext : ∀ s, inv s → pre s → Ensures inv guarantee post (mid s) (next s)) :
      Ensures inv guarantee post pre (.locked update next)

variable {serve : Q → Program S R} {admitted : Q → Prop} {inv : S → Prop} {guarantee : S → S → Prop}
  {post : Q → R → S → Prop} {p p' : Pool S Q R} {s : S}

structure Held (inv : S → Prop) (guarantee : S → S → Prop) (post : Q → R → S → Prop) (p : Pool S Q R) :
    Prop where
  shared : inv p.shared
  running : ∀ t ∈ p.running, ∃ pre, Stable inv guarantee pre ∧ pre p.shared ∧
    Ensures inv guarantee (post t.1) pre t.2
  finished : ∀ t ∈ p.finished, post t.1 t.2 p.shared

theorem stable_true : Stable inv guarantee (fun _ => True) := fun _ _ _ _ _ => trivial

theorem Held.step (hstable : ∀ q r, Stable inv guarantee (post q r))
    (hserve : ∀ q, admitted q → Ensures inv guarantee (post q) (fun _ => True) (serve q))
    (h : Held inv guarantee post p) (hstep : Step serve admitted p p') : Held inv guarantee post p' := by
  obtain ⟨hinv, hrunning, hfinished⟩ := h
  cases hstep with
  | arrive p q hq =>
    constructor
    · exact hinv
    · exact List.forall_mem_cons.mpr ⟨⟨_, stable_true, trivial, hserve q hq⟩, hrunning⟩
    · exact hfinished
  | advance s finished before after q update next =>
    simp only [List.forall_mem_append, List.forall_mem_cons] at hrunning
    obtain ⟨hbefore, ⟨pre, hpre, hs, hq⟩, hafter⟩ := hrunning
    cases hq with
    | locked mid hmid hupdate hnext =>
      obtain ⟨hinv', hmove, hs'⟩ := hupdate s hinv hs
      have hothers (t : Q × Program S R) (ht : ∃ pre, Stable inv guarantee pre ∧ pre s ∧
          Ensures inv guarantee (post t.1) pre t.2) : ∃ pre, Stable inv guarantee pre ∧ pre (update s) ∧
          Ensures inv guarantee (post t.1) pre t.2 := by
        obtain ⟨pre, hpre, hs, ht⟩ := ht
        exact ⟨pre, hpre, hpre s _ hinv hmove hs, ht⟩
      constructor
      · exact hinv'
      · simp only [List.forall_mem_append, List.forall_mem_cons]
        refine ⟨?_, ?_, ?_⟩
        · exact fun t ht => hothers t (hbefore t ht)
        · exact ⟨mid s, hmid s hinv hs, hs', hnext s hinv hs⟩
        · exact fun t ht => hothers t (hafter t ht)
      · exact fun t ht => hstable _ _ s _ hinv hmove (hfinished t ht)
  | finish s finished before after q r =>
    simp only [List.forall_mem_append, List.forall_mem_cons] at hrunning
    obtain ⟨hbefore, ⟨pre, -, hs, hq⟩, hafter⟩ := hrunning
    cases hq with
    | done hpost =>
      constructor
      · exact hinv
      · exact List.forall_mem_append.mpr ⟨hbefore, hafter⟩
      · exact List.forall_mem_cons.mpr ⟨hpost s hinv hs, hfinished⟩

theorem held_of_reaches (hstable : ∀ q r, Stable inv guarantee (post q r))
    (hserve : ∀ q, admitted q → Ensures inv guarantee (post q) (fun _ => True) (serve q))
    (hstart : inv s) (h : Reaches serve admitted (.start s) p) : Held inv guarantee post p := by
  induction h with
  | refl => exact ⟨hstart, List.forall_mem_nil _, List.forall_mem_nil _⟩
  | tail _ hstep ih => exact ih.step hstable hserve hstep

end Assertions

section Presence

variable {serve : Q → Program S R} {admitted : Q → Prop} {p p' : Pool S Q R} {s : S}

def Pool.requests (p : Pool S Q R) : List Q := p.running.map Prod.fst ++ p.finished.map Prod.fst

theorem requests_subset (h : Step serve admitted p p') : p.requests ⊆ p'.requests := by
  intro q hq
  cases h with
  | arrive p q' h' => exact List.mem_cons_of_mem _ hq
  | advance s finished before after q' update next =>
    simp only [Pool.requests, List.map_append, List.map_cons] at hq ⊢
    exact hq
  | finish s finished before after q' r =>
    simp only [Pool.requests, List.map_append, List.map_cons, List.mem_append, List.mem_cons] at hq ⊢
    tauto

theorem requests_perm {p p' : Pool S Q R} (h : Step serve (fun _ => False) p p') :
    p'.requests.Perm p.requests := by
  cases h with
  | arrive p q hq => exact hq.elim
  | advance s finished before after q update next =>
    simp only [Pool.requests, List.map_append, List.map_cons]
    exact .refl _
  | finish s finished before after q r =>
    simp only [Pool.requests, List.map_append, List.map_cons, List.append_assoc, List.cons_append]
    exact List.perm_middle.append_left _

theorem admitted_of_reaches (h : Reaches serve admitted (.start s) p) : ∀ q ∈ p.requests, admitted q := by
  induction h with
  | refl => exact List.forall_mem_nil _
  | tail _ hstep ih =>
    cases hstep with
    | arrive p q hq => exact List.forall_mem_cons.mpr ⟨hq, ih⟩
    | advance s finished before after q update next =>
      simpa only [Pool.requests, List.map_append, List.map_cons] using ih
    | finish s finished before after q r =>
      intro q' hq'
      apply ih
      simp only [Pool.requests, List.map_append, List.map_cons, List.mem_append, List.mem_cons] at hq' ⊢
      tauto

/-- Nothing is forgotten: whatever was admitted on the way is still in the pool. -/
theorem Reaches.present (h : Reaches serve admitted (.start s) p) :
    Reaches serve (fun q => admitted q ∧ q ∈ p.requests) (.start s) p := by
  induction h with
  | refl => exact .refl
  | @tail p p' _ hstep ih =>
    have hmono {a b : Pool S Q R} (h : Step serve (fun q => admitted q ∧ q ∈ p.requests) a b) :
        Step serve (fun q => admitted q ∧ q ∈ p'.requests) a b := by
      cases h with
      | arrive a q hq => exact .arrive a q ⟨hq.1, requests_subset hstep hq.2⟩
      | advance s finished before after q update next => exact .advance s finished before after q update next
      | finish s finished before after q r => exact .finish s finished before after q r
    refine .tail (Relation.ReflTransGen.mono (fun _ _ => hmono) _ _ ih) ?_
    cases hstep with
    | arrive p q hq => exact .arrive p q ⟨hq, by simp [Pool.requests]⟩
    | advance s finished before after q update next => exact .advance s finished before after q update next
    | finish s finished before after q r => exact .finish s finished before after q r

end Presence

section Counting

variable {serve : Q → Program S R} {admitted : Q → Prop} {p p' : Pool S Q R} {s : S}

/-- The program has added `k` to the counter so far, and `f r` when it returns `r`. -/
inductive Adds (c : S → ℕ) (f : R → ℕ) : ℕ → Program S R → Prop
  | done {k : ℕ} {r : R} (h : f r = k) : Adds c f k (.done r)
  | locked {k : ℕ} {update : S → S} {next : S → Program S R} (d : ℕ) (h : ∀ s, c (update s) = c s + d)
      (hnext : ∀ s, Adds c f (k + d) (next s)) : Adds c f k (.locked update next)

theorem Adds.le {c : S → ℕ} {f : R → ℕ} {k bound : ℕ} {prog : Program S R} (h : Adds c f k prog)
    (hbound : ∀ r, f r ≤ bound) (s : S) : k ≤ bound := by
  induction h with
  | done h => exact h ▸ hbound _
  | locked d _ _ ih => exact (Nat.le_add_right _ _).trans (ih s)

inductive Added (c : S → ℕ) (f : Q → R → ℕ) : List (Q × Program S R) → ℕ → Prop
  | nil : Added c f [] 0
  | cons {q : Q} {prog : Program S R} {rest : List (Q × Program S R)} {k n : ℕ}
      (h : Adds c (f q) k prog) (hrest : Added c f rest n) : Added c f ((q, prog) :: rest) (k + n)

theorem added_middle {c : S → ℕ} {f : Q → R → ℕ} {before after : List (Q × Program S R)} {q : Q}
    {prog : Program S R} {n : ℕ} : Added c f (before ++ (q, prog) :: after) n ↔
      ∃ k m, Adds c (f q) k prog ∧ Added c f (before ++ after) m ∧ n = k + m := by
  induction before generalizing n with
  | nil =>
    constructor
    · intro h
      cases h with
      | cons h hrest => exact ⟨_, _, h, hrest, rfl⟩
    · rintro ⟨k, m, h, hrest, rfl⟩
      exact .cons h hrest
  | cons t before ih =>
    constructor
    · intro h
      cases h with
      | @cons _ _ _ k₀ n₀ h₀ hrest =>
        obtain ⟨k, m, h, hothers, rfl⟩ := ih.mp hrest
        exact ⟨k, k₀ + m, h, .cons h₀ hothers, by omega⟩
    · rintro ⟨k, m, h, hothers, rfl⟩
      cases hothers with
      | @cons _ _ _ k₀ n₀ h₀ hrest =>
        have hsum : k + (k₀ + n₀) = k₀ + (k + n₀) := by omega
        rw [hsum]
        exact .cons h₀ (ih.mpr ⟨k, n₀, h, hrest, rfl⟩)

theorem Added.le {c : S → ℕ} {f : Q → R → ℕ} {bound : Q → ℕ} {l : List (Q × Program S R)} {n : ℕ}
    (h : Added c f l n) (hbound : ∀ q r, f q r ≤ bound q) (s : S) :
    n ≤ (l.map fun t => bound t.1).sum := by
  induction h with
  | nil => exact Nat.zero_le _
  | cons h _ ih => exact Nat.add_le_add (h.le (hbound _) s) ih

def Pool.returned (f : Q → R → ℕ) (p : Pool S Q R) : ℕ := (p.finished.map fun t => f t.1 t.2).sum

/-- No update of the counter is lost: it holds what the returned handlers added, and what the
running ones have added so far. -/
theorem counted (c : S → ℕ) (f : Q → R → ℕ) (hserve : ∀ q, admitted q → Adds c (f q) 0 (serve q))
    (h : Reaches serve admitted (.start s) p) :
    ∃ n, Added c f p.running n ∧ c p.shared = c s + p.returned f + n := by
  induction h with
  | refl => exact ⟨0, .nil, rfl⟩
  | tail _ hstep ih =>
    obtain ⟨n, hadded, hcount⟩ := ih
    cases hstep with
    | arrive p q hq =>
      refine ⟨0 + n, .cons (hserve q hq) hadded, ?_⟩
      rw [Nat.zero_add]
      exact hcount
    | advance s finished before after q update next =>
      obtain ⟨k, m, hadds, hothers, rfl⟩ := added_middle.mp hadded
      cases hadds with
      | locked d hupdate hnext =>
        refine ⟨k + d + m, added_middle.mpr ⟨_, m, hnext s, hothers, rfl⟩, ?_⟩
        simp only [Pool.returned] at hcount ⊢
        rw [hupdate, hcount]
        omega
    | finish s finished before after q r =>
      obtain ⟨k, m, hadds, hothers, rfl⟩ := added_middle.mp hadded
      cases hadds with
      | done hk =>
        refine ⟨m, hothers, ?_⟩
        simp only [Pool.returned, List.map_cons, List.sum_cons] at hcount ⊢
        omega

end Counting

end CriticalSections
