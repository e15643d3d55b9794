import Mathlib

set_option autoImplicit false

/-!
Transition systems whose steps nest calls. A call saves the world it started from;
it either returns and keeps what it did, or aborts and restores what it saved.
-/

namespace NestedCalls

structure Frame (W I : Type) where
  saved : W
  info : I

structure Config (W I : Type) where
  world : W
  stack : List (Frame W I)

inductive Effect (W I : Type)
  | enter (info : I) (world : W)
  | alter (world : W)
  | update (info : I) (world : W)
  | leave (world : W)
  | abort

variable {W I A : Type}

def Effect.apply : Effect W I → Config W I → Option (Config W I)
  | .enter info world, c => some ⟨world, ⟨c.world, info⟩ :: c.stack⟩
  | .alter world, c => some ⟨world, c.stack⟩
  | .update info world, ⟨_, f :: fs⟩ => some ⟨world, ⟨f.saved, info⟩ :: fs⟩
  | .leave world, ⟨_, _ :: fs⟩ => some ⟨world, fs⟩
  | .abort, ⟨_, f :: fs⟩ => some ⟨f.saved, fs⟩
  | _, ⟨_, []⟩ => none

abbrev System (W I A : Type) := A → Config W I → Option (Effect W I)

def System.next (S : System W I A) (a : A) (c : Config W I) : Option (Config W I) :=
  (S a c).bind (fun e => e.apply c)

inductive Reaches (S : System W I A) (ok : Config W I → A → Prop) (start : Config W I) :
    Config W I → Prop
  | refl : Reaches S ok start start
  | tail {c d : Config W I} {a : A} : Reaches S ok start c → ok c a → S.next a c = some d →
      Reaches S ok start d

theorem Reaches.mono {S : System W I A} {ok ok' : Config W I → A → Prop} {start c : Config W I}
    (hok : ∀ c a, ok c a → ok' c a) (h : Reaches S ok start c) : Reaches S ok' start c := by
  induction h with
  | refl => exact .refl
  | tail _ ha hn ih => exact ih.tail (hok _ _ ha) hn

theorem Reaches.and_taken {S : System W I A} {ok ok' : Config W I → A → Prop} {start c : Config W I}
    (hok : ∀ c a d, Reaches S ok start c → ok c a → S.next a c = some d → ok' c a)
    (h : Reaches S ok start c) : Reaches S (fun c a => ok c a ∧ ok' c a) start c := by
  induction h with
  | refl => exact .refl
  | tail hr ha hn ih => exact ih.tail ⟨ha, hok _ _ _ hr ha hn⟩ hn

theorem Reaches.and {S : System W I A} {ok ok' : Config W I → A → Prop} {start c : Config W I}
    (hok : ∀ c a, Reaches S ok start c → ok c a → ok' c a) (h : Reaches S ok start c) :
    Reaches S (fun c a => ok c a ∧ ok' c a) start c :=
  h.and_taken fun c a _ hr ha _ => hok c a hr ha

theorem Reaches.trans {S : System W I A} {ok : Config W I → A → Prop} {start c d : Config W I}
    (h : Reaches S ok start c) (h' : Reaches S ok c d) : Reaches S ok start d := by
  induction h' with
  | refl => exact h
  | tail _ ha hn ih => exact ih.tail ha hn

/-- `P` holds now and after any number of the pending calls abort. -/
def Layered (P : Config W I → Prop) : W → List (Frame W I) → Prop
  | w, [] => P ⟨w, []⟩
  | w, f :: fs => P ⟨w, f :: fs⟩ ∧ Layered P f.saved fs

theorem Layered.head {P : Config W I → Prop} {w : W} {fs : List (Frame W I)}
    (h : Layered P w fs) : P ⟨w, fs⟩ := by
  cases fs with
  | nil => exact h
  | cons f fs => exact h.1

theorem Layered.replace {P : Config W I → Prop} {w w' : W} {fs : List (Frame W I)}
    (h : Layered P w fs) (hp : P ⟨w', fs⟩) : Layered P w' fs := by
  cases fs with
  | nil => exact hp
  | cons f fs => exact ⟨hp, h.2⟩

/-- An aborted call needs no argument: what it restores was reached before it. -/
theorem Reaches.invariant {S : System W I A} {ok : Config W I → A → Prop} {start : Config W I}
    {P : Config W I → Prop} (hempty : start.stack = []) (hstart : P start)
    (hstep : ∀ c a e d, Reaches S ok start c → P c → ok c a → S a c = some e → e ≠ .abort →
      e.apply c = some d → P d)
    {c : Config W I} (h : Reaches S ok start c) : P c := by
  suffices hl : Layered P c.world c.stack from hl.head
  induction h with
  | refl => rw [hempty]; obtain ⟨w, fs⟩ := start; subst hempty; exact hstart
  | @tail c d a hr ha hn ih =>
    obtain ⟨e, he, hd⟩ := Option.bind_eq_some_iff.mp hn
    obtain ⟨w, fs⟩ := c
    have hnew (hne : e ≠ .abort) : P d := hstep _ a e d hr ih.head ha he hne hd
    cases e with
    | enter info world =>
      cases hd
      exact ⟨hnew nofun, ih⟩
    | alter world =>
      cases hd
      exact ih.replace (hnew nofun)
    | update info world =>
      cases fs with
      | nil => cases hd
      | cons f fs =>
        cases hd
        exact ⟨hnew nofun, ih.2⟩
    | leave world =>
      cases fs with
      | nil => cases hd
      | cons f fs =>
        cases hd
        exact ih.2.replace (hnew nofun)
    | abort =>
      cases fs with
      | nil => cases hd
      | cons f fs =>
        cases hd
        exact ih.2

/-- What an aborted call did is undone, so runs in which nothing aborts reach as much. -/
theorem Reaches.committed {S : System W I A} {ok : Config W I → A → Prop} {start c : Config W I}
    (hempty : start.stack = []) (h : Reaches S ok start c) :
    Reaches S (fun c a => ok c a ∧ S a c ≠ some .abort) start c := by
  refine Reaches.invariant hempty .refl ?_ h
  intro c a e d _ hp ha he hne hd
  refine hp.tail ⟨ha, ?_⟩ ?_
  · rw [he]
    exact fun heq => hne (Option.some.inj heq)
  · rw [System.next, he]
    exact hd

section Project

variable {V B : Type}

def Frame.map (g : V → W) (f : Frame V I) : Frame W I := ⟨g f.saved, f.info⟩

def Config.map (g : V → W) (c : Config V I) : Config W I := ⟨g c.world, c.stack.map (Frame.map g)⟩

def Effect.map (g : W → V) : Effect W I → Effect V I
  | .enter info world => .enter info (g world)
  | .alter world => .alter (g world)
  | .update info world => .update info (g world)
  | .leave world => .leave (g world)
  | .abort => .abort

theorem Effect.apply_map {g : V → W} {h : W → V} (hgh : ∀ w, g (h w) = w) (e : Effect W I)
    (c : Config V I) : ((e.map h).apply c).map (Config.map g) = e.apply (c.map g) := by
  obtain ⟨v, fs⟩ := c
  cases e with
  | enter info world => simp [Effect.map, Effect.apply, Config.map, Frame.map, hgh]
  | alter world => simp [Effect.map, Effect.apply, Config.map, hgh]
  | update info world => cases fs <;> simp [Effect.map, Effect.apply, Config.map, Frame.map, hgh]
  | leave world => cases fs <;> simp [Effect.map, Effect.apply, Config.map, hgh]
  | abort => cases fs <;> simp [Effect.map, Effect.apply, Config.map, Frame.map]

/-- A system whose steps are those of another, or invisible to it, reaches nothing new. -/
theorem Reaches.project {S : System W I A} {T : System V I B} {ok : Config W I → A → Prop}
    {ok' : Config V I → B → Prop} {start c : Config V I} (g : V → W)
    (hstep : ∀ c b d, ok' c b → T.next b c = some d →
      d.map g = c.map g ∨ ∃ a, ok (c.map g) a ∧ S.next a (c.map g) = some (d.map g))
    (h : Reaches T ok' start c) : Reaches S ok (start.map g) (c.map g) := by
  induction h with
  | refl => exact .refl
  | tail hr hb hn ih =>
    rcases hstep _ _ _ hb hn with heq | ⟨a, ha, hn⟩
    · rw [heq]
      exact ih
    · exact ih.tail ha hn

end Project

def System.run (S : System W I A) : List A → Config W I → Option (Config W I)
  | [], c => some c
  | a :: as, c => (S.next a c).bind (S.run as)

theorem System.run_append (S : System W I A) (as bs : List A) (c : Config W I) :
    S.run (as ++ bs) c = (S.run as c).bind (S.run bs) := by
  induction as generalizing c with
  | nil => rfl
  | cons a as ih =>
    simp only [List.cons_append, run, Option.bind_assoc]
    exact Option.bind_congr (fun d _ => ih d)

theorem System.run_concat (S : System W I A) (as : List A) (a : A) (c : Config W I) :
    S.run (as ++ [a]) c = (S.run as c).bind (S.next a) := by
  rw [run_append]
  exact Option.bind_congr (fun d _ => by simp [run])

theorem System.run_map {V : Type} {S : System W I A} {T : System V I A} {g : V → W}
    (hnext : ∀ a c, (T.next a c).map (Config.map g) = S.next a (c.map g)) (as : List A) (c : Config V I) :
    (T.run as c).map (Config.map g) = S.run as (c.map g) := by
  induction as generalizing c with
  | nil => rfl
  | cons a as ih =>
    simp only [run, Option.map_bind, ← hnext, Option.bind_map]
    exact Option.bind_congr (fun d _ => ih d)

def Always (S : System W I A) (as : List A) (start : Config W I) (P : Config W I → Prop) : Prop :=
  ∀ pre, pre <+: as → ∀ c, S.run pre start = some c → P c

def StepsMeet (S : System W I A) (as : List A) (start : Config W I)
    (ok : Config W I → A → Prop) : Prop :=
  ∀ pre a, pre ++ [a] <+: as → ∀ c, S.run pre start = some c → ok c a

def System.meets (S : System W I A) (check : Config W I → A → Bool) : List A → Config W I → Bool
  | [], _ => true
  | a :: as, c => check c a && (S.next a c).all (S.meets check as)

theorem StepsMeet.of_meets {S : System W I A} {check : Config W I → A → Bool}
    {ok : Config W I → A → Prop} (hcheck : ∀ c a, check c a = true → ok c a) {as : List A}
    {start : Config W I} (h : S.meets check as start = true) : StepsMeet S as start ok := by
  induction as generalizing start with
  | nil =>
    intro pre a hp
    simp at hp
  | cons b as ih =>
    obtain ⟨hb, hrest⟩ := (Bool.and_eq_true_iff).mp h
    intro pre a hp c hc
    cases pre with
    | nil =>
      obtain ⟨rfl, -⟩ := List.cons_prefix_cons.mp hp
      cases hc
      exact hcheck start a hb
    | cons b' pre =>
      obtain ⟨rfl, htail⟩ := List.cons_prefix_cons.mp hp
      obtain ⟨d, hd, hc⟩ := Option.bind_eq_some_iff.mp hc
      rw [hd] at hrest
      exact ih hrest pre a htail c hc

theorem StepsMeet.mono {S : System W I A} {as : List A} {start : Config W I}
    {ok ok' : Config W I → A → Prop} (hok : ∀ c a, ok c a → ok' c a)
    (h : StepsMeet S as start ok) : StepsMeet S as start ok' :=
  fun pre a hp c hc => hok c a (h pre a hp c hc)

theorem StepsMeet.and {S : System W I A} {as : List A} {start : Config W I}
    {ok ok' : Config W I → A → Prop} (h : StepsMeet S as start ok) (h' : StepsMeet S as start ok') :
    StepsMeet S as start (fun c a => ok c a ∧ ok' c a) :=
  fun pre a hp c hc => ⟨h pre a hp c hc, h' pre a hp c hc⟩

theorem Always.mono {S : System W I A} {as : List A} {start : Config W I} {P Q : Config W I → Prop}
    (hPQ : ∀ c, P c → Q c) (h : Always S as start P) : Always S as start Q :=
  fun pre hp c hc => hPQ c (h pre hp c hc)

theorem StepsMeet.reaches {S : System W I A} {as : List A} {start : Config W I}
    {ok : Config W I → A → Prop} (h : StepsMeet S as start ok) :
    Always S as start (Reaches S ok start) := by
  intro pre
  induction pre using List.reverseRecOn with
  | nil =>
    intro _ c hc
    cases hc
    exact .refl
  | append_singleton pre a ih =>
    intro hp d hd
    rw [System.run_concat] at hd
    obtain ⟨c, hc, hn⟩ := Option.bind_eq_some_iff.mp hd
    have hpre : pre <+: as := (List.prefix_append pre [a]).trans hp
    exact (ih hpre c hc).tail (h pre a hp c hc) hn

theorem run_prefix_isSome {S : System W I A} {pre as : List A} {start : Config W I}
    (hp : pre <+: as) (h : (S.run as start).isSome) : (S.run pre start).isSome := by
  obtain ⟨rest, rfl⟩ := hp
  rw [System.run_append] at h
  cases hr : S.run pre start with
  | none => simp [hr] at h
  | some c => rfl

/--
A run keeps `P` throughout exactly when all its steps meet `ok`, once `ok` is shown enough
over whole runs and necessary for single steps.
-/
theorem always_iff_stepsMeet {S : System W I A} {as : List A} {start : Config W I}
    {base ok : Config W I → A → Prop} {P : Config W I → Prop}
    (hrun : (S.run as start).isSome) (hbase : StepsMeet S as start base)
    (hsound : ∀ c, Reaches S (fun c a => base c a ∧ ok c a) start c → P c)
    (hneeded : ∀ c a d, Reaches S base start c → S.next a c = some d → P c → P d → ok c a) :
    Always S as start P ↔ StepsMeet S as start ok := by
  constructor
  · intro hP pre a hp c hc
    have hsome := run_prefix_isSome hp hrun
    rw [System.run_concat, hc] at hsome
    obtain ⟨d, hd⟩ := Option.isSome_iff_exists.mp hsome
    have hpre : pre <+: as := (List.prefix_append pre [a]).trans hp
    refine hneeded c a d (hbase.reaches pre hpre c hc) hd (hP pre hpre c hc) (hP _ hp d ?_)
    rw [System.run_concat, hc]
    exact hd
  · intro hok
    exact (hbase.and hok).reaches.mono hsound

end NestedCalls
