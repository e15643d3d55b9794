import Mathlib

set_option autoImplicit false

/-!
Handlers that share one state and touch it only under a lock. Requests arrive at any time, and the
critical sections of those being served interleave in any order.
-/

namespace CriticalSections

variable {S Q R : Type}

/-- What is left of a handler: its result, or the next critical section and what follows it. -/
inductive Program (S R : Type)
  | done (r : R)
  | locked (update : S → S) (next : S → Program S R)

def Program.run : Program S R → S → S × R
  | .done r, s => (s, r)
  | .locked update next, s => (next s).run (update s)

structure Pool (S Q R : Type) where
  shared : S
  running : List (Q × Program S R)
  finished : List (Q × R)

def Pool.start (s : S) : Pool S Q R := ⟨s, [], []⟩

inductive Step (serve : Q → Program S R) (admitted : Q → Prop) : Pool S Q R → Pool S Q R → Prop
  | arrive (p : Pool S Q R) (q : Q) (h : admitted q) :
      Step serve admitted p { p with running := (q, serve q) :: p.running }
  | advance (s : S) (finished : List (Q × R)) (before after : List (Q × Program S R)) (q : Q)
      (update : S → S) (next : S → Program S R) :
      Step serve admitted ⟨s, before ++ (q, .locked update next) :: after, finished⟩
        ⟨update s, before ++ (q, next s) :: after, finished⟩
  | finish (s : S) (finished : List (Q × R)) (before after : List (Q × Program S R)) (q : Q) (r : R) :
      Step serve admitted ⟨s, before ++ (q, .done r) :: after, finished⟩
        ⟨s, before ++ after, (q, r) :: finished⟩

abbrev Reaches (serve : Q → Program S R) (admitted : Q → Prop) : Pool S Q R → Pool S Q R → Prop :=
  Relation.ReflTransGen (Step serve admitted)

/-- Every critical section keeps `inv` and moves the state by `guarantee`, and the result meets
`post`, whatever the other handlers do in between. -/
inductive Keeps (inv : S → Prop) (guarantee : S → S → Prop) (post : R → Prop) : Program S R → Prop
  | done {r : R} (h : post r) : Keeps inv guarantee post (.done r)
  | locked {update : S → S} {next : S → Program S R}
      (hinv : ∀ s, inv s → inv (update s)) (hmove : ∀ s, inv s → guarantee s (update s))
      (hnext : ∀ s, inv s → Keeps inv guarantee post (next s)) :
      Keeps inv guarantee post (.locked update next)

variable {serve : Q → Program S R} {admitted : Q → Prop} {inv : S → Prop} {guarantee : S → S → Prop}
  {post : Q → R → Prop} {p p' : Pool S Q R} {s : S}

structure Safe (inv : S → Prop) (guarantee : S → S → Prop) (post : Q → R → Prop) (p : Pool S Q R) :
    Prop where
  shared : inv p.shared
  running : ∀ t ∈ p.running, Keeps inv guarantee (post t.1) t.2
  finished : ∀ t ∈ p.finished, post t.1 t.2

theorem Safe.step (hserve : ∀ q, admitted q → Keeps inv guarantee (post q) (serve q))
    (h : Safe inv guarantee post p) (hstep : Step serve admitted p p') : Safe inv guarantee post p' := by
  obtain ⟨hinv, hrunning, hfinished⟩ := h
  cases hstep with
  | arrive p q hq =>
    constructor
    · exact hinv
    · exact List.forall_mem_cons.mpr ⟨hserve q hq, hrunning⟩
    · exact hfinished
  | advance s finished before after q update next =>
    simp only [List.forall_mem_append, List.forall_mem_cons] at hrunning
    obtain ⟨hbefore, hq, hafter⟩ := hrunning
    cases hq with
    | locked hupdate hmove hnext =>
      constructor
      · exact hupdate s hinv
      · simp only [List.forall_mem_append, List.forall_mem_cons]
        exact ⟨hbefore, hnext s hinv, hafter⟩
      · exact hfinished
  | finish s finished before after q r =>
    simp only [List.forall_mem_append, List.forall_mem_cons] at hrunning
    obtain ⟨hbefore, hq, hafter⟩ := hrunning
    cases hq with
    | done hpost =>
      constructor
      · exact hinv
      · exact List.forall_mem_append.mpr ⟨hbefore, hafter⟩
      · exact List.forall_mem_cons.mpr ⟨hpost, hfinished⟩

theorem safe_of_reaches (hserve : ∀ q, admitted q → Keeps inv guarantee (post q) (serve q))
    (hstart : inv s) (h : Reaches serve admitted (.start s) p) : Safe inv guarantee post p := by
  induction h with
  | refl => exact ⟨hstart, List.forall_mem_nil _, List.forall_mem_nil _⟩
  | tail _ hstep ih => exact ih.step hserve hstep

theorem Safe.moves (hrefl : ∀ s, guarantee s s) (h : Safe inv guarantee post p)
    (hstep : Step serve admitted p p') : guarantee p.shared p'.shared := by
  cases hstep with
  | arrive => exact hrefl _
  | advance s finished before after q update next =>
    cases h.running (q, .locked update next) (List.mem_append_right _ List.mem_cons_self) with
    | locked hupdate hmove hnext => exact hmove s h.shared
  | finish => exact hrefl _

variable (serve) in
theorem reaches_run {q : Q} (hq : admitted q) (p : Pool S Q R) (hidle : p.running = []) :
    Reaches serve admitted p ⟨((serve q).run p.shared).1, [], (q, ((serve q).run p.shared).2) :: p.finished⟩ := by
  have hserved (prog : Program S R) : ∀ s finished,
      Reaches serve admitted ⟨s, [(q, prog)], finished⟩ ⟨(prog.run s).1, [], (q, (prog.run s).2) :: finished⟩ := by
    induction prog with
    | done r =>
      intro s finished
      exact .single (Step.finish s finished [] [] q r)
    | locked update next ih =>
      intro s finished
      exact .head (Step.advance s finished [] [] q update next) (ih s (update s) finished)
  refine .head (Step.arrive p q hq) ?_
  rw [hidle]
  exact hserved (serve q) p.shared p.finished

section Schedules

/-- A request comes in, or the handler at a position takes its next step. -/
inductive Turn (Q : Type)
  | arrive (q : Q)
  | advance (position : ℕ)

def Turn.Admitted (admitted : Q → Prop) : Turn Q → Prop
  | .arrive q => admitted q
  | .advance _ => True

variable (serve) in
def Pool.turn (p : Pool S Q R) : Turn Q → Pool S Q R
  | .arrive q => { p with running := (q, serve q) :: p.running }
  | .advance position =>
    match p.running.drop position with
    | [] => p
    | (q, .done r) :: after => ⟨p.shared, p.running.take position ++ after, (q, r) :: p.finished⟩
    | (q, .locked update next) :: after =>
        ⟨update p.shared, p.running.take position ++ (q, next p.shared) :: after, p.finished⟩

variable (serve) in
def Pool.play (p : Pool S Q R) (turns : List (Turn Q)) : Pool S Q R := turns.foldl (Pool.turn serve) p

theorem reaches_turn {t : Turn Q} (h : t.Admitted admitted) (p : Pool S Q R) :
    Reaches serve admitted p (p.turn serve t) := by
  cases t with
  | arrive q => exact .single (.arrive p q h)
  | advance position =>
    obtain ⟨s, running, finished⟩ := p
    cases hdrop : running.drop position with
    | nil =>
      simp only [Pool.turn, hdrop]
      exact .refl
    | cons head after =>
      have hsplit : running = running.take position ++ head :: after := by
        rw [← hdrop, List.take_append_drop]
      obtain ⟨q, prog⟩ := head
      simp only [Pool.turn, hdrop]
      cases prog with
      | done r =>
        have hstep : Step serve admitted _ _ := .finish s finished (running.take position) after q r
        rw [← hsplit] at hstep
        exact .single hstep
      | locked update next =>
        have hstep : Step serve admitted _ _ :=
          .advance s finished (running.take position) after q update next
        rw [← hsplit] at hstep
        exact .single hstep

theorem reaches_play {turns : List (Turn Q)} (h : ∀ t ∈ turns, t.Admitted admitted) (p : Pool S Q R) :
    Reaches serve admitted p (p.play serve turns) := by
  induction turns generalizing p with
  | nil => exact .refl
  | cons t turns ih =>
    obtain ⟨ht, hturns⟩ := List.forall_mem_cons.mp h
    exact (reaches_turn ht p).trans (ih hturns _)

end Schedules

end CriticalSections
