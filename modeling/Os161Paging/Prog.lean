import Mathlib.Algebra.Group.Nat.Defs
import Mathlib.Logic.Basic
import Mathlib.Tactic.Choose
import Mathlib.Tactic.TypeStar

/-!
# Programs over a shared state

A small language for code that several threads run against one state.
A program is a tree of *actions*: an action is an uninterrupted stretch
of code, given as a function from the calling thread and the state to an
outcome; between two actions another thread may run. Nothing is fixed
about the state, so locks are ordinary state and taking one is an action
that may have to `wait`.

One text has two readings. `Prog.run` executes a program to its end with
nobody else running (a call made in a sequence of calls). Its actions,
taken one at a time, are the steps of an interleaving; the logic for that
reading is in `Views`.
-/

namespace Os161Paging

/-! ## Outcomes -/

/-- How an action, or a whole call, can end: with a value, waiting for the
resource `l`, in a kernel panic (a failed assertion is one), outside of what
the language defines, or in a loop that is never left. -/
inductive Outcome (L α : Type) where
  | ok (a : α)
  | wait (l : L)
  | panic (msg : String)
  | undefined
  | hang
deriving DecidableEq, Repr

namespace Outcome

variable {L α β : Type}

/-- Continue with the value of a successful outcome. -/
def bind : Outcome L α → (α → Outcome L β) → Outcome L β
  | .ok a, f => f a
  | .wait l, _ => .wait l
  | .panic m, _ => .panic m
  | .undefined, _ => .undefined
  | .hang, _ => .hang

@[simp] theorem bind_ok (a : α) (f : α → Outcome L β) : (ok a).bind f = f a := rfl
@[simp] theorem bind_wait (l : L) (f : α → Outcome L β) : (wait l).bind f = wait l := rfl
@[simp] theorem bind_panic (m : String) (f : α → Outcome L β) :
    (panic m : Outcome L α).bind f = panic m := rfl
@[simp] theorem bind_undefined (f : α → Outcome L β) : (undefined : Outcome L α).bind f = undefined := rfl
@[simp] theorem bind_hang (f : α → Outcome L β) : (hang : Outcome L α).bind f = hang := rfl

theorem bind_eq_ok {o : Outcome L α} {f : α → Outcome L β} {b : β} :
    o.bind f = ok b ↔ ∃ a, o = ok a ∧ f a = ok b := by
  cases o <;> simp

/-- If there is no value, the way it ended satisfies `P`. -/
def StopsIn (o : Outcome L α) (P : Outcome L Empty → Prop) : Prop :=
  match o with
  | .ok _ => True
  | .wait l => P (.wait l)
  | .panic m => P (.panic m)
  | .undefined => P .undefined
  | .hang => P .hang

theorem StopsIn.of_ok {o : Outcome L α} {P : Outcome L Empty → Prop} {a : α} (h : o = .ok a) :
    o.StopsIn P := h ▸ trivial

theorem StopsIn.of_all {o : Outcome L α} {P : Outcome L Empty → Prop} (h : ∀ o, P o) :
    o.StopsIn P := by
  cases o with
  | ok a => trivial
  | _ => exact h _

theorem StopsIn.mono {o : Outcome L α} {P Q : Outcome L Empty → Prop} (h : o.StopsIn P)
    (hPQ : ∀ o, P o → Q o) : o.StopsIn Q := by
  cases o with
  | ok a => trivial
  | _ => exact hPQ _ h

theorem StopsIn.bind {o : Outcome L α} {f : α → Outcome L β} {P : Outcome L Empty → Prop}
    (h : o.StopsIn P) (hf : ∀ a, o = .ok a → (f a).StopsIn P) : (o.bind f).StopsIn P := by
  cases o with
  | ok a => exact hf a rfl
  | _ => exact h

/-- The value of a successful outcome satisfies `P`. -/
def Sat (o : Outcome L α) (P : α → Prop) : Prop :=
  ∃ a, o = ok a ∧ P a

instance (o : Outcome L α) (P : α → Prop) [DecidablePred P] : Decidable (o.Sat P) :=
  match o with
  | .ok a => decidable_of_iff (P a) ⟨fun h => ⟨a, rfl, h⟩, fun ⟨_, he, h⟩ => by cases he; exact h⟩
  | .wait _ => isFalse fun ⟨_, h, _⟩ => nomatch h
  | .panic _ => isFalse fun ⟨_, h, _⟩ => nomatch h
  | .undefined => isFalse fun ⟨_, h, _⟩ => nomatch h
  | .hang => isFalse fun ⟨_, h, _⟩ => nomatch h

/-- Both outcomes are values that satisfy `R`, or they end in the same way. -/
inductive Rel (R : α → β → Prop) : Outcome L α → Outcome L β → Prop where
  | ok {a : α} {b : β} (h : R a b) : Rel R (.ok a) (.ok b)
  | wait (l : L) : Rel R (.wait l) (.wait l)
  | panic (m : String) : Rel R (.panic m) (.panic m)
  | undefined : Rel R .undefined .undefined
  | hang : Rel R .hang .hang

theorem Rel.refl (o : Outcome L α) : Rel (· = ·) o o := by
  cases o with
  | ok a => exact .ok rfl
  | wait l => exact .wait l
  | panic m => exact .panic m
  | undefined => exact .undefined
  | hang => exact .hang

theorem Rel.eq {o o' : Outcome L α} (h : Rel (· = ·) o o') : o = o' := by
  cases h with
  | ok h => rw [h]
  | _ => rfl

theorem Rel.bind {α' β' : Type} {R : α → β → Prop} {S : α' → β' → Prop} {o : Outcome L α}
    {o' : Outcome L β} {f : α → Outcome L α'} {g : β → Outcome L β'} (h : Rel R o o')
    (hf : ∀ a b, R a b → Rel S (f a) (g b)) : Rel S (o.bind f) (o'.bind g) := by
  cases h with
  | ok h => exact hf _ _ h
  | wait l => exact .wait l
  | panic m => exact .panic m
  | undefined => exact .undefined
  | hang => exact .hang

end Outcome

/-! ## Programs -/

/-- A program of thread type `T`, state `S` and waiting reasons `L`: a result,
or an action and what to do with its answer. -/
inductive Prog (T S L α : Type) : Type 1 where
  | ret (a : α)
  | act {ρ : Type} (f : T → S → Outcome L (ρ × S)) (k : ρ → Prog T S L α)

namespace Prog

variable {T S L α β ρ : Type}

/-- Sequencing: graft `k` onto every result of `p`. -/
def bind : Prog T S L α → (α → Prog T S L β) → Prog T S L β
  | .ret a, k => k a
  | .act f c, k => .act f fun r => (c r).bind k

instance : Monad (Prog T S L) where
  pure := ret
  bind := bind

@[simp] theorem ret_bind (a : α) (k : α → Prog T S L β) : (ret a).bind k = k a := rfl

@[simp] theorem act_bind (f : T → S → Outcome L (ρ × S)) (c : ρ → Prog T S L α)
    (k : α → Prog T S L β) : (act f c).bind k = act f fun r => (c r).bind k := rfl

def exec (f : T → S → Outcome L (ρ × S)) : Prog T S L ρ := act f ret

def gets (f : S → ρ) : Prog T S L ρ := exec fun _ s => .ok (f s, s)

def modify (f : S → S) : Prog T S L Unit := exec fun _ s => .ok ((), f s)

def fail (m : String) : Prog T S L α :=
  act (fun _ _ => (.panic m : Outcome L (Empty × S))) nofun

/-- A program with a single action, whose answer is turned into the result. -/
def IsAction (p : Prog T S L α) : Prop :=
  ∃ (ρ : Type) (f : T → S → Outcome L (ρ × S)) (h : ρ → α), p = act f fun x => ret (h x)

theorem isAction_exec (f : T → S → Outcome L (ρ × S)) : (exec f).IsAction := ⟨ρ, f, id, rfl⟩

theorem IsAction.bind {p : Prog T S L α} (hp : p.IsAction) {k : α → Prog T S L β}
    (hk : ∀ x, ∃ y, k x = pure y) : (p >>= k).IsAction := by
  obtain ⟨ρ, f, h, rfl⟩ := hp
  choose y hy using hk
  exact ⟨ρ, f, y ∘ h, congrArg (act f) (funext fun x => hy (h x))⟩

/-! ## Sequential execution -/

/-- Execute `p` as thread `t` from `s` with no other thread running. -/
def run (t : T) : Prog T S L α → S → Outcome L (α × S)
  | .ret a, s => .ok (a, s)
  | .act f k, s => (f t s).bind fun r => (k r.1).run t r.2

@[simp] theorem run_ret (t : T) (a : α) (s : S) : (ret a : Prog T S L α).run t s = .ok (a, s) :=
  rfl

@[simp] theorem run_pure (t : T) (a : α) (s : S) :
    (pure a : Prog T S L α).run t s = .ok (a, s) := rfl

@[simp] theorem run_act (t : T) (f : T → S → Outcome L (ρ × S)) (k : ρ → Prog T S L α) (s : S) :
    (act f k).run t s = (f t s).bind fun r => (k r.1).run t r.2 := rfl

theorem run_bind' (t : T) (p : Prog T S L α) (k : α → Prog T S L β) (s : S) :
    (p.bind k).run t s = (p.run t s).bind fun r => (k r.1).run t r.2 := by
  induction p generalizing s with
  | ret a => rfl
  | act f c ih =>
      simp only [act_bind, run_act]
      cases f t s with
      | ok r => exact ih r.1 r.2
      | _ => rfl

@[simp] theorem run_bind (t : T) (p : Prog T S L α) (k : α → Prog T S L β) (s : S) :
    (p >>= k).run t s = (p.run t s).bind fun r => (k r.1).run t r.2 :=
  run_bind' t p k s

@[simp] theorem run_exec (t : T) (f : T → S → Outcome L (ρ × S)) (s : S) :
    (exec f).run t s = f t s := by
  simp only [exec, run_act]
  cases f t s <;> rfl

@[simp] theorem run_gets (t : T) (f : S → ρ) (s : S) :
    (gets f : Prog T S L ρ).run t s = .ok (f s, s) := rfl

@[simp] theorem run_modify (t : T) (f : S → S) (s : S) :
    (modify f : Prog T S L Unit).run t s = .ok ((), f s) := rfl

@[simp] theorem run_fail (t : T) (m : String) (s : S) :
    (fail m : Prog T S L α).run t s = .panic m := rfl

/-- A sequence returns exactly when both halves do. -/
theorem run_bind_eq_ok {t : T} {p : Prog T S L α} {k : α → Prog T S L β} {s s' : S} {b : β} :
    (p >>= k).run t s = .ok (b, s') ↔
      ∃ a s1, p.run t s = .ok (a, s1) ∧ (k a).run t s1 = .ok (b, s') := by
  rw [run_bind, Outcome.bind_eq_ok]
  constructor
  · rintro ⟨⟨a, s1⟩, hp, hk⟩
    exact ⟨a, s1, hp, hk⟩
  · rintro ⟨a, s1, hp, hk⟩
    exact ⟨(a, s1), hp, hk⟩

/-- The first `n` actions of an execution: what is left of `p`, and the state. -/
def advance (t : T) : Nat → Prog T S L α → S → Option (Prog T S L α × S)
  | 0, p, s => some (p, s)
  | _ + 1, .ret _, _ => none
  | n + 1, .act f k, s =>
      match f t s with
      | .ok (x, s') => (k x).advance t n s'
      | _ => none

theorem run_advance {t : T} {p : Prog T S L α} {s s' : S} {a : α} (h : p.run t s = .ok (a, s')) :
    ∃ n, p.advance t n s = some (.ret a, s') := by
  induction p generalizing s with
  | ret b =>
      cases h
      exact ⟨0, rfl⟩
  | act f k ih =>
      obtain ⟨⟨x, s1⟩, hf, hk⟩ := Outcome.bind_eq_ok.mp h
      obtain ⟨n, hn⟩ := ih x hk
      exact ⟨n + 1, by rw [advance, hf]; exact hn⟩

/-! ## What an execution leaves alone -/

/-- Executed to its end, `p` leaves the part `f` of the state as it was. -/
def Leaves {φ : Type*} (f : S → φ) (t : T) (p : Prog T S L α) : Prop :=
  ∀ s a s', p.run t s = .ok (a, s') → f s' = f s

namespace Leaves

variable {φ : Type*} {f : S → φ} {t : T}

theorem bind {p : Prog T S L α} {k : α → Prog T S L β} (hp : p.Leaves f t)
    (hk : ∀ a, (k a).Leaves f t) : (p >>= k).Leaves f t := by
  intro s b s' h
  obtain ⟨a, s1, h1, h2⟩ := run_bind_eq_ok.mp h
  rw [hk a s1 b s' h2, hp s a s1 h1]

theorem pure (a : α) : (pure a : Prog T S L α).Leaves f t := by
  intro s b s' h
  cases h
  rfl

theorem gets (g : S → ρ) : (gets g : Prog T S L ρ).Leaves f t := by
  intro s b s' h
  cases h
  rfl

theorem modify {g : S → S} (hg : ∀ s, f (g s) = f s) :
    (modify g : Prog T S L Unit).Leaves f t := by
  intro s b s' h
  cases h
  exact hg s

theorem fail (m : String) : (fail m : Prog T S L α).Leaves f t := by
  intro s b s' h
  cases h

theorem ite {c : Prop} [Decidable c] {p q : Prog T S L α} (hp : p.Leaves f t)
    (hq : q.Leaves f t) : (if c then p else q).Leaves f t := by
  split
  · exact hp
  · exact hq

end Leaves

/-! ## What an execution adds to a measure -/

/-- Executed to its end, `p` adds `d` to the measure `f` of the state. -/
def Adds {φ : Type*} [Add φ] (f : S → φ) (t : T) (p : Prog T S L α) (d : φ) : Prop :=
  ∀ s a s', p.run t s = .ok (a, s') → f s' = f s + d

namespace Adds

variable {φ : Type*} [AddMonoid φ] {f : S → φ} {t : T} {d e : φ}

theorem of_leaves {p : Prog T S L α} (h : p.Leaves f t) : p.Adds f t 0 := by
  intro s a s' hrun
  rw [h s a s' hrun, add_zero]

theorem bind {p : Prog T S L α} {k : α → Prog T S L β} (hp : p.Adds f t d)
    (hk : ∀ a, (k a).Adds f t e) : (p >>= k).Adds f t (d + e) := by
  intro s b s' h
  obtain ⟨a, s1, h1, h2⟩ := run_bind_eq_ok.mp h
  rw [hk a s1 b s' h2, hp s a s1 h1, add_assoc]

theorem after {p : Prog T S L α} {k : α → Prog T S L β} (hp : p.Leaves f t)
    (hk : ∀ a, (k a).Adds f t e) : (p >>= k).Adds f t e :=
  zero_add e ▸ bind (of_leaves hp) hk

theorem before {p : Prog T S L α} {k : α → Prog T S L β} (hp : p.Adds f t d)
    (hk : ∀ a, (k a).Leaves f t) : (p >>= k).Adds f t d :=
  add_zero d ▸ bind hp fun a => of_leaves (hk a)

theorem ite {c : Prop} [Decidable c] {p q : Prog T S L α} (hp : p.Adds f t d)
    (hq : q.Adds f t d) : (if c then p else q).Adds f t d := by
  split
  · exact hp
  · exact hq

end Adds

/-! ## What an execution does at most -/

/-- Executed to its end, `p` changes the state in the way `R` allows. -/
def Within (R : S → S → Prop) (t : T) (p : Prog T S L α) : Prop :=
  ∀ s a s', p.run t s = .ok (a, s') → R s s'

namespace Within

variable {R : S → S → Prop} {t : T}

theorem of_leaves {φ : Type*} {f : S → φ} {p : Prog T S L α} (hR : ∀ s s', f s' = f s → R s s')
    (h : p.Leaves f t) : p.Within R t :=
  fun s a s' hrun => hR s s' (h s a s' hrun)

theorem bind (hR : ∀ s1 s2 s3, R s1 s2 → R s2 s3 → R s1 s3) {p : Prog T S L α}
    {k : α → Prog T S L β} (hp : p.Within R t) (hk : ∀ a, (k a).Within R t) :
    (p >>= k).Within R t := by
  intro s b s' h
  obtain ⟨a, s1, h1, h2⟩ := run_bind_eq_ok.mp h
  exact hR s s1 s' (hp s a s1 h1) (hk a s1 b s' h2)

theorem ite {c : Prop} [Decidable c] {p q : Prog T S L α} (hp : p.Within R t)
    (hq : q.Within R t) : (if c then p else q).Within R t := by
  split
  · exact hp
  · exact hq

end Within

/-! ## What each action does at most -/

/-- Every action of `p` changes the state in the way `R` allows, whatever others do in
between. -/
def Steps (R : S → S → Prop) (t : T) : Prog T S L α → Prop
  | .ret _ => True
  | .act f k => ∀ s x s', f t s = .ok (x, s') → R s s' ∧ (k x).Steps R t

namespace Steps

variable {R : S → S → Prop} {t : T}

theorem pure (a : α) : (pure a : Prog T S L α).Steps R t := trivial

theorem action {p : Prog T S L α} (hp : p.IsAction)
    (h : ∀ s a s', p.run t s = .ok (a, s') → R s s') : p.Steps R t := by
  obtain ⟨ρ, f, g, rfl⟩ := hp
  intro s x s' hf
  exact ⟨h s (g x) s' (by rw [run_act, hf]; rfl), trivial⟩

theorem bind {p : Prog T S L α} {k : α → Prog T S L β} (hp : p.Steps R t)
    (hk : ∀ a, (k a).Steps R t) : (p >>= k).Steps R t := by
  induction p with
  | ret a => exact hk a
  | act f c ih =>
      intro s x s' hf
      exact ⟨(hp s x s' hf).1, ih x (hp s x s' hf).2⟩

theorem gets {g : S → ρ} (hR : ∀ s, R s s) : (gets g : Prog T S L ρ).Steps R t := by
  refine action (isAction_exec _) fun s a s' h => ?_
  cases h
  exact hR s

theorem modify {g : S → S} (hg : ∀ s, R s (g s)) : (modify g : Prog T S L Unit).Steps R t := by
  refine action (isAction_exec _) fun s a s' h => ?_
  cases h
  exact hg s

theorem fail (m : String) : (fail m : Prog T S L α).Steps R t := nofun

theorem mono {R' : S → S → Prop} {p : Prog T S L α} (hR : ∀ s s', R s s' → R' s s')
    (h : p.Steps R t) : p.Steps R' t := by
  induction p with
  | ret a => trivial
  | act f k ih =>
      intro s x s' hf
      exact ⟨hR s s' (h s x s' hf).1, ih x (h s x s' hf).2⟩

theorem within (hrefl : ∀ s, R s s) (htrans : ∀ s1 s2 s3, R s1 s2 → R s2 s3 → R s1 s3)
    {p : Prog T S L α} (h : p.Steps R t) : p.Within R t := by
  induction p with
  | ret a =>
      rintro s b s' ⟨⟩
      exact hrefl s
  | act f k ih =>
      intro s b s' hrun
      obtain ⟨⟨x, s1⟩, hf, hk⟩ := Outcome.bind_eq_ok.mp hrun
      obtain ⟨hstep, hrest⟩ := h s x s1 hf
      exact htrans s s1 s' hstep (ih x hrest s1 b s' hk)

theorem ite {c : Prop} [Decidable c] {p q : Prog T S L α} (hp : p.Steps R t)
    (hq : q.Steps R t) : (if c then p else q).Steps R t := by
  split
  · exact hp
  · exact hq

end Steps

/-! ## Total correctness -/

section Yields

variable {t : T} {s : S}

/-- Run alone from `s`, the program returns, with a result and a state that satisfy `Q`. -/
def Yields (t : T) (p : Prog T S L α) (s : S) (Q : α → S → Prop) : Prop :=
  ∃ x s', p.run t s = .ok (x, s') ∧ Q x s'

namespace Yields

theorem pure {x : α} {Q : α → S → Prop} (h : Q x s) : Yields t (pure x : Prog T S L α) s Q :=
  ⟨x, s, rfl, h⟩

theorem bind {p : Prog T S L α} {k : α → Prog T S L β} {P : α → S → Prop} {Q : β → S → Prop}
    (hp : Yields t p s P) (hk : ∀ x s', P x s' → Yields t (k x) s' Q) :
    Yields t (p >>= k) s Q := by
  obtain ⟨x, s1, hrun, hx⟩ := hp
  obtain ⟨y, s2, hrun', hy⟩ := hk x s1 hx
  exact ⟨y, s2, run_bind_eq_ok.mpr ⟨x, s1, hrun, hrun'⟩, hy⟩

theorem mono {p : Prog T S L α} {P Q : α → S → Prop} (hp : Yields t p s P)
    (h : ∀ x s', P x s' → Q x s') : Yields t p s Q := by
  obtain ⟨x, s', hrun, hx⟩ := hp
  exact ⟨x, s', hrun, h x s' hx⟩

theorem ite {c : Prop} [Decidable c] {p q : Prog T S L α} {Q : α → S → Prop}
    (hp : c → Yields t p s Q) (hq : ¬ c → Yields t q s Q) :
    Yields t (if c then p else q) s Q := by
  split
  · exact hp ‹_›
  · exact hq ‹_›

end Yields

end Yields

end Prog

end Os161Paging
