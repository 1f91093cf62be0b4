import Mathlib.Logic.Function.Basic
import Os161Paging.Views

/-!
# Following a program from view to view

The triples of `Views` say what an agent sees when its program is over.
That is not enough where a program can be interrupted: the interrupt puts
another program in front of what is left of it, and the rest is correct only
if the agent sees afterwards what it saw before. `Follows` therefore gives
the agent a view at every point of its program: what is left of a program is
followed from the view the agent has now, in any state in which it has it.
The rules are those for triples.

A `Crew` is a pool of agents each of whom is followed. It stays one when an
agent takes an action, when an agent goes on with another program that is
followed from the same view, and when the state changes under all of them
without anybody seeing it.
-/

namespace Os161Paging.Views

variable {A T S L γ V α β : Type} (Λ : Views A T S L γ V)

/-! ## Following -/

/-- From a state in which its agent sees `v`, the program goes from view to view, and ends
with one that satisfies `Φ`. -/
def Follows (r : Role A T S) : Prog T S L α → V → (α → V → Prop) → Prop
  | .ret x, v, Φ => Φ x v
  | .act f k, v, Φ => ∀ g s, Λ.inv g s → Λ.sees r.agent v g s → r.running s →
      (f r.tid s).StopsIn (Λ.stops r.tid s) ∧
      ∀ x s', f r.tid s = .ok (x, s') → r.running s' ∧ ∃ g' v', Λ.law g s' g' ∧
        Λ.Guar r.agent g s g' s' ∧ Λ.sees r.agent v' g' s' ∧ Follows r (k x) v' Φ

variable {Λ} {r : Role A T S} {a : A} {g : γ} {s s' : S} {v : V}

namespace Follows

theorem pure {x : α} {Φ : α → V → Prop} (h : Φ x v) : Λ.Follows r (pure x) v Φ := h

theorem mono {p : Prog T S L α} {Φ Ψ : α → V → Prop} (hp : Λ.Follows r p v Φ)
    (h : ∀ x v', Φ x v' → Ψ x v') : Λ.Follows r p v Ψ := by
  induction p generalizing v with
  | ret x => exact h x v hp
  | act f k ih =>
      intro g s hi hs hrun
      obtain ⟨hstops, hk⟩ := hp g s hi hs hrun
      refine ⟨hstops, fun x s' hf => ?_⟩
      obtain ⟨hrun', g', v', hlaw, hg, hs', hrest⟩ := hk x s' hf
      exact ⟨hrun', g', v', hlaw, hg, hs', ih x hrest⟩

theorem bind {p : Prog T S L α} {k : α → Prog T S L β} {Φ : α → V → Prop} {Ψ : β → V → Prop}
    (hp : Λ.Follows r p v Φ) (hk : ∀ x v', Φ x v' → Λ.Follows r (k x) v' Ψ) :
    Λ.Follows r (p >>= k) v Ψ := by
  induction p generalizing v with
  | ret x => exact hk x v hp
  | act f c ih =>
      intro g s hi hs hrun
      obtain ⟨hstops, hc⟩ := hp g s hi hs hrun
      refine ⟨hstops, fun x s' hf => ?_⟩
      obtain ⟨hrun', g', v', hlaw, hg, hs', hrest⟩ := hc x s' hf
      exact ⟨hrun', g', v', hlaw, hg, hs', ih x hrest⟩

/-- After a program that brings back the view, on with the rest. -/
theorem andThen {p : Prog T S L α} {k : α → Prog T S L β} {Ψ : β → V → Prop}
    (hp : Λ.Follows r p v fun _ v' => v' = v) (hk : ∀ x, Λ.Follows r (k x) v Ψ) :
    Λ.Follows r (p >>= k) v Ψ := by
  refine bind hp ?_
  rintro x _ rfl
  exact hk x

/-- After a program that only found something out, on with the rest. -/
theorem knowing {p : Prog T S L α} {k : α → Prog T S L β} {Q : α → Prop} {Ψ : β → V → Prop}
    (hp : Λ.Follows r p v fun x v' => v' = v ∧ Q x) (hk : ∀ x, Q x → Λ.Follows r (k x) v Ψ) :
    Λ.Follows r (p >>= k) v Ψ := by
  refine bind hp ?_
  rintro x _ ⟨rfl, hQ⟩
  exact hk x hQ

/-- After a program that only read the known value `x`, on with the rest. -/
theorem reading {p : Prog T S L α} {k : α → Prog T S L β} {x : α} {Ψ : β → V → Prop}
    (hp : Λ.Follows r p v fun y v' => v' = v ∧ y = x) (hk : Λ.Follows r (k x) v Ψ) :
    Λ.Follows r (p >>= k) v Ψ :=
  knowing hp fun _ hy => hy ▸ hk

theorem ite {c : Prop} [Decidable c] {p q : Prog T S L α} {Φ : α → V → Prop}
    (hp : c → Λ.Follows r p v Φ) (hq : ¬ c → Λ.Follows r q v Φ) :
    Λ.Follows r (if c then p else q) v Φ := by
  split
  · exact hp ‹_›
  · exact hq ‹_›

/-- The one rule with content: what an action does to the state, to the views of others
and to the view of the agent it is taken for. -/
theorem action {p : Prog T S L α} {Φ : α → V → Prop} (hp : p.IsAction)
    (h : ∀ g s, Λ.inv g s → Λ.sees r.agent v g s → r.running s →
      (p.run r.tid s).StopsIn (Λ.stops r.tid s) ∧
      ∀ x s', p.run r.tid s = .ok (x, s') →
        r.running s' ∧ ∃ g' v', Λ.law g s' g' ∧ Λ.Guar r.agent g s g' s' ∧
          Λ.sees r.agent v' g' s' ∧ Φ x v') :
    Λ.Follows r p v Φ := by
  obtain ⟨ρ, f, k, rfl⟩ := hp
  intro g s hi hs hrun
  obtain ⟨hw, hk⟩ := h g s hi hs hrun
  rw [Prog.run_act] at hw hk
  constructor
  · cases hf : f r.tid s with
    | ok y => trivial
    | _ => rwa [hf] at hw
  · intro x s' hf
    rw [hf] at hk
    exact hk (k x) s' rfl

end Follows

/-! ## Crews -/

variable (Λ) in
/-- Every agent is followed from what it sees. -/
def Crew (role : A → Role A T S) (Φ : A → V → Prop) (code : A → Prog T S L Unit) (s : S) : Prop :=
  ∃ g, Λ.inv g s ∧ ∀ a, ∃ v, Λ.sees a v g s ∧ Λ.Follows (role a) (code a) v fun _ => Φ a

namespace Crew

variable {role : A → Role A T S} {Φ : A → V → Prop} {code : A → Prog T S L Unit}

theorem inv (h : Λ.Crew role Φ code s) : ∃ g, Λ.inv g s :=
  h.imp fun _ => And.left

/-- Whatever an action of the crew does, it stops only as permitted. -/
theorem stops {ρ : Type} {f : T → S → Outcome L (ρ × S)} {k : ρ → Prog T S L Unit}
    (h : Λ.Crew role Φ code s) (hrole : (role a).agent = a) (hrun : (role a).running s)
    (hcode : code a = .act f k) : (f (role a).tid s).StopsIn (Λ.stops (role a).tid s) := by
  obtain ⟨g, hi, hall⟩ := h
  obtain ⟨v, hs, hfollows⟩ := hall a
  rw [hcode] at hfollows
  exact (hfollows g s hi (by rwa [hrole]) hrun).1

theorem unseen (h : Λ.Crew role Φ code s)
    (hs : ∀ g, Λ.inv g s → Λ.inv g s' ∧ ∀ a v, Λ.sees a v g s → Λ.sees a v g s') :
    Λ.Crew role Φ code s' := by
  obtain ⟨g, hi, hall⟩ := h
  refine ⟨g, (hs g hi).1, fun b => ?_⟩
  obtain ⟨v, hv, hfollows⟩ := hall b
  exact ⟨v, (hs g hi).2 b v hv, hfollows⟩

variable [DecidableEq A]

theorem act {ρ : Type} {f : T → S → Outcome L (ρ × S)} {k : ρ → Prog T S L Unit} {x : ρ}
    (h : Λ.Crew role Φ code s) (hrole : (role a).agent = a) (hrun : (role a).running s)
    (hcode : code a = .act f k) (hf : f (role a).tid s = .ok (x, s')) :
    Λ.Crew role Φ (Function.update code a (k x)) s' := by
  obtain ⟨g, hi, hall⟩ := h
  obtain ⟨v, hs, hfollows⟩ := hall a
  rw [hcode] at hfollows
  obtain ⟨-, hk⟩ := hfollows g s hi (by rwa [hrole]) hrun
  obtain ⟨-, g', v', -, ⟨hi', hothers⟩, hs', hrest⟩ := hk x s' hf
  refine ⟨g', hi', fun b => ?_⟩
  by_cases hb : b = a
  · subst hb
    rw [Function.update_self]
    exact ⟨v', by rwa [hrole] at hs', hrest⟩
  · rw [Function.update_of_ne hb]
    obtain ⟨w, hw, hfol⟩ := hall b
    exact ⟨w, hothers b (by rwa [hrole]) w hw, hfol⟩

theorem replace {p : Prog T S L Unit} (h : Λ.Crew role Φ code s)
    (hp : ∀ g v, Λ.inv g s → Λ.sees a v g s → (Λ.Follows (role a) (code a) v fun _ => Φ a) →
      Λ.Follows (role a) p v fun _ => Φ a) :
    Λ.Crew role Φ (Function.update code a p) s := by
  obtain ⟨g, hi, hall⟩ := h
  refine ⟨g, hi, fun b => ?_⟩
  obtain ⟨v, hs, hfollows⟩ := hall b
  by_cases hb : b = a
  · subst hb
    rw [Function.update_self]
    exact ⟨v, hs, hp g v hi hs hfollows⟩
  · rw [Function.update_of_ne hb]
    exact ⟨v, hs, hfollows⟩

end Crew

end Os161Paging.Views
