import Mathlib.Logic.Relation
import Os161Paging.Prog

/-!
# Reasoning about one thread among others

A rely-guarantee logic for `Prog`, phrased through *views*. A proof fixes
a global invariant and divides the rest of the state among *agents*:
`sees a v g s` says that agent `a` sees the view `v` in the state `s` with
ghost state `g`. A thread acts for one agent (`Role`). Its actions must
re-establish the invariant and leave every view of every *other* agent
true (`Guar`); in return it may assume that whatever its agent sees stays
seen while others run (`Rely`).

Stability is thus not an obligation of each assertion: an assertion that
speaks about the view only is stable by construction. What remains is one
lemma per action, and from there on a proof about a program is about the
views alone (`Triple`).

The ghost state is chosen by the proof, subject to a `law` that says how it
must follow the real one; `law` is how a specification-level state (a
history, an abstract memory) rides along. An action that does not return
must end in a way that `stops` permits.
-/

namespace Os161Paging

/-- The vocabulary of a proof: the invariant, what an agent sees, how the ghost
state follows a step, and in which ways an action may fail to return. -/
structure Views (A T S L γ V : Type) where
  inv : γ → S → Prop
  sees : A → V → γ → S → Prop
  law : γ → S → γ → Prop
  stops : T → S → Outcome L Empty → Prop

/-- Who runs a program: for which agent, as which thread, and what holds of the
state whenever that thread runs. -/
structure Role (A T S : Type) where
  agent : A
  tid : T
  running : S → Prop

namespace Views

variable {A T S L γ V α β ρ : Type} (Λ : Views A T S L γ V)

/-! ## Rely and guarantee -/

/-- What others may do as far as `a` is concerned. -/
def Rely (a : A) (g : γ) (s : S) (g' : γ) (s' : S) : Prop :=
  (Λ.inv g s → Λ.inv g' s') ∧ ∀ v, Λ.sees a v g s → Λ.sees a v g' s'

/-- What an action on behalf of `a` owes the others. -/
def Guar (a : A) (g : γ) (s : S) (g' : γ) (s' : S) : Prop :=
  Λ.inv g' s' ∧ ∀ b, b ≠ a → ∀ v, Λ.sees b v g s → Λ.sees b v g' s'

def Lawful : γ → γ → Prop := Relation.ReflTransGen fun g g' => ∃ s, Λ.law g s g'

variable {Λ} {r : Role A T S} {a : A} {g g1 g2 : γ} {s s1 s2 : S} {v : V}

theorem Rely.refl (a : A) (g : γ) (s : S) : Λ.Rely a g s g s := ⟨id, fun _ h => h⟩

theorem Rely.trans (h1 : Λ.Rely a g s g1 s1) (h2 : Λ.Rely a g1 s1 g2 s2) :
    Λ.Rely a g s g2 s2 :=
  ⟨fun h => h2.1 (h1.1 h), fun v h => h2.2 v (h1.2 v h)⟩

theorem Guar.rely {b : A} (hb : b ≠ a) (h : Λ.Guar a g s g1 s1) : Λ.Rely b g s g1 s1 :=
  ⟨fun _ => h.1, h.2 b hb⟩

theorem Guar.trans (h1 : Λ.Guar a g s g1 s1) (h2 : Λ.Guar a g1 s1 g2 s2) :
    Λ.Guar a g s g2 s2 :=
  ⟨h2.1, fun b hb v hv => h2.2 b hb v (h1.2 b hb v hv)⟩

/-! ## Weakest preconditions -/

variable (Λ) in
/-- `p`, run in the role `r` among others that keep to `Rely`, guarantees `Guar`
at each of its actions, stops only as permitted and ends only where `Q` holds. -/
def wp (r : Role A T S) : Prog T S L α → (α → γ → S → Prop) → γ → S → Prop
  | .ret x, Q, g, s => Q x g s
  | .act f k, Q, g, s => ∀ g1 s1, Λ.Rely r.agent g s g1 s1 → r.running s1 →
      (f r.tid s1).StopsIn (Λ.stops r.tid s1) ∧
      ∀ x s2, f r.tid s1 = .ok (x, s2) →
        r.running s2 ∧ ∃ g2, Λ.law g1 s2 g2 ∧ Λ.Guar r.agent g1 s1 g2 s2 ∧ wp r (k x) Q g2 s2

theorem wp_mono {p : Prog T S L α} {Q Q' : α → γ → S → Prop}
    (hQ : ∀ x g s, Q x g s → Q' x g s) (h : Λ.wp r p Q g s) : Λ.wp r p Q' g s := by
  induction p generalizing g s with
  | ret x => exact hQ x g s h
  | act f k ih =>
      intro g1 s1 hr ha
      obtain ⟨hw, hk⟩ := h g1 s1 hr ha
      refine ⟨hw, fun x s2 hf => ?_⟩
      obtain ⟨ha2, g2, hl, hg, hp⟩ := hk x s2 hf
      exact ⟨ha2, g2, hl, hg, ih x hp⟩

theorem wp_bind {p : Prog T S L α} {k : α → Prog T S L β} {Q : β → γ → S → Prop}
    (h : Λ.wp r p (fun x g s => Λ.wp r (k x) Q g s) g s) : Λ.wp r (p >>= k) Q g s := by
  induction p generalizing g s with
  | ret x => exact h
  | act f c ih =>
      intro g1 s1 hr ha
      obtain ⟨hw, hk⟩ := h g1 s1 hr ha
      refine ⟨hw, fun x s2 hf => ?_⟩
      obtain ⟨ha2, g2, hl, hg, hp⟩ := hk x s2 hf
      exact ⟨ha2, g2, hl, hg, ih x hp⟩

/-- A postcondition that survives the steps of others. -/
def Stable (Λ : Views A T S L γ V) (a : A) (Q : γ → S → Prop) : Prop :=
  ∀ g s g1 s1, Λ.Rely a g s g1 s1 → Q g s → Q g1 s1

/-- Steps of others keep the rest of a thread's program correct. -/
theorem wp_rely {p : Prog T S L α} {Q : α → γ → S → Prop} (hQ : ∀ x, Λ.Stable r.agent (Q x))
    (h : Λ.wp r p Q g s) (hr : Λ.Rely r.agent g s g1 s1) : Λ.wp r p Q g1 s1 := by
  cases p with
  | ret x => exact hQ x g s g1 s1 hr h
  | act f k => exact fun g2 s2 hr2 ha => h g2 s2 (hr.trans hr2) ha

/-- **Sequential soundness**: executed with nobody else running, the program
ends where `Q` holds, and the others still see what they saw. -/
theorem wp_run {p : Prog T S L α} {Q : α → γ → S → Prop} (h : Λ.wp r p Q g s)
    (hi : Λ.inv g s) (ha : r.running s) {x : α} {s' : S} (hrun : p.run r.tid s = .ok (x, s')) :
    ∃ g', Q x g' s' ∧ r.running s' ∧ Λ.Guar r.agent g s g' s' ∧ Λ.Lawful g g' := by
  induction p generalizing g s with
  | ret y =>
      cases hrun
      exact ⟨g, h, ha, ⟨hi, fun _ _ _ hv => hv⟩, .refl⟩
  | act f k ih =>
      rw [Prog.run_act, Outcome.bind_eq_ok] at hrun
      obtain ⟨⟨y, s2⟩, hf, hk⟩ := hrun
      obtain ⟨ha2, g2, hl, hg2, hp⟩ := (h g s (Rely.refl _ g s) ha).2 y s2 hf
      obtain ⟨g', hQ, ha', hg', hl'⟩ := ih y hp hg2.1 ha2 hk
      exact ⟨g', hQ, ha', hg2.trans hg', .head ⟨s2, hl⟩ hl'⟩

/-- Executed with nobody else running, the program stops only as permitted. -/
theorem wp_run_stops {p : Prog T S L α} {Q : α → γ → S → Prop} {P : Outcome L Empty → Prop}
    (hP : ∀ s o, Λ.stops r.tid s o → P o) (h : Λ.wp r p Q g s) (ha : r.running s) :
    (p.run r.tid s).StopsIn P := by
  induction p generalizing g s with
  | ret y => trivial
  | act f k ih =>
      obtain ⟨hw, hk⟩ := h g s (Rely.refl _ g s) ha
      refine (hw.mono (hP s)).bind fun ⟨y, s2⟩ hf => ?_
      obtain ⟨ha2, g2, -, -, hp⟩ := hk y s2 hf
      exact ih y hp ha2

/-! ## Triples on views -/

variable (Λ) in
/-- The postcondition of a triple: the invariant, and a view satisfying `Φ`. -/
def Post (a : A) (Φ : α → V → Prop) (x : α) (g : γ) (s : S) : Prop :=
  Λ.inv g s ∧ ∃ v, Λ.sees a v g s ∧ Φ x v

variable (Λ) in
/-- From any state in which its agent sees `v`, the program `p` ends in states
where the agent sees some view satisfying `Φ`. -/
def Triple (r : Role A T S) (v : V) (p : Prog T S L α) (Φ : α → V → Prop) : Prop :=
  ∀ g s, Λ.inv g s → Λ.sees r.agent v g s → Λ.wp r p (Λ.Post r.agent Φ) g s

theorem Post.stable (Φ : α → V → Prop) (x : α) : Λ.Stable a (Λ.Post a Φ x) := by
  rintro g s g1 s1 ⟨hi, hv⟩ ⟨hinv, v, hs, hΦ⟩
  exact ⟨hi hinv, v, hv v hs, hΦ⟩

namespace Triple

theorem ret {x : α} {Φ : α → V → Prop} (h : Φ x v) : Λ.Triple r v (.ret x) Φ :=
  fun _ _ hi hs => ⟨hi, v, hs, h⟩

theorem pure {x : α} {Φ : α → V → Prop} (h : Φ x v) : Λ.Triple r v (pure x) Φ :=
  ret h

theorem bind {p : Prog T S L α} {k : α → Prog T S L β} {Φ : α → V → Prop}
    {Ψ : β → V → Prop} (hp : Λ.Triple r v p Φ) (hk : ∀ x v', Φ x v' → Λ.Triple r v' (k x) Ψ) :
    Λ.Triple r v (p >>= k) Ψ := by
  intro g s hi hs
  refine wp_bind (wp_mono ?_ (hp g s hi hs))
  rintro x g' s' ⟨hi', v', hs', hΦ⟩
  exact hk x v' hΦ g' s' hi' hs'

/-- After an action without effect on the view, on with the rest. -/
theorem andThen {p : Prog T S L α} {k : α → Prog T S L β} {Ψ : β → V → Prop}
    (hp : Λ.Triple r v p fun _ v' => v' = v) (hk : ∀ x, Λ.Triple r v (k x) Ψ) :
    Λ.Triple r v (p >>= k) Ψ := by
  refine bind hp ?_
  rintro x _ rfl
  exact hk x

/-- After an action that only found something out, on with the rest. -/
theorem knowing {p : Prog T S L α} {k : α → Prog T S L β} {Q : α → Prop} {Ψ : β → V → Prop}
    (hp : Λ.Triple r v p fun x v' => v' = v ∧ Q x) (hk : ∀ x, Q x → Λ.Triple r v (k x) Ψ) :
    Λ.Triple r v (p >>= k) Ψ := by
  refine bind hp ?_
  rintro x _ ⟨rfl, hQ⟩
  exact hk x hQ

/-- After an action that only read the known value `x`, on with the rest. -/
theorem reading {p : Prog T S L α} {k : α → Prog T S L β} {x : α} {Ψ : β → V → Prop}
    (hp : Λ.Triple r v p fun y v' => v' = v ∧ y = x) (hk : Λ.Triple r v (k x) Ψ) :
    Λ.Triple r v (p >>= k) Ψ :=
  knowing hp fun _ hy => hy ▸ hk

theorem mono {p : Prog T S L α} {Φ Ψ : α → V → Prop} (hp : Λ.Triple r v p Φ)
    (h : ∀ x v', Φ x v' → Ψ x v') : Λ.Triple r v p Ψ := by
  intro g s hi hs
  refine wp_mono ?_ (hp g s hi hs)
  rintro x g' s' ⟨hi', v', hs', hΦ⟩
  exact ⟨hi', v', hs', h x v' hΦ⟩

/-- The one rule with content: what an action does to the state, to the views
of others and to the view of the agent it is taken for. -/
theorem action {p : Prog T S L α} {Φ : α → V → Prop} (hp : p.IsAction)
    (h : ∀ g s, Λ.inv g s → Λ.sees r.agent v g s → r.running s →
      (p.run r.tid s).StopsIn (Λ.stops r.tid s) ∧
      ∀ x s', p.run r.tid s = .ok (x, s') →
        r.running s' ∧ ∃ g' v', Λ.law g s' g' ∧ Λ.Guar r.agent g s g' s' ∧
          Λ.sees r.agent v' g' s' ∧ Φ x v') :
    Λ.Triple r v p Φ := by
  obtain ⟨ρ, f, k, rfl⟩ := hp
  intro g s hi hs g1 s1 hr ha
  obtain ⟨hw, hk⟩ := h g1 s1 (hr.1 hi) (hr.2 v hs) ha
  rw [Prog.run_act] at hw hk
  constructor
  · cases hf : f r.tid s1 with
    | ok y => trivial
    | _ => rwa [hf] at hw
  · intro x s2 hf
    rw [hf] at hk
    obtain ⟨ha2, g2, v2, hl, hg, hs2, hΦ⟩ := hk (k x) s2 rfl
    exact ⟨ha2, g2, hl, hg, hg.1, v2, hs2, hΦ⟩

/-- A program whose actions nobody notices. -/
theorem unnoticed {p : Prog T S L α} {R : S → S → Prop}
    (hR : ∀ g s s', R s s' → Λ.inv g s → Λ.sees r.agent v g s → r.running s →
      r.running s' ∧ ∃ g', Λ.law g s' g' ∧ Λ.inv g' s' ∧
        ∀ b w, Λ.sees b w g s → Λ.sees b w g' s')
    (hstops : ∀ g s o, Λ.sees r.agent v g s → Λ.stops r.tid s o) (hp : p.Steps R r.tid) :
    Λ.Triple r v p fun _ v' => v' = v := by
  intro g s hi hs
  induction p generalizing g s with
  | ret x => exact ⟨hi, v, hs, rfl⟩
  | act f k ih =>
      intro g1 s1 hr ha
      refine ⟨.of_all fun o => hstops g1 s1 o (hr.2 v hs), fun x s2 hf => ?_⟩
      obtain ⟨hstep, hk⟩ := hp s1 x s2 hf
      obtain ⟨ha2, g2, hlaw, hinv, hsees⟩ := hR g1 s1 s2 hstep (hr.1 hi) (hr.2 v hs) ha
      exact ⟨ha2, g2, hlaw, ⟨hinv, fun b _ w => hsees b w⟩,
        ih x hk g2 s2 hinv (hsees _ v (hr.2 v hs))⟩

theorem assume {Q : Prop} {p : Prog T S L α} {Φ : α → V → Prop}
    (hQ : ∀ g s, Λ.inv g s → Λ.sees r.agent v g s → Q) (h : Q → Λ.Triple r v p Φ) :
    Λ.Triple r v p Φ :=
  fun g s hi hs => h (hQ g s hi hs) g s hi hs

theorem fail {m : String} {Φ : α → V → Prop} (hm : ∀ s, Λ.stops r.tid s (.panic m)) :
    Λ.Triple r v (Prog.fail m) Φ :=
  fun _ _ _ _ _ s1 _ _ => ⟨hm s1, fun x => nomatch x⟩

theorem ite {c : Prop} [Decidable c] {p q : Prog T S L α} {Φ : α → V → Prop}
    (hp : c → Λ.Triple r v p Φ) (hq : ¬ c → Λ.Triple r v q Φ) :
    Λ.Triple r v (if c then p else q) Φ := by
  split
  · exact hp ‹_›
  · exact hq ‹_›

theorem run {p : Prog T S L α} {Φ : α → V → Prop} (h : Λ.Triple r v p Φ)
    (hi : Λ.inv g s) (hs : Λ.sees r.agent v g s) (ha : r.running s) {x : α} {s' : S}
    (hrun : p.run r.tid s = .ok (x, s')) :
    ∃ g' v', r.running s' ∧ Λ.Guar r.agent g s g' s' ∧ Λ.Lawful g g' ∧
      Λ.sees r.agent v' g' s' ∧ Φ x v' := by
  obtain ⟨g', ⟨-, v', hs', hΦ⟩, ha', hg, hl⟩ := wp_run (h g s hi hs) hi ha hrun
  exact ⟨g', v', ha', hg, hl, hs', hΦ⟩

end Triple

end Views

end Os161Paging
