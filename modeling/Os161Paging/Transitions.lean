import Mathlib.Logic.Relation

/-!
# Transition systems

A set of starting states and a step relation, the states that runs reach,
and the rule for invariants. A property that needs a condition on the
steps taken is stated over the runs of the system cut down to the steps
that meet it. Last, a rule for agents that wait for each other: where each
wants only what ranks above all it holds, going from an agent to the holder
of what it wants goes up in rank, so that every chain of waiting has an end.
-/

namespace Os161Paging

structure Transitions (S : Type*) where
  start : S → Prop
  step : S → S → Prop

namespace Transitions

variable {S : Type*} {M : Transitions S} {s s' : S}

/-- `s` is reached by some run. -/
def Reachable (M : Transitions S) (s : S) : Prop :=
  ∃ s0, M.start s0 ∧ Relation.ReflTransGen M.step s0 s

/-- The runs all of whose steps meet `C`. -/
def cut (M : Transitions S) (C : S → S → Prop) : Transitions S where
  start := M.start
  step s s' := M.step s s' ∧ C s s'

/-- The runs from the starting states that meet `I`. -/
def restrict (M : Transitions S) (I : S → Prop) : Transitions S where
  start s := M.start s ∧ I s
  step := M.step

theorem Reachable.init (h : M.start s) : M.Reachable s := ⟨s, h, .refl⟩

theorem Reachable.next (h : M.Reachable s) (hs : M.step s s') : M.Reachable s' := by
  obtain ⟨s0, h0, hrun⟩ := h
  exact ⟨s0, h0, hrun.tail hs⟩

/-- What every move of a list preserves, performing the whole list preserves. -/
theorem foldlM_invariant {A : Type*} {f : S → A → Option S} {I : S → Prop} (l : List A)
    (hstep : ∀ a ∈ l, ∀ s s', I s → f s a = some s' → I s') (h : I s)
    (hl : l.foldlM f s = some s') : I s' := by
  induction l generalizing s with
  | nil =>
      cases hl
      exact h
  | cons a l ih =>
      obtain ⟨s1, h1, hl⟩ := Option.bind_eq_some_iff.mp hl
      exact ih (fun b hb => hstep b (List.mem_cons_of_mem _ hb))
        (hstep a List.mem_cons_self s s1 h h1) hl

/-- Where a move from a state with the property `I` keeps it exactly if it meets `H`, the
property holds all along a list of moves exactly if all of them meet `H`. -/
theorem foldlM_forall_iff {A : Type*} {f : S → A → Option S} {I : S → Prop} {H : S → A → Prop}
    (hstep : ∀ s a s', I s → f s a = some s' → (I s' ↔ H s a)) (h : I s) (l : List A)
    (hl : l.foldlM f s = some s') :
    (∀ n s', (l.take n).foldlM f s = some s' → I s') ↔
      ∀ n a s', l[n]? = some a → (l.take n).foldlM f s = some s' → H s' a := by
  constructor
  · intro hall n a s1 ha h1
    obtain ⟨hn, rfl⟩ := List.getElem?_eq_some_iff.mp ha
    -- the move after the first `n` has an outcome, as the whole list has one
    have hsplit : l.foldlM f s = (l.take (n + 1)).foldlM f s >>= (l.drop (n + 1)).foldlM f := by
      rw [← List.foldlM_append, List.take_append_drop]
    rw [hl] at hsplit
    obtain ⟨s2, h2, -⟩ := Option.bind_eq_some_iff.mp hsplit.symm
    have hlast : f s1 l[n] = some s2 := by
      rw [List.take_succ_eq_append_getElem hn, List.foldlM_append, h1] at h2
      simpa using h2
    exact (hstep s1 _ s2 (hall n s1 h1) hlast).mp (hall (n + 1) s2 h2)
  · intro hall n
    induction n with
    | zero =>
        intro s1 h1
        cases h1
        exact h
    | succ n ih =>
        intro s2 h2
        by_cases hn : n < l.length
        · rw [List.take_succ_eq_append_getElem hn, List.foldlM_append] at h2
          obtain ⟨s1, h1, hlast⟩ := Option.bind_eq_some_iff.mp h2
          have hlast : f s1 l[n] = some s2 := by simpa using hlast
          exact (hstep s1 _ s2 (ih s1 h1) hlast).mpr
            (hall n _ s1 (List.getElem?_eq_getElem hn) h1)
        · rw [List.take_of_length_le (by omega), ← List.take_of_length_le (Nat.not_lt.mp hn)] at h2
          exact ih s2 h2

/-- Moves performed one after the other lead to a reachable state. -/
theorem Reachable.moves {A : Type*} {f : A → S → Option S}
    (hf : ∀ a s s', f a s = some s' → M.step s s') (l : List A) (h : M.Reachable s)
    (hl : l.foldlM (fun s a => f a s) s = some s') : M.Reachable s' :=
  foldlM_invariant l (fun a _ s s' hr hs => hr.next (hf a s s' hs)) h hl

/-- A property of the starting states that every step preserves holds in
every state of every run. -/
theorem Reachable.invariant {I : S → Prop} (h : M.Reachable s) (hstart : ∀ s, M.start s → I s)
    (hstep : ∀ s s', I s → M.step s s' → I s') : I s := by
  obtain ⟨s0, h0, hrun⟩ := h
  induction hrun with
  | refl => exact hstart s0 h0
  | tail _ hs ih => exact hstep _ _ ih hs

end Transitions

/-! ## Chains of waiting -/

section

variable {A L : Type*} {holder : L → Option A} {wants : A → Option L} {rank : L → Nat} {a b : A}

/-- `a` wants what `b` holds. -/
def WaitsFor (holder : L → Option A) (wants : A → Option L) (a b : A) : Prop :=
  ∃ l, wants a = some l ∧ holder l = some b

/-- Everybody wants only what ranks above all they hold. -/
def Ordered (holder : L → Option A) (wants : A → Option L) (rank : L → Nat) : Prop :=
  ∀ a l, wants a = some l → ∀ l', holder l' = some a → rank l' < rank l

/-- The end of a chain of waiting. -/
theorem Ordered.exists_end (h : Ordered holder wants rank) {k : Nat} (hk : ∀ l, rank l ≤ k)
    (hab : WaitsFor holder wants a b) :
    ∃ c, Relation.TransGen (WaitsFor holder wants) a c ∧ ∀ d, ¬ WaitsFor holder wants c d := by
  obtain ⟨l, hl, hb⟩ := hab
  -- the rank of what is wanted goes up along the chain, and has a bound
  induction hj : k - rank l using Nat.strongRecOn generalizing a b l with
  | _ j ih =>
      have hab : WaitsFor holder wants a b := ⟨l, hl, hb⟩
      by_cases hend : ∃ d, WaitsFor holder wants b d
      · obtain ⟨d, l', hl', hd⟩ := hend
        have hlt := h b l' hl' l hb
        have hle := hk l'
        obtain ⟨c, hbc, hc⟩ := ih (k - rank l') (by omega) l' hl' hd rfl
        exact ⟨c, .head hab hbc, hc⟩
      · exact ⟨b, .single hab, fun d hd => hend ⟨d, hd⟩⟩

end

end Os161Paging
