import Mathlib.Data.List.FinRange
import Mathlib.Algebra.Order.BigOperators.Group.List
import Mathlib.Algebra.Order.Ring.Nat
import Os161Paging.Scheduler

/-!
# What migration achieves

`thread_consider_migration` run without interference, from any run queues.
The processor is left with its share of the threads: it gives away the end
of its run queue, in order, to the other processors, none of which gets
more than its own share. All of it finds room, because the share is
rounded up. The current thread, which can be on the run queue if the
processor was idle, is not given away.
-/

namespace Os161Paging.Threads

open Prog

variable {n : Nat} {ρ α : Type} {t : Thread} {c d : Fin n} {s s' : Sched n} {h : Option (Fin n)}

/-! ## Running alone -/

/-- The thread runs on `c`; of the locks of run queues and of interprocessor interrupts, it
holds that of the run queue `h`, if any, and nobody holds another one. -/
structure Alone (t : Thread) (c : Fin n) (h : Option (Fin n)) (s : Sched n) : Prop where
  cur : s.processor t = some c
  runqueue : ∀ d, s.splkHolder (.runqueue d) = if some d = h then some c else none
  ipi : ∀ d, s.splkHolder (.ipi d) = none

theorem Alone.of_same (ha : Alone t c h s) (hcur : s'.cCurthread = s.cCurthread)
    (hlocks : s'.splkHolder = s.splkHolder) : Alone t c h s' where
  cur := by
    unfold Sched.processor
    rw [hcur]
    exact ha.cur
  runqueue := by
    rw [hlocks]
    exact ha.runqueue
  ipi := by
    rw [hlocks]
    exact ha.ipi

theorem yields_onCpu {f : Thread → Fin n → Sched n → Outcome (Wait n) (ρ × Sched n)} {x : ρ}
    {Q : ρ → Sched n → Prop} (hcur : s.processor t = some c) (hf : f t c s = .ok (x, s'))
    (hQ : Q x s') : Yields t (onCpu f) s Q := by
  refine ⟨x, s', ?_, hQ⟩
  rw [onCpu, run_exec, hcur]
  exact hf

theorem yields_look {f : Thread → Fin n → Sched n → ρ} {k : ρ → K n α} {Q : α → Sched n → Prop}
    (ha : Alone t c h s) (hk : Yields t (k (f t c s)) s Q) : Yields t (look f >>= k) s Q := by
  refine .bind (P := fun x s' => x = f t c s ∧ s' = s) (yields_onCpu ha.cur rfl ⟨rfl, rfl⟩) ?_
  intro x s1 h1
  rw [h1.1, h1.2]
  exact hk

theorem yields_change {F : Thread → Fin n → Sched n → Sched n} {k : Unit → K n α}
    {Q : α → Sched n → Prop} (ha : Alone t c h s) (hk : Yields t (k ()) (F t c s) Q) :
    Yields t (change F >>= k) s Q := by
  refine .bind (P := fun _ s' => s' = F t c s) (yields_onCpu ha.cur rfl rfl) ?_
  intro x s1 h1
  rw [h1]
  exact hk

theorem yields_acquire (ha : Alone t c none s) : Yields t (spinlockAcquire (.runqueue d)) s
    fun _ s' => Alone t c (some d) s' ∧ s'.cRunqueue = s.cRunqueue := by
  have hfree : s.splkHolder (.runqueue d) = none := by simp [ha.runqueue]
  have htake : Alone t c (some d) (s.take t c (.runqueue d)) := by
    refine ⟨ha.cur, ?_, ?_⟩
    · intro e
      by_cases he : e = d
      · simp [Sched.take, he]
      · simp [Sched.take, he, ha.runqueue]
    · intro e
      simp [Sched.take, ha.ipi]
  exact yields_onCpu ha.cur (by rw [hfree]) ⟨htake, rfl⟩

theorem yields_release (ha : Alone t c (some d) s) : Yields t (spinlockRelease (.runqueue d)) s
    fun _ s' => Alone t c none s' ∧ s'.cRunqueue = s.cRunqueue := by
  have hheld : s.splkHolder (.runqueue d) = some c := by simp [ha.runqueue]
  have hdrop : Alone t c none (s.drop t c (.runqueue d)) := by
    refine ⟨ha.cur, ?_, ?_⟩
    · intro e
      by_cases he : e = d
      · simp [Sched.drop, he]
      · simp [Sched.drop, he, ha.runqueue]
    · intro e
      simp [Sched.drop, ha.ipi]
  exact yields_onCpu ha.cur (if_pos hheld) ⟨hdrop, rfl⟩

theorem yields_ipiSend {code : Ipi} (ha : Alone t c h s) : Yields t (ipiSend d code) s
    fun _ s' => Alone t c h s' ∧ s'.cRunqueue = s.cRunqueue := by
  unfold ipiSend spinlockAcquire spinlockRelease
  refine .bind (P := fun _ s1 => s1 = s.take t c (.ipi d))
    (yields_onCpu ha.cur (by rw [ha.ipi]) rfl) ?_
  intro _ s1 h1
  subst h1
  refine .bind (P := fun _ s2 => s2.splkHolder = (s.take t c (.ipi d)).splkHolder ∧
      s2.cCurthread = s.cCurthread ∧ s2.cRunqueue = s.cRunqueue)
    (yields_onCpu ha.cur rfl ⟨rfl, rfl, rfl⟩) ?_
  intro _ s2 h2
  obtain ⟨hlocks, hcur, hqueue⟩ := h2
  have hproc : s2.processor t = some c := by
    unfold Sched.processor
    rw [hcur]
    exact ha.cur
  refine yields_onCpu hproc (if_pos ?_) ⟨ha.of_same hcur ?_, hqueue⟩
  · rw [hlocks]
    exact Function.update_self ..
  · -- the lock was free before, and is again
    show Function.update s2.splkHolder (.ipi d) none = s.splkHolder
    rw [hlocks]
    show Function.update (Function.update s.splkHolder (.ipi d) (some c)) (.ipi d) none = _
    rw [Function.update_idem, ← ha.ipi d, Function.update_eq_self]

/-! ## Counting -/

def Sched.load (s : Sched n) (cs : List (Fin n)) : Nat :=
  (cs.map fun d => (s.cRunqueue d).length).sum

theorem yields_countThreads : ∀ (cs : List (Fin n)) (my total : Nat) (s : Sched n),
    Alone t c none s → Yields t (countThreads cs my total) s fun x s' =>
      Alone t c none s' ∧ s'.cRunqueue = s.cRunqueue ∧
        x = (if c ∈ cs then (s.cRunqueue c).length else my, total + s.load cs)
  | [], my, total, s, ha => by
      exact .pure ⟨ha, rfl, by simp [Sched.load]⟩
  | d :: cs, my, total, s, ha => by
      unfold countThreads
      refine .bind (yields_acquire ha) fun _ s1 h1 => ?_
      refine yields_look h1.1 (yields_look h1.1 ?_)
      refine .bind (yields_release h1.1) fun _ s4 h4 => ?_
      have hqueue : s4.cRunqueue = s.cRunqueue := h4.2.trans h1.2
      refine (yields_countThreads cs _ _ s4 h4.1).mono fun x s5 h5 => ?_
      obtain ⟨ha5, hq5, rfl⟩ := h5
      refine ⟨ha5, hq5.trans hqueue, ?_⟩
      have hload : s4.load cs = s.load cs := by
        unfold Sched.load
        rw [hqueue]
      have hcons : s.load (d :: cs) = (s.cRunqueue d).length + s.load cs := rfl
      rw [hload, hqueue, hcons, h1.2, Nat.add_assoc]
      by_cases hd : d = c
      · subst hd
        simp
      · simp [hd, Ne.symm hd]

/-! ## Taking the victims -/

theorem yields_takeVictims : ∀ (k : Nat) (vs : List Thread) (s : Sched n),
    Alone t c (some c) s → k ≤ (s.cRunqueue c).length →
    Yields t (takeVictims k vs) s fun x s' =>
      Alone t c (some c) s' ∧ x = (s.cRunqueue c).drop ((s.cRunqueue c).length - k) ++ vs ∧
        s'.cRunqueue = Function.update s.cRunqueue c
          ((s.cRunqueue c).take ((s.cRunqueue c).length - k))
  | 0, vs, s, ha, _ => .pure ⟨ha, by simp, by simp⟩
  | k + 1, vs, s, ha, hk => by
      have hne : s.cRunqueue c ≠ [] := by
        intro hnil
        simp [hnil] at hk
      obtain ⟨q, u, hq⟩ : ∃ q u, s.cRunqueue c = q ++ [u] :=
        ⟨_, _, (List.dropLast_append_getLast hne).symm⟩
      have hlen : k ≤ q.length := by
        rw [hq] at hk
        simpa using hk
      have hlast : (s.cRunqueue c).getLast? = some u := by rw [hq, List.getLast?_concat]
      have hoff : Alone t c (some c) { s with
          cRunqueue := Function.update s.cRunqueue c (s.cRunqueue c).dropLast } :=
        ha.of_same rfl rfl
      unfold takeVictims
      refine .bind (P := fun x s1 => x = u ∧ Alone t c (some c) s1 ∧
          s1.cRunqueue = Function.update s.cRunqueue c q)
        (yields_onCpu ha.cur (by rw [hlast]) ⟨rfl, hoff, by simp [hq]⟩) ?_
      intro x s1 h1
      obtain ⟨rfl, ha1, hq1⟩ := h1
      have hown : s1.cRunqueue c = q := by rw [hq1, Function.update_self]
      refine (yields_takeVictims k (x :: vs) s1 ha1 (by rw [hown]; exact hlen)).mono ?_
      intro y s2 h2
      obtain ⟨ha2, rfl, hq2⟩ := h2
      have hrest : (q ++ [x]).length - (k + 1) = q.length - k := by simp
      refine ⟨ha2, ?_, ?_⟩
      · rw [hown, hq, hrest, List.drop_append_of_le_length (by omega)]
        simp
      · rw [hq2, hown, hq1, Function.update_idem, hq, hrest,
          List.take_append_of_le_length (by omega)]

/-! ## Giving them away -/

/-- What is left of the victims when `k` are still to be sent: just those, or also the current
thread, which was skipped. -/
def Owing (t : Thread) (vs : List Thread) (k : Nat) : Prop :=
  vs.Nodup ∧ (vs.length = k ∨ ∃ ws, vs = ws ++ [t] ∧ ws.length = k)

def toGo (t : Thread) (vs : List Thread) (k : Nat) : List Thread := (vs.take k).filter (· ≠ t)

theorem Owing.skip {rest : List Thread} {k : Nat} (ho : Owing t (t :: rest) (k + 1)) :
    Owing t (rest ++ [t]) k ∧ toGo t (rest ++ [t]) k = toGo t (t :: rest) (k + 1) := by
  obtain ⟨hnodup, hlen⟩ := ho
  obtain ⟨hnot, hrest⟩ := List.nodup_cons.mp hnodup
  have hk : rest.length = k := by
    rcases hlen with hlen | ⟨ws, hvs, hlen⟩
    · simpa using hlen
    · -- the current thread would be at the head and at the end
      cases ws with
      | nil => simp at hlen
      | cons w ws =>
          simp only [List.cons_append, List.cons.injEq] at hvs
          simp [hvs.2] at hnot
  refine ⟨⟨?_, .inr ⟨rest, rfl, hk⟩⟩, ?_⟩
  · exact List.nodup_append_comm.mp hnodup
  · unfold toGo
    rw [List.take_append_of_le_length hk.ge, List.take_succ_cons, List.filter_cons_of_neg (by simp)]

theorem Owing.send {v : Thread} {rest : List Thread} {k : Nat} (hv : v ≠ t)
    (ho : Owing t (v :: rest) (k + 1)) :
    Owing t rest k ∧ toGo t (v :: rest) (k + 1) = v :: toGo t rest k := by
  obtain ⟨hnodup, hlen⟩ := ho
  refine ⟨⟨(List.nodup_cons.mp hnodup).2, ?_⟩, ?_⟩
  · rcases hlen with hlen | ⟨ws, hvs, hlen⟩
    · exact .inl (by simpa using hlen)
    · cases ws with
      | nil => simp at hlen
      | cons w ws =>
          simp only [List.cons_append, List.cons.injEq] at hvs
          exact .inr ⟨ws, hvs.2, by simpa using hlen⟩
  · unfold toGo
    rw [List.take_succ_cons, List.filter_cons_of_pos (by simpa using hv)]

structure Dealt (t : Thread) (share : Nat) (q chunk vs : List Thread) (k : Nat)
    (vs' : List Thread) (k' : Nat) : Prop where
  owing : Owing t vs' k'
  goes : toGo t vs k = chunk ++ toGo t vs' k'
  same : t ∈ vs' ↔ t ∈ vs
  full : k' = 0 ∨ share ≤ (q ++ chunk).length
  fair : chunk ≠ [] → (q ++ chunk).length ≤ share

theorem Dealt.cons {share : Nat} {q chunk rest vs' : List Thread} {v : Thread} {k k' : Nat}
    (hv : v ≠ t) (hroom : q.length < share)
    (hgo : toGo t (v :: rest) (k + 1) = v :: toGo t rest k)
    (hd : Dealt t share (q ++ [v]) chunk rest k vs' k') :
    Dealt t share q (v :: chunk) (v :: rest) (k + 1) vs' k' where
  owing := hd.owing
  goes := by rw [hgo, hd.goes, List.cons_append]
  same := by simp [hd.same, Ne.symm hv]
  full := by simpa using hd.full
  fair := by
    intro _
    by_cases hchunk : chunk = []
    · subst hchunk
      simpa using Nat.succ_le_of_lt hroom
    · simpa using hd.fair hchunk

theorem yields_sendVictims {share : Nat} : ∀ (k : Nat) (vs : List Thread) (s : Sched n),
    Alone t c (some d) s → Owing t vs k →
    Yields t (sendVictims d share k vs) s fun x s' => Alone t c (some d) s' ∧
      ∃ chunk, Dealt t share (s.cRunqueue d) chunk vs k x.1 x.2 ∧
        s'.cRunqueue = Function.update s.cRunqueue d (s.cRunqueue d ++ chunk)
  | 0, vs, s, ha, ho => by
      refine .pure ⟨ha, [], ⟨ho, rfl, Iff.rfl, .inl rfl, by simp⟩, by simp⟩
  | k + 1, vs, s, ha, ho => by
      unfold sendVictims
      refine yields_look ha (.ite (fun hroom => ?_) fun hfull => ?_)
      · cases vs with
        | nil => exact absurd ho.2 (by simp)
        | cons v rest =>
            refine yields_look ha (.ite (fun hv => ?_) fun hv => ?_)
            · subst v
              obtain ⟨ho', hgo⟩ := ho.skip
              refine (yields_sendVictims k _ _ ha ho').mono ?_
              intro x s' hx
              obtain ⟨ha', chunk, hd, hq⟩ := hx
              refine ⟨ha', chunk, ⟨hd.owing, hgo ▸ hd.goes, ?_, hd.full, hd.fair⟩, hq⟩
              rw [hd.same]
              simp
            · obtain ⟨ho', hgo⟩ := ho.send hv
              have hrest : ∀ s2 : Sched n, Alone t c (some d) s2 →
                  s2.cRunqueue = Function.update s.cRunqueue d (s.cRunqueue d ++ [v]) →
                  Yields t (sendVictims d share k rest) s2 fun x s' => Alone t c (some d) s' ∧
                    ∃ chunk, Dealt t share (s.cRunqueue d) chunk (v :: rest) (k + 1) x.1 x.2 ∧
                      s'.cRunqueue =
                        Function.update s.cRunqueue d (s.cRunqueue d ++ chunk) := by
                intro s2 ha2 hq2
                have hown : s2.cRunqueue d = s.cRunqueue d ++ [v] := by
                  rw [hq2, Function.update_self]
                refine (yields_sendVictims k rest s2 ha2 ho').mono ?_
                intro x s' hx
                obtain ⟨ha', chunk, hd, hq⟩ := hx
                rw [hown] at hd
                refine ⟨ha', v :: chunk, hd.cons hv hroom hgo, ?_⟩
                rw [hq, hown, hq2, Function.update_idem]
                simp
              have ha1 : Alone t c (some d) (Sched.addtail
                  { s with tCpu := Function.update s.tCpu v (some d) } d v) := ha.of_same rfl rfl
              refine yields_change ha (yields_change (ha.of_same rfl rfl) (yields_look ha1 ?_))
              refine .ite (fun _ => ?_) fun _ => hrest _ ha1 rfl
              exact .bind (yields_ipiSend ha1) fun _ s2 h2 => hrest s2 h2.1 h2.2
      · exact .pure ⟨ha, [], ⟨ho, rfl, Iff.rfl, .inr (by simpa using hfull), by simp⟩, by simp⟩

structure Spread (t : Thread) (c : Fin n) (share : Nat) (q given : Fin n → List Thread)
    (cs : List (Fin n)) (vs : List Thread) (k : Nat) (vs' : List Thread) (k' : Nat) : Prop where
  owing : Owing t vs' k'
  goes : toGo t vs k = (cs.filter (· ≠ c)).flatMap given ++ toGo t vs' k'
  same : t ∈ vs' ↔ t ∈ vs
  full : toGo t vs' k' = [] ∨ ∀ d ∈ cs, d ≠ c → share ≤ (q d ++ given d).length
  fair : ∀ d, given d ≠ [] → (q d ++ given d).length ≤ share
  others : ∀ d, given d ≠ [] → d ∈ cs ∧ d ≠ c

namespace Spread

variable {share k k₁ k' : Nat} {q given : Fin n → List Thread} {cs : List (Fin n)}
  {chunk vs vs₁ vs' : List Thread}

theorem none (ho : Owing t vs k) (hfull : k = 0 ∨ cs = []) :
    Spread t c share q (fun _ => []) cs vs k vs k where
  owing := ho
  goes := by simp
  same := Iff.rfl
  full := by
    rcases hfull with rfl | rfl
    · exact .inl rfl
    · exact .inr (by simp)
  fair := by simp
  others := by simp

theorem skip (hs : Spread t c share q given cs vs k vs' k') :
    Spread t c share q given (c :: cs) vs k vs' k' where
  owing := hs.owing
  goes := by
    rw [List.filter_cons_of_neg (by simp)]
    exact hs.goes
  same := hs.same
  full := by
    refine hs.full.imp_right fun hfull d hd hdc => ?_
    rcases List.mem_cons.mp hd with rfl | hd
    · exact absurd rfl hdc
    · exact hfull d hd hdc
  fair := hs.fair
  others := fun d hd => ⟨List.mem_cons_of_mem _ (hs.others d hd).1, (hs.others d hd).2⟩

theorem cons (hdc : d ≠ c) (hdcs : d ∉ cs) (hd : Dealt t share (q d) chunk vs k vs₁ k₁)
    (hs : Spread t c share (Function.update q d (q d ++ chunk)) given cs vs₁ k₁ vs' k') :
    given d = [] ∧
      Spread t c share q (Function.update given d chunk) (d :: cs) vs k vs' k' := by
  have hnone : given d = [] := by
    by_contra hsome
    exact hdcs (hs.others d hsome).1
  refine ⟨hnone, hs.owing, ?_, hs.same.trans hd.same, ?_, ?_, ?_⟩
  · have hrest : (cs.filter (· ≠ c)).flatMap (Function.update given d chunk)
        = (cs.filter (· ≠ c)).flatMap given := by
      refine List.flatMap_congr fun e he => Function.update_of_ne ?_ _ _
      rintro rfl
      exact hdcs (List.mem_of_mem_filter he)
    rw [List.filter_cons_of_pos (by simpa using hdc), List.flatMap_cons, Function.update_self,
      hrest, List.append_assoc, ← hs.goes]
    exact hd.goes
  · rcases hd.full with rfl | hfull
    · -- nothing is left to be sent, and nothing more is sent
      exact .inl (List.append_eq_nil_iff.mp hs.goes.symm).2
    · refine hs.full.imp_right fun hothers e he hec => ?_
      by_cases hed : e = d
      · subst hed
        rw [Function.update_self]
        exact hfull
      · have := hothers e ((List.mem_cons.mp he).resolve_left hed) hec
        rw [Function.update_of_ne hed] at this ⊢
        exact this
  · intro e he
    by_cases hed : e = d
    · subst hed
      rw [Function.update_self] at he ⊢
      exact hd.fair he
    · rw [Function.update_of_ne hed] at he ⊢
      have := hs.fair e he
      rw [Function.update_of_ne hed] at this
      exact this
  · intro e he
    by_cases hed : e = d
    · subst hed
      exact ⟨List.mem_cons_self, hdc⟩
    · rw [Function.update_of_ne hed] at he
      exact ⟨List.mem_cons_of_mem _ (hs.others e he).1, (hs.others e he).2⟩

theorem congr {q' : Fin n → List Thread} (hq : ∀ d, d ≠ c → q d = q' d)
    (hs : Spread t c share q given cs vs k vs' k') : Spread t c share q' given cs vs k vs' k' where
  owing := hs.owing
  goes := hs.goes
  same := hs.same
  full := hs.full.imp_right fun hfull d hd hdc => hq d hdc ▸ hfull d hd hdc
  fair := fun d hd => hq d (hs.others d hd).2 ▸ hs.fair d hd
  others := hs.others

/-- If all that is to go has gone, only the current thread can be left. -/
theorem left_eq (hs : Spread t c share q given cs vs k vs' k') (hnodup : vs.Nodup)
    (hgone : toGo t vs' k' = []) : vs' = vs.filter (· = t) := by
  have hall : ∀ u ∈ vs', u = t := by
    intro u hu
    by_contra hut
    have hmem : u ∈ vs'.take k' := by
      rcases hs.owing.2 with hlen | ⟨ws, rfl, hlen⟩
      · rwa [List.take_of_length_le hlen.le]
      · rw [List.take_append_of_le_length hlen.ge, List.take_of_length_le hlen.le]
        exact (List.mem_append.mp hu).resolve_right (by simpa using hut)
    have : u ∈ toGo t vs' k' := List.mem_filter.mpr ⟨hmem, by simpa using hut⟩
    rw [hgone] at this
    exact List.not_mem_nil this
  have hperm : vs'.Perm (vs.filter (· = t)) := by
    refine (List.perm_ext_iff_of_nodup hs.owing.1 (hnodup.filter _)).mpr fun u => ?_
    constructor
    · intro hu
      have hut := hall u hu
      subst hut
      exact List.mem_filter.mpr ⟨hs.same.mp hu, by simp⟩
    · intro hu
      obtain ⟨hmem, hut⟩ := List.mem_filter.mp hu
      obtain rfl : u = t := by simpa using hut
      exact hs.same.mpr hmem
  -- both lists hold nothing but the current thread
  have hlen := hperm.length_eq
  rw [List.eq_replicate_of_mem hall, hlen]
  refine (List.eq_replicate_of_mem fun u hu => ?_).symm
  simpa using (List.mem_filter.mp hu).2

end Spread

theorem yields_spreadVictims {share : Nat} : ∀ (cs : List (Fin n)) (vs : List Thread) (k : Nat)
    (s : Sched n), cs.Nodup → Alone t c none s → Owing t vs k →
    Yields t (spreadVictims share cs vs k) s fun x s' => Alone t c none s' ∧
      ∃ given k', Spread t c share s.cRunqueue given cs vs k x k' ∧
        ∀ d, s'.cRunqueue d = s.cRunqueue d ++ given d
  | [], vs, k, s, _, ha, ho =>
      .pure ⟨ha, fun _ => [], k, .none ho (.inr rfl), by simp⟩
  | d :: cs, vs, k, s, hcs, ha, ho => by
      obtain ⟨hd, hcs'⟩ := List.nodup_cons.mp hcs
      unfold spreadVictims
      refine .ite (fun hk => .pure ⟨ha, fun _ => [], k, .none ho (.inl hk), by simp⟩) fun _ => ?_
      refine yields_look ha (.ite (fun hmine => ?_) fun hother => ?_)
      · obtain rfl : c = d := (of_decide_eq_true hmine).symm
        refine (yields_spreadVictims cs vs k s hcs' ha ho).mono ?_
        intro x s' hx
        obtain ⟨ha', given, k', hs, hq⟩ := hx
        exact ⟨ha', given, k', hs.skip, hq⟩
      · have hdc : d ≠ c := by simpa using hother
        refine .bind (yields_acquire ha) fun _ s1 h1 => ?_
        refine .bind (yields_sendVictims k vs s1 h1.1 ho) ?_
        rintro ⟨vs₁, k₁⟩ s2 ⟨ha2, chunk, hdealt, hq2⟩
        refine .bind (yields_release ha2) fun _ s3 h3 => ?_
        have hq3 : s3.cRunqueue = Function.update s.cRunqueue d (s.cRunqueue d ++ chunk) := by
          rw [h3.2, hq2, h1.2]
        refine (yields_spreadVictims cs vs₁ k₁ s3 hcs' h3.1 hdealt.owing).mono ?_
        intro x s' hx
        obtain ⟨ha', given, k', hs, hq⟩ := hx
        rw [h1.2] at hdealt
        rw [hq3] at hs
        obtain ⟨hnone, hspread⟩ := hs.cons hdc hd hdealt
        refine ⟨ha', _, k', hspread, fun e => ?_⟩
        rw [hq, hq3]
        by_cases hed : e = d
        · subst hed
          rw [Function.update_self, Function.update_self, hnone, List.append_nil]
        · rw [Function.update_of_ne hed, Function.update_of_ne hed]

/-! ## Putting the rest back -/

theorem yields_putBack : ∀ (vs : List Thread) (s : Sched n), Alone t c h s →
    Yields t (putBack vs) s fun _ s' => Alone t c h s' ∧
      s'.cRunqueue = Function.update s.cRunqueue c (s.cRunqueue c ++ vs)
  | [], s, ha => .pure ⟨ha, by simp⟩
  | v :: vs, s, ha => by
      unfold putBack
      have ha1 : Alone t c h (s.addtail c v) := ha.of_same rfl rfl
      refine yields_change ha ((yields_putBack vs (s.addtail c v) ha1).mono ?_)
      intro _ s' h'
      refine ⟨h'.1, ?_⟩
      rw [h'.2]
      simp [Sched.addtail]

/-! ## The whole -/

/-- The share of each processor, rounded up. -/
def Sched.share (s : Sched n) : Nat := oneShare (s.load (List.finRange n)) n

/-- From `s` to `s'` the processor `c` has kept its share of the threads and given the others
the rest, but for the current thread `t`. -/
structure Migrated (t : Thread) (c : Fin n) (s s' : Sched n) (given : Fin n → List Thread) :
    Prop where
  kept : s'.cRunqueue c
    = (s.cRunqueue c).take s.share ++ ((s.cRunqueue c).drop s.share).filter (· = t)
  received : ∀ d, d ≠ c → s'.cRunqueue d = s.cRunqueue d ++ given d
  fair : ∀ d, d ≠ c → given d ≠ [] → (s'.cRunqueue d).length ≤ s.share
  gone : ((List.finRange n).filter (· ≠ c)).flatMap given
    = ((s.cRunqueue c).drop s.share).filter (· ≠ t)

theorem le_mul_oneShare (total : Nat) {m : Nat} (hm : 0 < m) : total ≤ m * oneShare total m := by
  unfold oneShare
  have := Nat.div_add_mod (total + m - 1) m
  have := Nat.mod_lt (total + m - 1) hm
  omega

theorem finRange_perm (c : Fin n) :
    (List.finRange n).Perm (c :: (List.finRange n).filter (· ≠ c)) := by
  have herase : (List.finRange n).erase c = (List.finRange n).filter (· ≠ c) := by
    rw [(List.nodup_finRange n).erase_eq_filter]
    exact List.filter_congr fun d _ => by by_cases h : d = c <;> simp [h]
  exact herase ▸ List.perm_cons_erase (List.mem_finRange c)

theorem Sched.load_eq (s : Sched n) (c : Fin n) : s.load (List.finRange n)
    = (s.cRunqueue c).length + s.load ((List.finRange n).filter (· ≠ c)) :=
  ((finRange_perm c).map _).sum_eq

/-- There is room for all that is to go: if not, each other processor would have its share, and
this one more, which is more than all. -/
theorem Spread.gone {given : Fin n → List Thread} {vs vs' : List Thread} {k k' : Nat}
    (hs : Spread t c s.share s.cRunqueue given (List.finRange n) vs k vs' k')
    (hk : (s.cRunqueue c).length = s.share + k) : toGo t vs' k' = [] := by
  by_contra hleft
  have hfull := hs.full.resolve_left hleft
  let cs := (List.finRange n).filter (· ≠ c)
  have hlen : cs.length + 1 = n := by
    have := (finRange_perm c).length_eq
    rw [List.length_finRange, List.length_cons] at this
    exact this.symm
  have hsum : cs.length * s.share
      ≤ s.load cs + (cs.map fun d => (given d).length).sum := by
    have hle := List.card_nsmul_le_sum (cs.map fun d => (s.cRunqueue d ++ given d).length) s.share
      (by
        intro x hx
        obtain ⟨d, hd, rfl⟩ := List.mem_map.mp hx
        exact hfull d (List.mem_finRange d) (by simpa using (List.mem_filter.mp hd).2))
    simp only [List.length_append, List.sum_map_add, List.length_map, nsmul_eq_mul,
      Nat.cast_id] at hle
    exact hle
  have hgiven : (cs.map fun d => (given d).length).sum + 1 ≤ k := by
    have hgoes := congrArg List.length hs.goes
    rw [List.length_append, List.length_flatMap] at hgoes
    have hpos : 0 < (toGo t vs' k').length := List.length_pos_of_ne_nil hleft
    have hbound : (toGo t vs k).length ≤ k :=
      (List.length_filter_le _ _).trans (List.length_take_le _ _)
    change _ = (cs.map fun d => (given d).length).sum + _ at hgoes
    omega
  have hall : (s.cRunqueue c).length + s.load cs ≤ cs.length * s.share + s.share := by
    rw [← s.load_eq c, ← Nat.succ_mul, Nat.succ_eq_add_one, hlen]
    exact le_mul_oneShare _ (Fin.pos c)
  omega

theorem Spread.migrated {given : Fin n → List Thread} {vs : List Thread} {k k' : Nat}
    (hs : Spread t c s.share s.cRunqueue given (List.finRange n)
      ((s.cRunqueue c).drop s.share) k vs k')
    (hk : (s.cRunqueue c).length = s.share + k) (hnodup : (s.cRunqueue c).Nodup)
    (hown : s'.cRunqueue c = (s.cRunqueue c).take s.share ++ vs)
    (hothers : ∀ d, d ≠ c → s'.cRunqueue d = s.cRunqueue d ++ given d) :
    Migrated t c s s' given := by
  have hgone := hs.gone hk
  refine ⟨?_, hothers, ?_, ?_⟩
  · rw [hown, hs.left_eq (hnodup.sublist (List.drop_sublist ..)) hgone]
  · intro d hd hgiven
    rw [hothers d hd]
    exact hs.fair d hgiven
  · have hgoes := hs.goes
    rw [hgone, List.append_nil] at hgoes
    rw [← hgoes, toGo, List.take_of_length_le]
    rw [List.length_drop]
    omega

theorem yields_threadConsiderMigration (ha : Alone t c none s) (hnodup : (s.cRunqueue c).Nodup) :
    Yields t threadConsiderMigration s fun _ s' =>
      Alone t c none s' ∧ ∃ given, Migrated t c s s' given := by
  unfold threadConsiderMigration
  refine .bind (yields_countThreads _ 0 0 s ha) ?_
  rintro _ s1 ⟨ha1, hq1, rfl⟩
  rw [if_pos (List.mem_finRange c), Nat.zero_add]
  refine .ite (fun hless => ?_) fun hmore => ?_
  · have hle : (s.cRunqueue c).length ≤ s.share := Nat.le_of_lt hless
    refine .pure ⟨ha1, fun _ => [], ⟨?_, ?_, ?_, ?_⟩⟩
    · rw [hq1, List.take_of_length_le hle, List.drop_of_length_le hle]
      simp
    · simp [hq1]
    · simp
    · rw [List.drop_of_length_le hle]
      simp
  · have hge : s.share ≤ (s.cRunqueue c).length := Nat.le_of_not_lt hmore
    obtain ⟨k, hk⟩ := Nat.exists_eq_add_of_le hge
    have hsub : (s.cRunqueue c).length - oneShare (s.load (List.finRange n)) n = k := by
      rw [hk]
      exact Nat.add_sub_cancel_left ..
    rw [hsub]
    refine yields_look ha1 (.bind (yields_acquire ha1) fun _ s2 h2 => ?_)
    have hq2 : s2.cRunqueue = s.cRunqueue := h2.2.trans hq1
    refine .bind (yields_takeVictims k [] s2 h2.1 (by rw [hq2]; omega)) ?_
    rintro _ s3 ⟨ha3, rfl, hq3⟩
    rw [hq2, show (s.cRunqueue c).length - k = s.share by omega] at hq3 ⊢
    rw [List.append_nil]
    refine .bind (yields_release ha3) fun _ s4 h4 => ?_
    have ho : Owing t ((s.cRunqueue c).drop s.share) k :=
      ⟨hnodup.sublist (List.drop_sublist ..), .inl (by rw [List.length_drop]; omega)⟩
    refine .bind (yields_spreadVictims _ _ k s4 (List.nodup_finRange n) h4.1 ho) ?_
    rintro vs s5 ⟨ha5, given, k', hs, hq5⟩
    have hq4 : s4.cRunqueue = Function.update s.cRunqueue c ((s.cRunqueue c).take s.share) :=
      h4.2.trans hq3
    have hs : Spread t c s.share s.cRunqueue given (List.finRange n) _ k vs k' :=
      hs.congr fun d hd => by rw [hq4, Function.update_of_ne hd]
    have hnone : given c = [] := by
      by_contra hsome
      exact (hs.others c hsome).2 rfl
    have hmigrated : ∀ s6 : Sched n,
        s6.cRunqueue = Function.update s5.cRunqueue c (s5.cRunqueue c ++ vs) →
        Migrated t c s s6 given := by
      intro s6 hq6
      refine hs.migrated hk hnodup ?_ fun d hd => ?_
      · rw [hq6, Function.update_self, hq5, hq4, Function.update_self, hnone, List.append_nil]
      · rw [hq6, Function.update_of_ne hd, hq5, hq4, Function.update_of_ne hd]
    refine .ite (fun hvs => .pure ⟨ha5, given, hmigrated s5 (by simp [hvs])⟩) fun _ => ?_
    refine .bind (yields_acquire ha5) fun _ s6 h6 => .bind (yields_putBack vs s6 h6.1) ?_
    intro _ s7 h7
    refine (yields_release h7.1).mono fun _ s8 h8 => ⟨h8.1, given, hmigrated s8 ?_⟩
    rw [h8.2, h7.2, h6.2]

/-- From every reachable state in which no run queue is locked, migration comes to an end and
leaves the processor its share; the rest goes to the others, none of which gets more than its
own. -/
theorem migration_balances {m : Machine n} (hm : (machine n).Reachable m)
    (hcur : m.sched.cCurthread c = t)
    (hfree : ∀ d, m.sched.splkHolder (.runqueue d) = none ∧ m.sched.splkHolder (.ipi d) = none) :
    ∃ s' given, threadConsiderMigration.run t m.sched = .ok ((), s') ∧
      Migrated t c m.sched s' given := by
  obtain ⟨g, hi⟩ := (manned_of_reachable hm).inv
  have ha : Alone t c none m.sched := by
    refine ⟨hi.processor_iff.mpr hcur, fun d => ?_, fun d => (hfree d).2⟩
    rw [(hfree d).1, if_neg (by simp)]
  obtain ⟨_, s', hrun, -, given, hmigrated⟩ :=
    yields_threadConsiderMigration ha (hi.orderly.once (.queue c))
  exact ⟨s', given, hrun, hmigrated⟩

/-- The first thread of two processors forks four others. -/
def forkRun : List (Event 2) :=
  let fork : Event 2 := .call ⟨0, Nat.zero_lt_two⟩ 0 (.fork true (some 0))
  [.act 0, .act 1] ++ (List.replicate 4 (fork :: List.replicate 15 (.act 0))).flatten

theorem migration_balances_forks : ∃ m s', Machine.play 2 3 forkRun = some m ∧
    m.sched.cRunqueue 0 = [2, 3, 4, 5] ∧
    threadConsiderMigration.run 0 m.sched = .ok ((), s') ∧
    s'.cRunqueue 0 = [2, 3] ∧ s'.cRunqueue 1 = [4, 5] := by
  obtain ⟨m, hm, hcur, hqueue, hqueue', hfree⟩ : ∃ m, Machine.play 2 3 forkRun = some m ∧
      m.sched.cCurthread 0 = 0 ∧ m.sched.cRunqueue 0 = [2, 3, 4, 5] ∧ m.sched.cRunqueue 1 = [] ∧
        ∀ d, m.sched.splkHolder (.runqueue d) = none ∧ m.sched.splkHolder (.ipi d) = none := by
    simpa using Option.map_eq_some_iff.mp (show (Machine.play 2 3 forkRun).map
      (fun m => (m.sched.cCurthread 0, m.sched.cRunqueue 0, m.sched.cRunqueue 1,
        decide (∀ d, m.sched.splkHolder (.runqueue d) = none ∧
          m.sched.splkHolder (.ipi d) = none))) =
        some (0, [2, 3, 4, 5], [], true) by decide +kernel)
  obtain ⟨s', given, hrun, hkept, hreceived, -, hgone⟩ :=
    migration_balances (Machine.reachable_of_play hm) hcur hfree
  have hcpus : List.finRange 2 = [0, 1] := rfl
  have hshare : m.sched.share = 2 := by
    simp [Sched.share, Sched.load, oneShare, hcpus, hqueue, hqueue']
  refine ⟨m, s', hm, hqueue, hrun, ?_, ?_⟩
  · rw [hkept, hshare, hqueue]
    rfl
  · rw [hcpus, hshare, hqueue] at hgone
    rw [hreceived 1 (by decide), hqueue', List.nil_append]
    simpa using hgone

end Os161Paging.Threads
