import Os161Paging.Blocks
import Os161Paging.Circular
import Os161Paging.LoadElf

/-!
# The search for a victim

`getPage` looks for a frame to take away with a loop that only a frame of
the requesting address space ends. Whether there is one depends on the
history of the coremap, which the books of `Blocks` record: the loop ends
exactly if an earlier request of the same address space was served from a
free frame.
-/

namespace Os161Paging

open Prog

namespace Blocks

variable {t : Tid} {s s' : Sys} {c c' : Config} {a : AsId}

/-! ## The loop -/

/-- Entry `i` exists and is a frame `a` may lose. -/
def evictableAt (cm : List CEntry) (a : AsId) (i : Nat) : Bool := cm[i]?.any (·.evictable a)

theorem evictableAt_iff {cm : List CEntry} {i : Nat} :
    evictableAt cm a i = true ↔ ∃ e, cm[i]? = some e ∧ e.evictable a = true := by
  cases h : cm[i]? <;> simp [evictableAt, h]

theorem evictableAt_lt {cm : List CEntry} {i : Nat} (h : evictableAt cm a i = true) :
    i < cm.length := by
  obtain ⟨e, he, -⟩ := evictableAt_iff.mp h
  exact (List.getElem?_eq_some_iff.mp he).1

/-- The loop finds the first frame of `a` from the cursor on, in as many rounds as there
are entries up to it. -/
theorem victimLoop_of_first {cm : List CEntry} {next k : Nat} (fuel : Nat) (hn : next < cm.length)
    (h : FirstFrom cm.length next (evictableAt cm a) k) :
    victimLoop cm a fuel next =
      if k < fuel then
        some ((next + k) % cm.length, ((next + k) % cm.length + 1) % cm.length)
      else none := by
  induction fuel generalizing next k with
  | zero => rfl
  | succ fuel ih =>
      have hget : cm[next]? = some cm[next] := List.getElem?_eq_getElem hn
      have hself : next % cm.length = next := Nat.mod_eq_of_lt hn
      rw [victimLoop]
      simp only [hget]
      cases k with
      | zero =>
          have he : cm[next].evictable a = true := by simpa [evictableAt, hself, hget] using h.here
          rw [if_pos he, if_pos (Nat.succ_pos fuel)]
          simp only [Nat.add_zero, hself]
      | succ k =>
          have he : ¬ cm[next].evictable a = true := by
            simpa [evictableAt, hself, hget] using h.before 0 (Nat.succ_pos k)
          -- the rounds after the first one start at the next entry
          rw [if_neg he, ih (Nat.mod_lt _ (by omega)) h.tail, Nat.mod_add_mod, Nat.add_assoc,
            Nat.add_comm 1 k]
          simp only [Nat.succ_lt_succ_iff]

/-- Once around the array is enough. -/
theorem victimLoop_ends_iff {cm : List CEntry} {next : Nat} (hn : next < cm.length) :
    victimLoop cm a cm.length next ≠ none ↔ ∃ e ∈ cm, e.evictable a = true := by
  constructor
  · intro h
    obtain ⟨⟨i, next'⟩, hi⟩ := Option.ne_none_iff_exists'.mp h
    obtain ⟨e, he, hev⟩ := victimLoop_evictable hi
    exact ⟨e, List.mem_of_getElem? he, hev⟩
  · rintro ⟨e, he, hev⟩
    obtain ⟨i, hi⟩ := List.mem_iff_getElem?.mp he
    have hat : evictableAt cm a i = true := evictableAt_iff.mpr ⟨e, hi, hev⟩
    obtain ⟨k, hk⟩ := exists_firstFrom (p := (evictableAt cm a)) next (evictableAt_lt hat) hat
    rw [victimLoop_of_first _ hn hk, if_pos hk.lt]
    exact Option.some_ne_none _

/-! ## Taking turns -/

/-- Victims chosen one after the other by calls `getPages(1, vaddr, as)` that find the coremap
full. What happens between two calls leaves the coremap and the cursor as they are. -/
inductive Evictions (a : AsId) : Sys → List Nat → Prop where
  | nil {s : Sys} : Evictions a s []
  | cons {t : Tid} {s s1 s2 : Sys} {vaddr p i next : Nat} {is : List Nat}
      (hfull : firstFree s.coremap = none) (hact : s.coremapActive = true)
      (hget : (getPages 1 vaddr (some a)).run t s = .ok (p, s1))
      (hvictim : victimLoop s.coremap a s.coremapSize s.nextSvic = some (i, next))
      (hcm : s2.coremap = s1.coremap) (hcursor : s2.nextSvic = s1.nextSvic)
      (h : Evictions a s2 is) : Evictions a s (i :: is)

/-- The victims are the frames ahead of the cursor, in their order. -/
theorem Evictions.eq_take {is : List Nat} (h : Evictions a s is) (hn : s.nextSvic < s.coremapSize)
    (hlen : is.length ≤
      (queue s.coremapSize s.nextSvic (evictableAt s.coremap a)).length) :
    is = (queue s.coremapSize s.nextSvic (evictableAt s.coremap a)).take is.length := by
  induction h with
  | nil => rfl
  | @cons t s s1 s2 vaddr p i next is hfull hact hget hvictim hcm hcursor h ih =>
      obtain ⟨e, he, hev⟩ := victimLoop_evictable hvictim
      have hat : evictableAt s.coremap a i = true := evictableAt_iff.mpr ⟨e, he, hev⟩
      obtain ⟨k, hk⟩ := exists_firstFrom (p := (evictableAt s.coremap a)) s.nextSvic
        (evictableAt_lt hat) hat
      obtain ⟨hsame, j, hj, -⟩ := getPages_evicts hfull hact hget
      rw [Sys.coremapSize, victimLoop_of_first _ hn hk, if_pos hk.lt] at hvictim hj
      have hi : (s.nextSvic + k) % s.coremapSize = i :=
        congrArg Prod.fst (Option.some.inj hvictim)
      have hnext : (i + 1) % s.coremapSize = s1.nextSvic :=
        hi ▸ congrArg Prod.snd (Option.some.inj hj)
      have hcm' : s2.coremap = s.coremap := hcm.trans hsame.coremap
      have hsize : s2.coremapSize = s.coremapSize := congrArg List.length hcm'
      -- the head of the queue is the victim, and the next call finds it at the end
      obtain ⟨rest, hqueue, hturn⟩ := FirstFrom.queue_eq (n := s.coremapSize) hk
      rw [hi, hnext] at hturn
      rw [hi] at hqueue
      rw [hsize, hcm', hcursor, hturn] at ih
      rw [hqueue] at hlen ⊢
      have hle : is.length ≤ rest.length := by simpa using hlen
      rw [List.length_cons, List.take_succ_cons]
      congr 1
      refine (ih ?_ ?_).trans (List.take_append_of_le_length hle)
      · exact hnext ▸ Nat.mod_lt _ (by omega)
      · rw [List.length_append]
        omega

theorem length_queue_evictable {cm : List CEntry} {c : Nat} :
    (queue cm.length c (evictableAt cm a)).length = cm.countP (·.evictable a) := by
  have hmap : (List.range cm.length).map (cm[·]?) = cm.map some := by
    refine List.ext_getElem? fun i => ?_
    by_cases hi : i < cm.length
    · simp [hi]
    · simp [hi]
  calc (queue cm.length c (evictableAt cm a)).length
      = (List.range cm.length).countP fun i => cm[i]?.any (·.evictable a) := by
        rw [length_queue]
        rfl
    _ = ((List.range cm.length).map (cm[·]?)).countP (·.any (·.evictable a)) := by
        rw [List.countP_map]
        rfl
    _ = cm.countP (·.evictable a) := by
        rw [hmap, List.countP_map]
        rfl

/-- **The search for a victim goes round.** Within one turn of the cursor it ends at the first
frame from there on that is not reserved and owned by the address space, and leaves the
cursor one past it. So as many evictions in a row as the address space has such frames
choose each of them once. -/
theorem victim_round_robin (hn : s.nextSvic < s.coremapSize)
    (hown : ∃ e ∈ s.coremap, e.reserved = false ∧ e.as = some a) :
    (∃ k i, k < s.coremapSize ∧ i = (s.nextSvic + k) % s.coremapSize ∧
        evictableAt s.coremap a i = true ∧
        (∀ m < k, evictableAt s.coremap a ((s.nextSvic + m) % s.coremapSize) = false) ∧
        (∀ fuel, victimLoop s.coremap a fuel s.nextSvic =
          if k < fuel then some (i, (i + 1) % s.coremapSize) else none) ∧
        ∀ t, (findVictim a).run t s = .ok (i, { s with nextSvic := (i + 1) % s.coremapSize })) ∧
      ∀ is, Evictions a s is → is.length = s.coremap.countP (·.evictable a) →
        is.Nodup ∧ ∀ i, i ∈ is ↔ evictableAt s.coremap a i = true := by
  constructor
  · obtain ⟨e, he, hres, has⟩ := hown
    obtain ⟨j, hj⟩ := List.mem_iff_getElem?.mp he
    have hat : evictableAt s.coremap a j = true :=
      evictableAt_iff.mpr ⟨e, hj, by simp [CEntry.evictable, hres, has]⟩
    obtain ⟨k, hk⟩ := exists_firstFrom (n := s.coremapSize) (p := (evictableAt s.coremap a))
      s.nextSvic (evictableAt_lt hat) hat
    have hloop := fun fuel => victimLoop_of_first fuel hn hk
    refine ⟨k, _, hk.lt, rfl, hk.here, hk.before, hloop, fun t => ?_⟩
    exact findVictim_eq_ok.mpr ⟨_, (hloop _).trans (if_pos hk.lt), rfl⟩
  · intro is his hlen
    have hlen' := hlen.trans (length_queue_evictable (c := s.nextSvic)).symm
    have heq := his.eq_take hn hlen'.le
    rw [hlen', Sys.coremapSize, List.take_length] at heq
    rw [heq]
    refine ⟨nodup_queue, fun i => mem_queue.trans (and_iff_right_of_imp evictableAt_lt)⟩

/-- A program has touched two pages when the frames run out. -/
def packed : VM Unit := do
  let _ ← asCreate (some 0) (some ⟨0x3000, fun _ => 0⟩)
  Prog.modify fun s => { s with cur := some 0 }
  asActivate
  let _ ← loadElf 0 linked
  let _ ← allocKpages 3
  let _ ← vmFault .read 0x400000
  let _ ← vmFault .write (userStack - pageSize)

/-- The next two evictions choose its two frames, each once. -/
theorem packed_takes_turns :
    ∃ s is, packed.run (.proc 0) sixFrames.sys = .ok ((), s) ∧ Evictions 0 s is ∧ is.length = 2 ∧
      is.Nodup ∧ ∀ i, i ∈ is ↔ evictableAt s.coremap 0 i = true := by
  have hsat : (packed.run (.proc 0) sixFrames.sys).Sat fun r =>
      (r.2.nextSvic < r.2.coremapSize ∧ (∃ e ∈ r.2.coremap, e.reserved = false ∧ e.as = some 0) ∧
        r.2.coremap.countP (·.evictable 0) = 2 ∧ firstFree r.2.coremap = none ∧
        r.2.coremapActive = true) ∧
      ((getPages 1 0x401000 (some 0)).run (.proc 0) r.2).Sat fun r1 =>
        (firstFree r1.2.coremap = none ∧ r1.2.coremapActive = true) ∧
        ((getPages 1 0x402000 (some 0)).run (.proc 0) r1.2).Sat fun _ => True := by
    decide +kernel
  obtain ⟨⟨_, s⟩, hrun, ⟨hn, hown, hcount, hfull, hact⟩, ⟨p, s1⟩, hget, ⟨hfull1, hact1⟩, ⟨p1, s2⟩,
    hget1, -⟩ := hsat
  obtain ⟨-, i, hi, -⟩ := getPages_evicts hfull hact hget
  obtain ⟨-, i1, hi1, -⟩ := getPages_evicts hfull1 hact1 hget1
  have hev : Evictions 0 s [i, i1] :=
    .cons hfull hact hget hi rfl rfl (.cons hfull1 hact1 hget1 hi1 rfl rfl (@Evictions.nil 0 s2))
  exact ⟨s, [i, i1], hrun, hev, rfl, (victim_round_robin hn hown).2 _ hev hcount.symm⟩

/-! ## What the books say about it -/

/-- Every entry with an owner is in the books, and may be taken away from it. -/
structure Owned (c : Config) : Prop where
  entry : ∀ (i : Nat) (e : CEntry) (a : AsId), c.sys.coremap[i]? = some e → e.as = some a →
    e.reserved = false ∧ ∃ f ∈ c.frames, f.as = a
  cursor : c.sys.coremapSize ≠ 0 → c.sys.nextSvic < c.sys.coremapSize

theorem Owned.addBlock {i n : Nat} (ho : Owned c) (h : Takes c.sys s' i n none) {b : Block} :
    Owned (c.addBlock b s') where
  entry k e a he hea := by
    by_cases hk : i ≤ k ∧ k < i + n
    · obtain ⟨e', he', -, has, -⟩ := h.taken k hk.1 hk.2
      obtain rfl := Option.some.inj (he.symm.trans he')
      rw [has] at hea
      cases hea
    · exact ho.entry k e a ((h.rest k hk).symm.trans he) hea
  cursor := by
    change s'.coremapSize ≠ 0 → s'.nextSvic < s'.coremapSize
    rw [h.size, h.cursor]
    exact ho.cursor

theorem Owned.addFrame {i p : Nat} (ho : Owned c) (h : Takes c.sys s' i 1 (some a)) :
    Owned (c.addFrame ⟨p, a⟩ s') where
  entry k e b he hea := by
    by_cases hk : i ≤ k ∧ k < i + 1
    · obtain ⟨e', he', -, has, hr⟩ := h.taken k hk.1 hk.2
      obtain rfl := Option.some.inj (he.symm.trans he')
      obtain rfl := Option.some.inj (has.symm.trans hea)
      exact ⟨hr nofun, _, List.mem_cons_self .., rfl⟩
    · obtain ⟨hr, f, hf, hfa⟩ := ho.entry k e b ((h.rest k hk).symm.trans he) hea
      exact ⟨hr, f, List.mem_cons_of_mem _ hf, hfa⟩
  cursor := by
    change s'.coremapSize ≠ 0 → s'.nextSvic < s'.coremapSize
    rw [h.size, h.cursor]
    exact ho.cursor

theorem Owned.dropFrames (ho : Owned c) (h : (freeAs a).run t c.sys = .ok ((), s')) :
    Owned (c.dropFrames a s') := by
  obtain ⟨-, rfl⟩ := freeAs_eq_ok.mp h
  refine ⟨fun k e b he hea => ?_, ?_⟩
  · obtain ⟨e', he', hee⟩ := Option.map_eq_some_iff.mp ((List.getElem?_map ..).symm.trans he)
    by_cases hea' : e'.as = some a
    · rw [if_pos hea'] at hee
      subst hee
      cases hea
    · rw [if_neg hea'] at hee
      subst hee
      obtain ⟨hr, f, hf, hfa⟩ := ho.entry k e' b he' hea
      refine ⟨hr, f, List.mem_filter.mpr ⟨hf, ?_⟩, hfa⟩
      have hne : f.as ≠ a := by
        rintro rfl
        exact hea' (hfa ▸ hea)
      simpa using hne
  · change (List.map _ _).length ≠ 0 → _ < (List.map _ _).length
    rw [List.length_map]
    exact ho.cursor

theorem Owned.dropBlock {b : Block} (ho : Owned c) (hi : Inv c) (hb : b ∈ c.blocks)
    (h : (freepages b.paddr).run t c.sys = .ok ((), s')) : Owned (c.dropBlock b s') := by
  obtain rfl := hi.freepages_eq_ok hb h
  obtain ⟨hin, hout⟩ := hi.empties hb
  refine ⟨fun k e a he hea => ?_, ?_⟩
  · by_cases hk : k ∈ b.entries c.sys
    · obtain ⟨e', he', -, hnone⟩ := hin k hk
      obtain rfl := Option.some.inj (he.symm.trans he')
      rw [hnone] at hea
      cases hea
    · exact ho.entry k e a ((hout k hk).symm.trans he) hea
  · have hsize : (c.sys.emptyRun (entryOf c.sys b.paddr) b.npages).coremapSize =
        c.sys.coremapSize := emptyRun_size
    change (c.sys.emptyRun _ _).coremapSize ≠ 0 → _ < (c.sys.emptyRun _ _).coremapSize
    rw [hsize]
    exact ho.cursor

theorem Owned.of_sameCoremap (ho : Owned c) (h : SameCoremap c.sys s')
    (hv : s'.nextSvic = c.sys.nextSvic ∨ s'.nextSvic < c.sys.coremapSize) :
    Owned { c with sys := s' } where
  entry k e a he := ho.entry k e a (h.coremap ▸ he)
  cursor hne := by
    have hsize : s'.coremapSize = c.sys.coremapSize := congrArg List.length h.coremap
    rw [hsize] at hne ⊢
    rcases hv with hv | hv
    · rw [hv]
      exact ho.cursor hne
    · exact hv

theorem owned_of_reachable (h : system.Reachable c) : Inv c ∧ Owned c := by
  refine h.invariant (I := fun c => Inv c ∧ Owned c) (fun c hc => ⟨inv_of_start hc, ?_⟩) ?_
  · obtain ⟨-, hzero, hnext, -⟩ := hc
    refine ⟨fun i e a he hea => ?_, fun hne => ?_⟩
    · rw [hzero] at he
      rw [List.eq_of_mem_replicate (List.mem_of_getElem? he)] at hea
      cases hea
    · rw [hnext]
      exact Nat.pos_of_ne_zero hne
  · rintro c c' ⟨hi, ho⟩ hs
    have hch := step_change hi.geometry.active hs
    refine ⟨hi.step hch, ?_⟩
    cases hch with
    | block h => exact ho.addBlock h
    | frame h => exact ho.addFrame h
    | freeAs h => exact ho.dropFrames h
    | freepages hb h => exact ho.dropBlock hi hb h
    | elsewhere h hv => exact ho.of_sameCoremap h hv

/-- **The victim search ends exactly if the address space was given a frame before**: an
earlier `getPages(1, vaddr, as)` found a free one, and `freeAs` has not been called since.
That is also when an entry that is not reserved is owned by it. -/
theorem victim_search_ends_iff (h : system.Reachable c) :
    ((findVictim a).run t c.sys ≠ .hang ↔ ∃ f ∈ c.frames, f.as = a) ∧
      ((∃ e ∈ c.sys.coremap, e.reserved = false ∧ e.as = some a) ↔ ∃ f ∈ c.frames, f.as = a) := by
  obtain ⟨hi, ho⟩ := owned_of_reachable h
  have hown : (∃ e ∈ c.sys.coremap, e.reserved = false ∧ e.as = some a) ↔
      ∃ f ∈ c.frames, f.as = a := by
    constructor
    · rintro ⟨e, he, -, hea⟩
      obtain ⟨i, hi⟩ := List.mem_iff_getElem?.mp he
      exact (ho.entry i e a hi hea).2
    · rintro ⟨f, hf, rfl⟩
      obtain ⟨e, he, -, hea⟩ := hi.frame f hf
      exact ⟨e, List.mem_of_getElem? he, (ho.entry _ e _ he hea).1, hea⟩
  have hrun : (findVictim a).run t c.sys ≠ .hang ↔
      victimLoop c.sys.coremap a c.sys.coremapSize c.sys.nextSvic ≠ none := by
    rw [findVictim, run_exec]
    cases victimLoop c.sys.coremap a c.sys.coremapSize c.sys.nextSvic <;> simp
  refine ⟨?_, hown⟩
  rw [hrun, ← hown]
  by_cases hz : c.sys.coremapSize = 0
  · have hnil : c.sys.coremap = [] := List.length_eq_zero_iff.mp hz
    simp [hz, hnil, victimLoop]
  · rw [Sys.coremapSize, victimLoop_ends_iff (ho.cursor hz)]
    simp [CEntry.evictable]

/-- The address space 0 has a page when the calls of `afterCalls` have been made. -/
theorem afterCalls_search_ends : (findVictim 0).run (.proc 0) afterCalls.sys ≠ .hang :=
  (victim_search_ends_iff afterCalls_reachable).1.mpr ⟨⟨0x4000, 0⟩, by decide +kernel, rfl⟩

/-! ## A first fault without a free frame -/

/-- A process is started, and before it touches its first page the kernel takes the
frames that are left. -/
def crowd : VM Unit := do
  let _ ← asCreate (some 0) (some ⟨0x3000, fun _ => 0⟩)
  Prog.modify fun s => { s with cur := some 0 }
  asActivate
  let _ ← loadElf 0 linked
  let _ ← allocKpages 3
  let _ ← allocKpages 2

def hangs {α : Type} : Outcome Lock α → Bool
  | .hang => true
  | _ => false

/-- Its first page fault never returns. -/
theorem crowd_first_fault_hangs :
    ∃ s, crowd.run (.proc 0) sixFrames.sys = .ok ((), s) ∧ firstFree s.coremap = none ∧
      (vmFault .read 0x400000).run (.proc 0) s = .hang := by
  have hsat : (crowd.run (.proc 0) sixFrames.sys).Sat fun r => firstFree r.2.coremap = none ∧
      hangs ((vmFault .read 0x400000).run (.proc 0) r.2) = true := by decide +kernel
  obtain ⟨⟨_, s⟩, hrun, hfull, hhang⟩ := hsat
  refine ⟨s, hrun, hfull, ?_⟩
  cases h : (vmFault .read 0x400000).run (.proc 0) s with
  | hang => rfl
  | _ =>
      rw [h] at hhang
      cases hhang

end Blocks

end Os161Paging
