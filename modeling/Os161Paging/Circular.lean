import Mathlib.Data.List.Rotate
import Mathlib.Data.Nat.Find
import Mathlib.Data.Nat.ModEq

/-!
# Searching around a circle

The mathematics of a round-robin search. The indices below `n` stand on a
circle, and a search goes around it from a cursor `c` to the first index
with a property. Where the next search starts behind the index that was
found, the property's holders take turns: the list of those ahead of the
cursor is a queue whose head goes to its end.
-/

namespace Os161Paging

variable {n c k i : Nat} {p : Nat → Bool}

/-- From the cursor `c` on it takes `k` steps to the first index with the property. -/
structure FirstFrom (n c : Nat) (p : Nat → Bool) (k : Nat) : Prop where
  lt : k < n
  here : p ((c + k) % n) = true
  before : ∀ m < k, p ((c + m) % n) = false

theorem exists_ahead (c : Nat) (hi : i < n) : ∃ k < n, (c + k) % n = i := by
  refine ⟨(i + (n - c % n)) % n, Nat.mod_lt _ (by omega), ?_⟩
  have hc : c % n < n := Nat.mod_lt _ (by omega)
  calc (c + (i + (n - c % n)) % n) % n = (c % n + (i + (n - c % n))) % n := by
        rw [Nat.add_mod_mod, Nat.mod_add_mod]
    _ = (i + n) % n := by congr 1; omega
    _ = i := by rw [Nat.add_mod_right, Nat.mod_eq_of_lt hi]

/-- A search for something that exists ends within one turn. -/
theorem exists_firstFrom (c : Nat) (hi : i < n) (hp : p i = true) : ∃ k, FirstFrom n c p k := by
  obtain ⟨k, hk, rfl⟩ := exists_ahead c hi
  have hex : ∃ k, p ((c + k) % n) = true := ⟨k, hp⟩
  exact ⟨Nat.find hex, (Nat.find_min' hex hp).trans_lt hk, Nat.find_spec hex,
    fun m hm => by simpa using Nat.find_min hex hm⟩

/-- After one step in vain the rest of the search is one step shorter. -/
theorem FirstFrom.tail (h : FirstFrom n c p (k + 1)) : FirstFrom n ((c + 1) % n) p k := by
  have hshift : ∀ m, ((c + 1) % n + m) % n = (c + (m + 1)) % n := by
    intro m
    rw [Nat.mod_add_mod, Nat.add_assoc, Nat.add_comm 1 m]
  have hlt := h.lt
  exact ⟨by omega, hshift k ▸ h.here, fun m hm => hshift m ▸ h.before (m + 1) (by omega)⟩

/-! ## Taking turns -/

def around (n c : Nat) : List Nat := (List.range n).map fun k => (c + k) % n

theorem length_around : (around n c).length = n := by simp [around]

theorem getElem_around (h : k < (around n c).length) : (around n c)[k] = (c + k) % n := by
  simp [around]

theorem mem_around : i ∈ around n c ↔ i < n := by
  rw [around, List.mem_map]
  constructor
  · rintro ⟨k, hk, rfl⟩
    exact Nat.mod_lt _ (Nat.zero_lt_of_lt (List.mem_range.mp hk))
  · intro hi
    obtain ⟨k, hk, hki⟩ := exists_ahead c hi
    exact ⟨k, List.mem_range.mpr hk, hki⟩

theorem nodup_around : (around n c).Nodup := by
  refine List.Nodup.map_on (fun k hk m hm hkm => ?_) List.nodup_range
  have hmod : k ≡ m [MOD n] := Nat.ModEq.add_left_cancel' c hkm
  exact hmod.eq_of_lt_of_lt (List.mem_range.mp hk) (List.mem_range.mp hm)

/-- Moving the cursor rotates the circle. -/
theorem around_add : around n ((c + k) % n) = (around n c).rotate k := by
  refine List.ext_getElem (by simp [length_around]) fun m hm hm' => ?_
  rw [getElem_around, List.getElem_rotate, getElem_around]
  simp only [length_around]
  rw [Nat.mod_add_mod, Nat.add_mod_mod, Nat.add_assoc, Nat.add_comm k m]

/-- The indices with the property, in the order in which searches find them. -/
def queue (n c : Nat) (p : Nat → Bool) : List Nat := (around n c).filter p

theorem mem_queue : i ∈ queue n c p ↔ i < n ∧ p i = true := by
  simp [queue, mem_around]

theorem nodup_queue : (queue n c p).Nodup := nodup_around.filter _

/-- Where the cursor is does not change how many wait. -/
theorem length_queue : (queue n c p).length = (List.range n).countP p := by
  rw [List.countP_eq_length_filter]
  refine List.Perm.length_eq ((List.perm_ext_iff_of_nodup nodup_queue
    (List.nodup_range.filter _)).mpr fun i => ?_)
  simp [mem_queue]

/-- **A search finds the head of the queue, and sends it to the end.** -/
theorem FirstFrom.queue_eq (h : FirstFrom n c p k) :
    ∃ rest, queue n c p = (c + k) % n :: rest ∧
      queue n (((c + k) % n + 1) % n) p = rest ++ [(c + k) % n] := by
  have hlen : k < (around n c).length := by rw [length_around]; exact h.lt
  -- the circle cut where the search ends
  have hcut : around n c =
      (around n c).take k ++ ((c + k) % n :: (around n c).drop (k + 1)) := by
    rw [← getElem_around hlen, List.cons_getElem_drop_succ, List.take_append_drop]
  have hvain : ((around n c).take k).filter p = [] := by
    rw [List.filter_eq_nil_iff]
    intro x hx
    obtain ⟨m, hm, rfl⟩ := List.mem_take_iff_getElem.mp hx
    rw [getElem_around]
    simp [h.before m (by omega)]
  refine ⟨((around n c).drop (k + 1)).filter p, ?_, ?_⟩
  · calc queue n c p
        = ((around n c).take k ++ ((c + k) % n :: (around n c).drop (k + 1))).filter p :=
          congrArg _ hcut
      _ = _ := by simp [hvain, h.here]
  · have hturn : around n (((c + k) % n + 1) % n) =
        (around n c).drop (k + 1) ++ (around n c).take (k + 1) := by
      rw [Nat.mod_add_mod, Nat.add_assoc, around_add,
        List.rotate_eq_drop_append_take (by omega)]
    rw [queue, hturn, List.filter_append, List.take_succ_eq_append_getElem hlen, List.filter_append,
      hvain, getElem_around]
    simp [h.here]

end Os161Paging
