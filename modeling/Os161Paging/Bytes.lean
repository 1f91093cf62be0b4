import Mathlib.Algebra.Group.Nat.Defs

/-!
# Bytes in memory

A memory is a function from addresses to bytes. `write` stores a list of
bytes from an address on; `Holds` says that they are there. A write is read
back, and does not disturb what is held elsewhere. A 32-bit word is four
bytes, the most significant one first.
-/

namespace Os161Paging.Bytes

variable {m : Nat → UInt8} {a d x w : Nat} {bs cs : List UInt8}

/-- The bytes `bs` are stored at `d`. -/
def write (m : Nat → UInt8) (d : Nat) (bs : List UInt8) : Nat → UInt8 :=
  fun x => if d ≤ x then bs[x - d]?.getD (m x) else m x

/-- The bytes `bs` are found at `a`. -/
def Holds (m : Nat → UInt8) (a : Nat) (bs : List UInt8) : Prop :=
  ∀ k b, bs[k]? = some b → m (a + k) = b

theorem write_of_disjoint (h : x < d ∨ d + bs.length ≤ x) : write m d bs x = m x := by
  unfold write
  split
  · rw [List.getElem?_eq_none (by omega), Option.getD_none]
  · rfl

theorem holds_write : Holds (write m d bs) d bs := by
  intro k b hk
  rw [write, if_pos (Nat.le_add_right d k), Nat.add_sub_cancel_left, hk, Option.getD_some]

theorem Holds.congr {m' : Nat → UInt8} (h : Holds m a bs)
    (heq : ∀ x, a ≤ x → x < a + bs.length → m' x = m x) : Holds m' a bs := by
  intro k b hk
  have hlt := (List.getElem?_eq_some_iff.mp hk).1
  rw [heq (a + k) (Nat.le_add_right a k) (by omega)]
  exact h k b hk

/-- What is held at or above an address is still there after a write that ends below it. -/
theorem Holds.write_below (h : Holds m a cs) (hle : d + bs.length ≤ a) :
    Holds (write m d bs) a cs :=
  h.congr fun _ hx _ => write_of_disjoint (.inr (Nat.le_trans hle hx))

/-! ## Words -/

def wordBytes (w : Nat) : List UInt8 :=
  [.ofNat (w / 2 ^ 24), .ofNat (w / 2 ^ 16), .ofNat (w / 2 ^ 8), .ofNat w]

def word (m : Nat → UInt8) (a : Nat) : Nat :=
  (m a).toNat * 2 ^ 24 + (m (a + 1)).toNat * 2 ^ 16 + (m (a + 2)).toNat * 2 ^ 8 + (m (a + 3)).toNat

theorem length_wordBytes : (wordBytes w).length = 4 := rfl

theorem Holds.word_eq (h : Holds m a (wordBytes w)) (hw : w < 2 ^ 32) : word m a = w := by
  have h0 : m a = .ofNat (w / 2 ^ 24) := h 0 _ rfl
  have h1 : m (a + 1) = .ofNat (w / 2 ^ 16) := h 1 _ rfl
  have h2 : m (a + 2) = .ofNat (w / 2 ^ 8) := h 2 _ rfl
  have h3 : m (a + 3) = .ofNat w := h 3 _ rfl
  rw [word, h0, h1, h2, h3]
  simp only [UInt8.toNat_ofNat']
  omega

end Os161Paging.Bytes
