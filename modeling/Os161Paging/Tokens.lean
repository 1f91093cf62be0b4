import Mathlib.Data.List.Basic
import Os161Paging.Prog

/-!
# Splitting a string in place

`strtok_r` of the C library: it finds the next word of a string, ends it
with a zero byte and remembers where to go on. Called again and again it
yields the maximal runs without a separator (`pieces`), and what it writes
stays within the string.

A buffer is a list of bytes, a pointer into it an index; reading past its
end is undefined.
-/

namespace Os161Paging.Tokens

/-! ## Pieces -/

section Pieces

variable {α : Type} {sep : α → Bool} {x : α} {w l : List α}

/-- The maximal runs without a separator. -/
def pieces (sep : α → Bool) (l : List α) : List (List α) :=
  (l.splitOnP sep).filter fun w => !w.isEmpty

theorem pieces_sep (hx : sep x = true) : pieces sep (x :: l) = pieces sep l := by
  have hsplit : (x :: l).splitOnP sep = [].splitOnP sep ++ l.splitOnP sep :=
    List.splitOnP_append_cons [] l hx
  unfold pieces
  rw [hsplit, List.splitOnP_nil]
  rfl

theorem pieces_word (hne : w ≠ []) (hw : ∀ y ∈ w, sep y = false) : pieces sep w = [w] := by
  unfold pieces
  rw [List.splitOnP_eq_singleton hw]
  simp [hne]

theorem pieces_word_sep (hne : w ≠ []) (hw : ∀ y ∈ w, sep y = false) (hx : sep x = true) :
    pieces sep (w ++ x :: l) = w :: pieces sep l := by
  unfold pieces
  rw [List.splitOnP_append_cons w l hx, List.filter_append, List.splitOnP_eq_singleton hw]
  simp [hne]

theorem pieces_seps_append {u : List α} (hu : ∀ y ∈ u, sep y = true) :
    pieces sep (u ++ l) = pieces sep l := by
  induction u with
  | nil => rfl
  | cons y u ih =>
      rw [List.cons_append, pieces_sep (hu y List.mem_cons_self)]
      exact ih fun z hz => hu z (List.mem_cons_of_mem y hz)

theorem pieces_seps {u : List α} (hu : ∀ y ∈ u, sep y = true) : pieces sep u = [] := by
  have := pieces_seps_append (l := []) hu
  rwa [List.append_nil] at this

/-- Words with separators between them are found again. -/
theorem pieces_intercalate (hx : sep x = true) : ∀ ws : List (List α),
    (∀ w ∈ ws, w ≠ [] ∧ ∀ y ∈ w, sep y = false) → pieces sep ([x].intercalate ws) = ws
  | [], _ => rfl
  | [w], hws => by
      obtain ⟨hne, hw⟩ := hws w List.mem_cons_self
      rw [List.intercalate_singleton]
      exact pieces_word hne hw
  | w :: v :: ws, hws => by
      obtain ⟨hne, hw⟩ := hws w List.mem_cons_self
      rw [List.intercalate_cons_cons, List.append_assoc, List.singleton_append,
        pieces_word_sep hne hw hx,
        pieces_intercalate hx (v :: ws) fun u hu => hws u (List.mem_cons_of_mem w hu)]

theorem of_mem_intercalate {y : α} : ∀ ws : List (List α), y ∈ [x].intercalate ws →
    y = x ∨ ∃ w ∈ ws, y ∈ w
  | [], hy => by simp at hy
  | [w], hy => by
      rw [List.intercalate_singleton] at hy
      exact .inr ⟨w, List.mem_cons_self, hy⟩
  | w :: v :: ws, hy => by
      rw [List.intercalate_cons_cons, List.append_assoc, List.singleton_append] at hy
      rcases List.mem_append.mp hy with hy | hy
      · exact .inr ⟨w, List.mem_cons_self, hy⟩
      · rcases List.mem_cons.mp hy with hy | hy
        · exact .inl hy
        · exact (of_mem_intercalate (v :: ws) hy).imp_right fun ⟨u, hu, hyu⟩ =>
            ⟨u, List.mem_cons_of_mem w hu, hyu⟩

theorem exists_word (sep : α → Bool) (l : List α) : ∃ w t, l = w ++ t ∧
    (∀ y ∈ w, sep y = false) ∧ ∀ y ∈ t.head?, sep y = true := by
  induction l with
  | nil => exact ⟨[], [], rfl, by simp, by simp⟩
  | cons y l ih =>
      by_cases hy : sep y = true
      · exact ⟨[], y :: l, rfl, by simp, by simpa using hy⟩
      · obtain ⟨w, t, rfl, hw, ht⟩ := ih
        exact ⟨y :: w, t, rfl, by simpa [hy] using hw, ht⟩

/-- A list has separators only, or a first word that ends at a separator or at the end of the
list. -/
theorem exists_pieces (sep : α → Bool) (l : List α) : (∀ y ∈ l, sep y = true) ∨
    ∃ u w t, l = u ++ (w ++ t) ∧ (∀ y ∈ u, sep y = true) ∧ w ≠ [] ∧ (∀ y ∈ w, sep y = false) ∧
      ∀ y ∈ t.head?, sep y = true := by
  induction l with
  | nil => exact .inl (by simp)
  | cons y l ih =>
      by_cases hy : sep y = true
      · rcases ih with hall | ⟨u, w, t, rfl, hu, hrest⟩
        · exact .inl (by simpa [hy] using hall)
        · exact .inr ⟨y :: u, w, t, rfl, by simpa [hy] using hu, hrest⟩
      · obtain ⟨w, t, rfl, hw, ht⟩ := exists_word sep l
        exact .inr ⟨[], y :: w, t, rfl, by simp, by simp, by simpa [hy] using hw, ht⟩

end Pieces

/-! ## Strings in a buffer -/

section Buffers

variable {buf buf' : List UInt8} {a b lo hi : Nat} {s t w : List UInt8}

/-- The string `s` is at `a`. -/
def StringAt (buf : List UInt8) (a : Nat) (s : List UInt8) : Prop :=
  0 ∉ s ∧ ∀ i, i ≤ s.length → buf[a + i]? = (s ++ [0])[i]?

def stringAt (buf : List UInt8) (a : Nat) : List UInt8 := (buf.drop a).takeWhile (· ≠ 0)

theorem StringAt.of_drop (rest : List UInt8) (hnul : 0 ∉ s) (h : buf.drop a = s ++ 0 :: rest) :
    StringAt buf a s := by
  refine ⟨hnul, fun i hi => ?_⟩
  rw [← List.getElem?_drop, h, List.append_cons s 0 rest, List.getElem?_append_left]
  rw [List.length_append]
  exact Nat.lt_succ_of_le hi

theorem StringAt.drop_eq (h : StringAt buf a s) :
    buf.drop a = s ++ 0 :: buf.drop (a + s.length + 1) := by
  refine List.ext_getElem? fun i => ?_
  rw [List.append_cons, List.getElem?_drop]
  by_cases hi : i ≤ s.length
  · rw [h.2 i hi]
    exact (List.getElem?_append_left (by simp; omega)).symm
  · rw [List.getElem?_append_right (by simp; omega), List.getElem?_drop]
    congr 1
    simp
    omega

theorem StringAt.eq (h : StringAt buf a s) : stringAt buf a = s := by
  unfold stringAt
  rw [h.drop_eq, List.takeWhile_append_of_pos, List.takeWhile_cons_of_neg (by simp),
    List.append_nil]
  intro x hx
  have : x ≠ 0 := by
    rintro rfl
    exact h.1 hx
  simpa using this

/-- Two buffers differ at most from `lo` up to `hi`. -/
structure Within (lo hi : Nat) (buf buf' : List UInt8) : Prop where
  length : buf'.length = buf.length
  below : ∀ i, i < lo → buf'[i]? = buf[i]?
  above : ∀ i, hi ≤ i → buf'[i]? = buf[i]?

namespace Within

theorem refl (lo hi : Nat) (buf : List UInt8) : Within lo hi buf buf :=
  ⟨rfl, fun _ _ => rfl, fun _ _ => rfl⟩

theorem trans {buf₁ : List UInt8} (h1 : Within lo hi buf buf₁) (h2 : Within lo hi buf₁ buf') :
    Within lo hi buf buf' where
  length := h2.length.trans h1.length
  below i hlt := (h2.below i hlt).trans (h1.below i hlt)
  above i hle := (h2.above i hle).trans (h1.above i hle)

theorem mono {lo' hi' : Nat} (h : Within lo hi buf buf') (hlo : lo' ≤ lo) (hhi : hi ≤ hi') :
    Within lo' hi' buf buf' where
  length := h.length
  below i hlt := h.below i (Nat.lt_of_lt_of_le hlt hlo)
  above i hle := h.above i (Nat.le_trans hhi hle)

theorem set {i : Nat} {x : UInt8} (hlo : lo ≤ i) (hhi : i < hi) :
    Within lo hi buf (buf.set i x) where
  length := List.length_set
  below j hj := List.getElem?_set_ne (by omega)
  above j hj := List.getElem?_set_ne (by omega)

end Within

theorem StringAt.keep (h : StringAt buf a s) (hw : Within lo hi buf buf')
    (hout : a + s.length < lo ∨ hi ≤ a) : StringAt buf' a s := by
  refine ⟨h.1, fun i hi => Eq.trans ?_ (h.2 i hi)⟩
  rcases hout with hlt | hle
  · exact hw.below _ (by omega)
  · exact hw.above _ (by omega)

theorem StringAt.suffix {u : List UInt8} (h : StringAt buf a (u ++ t)) :
    StringAt buf (a + u.length) t := by
  refine ⟨fun hmem => h.1 (List.mem_append_right u hmem), fun i hi => ?_⟩
  rw [Nat.add_assoc, h.2 (u.length + i) (by simp; omega), List.append_assoc,
    List.getElem?_append_right (by omega), Nat.add_sub_cancel_left]

theorem StringAt.getElem?_eq (h : StringAt buf a (w ++ t)) :
    buf[a + w.length]? = some (t.headD 0) := by
  rw [h.2 w.length (by simp), List.append_assoc, List.getElem?_append_right (Nat.le_refl _),
    Nat.sub_self]
  cases t <;> rfl

theorem StringAt.cut {x : UInt8} (h : StringAt buf a (w ++ x :: t)) :
    StringAt (buf.set (a + w.length) 0) a w ∧
      StringAt (buf.set (a + w.length) 0) (a + w.length + 1) t := by
  obtain ⟨hnul, hat⟩ := h
  simp only [List.mem_append, List.mem_cons, not_or] at hnul
  have hlt : a + w.length < buf.length := by
    have := hat w.length (by simp)
    rw [List.getElem?_append_left (by simp)] at this
    simp at this
    exact (List.getElem?_eq_some_iff.mp this).1
  refine ⟨⟨hnul.1, fun i hi => ?_⟩, hnul.2.2, fun i hi => ?_⟩
  · by_cases hiw : i = w.length
    · subst hiw
      rw [List.getElem?_set_self hlt]
      simp
    · rw [List.getElem?_set_ne (by omega), hat i (by simp; omega),
        List.getElem?_append_left (by simp; omega), List.getElem?_append_left (by omega),
        List.getElem?_append_left (by omega)]
  · rw [List.getElem?_set_ne (by omega)]
    have := hat (w.length + 1 + i) (by simp; omega)
    rw [List.append_assoc, List.getElem?_append_right (by omega), List.cons_append] at this
    rw [← Nat.add_assoc, ← Nat.add_assoc] at this
    rw [this, show w.length + 1 + i - w.length = i + 1 by omega, List.getElem?_cons_succ]

/-! ## strtok_r -/

/-- The first index from `i` on at which `p` does not hold. -/
def advance (p : UInt8 → Bool) (buf : List UInt8) (i : Nat) : Nat :=
  i + ((buf.drop i).takeWhile p).length

/-- `strtok_r` with the separators `sep`: the word, `*context` and the buffer. -/
def strtokR (sep : UInt8 → Bool) (string context : Option Nat) (buf : List UInt8) :
    Outcome Empty ((Option Nat × Option Nat) × List UInt8) :=
  match string.or context with
  | none => .ok ((none, none), buf)
  | some i =>
      let head := advance (fun x => x ≠ 0 && sep x) buf i
      match buf[head]? with
      | none => .undefined
      | some x =>
          if x = 0 then .ok ((none, none), buf)
          else
            let tail := advance (fun x => x ≠ 0 && !sep x) buf (head + 1)
            match buf[tail]? with
            | none => .undefined
            | some x =>
                if x = 0 then .ok ((some head, none), buf)
                else .ok ((some head, some (tail + 1)), buf.set tail 0)

/-- The search stops where the string goes on with something else, at the latest at its end. -/
theorem StringAt.advance_eq {p : UInt8 → Bool} (h : StringAt buf a (w ++ t))
    (hw : ∀ y ∈ w, p y = true) (hstop : p (t.headD 0) = false) :
    advance p buf a = a + w.length := by
  obtain ⟨rest, hrest⟩ : ∃ rest, buf.drop a = w ++ t.headD 0 :: rest := by
    rw [h.drop_eq, List.append_assoc]
    cases t with
    | nil => exact ⟨_, rfl⟩
    | cons z t => exact ⟨t ++ 0 :: _, rfl⟩
  unfold advance
  rw [hrest, List.takeWhile_append_of_pos hw, List.takeWhile_cons_of_neg (by rw [hstop]; simp),
    List.append_nil]

/-- What is left to be split is `t`, somewhere from `lo` up to `hi`. -/
def Left (lo hi : Nat) (buf : List UInt8) (context : Option Nat) (t : List UInt8) : Prop :=
  context = none ∧ t = [] ∨
    ∃ c, context = some c ∧ lo ≤ c ∧ c + t.length ≤ hi ∧ StringAt buf c t

theorem Left.keep {lo' hi' : Nat} {context : Option Nat} (h : Left lo hi buf context t)
    (hw : Within lo' hi' buf buf') (hle : hi' ≤ lo) : Left lo hi buf' context t := by
  rcases h with h | ⟨c, hc, hlo, hhi, hat⟩
  · exact .inl h
  · exact .inr ⟨c, hc, hlo, hhi, hat.keep hw (.inr (Nat.le_trans hle hlo))⟩

/-- What a call of `strtok_r` finds: the first piece, and the others are left. -/
inductive Found (sep : UInt8 → Bool) (lo hi : Nat) (buf : List UInt8) :
    (word context : Option Nat) → List (List UInt8) → Prop where
  | none : Found sep lo hi buf none none []
  | word {a : Nat} {w t : List UInt8} {context : Option Nat} (hlo : lo ≤ a)
      (hhi : a + w.length ≤ hi) (hat : StringAt buf a w)
      (hleft : Left (a + w.length + 1) hi buf context t) :
      Found sep lo hi buf (some a) context (w :: pieces sep t)

/-- **`strtok_r`** finds the first piece of what is left, and changes nothing else. -/
theorem strtokR_found (sep : UInt8 → Bool) (string : Option Nat) {context : Option Nat}
    (h : Left lo hi buf (string.or context) s) :
    ∃ word context' buf', strtokR sep string context buf = .ok ((word, context'), buf') ∧
      Within lo hi buf buf' ∧ Found sep lo hi buf' word context' (pieces sep s) := by
  unfold strtokR
  rcases h with ⟨hnone, rfl⟩ | ⟨i, hsome, hlo, hhi, hat⟩
  · rw [hnone]
    exact ⟨none, none, buf, rfl, .refl .., .none⟩
  rw [hsome]
  have hnul : ∀ y ∈ s, y ≠ 0 := by
    rintro y hy rfl
    exact hat.1 hy
  rcases exists_pieces sep s with hall | ⟨u, w, t, rfl, hu, hne, hw, ht⟩
  · -- separators only
    rw [← List.append_nil s] at hat
    have hhead : advance (fun x => x ≠ 0 && sep x) buf i = i + s.length :=
      hat.advance_eq (fun y hy => by simp [hnul y hy, hall y hy]) (by simp)
    have hzero : buf[i + s.length]? = some 0 := hat.getElem?_eq
    refine ⟨none, none, buf, ?_, .refl .., ?_⟩
    · simp only [hhead, hzero, if_true]
    · rw [pieces_seps hall]
      exact .none
  · obtain ⟨x, w', rfl⟩ := List.exists_cons_of_ne_nil hne
    have hword : StringAt buf (i + u.length) (x :: w' ++ t) := hat.suffix
    have hrest : StringAt buf (i + u.length + 1) (w' ++ t) := hword.suffix (u := [x])
    have hx : x ≠ 0 := hnul x (by simp)
    have hhead : advance (fun x => x ≠ 0 && sep x) buf i = i + u.length :=
      hat.advance_eq (fun y hy => by simp [hnul y (by simp [hy]), hu y hy])
        (by simp [hw x (by simp)])
    have hfirst : buf[i + u.length]? = some x := hat.getElem?_eq
    have htail : advance (fun x => x ≠ 0 && !sep x) buf (i + u.length + 1) =
        i + u.length + 1 + w'.length := by
      refine hrest.advance_eq (fun y hy => ?_) ?_
      · simp [hnul y (by simp [hy]), hw y (by simp [hy])]
      · cases t with
        | nil => simp
        | cons z t => simp [ht z (by simp)]
    have hlast := hrest.getElem?_eq
    cases t with
    | nil =>
        rw [List.append_nil] at hword
        refine ⟨some (i + u.length), none, buf, ?_, .refl .., ?_⟩
        · simp only [hhead, hfirst, hx, if_false, htail, hlast, List.headD_nil, if_true]
        · rw [pieces_seps_append hu, List.append_nil, pieces_word (by simp) hw]
          exact .word (t := []) (by omega) (by simp at hhi ⊢; omega) hword (.inl ⟨rfl, rfl⟩)
    | cons z t =>
        have hz : z ≠ 0 := hnul z (by simp)
        have hsep : sep z = true := ht z (by simp)
        have heq : i + u.length + 1 + w'.length = i + u.length + (x :: w').length := by
          simp
          omega
        obtain ⟨hcut, hcut'⟩ := hword.cut
        rw [← heq] at hcut hcut'
        refine ⟨some (i + u.length), some (i + u.length + 1 + w'.length + 1),
          buf.set (i + u.length + 1 + w'.length) 0, ?_,
          .set (by omega) (by simp at hhi; omega), ?_⟩
        · simp only [hhead, hfirst, hx, if_false, htail, hlast, List.headD_cons, hz]
        · rw [pieces_seps_append hu, pieces_word_sep (by simp) hw hsep]
          refine .word (by omega) (by simp at hhi ⊢; omega) hcut (.inr ⟨_, rfl, ?_, ?_, hcut'⟩)
          · omega
          · simp at hhi ⊢
            omega

end Buffers

end Os161Paging.Tokens
