import Mathlib.Data.List.Induction

/-! # Histories

A history is a list that only grows at its end. `Preceded Q h`: each element of `h` stands in the
relation `Q` to what came before it. `latest f h`: what `f` finds in the last element in which it
finds something. Both are computed from the history without its last element. -/

namespace MigrationSafety.Lib.Histories

variable {α β : Type} {Q Q' : List α → α → Prop} {h t : List α} {x : α}

/-- What came before each element is as `Q` demands for it. -/
def Preceded (Q : List α → α → Prop) (h : List α) : Prop := ∀ l x l', h = l ++ x :: l' → Q l x

@[simp] theorem preceded_nil : Preceded Q [] := by
  intro l x l' h
  simp at h

/-- **One more element.** -/
theorem preceded_snoc : Preceded Q (h ++ [x]) ↔ Preceded Q h ∧ Q h x := by
  constructor
  · intro hp
    exact ⟨fun l y l' hl => hp l y (l' ++ [x]) (by rw [hl]; simp), hp h x [] rfl⟩
  · rintro ⟨hp, hx⟩ l y l' hl
    rcases l'.eq_nil_or_concat with rfl | ⟨l'', z, rfl⟩
    · obtain ⟨rfl, hxy⟩ := List.append_inj' hl rfl
      cases hxy
      exact hx
    · rw [List.concat_eq_append, ← List.cons_append, ← List.append_assoc] at hl
      obtain ⟨hl, -⟩ := List.append_inj' hl rfl
      exact hp l y l'' hl

/-- **Beginning by beginning**: a property that one more element keeps if and only if `Q` allows the
element holds of every beginning of the history if and only if `Q` allows every element. -/
theorem forall_prefix_iff_preceded {P : List α → Prop} (h0 : P [])
    (hs : ∀ l x, P l → (P (l ++ [x]) ↔ Q l x)) : (∀ l, l <+: h → P l) ↔ Preceded Q h := by
  constructor
  · rintro hP l x l' rfl
    have hl : P l := hP l (List.prefix_append _ _)
    exact (hs l x hl).mp (hP _ ⟨l', by simp⟩)
  · intro hp l hl
    obtain ⟨l', rfl⟩ := hl
    induction l using List.reverseRecOn generalizing l' with
    | nil => exact h0
    | append_singleton l x ih =>
      rw [List.append_assoc] at hp
      exact (hs l x (ih _ hp)).mpr (hp l x l' rfl)

/-! ### The latest finding -/

/-- What `f` finds in the last element in which it finds something. -/
def latest (f : α → Option β) (h : List α) : Option β := h.reverse.findSome? f

variable {f : α → Option β} {b : β}

@[simp] theorem latest_nil : latest f [] = none := rfl

theorem latest_snoc : latest f (h ++ [x]) = (f x).or (latest f h) := by
  unfold latest
  rw [List.reverse_append, List.reverse_singleton, List.singleton_append, List.findSome?_cons]
  cases f x <;> rfl

end MigrationSafety.Lib.Histories
