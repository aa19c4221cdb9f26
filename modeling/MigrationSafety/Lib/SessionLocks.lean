import Mathlib.Data.List.Basic

/-! # Locks of sessions

Locks that belong to a session: one session at a time holds a key, it may take the key again, and only it
can let go of it, one hold at a time. The holds are kept with the client that has asked for them, in the
order of their age.

Clients that share a pool of sessions exclude each other, and leave no lock behind, if each of them takes
its key on a session that does not hold it and lets go of it on the same session: then the holds are those
of the clients inside (`Owned`).

* `Owned.push`, `Owned.pop`: the operations keep this.
* `Owned.exclusive`, `Owned.released`: what it means. -/

namespace MigrationSafety.Lib.SessionLocks

/-- The holds of each session on each key, the youngest first. -/
abbrev Holds (ι κ γ : Type) := ι → κ → List γ

variable {ι κ γ : Type} [DecidableEq ι] [DecidableEq κ] {h : Holds ι κ γ} {i j : ι} {k : κ} {c d : γ}

namespace Holds

/-- No other session holds the key. -/
def Free (h : Holds ι κ γ) (i : ι) (k : κ) : Prop := ∀ j, j ≠ i → h j k = []

def push (h : Holds ι κ γ) (i : ι) (k : κ) (c : γ) : Holds ι κ γ := fun j l =>
  if j = i ∧ l = k then c :: h j l else h j l

def pop (h : Holds ι κ γ) (i : ι) (k : κ) : Holds ι κ γ := fun j l =>
  if j = i ∧ l = k then (h j l).tail else h j l

end Holds

/-- **The holds are those of the clients inside**, each on a key of its own. -/
structure Owned (h : Holds ι κ γ) (key : γ → κ) (inside : γ → Prop) : Prop where
  single : ∀ i k c, c ∈ h i k → h i k = [c] ∧ key c = k ∧ inside c
  unique : ∀ i j k c d, c ∈ h i k → d ∈ h j k → i = j
  held : ∀ c, inside c → ∃ i, c ∈ h i (key c)

variable {key : γ → κ} {inside inside' : γ → Prop}

omit [DecidableEq ι] [DecidableEq κ] in
theorem owned_empty (hnone : ∀ c, ¬inside c) : Owned (fun _ _ => [] : Holds ι κ γ) key inside where
  single _ _ _ hc := by cases hc
  unique _ _ _ _ _ hc := by cases hc
  held c hc := absurd hc (hnone c)

omit [DecidableEq ι] [DecidableEq κ] in
theorem Owned.congr (ho : Owned h key inside) (hinside : ∀ c, inside' c ↔ inside c) :
    Owned h key inside' := by
  rwa [show inside' = inside from funext fun c => propext (hinside c)]

omit [DecidableEq ι] [DecidableEq κ] in
/-- **Two clients inside** have different keys. -/
theorem Owned.exclusive (ho : Owned h key inside) (hc : inside c) (hd : inside d) (hkey : key c = key d) :
    c = d := by
  obtain ⟨i, hi⟩ := ho.held c hc
  obtain ⟨j, hj⟩ := ho.held d hd
  rw [hkey] at hi
  obtain rfl := ho.unique i j _ c d hi hj
  rw [(ho.single i _ d hj).1] at hi
  exact List.mem_singleton.mp hi

omit [DecidableEq ι] [DecidableEq κ] in
/-- **A client that is not inside** has left no hold. -/
theorem Owned.released (ho : Owned h key inside) (hc : ¬inside c) (i : ι) (k : κ) : c ∉ h i k :=
  fun hmem => hc (ho.single i k c hmem).2.2

/-- **A client enters**, on a session that does not hold its key yet. -/
theorem Owned.push (ho : Owned h key inside) (hfree : h.Free i (key c)) (hnil : h i (key c) = [])
    (hinside : ∀ d, inside' d ↔ inside d ∨ d = c) : Owned (h.push i (key c) c) key inside' := by
  -- nobody holds the key
  have hall : ∀ j, h j (key c) = [] := by
    intro j
    by_cases hj : j = i
    · rw [hj, hnil]
    · exact hfree j hj
  have hmem : ∀ j l d, d ∈ h.push i (key c) c j l → (j = i ∧ l = key c ∧ d = c) ∨ d ∈ h j l := by
    intro j l d hd
    unfold Holds.push at hd
    split_ifs at hd with heq
    · obtain ⟨rfl, rfl⟩ := heq
      rw [hnil, List.mem_singleton] at hd
      exact Or.inl ⟨rfl, rfl, hd⟩
    · exact Or.inr hd
  refine ⟨fun j l d hd => ?_, fun j j' l d d' hd hd' => ?_, fun d hd => ?_⟩
  · rcases hmem j l d hd with ⟨rfl, rfl, rfl⟩ | hold
    · refine ⟨?_, rfl, (hinside d).mpr (Or.inr rfl)⟩
      unfold Holds.push
      rw [if_pos ⟨rfl, rfl⟩, hnil]
    · obtain ⟨hsingle, hkey, hin⟩ := ho.single j l d hold
      refine ⟨?_, hkey, (hinside d).mpr (Or.inl hin)⟩
      unfold Holds.push
      rw [if_neg, hsingle]
      rintro ⟨rfl, rfl⟩
      rw [hall] at hold
      cases hold
  · rcases hmem j l d hd with ⟨rfl, rfl, rfl⟩ | hold <;>
      rcases hmem j' _ d' hd' with ⟨rfl, hl, rfl⟩ | hold'
    · rfl
    · rw [hall] at hold'
      cases hold'
    · rw [hl, hall] at hold
      cases hold
    · exact ho.unique j j' l d d' hold hold'
  · rcases (hinside d).mp hd with hin | rfl
    · obtain ⟨j, hj⟩ := ho.held d hin
      refine ⟨j, ?_⟩
      unfold Holds.push
      split_ifs
      · exact List.mem_cons_of_mem _ hj
      · exact hj
    · refine ⟨i, ?_⟩
      unfold Holds.push
      rw [if_pos ⟨rfl, rfl⟩]
      exact List.mem_cons_self

/-- **A client leaves**, on the session that holds its key. -/
theorem Owned.pop (ho : Owned h key inside) (hc : c ∈ h i (key c))
    (hinside : ∀ d, inside' d ↔ inside d ∧ d ≠ c) : Owned (h.pop i (key c)) key inside' := by
  have hnil : h.pop i (key c) i (key c) = [] := by
    unfold Holds.pop
    rw [if_pos ⟨rfl, rfl⟩, (ho.single i _ c hc).1]
    rfl
  have hother : ∀ j l, ¬(j = i ∧ l = key c) → h.pop i (key c) j l = h j l := fun j l hne => if_neg hne
  have hmem : ∀ j l d, d ∈ h.pop i (key c) j l → ¬(j = i ∧ l = key c) ∧ d ∈ h j l := by
    intro j l d hd
    by_cases heq : j = i ∧ l = key c
    · obtain ⟨rfl, rfl⟩ := heq
      rw [hnil] at hd
      cases hd
    · exact ⟨heq, hother j l heq ▸ hd⟩
  refine ⟨fun j l d hd => ?_, fun j j' l d d' hd hd' => ?_, fun d hd => ?_⟩
  · obtain ⟨hne, hold⟩ := hmem j l d hd
    obtain ⟨hsingle, hkey, hin⟩ := ho.single j l d hold
    refine ⟨(hother j l hne).trans hsingle, hkey, (hinside d).mpr ⟨hin, ?_⟩⟩
    rintro rfl
    subst hkey
    exact hne ⟨ho.unique j i _ d d hold hc, rfl⟩
  · exact ho.unique j j' l d d' (hmem j l d hd).2 (hmem j' l d' hd').2
  · obtain ⟨hin, hne⟩ := (hinside d).mp hd
    obtain ⟨j, hj⟩ := ho.held d hin
    refine ⟨j, ?_⟩
    rw [hother]
    · exact hj
    · rintro ⟨rfl, hkey⟩
      rw [hkey, (ho.single j _ c hc).1] at hj
      exact hne (List.mem_singleton.mp hj)

end MigrationSafety.Lib.SessionLocks
