import Mathlib.Data.List.Basic

/-! # Labelled paths

A labelled step relation `R`, its paths with the list of their labels, and the rule for invariants.
A system given by a partial function `step` and restricted by a guard `ok` on the state before a step
and its label is the relation `Guarded step ok`; its paths are the runs all of whose steps meet the
guard. -/

namespace MigrationSafety.Lib.Paths

variable {σ α : Type}

/-- A path of `R` from the first state to the last, with its labels in order. -/
inductive Path (R : σ → α → σ → Prop) : σ → List α → σ → Prop
  | nil {s : σ} : Path R s [] s
  | snoc {s t u : σ} {as : List α} {a : α} (h : Path R s as t) (ha : R t a u) :
      Path R s (as ++ [a]) u

variable {R R' : σ → α → σ → Prop}

theorem Path.append {s t u : σ} {as bs : List α} (h : Path R s as t) (h' : Path R t bs u) :
    Path R s (as ++ bs) u := by
  induction h' with
  | nil => rw [List.append_nil]; exact h
  | snoc _ ha ih => rw [← List.append_assoc]; exact ih.snoc ha

theorem Path.cons {s t u : σ} {a : α} {as : List α} (ha : R s a t) (h : Path R t as u) :
    Path R s (a :: as) u :=
  (Path.nil.snoc ha).append h

@[simp] theorem path_nil {s t : σ} : Path R s [] t ↔ t = s := by
  constructor
  · intro h
    generalize hl : ([] : List α) = l at h
    cases h with
    | nil => rfl
    | snoc h ha => simp at hl
  · rintro rfl
    exact Path.nil

/-- A path inverted at its first step. -/
theorem path_cons {s t : σ} {a : α} {as : List α} :
    Path R s (a :: as) t ↔ ∃ u, R s a u ∧ Path R u as t := by
  constructor
  · intro h
    generalize hl : a :: as = l at h
    induction h generalizing as with
    | nil => cases hl
    | @snoc v w bs b h hb ih =>
      cases bs with
      | nil =>
        obtain ⟨rfl, rfl⟩ := List.cons_eq_cons.mp hl
        obtain rfl := path_nil.mp h
        exact ⟨w, hb, Path.nil⟩
      | cons c cs =>
        obtain ⟨rfl, rfl⟩ := List.cons_eq_cons.mp hl
        obtain ⟨u, hu, hrest⟩ := ih rfl
        exact ⟨u, hu, hrest.snoc hb⟩
  · rintro ⟨u, hu, h⟩
    exact Path.cons hu h

/-- A path cut in two. -/
theorem Path.split {s t : σ} {as bs : List α} (h : Path R s (as ++ bs) t) :
    ∃ u, Path R s as u ∧ Path R u bs t := by
  induction as generalizing s with
  | nil => exact ⟨s, Path.nil, h⟩
  | cons a as ih =>
    obtain ⟨u, hu, hrest⟩ := path_cons.mp h
    obtain ⟨v, hv, hlast⟩ := ih hrest
    exact ⟨v, Path.cons hu hv, hlast⟩

theorem Path.mono {s t : σ} {as : List α} (hR : ∀ s a t, R s a t → R' s a t) (h : Path R s as t) :
    Path R' s as t := by
  induction h with
  | nil => exact Path.nil
  | snoc _ ha ih => exact ih.snoc (hR _ _ _ ha)

/-- **Invariants**: what holds at the start and is preserved by every step holds at the end. -/
theorem Path.invariant {I : σ → Prop} {s t : σ} {as : List α} (h : Path R s as t) (h0 : I s)
    (hstep : ∀ u a v, I u → R u a v → I v) : I t := by
  induction h with
  | nil => exact h0
  | snoc _ ha ih => exact hstep _ _ _ ih ha

/-- **Projections**: where `I` holds, each of these steps is a step of `R'` for those who only see `g`
and the labels `f` keeps, or none. -/
theorem Path.project {τ β : Type} {R' : τ → β → τ → Prop} {g : σ → τ} {f : α → Option β} {I : σ → Prop}
    {s t : σ} {as : List α} (h : Path R s as t) (h0 : I s) (hstep : ∀ u, ∀ a ∈ as, ∀ v, I u → R u a v →
      I v ∧ (∀ b, f a = some b → R' (g u) b (g v)) ∧ (f a = none → g v = g u)) :
    I t ∧ Path R' (g s) (as.filterMap f) (g t) := by
  induction h with
  | nil => exact ⟨h0, Path.nil⟩
  | @snoc t u as a h ha ih =>
    obtain ⟨hI, hpath⟩ := ih fun u b hb => hstep u b (List.mem_append_left _ hb)
    obtain ⟨hI', hsome, hnone⟩ := hstep t a (List.mem_append_right _ (List.mem_singleton.mpr rfl)) u hI ha
    refine ⟨hI', ?_⟩
    rw [List.filterMap_append]
    cases hf : f a with
    | none => simpa [hf, hnone hf] using hpath
    | some b => simpa [hf] using hpath.snoc (hsome b hf)

/-- **Simulations**: where `P` relates two states, what `R` does can be followed by some steps of
`R'`. -/
theorem Path.simulate {τ β : Type} {R' : τ → β → τ → Prop} {P : σ → τ → Prop} {s t : σ} {u : τ}
    {as : List α} (h : Path R s as t) (hs : P s u)
    (hstep : ∀ s a t u, P s u → R s a t → ∃ bs v, Path R' u bs v ∧ P t v) :
    ∃ bs v, Path R' u bs v ∧ P t v := by
  induction h with
  | nil => exact ⟨[], u, Path.nil, hs⟩
  | snoc _ ha ih =>
    obtain ⟨bs, v, hbs, hv⟩ := ih
    obtain ⟨cs, w, hcs, hw⟩ := hstep _ _ _ _ hv ha
    exact ⟨bs ++ cs, w, hbs.append hcs, hw⟩

/-! ### Steps given by a function -/

/-- One step of `step` that meets the guard. -/
def Guarded (step : σ → α → Option σ) (ok : σ → α → Prop) (s : σ) (a : α) (t : σ) : Prop :=
  step s a = some t ∧ ok s a

/-- The labels determine the last state, whatever the guards. -/
theorem guarded_unique {step : σ → α → Option σ} {ok ok' : σ → α → Prop} {s t t' : σ} {as : List α}
    (h : Path (Guarded step ok) s as t) (h' : Path (Guarded step ok') s as t') : t = t' := by
  induction as generalizing s with
  | nil => exact (path_nil.mp h).trans (path_nil.mp h').symm
  | cons a as ih =>
    obtain ⟨u, hu, hrest⟩ := path_cons.mp h
    obtain ⟨u', hu', hrest'⟩ := path_cons.mp h'
    obtain rfl := Option.some.inj (hu.1.symm.trans hu'.1)
    exact ih hrest hrest'

/-- The state after the labels, if every step is possible and passes the test `okb`. -/
def runs (step : σ → α → Option σ) (okb : σ → α → Bool) (s : σ) : List α → Option σ
  | [] => some s
  | a :: as => if okb s a then (step s a).bind fun t => runs step okb t as else none

/-- A computed run is a path, if the test implies the guard. -/
theorem path_of_runs {step : σ → α → Option σ} {ok : σ → α → Prop} {okb : σ → α → Bool}
    (hok : ∀ s a, okb s a = true → ok s a) :
    ∀ {as : List α} {s t : σ}, runs step okb s as = some t → Path (Guarded step ok) s as t
  | [], s, t, h => by
    cases h
    exact Path.nil
  | a :: as, s, t, h => by
    unfold runs at h
    split_ifs at h with ha
    obtain ⟨u, hu, ht⟩ := Option.bind_eq_some_iff.mp h
    exact Path.cons ⟨hu, hok s a ha⟩ (path_of_runs hok ht)

/-- A computed run whose last state passes a test. -/
theorem exists_path_of_any {step : σ → α → Option σ} {ok : σ → α → Prop} {okb : σ → α → Bool}
    (hok : ∀ s a, okb s a = true → ok s a) {as : List α} {s : σ} {P : σ → Bool}
    (h : (runs step okb s as).any P = true) :
    ∃ t, Path (Guarded step ok) s as t ∧ P t = true := by
  cases ht : runs step okb s as with
  | none => simp [ht] at h
  | some t => exact ⟨t, path_of_runs hok ht, by simpa [ht] using h⟩

/-- The same without a guard. -/
theorem exists_path_of_any_free {step : σ → α → Option σ} {as : List α} {s : σ} {P : σ → Bool}
    (h : (runs step (fun _ _ => true) s as).any P = true) :
    ∃ t, Path (Guarded step fun _ _ => True) s as t ∧ P t = true :=
  exists_path_of_any (fun _ _ _ => trivial) h

end MigrationSafety.Lib.Paths
