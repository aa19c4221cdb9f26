import MigrationSafety.Lib.Effects
import MigrationSafety.Lib.Paths

/-! # Programs in a nondeterministic world

A world answers the operations of a program as a step relation `R` allows: a step is labelled with the
operation, its answer and whatever else the world has chosen. `Prog.Wp R C Q` is the weakest
precondition of a program: whatever the world chooses, every step meets `C` and the end meets `Q`.

* `wp_of_all`: a program that only asks for operations that leave an invariant alone.
* `Prog.Wp.path`: what it says of the paths of the world whose events are those of a run.
* `Terminates`: total correctness of a family of programs that name each other, with the rules
  `terminates_of_wp` and `Terminates.mono`; `Terminates.of_loop` reads it off one execution. -/

namespace MigrationSafety.Lib.Worlds

open MigrationSafety.Lib.Effects MigrationSafety.Lib.Paths

variable {S : Sig} {σ ι α β : Type}

/-- Whatever the world does, each of its steps meets `C`, and the value returned and the last state
meet `Q`. -/
def Prog.Wp (R : σ → Event S × ι → σ → Prop) (C : σ → Event S × ι → Prop) (Q : α → σ → Prop) :
    Prog S α → σ → Prop
  | .ret a, s => Q a s
  | .call op k, s => ∀ r i t, R s (⟨op, r⟩, i) t → C s (⟨op, r⟩, i) ∧ Prog.Wp R C Q (k r) t

section Rules
variable {R : σ → Event S × ι → σ → Prop} {C : σ → Event S × ι → Prop} {Q Q' : α → σ → Prop}
  {Q'' : β → σ → Prop} {s t : σ}

@[simp] theorem wp_ret {a : α} : Prog.Wp R C Q (.ret a) s ↔ Q a s := Iff.rfl

theorem wp_call {op : S.Op} {k : S.Ret op → Prog S α} : Prog.Wp R C Q (.call op k) s ↔
    ∀ r i t, R s (⟨op, r⟩, i) t → C s (⟨op, r⟩, i) ∧ Prog.Wp R C Q (k r) t := Iff.rfl

theorem Prog.Wp.mono {p : Prog S α} (h : Prog.Wp R C Q p s) (hQ : ∀ a t, Q a t → Q' a t) :
    Prog.Wp R C Q' p s := by
  induction p generalizing s with
  | ret a => exact hQ a s h
  | call op k ih => exact fun r i t ht => ⟨(h r i t ht).1, ih r (h r i t ht).2⟩

/-- The steps do not matter. -/
theorem Prog.Wp.free {p : Prog S α} (h : Prog.Wp R C Q p s) : Prog.Wp R (fun _ _ => True) Q p s := by
  induction p generalizing s with
  | ret a => exact h
  | call op k ih => exact fun r i t ht => ⟨trivial, ih r (h r i t ht).2⟩

/-- A world that does less. -/
theorem Prog.Wp.narrow {R' : σ → Event S × ι → σ → Prop} {p : Prog S α} (h : Prog.Wp R C Q p s)
    (hR : ∀ s x t, R' s x t → R s x t) : Prog.Wp R' C Q p s := by
  induction p generalizing s with
  | ret a => exact h
  | call op k ih =>
    intro r i t ht
    obtain ⟨hC, hk⟩ := h r i t (hR _ _ _ ht)
    exact ⟨hC, ih r hk⟩

theorem Prog.Wp.and {C' : σ → Event S × ι → Prop} {p : Prog S α} (h : Prog.Wp R C Q p s)
    (h' : Prog.Wp R C' Q' p s) :
    Prog.Wp R (fun s x => C s x ∧ C' s x) (fun a t => Q a t ∧ Q' a t) p s := by
  induction p generalizing s with
  | ret a => exact ⟨h, h'⟩
  | call op k ih =>
    exact fun r i t ht =>
      ⟨⟨(h r i t ht).1, (h' r i t ht).1⟩, ih r (h r i t ht).2 (h' r i t ht).2⟩

/-- What every step that meets `C` keeps holds at the end. -/
theorem Prog.Wp.keeps {I : σ → Prop} {p : Prog S α} (h : Prog.Wp R C Q p s)
    (hI : ∀ s x t, I s → R s x t → C s x → I t) (hs : I s) :
    Prog.Wp R C (fun a t => Q a t ∧ I t) p s := by
  induction p generalizing s with
  | ret a => exact ⟨h, hs⟩
  | call op k ih =>
    exact fun r i t ht => ⟨(h r i t ht).1, ih r (h r i t ht).2 (hI _ _ _ hs ht (h r i t ht).1)⟩

/-- **Sequencing.** -/
theorem Prog.Wp.bind {p : Prog S α} {f : α → Prog S β} (h : Prog.Wp R C Q p s)
    (hf : ∀ a t, Q a t → Prog.Wp R C Q'' (f a) t) : Prog.Wp R C Q'' (p >>= f) s := by
  induction p generalizing s with
  | ret a => exact hf a s h
  | call op k ih => exact fun r i t ht => ⟨(h r i t ht).1, ih r (h r i t ht).2⟩

/-- A second account of the end alone. -/
theorem Prog.Wp.also {p : Prog S α} (h : Prog.Wp R C Q p s)
    (h' : Prog.Wp R (fun _ _ => True) Q' p s) : Prog.Wp R C (fun a t => Q a t ∧ Q' a t) p s := by
  induction p generalizing s with
  | ret a => exact ⟨h, h'⟩
  | call op k ih => exact fun r i t ht => ⟨(h r i t ht).1, ih r (h r i t ht).2 (h' r i t ht).2⟩

/-- Operations that keep `I`, whatever the world answers. -/
theorem wp_of_all {p : Prog S α} {P : S.Op → Prop} {q : α → Prop} {I : σ → Prop} (hp : p.All P q)
    (hI : ∀ op r i s t, P op → I s → R s (⟨op, r⟩, i) t → C s (⟨op, r⟩, i) ∧ I t) (hs : I s) :
    Prog.Wp R C (fun a t => q a ∧ I t) p s := by
  induction p generalizing s with
  | ret a => exact ⟨hp, hs⟩
  | call op k ih =>
    intro r i t ht
    obtain ⟨hC, ht'⟩ := hI op r i s t hp.1 hs ht
    exact ⟨hC, ih r (hp.2 r) ht'⟩

/-- **On every path of the world along a run**, each step meets `C` and the end meets `Q`. -/
theorem Prog.Wp.path {p : Prog S α} {l : List (Event S × ι)} {a : α} (h : Prog.Wp R C Q p s)
    (hl : Path R s l t) (hp : Runs p (l.map Prod.fst) a) :
    Path (fun s x t => R s x t ∧ C s x) s l t ∧ Q a t := by
  induction p generalizing s l with
  | ret b =>
    obtain ⟨hnil, rfl⟩ := runs_ret.mp hp
    obtain rfl := List.map_eq_nil_iff.mp hnil
    obtain rfl := path_nil.mp hl
    exact ⟨Path.nil, h⟩
  | call op k ih =>
    obtain ⟨r, l', hl', hr⟩ := runs_call.mp hp
    obtain ⟨⟨ev, i⟩, l, rfl, rfl, rfl⟩ := List.map_eq_cons_iff.mp hl'
    obtain ⟨u, hu, hrest⟩ := path_cons.mp hl
    obtain ⟨hC, hk⟩ := h r i u hu
    obtain ⟨hpath, hQ⟩ := ih r hk hrest hr
    exact ⟨Path.cons ⟨hu, hC⟩ hpath, hQ⟩

end Rules

/-! ### Programs that name each other -/

section Loops
variable {π : Type} {R : σ → Event S × ι → σ → Prop} {Q : β → σ → Prop} {body : π → Prog S β}
  {next : β → Option π} {n m : ℕ} {p : π} {s t : σ} {b : β}

/-- **Total correctness**: whatever the world does, at most `n` programs run one after the other from
`p` on, and the last of them ends with `Q`. -/
def Terminates (R : σ → Event S × ι → σ → Prop) (Q : β → σ → Prop) (body : π → Prog S β)
    (next : β → Option π) : ℕ → π → σ → Prop
  | 0, _, _ => False
  | n + 1, p, s => Prog.Wp R (fun _ _ => True) (fun b t =>
      match next b with
      | none => Q b t
      | some p' => Terminates R Q body next n p' t) (body p) s

/-- **One more program.** -/
theorem terminates_of_wp {Q' : β → σ → Prop} (h : Prog.Wp R (fun _ _ => True) Q' (body p) s)
    (hQ : ∀ b t, Q' b t → (next b = none ∧ Q b t) ∨
      ∃ p', next b = some p' ∧ Terminates R Q body next n p' t) :
    Terminates R Q body next (n + 1) p s :=
  h.mono fun b t hb => by
    rcases hQ b t hb with ⟨hnone, hq⟩ | ⟨p', hsome, ht⟩
    · rwa [hnone]
    · rwa [hsome]

theorem Terminates.mono (h : Terminates R Q body next n p s) (hm : n ≤ m) :
    Terminates R Q body next m p s := by
  induction n generalizing m p s with
  | zero => cases h
  | succ n ih =>
    obtain ⟨m, rfl⟩ : ∃ k, m = k + 1 := ⟨m - 1, by omega⟩
    refine terminates_of_wp h fun b t hb => ?_
    cases hnext : next b with
    | none => exact Or.inl ⟨rfl, by rwa [hnext] at hb⟩
    | some p' =>
      rw [hnext] at hb
      exact Or.inr ⟨p', rfl, ih hb (by omega)⟩

/-- The program answered by `h`, which may have no answer. -/
def Prog.execPartial (h : (e : S.Op) → σ → Option (S.Ret e × σ)) : Prog S α → σ → Option (α × σ)
  | .ret a, s => some (a, s)
  | .call e k, s => (h e s).bind fun x => Prog.execPartial h (k x.1) x.2

/-- The programs one after the other, with fuel. -/
def execLoop (h : (e : S.Op) → σ → Option (S.Ret e × σ)) (body : π → Prog S β)
    (next : β → Option π) : ℕ → π → σ → Option (β × σ)
  | 0, _, _ => none
  | n + 1, p, s => (Prog.execPartial h (body p) s).bind fun x =>
      match next x.1 with
      | none => some x
      | some p' => execLoop h body next n p' x.2

section Exec
variable {h : (e : S.Op) → σ → Option (S.Ret e × σ)}

theorem Prog.Wp.of_exec {C : σ → Event S × ι → Prop} (hR : ∀ e s r t, h e s = some (r, t) →
      ∃ i, R s (⟨e, r⟩, i) t) {q : Prog S β} (hwp : Prog.Wp R C Q q s)
    (he : Prog.execPartial h q s = some (b, t)) : Q b t := by
  induction q generalizing s with
  | ret a =>
    cases he
    exact hwp
  | call e k ih =>
    obtain ⟨⟨r, u⟩, hu, hk⟩ := Option.bind_eq_some_iff.mp he
    obtain ⟨i, hi⟩ := hR e s r u hu
    exact ih r (hwp r i u hi).2 hk

/-- **An execution that the world allows ends as promised.** -/
theorem Terminates.of_loop (hR : ∀ e s r t, h e s = some (r, t) → ∃ i, R s (⟨e, r⟩, i) t)
    (ht : Terminates R Q body next n p s) (he : execLoop h body next m p s = some (b, t)) :
    Q b t := by
  induction m generalizing n p s with
  | zero => cases he
  | succ m ih =>
    cases n with
    | zero => cases ht
    | succ n =>
      obtain ⟨⟨b', u⟩, hu, hrest⟩ := Option.bind_eq_some_iff.mp he
      have hb := Prog.Wp.of_exec hR ht hu
      dsimp only at hb hrest
      cases hnext : next b' with
      | none =>
        rw [hnext] at hb hrest
        cases hrest
        exact hb
      | some p' =>
        rw [hnext] at hb hrest
        exact ih hb hrest

end Exec

end Loops

end MigrationSafety.Lib.Worlds
