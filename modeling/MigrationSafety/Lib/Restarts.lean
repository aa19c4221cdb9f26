import MigrationSafety.Lib.Worlds

/-! # Programs that start again

A machine is a world with at most one program at work in it. The world answers the operations of the
program as `R` allows; a program that ends may name the next one; and at any time a program may start
in place of the one at work, which is then lost (`Step.enter`), with what the world has become.

`machine_inv` is the rule for invariants: a property `I` of the world that every allowed step keeps,
and a property `J` of the world at the start of each program that makes all its steps allowed.
`path_of_ticks` makes runs. -/

namespace MigrationSafety.Lib.Restarts

open MigrationSafety.Lib.Effects MigrationSafety.Lib.Paths MigrationSafety.Lib.Worlds

variable {S : Sig} {σ ι π β : Type}

/-- A world, and the program at work in it. -/
structure Machine (S : Sig) (σ β : Type) where
  world : σ
  code : Option (Prog S β)

/-- The program at work waits for the answer to an operation. -/
def Machine.Asks (m : Machine S σ β) (op : S.Op) : Prop := ∃ k, m.code = some (.call op k)

inductive Move (S : Sig) (ι π : Type)
  /-- A program starts; one that was at work is lost. -/
  | enter (p : π)
  /-- An operation is answered. -/
  | answer (x : Event S × ι)
  /-- A program has ended, and the one it names starts. -/
  | advance

inductive Step (R : σ → Event S × ι → σ → Prop) (entry : σ → π → Prop) (body : π → Prog S β)
    (next : β → Option π) : Machine S σ β → Move S ι π → Machine S σ β → Prop
  | enter {m : Machine S σ β} {p : π} (h : entry m.world p) :
    Step R entry body next m (.enter p) ⟨m.world, some (body p)⟩
  | answer {s t : σ} {op : S.Op} {k : S.Ret op → Prog S β} {r : S.Ret op} {i : ι}
      (h : R s (⟨op, r⟩, i) t) :
    Step R entry body next ⟨s, some (.call op k)⟩ (.answer (⟨op, r⟩, i)) ⟨t, some (k r)⟩
  | advance {s : σ} {b : β} {p : π} (h : next b = some p) :
    Step R entry body next ⟨s, some (.ret b)⟩ .advance ⟨s, some (body p)⟩

section
variable {R : σ → Event S × ι → σ → Prop} {entry : σ → π → Prop} {body : π → Prog S β}
  {next : β → Option π} {C : σ → Event S × ι → Prop} {I : σ → Prop} {J : π → σ → Prop}
  {m m' : Machine S σ β} {a : Move S ι π} {as : List (Move S ι π)} {s t : σ}

/-- What is left of the program at work only takes allowed steps, and the next one may start after it. -/
structure Sound (R : σ → Event S × ι → σ → Prop) (next : β → Option π)
    (C : σ → Event S × ι → Prop) (I : σ → Prop) (J : π → σ → Prop) (m : Machine S σ β) : Prop where
  world : I m.world
  code : ∀ c, m.code = some c →
    Prog.Wp R C (fun b t => ∀ p, next b = some p → J p t) c m.world

/-- **The rule for invariants.** -/
theorem Sound.step (hm : Sound R next C I J m) (h : Step R entry body next m a m')
    (hI : ∀ s x t, I s → R s x t → C s x → I t) (hentry : ∀ s p, I s → entry s p → J p s)
    (hbody : ∀ p s, I s → J p s →
      Prog.Wp R C (fun b t => ∀ p', next b = some p' → J p' t) (body p) s) :
    Sound R next C I J m' := by
  cases h with
  | enter hp =>
    refine ⟨hm.world, fun c hc => ?_⟩
    cases hc
    exact hbody _ _ hm.world (hentry _ _ hm.world hp)
  | answer hr =>
    obtain ⟨hC, hk⟩ := hm.code _ rfl _ _ _ hr
    refine ⟨hI _ _ _ hm.world hr hC, fun c hc => ?_⟩
    cases hc
    exact hk
  | advance hp =>
    refine ⟨hm.world, fun c hc => ?_⟩
    cases hc
    exact hbody _ _ hm.world (hm.code _ rfl _ hp)

theorem machine_inv (hI : ∀ s x t, I s → R s x t → C s x → I t)
    (hentry : ∀ s p, I s → entry s p → J p s)
    (hbody : ∀ p s, I s → J p s →
      Prog.Wp R C (fun b t => ∀ p', next b = some p' → J p' t) (body p) s)
    (h : Path (Step R entry body next) m as m') (hm : Sound R next C I J m) :
    Sound R next C I J m' :=
  h.invariant hm fun _ _ _ hu hstep => hu.step hstep hI hentry hbody

/-- Every answer on the way was allowed. -/
theorem answers_allowed (hI : ∀ s x t, I s → R s x t → C s x → I t)
    (hentry : ∀ s p, I s → entry s p → J p s)
    (hbody : ∀ p s, I s → J p s →
      Prog.Wp R C (fun b t => ∀ p', next b = some p' → J p' t) (body p) s)
    (h : Path (Step R entry body next) m as m') (hm : Sound R next C I J m) {x : Event S × ι}
    (hx : .answer x ∈ as) : ∃ s, I s ∧ C s x := by
  induction h with
  | nil => simp at hx
  | @snoc u v as a h ha ih =>
    rcases List.mem_append.mp hx with hx | hx
    · exact ih hx
    · rw [← List.mem_singleton.mp hx] at ha
      have hu := machine_inv hI hentry hbody h hm
      cases ha with
      | answer hr => exact ⟨_, hu.world, (hu.code _ rfl _ _ _ hr).1⟩

/-- Nothing is at work yet. -/
theorem sound_idle (h : I s) : Sound R next C I J (⟨s, none⟩ : Machine S σ β) :=
  ⟨h, fun _ hc => nomatch hc⟩

/-- A program has just started. -/
theorem sound_start {p : π} (h : I s) (hp : J p s)
    (hbody : ∀ p s, I s → J p s →
      Prog.Wp R C (fun b t => ∀ p', next b = some p' → J p' t) (body p) s) :
    Sound R next C I J ⟨s, some (body p)⟩ :=
  ⟨h, fun c hc => by cases hc; exact hbody p s h hp⟩

/-- What is asked for is allowed, if it can be answered at all. -/
theorem Sound.allowed (hm : Sound R next C I J m) {op : S.Op} (hop : m.Asks op) {r : S.Ret op} {i : ι}
    (hr : R m.world (⟨op, r⟩, i) t) : C m.world (⟨op, r⟩, i) := by
  obtain ⟨k, hk⟩ := hop
  exact (hm.code _ hk r i t hr).1

/-! ### Runs of a machine -/

def Move.isAdvance : Move S ι π → Bool
  | advance => true
  | _ => false

/-- How often a program has handed on to the next. -/
def advances (as : List (Move S ι π)) : ℕ := as.countP Move.isAdvance

@[simp] theorem advances_append (as bs : List (Move S ι π)) :
    advances (as ++ bs) = advances as + advances bs := List.countP_append

@[simp] theorem advances_answers (l : List (Event S × ι)) :
    advances (l.map .answer : List (Move S ι π)) = 0 := by
  simp [advances, List.countP_map, List.countP_eq_zero, Move.isAdvance]

/-- The answers to what is at work are steps of the machine. -/
theorem path_of_after {p q : Prog S β} {l : List (Event S × ι)} (hl : Path R s l t)
    (h : After p (l.map Prod.fst) q) :
    Path (Step R entry body next) ⟨s, some p⟩ (l.map .answer) ⟨t, some q⟩ := by
  induction l generalizing p s with
  | nil =>
    obtain rfl := path_nil.mp hl
    cases h
    exact Path.nil
  | cons x l ih =>
    obtain ⟨u, hu, hrest⟩ := path_cons.mp hl
    obtain ⟨ev, i⟩ := x
    cases h with
    | cons h => exact Path.cons (Step.answer hu) (ih hrest h)

/-! ### Concrete runs -/

/-- One move of an undisturbed machine whose operations are answered by `h`. -/
def Machine.tick (h : (e : S.Op) → σ → Option (S.Ret e × σ)) (body : π → Prog S β)
    (next : β → Option π) : Machine S σ β → Option (Machine S σ β)
  | ⟨_, none⟩ => none
  | ⟨s, some (.ret b)⟩ => (next b).map fun p => ⟨s, some (body p)⟩
  | ⟨s, some (.call e k)⟩ => (h e s).map fun x => ⟨x.2, some (k x.1)⟩

def Machine.ticks (h : (e : S.Op) → σ → Option (S.Ret e × σ)) (body : π → Prog S β)
    (next : β → Option π) : ℕ → Machine S σ β → Option (Machine S σ β)
  | 0, m => some m
  | n + 1, m => (m.tick h body next).bind (ticks h body next n)

/-- Answers that the world allows make a run. -/
theorem path_of_ticks {h : (e : S.Op) → σ → Option (S.Ret e × σ)} {n : ℕ}
    (hR : ∀ e s r t, h e s = some (r, t) → ∃ i, R s (⟨e, r⟩, i) t)
    (hm : Machine.ticks h body next n m = some m') :
    ∃ as : List (Move S ι π), Path (Step R entry body next) m as m' := by
  induction n generalizing m with
  | zero =>
    cases hm
    exact ⟨[], Path.nil⟩
  | succ n ih =>
    obtain ⟨u, hu, hrest⟩ := Option.bind_eq_some_iff.mp hm
    obtain ⟨as, has⟩ := ih hrest
    rcases m with ⟨s, _ | ⟨b | ⟨e, k⟩⟩⟩
    · cases hu
    · obtain ⟨p, hp, rfl⟩ := Option.map_eq_some_iff.mp hu
      exact ⟨_, Path.cons (Step.advance hp) has⟩
    · obtain ⟨⟨r, t⟩, ht, rfl⟩ := Option.map_eq_some_iff.mp hu
      obtain ⟨i, hi⟩ := hR e s r t ht
      exact ⟨_, Path.cons (Step.answer hi) has⟩

end

end MigrationSafety.Lib.Restarts
