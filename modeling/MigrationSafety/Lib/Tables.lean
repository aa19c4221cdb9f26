import Mathlib.Data.List.Nodup
import Mathlib.Logic.Function.Basic

/-! # Tables

Entries by their keys: a table that is filled one entry after another, and a list of entries that is
grouped by their keys.

* `lookup_alter`: only the entry of the key changes.
* `filter_of_perm`: what one key selects, in whatever order the entries are.
* `foldl_update`: a table filled with entries of different keys is their list, looked up.
* `pick_filterMap_iff`: the groups of what has been read are those of what there is if and only if every
  entry has been read. -/

namespace MigrationSafety.Lib.Tables

variable {α κ β : Type} {k : κ} {v : β} {es : List (κ × β)}

/-! ### Filling -/

section Filling
variable [BEq κ] [LawfulBEq κ]

/-- **An entry is found** by its key. -/
theorem lookup_of_mem (hn : (es.map Prod.fst).Nodup) (h : (k, v) ∈ es) : es.lookup k = some v := by
  induction es with
  | nil => cases h
  | cons e es ih =>
    rw [List.map_cons, List.nodup_cons] at hn
    rcases List.mem_cons.mp h with rfl | h
    · exact List.lookup_cons_self
    · have hne : (k == e.1) = false := by
        rw [beq_eq_false_iff_ne]
        intro heq
        exact hn.1 (heq ▸ List.mem_map_of_mem h)
      rw [List.lookup_cons, hne]
      exact ih hn.2 h

theorem foldl_update [DecidableEq κ] (hn : (es.map Prod.fst).Nodup) (t : κ → Option β) :
    es.foldl (fun (t : κ → Option β) e => Function.update t e.1 (some e.2)) t k = (es.lookup k).or (t k) := by
  induction es generalizing t with
  | nil => rfl
  | cons e es ih =>
    rw [List.map_cons, List.nodup_cons] at hn
    rw [List.foldl_cons, ih hn.2, List.lookup_cons]
    by_cases hk : k = e.1
    · have hnone : es.lookup k = none := by
        rw [List.lookup_eq_none_iff]
        intro e' he'
        rw [bne_iff_ne]
        rintro heq
        exact hn.1 (hk ▸ heq ▸ List.mem_map_of_mem he')
      rw [hnone, hk, Function.update_self, beq_self_eq_true]
      rfl
    · rw [Function.update_of_ne hk, beq_false_of_ne hk]

end Filling

/-! ### Changing one entry -/

section Changing
variable [DecidableEq κ] {f : Option β → β}

/-- What belongs to a key is changed; if there is nothing, it is added at the end. -/
def alter (k : κ) (f : Option β → β) : List (κ × β) → List (κ × β)
  | [] => [(k, f none)]
  | e :: es => if e.1 = k then (k, f (some e.2)) :: es else e :: alter k f es

theorem alter_of_not_mem (h : k ∉ es.map Prod.fst) : alter k f es = es ++ [(k, f none)] := by
  induction es with
  | nil => rfl
  | cons e es ih =>
    rw [List.map_cons, List.mem_cons, not_or] at h
    unfold alter
    rw [if_neg (Ne.symm h.1), ih h.2, List.cons_append]

theorem map_fst_alter_of_mem (h : k ∈ es.map Prod.fst) :
    (alter k f es).map Prod.fst = es.map Prod.fst := by
  induction es with
  | nil => cases h
  | cons e es ih =>
    unfold alter
    by_cases he : e.1 = k
    · rw [if_pos he, List.map_cons, List.map_cons, he]
    · rw [if_neg he, List.map_cons, List.map_cons, ih]
      exact (List.mem_cons.mp h).resolve_left (Ne.symm he)

/-- **No key is there twice.** -/
theorem nodup_alter (hn : (es.map Prod.fst).Nodup) : ((alter k f es).map Prod.fst).Nodup := by
  by_cases h : k ∈ es.map Prod.fst
  · rwa [map_fst_alter_of_mem h]
  · rw [alter_of_not_mem h, List.map_append]
    refine hn.append (List.nodup_singleton k) fun k' hk' hmem => h ?_
    obtain rfl := List.mem_singleton.mp hmem
    exact hk'

theorem forall_mem_alter {P : κ → Prop} (hk : P k) (h : ∀ e ∈ es, P e.1) : ∀ e ∈ alter k f es, P e.1 := by
  intro e he
  have hmem := List.mem_map_of_mem (f := Prod.fst) he
  by_cases hin : k ∈ es.map Prod.fst
  · rw [map_fst_alter_of_mem hin] at hmem
    obtain ⟨e', he', heq⟩ := List.mem_map.mp hmem
    exact heq ▸ h e' he'
  · rw [alter_of_not_mem hin] at he
    rcases List.mem_append.mp he with he | he
    · exact h e he
    · obtain rfl := List.mem_singleton.mp he
      exact hk

variable [BEq κ] [LawfulBEq κ]

theorem lookup_cons_eq_ite (k k' : κ) : ((k', v) :: es).lookup k = if k = k' then some v else es.lookup k := by
  rw [List.lookup_cons]
  by_cases h : k = k'
  · rw [h, beq_self_eq_true, if_pos rfl]
  · rw [beq_false_of_ne h, if_neg h]

/-- **Only the entry of the key changes.** -/
theorem lookup_alter (k' : κ) :
    (alter k f es).lookup k' = if k' = k then some (f (es.lookup k)) else es.lookup k' := by
  induction es with
  | nil => exact lookup_cons_eq_ite k' k
  | cons e es ih =>
    obtain ⟨k₀, v₀⟩ := e
    unfold alter
    by_cases he : k₀ = k
    · obtain rfl := he
      rw [if_pos rfl, lookup_cons_eq_ite, lookup_cons_eq_ite, lookup_cons_eq_ite, if_pos rfl]
      split_ifs <;> rfl
    · rw [if_neg he, lookup_cons_eq_ite, ih, lookup_cons_eq_ite, lookup_cons_eq_ite, if_neg (Ne.symm he)]
      by_cases h : k' = k₀
      · rw [if_pos h, if_pos h, if_neg fun heq => he (h ▸ heq)]
      · rw [if_neg h, if_neg h]

end Changing

/-! ### Selecting one entry -/

section Selecting
variable [DecidableEq κ] [BEq κ] [LawfulBEq κ] {g : κ × β → α} {p : α → Bool} {as : List α}

theorem mem_of_lookup (h : es.lookup k = some v) : (k, v) ∈ es := by
  induction es with
  | nil => cases h
  | cons e es ih =>
    rw [List.lookup_cons] at h
    by_cases hk : k = e.1
    · obtain rfl := hk
      rw [beq_self_eq_true] at h
      obtain rfl := Option.some.inj h
      exact List.mem_cons_self
    · rw [beq_false_of_ne hk] at h
      exact List.mem_cons_of_mem _ (ih h)

theorem filter_eq_lookup (hn : (es.map Prod.fst).Nodup) :
    es.filter (·.1 = k) = ((es.lookup k).map fun v => (k, v)).toList := by
  induction es with
  | nil => rfl
  | cons e es ih =>
    rw [List.map_cons, List.nodup_cons] at hn
    rw [List.filter_cons, List.lookup_cons]
    by_cases hk : e.1 = k
    · obtain rfl := hk
      have hnone : es.filter (·.1 = e.1) = [] := by
        rw [List.filter_eq_nil_iff]
        intro e' he' heq
        exact hn.1 (of_decide_eq_true heq ▸ List.mem_map_of_mem he')
      simp [hnone]
    · rw [beq_false_of_ne (Ne.symm hk), if_neg (by simpa using hk)]
      exact ih hn.2

/-- **What one key selects**, in whatever order the entries are. -/
theorem filter_of_perm (hperm : as.Perm (es.map g)) (hn : (es.map Prod.fst).Nodup)
    (hp : ∀ e ∈ es, p (g e) = true ↔ e.1 = k) :
    as.filter p = ((es.lookup k).map fun v => g (k, v)).toList := by
  have hfilter : (es.map g).filter p = ((es.lookup k).map fun v => g (k, v)).toList := by
    have hsame : es.filter (p ∘ g) = es.filter (·.1 = k) :=
      List.filter_congr fun e he => by
        rw [Bool.eq_iff_iff, decide_eq_true_iff]
        exact hp e he
    rw [List.filter_map, hsame, filter_eq_lookup hn]
    cases es.lookup k <;> rfl
  have hsel := hperm.filter p
  rw [hfilter] at hsel
  cases hl : es.lookup k with
  | none =>
    rw [hl] at hsel
    exact hsel.eq_nil
  | some v =>
    rw [hl] at hsel
    exact List.perm_singleton.mp hsel

end Selecting

/-! ### Grouping -/

section Grouping
variable [DecidableEq κ]

/-- The values of a key, in order. -/
def pick (k : κ) (es : List (κ × β)) : List β := es.filterMap fun e => if e.1 = k then some e.2 else none

variable {f : α → Option (κ × β)} {key : α → κ} {g : α → β} {l : List α}

/-- The values read of the entries of a key. -/
theorem pick_filterMap (hf : ∀ a r, f a = some r → r.1 = key a) :
    pick k (l.filterMap f) = (l.filter (key · = k)).filterMap fun a => (f a).map Prod.snd := by
  induction l with
  | nil => rfl
  | cons a l ih =>
    rw [List.filterMap_cons, List.filter_cons]
    cases ha : f a with
    | none =>
      split_ifs
      · rw [List.filterMap_cons, ha]
        exact ih
      · exact ih
    | some r =>
      have hr := hf a r ha
      unfold pick at ih ⊢
      rw [List.filterMap_cons, ih, hr]
      by_cases hk : key a = k <;> simp [hk, ha]

/-- As many values as entries: each has been read. -/
theorem filterMap_eq_map_iff {h : α → Option β} : l.filterMap h = l.map g ↔ ∀ a ∈ l, h a = some (g a) := by
  induction l with
  | nil => simp
  | cons a l ih =>
    rw [List.filterMap_cons, List.map_cons, List.forall_mem_cons]
    cases ha : h a with
    | none =>
      refine ⟨fun heq => ?_, fun heq => by cases heq.1⟩
      have hlen := congrArg List.length heq
      rw [List.length_cons, List.length_map] at hlen
      have hle := List.length_filterMap_le h l
      change (l.filterMap h).length = _ at hlen
      omega
    | some b => rw [List.cons.injEq, ih, Option.some.injEq]

/-- **The groups are right** if and only if every entry has been read as it is. -/
theorem pick_filterMap_iff (hf : ∀ a r, f a = some r → r.1 = key a) :
    (∀ k, pick k (l.filterMap f) = (l.filter (key · = k)).map g) ↔
      ∀ a ∈ l, f a = some (key a, g a) := by
  have hsnd : ∀ a, ((f a).map Prod.snd = some (g a) ↔ f a = some (key a, g a)) := by
    intro a
    cases ha : f a with
    | none => simp
    | some r =>
      have hr := hf a r ha
      rw [Option.map_some, Option.some.injEq, Option.some.injEq, Prod.ext_iff]
      exact ⟨fun h => ⟨hr, h⟩, fun h => h.2⟩
  simp only [pick_filterMap hf, filterMap_eq_map_iff, hsnd, List.mem_filter, decide_eq_true_eq]
  exact ⟨fun h a ha => h (key a) a ⟨ha, rfl⟩, fun h k a ha => h a ha.1⟩

end Grouping

end MigrationSafety.Lib.Tables
