import Mathlib.Data.List.Pairwise
import MigrationSafety.Server.Registry

/-! # Who is alive

The registry keeps the time of the last contact with each service, and a log of the heartbeats that
have been recorded. Whether a service is registered, when the last contact was and which version it
runs can be said without the tables: by the last call that says something about it (`latest`).

A row without `ORDER BY` may come at any place, and of heartbeats recorded at the same moment any may
come first.

* `lookup_reached`: a row carries what the last calls say.
* `checked`: what the liveness check answers, and what the heartbeat log shows of the services that are
  alive. -/

namespace MigrationSafety.Server.Liveness

open MigrationSafety.Lib.Histories MigrationSafety.StateMachine.Signature
open MigrationSafety.Server.Registry

/-! ### The queries -/

/-- The services of a migration. -/
def services (t : Services) (m : Id) : List (String × ServiceRegistration) :=
  t.rows.entries.filterMap fun x => if x.1.1 = m then some (x.1.2, x.2) else none

/-- `CheckServiceLiveness` on the rows it is sent, at the time `now` of the engine. -/
def checkServiceLiveness (now threshold : ℤ) (rows : List (String × ServiceRegistration)) :
    Bool × List String :=
  let deadServices := (rows.filter fun x => threshold < now - x.2.lastHeartbeat).map Prod.fst
  (deadServices.isEmpty, deadServices)

/-- `GetServiceVersions`: the map it builds from the rows. -/
def getServiceVersions (rows : List (String × ServiceRegistration)) (name : String) : Option ℤ :=
  (rows.reverse.find? fun x => x.1 = name).map fun x => x.2.schemaVersion

/-- `ORDER BY … DESC LIMIT n`. -/
def Newest {α : Type} (time : α → ℕ) (n : ℕ) (all l : List α) : Prop :=
  ∃ s : List α, s.Perm all ∧ s.Pairwise (fun x y => time y ≤ time x) ∧ l = s.take n

/-- What `GetHeartbeats` may answer. -/
def GetHeartbeats (t : Services) (m : Id) (l : List ServiceHeartbeat) : Prop :=
  Newest ServiceHeartbeat.recordedAt 100 (t.heartbeats.filter fun hb => hb.key.1 = m) l

/-- **Nothing older is preferred.** -/
theorem Newest.le {α : Type} {time : α → ℕ} {n : ℕ} {all l : List α} (h : Newest time n all l) {x : α}
    (hx : x ∈ all) : x ∈ l ∨ l.length = n ∧ ∀ y ∈ l, time x ≤ time y := by
  obtain ⟨s, hperm, hsort, rfl⟩ := h
  rw [← hperm.mem_iff, ← List.take_append_drop n s, List.mem_append] at hx
  refine hx.imp id fun hdrop => ⟨?_, fun y hy => ?_⟩
  · rw [List.length_take, min_eq_left]
    exact (List.length_pos_of_mem hdrop |> fun hpos => by
      rw [List.length_drop] at hpos
      omega)
  · rw [← List.take_append_drop n s, List.pairwise_append] at hsort
    exact hsort.2.2 y hy x hdrop

/-! ### What the calls say -/

/-- A sign of life: every call about the service, except that it is incompatible or gone. -/
def Call.contacts : Call → Bool
  | .markServiceIncompatible _ | .removeService _ => false
  | _ => true

/-- What a step finds of `k` with `f`, if any statement of it is executed. -/
def about {α : Type} (k : Key) (f : Step → Option α) (x : Step) : Option α :=
  if 0 < x.executed ∧ x.call.key = k then f x else none

/-- **The last contact with a service.** -/
def lastContact (k : Key) : List Step → Option ℕ :=
  latest (about k fun x => if Call.contacts x.call then some x.defaults.now else none)

/-- The last version a service has been registered with; `none` once it is removed. -/
def lastVersion (k : Key) : List Step → Option (Option ℤ) :=
  latest (about k fun x =>
    match x.call with
    | .registerService _ version => some (some version)
    | .removeService _ => some none
    | _ => none)

/-- **The version of a registered service.** -/
def version (k : Key) (h : List Step) : Option ℤ := (lastVersion k h).join

variable {h : List Step} {x : Step} {k : Key} {m : Id}

/-- A row carries this version and this contact. -/
def Carries (row : Option ServiceRegistration) (version : Option ℤ) (contact : Option ℕ) : Prop :=
  row.map (·.schemaVersion) = version ∧ ∀ r ∈ row, contact = some r.lastHeartbeat

theorem about_of_not {α : Type} {f : Step → Option α} (hx : ¬(0 < x.executed ∧ x.call.key = k)) :
    about k f x = none := if_neg hx

theorem about_of {α : Type} {f : Step → Option α} (hpos : 0 < x.executed) (hk : x.call.key = k) :
    about k f x = f x := if_pos ⟨hpos, hk⟩

/-- **One more call.** -/
theorem Carries.snoc {row : Option ServiceRegistration}
    (hc : Carries row (version k h) (lastContact k h)) (hpos : 0 < x.executed)
    (hk : x.call.key = k) : Carries (x.call.onRow x.defaults k row) (version k (h ++ [x]))
      (lastContact k (h ++ [x])) := by
  obtain ⟨call, d, n⟩ := x
  obtain ⟨hversion, hcontact⟩ := hc
  unfold version lastVersion at hversion ⊢
  unfold lastContact at hcontact ⊢
  rw [latest_snoc, latest_snoc, about_of hpos hk, about_of hpos hk]
  cases call with
  | registerService k' v =>
    obtain rfl : k' = k := hk
    cases row <;> simp [Carries, Call.onRow, Call.contacts]
  | removeService k' =>
    obtain rfl : k' = k := hk
    simp [Carries, Call.onRow]
  | markServiceIncompatible k' =>
    obtain rfl : k' = k := hk
    cases row with
    | none => simpa [Carries, Call.onRow] using hversion
    | some r => simpa [Carries, Call.onRow, Call.contacts] using ⟨hversion, hcontact r rfl⟩
  | _ k' =>
    obtain rfl : k' = k := hk
    cases row with
    | none => simpa [Carries, Call.onRow] using hversion
    | some r => simpa [Carries, Call.onRow, Call.contacts] using hversion

/-- **A row carries what the last calls say.** -/
theorem lookup_reached : Carries ((reached h).rows.lookup k) (version k h) (lastContact k h) := by
  induction h using List.reverseRecOn with
  | nil => exact ⟨rfl, fun r hr => by simp [reached] at hr⟩
  | append_singleton h x ih =>
    rw [reached_snoc, lookup_run]
    by_cases hx : 0 < x.executed ∧ x.call.key = k
    · rw [if_pos hx.1]
      exact ih.snoc hx.1 hx.2
    · have hsame : (if 0 < x.executed then x.call.onRow x.defaults k ((reached h).rows.lookup k)
          else (reached h).rows.lookup k) = (reached h).rows.lookup k := by
        split_ifs with hpos
        · exact onRow_of_ne fun hk => hx ⟨hpos, hk⟩
        · rfl
      rw [hsame]
      unfold version lastVersion lastContact
      rw [latest_snoc, latest_snoc, about_of_not hx, about_of_not hx]
      exact ih

/-! ### The rows -/

variable {t : Services} {name : String} {r : ServiceRegistration}

theorem mem_services : (name, r) ∈ services t m ↔ t.rows.lookup (m, name) = some r := by
  unfold services
  rw [← Option.mem_def, AList.mem_lookup_iff, List.mem_filterMap]
  constructor
  · rintro ⟨⟨⟨m', name'⟩, r'⟩, hx, heq⟩
    split_ifs at heq with hm
    cases heq
    cases hm
    exact hx
  · intro hx
    exact ⟨⟨(m, name), r⟩, hx, if_pos rfl⟩

theorem names_services (t : Services) (m : Id) :
    (services t m).map Prod.fst = (t.rows.keys.filter fun k => k.1 = m).map Prod.snd := by
  unfold services AList.keys List.keys
  rw [List.map_filterMap, List.filter_map, List.map_map, ← List.filterMap_eq_map, List.filterMap_filter]
  refine List.filterMap_congr fun x _ => ?_
  by_cases hx : x.1.1 = m <;> simp [hx]

/-- There is one row for a service. -/
theorem nodup_services (t : Services) (m : Id) : ((services t m).map Prod.fst).Nodup := by
  rw [names_services]
  refine (t.rows.keys_nodup.filter _).map_on fun k hk k' hk' heq => ?_
  have h := of_decide_eq_true (List.mem_filter.mp hk).2
  have h' := of_decide_eq_true (List.mem_filter.mp hk').2
  exact Prod.ext (h.trans h'.symm) heq

/-! ### The heartbeats -/

/-- The heartbeat a step has recorded: the second of its two statements. -/
def beat (x : Step) : Option ServiceHeartbeat :=
  match x.call with
  | .recordHeartbeat k payload =>
    if 1 < x.executed then some ⟨x.defaults.id, k, payload, x.defaults.now⟩ else none
  | _ => none

theorem heartbeats_run : (x.run t).heartbeats = t.heartbeats ++ (beat x).toList := by
  obtain ⟨call, d, n⟩ := x
  have hupdate : ∀ k f, (t.update k f).heartbeats = t.heartbeats := fun k f => by
    unfold Services.update
    cases t.rows.lookup k <;> rfl
  cases call with
  | recordHeartbeat k payload =>
    rcases n with _ | _ | n
    · simp [Step.run, beat]
    · simp [Step.run, Call.stmts, beat, hupdate]
    · simp [Step.run, Call.stmts, beat, Services.insertHeartbeat, hupdate]
  | registerService k version =>
    cases n <;> simp [Step.run, Call.stmts, beat, Services.upsert]
  | removeService k => cases n <;> simp [Step.run, Call.stmts, beat, Services.delete]
  | _ => cases n <;> simp [Step.run, Call.stmts, beat, hupdate]

theorem heartbeats_reached : (reached h).heartbeats = h.filterMap beat := by
  induction h using List.reverseRecOn with
  | nil => rfl
  | append_singleton h x ih =>
    rw [reached_snoc, heartbeats_run, ih, List.filterMap_append]
    cases hx : beat x <;> simp [hx]

/-- The clock of the database does not go back. -/
def Ordered (h : List Step) : Prop := h.Pairwise fun x y => x.defaults.now ≤ y.defaults.now

/-- **No contact is later than the last one.** -/
theorem le_lastContact (ho : Ordered h) (hx : x ∈ h) (hpos : 0 < x.executed) (hk : x.call.key = k)
    (hc : Call.contacts x.call = true) : ∃ c, lastContact k h = some c ∧ x.defaults.now ≤ c := by
  induction h using List.reverseRecOn with
  | nil => cases hx
  | append_singleton h y ih =>
    obtain ⟨hh, -, hy⟩ := List.pairwise_append.mp ho
    unfold lastContact
    rw [latest_snoc]
    by_cases hay : (0 < y.executed ∧ y.call.key = k) ∧ Call.contacts y.call = true
    · refine ⟨y.defaults.now, by rw [about_of hay.1.1 hay.1.2, if_pos hay.2]; rfl, ?_⟩
      rcases List.mem_append.mp hx with hx | hx
      · exact hy x hx y (List.mem_singleton_self y)
      · rw [List.mem_singleton.mp hx]
    · have hnone : about k (fun x => if Call.contacts x.call then some x.defaults.now else none) y =
          none := by
        by_cases hy : 0 < y.executed ∧ y.call.key = k
        · rw [about_of hy.1 hy.2, if_neg fun h => hay ⟨hy, h⟩]
        · exact about_of_not hy
      rw [hnone]
      refine ih hh ((List.mem_append.mp hx).resolve_right fun hx => hay ?_)
      rw [← List.mem_singleton.mp hx]
      exact ⟨⟨hpos, hk⟩, hc⟩

/-- A heartbeat is a contact. -/
theorem beat_contact {hb : ServiceHeartbeat} (ho : Ordered h) (hx : hb ∈ (reached h).heartbeats) :
    ∃ c, lastContact hb.key h = some c ∧ hb.recordedAt ≤ c := by
  rw [heartbeats_reached] at hx
  obtain ⟨⟨call, d, n⟩, hmem, hbeat⟩ := List.mem_filterMap.mp hx
  cases call with
  | recordHeartbeat k payload =>
    obtain ⟨hn, heq⟩ := Option.ite_none_right_eq_some.mp hbeat
    cases heq
    exact le_lastContact ho hmem (Nat.zero_lt_one.trans hn) rfl rfl
  | _ => cases hbeat

/-! ### The check -/

/-- **What the liveness check says**: `dead` are the services of the migration with which there has
been no contact for longer than the threshold. -/
structure Checked (h : List Step) (m : Id) (now threshold : ℤ) (alive : Bool) (dead : List String) :
    Prop where
  dead_iff : ∀ name, name ∈ dead ↔ ∃ v c, version (m, name) h = some v ∧
    lastContact (m, name) h = some c ∧ threshold < now - c
  once : dead.Nodup
  alive_iff : alive = true ↔ ∀ name v c, version (m, name) h = some v →
    lastContact (m, name) h = some c → now - c ≤ threshold

theorem checked_of_perm {rows : List (String × ServiceRegistration)} (now threshold : ℤ)
    (hrows : rows.Perm (services (reached h) m)) : Checked h m now threshold
      (checkServiceLiveness now threshold rows).1 (checkServiceLiveness now threshold rows).2 := by
  have hdead : ∀ name, name ∈ (checkServiceLiveness now threshold rows).2 ↔ ∃ v c,
      version (m, name) h = some v ∧ lastContact (m, name) h = some c ∧ threshold < now - c := by
    intro name
    obtain ⟨hversion, hcontact⟩ := lookup_reached (h := h) (k := (m, name))
    have hmem : name ∈ (checkServiceLiveness now threshold rows).2 ↔
        ∃ r, (reached h).rows.lookup (m, name) = some r ∧ threshold < now - r.lastHeartbeat := by
      simp [checkServiceLiveness, hrows.mem_iff, mem_services]
    rw [hmem, ← hversion]
    cases hrow : (reached h).rows.lookup (m, name) with
    | none => simp
    | some r => simp [hcontact r hrow]
  refine ⟨hdead, ?_, ?_⟩
  · exact ((hrows.map Prod.fst).nodup_iff.mpr (nodup_services _ _)).sublist
      (List.filter_sublist.map Prod.fst)
  · have hempty : (checkServiceLiveness now threshold rows).1 = true ↔
        ∀ name, name ∉ (checkServiceLiveness now threshold rows).2 := by
      rw [← List.eq_nil_iff_forall_not_mem]
      exact List.isEmpty_iff
    rw [hempty]
    refine forall_congr' fun name => ?_
    rw [hdead name]
    simp only [not_exists, not_and, not_lt]

theorem versions_of_perm {rows : List (String × ServiceRegistration)}
    (hrows : rows.Perm (services (reached h) m)) (name : String) :
    getServiceVersions rows name = version (m, name) h := by
  obtain ⟨hversion, -⟩ := lookup_reached (h := h) (k := (m, name))
  unfold getServiceVersions
  rw [← hversion]
  cases hfind : rows.reverse.find? fun x => x.1 = name with
  | none =>
    cases hrow : (reached h).rows.lookup (m, name) with
    | none => rfl
    | some r =>
      have hmem := List.mem_reverse.mpr (hrows.mem_iff.mpr (mem_services.mpr hrow))
      exact absurd (decide_eq_true rfl) (List.find?_eq_none.mp hfind (name, r) hmem)
  | some x =>
    obtain ⟨name', r⟩ := x
    obtain rfl : name' = name := by simpa using List.find?_some hfind
    have hmem := hrows.mem_iff.mp (List.mem_reverse.mp (List.mem_of_find?_eq_some hfind))
    rw [mem_services.mp hmem]
    rfl

/-- **The registry's reports fit the history**: the versions are those of the last registrations, the
liveness check finds who has not been heard of, and a service of which the heartbeat log shows a recent
heartbeat is not among them; nor is one with a recent heartbeat the log has no room for, if the log
is full of newer ones. -/
theorem checked {rows : List (String × ServiceRegistration)} {beats : List ServiceHeartbeat}
    {now threshold : ℤ} (ho : Ordered h) (hrows : rows.Perm (services (reached h) m))
    (hbeats : GetHeartbeats (reached h) m beats) :
    (∀ name, getServiceVersions rows name = version (m, name) h) ∧
      Checked h m now threshold (checkServiceLiveness now threshold rows).1
        (checkServiceLiveness now threshold rows).2 ∧
      (∀ hb ∈ beats, hb.key.1 = m ∧
        (hb.key.2 ∈ (checkServiceLiveness now threshold rows).2 → threshold < now - hb.recordedAt)) ∧
      ∀ hb ∈ (reached h).heartbeats, hb.key.1 = m →
        hb ∈ beats ∨ beats.length = 100 ∧ ∀ b ∈ beats, hb.recordedAt ≤ b.recordedAt := by
  have hchecked := checked_of_perm now threshold hrows
  refine ⟨versions_of_perm hrows, hchecked, fun hb hmem => ?_, fun hb hmem hm => ?_⟩
  · obtain ⟨s, hperm, -, rfl⟩ := hbeats
    obtain ⟨hlog, hm⟩ := List.mem_filter.mp (hperm.mem_iff.mp (List.mem_of_mem_take hmem))
    have hm := of_decide_eq_true hm
    refine ⟨hm, fun hdead => ?_⟩
    obtain ⟨v, c, -, hc, hlt⟩ := (hchecked.dead_iff _).mp hdead
    obtain ⟨c', hc', hle⟩ := beat_contact ho hlog
    rw [← hm, Prod.mk.eta, hc'] at hc
    obtain rfl := Option.some.inj hc
    have : (hb.recordedAt : ℤ) ≤ c' := by exact_mod_cast hle
    omega
  · exact hbeats.le (List.mem_filter.mpr ⟨hmem, decide_eq_true hm⟩)

/-- Three services: one is silent, one beats, one is declared incompatible, which is no contact. -/
def threeServices : List Step :=
  [⟨.registerService (0, "orders") 1, ⟨0, 0⟩, 1⟩, ⟨.registerService (0, "billing") 1, ⟨1, 1⟩, 1⟩,
    ⟨.registerService (0, "stock") 2, ⟨2, 2⟩, 1⟩, ⟨.recordHeartbeat (0, "billing") "{}", ⟨0, 50⟩, 2⟩,
    ⟨.markServiceIncompatible (0, "stock"), ⟨0, 60⟩, 1⟩]

theorem checked_three : ∃ rows beats, rows.Perm (services (reached threeServices) 0) ∧
    GetHeartbeats (reached threeServices) 0 beats ∧
    (checkServiceLiveness 61 30 rows).2.length = 2 ∧
    (∀ name, getServiceVersions rows name = version (0, name) threeServices) ∧
      Checked threeServices 0 61 30 (checkServiceLiveness 61 30 rows).1
        (checkServiceLiveness 61 30 rows).2 ∧
      (∀ hb ∈ beats, hb.key.1 = 0 ∧
        (hb.key.2 ∈ (checkServiceLiveness 61 30 rows).2 → 30 < 61 - (hb.recordedAt : ℤ))) ∧
      ∀ hb ∈ (reached threeServices).heartbeats, hb.key.1 = 0 →
        hb ∈ beats ∨ beats.length = 100 ∧ ∀ b ∈ beats, hb.recordedAt ≤ b.recordedAt := by
  have hbeats : GetHeartbeats (reached threeServices) 0 [⟨0, (0, "billing"), "{}", 50⟩] :=
    ⟨[⟨0, (0, "billing"), "{}", 50⟩], List.Perm.refl _, List.pairwise_singleton _ _, rfl⟩
  exact ⟨_, _, List.Perm.refl _, hbeats, by decide,
    checked (by unfold Ordered; decide) (List.Perm.refl _) hbeats⟩

end MigrationSafety.Server.Liveness
