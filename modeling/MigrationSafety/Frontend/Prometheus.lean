import MigrationSafety.Lib.Exposition
import MigrationSafety.Lib.Tables

/-! # The metrics of the dashboard

The engine exports its metrics in the text exposition format, and the dashboard parses them: a line is cut
at its first braces, the labels at commas, and a label at its first equals sign; what is between the
quotes is trimmed. Nothing is unescaped.

Names survive this (`fst_parseLine`), and so does a sample whose label values have none of the characters
the parser cuts at or the format escapes, and no white space at their ends. Every other sample is read as
something else, or lost (`readsBack_iff`). -/

namespace MigrationSafety.Frontend.Prometheus

open MigrationSafety.Lib.Binary64 MigrationSafety.Lib.Exposition MigrationSafety.Lib.Tables
open MigrationSafety.Lib.Texts

/-! ### The parser -/

/-- A `Record<string, string>`, by its own keys. -/
abbrev Labels := Text → Option Text

structure MetricSample where
  labels : Labels
  value : Number

/-- `metrics.get(name) || []`. -/
abbrev MetricMap := Text → List MetricSample

/-- `labels[key] = val`: a string is not assigned to `__proto__`. -/
def setLabel (labels : Labels) (key val : Text) : Labels :=
  if key = "__proto__".toList then labels else Function.update labels key (some val)

/-- One pair of `parseLabels`. -/
def parsePair (labels : Labels) (pair : Text) : Labels :=
  match cut '=' pair with
  | none => labels
  | some (key, val) => setLabel labels (trim key) (trim (dropEnd '"' (dropStart '"' val)))

def parseLabels (labelStr : Text) : Labels :=
  if labelStr = [] then fun _ => none
  else
    let cleaned := dropEnd '}' (dropStart '{' labelStr)
    (cleaned.splitOn ',').foldl parsePair fun _ => none

/-- One line of `parsePrometheusText`: the sample it adds. -/
def parseLine (line : Text) : Option (Text × MetricSample) :=
  if line.head? = some '#' ∨ trim line = [] then none
  else
    match cut '{' line with
    | none =>
      match line.splitOn ' ' with
      | name :: value :: _ => (parseFloat value).map fun value => (name, ⟨fun _ => none, value⟩)
      | _ => none
    | some (name, rest) =>
      match cut '}' ('{' :: rest) with
      | none => none
      | some (labelStr, afterLabels) =>
        let parts := (trim afterLabels).splitOn ' '
        (parseFloat (parts.headD [])).map fun value => (name, ⟨parseLabels (labelStr ++ ['}']), value⟩)

def addSample (metrics : MetricMap) (line : Text) : MetricMap :=
  match parseLine line with
  | none => metrics
  | some (name, s) => Function.update metrics name (metrics name ++ [s])

def parsePrometheusText (text : Text) : MetricMap := (text.splitOn '\n').foldl addSample fun _ => []

/-! ### What the engine exports -/

/-- A metric with its labels. -/
structure Desc where
  name : String
  labels : List String

def stateInfo : Desc := ⟨"migrate_state_info", ["migration_id", "plan_id", "state"]⟩

def transitions : Desc := ⟨"migrate_state_transitions_total", ["plan_id", "to_state"]⟩

def backfillRowsTotal : Desc := ⟨"migrate_backfill_rows_total", ["migration_id", "plan_id"]⟩

def backfillRowsDone : Desc := ⟨"migrate_backfill_rows_done", ["migration_id", "plan_id"]⟩

def verifyParity : Desc := ⟨"migrate_verify_parity", ["migration_id", "plan_id"]⟩

def canaryStep : Desc := ⟨"migrate_canary_step_pct", ["migration_id", "plan_id"]⟩

def rollbacks : Desc := ⟨"migrate_rollbacks_total", ["plan_id"]⟩

def cutoverParity : Desc := ⟨"migrate_cutover_parity", ["migration_id", "plan_id"]⟩

def descs : List Desc :=
  [stateInfo, transitions, backfillRowsTotal, backfillRowsDone, verifyParity, canaryStep, rollbacks,
    cutoverParity]

/-- The names can be written. -/
structure Desc.Valid (d : Desc) : Prop where
  name : isMetricName d.name.toList = true
  labels : ∀ l ∈ d.labels, isLabelName l.toList = true
  nodup : d.labels.Nodup

instance (d : Desc) : Decidable d.Valid :=
  decidable_of_iff (isMetricName d.name.toList = true ∧ (∀ l ∈ d.labels, isLabelName l.toList = true) ∧
    d.labels.Nodup) ⟨fun h => ⟨h.1, h.2.1, h.2.2⟩, fun h => ⟨h.name, h.labels, h.nodup⟩⟩

theorem valid_of_mem_descs : ∀ d ∈ descs, d.Valid := by
  decide

/-- `WithLabelValues`, with a value for every label. -/
def Desc.sample (d : Desc) (hd : d.Valid) (values : List Text) (hlen : values.length = d.labels.length)
    (value : Float64) : Sample where
  name := d.name.toList
  labels := (d.labels.map String.toList).zip values
  value := value
  name_valid := hd.name
  labels_valid l hl := by
    obtain ⟨n, hn, heq⟩ := List.mem_map.mp (List.of_mem_zip hl).1
    rw [← heq]
    exact hd.labels n hn
  nodup := by
    rw [List.map_fst_zip (by rw [List.length_map, hlen])]
    exact hd.nodup.map fun _ _ => String.toList_inj.mp

/-! ### One label -/

section Labels
variable {v : Text} {labels : Labels} {k : Text}

/-- **A value that is read as it is.** -/
def Plain (v : Text) : Prop := (∀ c ∈ [',', '}', '\\', '"', '\n'], c ∉ v) ∧ trim v = v

/-- The white space at its ends and the escapes are all that is lost between two commas. -/
theorem plain_iff : Plain v ↔ (',' ∉ v ∧ '}' ∉ v) ∧ trim (escape v) = v := by
  unfold Plain
  simp only [List.forall_mem_cons, List.not_mem_nil, false_imp_iff, implies_true, and_true]
  constructor
  · rintro ⟨⟨hcomma, hbrace, hslash, hquote, hline⟩, htrim⟩
    exact ⟨⟨hcomma, hbrace⟩, by rw [escape_eq_self hslash hquote hline, htrim]⟩
  · rintro ⟨⟨hcomma, hbrace⟩, htrim⟩
    -- trimming leaves the backslashes, and every escape is one more
    have hcount : (trim (escape v)).count '\\' = (escape v).count '\\' := count_trim (by decide)
    rw [htrim, count_escape] at hcount
    have hslash : '\\' ∉ v := List.count_eq_zero.mp (by omega)
    have hquote : '"' ∉ v := List.count_eq_zero.mp (by omega)
    have hline : '\n' ∉ v := List.count_eq_zero.mp (by omega)
    rw [escape_eq_self hslash hquote hline] at htrim
    exact ⟨⟨hcomma, hbrace, hslash, hquote, hline⟩, htrim⟩

/-- **A label that is not cut apart** is set to its value, escaped and trimmed. -/
theorem parsePair_writeLabel {l : Text × Text} (h : isLabelName l.1 = true) :
    parsePair labels (writeLabel l) = Function.update labels l.1 (some (trim (escape l.2))) := by
  have hname := isNameChar_of_isLabelName h
  have hcut : cut '=' (writeLabel l) = some (l.1, '"' :: (escape l.2 ++ ['"'])) :=
    cut_append (not_mem_of_isNameChar hname (by decide))
  have hproto : l.1 ≠ "__proto__".toList := not_reserved h _
  unfold parsePair setLabel
  rw [hcut]
  simp only [dropStart_cons_self, dropEnd_append_self]
  rw [trim_of_forall fun c hc => isSpace_of_isNameChar (hname c hc), if_neg hproto]

/-- What is read comes from a piece. -/
theorem mem_of_parsePair {p : Text} (h : parsePair labels p k = some v) :
    labels k = some v ∨ ∀ c ∈ v, c ∈ p := by
  unfold parsePair at h
  cases hcut : cut '=' p with
  | none =>
    rw [hcut] at h
    exact Or.inl h
  | some kv =>
    obtain ⟨key, val⟩ := kv
    simp only [hcut, setLabel] at h
    split_ifs at h
    · exact Or.inl h
    · by_cases hkey : k = trim key
      · rw [hkey, Function.update_self] at h
        obtain rfl := Option.some.inj h
        exact Or.inr fun c hc =>
          (mem_of_cut hcut).2 c (mem_of_mem_dropStart (mem_of_mem_dropEnd (mem_of_mem_trim hc)))
      · rw [Function.update_of_ne hkey] at h
        exact Or.inl h

theorem mem_of_foldl_parsePair {ps : List Text} (h : ps.foldl parsePair labels k = some v) :
    labels k = some v ∨ ∃ p ∈ ps, ∀ c ∈ v, c ∈ p := by
  induction ps generalizing labels with
  | nil => exact Or.inl h
  | cons p ps ih =>
    rcases ih h with hk | ⟨q, hq, hv⟩
    · rcases mem_of_parsePair hk with hk | hv
      · exact Or.inl hk
      · exact Or.inr ⟨p, List.mem_cons_self, hv⟩
    · exact Or.inr ⟨q, List.mem_cons_of_mem _ hq, hv⟩

theorem parseLabels_braces (labelStr : Text) : parseLabels ('{' :: (labelStr ++ ['}'])) =
    (labelStr.splitOn ',').foldl parsePair fun _ => none := by
  unfold parseLabels
  rw [if_neg (List.cons_ne_nil _ _)]
  simp only [dropStart_cons_self, dropEnd_append_self]

/-- **What is read** has no comma, and no brace if the labels end at the first one. -/
theorem not_mem_of_parseLabels {labelStr : Text} (hbrace : '}' ∉ labelStr)
    (h : parseLabels ('{' :: (labelStr ++ ['}'])) k = some v) : ',' ∉ v ∧ '}' ∉ v := by
  rw [parseLabels_braces] at h
  rcases mem_of_foldl_parsePair h with hnone | ⟨p, hp, hv⟩
  · cases hnone
  · exact ⟨fun hc => not_mem_of_mem_splitOn hp (hv _ hc),
      fun hc => hbrace (mem_of_mem_splitOn hp (hv _ hc))⟩

/-- A value without a comma is not cut apart. -/
theorem comma_not_mem_writeLabel {l : Text × Text} (hvalid : isLabelName l.1 = true) (h : ',' ∉ l.2) :
    ',' ∉ writeLabel l := by
  intro hmem
  rcases mem_escape (mem_writeLabel hvalid (by decide) (by decide) (by decide) hmem) with ⟨hv, -⟩ | hspecial
  · exact h hv
  · exact absurd hspecial (by decide)

/-- **The labels that are read**, if no value is cut apart. -/
theorem parseLabels_joinLabels {ls : List (Text × Text)} (hvalid : ∀ l ∈ ls, isLabelName l.1 = true)
    (hn : (ls.map Prod.fst).Nodup) (hne : ls ≠ []) (hcomma : ∀ l ∈ ls, ',' ∉ l.2) :
    parseLabels ('{' :: (joinLabels ls ++ ['}'])) k =
      (ls.map fun l => (l.1, trim (escape l.2))).lookup k := by
  have hpieces : (joinLabels ls).splitOn ',' = ls.map writeLabel := by
    refine List.splitOn_intercalate ',' (fun p hp => ?_) fun hnil => hne (List.map_eq_nil_iff.mp hnil)
    obtain ⟨l, hl, rfl⟩ := List.mem_map.mp hp
    exact comma_not_mem_writeLabel (hvalid l hl) (hcomma l hl)
  have hset : ∀ (L : Labels), (ls.map writeLabel).foldl parsePair L =
      (ls.map fun l => (l.1, trim (escape l.2))).foldl
        (fun (L : Labels) e => Function.update L e.1 (some e.2)) L := by
    intro L
    rw [List.foldl_map, List.foldl_map]
    exact List.foldl_ext _ _ _ fun L l hl => parsePair_writeLabel (hvalid l hl)
  rw [parseLabels_braces, hpieces, hset, foldl_update (by rwa [List.map_map]), Option.or_none]

end Labels

/-! ### One line -/

section Line
variable {s : Sample} {r : Text × MetricSample}

/-- The sample, as it should be read. -/
def expected (s : Sample) : MetricSample where
  labels k := s.labels.lookup k
  value := .finite s.value

/-- A line of a sample is not skipped. -/
theorem not_skipped (s : Sample) :
    ¬((writeSample s).head? = some '#' ∨ trim (writeSample s) = []) := by
  have hname := isNameChar_of_isMetricName s.name_valid
  obtain ⟨c, cs, hcs⟩ := List.exists_cons_of_ne_nil (ne_nil_of_isMetricName s.name_valid)
  have hc : isNameChar c = true := hname c (hcs ▸ List.mem_cons_self)
  have hhead : writeSample s = c :: (cs ++ (writeLabels s.labels ++ ' ' :: formatValue s.value)) := by
    unfold writeSample
    rw [hcs, List.cons_append]
  rintro (h | h)
  · rw [hhead] at h
    obtain rfl := Option.some.inj h
    cases hc
  · exact trim_ne_nil (c := c) (hhead ▸ List.mem_cons_self) (isSpace_of_isNameChar hc) h

/-- **A sample without labels** is read back. -/
theorem parseLine_of_nil (h : s.labels = []) : parseLine (writeSample s) = some (s.name, expected s) := by
  have hname := isNameChar_of_isMetricName s.name_valid
  have hline : writeSample s = s.name ++ ' ' :: formatValue s.value := by
    unfold writeSample writeLabels
    rw [if_pos h, List.nil_append]
  have hcut : cut '{' (writeSample s) = none := by
    rw [cut_eq_none, hline, List.mem_append, List.mem_cons, not_or, not_or]
    exact ⟨not_mem_of_isNameChar hname (by decide), by decide,
      not_mem_formatValue s.value (by decide) (by decide)⟩
  have hsplit : (writeSample s).splitOn ' ' = [s.name, formatValue s.value] := by
    rw [hline, List.splitOn_append_cons_self_of_not_mem (not_mem_of_isNameChar hname (by decide)),
      List.splitOn_eq_singleton (not_mem_formatValue s.value (by decide) (by decide))]
  unfold parseLine
  rw [if_neg (not_skipped s), hcut]
  simp only [hsplit, parseFloat_formatValue, Option.map_some, expected, h, List.lookup_nil]

/-- The labels end at the first brace. -/
theorem parseLine_of_ne_nil (h : s.labels ≠ []) : parseLine (writeSample s) =
    (cut '}' (joinLabels s.labels ++ '}' :: ' ' :: formatValue s.value)).bind fun p =>
      (parseFloat (((trim p.2).splitOn ' ').headD [])).map fun value =>
        (s.name, ⟨parseLabels ('{' :: (p.1 ++ ['}'])), value⟩) := by
  have hline : writeSample s =
      s.name ++ '{' :: (joinLabels s.labels ++ '}' :: ' ' :: formatValue s.value) := by
    unfold writeSample writeLabels
    rw [if_neg h, List.cons_append, List.append_assoc]
    rfl
  have hcut : cut '{' (writeSample s) =
      some (s.name, joinLabels s.labels ++ '}' :: ' ' :: formatValue s.value) := by
    rw [hline]
    exact cut_append (not_mem_of_isNameChar (isNameChar_of_isMetricName s.name_valid) (by decide))
  unfold parseLine
  rw [if_neg (not_skipped s), hcut]
  simp only [cut_cons_of_ne (show '{' ≠ '}' by decide)]
  cases cut '}' (joinLabels s.labels ++ '}' :: ' ' :: formatValue s.value) <;> rfl

/-- **Names survive.** -/
theorem fst_parseLine (h : parseLine (writeSample s) = some r) : r.1 = s.name := by
  by_cases hnil : s.labels = []
  · rw [parseLine_of_nil hnil] at h
    exact congrArg Prod.fst (Option.some.inj h).symm
  · rw [parseLine_of_ne_nil hnil] at h
    obtain ⟨p, -, hp⟩ := Option.bind_eq_some_iff.mp h
    obtain ⟨value, -, rfl⟩ := Option.map_eq_some_iff.mp hp
    rfl

/-- The labels and the value of a line without a brace in its labels. -/
theorem parseLine_of_not_mem (hne : s.labels ≠ []) (hbrace : ∀ l ∈ s.labels, '}' ∉ l.2) :
    parseLine (writeSample s) =
      some (s.name, ⟨parseLabels ('{' :: (joinLabels s.labels ++ ['}'])), .finite s.value⟩) := by
  have hjoin : '}' ∉ joinLabels s.labels := by
    intro hmem
    obtain ⟨l, hl, hv⟩ := mem_joinLabels s.labels_valid (by decide) (by decide) (by decide) (by decide) hmem
    rcases mem_escape hv with ⟨hv, -⟩ | hspecial
    · exact hbrace l hl hv
    · exact absurd hspecial (by decide)
  have htrim : trim (' ' :: formatValue s.value) = formatValue s.value := by
    rw [trim_cons_of_isSpace (by decide)]
    exact trim_of_forall fun c hc => isSpace_of_mem_literalText hc
  rw [parseLine_of_ne_nil hne, cut_append hjoin, Option.bind_some, htrim,
    List.splitOn_eq_singleton (not_mem_formatValue s.value (by decide) (by decide)), List.headD_cons,
    parseFloat_formatValue, Option.map_some]

/-- **A sample is read back** if and only if its values are plain. -/
theorem parseLine_iff : parseLine (writeSample s) = some (s.name, expected s) ↔
    ∀ l ∈ s.labels, Plain l.2 := by
  by_cases hne : s.labels = []
  · rw [parseLine_of_nil hne, hne]
    simp
  constructor
  · intro h
    have hfound : ∀ l ∈ s.labels, (expected s).labels l.1 = some l.2 := fun l hl =>
      lookup_of_mem s.nodup hl
    -- whatever has been read has neither commas nor braces in it
    have hcut : ∀ l ∈ s.labels, ',' ∉ l.2 ∧ '}' ∉ l.2 := by
      intro l hl
      rw [parseLine_of_ne_nil hne] at h
      obtain ⟨p, hp, hmap⟩ := Option.bind_eq_some_iff.mp h
      obtain ⟨value, -, hval⟩ := Option.map_eq_some_iff.mp hmap
      have hlabels : parseLabels ('{' :: (p.1 ++ ['}'])) = (expected s).labels :=
        congrArg (fun r => r.2.labels) hval
      exact not_mem_of_parseLabels (not_mem_of_cut hp) (by rw [hlabels, hfound l hl])
    -- so no value has been cut apart
    intro l hl
    rw [parseLine_of_not_mem hne fun l hl => (hcut l hl).2] at h
    have hlabels : parseLabels ('{' :: (joinLabels s.labels ++ ['}'])) = (expected s).labels :=
      congrArg (fun r => r.2.labels) (Option.some.inj h)
    have hread := congrFun hlabels l.1
    rw [parseLabels_joinLabels s.labels_valid s.nodup hne fun l hl => (hcut l hl).1, hfound l hl,
      lookup_of_mem (v := trim (escape l.2)) (by rw [List.map_map]; exact s.nodup)
        (List.mem_map_of_mem (f := fun l => (l.1, trim (escape l.2))) hl)] at hread
    exact plain_iff.mpr ⟨hcut l hl, Option.some.inj hread⟩
  · intro h
    have hplain := fun l hl => plain_iff.mp (h l hl)
    rw [parseLine_of_not_mem hne fun l hl => (hplain l hl).1.2]
    have hsame : (s.labels.map fun l => (l.1, trim (escape l.2))) = s.labels :=
      (List.map_congr_left fun l hl => by rw [(hplain l hl).2]; rfl).trans (List.map_id _)
    have hlabels : parseLabels ('{' :: (joinLabels s.labels ++ ['}'])) = (expected s).labels := by
      funext k
      rw [parseLabels_joinLabels s.labels_valid s.nodup hne fun l hl => (hplain l hl).1.1, hsame]
      rfl
    rw [hlabels]
    rfl

end Line

/-! ### The whole text -/

section Text
variable {ls : List Line}

theorem parsePrometheusText_eq (text name : Text) :
    parsePrometheusText text name = pick name ((text.splitOn '\n').filterMap parseLine) := by
  have hfold : ∀ (lines : List Text) (metrics : MetricMap), lines.foldl addSample metrics name =
      metrics name ++ pick name (lines.filterMap parseLine) := by
    intro lines
    induction lines with
    | nil => exact fun metrics => (List.append_nil _).symm
    | cons line lines ih =>
      intro metrics
      rw [List.foldl_cons, ih, List.filterMap_cons]
      unfold addSample
      cases hline : parseLine line with
      | none => rfl
      | some r =>
        obtain ⟨key, s⟩ := r
        unfold pick
        by_cases hkey : key = name
        · simp [hkey]
        · simp [hkey, Function.update_of_ne (Ne.symm hkey)]
  exact hfold _ _

/-- The lines that are read are those of the samples. -/
theorem filterMap_parseLine (ls : List Line) : ((write ls).splitOn '\n').filterMap parseLine =
    (samples ls).filterMap fun s => parseLine (writeSample s) := by
  have hlast : parseLine [] = none := rfl
  rw [splitOn_write, List.filterMap_append, List.filterMap_map]
  simp only [List.filterMap_cons, hlast, List.filterMap_nil, List.append_nil, samples,
    List.filterMap_filterMap]
  refine List.filterMap_congr fun l _ => ?_
  cases l with
  | comment text h => rfl
  | sample s => rfl

/-- **What the engine has exported is read back**: of every name the samples that have been written, in
order, with their labels and values. -/
def ReadsBack (ls : List Line) : Prop :=
  ∀ name, parsePrometheusText (write ls) name = ((samples ls).filter (·.name = name)).map expected

/-- **The samples are read back** if and only if every value of a label is plain. -/
theorem readsBack_iff : ReadsBack ls ↔ ∀ s ∈ samples ls, ∀ l ∈ s.labels, Plain l.2 := by
  unfold ReadsBack
  simp only [parsePrometheusText_eq, filterMap_parseLine]
  rw [pick_filterMap_iff fun s r => fst_parseLine]
  simp only [parseLine_iff]

/-- The rollbacks of a plan, after their help. -/
def rollbackLines (planID : String) : List Line :=
  [.comment " HELP migrate_rollbacks_total Total migrations auto-rolled-back due to an SLO breach.".toList
      (by decide +kernel),
    .sample (rollbacks.sample (valid_of_mem_descs _ (by simp [descs])) [planID.toList] rfl
      (Float64.ofRat 1))]

/-- **A plan with a comma in its id.** -/
theorem not_readsBack : ¬ReadsBack (rollbackLines "orders,v2") := by
  intro h
  have hread := congrArg (List.map fun r => r.labels "plan_id".toList) (h "migrate_rollbacks_total".toList)
  revert hread
  decide +kernel

end Text

end MigrationSafety.Frontend.Prometheus
