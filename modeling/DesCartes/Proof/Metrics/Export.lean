import DesCartes.Framework.Csv
import DesCartes.Impl.Metrics.SimulationMetrics

/-!
# What an exported file says

* `foldlM_counter`, `foldlM_gauge`: what is stored of one metric, by the operations on it alone;
* `run_exported`: the files that are exported after any run, read back as comma-separated values;
* `counted_of_exported`: the file of the counters tells them apart, as long as no label has a
  character in it that separates labels.
-/

namespace DesCartes.Metrics

/-- What is displayed of a `f64` has none of the characters of the format: `-`, digits, `.`, `NaN`
or `inf`. -/
class LawfulGaugeFloat (φ : Type) [GaugeFloat φ] : Prop where
  plain : ∀ x : φ, ∀ c ∈ GaugeFloat.display x, c ≠ ',' ∧ c ≠ '"' ∧ c ≠ '\n'

/-- Fields in quotes where they have to be, and rows in lines. -/
def csv : Csv Char := ⟨',', '"', '\n', by decide, by decide, by decide⟩

/-! ## One metric -/

section
variable {φ : Type} [GaugeFloat φ] {m m' : MetricStorage φ}

/-- What an operation does to a counter. -/
def counterOf (key : MetricKey) (v : Option Nat) : MetricOp φ → Option Nat
  | .incrementCounterBy name value labels => if key = .new name labels then some (v.getD 0 + value) else v
  | .setCounterAbsolute name value labels =>
    if key = .new name labels then some (max (v.getD 0) value) else v
  | .resetMetrics => none
  | _ => v

/-- What an operation does to a gauge. -/
def gaugeOf (key : MetricKey) (v : Option φ) : MetricOp φ → Option φ
  | .recordGauge name value labels => if key = .new name labels then some value else v
  | .incrementGauge name delta labels =>
    if key = .new name labels then some (GaugeFloat.add (v.getD GaugeFloat.zero) delta) else v
  | .decrementGauge name delta labels =>
    if key = .new name labels then
      some (GaugeFloat.add (v.getD GaugeFloat.zero) (GaugeFloat.neg delta))
    else v
  | .resetMetrics => none
  | _ => v

/-- A counter, after the operations. -/
def counted (ops : List (MetricOp φ)) (key : MetricKey) : Option Nat := ops.foldl (counterOf key) none

/-- A gauge, after the operations. -/
def gauged (ops : List (MetricOp φ)) (key : MetricKey) : Option φ := ops.foldl (gaugeOf key) none

theorem step_lookup {op : MetricOp φ} (h : m.step op = some m') (key : MetricKey) :
    m'.counters.lookup key = counterOf key (m.counters.lookup key) op ∧
    m'.gauges.lookup key = gaugeOf key (m.gauges.lookup key) op := by
  cases op with
  | incrementCounterBy name value labels =>
    simp only [MetricStorage.step, MetricStorage.incrementCounterBy] at h
    split at h
    · cases h
      rw [AList.lookup_upsert, counterOf]
      refine ⟨?_, rfl⟩
      split
      · rename_i hk
        rw [hk]
      · rfl
    · cases h
  | setCounterAbsolute name value labels =>
    cases h
    simp only [MetricStorage.setCounterAbsolute, AList.lookup_upsert, counterOf]
    refine ⟨?_, rfl⟩
    split
    · rename_i hk
      rw [hk, max_def]
      congr 1
      split <;> split <;> omega
    · rfl
  | recordGauge name value labels =>
    cases h
    refine ⟨rfl, ?_⟩
    simp only [gaugeOf]
    split
    · rename_i hk
      rw [hk, AList.lookup_insert]
    · rename_i hk
      rw [AList.lookup_insert_ne hk]
  | incrementGauge name delta labels =>
    cases h
    simp only [MetricStorage.incrementGauge, AList.lookup_upsert, gaugeOf]
    refine ⟨rfl, ?_⟩
    split
    · rename_i hk
      rw [hk]
    · rfl
  | decrementGauge name delta labels =>
    cases h
    simp only [MetricStorage.incrementGauge, AList.lookup_upsert, gaugeOf]
    refine ⟨rfl, ?_⟩
    split
    · rename_i hk
      rw [hk]
    · rfl
  | resetMetrics =>
    cases h
    exact ⟨rfl, rfl⟩

theorem foldlM_lookup {ops : List (MetricOp φ)} (h : ops.foldlM MetricStorage.step m = some m')
    (key : MetricKey) :
    m'.counters.lookup key = ops.foldl (counterOf key) (m.counters.lookup key) ∧
      m'.gauges.lookup key = ops.foldl (gaugeOf key) (m.gauges.lookup key) := by
  induction ops generalizing m with
  | nil =>
    cases h
    exact ⟨rfl, rfl⟩
  | cons op ops ih =>
    rw [List.foldlM_cons] at h
    obtain ⟨m₁, hstep, hrest⟩ := Option.bind_eq_some_iff.mp h
    obtain ⟨hcounter, hgauge⟩ := step_lookup hstep key
    rw [List.foldl_cons, List.foldl_cons, ← hcounter, ← hgauge]
    exact ih hrest

end

/-! ## Rows -/

/-- The fields of the header. -/
def header (includeLabels : Bool) : List (List Char) :=
  if includeLabels then ["metric_name".toList, "labels".toList, "value".toList]
  else ["metric_name".toList, "value".toList]

/-- The fields of a metric's row. -/
def fields {α : Type} (display : α → List Char) (includeLabels : Bool) (e : MetricKey × α) :
    List (List Char) :=
  if includeLabels then [e.1.name, formatLabels e.1.labels, display e.2] else [e.1.name, display e.2]

theorem writes_escapeCsv (s : List Char) : csv.Writes s (escapeCsv s) := by
  unfold escapeCsv
  split
  · exact .inl rfl
  · rename_i h
    simp only [not_or] at h
    exact .inr ⟨rfl, h⟩

theorem writes_of_plain {s : List Char} (h : ∀ c ∈ s, c ≠ ',' ∧ c ≠ '"' ∧ c ≠ '\n') : csv.Writes s s :=
  .inr ⟨rfl, fun hc => (h _ hc).1 rfl, fun hc => (h _ hc).2.1 rfl, fun hc => (h _ hc).2.2 rfl⟩

theorem writes_toDigits (n : Nat) : csv.Writes (Nat.toDigits 10 n) (Nat.toDigits 10 n) := by
  refine writes_of_plain fun c hc => ?_
  have hdigit := Nat.isDigit_of_mem_toDigits (by decide) (by decide) hc
  refine ⟨?_, ?_, ?_⟩ <;> rintro rfl <;> exact absurd hdigit (by decide)

/-- A file of metrics is read back. -/
theorem read_exportRows {α : Type} {display : α → List Char}
    (hdisplay : ∀ a, csv.Writes (display a) (display a)) (includeLabels : Bool)
    (metrics : List (MetricKey × α)) :
    csv.read (exportRows display includeLabels metrics) =
      some (header includeLabels :: metrics.map (fields display includeLabels)) := by
  refine Csv.read_lines (fun row hrow => ?_) ?_
  · rcases List.mem_cons.mp hrow with rfl | hrow
    · unfold header
      split <;> exact List.cons_ne_nil _ _
    · obtain ⟨e, -, rfl⟩ := List.mem_map.mp hrow
      unfold fields
      split <;> exact List.cons_ne_nil _ _
  · cases includeLabels with
    | true =>
      refine ⟨header true :: metrics.map fun e =>
        [escapeCsv e.1.name, escapeCsv (formatLabels e.1.labels), display e.2], ?_, ?_⟩
      · refine .cons ?_ (List.forall₂_map_left_iff.mpr
          (List.forall₂_map_right_iff.mpr (List.forall₂_same.mpr fun e _ => ?_)))
        · exact .cons (.inr (by decide)) (.cons (.inr (by decide)) (.cons (.inr (by decide)) .nil))
        · exact .cons (writes_escapeCsv _) (.cons (writes_escapeCsv _) (.cons (hdisplay _) .nil))
      · simp [exportRows, exportRow, header, Csv.line, Csv.join, csv, List.flatMap_map]
    | false =>
      refine ⟨header false :: metrics.map fun e => [escapeCsv e.1.name, display e.2], ?_, ?_⟩
      · refine .cons ?_ (List.forall₂_map_left_iff.mpr
          (List.forall₂_map_right_iff.mpr (List.forall₂_same.mpr fun e _ => ?_)))
        · exact .cons (.inr (by decide)) (.cons (.inr (by decide)) .nil)
        · exact .cons (writes_escapeCsv _) (.cons (hdisplay _) .nil)
      · simp [exportRows, exportRow, header, Csv.line, Csv.join, csv, List.flatMap_map]

/-! ## Runs -/

section
variable {α : Type} {s : AList fun _ : MetricKey => α} {l : List (MetricKey × α)}

theorem nodup_of_perm (h : l.Perm (s.entries.map fun e => (e.1, e.2))) : (l.map (·.1)).Nodup := by
  rw [(h.map _).nodup_iff, List.map_map]
  exact s.keys_nodup

theorem mem_of_perm (h : l.Perm (s.entries.map fun e => (e.1, e.2))) (key : MetricKey) (value : α) :
    (key, value) ∈ l ↔ s.lookup key = some value := by
  rw [h.mem_iff, ← AList.mem_entries_iff, List.mem_map]
  constructor
  · rintro ⟨⟨k, v⟩, hmem, he⟩
    cases he
    exact hmem
  · exact fun hmem => ⟨⟨key, value⟩, hmem, rfl⟩

end

section
variable {φ : Type} [GaugeFloat φ] {m m' : MetricStorage φ} {ops ops' : List (MetricOp φ)}
  {counters counters' : List (MetricKey × Nat)}
  {gauges : List (MetricKey × φ)}

/-- After every run of operations, in whatever order the maps are gone through: the exported files
are read back, a header and a row for each metric, with its name, its labels and its value; and
there is one row for each metric that has a value, which is what the operations on this metric
alone, since the last reset, make of it. -/
theorem run_exported [LawfulGaugeFloat φ] (h : ops.foldlM MetricStorage.step .empty = some m)
    (hcounters : counters.Perm m.listCounters) (hgauges : gauges.Perm m.listGauges)
    (includeLabels : Bool) :
    csv.read (exportCounters includeLabels counters) =
        some (header includeLabels :: counters.map (fields (Nat.toDigits 10) includeLabels)) ∧
      csv.read (exportGauges includeLabels gauges) =
        some (header includeLabels :: gauges.map (fields GaugeFloat.display includeLabels)) ∧
      (counters.map (·.1)).Nodup ∧ (gauges.map (·.1)).Nodup ∧
      (∀ key value, (key, value) ∈ counters ↔ counted ops key = some value) ∧
      ∀ key value, (key, value) ∈ gauges ↔ gauged ops key = some value := by
  refine ⟨read_exportRows writes_toDigits includeLabels counters, ?_, nodup_of_perm hcounters,
    nodup_of_perm hgauges,
    fun key value => ?_, fun key value => ?_⟩
  · exact read_exportRows (fun x => writes_of_plain (LawfulGaugeFloat.plain x)) includeLabels gauges
  · rw [mem_of_perm hcounters, (foldlM_lookup h key).1]
    exact Iff.rfl
  · rw [mem_of_perm hgauges, (foldlM_lookup h key).2]
    exact Iff.rfl

end

/-- A gauge of natural numbers. -/
instance : GaugeFloat Nat := ⟨0, (· + ·), id, Nat.toDigits 10⟩

instance : LawfulGaugeFloat Nat := ⟨fun n c hc => by
  have hdigit := Nat.isDigit_of_mem_toDigits (by decide) (by decide) hc
  refine ⟨?_, ?_, ?_⟩ <;> rintro rfl <;> exact absurd hdigit (by decide)⟩

/-- A counter, whose name needs quotes, counts up and is set twice, the second time to less; and a
gauge. -/
def served : List (MetricOp Nat) :=
  [.incrementCounterBy "a,b".toList 2 [("k".toList, "v".toList)], .setCounterAbsolute "a,b".toList 7 [("k".toList, "v".toList)],
    .setCounterAbsolute "a,b".toList 5 [("k".toList, "v".toList)], .recordGauge "depth".toList 3 []]

theorem run_exported_served : ∃ m, served.foldlM MetricStorage.step .empty = some m ∧
    csv.read (exportCounters true m.listCounters) = some [header true, ["a,b".toList, "k=v".toList, "7".toList]] ∧
      counted served (.new "a,b".toList [("k".toList, "v".toList)]) = some 7 := by
  have hrun : (served.foldlM MetricStorage.step .empty).map
      (fun m => (m.listCounters.map (fields (Nat.toDigits 10) true),
        m.listCounters.map fun e => (decide (e.1 = .new "a,b".toList [("k".toList, "v".toList)]), e.2))) =
        some ([["a,b".toList, "k=v".toList, "7".toList]], [(true, 7)]) := by
    decide +kernel
  obtain ⟨m, hrun, hrows⟩ := Option.map_eq_some_iff.mp hrun
  obtain ⟨hrows, hcounters⟩ := Prod.mk.inj hrows
  obtain ⟨hread, -, -, -, hcounted, -⟩ := run_exported hrun (.refl _) (.refl _) true
  refine ⟨m, hrun, by rw [hread, hrows], (hcounted _ 7).mp ?_⟩
  obtain ⟨e, he, hpair⟩ := List.mem_map.mp (hcounters ▸ List.mem_singleton_self _)
  obtain ⟨hkey, hvalue⟩ := Prod.mk.inj hpair
  rwa [← of_decide_eq_true hkey, ← hvalue]

section
variable {φ : Type} [GaugeFloat φ] {m m' : MetricStorage φ} {ops ops' : List (MetricOp φ)}
  {counters counters' : List (MetricKey × Nat)}

/-! ## Labels -/

/-- No label has a character in it that separates labels. -/
def Separable (labels : BTreeMap (List Char) (List Char)) : Prop :=
  ∀ e ∈ labels.entries, '=' ∉ e.1 ∧ ',' ∉ e.1 ∧ ',' ∉ e.2

/-- A text with a character in it, at its first place. -/
theorem append_cons_inj {c : Char} {k k' v v' : List Char} (hk : c ∉ k) (hk' : c ∉ k')
    (h : k ++ c :: v = k' ++ c :: v') :
    k = k' ∧ v = v' := by
  induction k generalizing k' with
  | nil =>
    cases k' with
    | nil => exact ⟨rfl, (List.cons.inj h).2⟩
    | cons d k' =>
      obtain ⟨rfl, -⟩ := List.cons.inj h
      simp at hk'
  | cons d k ih =>
    cases k' with
    | nil =>
      obtain ⟨rfl, -⟩ := List.cons.inj h
      simp at hk
    | cons d' k' =>
      obtain ⟨rfl, htail⟩ := List.cons.inj h
      obtain ⟨rfl, rfl⟩ := ih (fun hc => hk (List.mem_cons_of_mem _ hc))
        (fun hc => hk' (List.mem_cons_of_mem _ hc)) htail
      exact ⟨rfl, rfl⟩

theorem eq_of_map_eq {α β : Type} {f : α → β} {l l' : List α}
    (hf : ∀ a ∈ l, ∀ b ∈ l', f a = f b → a = b) (h : l.map f = l'.map f) :
    l = l' := by
  induction l generalizing l' with
  | nil => exact (List.map_eq_nil_iff.mp h.symm).symm
  | cons a l ih =>
    cases l' with
    | nil => cases h
    | cons b l' =>
      obtain ⟨hhead, htail⟩ := List.cons.inj h
      rw [hf a List.mem_cons_self b List.mem_cons_self hhead,
        ih (fun x hx y hy => hf x (List.mem_cons_of_mem _ hx) y (List.mem_cons_of_mem _ hy)) htail]

theorem formatLabels_inj {labels labels' : BTreeMap (List Char) (List Char)} (hs : Separable labels)
    (hs' : Separable labels') (h : formatLabels labels = formatLabels labels') :
    labels.entries = labels'.entries := by
  have hsplit : ∀ {labels : BTreeMap (List Char) (List Char)}, Separable labels → labels.entries ≠ [] →
      (formatLabels labels).splitOn ',' = labels.entries.map fun e => e.1 ++ '=' :: e.2 := by
    intro labels hs hne
    rw [formatLabels, if_neg hne]
    refine List.splitOn_intercalate ',' (fun text htext => ?_) (by simpa using hne)
    obtain ⟨e, he, rfl⟩ := List.mem_map.mp htext
    obtain ⟨-, hk, hv⟩ := hs e he
    simp [hk, hv]
  have hnil : ∀ {labels : BTreeMap (List Char) (List Char)},
      Separable labels → formatLabels labels = [] → labels.entries = [] := by
    intro labels hs hnil
    by_contra hne
    have hlist := hsplit hs hne
    obtain ⟨e, l, he⟩ := List.exists_cons_of_ne_nil hne
    rw [hnil, he] at hlist
    simp at hlist
  by_cases hne : labels.entries = []
  · have hempty : formatLabels labels' = [] := by rw [← h, formatLabels, if_pos hne]
    rw [hne, hnil hs' hempty]
  · have hne' : labels'.entries ≠ [] := fun hempty => hne
      (hnil hs (by rw [h, formatLabels, if_pos hempty]))
    have hlist := (hsplit hs hne).symm.trans (h ▸ hsplit hs' hne')
    refine eq_of_map_eq (fun e he e' he' hee => ?_) hlist
    obtain ⟨hk, hv⟩ := append_cons_inj (hs e he).1 (hs' e' he').1 hee
    exact Prod.ext hk hv

theorem fields_inj {e e' : MetricKey × Nat} (hs : Separable e.1.labels) (hs' : Separable e'.1.labels)
    (h : fields (Nat.toDigits 10) true e = fields (Nat.toDigits 10) true e') : e = e' := by
  simp only [fields, if_true, List.cons.injEq, and_true] at h
  obtain ⟨hname, hlabels, hvalue⟩ := h
  refine Prod.ext (MetricKey.ext_iff'.mpr ⟨hname, formatLabels_inj hs hs' hlabels⟩) ?_
  rw [← Nat.ofDigitChars_ten_toDigits (n := e.2), hvalue, Nat.ofDigitChars_ten_toDigits]

/-- Two runs of which the same file of counters is exported, with labels, have counted the same,
where no label has a `=` in its key or a `,` in it. -/
theorem counted_of_exported (h : ops.foldlM MetricStorage.step .empty = some m)
    (h' : ops'.foldlM MetricStorage.step .empty = some m')
    (hcounters : counters.Perm m.listCounters) (hcounters' : counters'.Perm m'.listCounters)
    (hlabels : ∀ key value, (key, value) ∈ counters ++ counters' → Separable key.labels)
    (hfile : exportCounters true counters = exportCounters true counters') (key : MetricKey) :
    counted ops key = counted ops' key := by
  have hread := (read_exportRows writes_toDigits true counters).symm.trans
    ((congrArg csv.read hfile).trans (read_exportRows writes_toDigits true counters'))
  have hrows := (List.cons.inj (Option.some.inj hread)).2
  have hsame : counters = counters' := by
    refine eq_of_map_eq (fun e he e' he' => fields_inj ?_ ?_) hrows
    · exact hlabels e.1 e.2 (List.mem_append_left _ he)
    · exact hlabels e'.1 e'.2 (List.mem_append_right _ he')
  refine Option.ext fun value => ?_
  have hone := mem_of_perm hcounters key value
  have hother := mem_of_perm hcounters' key value
  rw [(foldlM_lookup h key).1] at hone
  rw [(foldlM_lookup h' key).1, ← hsame] at hother
  exact hone.symm.trans hother

end

/-- The counter of the requests to a server, which is a label. -/
def requestsTo (server : String) : MetricKey := .new "requests".toList [("server".toList, server.toList)]

/-- The requests to two servers are counted, the ones to `a` first. -/
def requestsToA : List (MetricOp Nat) :=
  [.incrementCounterBy "requests".toList 3 [("server".toList, "a".toList)],
    .incrementCounterBy "requests".toList 5 [("server".toList, "b".toList)]]

/-- The ones to `b` first, and those to `a` in two steps. -/
def requestsToB : List (MetricOp Nat) :=
  [.incrementCounterBy "requests".toList 5 [("server".toList, "b".toList)],
    .incrementCounterBy "requests".toList 2 [("server".toList, "a".toList)],
    .incrementCounterBy "requests".toList 1 [("server".toList, "a".toList)]]

theorem counted_of_exported_two :
    counted requestsToA (requestsTo "a") = counted requestsToB (requestsTo "a") ∧
      counted requestsToA (requestsTo "b") = counted requestsToB (requestsTo "b") ∧
      counted requestsToA (requestsTo "a") = some 3 ∧ counted requestsToA (requestsTo "b") = some 5 := by
  have hone : (requestsToA.foldlM MetricStorage.step .empty).map (·.listCounters) =
      some [(requestsTo "b", 5), (requestsTo "a", 3)] := by
    decide +kernel
  have htwo : (requestsToB.foldlM MetricStorage.step .empty).map (·.listCounters) =
      some [(requestsTo "a", 3), (requestsTo "b", 5)] := by
    decide +kernel
  obtain ⟨m, hm, hcounters⟩ := Option.map_eq_some_iff.mp hone
  obtain ⟨m', hm', hcounters'⟩ := Option.map_eq_some_iff.mp htwo
  have hlabels : ∀ key value, (key, value) ∈ [(requestsTo "a", 3), (requestsTo "b", 5)] ++
      [(requestsTo "a", 3), (requestsTo "b", 5)] → Separable key.labels := by
    intro key value hmem
    have hsep : Separable (requestsTo "a").labels ∧ Separable (requestsTo "b").labels := by
      unfold Separable
      decide +kernel
    simp only [List.mem_append, or_self, List.mem_cons, Prod.mk.injEq, List.not_mem_nil, or_false] at hmem
    rcases hmem with ⟨rfl, -⟩ | ⟨rfl, -⟩
    · exact hsep.1
    · exact hsep.2
  have hfirst : [(requestsTo "a", 3), (requestsTo "b", 5)].Perm m.listCounters := by
    rw [hcounters]
    exact .swap _ _ _
  have hsecond : [(requestsTo "a", 3), (requestsTo "b", 5)].Perm m'.listCounters := by rw [hcounters']
  refine ⟨?_, ?_, ?_, ?_⟩
  · exact counted_of_exported hm hm' hfirst hsecond hlabels rfl _
  · exact counted_of_exported hm hm' hfirst hsecond hlabels rfl _
  · decide +kernel
  · decide +kernel

/-- Labels that have a separator in them are not told apart. -/
example : formatLabels (MetricKey.new [] [("a".toList, "1,b=2".toList)]).labels =
    formatLabels (MetricKey.new [] [("a".toList, "1".toList), ("b".toList, "2".toList)]).labels := by
  decide

end DesCartes.Metrics
