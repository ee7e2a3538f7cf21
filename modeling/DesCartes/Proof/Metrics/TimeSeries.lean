import DesCartes.Impl.Metrics.TimeSeries
import Mathlib.Algebra.Order.BigOperators.Group.List
import Mathlib.Algebra.Order.Field.Rat
import Mathlib.Tactic.Linarith

/-!
# The samples that a collector counts

A point that opens a window, which is the first one and any one that leads to an aggregation, is not
counted in that window, nor in another: `windows` are the points that are counted, window by window,
and `openings` those that are not. What is emitted are the means of the windows, smoothed
(`emitted_eq`). So every series loses its first sample (`not_lossless_cons`).
-/

namespace DesCartes.Metrics

/-- The mean of some values. -/
def mean (values : List ℚ) : ℚ := values.sum / values.length

namespace ExponentialMovingAverage

/-- The averages, as the values come. -/
def updates (ema : ExponentialMovingAverage) : List ℚ → List ℚ
  | [] => []
  | v :: vs => (ema.update v).2 :: (ema.update v).1.updates vs

variable {ema : ExponentialMovingAverage}

theorem update_fst (v : ℚ) : (ema.update v).1 = ⟨ema.alpha, some (ema.update v).2⟩ := by
  rw [update]
  split <;> rfl

theorem update_inj (halpha : ema.alpha ≠ 0) {v w : ℚ} (h : (ema.update v).2 = (ema.update w).2) : v = w := by
  simp only [update] at h
  split at h
  · exact h
  · exact mul_left_cancel₀ halpha (add_right_cancel h)

/-- The values can be told from the averages. -/
theorem updates_inj (halpha : ema.alpha ≠ 0) {vs ws : List ℚ}
    (h : ema.updates vs = ema.updates ws) : vs = ws := by
  induction vs generalizing ema ws with
  | nil =>
    cases ws with
    | nil => rfl
    | cons w ws => cases h
  | cons v vs ih =>
    cases ws with
    | nil => cases h
    | cons w ws =>
      obtain ⟨hfirst, hrest⟩ := List.cons.inj h
      rw [update_fst v, update_fst w, hfirst] at hrest
      have halpha' : (⟨ema.alpha, some (ema.update w).2⟩ : ExponentialMovingAverage).alpha ≠ 0 := halpha
      rw [update_inj halpha hfirst, ih halpha' hrest]

end ExponentialMovingAverage

namespace TimeSeriesCollector

/-! ## What is emitted -/

/-- The points are added, one after the other. -/
def addPoints (c : TimeSeriesCollector) (points : List TimeSeriesPoint) : TimeSeriesCollector :=
  points.foldl (fun c point => c.addPoint point.timestamp point.value) c

/-- The values that are emitted when the points are added and the collector is flushed. -/
def emitted (c : TimeSeriesCollector) (points : List TimeSeriesPoint) (flushedAt : SimTime) : List ℚ :=
  ((c.addPoints points).flush flushedAt).aggregatedData.map (·.value)

/-- Each sample is counted in exactly one window: whatever the values are, what is emitted are the
means of the windows, smoothed. A sample is known by its index. -/
def Lossless (c : TimeSeriesCollector) (timestamps : List SimTime) (flushedAt : SimTime) : Prop :=
  ∃ windows : List (List Nat), windows.flatten.Perm (List.range timestamps.length) ∧ [] ∉ windows ∧
    ∀ values : List ℚ, values.length = timestamps.length →
      c.emitted (List.zipWith TimeSeriesPoint.mk timestamps values) flushedAt =
        c.ema.updates (windows.map fun window => mean (window.map fun i => values.getD i 0))

/-! ## Windows -/

/-- Whether a point opens a window. -/
def opens (aggregationWindow : Nat) (last : Option SimTime) (timestamp : SimTime) : Bool :=
  match last with
  | none => true
  | some last => timestamp.durationSince last ≥ aggregationWindow

section
variable {α : Type} (aggregationWindow : Nat)

/-- A window is emitted if something is counted in it. -/
def closed : List α → List (List α)
  | [] => []
  | a :: current => [a :: current]

/-- What is counted in the windows, when `current` has been counted since the last aggregation. -/
def windows : Option SimTime → List α → List (SimTime × α) → List (List α)
  | _, current, [] => closed current
  | last, current, (timestamp, a) :: points =>
    if opens aggregationWindow last timestamp then closed current ++ windows (some timestamp) [] points
    else windows last (current ++ [a]) points

/-- What opens a window. -/
def openings : Option SimTime → List (SimTime × α) → List α
  | _, [] => []
  | last, (timestamp, a) :: points =>
    if opens aggregationWindow last timestamp then a :: openings (some timestamp) points else openings last points

theorem flatten_closed (current : List α) : (closed current).flatten = current := by
  cases current with
  | nil => rfl
  | cons a current => exact List.append_nil _

/-- Each point is counted once, or else it opens a window. -/
theorem windows_perm (last : Option SimTime) (current : List α) (points : List (SimTime × α)) :
    ((windows aggregationWindow last current points).flatten ++ openings aggregationWindow last points).Perm
      (current ++ points.map (·.2)) := by
  induction points generalizing last current with
  | nil => rw [windows, openings, flatten_closed, List.map_nil]
  | cons point points ih =>
    obtain ⟨timestamp, a⟩ := point
    rw [windows, openings]
    split
    · rw [List.flatten_append, flatten_closed, List.append_assoc]
      exact (List.perm_middle.trans ((ih (some timestamp) []).cons a)).append_left current
    · refine (ih last (current ++ [a])).trans ?_
      rw [List.append_assoc]
      exact .refl _

end

variable {c : TimeSeriesCollector} {current : List ℚ}

/-- The window that is open is counted in the sum and in the count. -/
structure Open (c : TimeSeriesCollector) (current : List ℚ) : Prop where
  sum : c.windowSum = current.sum
  count : c.windowCount = current.length

/-- An aggregation emits the mean of the window, if there is something in it, and empties it. -/
theorem Open.aggregateWindow (h : Open c current) (timestamp : SimTime) (later : List ℚ) :
    Open (c.aggregateWindow timestamp) [] ∧ (c.aggregateWindow timestamp).lastAggregation = some timestamp ∧
      (c.aggregateWindow timestamp).aggregationWindow = c.aggregationWindow ∧
      (c.aggregateWindow timestamp).aggregatedData.map (·.value) ++
      (c.aggregateWindow timestamp).ema.updates later =
        c.aggregatedData.map (·.value) ++ c.ema.updates ((closed current).map mean ++ later) := by
  cases current with
  | nil =>
    have hcount : ¬0 < c.windowCount := by rw [h.count]; exact Nat.not_lt_zero 0
    rw [TimeSeriesCollector.aggregateWindow, if_neg hcount]
    exact ⟨⟨h.sum, h.count⟩, rfl, rfl, rfl⟩
  | cons a current =>
    have hcount : 0 < c.windowCount := by rw [h.count]; exact Nat.succ_pos _
    rw [TimeSeriesCollector.aggregateWindow, if_pos hcount]
    refine ⟨⟨rfl, rfl⟩, rfl, rfl, ?_⟩
    rw [List.map_append, List.append_assoc, h.sum, h.count]
    rfl

theorem addPoint_of_opens {timestamp : SimTime}
    (h : opens c.aggregationWindow c.lastAggregation timestamp = true) (value : ℚ) :
    ∃ rawData, c.addPoint timestamp value = { c.aggregateWindow timestamp with rawData } := by
  have hshould : shouldAggregate { c with rawData := c.rawData ++ [⟨timestamp, value⟩] } timestamp = true := h
  rw [addPoint]
  simp only [hshould, if_true]
  rw [TimeSeriesCollector.aggregateWindow, TimeSeriesCollector.aggregateWindow]
  split <;> exact ⟨_, rfl⟩

theorem addPoint_of_not_opens {timestamp : SimTime}
    (h : ¬opens c.aggregationWindow c.lastAggregation timestamp = true) (value : ℚ) :
    ∃ rawData, c.addPoint timestamp value =
      { c with rawData, windowSum := c.windowSum + value, windowCount := c.windowCount + 1 } := by
  have hshould :
      ¬shouldAggregate { c with rawData := c.rawData ++ [⟨timestamp, value⟩] } timestamp = true := h
  rw [addPoint]
  simp only [hshould, Bool.false_eq_true, if_false]
  exact ⟨_, rfl⟩

/-- What is emitted are the means of the windows, smoothed. -/
theorem Open.emitted_eq (h : Open c current) (points : List TimeSeriesPoint) (flushedAt : SimTime) :
    c.emitted points flushedAt = c.aggregatedData.map (·.value) ++ c.ema.updates
      ((windows c.aggregationWindow c.lastAggregation current
        (points.map fun p => (p.timestamp, p.value))).map mean) := by
  induction points generalizing c current with
  | nil =>
    have hflush := (h.aggregateWindow flushedAt []).2.2.2
    rw [List.append_nil] at hflush
    rw [List.map_nil, windows, ← hflush]
    exact (List.append_nil _).symm
  | cons point points ih =>
    have hstep : c.emitted (point :: points) flushedAt =
        (c.addPoint point.timestamp point.value).emitted points flushedAt := by
      rw [emitted, emitted, addPoints, addPoints, List.foldl_cons]
    rw [List.map_cons, windows, hstep]
    split
    · rename_i hopens
      obtain ⟨rawData, hadd⟩ := addPoint_of_opens hopens point.value
      obtain ⟨hopen, hlast, hwindow, hemits⟩ := h.aggregateWindow point.timestamp
        ((windows c.aggregationWindow (some point.timestamp) []
          (points.map fun p => (p.timestamp, p.value))).map mean)
      have hrest : Open { c.aggregateWindow point.timestamp with rawData } [] := ⟨hopen.sum, hopen.count⟩
      rw [hadd, ih hrest, List.map_append, ← hemits]
      simp only [hlast, hwindow]
    · rename_i hopens
      obtain ⟨rawData, hadd⟩ := addPoint_of_not_opens hopens point.value
      have hrest :
          Open { c with rawData, windowSum := c.windowSum + point.value, windowCount := c.windowCount + 1 }
          (current ++ [point.value]) := by
        refine ⟨?_, ?_⟩
        · rw [List.sum_append, List.sum_singleton, ← h.sum]
        · rw [List.length_append, ← h.count, List.length_singleton]
      rw [hadd, ih hrest]

theorem emitted_eq {aggregationWindow : Nat} {emaAlpha : ℚ} (hnew : new aggregationWindow emaAlpha = some c)
    (points : List TimeSeriesPoint) (flushedAt : SimTime) : c.emitted points flushedAt = c.ema.updates
      ((windows aggregationWindow none [] (points.map fun p => (p.timestamp, p.value))).map mean) := by
  obtain ⟨ema, -, rfl⟩ := Option.map_eq_some_iff.mp hnew
  exact Open.emitted_eq ⟨rfl, rfl⟩ points flushedAt

/-! ## The first sample -/

theorem mean_zeros (window : List Nat) (n : Nat) :
    mean (window.map fun i => (List.replicate n (0 : ℚ)).getD i 0) = 0 := by
  have hzero : (fun i => (List.replicate n (0 : ℚ)).getD i 0) = fun _ => 0 := by
    funext i
    rw [List.getD_eq_getElem?_getD, List.getElem?_replicate]
    split <;> rfl
  have hsum : (List.replicate window.length (0 : ℚ)).sum = 0 :=
    List.sum_eq_zero fun v hv => List.eq_of_mem_replicate hv
  rw [hzero, List.map_const', mean, hsum, zero_div]

theorem mean_pos {window : List Nat} (n : Nat) (h : 0 ∈ window) :
    0 < mean (window.map fun i => (1 :: List.replicate n (0 : ℚ)).getD i 0) := by
  have hnonneg : ∀ v ∈ window.map fun i => (1 :: List.replicate n (0 : ℚ)).getD i 0, 0 ≤ v := by
    intro v hv
    obtain ⟨i, -, rfl⟩ := List.mem_map.mp hv
    cases i with
    | zero => exact zero_le_one
    | succ i =>
      rw [List.getD_cons_succ, List.getD_eq_getElem?_getD, List.getElem?_replicate]
      split <;> exact le_rfl
  have hone : (1 : ℚ) ≤ (window.map fun i => (1 :: List.replicate n (0 : ℚ)).getD i 0).sum :=
    List.single_le_sum hnonneg 1 (List.mem_map.mpr ⟨0, h, rfl⟩)
  have hlength : 0 < window.length := List.length_pos_of_mem h
  rw [mean, List.length_map]
  exact div_pos (zero_lt_one.trans_le hone) (Nat.cast_pos.mpr hlength)

/-- The first sample is in no average. -/
theorem not_lossless_cons {aggregationWindow : Nat} {emaAlpha : ℚ}
    (hnew : new aggregationWindow emaAlpha = some c) (timestamp : SimTime)
    (timestamps : List SimTime) (flushedAt : SimTime) :
    ¬c.Lossless (timestamp :: timestamps) flushedAt := by
  rintro ⟨ws, hperm, -, hmeans⟩
  have halpha : c.ema.alpha ≠ 0 := by
    obtain ⟨ema, hema, rfl⟩ := Option.map_eq_some_iff.mp hnew
    rw [ExponentialMovingAverage.new] at hema
    split at hema
    · rename_i halpha
      cases hema
      exact halpha.1.ne'
    · cases hema
  -- two series that differ in their first value only
  have hzeros := hmeans (0 :: List.replicate timestamps.length 0) (by simp)
  have hone := hmeans (1 :: List.replicate timestamps.length 0) (by simp)
  have hsame :
      c.emitted (List.zipWith TimeSeriesPoint.mk (timestamp :: timestamps)
        (0 :: List.replicate timestamps.length 0)) flushedAt =
      c.emitted (List.zipWith TimeSeriesPoint.mk (timestamp :: timestamps)
        (1 :: List.replicate timestamps.length 0)) flushedAt := by
    rw [emitted_eq hnew, emitted_eq hnew]
    rfl
  rw [hzeros, hone] at hsame
  have hmean := List.map_inj_left.mp (ExponentialMovingAverage.updates_inj halpha hsame)
  have hmem : 0 ∈ ws.flatten := hperm.mem_iff.mpr (List.mem_range.mpr (Nat.succ_pos _))
  obtain ⟨window, hwindow, hfirst⟩ := List.mem_flatten.mp hmem
  have hpos := mean_pos timestamps.length hfirst
  rw [← hmean window hwindow, ← List.replicate_succ, mean_zeros] at hpos
  exact lt_irrefl 0 hpos

/-- No sample is lost exactly if there is none. -/
theorem lossless_iff {aggregationWindow : Nat} {emaAlpha : ℚ} (hnew : new aggregationWindow emaAlpha = some c)
    (timestamps : List SimTime) (flushedAt : SimTime) : c.Lossless timestamps flushedAt ↔ timestamps = [] := by
  constructor
  · intro h
    cases timestamps with
    | nil => rfl
    | cons timestamp timestamps => exact absurd h (not_lossless_cons hnew timestamp timestamps flushedAt)
  · rintro rfl
    refine ⟨[], .refl _, List.not_mem_nil, fun values hvalues => ?_⟩
    rw [emitted_eq hnew]
    rfl

/-- A collector with a window of 100 ms, where each value counts for a fifth. -/
def fifth : TimeSeriesCollector := ⟨[], [], 100000000, ⟨1 / 5, none⟩, none, 0, 0⟩

theorem new_fifth : new 100000000 (1 / 5) = some fifth := by decide +kernel

theorem lossless_iff_fifth : fifth.Lossless [] .zero := (lossless_iff new_fifth [] .zero).mpr rfl

/-- Of the samples after 10, 20 and 150 ms, only the second one is counted. -/
theorem not_lossless_fifth :
    fifth.emitted [⟨.saturate 10000000, 5⟩, ⟨.saturate 20000000, 15⟩, ⟨.saturate 150000000, 25⟩] (.saturate 200000000) = [15] ∧
      ¬fifth.Lossless [.saturate 10000000, .saturate 20000000, .saturate 150000000] (.saturate 200000000) :=
  ⟨by decide +kernel, not_lossless_cons new_fifth _ _ _⟩

end TimeSeriesCollector

end DesCartes.Metrics
