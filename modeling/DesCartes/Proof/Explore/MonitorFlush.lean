import DesCartes.Proof.Explore.Monitor

/-!
# When `flush_up_to` returns

`Monitor.flushUpTo_returns_iff`: the loop of `flush_up_to` comes to an end, with the time before the
end of the open window, exactly if the time is before that end already, or windows have a length and
the time is not the last one there is.

`window_end` grows by the length of a window as long as it does not saturate. A window of no length
does not make it grow, and the last time of all is never before it (`Monitor.flushUpTo_hangs`).
-/

namespace DesCartes.Explore.Monitor

variable {η : Type} [Histogram η] {m : Monitor η} {now : SimTime}

theorem cfg_flushWindow (m : Monitor η) (stop : SimTime) : (m.flushWindow stop).cfg = m.cfg := by
  obtain ⟨_, _, _, _, _, h, -⟩ := m.flushWindow_eq stop
  rw [h]

theorem windowEnd_flushWindow (m : Monitor η) (stop : SimTime) :
    (m.flushWindow stop).windowEnd = stop + .fromDuration m.cfg.window := by
  obtain ⟨_, _, _, _, _, h, -⟩ := m.flushWindow_eq stop
  rw [h]

/-- What the loop leaves is open at the time. -/
theorem lt_windowEnd_of_flushWindows {m' : Monitor η} {n : Nat}
    (h : m.flushWindows now n = some m') : now < m'.windowEnd := by
  induction n generalizing m with
  | zero =>
    rw [flushWindows] at h
    split at h
    · cases h
    · rename_i hn
      cases h
      exact lt_of_not_ge hn
  | succ n ih =>
    rw [flushWindows] at h
    split at h
    · exact ih h
    · rename_i hn
      cases h
      exact lt_of_not_ge hn

/-- Where windows have a length and the time is not the last one, each window that is closed ends
later than the one before. -/
theorem flushWindows_isSome (hw : 0 < m.cfg.window) (hnow : now.nanos < u64Max) {n : Nat}
    (hn : now.nanos < m.windowEnd.nanos + n) :
    ∃ m', m.flushWindows now n = some m' := by
  induction n generalizing m with
  | zero => exact ⟨m, if_neg (not_le.mpr hn)⟩
  | succ n ih =>
    rw [flushWindows]
    split
    · refine ih (by rwa [cfg_flushWindow]) ?_
      rw [windowEnd_flushWindow, SimTime.nanos_add, SimTime.fromDuration, SimTime.nanos_saturate]
      omega
    · exact ⟨m, rfl⟩

/-- Where windows have no length, or the time is the last one, the window that is open after one is
closed does not end after the time either. -/
theorem flushWindows_stuck (hstuck : m.cfg.window = 0 ∨ now.nanos = u64Max)
    (hle : m.windowEnd ≤ now) (n : Nat) :
    m.flushWindows now n = none := by
  induction n generalizing m with
  | zero => exact if_pos hle
  | succ n ih =>
    rw [flushWindows, if_pos hle]
    refine ih (by rwa [cfg_flushWindow]) ?_
    rw [SimTime.le_def] at hle ⊢
    rw [windowEnd_flushWindow, SimTime.nanos_add, SimTime.fromDuration, SimTime.nanos_saturate]
    omega

/-- `flush_up_to` returns, and leaves a window open that the time is in, exactly if the open window
ends after the time, or windows have a length and the time is not the last one there is. -/
theorem flushUpTo_returns_iff (m : Monitor η) (now : SimTime) :
    (∃ n m', m.flushWindows now n = some m' ∧ m.flushUpTo now = some (m'.flushIdle now) ∧ now < (m'.flushIdle now).windowEnd) ↔
      now < m.windowEnd ∨ 0 < m.cfg.window ∧ now.nanos < u64Max := by
  constructor
  · rintro ⟨n, m', hm', -, -⟩
    by_contra hno
    rw [not_or, not_and_or] at hno
    obtain ⟨hle, hstuck⟩ := hno
    have hlast := now.le_max
    rw [flushWindows_stuck (by omega) (not_lt.mp hle) n] at hm'
    cases hm'
  · intro h
    obtain ⟨m', hm'⟩ : ∃ m', m.flushWindows now (now.nanos + 1) = some m' := by
      rcases h with hlt | ⟨hw, hnow⟩
      · exact ⟨m, by rw [flushWindows, if_neg (not_le.mpr hlt)]⟩
      · exact flushWindows_isSome hw hnow (by omega)
    have hopen := lt_windowEnd_of_flushWindows hm'
    refine ⟨_, m', hm', ?_, hopen⟩
    rw [flushUpTo, hm', Option.map_some]

/-- A monitor whose windows have no length, and one that is flushed up to the last time there is. -/
theorem flushUpTo_hangs :
    (∃ m : Monitor Unit, Monitor.new { window := 0, trackLatencyQuantiles := false } .zero = some m ∧
      ∀ n, m.flushWindows .zero n = none) ∧
    ∃ m : Monitor Unit, Monitor.new { window := 10 ^ 9, trackLatencyQuantiles := false } .zero = some m ∧
      ∀ n, m.flushWindows (.saturate u64Max) n = none := by
  refine ⟨⟨_, rfl, flushWindows_stuck (.inl rfl) ?_⟩, _, rfl, flushWindows_stuck (.inr (by decide)) ?_⟩
  · exact le_rfl
  · exact SimTime.le_max _

end DesCartes.Explore.Monitor
