import DesCartes.Impl.Ids
import DesCartes.Impl.Time

/-!
# Identifiers are distinct

`splitmix64` is injective (`splitmix64_inj`): it adds a constant, multiplies by odd constants,
which have inverses modulo `2⁶⁴`, and folds the high bits of a word into its low bits, which can
be undone from the highest bit down (`xor_ushiftRight_inj`). So an id determines the word that
`deterministic_uuid` mixed it from (`deterministicUuid_eq_iff`), and different counters of one
generator give different ids (`deterministicUuid_inj`).
-/

namespace DesCartes.Ids

/-- Folding a word shifted right into itself loses nothing. -/
theorem xor_ushiftRight_inj {w k : Nat} (hk : 0 < k) {x y : BitVec w}
    (h : x ^^^ (x >>> k) = y ^^^ (y >>> k)) : x = y := by
  -- Bit `i` depends on bit `i + k`: induction on the distance to the top.
  have bit : ∀ d i, w ≤ i + d → x.getLsbD i = y.getLsbD i := by
    intro d
    induction d with
    | zero =>
      intro i hi
      rw [BitVec.getLsbD_of_ge _ _ (by omega), BitVec.getLsbD_of_ge _ _ (by omega)]
    | succ d ih =>
      intro i hi
      have hb := congrArg (fun z => z.getLsbD i) h
      simp only [BitVec.getLsbD_xor, BitVec.getLsbD_ushiftRight] at hb
      rw [ih (k + i) (by omega)] at hb
      exact Bool.xor_left_inj.mp hb
  exact BitVec.eq_of_getLsbD_eq fun i _ => bit w i (by omega)

/-- A factor with an inverse can be cancelled. -/
theorem mul_right_inj_of_inverse {w : Nat} {c c' x y : BitVec w} (hc : c * c' = 1#w) (h : x * c = y * c) :
    x = y := by
  have := congrArg (· * c') h
  simpa only [BitVec.mul_assoc, hc, BitVec.mul_one] using this

theorem splitmix64_inj {x y : BitVec 64} (h : splitmix64 x = splitmix64 y) : x = y := by
  unfold splitmix64 at h
  have h₁ := xor_ushiftRight_inj (by decide) h
  have h₂ := mul_right_inj_of_inverse (show _ * 0x319642B2D24D8EC3#64 = 1#64 by decide) h₁
  have h₃ := xor_ushiftRight_inj (by decide) h₂
  have h₄ := mul_right_inj_of_inverse (show _ * 0x96DE1B173F119089#64 = 1#64 by decide) h₃
  have h₅ := xor_ushiftRight_inj (by decide) h₄
  generalize 0x9E3779B97F4A7C15#64 = c at h₅
  exact (BitVec.add_left_inj c).mp h₅

/-- The low word of an id. -/
theorem setWidth_deterministicUuid (seed domain counter : BitVec 64) :
    (deterministicUuid seed domain counter).setWidth 64 = splitmix64 (seed ^^^ domain ^^^ counter) := by
  unfold deterministicUuid
  ext i hi
  simp only [BitVec.getElem_setWidth, BitVec.getLsbD_or, BitVec.getLsbD_shiftLeft, BitVec.getLsbD_setWidth]
  simp [show i < 64 from hi, show i < 128 by omega]

/-- Two ids are the same exactly when the words that they are mixed from are. -/
theorem deterministicUuid_eq_iff {s s' d d' c c' : BitVec 64} :
    deterministicUuid s d c = deterministicUuid s' d' c' ↔ s ^^^ d ^^^ c = s' ^^^ d' ^^^ c' := by
  constructor
  · intro h
    have := congrArg (BitVec.setWidth 64) h
    rw [setWidth_deterministicUuid, setWidth_deterministicUuid] at this
    exact splitmix64_inj this
  · intro h
    simp only [deterministicUuid, h]

/-- Different counters give different ids. -/
theorem deterministicUuid_inj {seed domain c c' : BitVec 64}
    (h : deterministicUuid seed domain c = deterministicUuid seed domain c') : c = c' :=
  (BitVec.xor_right_inj _).mp (deterministicUuid_eq_iff.mp h)

/-- Different `u64` numbers are different words. -/
theorem ofNat_inj {m n : Nat} (hm : m ≤ u64Max) (hn : n ≤ u64Max)
    (h : BitVec.ofNat 64 m = BitVec.ofNat 64 n) : m = n := by
  have := congrArg BitVec.toNat h
  simp only [u64Max] at hm hn
  rwa [BitVec.toNat_ofNat, BitVec.toNat_ofNat, Nat.mod_eq_of_lt (by omega),
    Nat.mod_eq_of_lt (by omega)] at this

end DesCartes.Ids
