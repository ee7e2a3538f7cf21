import Mathlib.Algebra.Group.Nat.Defs
import Mathlib.Data.List.Infix

/-!
# Readers

A reader takes what it reads off the front of its input, or fails. `Reads r l a` says that `r` reads
`a` off `l` whatever follows, and that it fails on what is left when something is cut off `l`. A
format is then as good as its parts: what its writer writes is read back, and nothing that is cut
short is taken for something else.

* `Reads.bind`, `reads_pure`, `reads_lift`, `Reads.mapError`: readers one after the other;
* `reads_split`: a number of bytes;
* `Reads.times`: a list, each of whose entries is read by the same reader.
-/

namespace DesCartes

/-- A reader, with its input. -/
abbrev Reader (β ε : Type) := StateT (List β) (Except ε)

namespace Reader

variable {β ε ε' α γ : Type}

/-- The next `n` bytes; the error where there are not so many. -/
def split (error : ε) (n : Nat) : Reader β ε (List β) := fun input =>
  if input.length < n then .error error else .ok (input.take n, input.drop n)

/-- What the reader reads `n` times. -/
def times (r : Reader β ε α) : Nat → Reader β ε (List α)
  | 0 => pure []
  | n + 1 => do
    let a ← r
    let l ← r.times n
    pure (a :: l)

/-- The errors are mapped. -/
def mapError (f : ε → ε') (r : Reader β ε α) : Reader β ε' α := fun input => (r input).mapError f

/-- `a` is read off `l`, and nothing off less of it. -/
structure Reads (r : Reader β ε α) (l : List β) (a : α) : Prop where
  whole : ∀ rest, r (l ++ rest) = .ok (a, rest)
  short : ∀ p, p <+: l → p ≠ l → ∃ e, r p = .error e

variable {r : Reader β ε α} {f : α → Reader β ε γ} {l l' : List β} {a : α} {b : γ}

theorem reads_pure (a : α) : Reads (pure a : Reader β ε α) [] a where
  whole _ := rfl
  short _ hp hne := absurd (List.prefix_nil.mp hp) hne

theorem reads_lift {x : Except ε α} (h : x = .ok a) : Reads (liftM x : Reader β ε α) [] a := by
  subst h
  exact ⟨fun _ => rfl, fun _ hp hne => absurd (List.prefix_nil.mp hp) hne⟩

theorem bind_ok {input rest : List β} (h : r input = .ok (a, rest)) : (r >>= f) input = f a rest := by
  show (r input).bind (fun x => f x.1 x.2) = _
  rw [h]
  rfl

theorem bind_error {input : List β} {e : ε} (h : r input = .error e) : (r >>= f) input = .error e := by
  show (r input).bind (fun x => f x.1 x.2) = _
  rw [h]
  rfl

theorem Reads.bind (hr : Reads r l a) (hf : Reads (f a) l' b) : Reads (r >>= f) (l ++ l') b := by
  constructor
  · intro rest
    rw [List.append_assoc, bind_ok (hr.whole _), hf.whole]
  · intro p hp hne
    rcases List.prefix_or_prefix_of_prefix hp (List.prefix_append l l') with hpl | ⟨q, rfl⟩
    · by_cases hpl' : p = l
      · -- all of the first part is there, and nothing of the second one
        subst hpl'
        have hl' : [] ≠ l' := fun h => hne (by rw [← h, List.append_nil])
        obtain ⟨e, he⟩ := hf.short [] (List.nil_prefix) hl'
        have hwhole := hr.whole []
        rw [List.append_nil] at hwhole
        exact ⟨e, by rw [bind_ok hwhole, he]⟩
      · obtain ⟨e, he⟩ := hr.short p hpl hpl'
        exact ⟨e, bind_error he⟩
    · obtain ⟨e, he⟩ := hf.short q ((List.prefix_append_right_inj l).mp hp) fun h => hne (by rw [h])
      exact ⟨e, by rw [bind_ok (hr.whole q), he]⟩

/-- The last reader, behind which nothing is read. -/
theorem Reads.bind_pure {g : α → γ} (hr : Reads r l a) (h : g a = b) :
    Reads (r >>= fun a => pure (g a)) l b := by
  have := hr.bind (f := fun a => pure (g a)) (reads_pure (g a))
  rwa [List.append_nil, h] at this

/-- A check behind which nothing is read. -/
theorem Reads.bind_lift {x : α → Except ε γ} (hr : Reads r l a) (h : x a = .ok b) :
    Reads (r >>= fun a => liftM (x a)) l b := by
  have := hr.bind (f := fun a => liftM (x a)) (reads_lift h)
  rwa [List.append_nil] at this

theorem Reads.mapError (hr : Reads r l a) (g : ε → ε') : Reads (r.mapError g) l a where
  whole rest := by rw [Reader.mapError, hr.whole]; rfl
  short p hp hne := by
    obtain ⟨e, he⟩ := hr.short p hp hne
    exact ⟨g e, by rw [Reader.mapError, he]; rfl⟩

theorem reads_split (error : ε) {n : Nat} (h : l.length = n) : Reads (split error n) l l where
  whole rest := by
    rw [split, if_neg (by rw [List.length_append]; omega), List.take_left' h, List.drop_left' h]
  short p hp hne := by
    refine ⟨error, if_pos ?_⟩
    have hle := hp.length_le
    have : p.length ≠ l.length := fun h => hne (hp.eq_of_length h)
    omega

theorem Reads.times {write : α → List β} {as : List α} (h : ∀ a ∈ as, Reads r (write a) a) :
    Reads (r.times as.length) (as.flatMap write) as := by
  induction as with
  | nil => exact reads_pure []
  | cons a as ih =>
    rw [List.flatMap_cons, List.length_cons, Reader.times]
    exact (h a List.mem_cons_self).bind ((ih fun b hb => h b (List.mem_cons_of_mem a hb)).bind_pure rfl)

/-! ## Numbers -/

/-- The `n` bytes of a number, the lowest first; what does not fit is cut off. -/
def littleEndian : Nat → Nat → List UInt8
  | 0, _ => []
  | n + 1, v => UInt8.ofNat v :: littleEndian n (v / 256)

/-- The number of the bytes. -/
def ofLittleEndian : List UInt8 → Nat
  | [] => 0
  | b :: l => b.toNat + 256 * ofLittleEndian l

@[simp] theorem length_littleEndian (n v : Nat) : (littleEndian n v).length = n := by
  induction n generalizing v with
  | zero => rfl
  | succ n ih => rw [littleEndian, List.length_cons, ih]

theorem ofLittleEndian_littleEndian (n v : Nat) : ofLittleEndian (littleEndian n v) = v % 256 ^ n := by
  induction n generalizing v with
  | zero => rw [Nat.pow_zero, Nat.mod_one]; rfl
  | succ n ih =>
    rw [littleEndian, ofLittleEndian, ih, Nat.pow_succ', Nat.mod_mul, UInt8.toNat_ofNat']

/-- The number of the next `n` bytes. -/
def getLittleEndian (error : ε) (n : Nat) : Reader UInt8 ε Nat := do
  let bytes ← split error n
  pure (ofLittleEndian bytes)

theorem reads_getLittleEndian (error : ε) {n v : Nat} (h : v < 256 ^ n) :
    Reads (getLittleEndian error n) (littleEndian n v) v :=
  (reads_split error (length_littleEndian n v)).bind_pure
    (by rw [ofLittleEndian_littleEndian, Nat.mod_eq_of_lt h])

end Reader

end DesCartes
