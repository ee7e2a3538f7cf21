import DesCartes.Framework.Arrivals
import DesCartes.Proof.Tonic.ClientStream

/-!
# The order in which a client takes its frames

The frames of a response arrive in any order. Which of them the client keeps in its buffer is told
by their numbers alone (`held`): those that wait for a missing one, and the frame that opens the
stream where the next one has overtaken it, which is never taken out. The client takes all of them
in their order exactly if there are fewer than 64 in the buffer whenever a frame arrives.

* `Ordered`: what the state of a stream has to do with the numbers that have arrived;
* `delivering_releases`: the loop;
* `run_delivered_iff`: any run.
-/

namespace DesCartes.Tonic

variable {κ : Type}

/-- The payloads with their numbers. -/
def Answered.data (sent : Answered κ) : List (Nat × List UInt8) := sent.payloads.mapIdx fun i payload => (i + 1, payload)

theorem Answered.Has.le {sent : Answered κ} {frame : StreamFrameWire κ} (h : sent.Has frame) :
    frame.seq.toNat ≤ sent.payloads.length + 1 := by
  obtain ⟨-, hkind⟩ := h
  cases hk : frame.kind <;> rw [hk] at hkind
  · exact hkind.le.trans (Nat.zero_le _)
  · obtain ⟨i, hi, hpayload⟩ := hkind
    have := (List.getElem?_eq_some_iff.mp hpayload).1
    omega
  · exact hkind.1.le
  · exact hkind.1.le

namespace StreamCall

section
variable {ω : Type}

/-! ## Numbers -/

/-- The number that a client waits for. It does not wait for the first frame when the second one is there. -/
def expected (arrived : List Nat) : Nat := if 0 ∈ arrived ∨ 1 ∈ arrived then firstMissing 1 arrived else 0

/-- The first frame has come after the second one. -/
def Overtaken (arrived : List Nat) : Prop := 0 ∈ arrived ∧ arrived.idxOf 1 < arrived.idxOf 0

instance (arrived : List Nat) : Decidable (Overtaken arrived) := inferInstanceAs (Decidable (_ ∧ _))

/-- How many frames wait for a missing one. -/
def waiting (arrived : List Nat) : Nat := arrived.countP (expected arrived ≤ ·)

/-- How many frames are in the buffer. -/
def held (arrived : List Nat) : Nat := arrived.countP fun i => expected arrived ≤ i ∨ i = 0 ∧ Overtaken arrived

/-- There is room in the buffer whenever a frame arrives. -/
def Uncrowded (order : List Nat) : Prop := ∀ k < order.length, held (order.take k) < maxReorderFrames

instance (order : List Nat) : Decidable (Uncrowded order) := inferInstanceAs (Decidable (∀ k < _, _))

theorem uncrowded_snoc {arrived : List Nat} {i : Nat} :
    Uncrowded (arrived ++ [i]) ↔ Uncrowded arrived ∧ held arrived < maxReorderFrames := by
  have htake : ∀ k ≤ arrived.length, (arrived ++ [i]).take k = arrived.take k :=
    fun k hk => List.take_append_of_le_length hk
  rw [Uncrowded, List.length_append, List.length_singleton]
  constructor
  · intro h
    refine ⟨fun k hk => ?_, ?_⟩
    · have := h k (hk.trans (Nat.lt_succ_self _))
      rwa [htake k hk.le] at this
    · have := h arrived.length (Nat.lt_succ_self _)
      rwa [htake _ le_rfl, List.take_length] at this
  · rintro ⟨h, hlast⟩ k hk
    rw [htake k (Nat.lt_succ_iff.mp hk)]
    rcases Nat.lt_succ_iff_lt_or_eq.mp hk with hk | rfl
    · exact h k hk
    · rwa [List.take_length]

/-- Only the first frame itself can be late. -/
theorem overtaken_snoc {arrived : List Nat} {i : Nat} (hi : i ∉ arrived) :
    Overtaken (arrived ++ [i]) ↔ if i = 0 then 1 ∈ arrived else Overtaken arrived := by
  rw [Overtaken]
  split
  · rename_i hzero
    subst hzero
    rw [List.idxOf_append_of_notMem hi, List.idxOf_cons_self, Nat.add_zero]
    refine ⟨fun h => ?_, fun h => ⟨by simp, ?_⟩⟩
    · by_contra hone
      rw [List.idxOf_append_of_notMem hone] at h
      exact absurd h.2 (Nat.not_lt_of_le (Nat.le_add_right _ _))
    · rw [List.idxOf_append_of_mem h]
      exact List.idxOf_lt_length_iff.mpr h
  · rename_i hne
    have hmem : 0 ∈ arrived ++ [i] ↔ 0 ∈ arrived := by simp [Ne.symm hne]
    rw [hmem, Overtaken]
    refine and_congr_right fun hzero => ?_
    rw [List.idxOf_append_of_mem hzero]
    by_cases hone : 1 ∈ arrived
    · rw [List.idxOf_append_of_mem hone]
    · rw [List.idxOf_append_of_notMem hone, List.idxOf_eq_length_iff.mpr hone]
      have := List.idxOf_lt_length_iff.mpr hzero
      omega

/-! ## The buffer -/

variable (sent : Answered κ) (arrived : List Nat)

/-- The state of a stream whose frames have arrived, and have been taken as far as the number that
it waits for. -/
structure Ordered (state : ClientStreamState κ) : Prop where
  before : ∀ i, 0 < i → i < state.nextExpectedS2c → i ∈ arrived
  started : 0 < state.nextExpectedS2c → 0 ∈ arrived ∨ 1 ∈ arrived
  first : state.nextExpectedS2c = 0 → 1 ∈ arrived → 0 ∈ arrived
  overtaken : Overtaken arrived → 0 < state.nextExpectedS2c
  le : state.nextExpectedS2c ≤ sent.payloads.length + 1
  saw : state.sawS2cOpen = true ↔ 0 < state.nextExpectedS2c
  buffered : ∀ i, (state.reorder.get? i).isSome ↔ i ∈ arrived ∧ (state.nextExpectedS2c ≤ i ∨ i = 0 ∧ Overtaken arrived)
  frames : ∀ i frame, state.reorder.get? i = some frame → frame.seq.toNat = i ∧ sent.Has frame
  payload : state.mode = .client → state.responsePayload.isSome → 1 < state.nextExpectedS2c

variable {sent arrived} {state state' : ClientStreamState κ} {next : StreamFrameWire κ}

theorem ordered_new {mode : ClientStreamMode} :
    Ordered sent [] ⟨mode, 0, false, .empty, mode = .client, none, mode ≠ .client⟩ where
  before _ _ := nofun
  started := nofun
  first _ := nofun
  overtaken h := absurd h.1 List.not_mem_nil
  le := Nat.zero_le _
  saw := ⟨nofun, nofun⟩
  buffered _ := ⟨nofun, nofun⟩
  frames := nofun
  payload _ := nofun

/-- The next frame is not there. -/
theorem Ordered.expected_notMem (h : Ordered sent arrived state)
    (hwaits : state.reorder.get? state.nextExpectedS2c = none) :
    state.nextExpectedS2c ∉ arrived := fun hmem => by
  have := (h.buffered _).mpr ⟨hmem, .inl le_rfl⟩
  rw [hwaits] at this
  cases this

theorem Ordered.expected (h : Ordered sent arrived state)
    (hwaits : state.reorder.get? state.nextExpectedS2c = none) :
    expected arrived = state.nextExpectedS2c := by
  have hnot := h.expected_notMem hwaits
  rw [StreamCall.expected]
  rcases Nat.eq_zero_or_pos state.nextExpectedS2c with hzero | hpos
  · rw [hzero] at hnot ⊢
    exact if_neg (by simpa [hnot] using fun hone => hnot (h.first hzero hone))
  · rw [if_pos (h.started hpos)]
    exact firstMissing_eq_iff.mpr ⟨hpos, hnot, fun j hj => h.before j hj⟩

theorem Ordered.len (h : Ordered sent arrived state)
    (hwaits : state.reorder.get? state.nextExpectedS2c = none) (hnodup : arrived.Nodup) :
    state.reorder.len = held arrived := by
  rw [held, h.expected hwaits, List.countP_eq_length_filter]
  refine BTreeMap.len_eq_length (hnodup.filter _) fun i => ?_
  rw [h.buffered, List.mem_filter, decide_eq_true_iff]

section
variable {frame : StreamFrameWire κ}

theorem Ordered.frames_insert (h : Ordered sent arrived state) (hhas : sent.Has frame) (i : Nat)
    (f : StreamFrameWire κ) (hf : (state.reorder.insert frame.seq.toNat frame).get? i = some f) :
    f.seq.toNat = i ∧ sent.Has f := by
  by_cases hi : i = frame.seq.toNat
  · rw [hi, BTreeMap.get?_insert_self] at hf
    cases hf
    exact ⟨hi.symm, hhas⟩
  · rw [BTreeMap.get?_insert_of_ne hi] at hf
    exact h.frames i f hf

theorem Ordered.buffered_insert (h : Ordered sent arrived state)
    (hfresh : frame.seq.toNat ∉ arrived) (i : Nat) :
    ((state.reorder.insert frame.seq.toNat frame).get? i).isSome ↔
      i ∈ arrived ++ [frame.seq.toNat] ∧ (state.nextExpectedS2c ≤ i ∨ i = 0 ∧
        Overtaken (arrived ++ [frame.seq.toNat])) := by
  rw [overtaken_snoc hfresh]
  by_cases hi : i = frame.seq.toNat
  · rw [hi, BTreeMap.get?_insert_self]
    refine iff_of_true rfl ⟨by simp, ?_⟩
    by_contra hlt
    simp only [not_or, not_and, Nat.not_le] at hlt
    obtain ⟨hlt, hzero⟩ := hlt
    rcases Nat.eq_zero_or_pos frame.seq.toNat with heq | hpos
    · have := hzero heq
      rw [if_pos heq] at this
      exact this ((h.started (by omega)).resolve_left (heq ▸ hfresh))
    · exact hfresh (h.before _ hpos hlt)
  · rw [BTreeMap.get?_insert_of_ne hi, h.buffered]
    have hiff : i ∈ arrived ++ [frame.seq.toNat] ↔ i ∈ arrived := by simp [hi]
    rw [hiff]
    refine and_congr_right fun hmem => or_congr_right (and_congr_right fun hzero => ?_)
    rw [if_neg (hzero ▸ Ne.symm hi)]

/-- The first frame that arrives is the one with the number 1: the client does not wait for the one
before it. -/
theorem Ordered.opens (h : Ordered sent arrived state)
    (hwaits : state.reorder.get? state.nextExpectedS2c = none) (hhas : sent.Has frame)
    (hfresh : frame.seq.toNat ∉ arrived) (hzero : state.nextExpectedS2c = 0)
    (hone : ((state.reorder.insert frame.seq.toNat frame).get? 1).isSome) :
    Ordered sent (arrived ++ [frame.seq.toNat])
      { state with reorder := state.reorder.insert frame.seq.toNat frame, sawS2cOpen := true, nextExpectedS2c := 1 } := by
  have hnot := h.expected_notMem hwaits
  rw [hzero] at hnot
  have hseq : frame.seq.toNat = 1 := by
    by_contra hne
    rw [BTreeMap.get?_insert_of_ne (Ne.symm hne), h.buffered] at hone
    exact hnot (h.first hzero hone.1)
  refine ⟨fun i hpos hlt => absurd hpos (Nat.not_lt_of_le (Nat.lt_succ_iff.mp hlt)),
    fun _ => .inr (by simp [hseq]), nofun,
    fun _ => Nat.one_pos, Nat.succ_le_succ (Nat.zero_le _), ⟨fun _ => Nat.one_pos, fun _ => rfl⟩,
    fun i => ?_, h.frames_insert hhas,
    fun hmode hsome => absurd (h.payload hmode hsome) ?_⟩
  · rw [h.buffered_insert hfresh, hzero]
    refine and_congr_right fun hmem => ?_
    have hpos : i ≠ 0 := by
      rintro rfl
      rcases List.mem_append.mp hmem with hmem | hmem
      · exact hnot hmem
      · rw [hseq] at hmem
        cases List.mem_singleton.mp hmem
    exact iff_of_true (.inl (Nat.zero_le _)) (.inl (Nat.pos_of_ne_zero hpos))
  · rw [hzero]
    decide

/-- A frame that has not arrived before is put into the buffer. -/
theorem Ordered.receive (h : Ordered sent arrived state)
    (hwaits : state.reorder.get? state.nextExpectedS2c = none) (hhas : sent.Has frame)
    (hfresh : frame.seq.toNat ∉ arrived) :
    Ordered sent (arrived ++ [frame.seq.toNat]) (state.receive frame) := by
  have hmem : ∀ {i}, i ∈ arrived → i ∈ arrived ++ [frame.seq.toNat] := List.mem_append_left _
  rw [ClientStreamState.receive]
  split
  · rename_i hfirst
    exact h.opens hwaits hhas hfresh hfirst.2.1 hfirst.2.2.2
  · rename_i hfirst
    refine ⟨fun i hpos hlt => hmem (h.before i hpos hlt), fun hpos => (h.started hpos).imp hmem hmem,
      fun hzero hone => ?_,
      fun hover => ?_, h.le, h.saw, h.buffered_insert hfresh, h.frames_insert hhas, h.payload⟩
    · have hzero : state.nextExpectedS2c = 0 := hzero
      by_contra hnone
      have hget0 := (h.buffered_insert hfresh 0).not.mpr fun hb => hnone hb.1
      have hget1 := (h.buffered_insert hfresh 1).mpr ⟨hone, .inl (hzero ▸ Nat.zero_le _)⟩
      have hsaw : state.sawS2cOpen = false := by
        rw [← Bool.not_eq_true, h.saw, hzero]
        exact Nat.lt_irrefl 0
      exact hfirst ⟨hsaw, hzero, Option.not_isSome_iff_eq_none.mp hget0, hget1⟩
    · rw [overtaken_snoc hfresh] at hover
      split at hover
      · rename_i heq
        by_contra hpos
        exact hfresh (heq ▸ h.first (Nat.eq_zero_of_not_pos hpos) hover)
      · exact h.overtaken hover

end

/-- The next frame has been taken out of the buffer, and is not the last one. -/
theorem Ordered.advance (h : Ordered sent arrived state)
    (hnext : state.reorder.get? state.nextExpectedS2c = some next)
    (hle : state.nextExpectedS2c ≤ sent.payloads.length)
    (hexpected : state'.nextExpectedS2c = state.nextExpectedS2c + 1)
    (hreorder : state'.reorder = state.reorder.erase state.nextExpectedS2c)
    (hsaw : state'.sawS2cOpen = true)
    (hpayload : state'.mode = .client → state'.responsePayload.isSome → 0 < state.nextExpectedS2c) :
    Ordered sent arrived state' := by
  have hmem : state.nextExpectedS2c ∈ arrived := ((h.buffered _).mp (by rw [hnext]; rfl)).1
  refine ⟨fun i hpos hlt => ?_, fun _ => ?_, fun hzero => ?_, fun _ => ?_, ?_, ?_, fun i => ?_,
    fun i frame hf => ?_, ?_⟩
  · rw [hexpected] at hlt
    rcases Nat.lt_succ_iff_lt_or_eq.mp hlt with hlt | rfl
    · exact h.before i hpos hlt
    · exact hmem
  · rcases Nat.eq_zero_or_pos state.nextExpectedS2c with hzero | hpos
    · exact .inl (hzero ▸ hmem)
    · exact h.started hpos
  · rw [hexpected] at hzero
    cases hzero
  · rw [hexpected]
    exact Nat.succ_pos _
  · rw [hexpected]
    exact Nat.succ_le_succ hle
  · rw [hsaw, hexpected]
    exact iff_of_true rfl (Nat.succ_pos _)
  · rw [hreorder, hexpected]
    by_cases hi : i = state.nextExpectedS2c
    · rw [hi, BTreeMap.get?_erase_self]
      refine iff_of_false nofun ?_
      rintro ⟨-, hlt | ⟨hzero, hover⟩⟩
      · exact absurd hlt (Nat.not_succ_le_self _)
      · exact absurd (h.overtaken hover) (by rw [hzero]; exact Nat.lt_irrefl 0)
    · rw [BTreeMap.get?_erase_of_ne hi, h.buffered]
      have hiff : state.nextExpectedS2c ≤ i ↔ state.nextExpectedS2c + 1 ≤ i := by omega
      rw [hiff]
  · rw [hreorder] at hf
    by_cases hi : i = state.nextExpectedS2c
    · rw [hi, BTreeMap.get?_erase_self] at hf
      cases hf
    · rw [BTreeMap.get?_erase_of_ne hi] at hf
      exact h.frames i frame hf
  · intro hmode hsome
    rw [hexpected]
    exact Nat.succ_lt_succ (hpayload hmode hsome)

/-! ## The loop -/

/-- The payloads of the frames, with their numbers. -/
def dataOf (frames : List (StreamFrameWire κ)) : List (Nat × List UInt8) :=
  frames.filterMap fun frame => if frame.kind = .data then some (frame.seq.toNat, frame.payload) else none

/-- The items that have been read, those that wait, and the response. -/
def seen (items : List (Item κ)) (c : StreamCall κ ω) : List (Item κ) := items ++ c.stream.queue ++ c.response.toList

/-- The state has what it sends with, and the consumer is there. -/
structure Connected (state : ClientStreamState κ) (stream : Mpsc.State (Item κ) ω) : Prop where
  streamTx : state.mode ≠ .client → state.streamTx = true
  responseTx : state.mode = .client → state.responseTx = true
  alive : stream.receiverAlive = true

variable (sent arrived) (items : List (Item κ)) (done : List (StreamFrameWire κ))

/-- A stream that goes on, `done` being the frames that have been taken. -/
structure Flowing (c : StreamCall κ ω) (state : ClientStreamState κ) : Prop where
  ordered : Ordered sent arrived state
  connected : Connected state c.stream
  single : state.mode = .client → sent.payloads.length ≤ 1
  data : dataOf done = sent.data.take (state.nextExpectedS2c - 1)
  unclosed : ∀ frame ∈ done, frame.kind = .open ∨ frame.kind = .data
  intact : ∀ status, .error status ∉ seen items c

variable [TonicCode κ]

/-- A stream whose frames have all been taken. -/
structure Complete (c : StreamCall κ ω) : Prop where
  pending : c.pending = none
  all : ∀ i, 0 < i → i ≤ sent.payloads.length + 1 → i ∈ arrived
  data : dataOf done = sent.data
  closed : ∃ frame ∈ done, frame.kind = .close
  brought : ∀ status, .error status ∈ seen items c → ∃ frame ∈ done, frame.error? = some status

/-- What taking the next frame leads to. -/
inductive Taken (c : StreamCall κ ω) (state : ClientStreamState κ) (next : StreamFrameWire κ) :
    StreamCall κ ω × Option (ClientStreamState κ) → Prop
  | goesOn (c' : StreamCall κ ω) (state' : ClientStreamState κ) : Flowing sent arrived items (done ++ [next]) c' state' →
    state'.reorder = state.advance.reorder → state'.nextExpectedS2c = state.advance.nextExpectedS2c →
    c'.stream.queue.length ≤ c.stream.queue.length + slots next → Taken c state next (c', some state')
  | ended (c' : StreamCall κ ω) : Complete sent arrived items (done ++ [next]) c' → Taken c state next (c', none)

variable {sent arrived items done} {c : StreamCall κ ω}

omit [TonicCode κ] in
theorem dataOf_snoc :
    dataOf (done ++ [next]) = dataOf done ++ if next.kind = .data then
      [(next.seq.toNat, next.payload)] else [] := by
  rw [dataOf, List.filterMap_append]
  congr 1
  by_cases hkind : next.kind = .data <;> simp [hkind]

omit [TonicCode κ] in
theorem mem_seen {x : Item κ} : x ∈ seen items c ↔ x ∈ items ∨ x ∈ c.stream.queue ∨ c.response = some x := by
  rw [seen, List.mem_append, List.mem_append, Option.mem_toList, or_assoc]

omit [TonicCode κ] in
theorem seen_remove : seen items (c.remove state) = seen items c := by
  rw [remove]
  split
  · rw [seen, Mpsc.queue_dropSender]
    rfl
  · rfl

omit [TonicCode κ] in
/-- What is seen when a stream fails. -/
theorem error_seen_fail {status status' : Status κ} (h : .error status' ∈ seen items (c.fail state status)) :
    .error status' ∈ seen items c ∨ status' = status := by
  unfold fail at h
  cases hmode : state.mode with
  | client =>
    rw [hmode] at h
    simp only at h
    rw [seen_remove, mem_seen] at h
    rw [mem_seen]
    rcases h with h | h | h
    · exact .inl (.inl h)
    · exact .inl (.inr (.inl h))
    · simp only at h
      split at h
      · cases h
        exact .inr rfl
      · exact .inl (.inr (.inr h))
  | server | bidi =>
    rw [hmode] at h
    simp only at h
    rw [seen_remove, mem_seen] at h
    rw [mem_seen]
    rcases h with h | h | h
    · exact .inl (.inl h)
    · simp only at h
      split at h
      · rcases Mpsc.mem_queue_trySend h with h | h
        · exact .inl (.inr (.inl h))
        · cases h
          exact .inr rfl
      · exact .inl (.inr (.inl h))
    · exact .inl (.inr (.inr h))

theorem taken_open (h : Flowing sent arrived items done c state)
    (hnext : state.reorder.get? state.nextExpectedS2c = some next) (hkind : next.kind = .«open») :
    Taken sent arrived items done c state next (c.process state.advance next) := by
  obtain ⟨hseq, -, hhas⟩ := h.ordered.frames _ _ hnext
  rw [hkind] at hhas
  have hzero : state.nextExpectedS2c = 0 := hseq.symm.trans hhas
  unfold process
  rw [hkind]
  refine .goesOn c _ ⟨?_, ⟨h.connected.streamTx, h.connected.responseTx, h.connected.alive⟩, h.single,
    ?_, ?_, h.intact⟩ rfl rfl
    (Nat.le_add_right _ _)
  · refine h.ordered.advance hnext (hzero ▸ Nat.zero_le _) rfl rfl rfl fun hmode hsome => ?_
    exact Nat.lt_of_succ_lt (h.ordered.payload hmode hsome)
  · rw [dataOf_snoc, hkind, if_neg (by decide), List.append_nil, h.data, hzero]
    simp only [ClientStreamState.advance, hzero, Nat.add_sub_cancel]
  · exact List.forall_mem_append.mpr ⟨h.unclosed, List.forall_mem_singleton.mpr (.inl hkind)⟩

theorem taken_data (h : Flowing sent arrived items done c state)
    (hnext : state.reorder.get? state.nextExpectedS2c = some next)
    (hroom : c.stream.queue.length + slots next ≤ c.stream.capacity) (hkind : next.kind = .data) :
    Taken sent arrived items done c state next (c.process state.advance next) := by
  obtain ⟨hseq, -, hhas⟩ := h.ordered.frames _ _ hnext
  rw [hkind] at hhas
  obtain ⟨i, hi, hpayload⟩ := hhas
  have hindex : state.nextExpectedS2c = i + 1 := hseq.symm.trans hi
  have hlt : i < sent.payloads.length := (List.getElem?_eq_some_iff.mp hpayload).1
  have hsaw : state.sawS2cOpen = true := h.ordered.saw.mpr (by omega)
  have hslots : slots next = 1 := if_pos (.inl hkind)
  have hdata : dataOf (done ++ [next]) = sent.data.take (state.nextExpectedS2c + 1 - 1) := by
    have hget : sent.data[i]? = some (i + 1, next.payload) := by
      rw [Answered.data, List.getElem?_mapIdx, hpayload, Option.map_some]
    rw [dataOf_snoc, hkind, if_pos rfl, h.data, hi, hindex, Nat.add_sub_cancel, Nat.add_sub_cancel,
      List.take_add_one, hget,
      Option.toList_some]
  have hunclosed : ∀ frame ∈ done ++ [next], frame.kind = .open ∨ frame.kind = .data :=
    List.forall_mem_append.mpr ⟨h.unclosed, List.forall_mem_singleton.mpr (.inr hkind)⟩
  have hpos : 0 < state.nextExpectedS2c := by omega
  have hle : state.nextExpectedS2c ≤ sent.payloads.length := by omega
  unfold process
  rw [hkind]
  simp only
  rw [if_neg (by rw [show state.advance.sawS2cOpen = true from hsaw]; decide)]
  have hpush : state.mode ≠ .client →
      Taken sent arrived items done c state next (c.push state.advance next.payload) := by
    intro hmode
    have hqueue := (Mpsc.trySend_of_room (Except.ok next.payload : Item κ) h.connected.alive (by omega)).1
    have hstreamTx : state.advance.streamTx = true := h.connected.streamTx hmode
    rw [push_of_room next.payload hstreamTx h.connected.alive (by omega)]
    refine .goesOn _ _ ⟨h.ordered.advance hnext hle rfl rfl hsaw fun _ _ => hpos,
      ⟨h.connected.streamTx, h.connected.responseTx, ?_⟩, h.single, hdata, hunclosed,
      fun status hmem => ?_⟩ rfl rfl ?_
    · rw [Mpsc.receiverAlive_trySend, h.connected.alive]
    · rw [mem_seen, hqueue, List.mem_append, List.mem_singleton] at hmem
      refine h.intact status (mem_seen.mpr ?_)
      rcases hmem with hmem | (hmem | hmem) | hmem
      · exact .inl hmem
      · exact .inr (.inl hmem)
      · cases hmem
      · exact .inr (.inr hmem)
    · rw [hqueue, List.length_append, hslots]
      exact le_rfl
  cases hmode : state.advance.mode with
  | client =>
    have hone := h.single hmode
    have hnone : state.advance.responsePayload = none := by
      by_contra hsome
      have := h.ordered.payload hmode (Option.isSome_iff_ne_none.mpr hsome)
      omega
    simp only [hnone, Option.isSome_none, Bool.false_eq_true, if_false]
    exact .goesOn c _ ⟨h.ordered.advance hnext hle rfl rfl hsaw fun _ _ => hpos,
      ⟨fun hne => absurd rfl hne, fun _ => h.connected.responseTx hmode, h.connected.alive⟩,
      fun _ => hone, hdata, hunclosed, h.intact⟩
      rfl rfl (Nat.le_add_right _ _)
  | server => exact hpush (by rw [show state.mode = .server from hmode]; decide)
  | bidi => exact hpush (by rw [show state.mode = .bidi from hmode]; decide)

theorem taken_close (h : Flowing sent arrived items done c state)
    (hnext : state.reorder.get? state.nextExpectedS2c = some next) (hkind : next.kind = .close) :
    Taken sent arrived items done c state next (c.process state.advance next) := by
  obtain ⟨hseq, -, hhas⟩ := h.ordered.frames _ _ hnext
  rw [hkind] at hhas
  have hlast : state.nextExpectedS2c = sent.payloads.length + 1 := hseq.symm.trans hhas.1
  have hmem : state.nextExpectedS2c ∈ arrived := ((h.ordered.buffered _).mp (by rw [hnext]; rfl)).1
  have hcomplete : ∀ c' : StreamCall κ ω, c'.pending = none →
      (∀ status, .error status ∈ seen items c' → next.error? = some status) →
      Taken sent arrived items done c state next (c', none) := by
    intro c' hpending herror
    refine .ended c' ⟨hpending, fun i hpos hle => ?_, ?_, ⟨next, by simp, hkind⟩,
      fun status hstatus => ⟨next, by simp, herror status hstatus⟩⟩
    · rcases Nat.lt_or_eq_of_le hle with hlt | rfl
      · exact h.ordered.before i hpos (hlast ▸ hlt)
      · exact hlast ▸ hmem
    · have hlength : sent.data.length = sent.payloads.length := List.length_mapIdx
      rw [dataOf_snoc, hkind, if_neg (by decide), List.append_nil, h.data, hlast, Nat.add_sub_cancel,
        ← hlength, List.take_length]
  unfold process
  rw [hkind]
  simp only
  cases hok : next.statusOk with
  | true =>
    rw [if_pos rfl]
    have hremoved : ∀ c' : StreamCall κ ω, (∀ status, .error status ∉ seen items c') →
        Taken sent arrived items done c state next (c'.remove state.advance, none) := fun c' hintact =>
      hcomplete _ (by rw [remove]) fun status hstatus => absurd (seen_remove ▸ hstatus) (hintact status)
    cases hmode : state.advance.mode with
    | client =>
      refine hremoved _ fun status hstatus => ?_
      rw [mem_seen] at hstatus
      refine h.intact status (mem_seen.mpr ?_)
      rcases hstatus with hstatus | hstatus | hstatus
      · exact .inl hstatus
      · exact .inr (.inl hstatus)
      · simp only at hstatus
        split at hstatus
        · cases hstatus
        · exact .inr (.inr hstatus)
    | server => exact hremoved c h.intact
    | bidi => exact hremoved c h.intact
  | false =>
    rw [if_neg (by decide)]
    refine hcomplete _ ?_ fun status hstatus => ?_
    · unfold fail
      split <;> rw [remove]
    · obtain hstatus | rfl := error_seen_fail hstatus
      · exact absurd hstatus (h.intact status)
      · rw [StreamFrameWire.error?, hkind]
        simp [hok]

/-- The next frame is taken. -/
theorem taken_process (hending : sent.ending ≠ .cancelled) (h : Flowing sent arrived items done c state)
    (hnext : state.reorder.get? state.nextExpectedS2c = some next)
    (hroom : c.stream.queue.length + slots next ≤ c.stream.capacity) :
    Taken sent arrived items done c state next (c.process state.advance next) := by
  obtain ⟨-, -, hhas⟩ := h.ordered.frames _ _ hnext
  cases hkind : next.kind with
  | «open» => exact taken_open h hnext hkind
  | data => exact taken_data h hnext hroom hkind
  | close => exact taken_close h hnext hkind
  | cancel =>
    rw [hkind] at hhas
    exact absurd hhas.2 hending

variable (sent arrived items done) in
/-- The stream goes on, and waits for its next frame, or all the frames have been taken. -/
def Delivering (c : StreamCall κ ω) : Prop :=
  (∃ state, c.pending = some state ∧ state.reorder.get? state.nextExpectedS2c = none ∧ Flowing sent arrived items done c state) ∨
    Complete sent arrived items done c

/-- The loop stops where the next frame is not there. -/
theorem Flowing.delivering (h : Flowing sent arrived items done c state)
    (hwaits : state.reorder.get? state.nextExpectedS2c = none) {n : Nat}
    (hreleases : c.releases n state = ({ c with pending := some state }, [])) :
    Delivering sent arrived items (done ++ (c.releases n state).2) (c.releases n state).1 := by
  rw [hreleases, List.append_nil]
  exact .inl ⟨state, rfl, hwaits, h.ordered, h.connected, h.single, h.data, h.unclosed, h.intact⟩

/-- With room for what it releases, the loop takes the frames in their order. -/
theorem delivering_releases (hending : sent.ending ≠ .cancelled) (n : Nat)
    (h : Flowing sent arrived items done c state) (hlen : state.reorder.len ≤ n)
    (hroom : c.stream.queue.length + ((BTreeMap.consecutive n state.reorder state.nextExpectedS2c).map slots).sum ≤ c.stream.capacity) :
    Delivering sent arrived items (done ++ (c.releases n state).2) (c.releases n state).1 := by
  induction n generalizing done c state with
  | zero => exact h.delivering (BTreeMap.len_eq_zero.mp (Nat.le_zero.mp hlen) _) rfl
  | succ n ih =>
    cases hnext : state.reorder.get? state.nextExpectedS2c with
    | none => exact h.delivering hnext (by rw [releases, hnext])
    | some next =>
      rw [releases, hnext]
      rw [BTreeMap.consecutive, hnext, List.map_cons, List.sum_cons] at hroom
      have htaken := taken_process hending h hnext (by omega)
      have hgrows := grows_process c state.advance next
      simp only
      generalize c.process state.advance next = r at htaken hgrows
      cases htaken with
      | goesOn c₁ state₁ h₁ hreorder hexpected hlength =>
        have hlen₁ : state₁.reorder.len ≤ n := by
          rw [hreorder]
          exact Nat.lt_succ_iff.mp ((BTreeMap.len_erase_lt hnext).trans_le hlen)
        have hroom₁ :
            c₁.stream.queue.length + ((BTreeMap.consecutive n state₁.reorder state₁.nextExpectedS2c).map slots).sum ≤
            c₁.stream.capacity := by
          rw [hgrows.capacity, hreorder, hexpected]
          exact (Nat.add_le_add_right hlength _).trans (by rw [Nat.add_assoc]; exact hroom)
        have := ih h₁ hlen₁ hroom₁
        rwa [List.append_assoc] at this
      | ended c₁ h₁ => exact .inr h₁

/-! ## What an operation keeps -/

/-- What fails a stream whose buffer is full. -/
def exceeded : Status κ := ⟨TonicCode.resourceExhausted, "stream reorder buffer exceeded".toList⟩

variable (items done) in
/-- The buffer has been full when a frame arrived. -/
structure Exceeded (c : StreamCall κ ω) : Prop where
  pending : c.pending = none
  failed : .error exceeded ∈ seen items c
  unfailed : ∀ frame ∈ done, frame.error? = none

omit [TonicCode κ] in
theorem Flowing.receive (h : Flowing sent arrived items done c state)
    (hwaits : state.reorder.get? state.nextExpectedS2c = none) {frame : StreamFrameWire κ}
    (hhas : sent.Has frame) (hfresh : frame.seq.toNat ∉ arrived) :
    Flowing sent (arrived ++ [frame.seq.toNat]) items done c (state.receive frame) := by
  have hordered := h.ordered.receive hwaits hhas hfresh
  have hdata := h.data
  unfold ClientStreamState.receive at hordered ⊢
  simp only at hordered ⊢
  split at hordered
  · rename_i hfirst
    rw [hfirst.2.1] at hdata
    rw [if_pos hfirst]
    exact ⟨hordered, ⟨h.connected.streamTx, h.connected.responseTx, h.connected.alive⟩, h.single, hdata,
      h.unclosed, h.intact⟩
  · rename_i hfirst
    rw [if_neg hfirst]
    exact ⟨hordered, ⟨h.connected.streamTx, h.connected.responseTx, h.connected.alive⟩, h.single, hdata,
      h.unclosed, h.intact⟩

theorem Complete.mono (h : Complete sent arrived items done c) (i : Nat) :
    Complete sent (arrived ++ [i]) items done c :=
  ⟨h.pending, fun j hpos hle => List.mem_append_left _ (h.all j hpos hle), h.data, h.closed, h.brought⟩

theorem deliver_of_frame {payload : List UInt8} {frame : StreamFrameWire κ}
    (hframe : decodeStreamFrame payload = .ok frame) (hhas : sent.Has frame) :
    c.deliver payload = match c.pending with
      | none => (c, [])
      | some state =>
        if maxReorderFrames ≤ state.reorder.len then (c.fail state exceeded, [])
        else c.releases (state.receive frame).reorder.len (state.receive frame) := by
  rw [StreamCall.deliver, hframe]
  simp only [hhas.1, ne_eq, not_true_eq_false, if_false]
  rfl

/-- A frame arrives while there is room in the buffer. -/
theorem Delivering.deliver (hending : sent.ending ≠ .cancelled)
    (h : Delivering sent arrived items done c) {payload : List UInt8} {frame : StreamFrameWire κ}
    (hframe : decodeStreamFrame payload = .ok frame) (hhas : sent.Has frame)
    (hfresh : frame.seq.toNat ∉ arrived) (hnodup : arrived.Nodup)
    (hroomy : c.Roomy (.deliver payload)) (hheld : held arrived < maxReorderFrames) :
    Delivering sent (arrived ++ [frame.seq.toNat]) items (done ++ (c.deliver payload).2)
      (c.deliver payload).1 := by
  rw [deliver_of_frame hframe hhas]
  rcases h with ⟨state, hpending, hwaits, h⟩ | h
  · rw [Roomy, hframe, hpending] at hroomy
    have hneeded := hroomy h.connected.alive
    have hlen : ¬maxReorderFrames ≤ state.reorder.len := by
      rw [h.ordered.len hwaits hnodup]
      exact Nat.not_le_of_lt hheld
    rw [needed, if_neg hlen] at hneeded
    rw [hpending]
    simp only
    rw [if_neg hlen]
    exact delivering_releases hending _ (h.receive hwaits hhas hfresh) le_rfl hneeded
  · rw [h.pending, List.append_nil]
    exact .inr (h.mono _)

/-- When the last frame has been taken, the buffer is empty, but for the first one. -/
theorem Complete.held (h : Complete sent arrived items done c)
    (hbound : ∀ i ∈ arrived, i ≤ sent.payloads.length + 1) (hzero : 0 ∉ arrived) :
    held arrived = 0 := by
  have hone : 1 ∈ arrived := h.all 1 Nat.one_pos (Nat.succ_le_succ (Nat.zero_le _))
  obtain ⟨hpos, hnot, -⟩ := firstMissing_spec 1 arrived
  refine List.countP_eq_zero.mpr fun i hi => ?_
  rw [StreamCall.expected, if_pos (.inr hone), decide_eq_true_iff]
  rintro (hle | ⟨rfl, -⟩)
  · exact hnot (h.all _ hpos (hle.trans (hbound i hi)))
  · exact hzero hi

/-- A frame arrives while the buffer is full. -/
theorem Delivering.exceeds (h : Delivering sent arrived items done c) {payload : List UInt8}
    {frame : StreamFrameWire κ} (hframe : decodeStreamFrame payload = .ok frame)
    (hhas : sent.Has frame) (hfresh : frame.seq.toNat ∉ arrived) (hnodup : arrived.Nodup)
    (hbound : ∀ i ∈ arrived, i ≤ sent.payloads.length + 1) (hroomy : c.Roomy (.deliver payload))
    (hheld : maxReorderFrames ≤ held arrived) :
    Exceeded items (done ++ (c.deliver payload).2) (c.deliver payload).1 := by
  rw [deliver_of_frame hframe hhas]
  rcases h with ⟨state, hpending, hwaits, h⟩ | h
  · rw [Roomy, hframe, hpending] at hroomy
    have hneeded := hroomy h.connected.alive
    have hlen : maxReorderFrames ≤ state.reorder.len := (h.ordered.len hwaits hnodup).ge.trans' hheld
    rw [needed, if_pos hlen] at hneeded
    rw [hpending]
    simp only
    rw [if_pos hlen, List.append_nil]
    refine ⟨?_, ?_, fun f hf => ?_⟩
    · unfold fail
      split <;> rw [remove]
    · have hsend := (Mpsc.trySend_of_room (Except.error exceeded : Item κ) h.connected.alive (by omega)).1
      unfold fail
      cases hmode : state.mode with
      | client =>
        simp only
        rw [seen_remove, mem_seen]
        exact .inr (.inr (if_pos (h.connected.responseTx hmode)))
      | server | bidi =>
        have htx : state.streamTx = true := h.connected.streamTx (by rw [hmode]; decide)
        simp only
        rw [seen_remove, mem_seen]
        refine .inr (.inl ?_)
        simp only [htx, if_true]
        rw [hsend]
        simp
    · rw [StreamFrameWire.error?]
      rcases h.unclosed f hf with hkind | hkind <;> rw [hkind]
  · -- only the first frame can be left, and it has found room
    have hseq : frame.seq.toNat = 0 := by
      by_contra hne
      exact hfresh (h.all _ (Nat.pos_of_ne_zero hne) hhas.le)
    rw [h.held hbound (hseq ▸ hfresh)] at hheld
    cases hheld

section
variable {items' : List (Item κ)} {stream : Mpsc.State (Item κ) ω}

/-- Items are read. -/
theorem Delivering.recv (h : Delivering sent arrived items done c)
    (halive : stream.receiverAlive = c.stream.receiverAlive)
    (hseen : seen items' { c with stream } = seen items c) :
    Delivering sent arrived items' done { c with stream } := by
  rcases h with ⟨state, hpending, hwaits, h⟩ | h
  · exact .inl ⟨state, hpending, hwaits, h.ordered,
      ⟨h.connected.streamTx, h.connected.responseTx, halive.trans h.connected.alive⟩, h.single, h.data,
      h.unclosed,
      fun status => hseen ▸ h.intact status⟩
  · exact .inr ⟨h.pending, h.all, h.data, h.closed, fun status hstatus => h.brought status (hseen ▸ hstatus)⟩

end

variable (κ) in
/-- The numbers of the frames that are delivered. -/
def arrivals (ops : List (Op ω)) : List Nat := ops.filterMap fun
  | .deliver payload =>
    match (decodeStreamFrame payload : Except (Status κ) _) with
    | .ok frame => some frame.seq.toNat
    | .error _ => none
  | _ => none

variable (sent) in
/-- A frame of the server is delivered, or the consumer polls the stream. -/
def Receives (op : Op ω) : Prop :=
  match op with
  | .deliver payload => ∃ frame, decodeStreamFrame payload = .ok frame ∧ sent.Has frame
  | .next _ => True
  | _ => False

/-- The client takes the frames in their order and does not fail the stream. The frame that closes
the stream removes it; and when all the frames have arrived, all of them have been taken. -/
structure Delivered (sent : Answered κ) (order : List Nat) (c : StreamCall κ ω) (answers : List (Output κ)) : Prop where
  brought : ∀ status, .error status ∈ read answers ++ c.stream.queue ++ c.response.toList →
    ∃ frame ∈ processed answers, frame.error? = some status
  inOrder : dataOf (processed answers) <+: sent.data
  removed : (∃ frame ∈ processed answers, frame.kind = .close) ↔ c.pending = none
  complete : (∀ i ≤ sent.payloads.length + 1, i ∈ order) →
    dataOf (processed answers) = sent.data ∧ ∃ frame ∈ processed answers, frame.kind = .close

variable {answers : List (Output κ)} {o : Output κ} {ops : List (Op ω)}

theorem arrivals_append {ops' : List (Op ω)} :
    arrivals κ (ops ++ ops') = arrivals κ ops ++ arrivals κ ops' :=
  List.filterMap_append

theorem arrivals_deliver {payload : List UInt8} {frame : StreamFrameWire κ}
    (hframe : decodeStreamFrame payload = .ok frame) :
    arrivals κ [(.deliver payload : Op ω)] = [frame.seq.toNat] := by
  simp [arrivals, hframe]

theorem arrivals_snoc_deliver {payload : List UInt8} {frame : StreamFrameWire κ}
    (hframe : decodeStreamFrame payload = .ok frame) :
    arrivals κ (ops ++ [.deliver payload]) = arrivals κ ops ++ [frame.seq.toNat] := by
  rw [arrivals_append, arrivals_deliver hframe]

theorem arrivals_snoc_next {waker : ω} : arrivals κ (ops ++ [.next waker]) = arrivals κ ops := by
  simp [arrivals]

omit [TonicCode κ] in
theorem processed_snoc_processed {frames : List (StreamFrameWire κ)} :
    processed (answers ++ [.processed frames]) = processed answers ++ frames := by
  simp [processed]

omit [TonicCode κ] in
theorem read_snoc_processed {frames : List (StreamFrameWire κ)} :
    read (answers ++ [.processed frames]) = read answers := by
  rw [read_snoc]
  exact List.append_nil _

omit [TonicCode κ] in
theorem processed_snoc_received {item : Poll (Option (Item κ))} :
    processed (answers ++ [.received item]) = processed answers := by
  simp [processed]

omit [TonicCode κ] in
/-- Polling the stream moves an item. -/
theorem seen_recv (waker : ω) :
    seen (read (answers ++ [.received (c.stream.recv waker).2.2]))
      { c with stream := (c.stream.recv waker).1 } =
    seen (read answers) c := by
  rw [seen, seen, read_snoc, Mpsc.State.recv]
  split
  · rename_i value queue hqueue
    rw [hqueue]
    simp [Output.item?]
    rfl
  · rename_i hqueue
    split
    · simp [Output.item?]
    · simp [Output.item?, hqueue]

variable (sent) in
/-- What holds after any operations. -/
structure Received (ops : List (Op ω)) (answers : List (Output κ)) (c : StreamCall κ ω) : Prop where
  bound : ∀ i ∈ arrivals κ ops, i ≤ sent.payloads.length + 1
  delivering : Uncrowded (arrivals κ ops) → Delivering sent (arrivals κ ops) (read answers) (processed answers) c
  exceeded : ¬Uncrowded (arrivals κ ops) → Exceeded (read answers) (processed answers) c

theorem received_new {mode : ClientStreamMode} (hmode : mode = .client → sent.payloads.length ≤ 1) :
    Received sent [] [] (new mode : StreamCall κ ω) := by
  refine ⟨fun i hi => absurd hi List.not_mem_nil, fun _ =>
    .inl ⟨_, rfl, rfl, ordered_new, ?_, hmode, rfl, ?_, ?_⟩,
    fun h => absurd (fun k hk => absurd hk (Nat.not_lt_zero k)) h⟩
  · exact ⟨decide_eq_true, decide_eq_true, rfl⟩
  · exact fun frame hframe => absurd hframe List.not_mem_nil
  · exact fun status hstatus => absurd hstatus List.not_mem_nil

theorem Received.deliver (hending : sent.ending ≠ .cancelled) (h : Received sent ops answers c)
    {payload : List UInt8} {frame : StreamFrameWire κ}
    (hframe : decodeStreamFrame payload = .ok frame) (hhas : sent.Has frame)
    (hroomy : c.Roomy (.deliver payload)) (honce : (arrivals κ (ops ++ [.deliver payload])).Nodup) :
    Received sent (ops ++ [.deliver payload]) (answers ++ [.processed (c.deliver payload).2])
      (c.deliver payload).1 := by
  rw [arrivals_snoc_deliver hframe] at honce
  obtain ⟨hnodup, -, hdisjoint⟩ := List.nodup_append.mp honce
  have hfresh : frame.seq.toNat ∉ arrivals κ ops := fun hmem => hdisjoint _ hmem _ List.mem_cons_self rfl
  constructor
  · rw [arrivals_snoc_deliver hframe]
    exact List.forall_mem_append.mpr ⟨h.bound, List.forall_mem_singleton.mpr hhas.le⟩
  · rw [arrivals_snoc_deliver hframe, processed_snoc_processed, uncrowded_snoc, read_snoc_processed]
    rintro ⟨huncrowded, hheld⟩
    exact (h.delivering huncrowded).deliver hending hframe hhas hfresh hnodup hroomy hheld
  · rw [arrivals_snoc_deliver hframe, processed_snoc_processed, uncrowded_snoc, read_snoc_processed,
      not_and_or]
    intro hcrowded
    by_cases huncrowded : Uncrowded (arrivals κ ops)
    · have hheld := Nat.not_lt.mp (hcrowded.resolve_left (not_not.mpr huncrowded))
      exact (h.delivering huncrowded).exceeds hframe hhas hfresh hnodup h.bound hroomy hheld
    · have hexceeded := h.exceeded huncrowded
      rw [deliver_of_frame hframe hhas, hexceeded.pending, List.append_nil]
      exact hexceeded

theorem Received.poll (h : Received sent ops answers c) (waker : ω) :
    Received sent (ops ++ [.next waker]) (answers ++ [.received (c.stream.recv waker).2.2])
      { c with stream := (c.stream.recv waker).1 } := by
  have halive : (c.stream.recv waker).1.receiverAlive = c.stream.receiverAlive := by
    rw [Mpsc.State.recv]
    split
    · rfl
    · split <;> rfl
  constructor
  · rw [arrivals_snoc_next]
    exact h.bound
  · rw [arrivals_snoc_next, processed_snoc_received]
    exact fun huncrowded => (h.delivering huncrowded).recv halive (seen_recv waker)
  · rw [arrivals_snoc_next, processed_snoc_received]
    intro hcrowded
    have hexceeded := h.exceeded hcrowded
    exact ⟨hexceeded.pending, (seen_recv waker).symm ▸ hexceeded.failed, hexceeded.unfailed⟩

theorem Delivering.delivered (h : Delivering sent arrived (read answers) (processed answers) c) :
    Delivered sent arrived c answers := by
  rcases h with ⟨state, hpending, hwaits, h⟩ | h
  · have hopen : ¬∃ frame ∈ processed answers, frame.kind = .close := by
      rintro ⟨frame, hframe, hkind⟩
      rcases h.unclosed frame hframe with hopen | hopen <;> rw [hkind] at hopen <;> cases hopen
    refine ⟨fun status hstatus => absurd hstatus (h.intact status), h.data ▸ List.take_prefix _ _,
      iff_of_false hopen ?_, fun hall => ?_⟩
    · rw [hpending]
      nofun
    · have := (h.ordered.buffered _).mpr ⟨hall _ h.ordered.le, .inl le_rfl⟩
      rw [hwaits] at this
      cases this
  · exact ⟨h.brought, h.data ▸ List.prefix_rfl, iff_of_true h.closed h.pending, fun _ => ⟨h.data, h.closed⟩⟩

theorem Exceeded.not_delivered (h : Exceeded (read answers) (processed answers) c) :
    ¬Delivered sent arrived c answers := by
  intro hdelivered
  obtain ⟨frame, hframe, herror⟩ := hdelivered.brought _ h.failed
  rw [h.unfailed frame hframe] at herror
  cases herror

/-- Any run of a call whose frames are delivered once, in any order, with a consumer that leaves
room for what they release. Where the client waits for one response, there is not more than one
payload. -/
theorem run_delivered_iff {mode : ClientStreamMode} (hmode : mode = .client → sent.payloads.length ≤ 1)
    (hending : sent.ending ≠ .cancelled) (hops : ∀ op ∈ ops, Receives sent op)
    (hroomy : Machine.Along Roomy StreamCall.step (new mode : StreamCall κ ω) ops)
    (hrun : Machine.run StreamCall.step (new mode) ops = some (c, answers)) (honce : (arrivals κ ops).Nodup) :
    Delivered sent (arrivals κ ops) c answers ↔ Uncrowded (arrivals κ ops) := by
  have h := ((Machine.along_of_forall (C := Receives sent) hops).and hroomy).trace
    (P := fun c ops answers => (arrivals κ ops).Nodup → Received sent ops answers c)
    (fun c a c' o as os h hC hs honce => ?_)
    [] [] (fun _ => received_new hmode) hrun honce
  · rw [List.nil_append, List.nil_append] at h
    exact ⟨fun hdelivered => by_contra fun hcrowded => (h.exceeded hcrowded).not_delivered hdelivered,
      fun huncrowded => (h.delivering huncrowded).delivered⟩
  · obtain ⟨hreceives, hroomy⟩ := hC
    cases a with
    | deliver payload =>
      cases hs
      obtain ⟨frame, hframe, hhas⟩ := hreceives
      refine Received.deliver hending (h ?_) hframe hhas hroomy honce
      rw [arrivals_snoc_deliver hframe] at honce
      exact (List.nodup_append.mp honce).1
    | next waker =>
      rw [StreamCall.step] at hs
      split at hs
      · cases hs
        exact (h (arrivals_snoc_next (κ := κ) ▸ honce)).poll waker
      · cases hs
    | drop => exact hreceives.elim
    | expire => exact hreceives.elim
    | pollTimer waker => exact hreceives.elim

end

/-! ## A buffer that is full when the missing frame arrives -/

/-- The frames are delivered in the order of `seqs`, and the consumer polls the stream `r` times
behind each of them. -/
def arrive (n : Nat) (seqs : List Nat) (r : Nat) : List (Op Nat) :=
  seqs.flatMap fun i => .deliver (encodeStreamFrame (numbered .serverToClient n i)) :: List.replicate r (.next 0)

/-- Frames of the server, each delivered once, with a consumer that leaves room, and never more than
64 of them waiting. -/
def Permitted (n : Nat) (seqs : List Nat) (r : Nat) : Prop :=
  (∀ op ∈ arrive n seqs r, Receives (answerOf n) op) ∧ (arrivals GrpcCode (arrive n seqs r)).Perm (List.range (n + 2)) ∧
    Machine.Along Roomy StreamCall.step (new .server : StreamCall GrpcCode Nat) (arrive n seqs r) ∧
    ∀ k ≤ seqs.length, waiting (seqs.take k) ≤ maxReorderFrames

theorem receives_arrive {n r : Nat} {seqs : List Nat} (hn : n + 1 < 2 ^ 64) (hseqs : ∀ i ∈ seqs, i ≤ n + 1) :
    ∀ op ∈ arrive n seqs r, Receives (answerOf n) op := by
  intro op hop
  obtain ⟨i, hi, hop⟩ := List.mem_flatMap.mp hop
  rcases List.mem_cons.mp hop with rfl | hop
  · exact ⟨_, decode_numbered _ n i, has_numbered hn (hseqs i hi)⟩
  · cases (List.mem_replicate.mp hop).2
    trivial

theorem arrivals_arrive {n r : Nat} {seqs : List Nat} (hn : n + 1 < 2 ^ 64) (hseqs : ∀ i ∈ seqs, i ≤ n + 1) :
    arrivals GrpcCode (arrive n seqs r) = seqs := by
  induction seqs with
  | nil => rfl
  | cons i seqs ih =>
    have hpolls : ∀ m, arrivals GrpcCode (List.replicate m (.next 0) : List (Op Nat)) = [] := fun m => by
      induction m with
      | zero => rfl
      | succ m ih => exact ih
    have ih := ih fun j hj => hseqs j (List.mem_cons_of_mem i hj)
    rw [arrive] at ih ⊢
    rw [List.flatMap_cons, arrivals_append, ih, ← List.singleton_append, arrivals_append, hpolls,
      arrivals_deliver (decode_numbered _ n i), numbered_seq hn (hseqs i List.mem_cons_self)]
    rfl

/-- 64 frames wait for the one with the number 1. -/
def full : List Nat := (List.range 71).filter (· % 12 ≠ 1) ++ [1, 13, 25, 37, 49, 61, 71]

/-- The first frame comes after the second one, and 63 frames wait for the third one. -/
def late : List Nat := 1 :: 0 :: (List.range' 3 68).filter (· % 12 ≠ 2) ++ [2, 14, 26, 38, 50, 62, 71]

/-- The client fails the stream, and takes only some of its frames. -/
def Fails (n : Nat) (seqs : List Nat) (r : Nat) : Prop :=
  ∃ (c : StreamCall GrpcCode Nat) (answers : List (Output GrpcCode)),
    Machine.run step (new .server) (arrive n seqs r) = some (c, answers) ∧ .error exceeded ∈ read answers ∧
      ¬Delivered (answerOf n) (arrivals GrpcCode (arrive n seqs r)) c answers

theorem fails_of_data {n r : Nat} {seqs : List Nat} (data : List (Nat × List UInt8))
    (hpermitted : Permitted n seqs r)
    (hrun : (Machine.run step (new .server : StreamCall GrpcCode Nat) (arrive n seqs r)).map
      (fun q => (dataOf (processed q.2), decide (.error exceeded ∈ read q.2))) = some (data, true))
    (hdata : data ≠ (answerOf n).data) :
    Fails n seqs r := by
  obtain ⟨⟨c, answers⟩, hrun, hvalues⟩ := Option.map_eq_some_iff.mp hrun
  obtain ⟨hprocessed, hexceeded⟩ := Prod.mk.inj hvalues
  refine ⟨c, answers, hrun, of_decide_eq_true hexceeded, fun h => hdata ?_⟩
  have hall : ∀ i ≤ (answerOf n).payloads.length + 1, i ∈ arrivals GrpcCode (arrive n seqs r) := by
    intro i hi
    rw [answerOf, payloadsOf, List.length_map, List.length_range] at hi
    rw [hpermitted.2.1.mem_iff, List.mem_range]
    omega
  rw [← hprocessed]
  exact (h.complete hall).1

theorem permitted_full : Permitted 70 full 12 := by
  refine ⟨receives_arrive (by decide) (by decide), ?_, by decide +kernel, by decide +kernel⟩
  rw [arrivals_arrive (by decide) (by decide)]
  decide

theorem permitted_late : Permitted 70 late 12 := by
  refine ⟨receives_arrive (by decide) (by decide), ?_, by decide +kernel, by decide +kernel⟩
  rw [arrivals_arrive (by decide) (by decide)]
  decide

/-- The missing frame is given up when it arrives, and the stream with it. -/
theorem not_delivered_full : (Permitted 70 full 12 ∧ Fails 70 full 12) ∧ Permitted 70 late 12 ∧ Fails 70 late 12 := by
  refine ⟨⟨permitted_full, ?_⟩, permitted_late, ?_⟩
  · exact fails_of_data [] permitted_full (by decide +kernel) (by decide)
  · exact fails_of_data [(1, [0])] permitted_late (by decide +kernel) (by decide)

/-- The second frame overtakes the first one, and the fourth one the third one. -/
theorem run_delivered_iff_overtaken : ∃ (c : StreamCall GrpcCode Nat) (answers : List (Output GrpcCode)),
    Machine.run step (new .server) (arrive 3 [1, 0, 3, 2, 4] 1) = some (c, answers) ∧
      Delivered (answerOf 3) (arrivals GrpcCode (arrive 3 [1, 0, 3, 2, 4] 1)) c answers := by
  have hrun :
      (Machine.run step (new .server : StreamCall GrpcCode Nat) (arrive 3 [1, 0, 3, 2, 4] 1)).isSome := by
    decide +kernel
  obtain ⟨⟨c, answers⟩, hrun⟩ := Option.isSome_iff_exists.mp hrun
  exact ⟨c, answers, hrun, (run_delivered_iff (by decide) (by rintro ⟨⟩)
    (receives_arrive (by decide) (by decide))
    (by decide +kernel) hrun (by decide +kernel)).mpr (by decide +kernel)⟩

end StreamCall

end DesCartes.Tonic
