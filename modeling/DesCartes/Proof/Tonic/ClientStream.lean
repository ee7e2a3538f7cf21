import DesCartes.Framework.Machine
import DesCartes.Impl.Tonic.ClientStream
import DesCartes.Proof.Sync.MpscAtomic
import DesCartes.Proof.Tonic.Wire
import Mathlib.Algebra.GroupWithZero.Nat

/-!
# What a response stream shows

The items that are read and those that wait in the channel are the payloads in their order, and
behind them an error if the stream does not end well (`Flowing`). That is so as long as the channel
has room for what a frame releases (`Roomy`): where it has none, the stream ends like one that is
complete.

* `releases_flow`: the loop;
* `Kept.step`: an operation;
* `run_untruncated`: any run.
-/

namespace DesCartes.Tonic

variable {κ : Type}

/-- How a server ends a stream. -/
inductive Ending (κ : Type) where
  | ok
  | failed (status : Status κ)
  | cancelled

/-- What a server sends: the payloads and the ending. -/
structure Answered (κ : Type) where
  payloads : List (List UInt8)
  ending : Ending κ

/-- The error that a frame brings. -/
def StreamFrameWire.error? [TonicCode κ] (frame : StreamFrameWire κ) : Option (Status κ) :=
  match frame.kind with
  | .open => none
  | .data => none
  | .close => if frame.statusOk then none else some ⟨frame.statusCode, frame.statusMessage⟩
  | .cancel => some ⟨TonicCode.cancelled, "stream cancelled".toList⟩

/-- The frame is one of those with which the server answers. -/
def Answered.Has (sent : Answered κ) (frame : StreamFrameWire κ) : Prop :=
  frame.direction = .serverToClient ∧
    match frame.kind with
    | .open => frame.seq.toNat = 0
    | .data => ∃ i, frame.seq.toNat = i + 1 ∧ sent.payloads[i]? = some frame.payload
    | .close => frame.seq.toNat = sent.payloads.length + 1 ∧
      sent.ending = if frame.statusOk then .ok else .failed ⟨frame.statusCode, frame.statusMessage⟩
    | .cancel => frame.seq.toNat = sent.payloads.length + 1 ∧ sent.ending = .cancelled

namespace StreamCall

variable {ω : Type} {c c' : StreamCall κ ω} {state : ClientStreamState κ}

/-! ## Room -/

section
variable [TonicCode κ]

/-- How many items a frame sends. -/
def slots (frame : StreamFrameWire κ) : Nat := if frame.kind = .data ∨ frame.error?.isSome then 1 else 0

/-- How many items are sent when the frame arrives. -/
def needed (state : ClientStreamState κ) (frame : StreamFrameWire κ) : Nat :=
  if maxReorderFrames ≤ state.reorder.len then 1
  else
    let state := state.receive frame
    ((BTreeMap.consecutive state.reorder.len state.reorder state.nextExpectedS2c).map slots).sum

/-- The consumer, if there is one, has left room for what the operation sends. -/
def Roomy (c : StreamCall κ ω) : Op ω → Prop
  | .deliver payload =>
    match decodeStreamFrame payload, c.pending with
    | .ok frame, some state =>
      c.stream.receiverAlive = true → c.stream.queue.length + needed state frame ≤ c.stream.capacity
    | _, _ => True
  | _ => True

instance (c : StreamCall κ ω) (op : Op ω) : Decidable (c.Roomy op) := by
  unfold Roomy
  split
  · split <;> infer_instance
  · infer_instance

end

/-! ## Histories -/

/-- The item that an operation has read. -/
def Output.item? : Output κ → Option (Item κ)
  | .received (.ready (some item)) => some item
  | _ => none

/-- The items that have been read. -/
def read (answers : List (Output κ)) : List (Item κ) := answers.filterMap Output.item?

/-- The end of the stream has been seen. -/
def Ended (answers : List (Output κ)) : Prop := .received (.ready none) ∈ answers

/-- The frames that have been processed. -/
def processed (answers : List (Output κ)) : List (StreamFrameWire κ) :=
  answers.flatMap fun
    | .processed frames => frames
    | _ => []

/-- The item is no error. -/
def Good (item : Item κ) : Prop := ∃ payload, item = .ok payload

/-- A stream is complete where it ends without an error, and an error that is processed is seen. -/
structure Untruncated [TonicCode κ] (sent : Answered κ) (c : StreamCall κ ω) (answers : List (Output κ)) : Prop where
  complete : Ended answers → (∀ item ∈ read answers, Good item) →
    read answers = sent.payloads.map .ok ∧ sent.ending = .ok
  failed : ∀ frame ∈ processed answers, ∀ status ∈ frame.error?, c.stream.receiverAlive = true →
    .error status ∈ read answers ++ c.stream.queue

/-! ## The loop -/

variable (sent : Answered κ) (items : List (Item κ))

/-- The state has the one sender of the channel. -/
structure Held (state : ClientStreamState κ) (stream : Mpsc.State (Item κ) ω) : Prop where
  mode : state.mode ≠ .client
  streamTx : state.streamTx = true
  senderCount : stream.senderCount = 1

/-- A stream that goes on; `items` are those that have been read. -/
structure Open (state : ClientStreamState κ) (stream : Mpsc.State (Item κ) ω) : Prop extends Held state stream where
  saw : state.sawS2cOpen = true ↔ 0 < state.nextExpectedS2c
  le : state.nextExpectedS2c ≤ sent.payloads.length + 1
  reorder : ∀ i frame, state.reorder.get? i = some frame → frame.seq.toNat = i ∧ sent.Has frame
  items : items ++ stream.queue = (sent.payloads.take (state.nextExpectedS2c - 1)).map .ok

/-- What the items are when a stream is over. -/
def Closed (all : List (Item κ)) : Prop :=
  (∃ n status, all = (sent.payloads.take n).map .ok ++ [.error status]) ∨ all = sent.payloads.map .ok ∧ sent.ending = .ok

/-- What the timer still has to send. -/
def unsent (c : StreamCall κ ω) : List (Item κ) := (c.timer.bind (·.value)).toList

/-- The stream goes on, or is over. -/
def Flows (c : StreamCall κ ω) : Prop :=
  match c.pending with
  | some state => Open sent items state c.stream ∧ c.timer = none
  | none => Closed sent (items ++ c.stream.queue ++ c.unsent) ∧ c.stream.senderCount = c.timer.toList.length ∧
    ∀ f ∈ c.timer, ∃ status, f.value = some (.error status)

/-- Nothing is taken out of the channel. -/
structure Grows (stream stream' : Mpsc.State (Item κ) ω) : Prop where
  capacity : stream'.capacity = stream.capacity
  receiverAlive : stream'.receiverAlive = stream.receiverAlive
  queue : stream.queue <+: stream'.queue

theorem grows_refl (stream : Mpsc.State (Item κ) ω) : Grows stream stream := ⟨rfl, rfl, List.prefix_rfl⟩

theorem Grows.trans {a b d : Mpsc.State (Item κ) ω} (h : Grows a b) (h' : Grows b d) : Grows a d :=
  ⟨h'.capacity.trans h.capacity, h'.receiverAlive.trans h.receiverAlive, h.queue.trans h'.queue⟩

theorem grows_trySend (stream : Mpsc.State (Item κ) ω) (item : Item κ) :
    Grows stream (stream.trySend item).1 :=
  ⟨Mpsc.capacity_trySend item, Mpsc.receiverAlive_trySend item, Mpsc.queue_trySend item⟩

theorem grows_dropSender (stream : Mpsc.State (Item κ) ω) : Grows stream stream.dropSender.1 :=
  ⟨Mpsc.capacity_dropSender, Mpsc.receiverAlive_dropSender, by rw [Mpsc.queue_dropSender]⟩

theorem grows_remove (c : StreamCall κ ω) (state : ClientStreamState κ) :
    Grows c.stream (c.remove state).stream := by
  simp only [remove]
  split
  · exact grows_dropSender _
  · exact grows_refl _

theorem grows_fail (c : StreamCall κ ω) (state : ClientStreamState κ) (status : Status κ) :
    Grows c.stream (c.fail state status).stream := by
  unfold fail
  cases state.mode with
  | client => exact grows_remove _ state
  | server | bidi =>
    refine Grows.trans ?_ (grows_remove _ state)
    simp only
    split
    · exact grows_trySend _ _
    · exact grows_refl _

theorem remove_held {c : StreamCall κ ω} (hheld : Held state c.stream) :
    c.remove state = { c with pending := none, stream := c.stream.dropSender.1 } := by
  simp only [remove, hheld.streamTx, if_true]

theorem fail_held {c : StreamCall κ ω} {status : Status κ} (hheld : Held state c.stream) :
    c.fail state status = { c with pending := none, stream := (c.stream.trySend (.error status)).1.dropSender.1 } := by
  unfold fail
  cases hmode : state.mode with
  | client => exact absurd hmode hheld.mode
  | server | bidi => simp only [remove, hheld.streamTx, if_true]

/-- The error is sent, when there is room. -/
theorem fail_flow {c : StreamCall κ ω} (status : Status κ) {n : Nat} (hheld : Held state c.stream)
    (htimer : c.timer = none) (hitems : items ++ c.stream.queue = (sent.payloads.take n).map .ok)
    (halive : c.stream.receiverAlive = true) (hroom : c.stream.queue.length < c.stream.capacity) :
    Flows sent items (c.fail state status) ∧ .error status ∈ items ++ (c.fail state status).stream.queue := by
  have hqueue : (c.stream.trySend (.error status)).1.dropSender.1.queue =
      c.stream.queue ++ [Except.error status] := by
    rw [Mpsc.queue_dropSender, (Mpsc.trySend_of_room _ halive hroom).1]
  rw [fail_held hheld]
  refine ⟨⟨.inl ⟨n, status, ?_⟩, ?_, ?_⟩, ?_⟩
  · simp only [hqueue, unsent, htimer]
    rw [← List.append_assoc, hitems]
    exact List.append_nil _
  · simp only [Mpsc.senderCount_dropSender, Mpsc.senderCount_trySend, hheld.senderCount, htimer]
    rfl
  · rw [htimer]
    nofun
  · simp only [hqueue]
    simp

theorem push_of_room {c : StreamCall κ ω} (payload : List UInt8) (hstreamTx : state.streamTx = true)
    (halive : c.stream.receiverAlive = true) (hroom : c.stream.queue.length < c.stream.capacity) :
    c.push state payload = ({ c with stream := (c.stream.trySend (.ok payload)).1 }, some state) := by
  obtain ⟨-, hok⟩ := Mpsc.trySend_of_room (Except.ok payload : Item κ) halive hroom
  rw [push, if_pos hstreamTx]
  generalize c.stream.trySend (.ok payload) = r at hok
  obtain ⟨stream, woken, result⟩ := r
  cases hok
  rfl

theorem grows_push (c : StreamCall κ ω) (state : ClientStreamState κ) (payload : List UInt8) :
    Grows c.stream (c.push state payload).1.stream := by
  have hgrows := grows_trySend c.stream (.ok payload)
  unfold push
  split
  · generalize c.stream.trySend (.ok payload) = r at hgrows
    obtain ⟨stream, woken, result⟩ := r
    cases result with
    | ok u => exact hgrows
    | error e => exact hgrows.trans (grows_remove { c with stream } state)
  · exact grows_refl _

theorem open_receive {stream : Mpsc.State (Item κ) ω} {frame : StreamFrameWire κ}
    (hopen : Open sent items state stream) (hhas : sent.Has frame) :
    Open sent items (state.receive frame) stream := by
  have hreorder : ∀ i f, (state.reorder.insert frame.seq.toNat frame).get? i = some f →
      f.seq.toNat = i ∧ sent.Has f := by
    intro i f hf
    by_cases hi : i = frame.seq.toNat
    · rw [hi, BTreeMap.get?_insert_self] at hf
      cases hf
      exact ⟨hi.symm, hhas⟩
    · rw [BTreeMap.get?_insert_of_ne hi] at hf
      exact hopen.reorder i f hf
  simp only [ClientStreamState.receive]
  split
  · rename_i hfirst
    have hitems := hopen.items
    rw [hfirst.2.1] at hitems
    exact ⟨⟨hopen.mode, hopen.streamTx, hopen.senderCount⟩, ⟨fun _ => Nat.one_pos, fun _ => rfl⟩,
      Nat.succ_le_succ (Nat.zero_le _),
      hreorder, hitems⟩
  · exact ⟨⟨hopen.mode, hopen.streamTx, hopen.senderCount⟩, hopen.saw, hopen.le, hreorder, hopen.items⟩

section
variable [TonicCode κ]

/-- What the processing of the next frame can lead to. -/
inductive Processed (c : StreamCall κ ω) (state : ClientStreamState κ) (next : StreamFrameWire κ) :
    StreamCall κ ω × Option (ClientStreamState κ) → Prop
  | goesOn (c' : StreamCall κ ω) (state' : ClientStreamState κ) : Open sent items state' c'.stream → c'.timer = none →
    state'.reorder = state.reorder → state'.nextExpectedS2c = state.nextExpectedS2c →
    c'.stream.queue.length ≤ c.stream.queue.length + slots next → next.error? = none → Processed c state next (c', some state')
  | ended (c' : StreamCall κ ω) : Flows sent items c' → c'.pending = none →
    (∀ status ∈ next.error?, .error status ∈ items ++ c'.stream.queue) → Processed c state next (c', none)

omit [TonicCode κ] in
/-- What is held of the stream while it is open. -/
theorem Open.held {c : StreamCall κ ω} (h : Open sent items state c.stream) : Held state.advance c.stream :=
  ⟨h.mode, h.streamTx, h.senderCount⟩

omit [TonicCode κ] in
/-- The frames that wait are those of the server. -/
theorem Open.reorder_advance {c : StreamCall κ ω} (h : Open sent items state c.stream) {i : Nat}
    {frame : StreamFrameWire κ} (hget : state.advance.reorder.get? i = some frame) :
    frame.seq.toNat = i ∧ sent.Has frame := by
  by_cases hi : i = state.nextExpectedS2c
  · rw [ClientStreamState.advance, hi, BTreeMap.get?_erase_self] at hget
    cases hget
  · rw [ClientStreamState.advance, BTreeMap.get?_erase_of_ne hi] at hget
    exact h.reorder i frame hget

section
variable {c : StreamCall κ ω} {next : StreamFrameWire κ}

theorem process_open (hopen : Open sent items state c.stream) (htimer : c.timer = none)
    (hnext : state.reorder.get? state.nextExpectedS2c = some next) (hkind : next.kind = .«open») :
    Processed sent items c state.advance next (c.process state.advance next) := by
  obtain ⟨hseq, -, hhas⟩ := hopen.reorder _ _ hnext
  rw [hkind] at hhas
  unfold process
  rw [hkind]
  have hzero : state.nextExpectedS2c = 0 := hseq.symm.trans hhas
  refine .goesOn c _ ⟨⟨hopen.mode, hopen.streamTx, hopen.senderCount⟩, ?_, ?_,
    fun i frame => hopen.reorder_advance, ?_⟩
    htimer rfl rfl (Nat.le_add_right _ _) ?_
  · simp [ClientStreamState.advance]
  · simp [ClientStreamState.advance, hzero]
  · simpa [ClientStreamState.advance, hzero] using hopen.items
  · rw [StreamFrameWire.error?, hkind]

theorem process_data (hopen : Open sent items state c.stream) (htimer : c.timer = none)
    (halive : c.stream.receiverAlive = true) (hnext : state.reorder.get? state.nextExpectedS2c = some next)
    (hroom : c.stream.queue.length + slots next ≤ c.stream.capacity) (hkind : next.kind = .data) :
    Processed sent items c state.advance next (c.process state.advance next) := by
  obtain ⟨hseq, -, hhas⟩ := hopen.reorder _ _ hnext
  rw [hkind] at hhas
  unfold process
  rw [hkind]
  obtain ⟨i, hi, hpayload⟩ := hhas
  have hindex : state.nextExpectedS2c = i + 1 := hseq.symm.trans hi
  have hsaw : ¬state.advance.sawS2cOpen = false := by
    rw [Bool.not_eq_false]
    exact hopen.saw.mpr (by omega)
  have hroom' : c.stream.queue.length < c.stream.capacity := by
    have : slots next = 1 := if_pos (.inl hkind)
    omega
  have hqueue := (Mpsc.trySend_of_room (Except.ok next.payload : Item κ) halive hroom').1
  have hpush := push_of_room next.payload hopen.held.streamTx halive hroom'
  have hgoesOn : Processed sent items c state.advance next
      ({ c with stream := (c.stream.trySend (.ok next.payload)).1 }, some state.advance) := by
    have hlt : i < sent.payloads.length := (List.getElem?_eq_some_iff.mp hpayload).1
    refine .goesOn _ _ ⟨⟨hopen.mode, hopen.streamTx, ?_⟩, ?_, ?_, fun i frame => hopen.reorder_advance,
      ?_⟩ htimer rfl rfl ?_ ?_
    · rw [Mpsc.senderCount_trySend, hopen.senderCount]
    · exact ⟨fun _ => Nat.succ_pos _, fun _ => Bool.not_eq_false _ ▸ hsaw⟩
    · simp only [ClientStreamState.advance]
      omega
    · have hitems := hopen.items
      rw [hindex, Nat.add_sub_cancel] at hitems
      simp only [ClientStreamState.advance, hindex, Nat.add_sub_cancel, hqueue]
      rw [← List.append_assoc, hitems, List.take_add_one, hpayload, List.map_append]
      rfl
    · rw [hqueue, List.length_append, slots, if_pos (.inl hkind)]
      exact le_rfl
    · rw [StreamFrameWire.error?, hkind]
  simp only
  rw [if_neg hsaw]
  cases hmode : state.advance.mode with
  | client => exact absurd hmode hopen.mode
  | server | bidi =>
    simp only
    rw [hpush]
    exact hgoesOn

theorem process_close (hopen : Open sent items state c.stream) (htimer : c.timer = none)
    (halive : c.stream.receiverAlive = true) (hnext : state.reorder.get? state.nextExpectedS2c = some next)
    (hroom : c.stream.queue.length + slots next ≤ c.stream.capacity) (hkind : next.kind = .close) :
    Processed sent items c state.advance next (c.process state.advance next) := by
  obtain ⟨hseq, -, hhas⟩ := hopen.reorder _ _ hnext
  rw [hkind] at hhas
  unfold process
  rw [hkind]
  obtain ⟨hlast, hending⟩ := hhas
  have hitems := hopen.items
  rw [← hseq, hlast, Nat.add_sub_cancel, List.take_length] at hitems
  simp only
  cases hok : next.statusOk with
  | true =>
    rw [hok, if_pos rfl] at hending
    have hclosed : Processed sent items c state.advance next (c.remove state.advance, none) := by
      rw [remove_held hopen.held]
      refine .ended _ ⟨.inr ⟨?_, hending⟩, ?_, ?_⟩ rfl ?_
      · simp only [Mpsc.queue_dropSender, unsent, htimer, hitems]
        exact List.append_nil _
      · simp only [Mpsc.senderCount_dropSender, hopen.senderCount, htimer]
        rfl
      · rw [htimer]
        nofun
      · rw [StreamFrameWire.error?, hkind]
        simp [hok]
    rw [if_pos rfl]
    cases hmode : state.advance.mode with
    | client => exact absurd hmode hopen.mode
    | server | bidi => exact hclosed
  | false =>
    have herror : next.error? = some ⟨next.statusCode, next.statusMessage⟩ := by
      rw [StreamFrameWire.error?, hkind]
      simp [hok]
    have hroom' : c.stream.queue.length < c.stream.capacity := by
      have : slots next = 1 := if_pos (.inr (by rw [herror]; rfl))
      omega
    rw [← List.take_length (l := sent.payloads)] at hitems
    obtain ⟨hflows, hmem⟩ := fail_flow sent items ⟨next.statusCode,
      next.statusMessage⟩ hopen.held htimer hitems halive hroom'
    rw [if_neg (by decide)]
    refine .ended _ hflows (by rw [fail_held hopen.held]) fun status hstatus => ?_
    rw [herror] at hstatus
    cases hstatus
    exact hmem

theorem process_cancel (hopen : Open sent items state c.stream) (htimer : c.timer = none)
    (halive : c.stream.receiverAlive = true)
    (hroom : c.stream.queue.length + slots next ≤ c.stream.capacity) (hkind : next.kind = .cancel) :
    Processed sent items c state.advance next (c.process state.advance next) := by
  unfold process
  rw [hkind]
  have herror : next.error? = some ⟨TonicCode.cancelled, "stream cancelled".toList⟩ := by rw [StreamFrameWire.error?, hkind]
  have hroom' : c.stream.queue.length < c.stream.capacity := by
    have : slots next = 1 := if_pos (.inr (by rw [herror]; rfl))
    omega
  obtain ⟨hflows, hmem⟩ := fail_flow sent items ⟨TonicCode.cancelled, "stream cancelled".toList⟩ hopen.held htimer
    hopen.items halive hroom'
  refine .ended _ hflows (by rw [fail_held hopen.held]) fun status hstatus => ?_
  rw [herror] at hstatus
  cases hstatus
  exact hmem

/-- The next frame is processed. -/
theorem process_flow (hopen : Open sent items state c.stream) (htimer : c.timer = none)
    (halive : c.stream.receiverAlive = true) (hnext : state.reorder.get? state.nextExpectedS2c = some next)
    (hroom : c.stream.queue.length + slots next ≤ c.stream.capacity) :
    Processed sent items c state.advance next (c.process state.advance next) := by
  cases hkind : next.kind with
  | «open» => exact process_open sent items hopen htimer hnext hkind
  | data => exact process_data sent items hopen htimer halive hnext hroom hkind
  | close => exact process_close sent items hopen htimer halive hnext hroom hkind
  | cancel => exact process_cancel sent items hopen htimer halive hroom hkind

end

theorem grows_process (c : StreamCall κ ω) (state : ClientStreamState κ) (next : StreamFrameWire κ) :
    Grows c.stream (c.process state next).1.stream := by
  unfold process
  split
  · exact grows_refl _
  · split
    · exact grows_fail c state _
    · split
      · split
        · exact grows_fail c state _
        · exact grows_refl _
      · exact grows_push c state _
      · exact grows_push c state _
  · split
    · split
      · exact grows_remove _ state
      · exact grows_remove c state
      · exact grows_remove c state
    · exact grows_fail c state _
  · exact grows_fail c state _

theorem grows_releases (n : Nat) (c : StreamCall κ ω) (state : ClientStreamState κ) :
    Grows c.stream (c.releases n state).1.stream := by
  induction n generalizing c state with
  | zero => exact grows_refl _
  | succ n ih =>
    rw [releases]
    cases state.reorder.get? state.nextExpectedS2c with
    | none => exact grows_refl _
    | some next =>
      have hgrows := grows_process c state.advance next
      simp only
      generalize c.process state.advance next = r at hgrows
      obtain ⟨c₁, state₁⟩ := r
      cases state₁ with
      | none => exact hgrows
      | some state₁ => exact hgrows.trans (ih c₁ state₁)

/-- With room for what it releases, the loop keeps the stream in order and shows every error. -/
theorem releases_flow (n : Nat) {c : StreamCall κ ω} (hopen : Open sent items state c.stream)
    (htimer : c.timer = none) (halive : c.stream.receiverAlive = true)
    (hroom : c.stream.queue.length + ((BTreeMap.consecutive n state.reorder state.nextExpectedS2c).map slots).sum ≤ c.stream.capacity) :
    Flows sent items (c.releases n state).1 ∧ ∀ frame ∈ (c.releases n state).2, ∀ status ∈ frame.error?,
      .error status ∈ items ++ (c.releases n state).1.stream.queue := by
  induction n generalizing c state with
  | zero => exact ⟨⟨hopen, htimer⟩, nofun⟩
  | succ n ih =>
    rw [releases]
    rw [BTreeMap.consecutive] at hroom
    cases hnext : state.reorder.get? state.nextExpectedS2c with
    | none => exact ⟨⟨hopen, htimer⟩, nofun⟩
    | some next =>
      rw [hnext, List.map_cons, List.sum_cons] at hroom
      have hprocess := process_flow sent items hopen htimer halive hnext (by omega)
      have hgrows := grows_process c state.advance next
      simp only
      generalize c.process state.advance next = r at hprocess hgrows
      cases hprocess with
      | goesOn c₁ state₁ hopen₁ htimer₁ hreorder hnext₁ hlength herror =>
        obtain ⟨hflows, hshown⟩ := ih hopen₁ htimer₁ (hgrows.receiverAlive.trans halive) (by
          rw [hgrows.capacity, hreorder, hnext₁]
          exact (Nat.add_le_add_right hlength _).trans (by rw [Nat.add_assoc]; exact hroom))
        refine ⟨hflows, List.forall_mem_cons.mpr ⟨?_, hshown⟩⟩
        rw [herror]
        nofun
      | ended c₁ hflows hpending hshown => exact ⟨hflows, List.forall_mem_singleton.mpr hshown⟩

/-! ## What an operation keeps -/

/-- What holds after any operations, where there was room for all of them. -/
structure Kept (c : StreamCall κ ω) (answers : List (Output κ)) : Prop where
  flows : c.stream.receiverAlive = true → Flows sent (read answers) c
  failed : ∀ frame ∈ processed answers, ∀ status ∈ frame.error?, c.stream.receiverAlive = true →
    .error status ∈ read answers ++ c.stream.queue
  ended : Ended answers → c.pending = none ∧ c.timer = none ∧ c.stream.queue = []
  complete : Ended answers → (∀ item ∈ read answers, Good item) → read answers = sent.payloads.map .ok ∧ sent.ending = .ok

variable {sent} {answers : List (Output κ)} {o : Output κ}

omit [TonicCode κ] in
theorem read_snoc : read (answers ++ [o]) = read answers ++ o.item?.toList := by
  cases h : o.item? <;> simp [read, h]

omit [TonicCode κ] in
theorem ended_snoc : Ended (answers ++ [o]) ↔ Ended answers ∨ o = .received (.ready none) := by
  rw [Ended, List.mem_append, List.mem_singleton, eq_comm (b := o)]
  rfl

theorem kept_new {mode : ClientStreamMode} (hmode : mode ≠ .client) :
    Kept sent (new mode : StreamCall κ ω) [] := by
  refine ⟨fun _ => ⟨⟨⟨hmode, ?_, rfl⟩, ?_, Nat.zero_le _, nofun, rfl⟩, rfl⟩, nofun, nofun, nofun⟩
  · exact decide_eq_true hmode
  · exact ⟨nofun, nofun⟩

/-- An operation that reads nothing. -/
theorem Kept.other (h : Kept sent c answers) (ho : o.item? = none) (hend : o ≠ .received (.ready none))
    (halive : c'.stream.receiverAlive = true → c.stream.receiverAlive = true)
    (hqueue : c'.stream.receiverAlive = true → c.stream.queue <+: c'.stream.queue)
    (hflows : c'.stream.receiverAlive = true → Flows sent (read answers) c')
    (hshown : ∀ frame ∈ processed [o], ∀ status ∈ frame.error?, c'.stream.receiverAlive = true →
      .error status ∈ read answers ++ c'.stream.queue)
    (hended : c.pending = none → c.timer = none → c.stream.queue = [] →
      c'.pending = none ∧ c'.timer = none ∧ c'.stream.queue = []) : Kept sent c' (answers ++ [o]) := by
  have hread : read (answers ++ [o]) = read answers := by
    rw [read_snoc, ho, Option.toList_none, List.append_nil]
  have hends : Ended (answers ++ [o]) → Ended answers := fun h => (ended_snoc.mp h).resolve_right hend
  constructor
  · rw [hread]
    exact hflows
  · rw [hread, processed, List.flatMap_append]
    refine List.forall_mem_append.mpr ⟨fun frame hframe status hstatus halive' => ?_, hshown⟩
    have hmem := h.failed frame hframe status hstatus (halive halive')
    obtain ⟨more, hmore⟩ := hqueue halive'
    rw [← hmore, ← List.append_assoc]
    exact List.mem_append_left _ hmem
  · intro hend
    obtain ⟨hp, ht, hq⟩ := h.ended (hends hend)
    exact hended hp ht hq
  · rw [hread]
    exact fun hend => h.complete (hends hend)

theorem grows_deliver (c : StreamCall κ ω) (payload : List UInt8) :
    Grows c.stream (c.deliver payload).1.stream := by
  unfold deliver
  split
  · cases c.pending with
    | none => exact grows_refl _
    | some state => exact grows_fail c state _
  · split
    · exact grows_refl _
    · split
      · exact grows_refl _
      · split
        · exact grows_fail c _ _
        · exact grows_releases _ c _

variable (sent) in
/-- A frame of the server arrives while there is a consumer. -/
theorem deliver_flow {payload : List UInt8} {frame : StreamFrameWire κ}
    (hframe : decodeStreamFrame payload = .ok frame) (hhas : sent.Has frame)
    (hroomy : c.Roomy (.deliver payload)) (halive : c.stream.receiverAlive = true)
    (hflows : Flows sent items c) :
    Flows sent items (c.deliver payload).1 ∧ ∀ f ∈ (c.deliver payload).2, ∀ status ∈ f.error?,
      .error status ∈ items ++ (c.deliver payload).1.stream.queue := by
  unfold StreamCall.deliver
  rw [hframe]
  simp only [hhas.1, ne_eq, not_true_eq_false, if_false]
  cases hpending : c.pending with
  | none => exact ⟨hflows, nofun⟩
  | some state =>
    rw [Roomy, hframe, hpending] at hroomy
    have hneeded := hroomy halive
    rw [Flows, hpending] at hflows
    obtain ⟨hopen, htimer⟩ := hflows
    rw [needed] at hneeded
    simp only
    by_cases hlen : maxReorderFrames ≤ state.reorder.len
    · rw [if_pos hlen] at hneeded ⊢
      exact ⟨(fail_flow sent items _ hopen.toHeld htimer hopen.items halive (by omega)).1, nofun⟩
    · rw [if_neg hlen] at hneeded ⊢
      exact releases_flow sent items _ (open_receive sent items hopen hhas) htimer halive hneeded

/-- A frame of the server arrives. -/
theorem Kept.deliver (h : Kept sent c answers) {payload : List UInt8} {frame : StreamFrameWire κ}
    (hframe : decodeStreamFrame payload = .ok frame) (hhas : sent.Has frame)
    (hroomy : c.Roomy (.deliver payload)) :
    Kept sent (c.deliver payload).1 (answers ++ [Output.processed (c.deliver payload).2]) := by
  have hgrows := grows_deliver c payload
  have halive : (c.deliver payload).1.stream.receiverAlive = true → c.stream.receiverAlive = true := fun h =>
    hgrows.receiverAlive.symm.trans h
  have hdeliver := fun h' => deliver_flow sent (read answers) hframe hhas hroomy (halive h')
    (h.flows (halive h'))
  refine h.other rfl nofun halive (fun _ => hgrows.queue) (fun h' => (hdeliver h').1) ?_ ?_
  · intro f hf status hstatus h'
    have hf : f ∈ (c.deliver payload).2 := by simpa [processed] using hf
    exact (hdeliver h').2 f hf status hstatus
  · intro hpending htimer hqueue
    have : c.deliver payload = (c, []) := by
      unfold StreamCall.deliver
      rw [hframe, hpending]
      simp
    rw [this]
    exact ⟨hpending, htimer, hqueue⟩

omit [TonicCode κ] in
/-- Items are read. -/
theorem Flows.recv {items items' : List (Item κ)} {stream : Mpsc.State (Item κ) ω}
    (h : Flows sent items c) (hcount : stream.senderCount = c.stream.senderCount)
    (hitems : items' ++ stream.queue = items ++ c.stream.queue) :
    Flows sent items' { c with stream } := by
  rw [Flows] at h ⊢
  cases hpending : c.pending with
  | none =>
    rw [hpending] at h
    obtain ⟨hclosed, hlength, htimer⟩ := h
    refine ⟨?_, hcount.trans hlength, htimer⟩
    rw [hitems]
    exact hclosed
  | some state =>
    rw [hpending] at h
    obtain ⟨hopen, htimer⟩ := h
    exact ⟨⟨⟨hopen.mode, hopen.streamTx, hcount.trans hopen.senderCount⟩, hopen.saw, hopen.le, hopen.reorder,
      hitems.trans hopen.items⟩, htimer⟩

/-- An item is read, or the end is seen. -/
theorem Kept.next (h : Kept sent c answers) (halive : c.stream.receiverAlive = true) (waker : ω) :
    Kept sent { c with stream := (c.stream.recv waker).1 }
      (answers ++ [Output.received (c.stream.recv waker).2.2]) := by
  have hflows := h.flows halive
  cases hqueue : c.stream.queue with
  | cons item queue =>
    rw [Mpsc.State.recv, hqueue]
    have hnot : ¬Ended (answers ++ [Output.received (.ready (some item))]) := fun hend => by
      have hempty := (h.ended ((ended_snoc.mp hend).resolve_right (by rintro ⟨⟩))).2.2
      rw [hqueue] at hempty
      cases hempty
    have hread : ∀ rest : List (Item κ),
        read (answers ++ [Output.received (.ready (some item))]) ++ rest = read answers ++ item :: rest :=
      fun rest => by rw [read_snoc, List.append_assoc]; rfl
    refine ⟨fun _ => ?_, fun frame hframe status hstatus _ => ?_, fun hend => absurd hend hnot,
      fun hend => absurd hend hnot⟩
    · refine hflows.recv rfl ?_
      rw [hqueue]
      exact hread queue
    · have hframe : frame ∈ processed answers := by simpa [processed] using hframe
      have hmem := h.failed frame hframe status hstatus halive
      rw [hqueue, ← hread] at hmem
      exact hmem
  | nil =>
    rw [Mpsc.State.recv, hqueue]
    simp only
    split
    · -- the end: nobody is left who could send something
      rename_i hcount
      have hpending : c.pending = none := by
        cases hp : c.pending with
        | none => rfl
        | some state =>
          rw [Flows, hp] at hflows
          exact absurd (hflows.1.senderCount.symm.trans hcount) (by decide)
      rw [Flows, hpending, hcount] at hflows
      obtain ⟨hclosed, hlength, -⟩ := hflows
      have htimer : c.timer = none := by
        cases ht : c.timer with
        | none => rfl
        | some f =>
          rw [ht] at hlength
          cases hlength
      have hunsent : c.unsent = [] := by rw [unsent, htimer]; rfl
      rw [hqueue, hunsent, List.append_nil, List.append_nil] at hclosed
      have hread : read (answers ++ [(.received (.ready none) : Output κ)]) = read answers := by
        rw [read_snoc]; exact List.append_nil _
      refine ⟨fun _ => ?_, fun frame hframe status hstatus _ => ?_, fun _ => ⟨hpending, htimer, hqueue⟩,
        fun _ hgood => ?_⟩
      · rw [hread]
        exact h.flows halive
      · have hframe : frame ∈ processed answers := by simpa [processed] using hframe
        rw [hread]
        exact h.failed frame hframe status hstatus halive
      · rw [hread] at hgood ⊢
        refine hclosed.resolve_left ?_
        rintro ⟨n, status, herror⟩
        obtain ⟨payload, hpayload⟩ := hgood (.error status)
          (herror ▸ List.mem_append_right _ List.mem_cons_self)
        cases hpayload
    · refine h.other rfl (by rintro ⟨⟩) id (fun _ => by rw [hqueue]) (fun _ => ?_)
        (by rintro _ ⟨⟩) fun hpending htimer _ =>
        ⟨hpending, htimer, rfl⟩
      exact hflows.recv rfl (by rw [hqueue])

theorem Kept.drop (h : Kept sent c answers) :
    Kept sent { c with stream := c.stream.dropReceiver.1 } (answers ++ [Output.done]) :=
  h.other rfl nofun nofun nofun nofun nofun fun hpending htimer hqueue => ⟨hpending, htimer, hqueue⟩

theorem Kept.expire (h : Kept sent c answers) : Kept sent c.expire (answers ++ [Output.done]) := by
  have hstream : c.expire.stream = c.stream := by
    unfold StreamCall.expire
    split <;> rfl
  refine h.other rfl nofun (fun h => hstream ▸ h) (fun _ => by rw [hstream]) (fun halive => ?_) nofun
    fun hpending htimer hqueue => ?_
  · rw [hstream] at halive
    have hflows := h.flows halive
    unfold StreamCall.expire
    cases hpending : c.pending with
    | none => exact hflows
    | some state =>
      rw [Flows, hpending] at hflows
      obtain ⟨hopen, htimer⟩ := hflows
      simp only [hopen.streamTx, if_true]
      refine ⟨.inl ⟨state.nextExpectedS2c - 1, ⟨TonicCode.deadlineExceeded, "stream timed out".toList⟩, ?_⟩, hopen.senderCount, ?_⟩
      · rw [← hopen.items]
        rfl
      · rintro f ⟨⟩
        exact ⟨_, rfl⟩
  · have : c.expire = c := by
      unfold StreamCall.expire
      rw [hpending]
    rw [this]
    exact ⟨hpending, htimer, hqueue⟩

theorem Kept.pollTimer (h : Kept sent c answers) {future : Mpsc.SendFuture (Item κ)} {waker : ω}
    (hfuture : c.timer = some future) (hpoll : c.pollTimer future waker = some c') :
    Kept sent c' (answers ++ [Output.done]) := by
  obtain ⟨⟨stream, future', woken, result⟩, hsend, hc'⟩ := Option.map_eq_some_iff.mp hpoll
  have halive : c'.stream.receiverAlive = c.stream.receiverAlive := by
    have := Mpsc.receiverAlive_pollFrom hsend
    cases result with
    | pending =>
      subst hc'
      exact this
    | ready r =>
      subst hc'
      exact Mpsc.receiverAlive_dropSender.trans this
  have hstep : c.stream.receiverAlive = true → c.stream.queue <+: c'.stream.queue ∧
      Flows sent (read answers) c' := by
    intro halive
    have hflows := h.flows halive
    have hpending : c.pending = none := by
      cases hp : c.pending with
      | none => rfl
      | some state =>
        rw [Flows, hp] at hflows
        exact absurd (hflows.2.symm.trans hfuture) nofun
    rw [Flows, hpending] at hflows
    obtain ⟨hclosed, hcount, hvalue⟩ := hflows
    obtain ⟨status, hstatus⟩ := hvalue future hfuture
    rw [hfuture] at hcount
    have hunsent : c.unsent = [.error status] := by rw [unsent, hfuture, Option.bind_some, hstatus]; rfl
    rw [hunsent] at hclosed
    obtain ⟨hsame, ⟨rfl, hvalue', hqueue⟩ | ⟨rfl, hqueue⟩⟩ := Mpsc.poll_spec hstatus halive hsend
    · -- there is still no room
      subst hc'
      refine ⟨by rw [hqueue], ?_⟩
      rw [Flows]
      simp only [hpending]
      refine ⟨?_, by rw [hsame.senderCount, hcount]; rfl, ?_⟩
      · rw [hqueue, unsent, Option.bind_some, hvalue']
        exact hclosed
      · rintro f ⟨⟩
        exact ⟨status, hvalue'⟩
    · subst hc'
      refine ⟨by rw [Mpsc.queue_dropSender, hqueue]; exact List.prefix_append _ _, ?_⟩
      rw [Flows]
      simp only [hpending]
      refine ⟨?_, by rw [Mpsc.senderCount_dropSender, hsame.senderCount, hcount]; rfl, nofun⟩
      rw [Mpsc.queue_dropSender, hqueue, ← List.append_assoc]
      show Closed sent (_ ++ [])
      rw [List.append_nil]
      exact hclosed
  refine h.other rfl nofun (fun h => halive ▸ h) (fun h => (hstep (halive ▸ h)).1)
    (fun h => (hstep (halive ▸ h)).2) nofun
    fun _ htimer _ => ?_
  rw [hfuture] at htimer
  cases htimer

variable (sent) in
/-- What is delivered is a frame of the server. -/
def Sends (op : Op ω) : Prop :=
  match op with
  | .deliver payload => ∃ frame, decodeStreamFrame payload = .ok frame ∧ sent.Has frame
  | _ => True

theorem Kept.step {op : Op ω} (h : Kept sent c answers) (hop : Sends sent op) (hroomy : c.Roomy op)
    (hstep : c.step op = some (c', o)) : Kept sent c' (answers ++ [o]) := by
  cases op with
  | deliver payload =>
    cases hstep
    obtain ⟨frame, hframe, hhas⟩ := hop
    exact h.deliver hframe hhas hroomy
  | next waker =>
    rw [StreamCall.step] at hstep
    split at hstep
    · rename_i halive
      cases hstep
      exact h.next halive waker
    · cases hstep
  | drop =>
    rw [StreamCall.step] at hstep
    split at hstep
    · cases hstep
      exact h.drop
    · cases hstep
  | expire =>
    cases hstep
    exact h.expire
  | pollTimer waker =>
    obtain ⟨future, hfuture, hstep⟩ := Option.bind_eq_some_iff.mp hstep
    obtain ⟨c₁, hpoll, h₁⟩ := Option.map_eq_some_iff.mp hstep
    cases h₁
    exact h.pollTimer hfuture hpoll

/-- Any run of a call, where the consumer leaves room for what its frames release. -/
theorem run_untruncated {mode : ClientStreamMode} (hmode : mode ≠ .client) {ops : List (Op ω)} (hops : ∀ op ∈ ops, Sends sent op)
    (hroomy : Machine.Along Roomy StreamCall.step (new mode : StreamCall κ ω) ops)
    (hrun : Machine.run StreamCall.step (new mode) ops = some (c, answers)) : Untruncated sent c answers := by
  have h := ((Machine.along_of_forall (C := Sends sent) hops).and hroomy).history
    (P := Kept sent) (fun _ _ _ _ _ h hC hs => h.step hC.1 hC.2 hs) (kept_new hmode) hrun
  exact ⟨h.complete, h.failed⟩

end

/-! ## A consumer that lags -/

/-- An answer of `n` payloads. -/
def answerOf (n : Nat) : Answered GrpcCode := ⟨payloadsOf n, .ok⟩

/-- All the frames are delivered before the consumer polls the stream, `r` times. -/
def lag (n r : Nat) : List (Op Nat) :=
  (List.range (n + 2)).map (fun i => .deliver (encodeStreamFrame (numbered .serverToClient n i))) ++
    List.replicate r (.next 0)

theorem has_numbered {n i : Nat} (hn : n + 1 < 2 ^ 64) (hi : i ≤ n + 1) :
    (answerOf n).Has (numbered .serverToClient n i) := by
  have hseq : (numbered .serverToClient n i).seq.toNat = i := numbered_seq hn hi
  rcases numbered_cases .serverToClient hi with ⟨hzero, heq⟩ | ⟨j, hj, payload, hpayload, heq⟩ | ⟨hlast, heq⟩
  · rw [heq] at hseq ⊢
    exact ⟨rfl, hseq.trans hzero⟩
  · rw [heq] at hseq ⊢
    exact ⟨rfl, j, hseq.trans hj, hpayload⟩
  · rw [heq] at hseq ⊢
    exact ⟨rfl, hseq.trans hlast, rfl⟩

theorem sends_lag {n r : Nat} (hn : n + 1 < 2 ^ 64) : ∀ op ∈ lag n r, Sends (answerOf n) op := by
  refine List.forall_mem_append.mpr ⟨fun op hop => ?_, fun op hop => ?_⟩
  · obtain ⟨i, hi, rfl⟩ := List.mem_map.mp hop
    exact ⟨_, decode_numbered _ n i, has_numbered hn (Nat.le_of_lt_succ (List.mem_range.mp hi))⟩
  · cases (List.mem_replicate.mp hop).2
    trivial

/-- The seventeenth payload is lost, and nothing tells of it. -/
theorem truncated_lag : (∀ op ∈ lag 17 17, Sends (answerOf 17) op) ∧ ∃ (c : StreamCall GrpcCode Nat)
    (answers : List (Output GrpcCode)),
    Machine.run step (new .server) (lag 17 17) = some (c, answers) ∧ ¬Untruncated (answerOf 17) c answers := by
  refine ⟨sends_lag (by decide), ?_⟩
  have hrun : (Machine.run step (new .server : StreamCall GrpcCode Nat) (lag 17 17)).map
      (fun r => (read r.2, r.2.getLast?)) =
        some ((List.range 16).map (fun i => .ok [.ofNat i]), some (.received (.ready none))) := by
    decide +kernel
  obtain ⟨⟨c, answers⟩, hrun, hvalues⟩ := Option.map_eq_some_iff.mp hrun
  obtain ⟨hread, hlast⟩ := Prod.mk.inj hvalues
  refine ⟨c, answers, hrun, fun h => ?_⟩
  obtain ⟨hall, -⟩ := h.complete (List.mem_of_getLast? hlast) (by rw [hread]; simp [Good])
  rw [hread] at hall
  exact absurd (congrArg List.length hall) (by decide)

theorem run_untruncated_lag : ∃ (c : StreamCall GrpcCode Nat) (answers : List (Output GrpcCode)),
    Machine.run step (new .server) (lag 3 4) = some (c, answers) ∧ (read answers).length = 3 ∧ Ended answers ∧
      Untruncated (answerOf 3) c answers := by
  have hrun : (Machine.run step (new .server : StreamCall GrpcCode Nat) (lag 3 4)).map
      (fun r => ((read r.2).length, r.2.getLast?)) =
        some (3, some (.received (.ready none))) := by
    decide +kernel
  obtain ⟨⟨c, answers⟩, hrun, hvalues⟩ := Option.map_eq_some_iff.mp hrun
  obtain ⟨hread, hlast⟩ := Prod.mk.inj hvalues
  exact ⟨c, answers, hrun, hread, List.mem_of_getLast? hlast,
    run_untruncated (by decide) (sends_lag (by decide)) (by decide +kernel) hrun⟩

end StreamCall

end DesCartes.Tonic
