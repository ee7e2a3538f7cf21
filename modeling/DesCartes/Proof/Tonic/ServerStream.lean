import DesCartes.Framework.Machine
import DesCartes.Impl.Tonic.ServerStream
import DesCartes.Proof.Sync.MpscAtomic
import DesCartes.Proof.Tonic.Wire

/-!
# What a request stream shows

The items that a handler has read and those that wait in its channel are the payloads in their order
(`Flowing`), and the end comes behind the last one. That is so as long as a stream is open when its
frames arrive, fewer than 64 of them wait, and the channel has room for what a frame releases
(`Ready`).

* `release_flow`: the loop;
* `Kept.step`: an operation;
* `run_reassembled`: any run.
-/

namespace DesCartes.Tonic

variable {κ : Type}

/-- What a client sends: the method, for which there is a handler of a stream, and the payloads. -/
structure Asked where
  method : List Char
  payloads : List (List UInt8)

/-- The frame is one of those of the client. -/
def Asked.Has (asked : Asked) (frame : StreamFrameWire κ) : Prop :=
  frame.direction = .clientToServer ∧
    match frame.kind with
    | .open => frame.seq.toNat = 0 ∧ frame.method = some asked.method
    | .data => ∃ i, frame.seq.toNat = i + 1 ∧ asked.payloads[i]? = some frame.payload
    | .close => frame.seq.toNat = asked.payloads.length + 1
    | .cancel => False

theorem Asked.Has.le {asked : Asked} {frame : StreamFrameWire κ} (h : asked.Has frame) :
    frame.seq.toNat ≤ asked.payloads.length + 1 := by
  obtain ⟨-, hkind⟩ := h
  cases hk : frame.kind <;> rw [hk] at hkind
  · omega
  · obtain ⟨i, hi, hpayload⟩ := hkind
    have := (List.getElem?_eq_some_iff.mp hpayload).1
    omega
  · omega
  · exact hkind.elim

/-- A frame with the number 0 opens the stream. -/
theorem Asked.Has.pos {asked : Asked} {frame : StreamFrameWire κ} (h : asked.Has frame) :
    frame.kind ≠ .open ↔ 0 < frame.seq.toNat := by
  obtain ⟨-, hkind⟩ := h
  cases hk : frame.kind <;> rw [hk] at hkind
  · simp [hkind.1]
  · obtain ⟨i, hi, -⟩ := hkind
    simp [hi]
  · simp [hkind]
  · exact hkind.elim

/-- The method is one whose handler gets a stream. -/
def Router.Streams (router : Router) (method : List Char) : Prop :=
  router.bidiStreaming method = true ∨ router.serverStreaming method = false ∧ router.clientStreaming method = true

namespace ServerStream

variable {ω : Type} {s s' : ServerStream κ ω} {asked : Asked}

/-! ## Conditions -/

/-- How many payloads are sent to a handler when the frame arrives. -/
def needed (state : InboundState κ) (frame : StreamFrameWire κ) : Nat :=
  let state := state.pushFrame frame
  (BTreeMap.consecutive state.reorder.len state.reorder state.nextExpectedC2s).countP fun frame => frame.kind = .data

/-- The buffer has room for the frame, and the channel for what it releases. -/
def Room (requests : Table (Mpsc.State (Item κ) ω)) (state : InboundState κ) (frame : StreamFrameWire κ) : Prop :=
  state.reorder.len < maxReorderFrames ∧ ∀ i ∈ state.inboundTx, ∀ channel ∈ requests.get i, channel.receiverAlive = true →
    channel.queue.length + needed state frame ≤ channel.capacity

instance (requests : Table (Mpsc.State (Item κ) ω)) (state : InboundState κ) (frame : StreamFrameWire κ) :
    Decidable (Room requests state frame) := by
  unfold Room
  infer_instance

/-- The stream is open when one of its other frames arrives, and there is room for it. -/
def Ready [TonicCode κ] (s : ServerStream κ ω) : Op ω → Prop
  | .deliver payload =>
    match (decodeStreamFrame payload : Except (Status κ) _) with
    | .ok frame =>
      match s.entry with
      | some (.client state) => Room s.requests state frame
      | some (.bidi state) => Room s.requests state frame
      | some (.server _) => True
      | none => frame.kind = .open ∨ 0 < s.requests.next
    | .error _ => True
  | _ => True

/-! ## Histories -/

/-- The item that the handler of the stream has read. -/
def Output.item? : Output κ → Option (Item κ)
  | .received _ (.ready (some item)) => some item
  | _ => none

/-- The number of the frame that was delivered. -/
def Output.seq? : Output κ → Option Nat
  | .delivered (.ok frame) _ => some frame.seq.toNat
  | _ => none

/-- The items that have been read. -/
def read (answers : List (Output κ)) : List (Item κ) := answers.filterMap Output.item?

/-- The frames that have been delivered. -/
def delivered (answers : List (Output κ)) : List Nat := answers.filterMap Output.seq?

/-- The end of the request stream has been seen. -/
def Ended (answers : List (Output κ)) : Prop := ∃ i, .received i (.ready none) ∈ answers

/-- A handler reads the payloads in their order, and all of them before it sees the end. When all
the frames are there, what it has not read waits, and the end behind it. -/
structure Reassembled (asked : Asked) (s : ServerStream κ ω) (answers : List (Output κ)) : Prop where
  inOrder : read answers <+: asked.payloads.map .ok
  complete : Ended answers → read answers = asked.payloads.map .ok
  yields : (∀ i ≤ asked.payloads.length + 1, i ∈ delivered answers) → ∃ channel, s.requests.get 0 = some channel ∧
    (channel.receiverAlive = true → read answers ++ channel.queue = asked.payloads.map .ok ∧ channel.senderCount = 0)

/-! ## The loop -/

variable (asked) (seqs : List Nat) (items : List (Item κ))

/-- A stream whose frames `seqs` have been delivered, and whose `items` have been read. -/
structure Flowing (state : InboundState κ) (channel : Mpsc.State (Item κ) ω) : Prop where
  inboundTx : state.inboundTx = if state.nextExpectedC2s ≤ asked.payloads.length + 1 then some 0 else none
  senderCount : channel.senderCount = if state.nextExpectedC2s ≤ asked.payloads.length + 1 then 1 else 0
  pos : 0 < state.nextExpectedC2s
  le : state.nextExpectedC2s ≤ asked.payloads.length + 2
  reorder : ∀ i frame, state.reorder.get? i = some frame →
    frame.seq.toNat = i ∧ asked.Has frame ∧ i ∈ seqs ∧ state.nextExpectedC2s ≤ i
  buffered : ∀ i ∈ seqs, state.nextExpectedC2s ≤ i → (state.reorder.get? i).isSome
  before : ∀ i, 0 < i → i < state.nextExpectedC2s → i ∈ seqs
  items : items ++ channel.queue = (asked.payloads.take (state.nextExpectedC2s - 1)).map .ok

variable {asked seqs items} {state : InboundState κ} {channel : Mpsc.State (Item κ) ω}

/-- The next frame is taken out of the buffer. -/
theorem Flowing.advance {next : StreamFrameWire κ} (h : Flowing asked seqs items state channel)
    (hnext : state.reorder.get? state.nextExpectedC2s = some next) :
    state.nextExpectedC2s ≤ asked.payloads.length + 1 ∧
      (∀ i frame, state.advance.reorder.get? i = some frame →
        frame.seq.toNat = i ∧ asked.Has frame ∧ i ∈ seqs ∧ state.advance.nextExpectedC2s ≤ i) ∧
      (∀ i ∈ seqs, state.advance.nextExpectedC2s ≤ i → (state.advance.reorder.get? i).isSome) ∧
      ∀ i, 0 < i → i < state.advance.nextExpectedC2s → i ∈ seqs := by
  obtain ⟨hseq, hhas, hmem, -⟩ := h.reorder _ _ hnext
  refine ⟨?_, fun i frame hi => ?_, fun i hi hle => ?_, fun i hpos hi => ?_⟩
  · rw [← hseq]
    exact hhas.le
  · by_cases hne : i = state.nextExpectedC2s
    · rw [InboundState.advance, hne, BTreeMap.get?_erase_self] at hi
      cases hi
    · rw [InboundState.advance, BTreeMap.get?_erase_of_ne hne] at hi
      obtain ⟨h₁, h₂, h₃, h₄⟩ := h.reorder i frame hi
      exact ⟨h₁, h₂, h₃, Nat.lt_of_le_of_ne h₄ (Ne.symm hne)⟩
  · have hle : state.nextExpectedC2s < i := hle
    rw [InboundState.advance, BTreeMap.get?_erase_of_ne hle.ne']
    exact h.buffered i hi hle.le
  · rcases Nat.lt_succ_iff_lt_or_eq.mp hi with hi | rfl
    · exact h.before i hpos hi
    · exact hmem

/-- A frame that has not been delivered yet is put into the buffer. -/
theorem Flowing.push {frame : StreamFrameWire κ} (h : Flowing asked seqs items state channel)
    (hhas : asked.Has frame) (hkind : frame.kind ≠ .open) (hfresh : frame.seq.toNat ∉ seqs) :
    Flowing asked (seqs ++ [frame.seq.toNat]) items (state.pushFrame frame) channel := by
  have hle : state.nextExpectedC2s ≤ frame.seq.toNat := by
    by_contra hlt
    exact hfresh (h.before _ (hhas.pos.mp hkind) (Nat.lt_of_not_le hlt))
  refine ⟨h.inboundTx, h.senderCount, h.pos, h.le, fun i next hi => ?_, fun i hi hle => ?_,
    fun i hpos hi => ?_, h.items⟩
  · by_cases hne : i = frame.seq.toNat
    · rw [InboundState.pushFrame, hne, BTreeMap.get?_insert_self] at hi
      cases hi
      exact ⟨hne.symm, hhas, hne ▸ List.mem_append_right _ List.mem_cons_self, hne ▸ hle⟩
    · rw [InboundState.pushFrame, BTreeMap.get?_insert_of_ne hne] at hi
      obtain ⟨h₁, h₂, h₃, h₄⟩ := h.reorder i next hi
      exact ⟨h₁, h₂, List.mem_append_left _ h₃, h₄⟩
  · by_cases hne : i = frame.seq.toNat
    · rw [InboundState.pushFrame, hne, BTreeMap.get?_insert_self]
      rfl
    · rw [InboundState.pushFrame, BTreeMap.get?_insert_of_ne hne]
      refine h.buffered i ((List.mem_append.mp hi).resolve_right ?_) hle
      simpa using hne
  · exact List.mem_append_left _ (h.before i hpos hi)

/-- The channels are the same ones, and as much alive. -/
structure Keeps (requests requests' : Table (Mpsc.State (Item κ) ω)) : Prop where
  next : requests'.next = requests.next
  get : ∀ i channel, requests.get i = some channel →
    ∃ channel', requests'.get i = some channel' ∧ channel'.receiverAlive = channel.receiverAlive

theorem keeps_refl (requests : Table (Mpsc.State (Item κ) ω)) : Keeps requests requests :=
  ⟨rfl, fun _ channel h => ⟨channel, h, rfl⟩⟩

theorem Keeps.trans {a b c : Table (Mpsc.State (Item κ) ω)} (h : Keeps a b) (h' : Keeps b c) : Keeps a c := by
  refine ⟨h'.next.trans h.next, fun i channel hi => ?_⟩
  obtain ⟨channel₁, h₁, halive₁⟩ := h.get i channel hi
  obtain ⟨channel₂, h₂, halive₂⟩ := h'.get i channel₁ h₁
  exact ⟨channel₂, h₂, halive₂.trans halive₁⟩

theorem keeps_set {requests : Table (Mpsc.State (Item κ) ω)} {i : Nat}
    {channel channel' : Mpsc.State (Item κ) ω} (hget : requests.get i = some channel)
    (halive : channel'.receiverAlive = channel.receiverAlive) :
    Keeps requests (requests.set i channel') := by
  refine ⟨rfl, fun j other hj => ?_⟩
  by_cases hne : j = i
  · subst hne
    cases hget.symm.trans hj
    exact ⟨channel', Table.get_set_self hget, halive⟩
  · exact ⟨other, (Table.get_set_eq_some hget).mpr (by simpa [hne] using hj), rfl⟩

theorem keeps_dropTx (requests : Table (Mpsc.State (Item κ) ω)) (tx : Option Nat) :
    Keeps requests (dropTx requests tx) := by
  cases tx with
  | none => exact keeps_refl requests
  | some i =>
    rw [dropTx]
    cases hget : requests.get i with
    | none => exact keeps_refl requests
    | some channel => exact keeps_set hget Mpsc.receiverAlive_dropSender

theorem keeps_trySend (requests : Table (Mpsc.State (Item κ) ω)) (i : Nat) (payload : List UInt8) :
    Keeps requests (trySend requests i payload).1 := by
  rw [trySend]
  cases hget : requests.get i with
  | none => exact keeps_refl requests
  | some channel => exact keeps_set hget (Mpsc.receiverAlive_trySend _)

theorem keeps_release (n : Nat) (requests : Table (Mpsc.State (Item κ) ω)) (state : InboundState κ) :
    Keeps requests (release n requests state).1 := by
  induction n generalizing requests state with
  | zero => exact keeps_refl requests
  | succ n ih =>
    rw [release]
    cases state.reorder.get? state.nextExpectedC2s with
    | none => exact keeps_refl requests
    | some next =>
      simp only
      cases next.kind with
      | «open» => exact ih requests _
      | data =>
        simp only
        cases state.advance.inboundTx with
        | none => exact ih requests _
        | some i =>
          have hsend := keeps_trySend requests i next.payload
          simp only
          generalize trySend requests i next.payload = r at hsend
          obtain ⟨requests₁, sent⟩ := r
          cases sent with
          | true => exact hsend.trans (ih requests₁ _)
          | false => exact Keeps.trans hsend (keeps_dropTx requests₁ (some i))
      | close => exact (keeps_dropTx requests _).trans (ih _ _)
      | cancel => exact keeps_dropTx requests _

/-- The next frame is one of data, and the request stream has room for it. -/
theorem Flowing.sent {next : StreamFrameWire κ} (h : Flowing asked seqs items state channel)
    (hnext : state.reorder.get? state.nextExpectedC2s = some next) (hkind : next.kind = .data)
    (halive : channel.receiverAlive = true) (hroom : channel.queue.length < channel.capacity) :
    Flowing asked seqs items state.advance (channel.trySend (.ok next.payload)).1 := by
  obtain ⟨hle, hreorder, hbuffered, hbefore⟩ := h.advance hnext
  obtain ⟨hseq, ⟨-, hhas⟩, -, -⟩ := h.reorder _ _ hnext
  rw [hkind] at hhas
  obtain ⟨i, hi, hpayload⟩ := hhas
  have hindex : state.nextExpectedC2s = i + 1 := hseq.symm.trans hi
  have hlt := (List.getElem?_eq_some_iff.mp hpayload).1
  have hafter : state.advance.nextExpectedC2s ≤ asked.payloads.length + 1 := by
    show state.nextExpectedC2s + 1 ≤ _
    omega
  have htx : state.advance.inboundTx = some 0 := h.inboundTx.trans (if_pos hle)
  have hcount := h.senderCount
  rw [if_pos hle] at hcount
  refine ⟨by rw [htx, if_pos hafter], ?_, Nat.succ_pos _, hafter.trans (Nat.le_succ _), hreorder,
    hbuffered, hbefore, ?_⟩
  · rw [Mpsc.senderCount_trySend, hcount, if_pos hafter]
  · have hitems := h.items
    rw [hindex, Nat.add_sub_cancel] at hitems
    rw [(Mpsc.trySend_of_room (Except.ok next.payload : Item κ) halive hroom).1, ← List.append_assoc,
      hitems, InboundState.advance,
      hindex, Nat.add_sub_cancel, List.take_add_one, hpayload, List.map_append]
    rfl

/-- The next frame ends the request stream. -/
theorem Flowing.ended {next : StreamFrameWire κ} (h : Flowing asked seqs items state channel)
    (hnext : state.reorder.get? state.nextExpectedC2s = some next) (hkind : next.kind = .close) :
    Flowing asked seqs items { state.advance with inboundTx := none } channel.dropSender.1 := by
  obtain ⟨hle, hreorder, hbuffered, hbefore⟩ := h.advance hnext
  obtain ⟨hseq, ⟨-, hhas⟩, -, -⟩ := h.reorder _ _ hnext
  rw [hkind] at hhas
  have hlast : state.nextExpectedC2s = asked.payloads.length + 1 := hseq.symm.trans hhas
  have hafter : ¬state.advance.nextExpectedC2s ≤ asked.payloads.length + 1 := by
    show ¬state.nextExpectedC2s + 1 ≤ _
    omega
  have hcount := h.senderCount
  rw [if_pos hle] at hcount
  refine ⟨(if_neg hafter).symm, ?_, Nat.succ_pos _, ?_, hreorder, hbuffered, hbefore, ?_⟩
  · rw [Mpsc.senderCount_dropSender, hcount, if_neg hafter]
  · show state.nextExpectedC2s + 1 ≤ _
    omega
  · have hitems := h.items
    rw [hlast, Nat.add_sub_cancel, List.take_length] at hitems
    rw [Mpsc.queue_dropSender, hitems, InboundState.advance, hlast, Nat.add_sub_cancel,
      List.take_of_length_le (Nat.le_succ _)]

/-- What the loop leaves: a stream that waits for its next frame, or one whose frames have all come. -/
structure Released (asked : Asked) (seqs : List Nat) (items : List (Item κ))
    (r : Table (Mpsc.State (Item κ) ω) × InboundState κ × Bool) : Prop where
  kept : r.2.2 = false
  waits : r.2.1.reorder.get? r.2.1.nextExpectedC2s = none
  flowing : ∃ channel', r.1.get 0 = some channel' ∧ channel'.receiverAlive = true ∧ Flowing asked seqs items r.2.1 channel'

/-- With room for what it releases, the loop keeps the stream in order. -/
theorem release_flow (n : Nat) {requests : Table (Mpsc.State (Item κ) ω)}
    (h : Flowing asked seqs items state channel) (hget : requests.get 0 = some channel)
    (halive : channel.receiverAlive = true)
    (hroom : channel.queue.length + (BTreeMap.consecutive n state.reorder state.nextExpectedC2s).countP
      (fun frame => frame.kind = .data) ≤ channel.capacity)
    (hlen : state.reorder.len ≤ n) : Released asked seqs items (release n requests state) := by
  induction n generalizing requests state channel with
  | zero =>
    have hnone := BTreeMap.len_eq_zero.mp (Nat.le_zero.mp hlen)
    exact ⟨rfl, hnone _, channel, hget, halive, h⟩
  | succ n ih =>
    rw [release]
    rw [BTreeMap.consecutive] at hroom
    cases hnext : state.reorder.get? state.nextExpectedC2s with
    | none => exact ⟨rfl, hnext, channel, hget, halive, h⟩
    | some next =>
      rw [hnext, List.countP_cons] at hroom
      obtain ⟨hseq, ⟨-, hhas⟩, -, -⟩ := h.reorder _ _ hnext
      have hlen' : state.advance.reorder.len ≤ n :=
        Nat.lt_succ_iff.mp ((BTreeMap.len_erase_lt hnext).trans_le hlen)
      have htx : state.advance.inboundTx = some 0 := h.inboundTx.trans (if_pos (h.advance hnext).1)
      simp only
      cases hkind : next.kind with
      | «open» =>
        rw [hkind] at hhas
        have hpos := h.pos
        omega
      | data =>
        rw [if_pos (by rw [hkind]; decide)] at hroom
        have hlt : channel.queue.length < channel.capacity := by omega
        obtain ⟨hqueue, hok⟩ := Mpsc.trySend_of_room (Except.ok next.payload : Item κ) halive hlt
        have hsend : trySend requests 0 next.payload =
            (requests.set 0 (channel.trySend (.ok next.payload)).1, true) := by
          rw [trySend, hget]
          simp only [hok, decide_true]
        simp only [htx, hsend]
        refine ih (h.sent hnext hkind halive hlt) (Table.get_set_self hget)
          ((Mpsc.receiverAlive_trySend _).trans halive) ?_ hlen'
        rw [hqueue, Mpsc.capacity_trySend, List.length_append]
        simp only [InboundState.advance, List.length_singleton]
        omega
      | close =>
        have hdrop : dropTx requests (some 0) = requests.set 0 channel.dropSender.1 := by
          rw [dropTx, hget]
          rfl
        simp only [htx, hdrop]
        refine ih (h.ended hnext hkind) (Table.get_set_self hget)
          (Mpsc.receiverAlive_dropSender.trans halive) ?_ hlen'
        rw [Mpsc.queue_dropSender, Mpsc.capacity_dropSender]
        exact (Nat.add_le_add_left (Nat.le_add_right _ _) _).trans hroom
      | cancel =>
        rw [hkind] at hhas
        exact hhas.elim

/-! ## What an operation keeps -/

/-- The entry of a stream whose handler gets a request stream. -/
def Inbound (entry : Option (ServerStreamState κ)) (state : InboundState κ) : Prop :=
  entry = some (.client state) ∨ entry = some (.bidi state)

/-- What an open stream is, as long as its handler has the request stream. -/
inductive Live (asked : Asked) (s : ServerStream κ ω) (seqs : List Nat) (items : List (Item κ)) (channel : Mpsc.State (Item κ) ω) : Prop
  | waits (state : InboundState κ) : Inbound s.entry state → state.nextExpectedC2s ≤ asked.payloads.length + 1 →
    state.reorder.get? state.nextExpectedC2s = none → Flowing asked seqs items state channel → Live asked s seqs items channel
  | ended : s.entry = none → channel.senderCount = 0 → items ++ channel.queue = asked.payloads.map .ok → Live asked s seqs items channel

/-- Items are read. -/
theorem Live.recv {s' : ServerStream κ ω} {seqs : List Nat} {items items' : List (Item κ)}
    {channel channel' : Mpsc.State (Item κ) ω} (h : Live asked s seqs items channel)
    (hentry : s'.entry = s.entry) (hcount : channel'.senderCount = channel.senderCount)
    (hitems : items' ++ channel'.queue = items ++ channel.queue) :
    Live asked s' seqs items' channel' := by
  cases h with
  | waits state hinbound hle hwaits hflow =>
    refine .waits state (hentry ▸ hinbound) hle hwaits
      ⟨hflow.inboundTx, hcount.trans hflow.senderCount, hflow.pos, hflow.le,
      hflow.reorder, hflow.buffered, hflow.before, ?_⟩
    rw [hitems, hflow.items]
  | ended hnone hzero hall => exact .ended (hentry.trans hnone) (hcount.trans hzero) (hitems.trans hall)

/-- What is read is in order. -/
theorem Live.inOrder {seqs : List Nat} {items : List (Item κ)} {channel : Mpsc.State (Item κ) ω}
    (h : Live asked s seqs items channel) :
    items ++ channel.queue <+: asked.payloads.map .ok := by
  cases h with
  | waits state hinbound hle hwaits hflow =>
    rw [hflow.items]
    exact (List.take_prefix _ _).map _
  | ended hnone hzero hall => rw [hall]

/-- What holds of the stream: it has not been opened, or it has one request stream. -/
inductive Phase (asked : Asked) (s : ServerStream κ ω) (answers : List (Output κ)) : Prop
  | before : s = new → delivered answers = [] → read answers = [] → Phase asked s answers
  | opened (channel : Mpsc.State (Item κ) ω) : 0 ∈ delivered answers → s.requests.next = 1 → s.requests.get 0 = some channel →
    (channel.receiverAlive = true → Live asked s (delivered answers) (read answers) channel) → Phase asked s answers

/-- What holds after any operations, where all were ready. -/
structure Kept (asked : Asked) (s : ServerStream κ ω) (answers : List (Output κ)) : Prop where
  phase : Phase asked s answers
  inOrder : read answers <+: asked.payloads.map .ok
  complete : Ended answers → read answers = asked.payloads.map .ok

variable {answers : List (Output κ)} {o : Output κ}

theorem read_snoc : read (answers ++ [o]) = read answers ++ o.item?.toList := by
  cases h : o.item? <;> simp [read, h]

theorem delivered_snoc : delivered (answers ++ [o]) = delivered answers ++ o.seq?.toList := by
  cases h : o.seq? <;> simp [delivered, h]

theorem kept_new : Kept asked (new : ServerStream κ ω) [] := ⟨.before rfl rfl rfl, List.nil_prefix, nofun⟩

/-- An operation that reads nothing. -/
theorem Kept.other (h : Kept asked s answers) (ho : ∀ i item, o ≠ .received i (.ready item))
    (hphase : Phase asked s' (answers ++ [o])) :
    Kept asked s' (answers ++ [o]) := by
  have hread : read (answers ++ [o]) = read answers := by
    rw [read_snoc]
    cases o with
    | received i item =>
      cases item with
      | ready item => exact absurd rfl (ho i item)
      | pending => exact List.append_nil _
    | _ => exact List.append_nil _
  refine ⟨hphase, hread ▸ h.inOrder, fun ⟨i, hend⟩ => ?_⟩
  rw [hread]
  refine h.complete ⟨i, (List.mem_append.mp hend).resolve_right fun hlast => ?_⟩
  exact ho i none (List.mem_singleton.mp hlast).symm

/-- A frame for the request stream arrives. -/
theorem Live.deliver {wrap : InboundState κ → ServerStreamState κ} {frame : StreamFrameWire κ}
    (h : Flowing asked seqs items state channel)
    (hwrap : ∀ state, Inbound (some (wrap state)) state) (hget : s.requests.get 0 = some channel)
    (halive : channel.receiverAlive = true) (hhas : asked.Has frame) (hkind : frame.kind ≠ .open)
    (hfresh : frame.seq.toNat ∉ seqs) (hle : state.nextExpectedC2s ≤ asked.payloads.length + 1)
    (hroom : Room s.requests state frame) :
    ∃ channel', (s.deliverInbound wrap state frame).requests.get 0 = some channel' ∧
      channel'.receiverAlive = true ∧
      Live asked (s.deliverInbound wrap state frame) (seqs ++ [frame.seq.toNat]) items channel' := by
  obtain ⟨hlen, hroom⟩ := hroom
  have htx : state.inboundTx = some 0 := h.inboundTx.trans (if_pos hle)
  have hreleased := release_flow _ (h.push hhas hkind hfresh) hget halive
    (hroom 0 htx channel hget halive) le_rfl
  rw [deliverInbound, if_neg (Nat.not_le.mpr hlen)]
  simp only
  generalize release (state.pushFrame frame).reorder.len s.requests (state.pushFrame frame) = r at hreleased
  obtain ⟨requests, state', removeStream⟩ := r
  obtain ⟨hremove, hwaits, channel', hget', halive', hflow⟩ := hreleased
  simp only at hremove hwaits hget' hflow
  subst hremove
  refine ⟨channel', ?_, halive', ?_⟩
  · split <;> exact hget'
  by_cases hlast : state'.nextExpectedC2s ≤ asked.payloads.length + 1
  · have htx' : state'.inboundTx = some 0 := hflow.inboundTx.trans (if_pos hlast)
    rw [if_neg (by rw [htx']; exact Bool.false_ne_true)]
    exact .waits state' (hwrap state') hlast hwaits hflow
  · have htx' : state'.inboundTx = none := hflow.inboundTx.trans (if_neg hlast)
    have hempty : state'.reorder.len = 0 := by
      refine BTreeMap.len_eq_zero.mpr fun i => Option.eq_none_iff_forall_ne_some.mpr fun next hi => ?_
      obtain ⟨hseq, hhas', -, hge⟩ := hflow.reorder i next hi
      have := hhas'.le
      omega
    rw [if_pos (by rw [htx', hempty]; rfl)]
    refine .ended rfl (hflow.senderCount.trans (if_neg hlast)) ?_
    rw [hflow.items, List.take_of_length_le (by omega)]

section
variable [TonicCode κ]

theorem keeps_deliver (router : Router) {payload : List UInt8} {frame : StreamFrameWire κ}
    (hframe : decodeStreamFrame payload = .ok frame) (hkind : frame.kind ≠ .open) :
    Keeps s.requests (s.deliver router payload).1.requests := by
  have hinbound : ∀ (wrap : InboundState κ → ServerStreamState κ) state,
      Keeps s.requests (s.deliverInbound wrap state frame).requests := by
    intro wrap state
    rw [deliverInbound]
    split
    · exact keeps_dropTx s.requests _
    · have hkeeps := keeps_release (state.pushFrame frame).reorder.len s.requests (state.pushFrame frame)
      simp only
      split <;> exact hkeeps
  rw [deliver, hframe]
  simp only [hkind, if_false]
  split
  · exact keeps_refl _
  · cases s.entry with
    | none => exact keeps_refl _
    | some entry =>
      cases entry with
      | client state => exact hinbound .client state
      | bidi state => exact hinbound .bidi state
      | server state =>
        simp only [deliverServer]
        repeat' split
        all_goals exact keeps_refl _

/-- The frame that opens the stream. -/
theorem deliver_open {router : Router} (hrouter : router.Streams asked.method)
    {payload : List UInt8} {frame : StreamFrameWire κ}
    (hframe : decodeStreamFrame payload = .ok frame) (hhas : asked.Has frame)
    (hkind : frame.kind = .open) :
    ∃ wrap : InboundState κ → ServerStreamState κ, (∀ state, Inbound (some (wrap state)) state) ∧
      (deliver (new : ServerStream κ ω) router payload).1 =
        ⟨some (wrap ⟨1, .empty, some 0⟩), Table.insert .empty (.new 16)⟩ := by
  obtain ⟨hdirection, hopen⟩ := hhas
  rw [hkind] at hopen
  rw [deliver, hframe]
  simp only [hdirection, hkind, ne_eq, not_true_eq_false, if_false, if_true]
  cases hbidi : router.bidiStreaming asked.method with
  | true => exact ⟨.bidi, fun _ => .inr rfl, by simp [deliverOpen, hopen.2, new, hbidi]; rfl⟩
  | false =>
    obtain ⟨hserver, hclient⟩ := hrouter.resolve_left (by rw [hbidi]; exact Bool.false_ne_true)
    exact ⟨.client, fun _ => .inl rfl, by simp [deliverOpen, hopen.2, new, hbidi, hserver, hclient]; rfl⟩

/-- A frame of the client arrives, for the first time. -/
theorem Kept.deliver {router : Router} (hrouter : router.Streams asked.method)
    (h : Kept asked s answers) {payload : List UInt8} {frame : StreamFrameWire κ}
    {effects : List (Effect κ)} (hframe : decodeStreamFrame payload = .ok frame)
    (hhas : asked.Has frame) (hfresh : frame.seq.toNat ∉ delivered answers)
    (hready : s.Ready (.deliver payload)) :
    Kept asked (s.deliver router payload).1 (answers ++ [Output.delivered (.ok frame) effects]) := by
  have hread : read (answers ++ [Output.delivered (.ok frame) effects]) = read answers := by
    rw [read_snoc]
    exact List.append_nil _
  have hdelivered :
      delivered (answers ++ [Output.delivered (.ok frame) effects]) =
        delivered answers ++ [frame.seq.toNat] := by
    rw [delivered_snoc]
    rfl
  refine h.other nofun ?_
  cases h.phase with
  | before hs hnone hitems =>
    subst hs
    have hkind : frame.kind = .open := by
      rw [Ready, hframe] at hready
      exact hready.resolve_right (Nat.lt_irrefl 0)
    have hzero : frame.seq.toNat = 0 := Nat.eq_zero_of_not_pos fun hpos => hhas.pos.mpr hpos hkind
    obtain ⟨wrap, hwrap, hopened⟩ := deliver_open (ω := ω) hrouter hframe hhas hkind
    rw [hopened]
    refine .opened (.new 16) ?_ rfl rfl fun _ => .waits _ (hwrap _) (Nat.le_add_left _ _) rfl ?_
    · rw [hdelivered, hzero]
      exact List.mem_append_right _ List.mem_cons_self
    · rw [hdelivered, hread, hnone, hitems, hzero]
      refine ⟨?_, ?_, Nat.one_pos, Nat.le_add_left _ _, nofun, ?_, ?_, rfl⟩
      · exact (if_pos (Nat.le_add_left _ _)).symm
      · exact (if_pos (Nat.le_add_left _ _)).symm
      · intro i hi hle
        have hi : i = 0 := List.mem_singleton.mp hi
        exact absurd hle (by rw [hi]; exact Nat.not_succ_le_zero 0)
      · intro i hpos hlt
        exact absurd (Nat.lt_one_iff.mp hlt) hpos.ne'
  | opened channel hzero hnext hget hlive =>
    have hkind : frame.kind ≠ .open := by
      refine hhas.pos.mpr (Nat.pos_of_ne_zero fun hseq => hfresh ?_)
      rw [hseq]
      exact hzero
    have hkeeps := keeps_deliver (s := s) router hframe hkind
    obtain ⟨channel', hget', halive'⟩ := hkeeps.get 0 channel hget
    refine .opened channel' ?_ (hkeeps.next.trans hnext) hget' fun halive => ?_
    · rw [hdelivered]
      exact List.mem_append_left _ hzero
    rw [hread, hdelivered]
    rw [Ready, hframe] at hready
    rw [halive'] at halive
    have hdirection := hhas.1
    cases hlive halive with
    | waits state hentry hle hwaits hflow =>
      have hstep : ∀ wrap : InboundState κ → ServerStreamState κ,
          (∀ state, Inbound (some (wrap state)) state) →
            Room s.requests state frame → s.deliver router payload = (s.deliverInbound wrap state frame, []) →
            Live asked (s.deliver router payload).1 (delivered answers ++ [frame.seq.toNat])
              (read answers) channel' := by
        intro wrap hwrap hroom hdeliver
        rw [hdeliver] at hget' ⊢
        obtain ⟨channel₁, hget₁, -, hlive₁⟩ :=
          Live.deliver hflow hwrap hget halive hhas hkind hfresh hle hroom
        cases hget'.symm.trans hget₁
        exact hlive₁
      rcases hentry with hentry | hentry
      · rw [hentry] at hready
        refine hstep .client (fun _ => .inl rfl) hready ?_
        rw [ServerStream.deliver, hframe]
        simp only [hdirection, ne_eq, not_true_eq_false, if_false, hkind, hentry]
      · rw [hentry] at hready
        refine hstep .bidi (fun _ => .inr rfl) hready ?_
        rw [ServerStream.deliver, hframe]
        simp only [hdirection, ne_eq, not_true_eq_false, if_false, hkind, hentry]
    | ended hentry hcount hitems =>
      have hdeliver : s.deliver router payload = (s, []) := by
        rw [ServerStream.deliver, hframe]
        simp only [hdirection, ne_eq, not_true_eq_false, if_false, hkind, hentry]
      rw [hdeliver] at hget' ⊢
      cases hget.symm.trans hget'
      exact .ended hentry hcount hitems

omit [TonicCode κ] in
/-- An item is read, or the end is seen. -/
theorem Kept.next (h : Kept asked s answers) {i : Nat} (hi : s.requests.get i = some channel)
    (halive : channel.receiverAlive = true) (waker : ω) :
    Kept asked { s with requests := s.requests.set i (channel.recv waker).1 }
      (answers ++ [Output.received i (channel.recv waker).2.2]) := by
  cases h.phase with
  | before hs hnone hitems =>
    subst hs
    cases hi
  | opened channel₀ hzero hnext hget hlive =>
    have hindex : i = 0 := by
      have := Table.lt_next hi
      omega
    subst hindex
    cases hget.symm.trans hi
    have hdelivered : ∀ item, delivered (answers ++ [Output.received 0 item]) = delivered answers :=
      fun item => by
      rw [delivered_snoc]
      exact List.append_nil _
    have hopened : ∀ (channel' : Mpsc.State (Item κ) ω) item,
        Live asked { s with requests := s.requests.set 0 channel' } (delivered answers)
            (read (answers ++ [Output.received 0 item])) channel' →
          Phase asked { s with requests := s.requests.set 0 channel' }
            (answers ++ [Output.received 0 item]) :=
      fun channel' item hlive =>
      .opened channel' (by rw [hdelivered]; exact hzero) hnext
        (Table.get_set_self hget) fun _ => by rw [hdelivered]; exact hlive
    have hlive := hlive halive
    rw [Mpsc.State.recv]
    cases hqueue : channel.queue with
    | cons item queue =>
      have hread : ∀ rest : List (Item κ),
          read (answers ++ [Output.received 0 (.ready (some item))]) ++ rest = read answers ++ item :: rest :=
        fun rest => by rw [read_snoc, List.append_assoc]; rfl
      have hprefix : read answers ++ item :: queue <+: asked.payloads.map .ok := hqueue ▸ hlive.inOrder
      refine ⟨hopened _ _ (hlive.recv rfl rfl ?_), ?_, fun hended => ?_⟩
      · rw [hqueue]
        exact hread queue
      · refine List.IsPrefix.trans ?_ hprefix
        rw [← hread]
        exact List.prefix_append _ _
      · -- behind the end there is nothing to read
        obtain ⟨i, hend⟩ := hended
        have hend : Ended answers := ⟨i, (List.mem_append.mp hend).resolve_right (by simp)⟩
        have hlength := hprefix.length_le
        rw [h.complete hend, List.length_append, List.length_cons] at hlength
        omega
    | nil =>
      have hread : ∀ item, item = .ready none ∨ item = .pending →
          read (answers ++ [Output.received 0 item]) = read answers := by
        rintro item (rfl | rfl)
        · rw [read_snoc]
          exact List.append_nil _
        · rw [read_snoc]
          exact List.append_nil _
      simp only
      split
      · rename_i hcount
        refine ⟨hopened _ _ ?_, ?_, fun _ => ?_⟩
        · rw [hread _ (.inl rfl)]
          exact hlive.recv rfl rfl rfl
        · rw [hread _ (.inl rfl)]
          exact h.inOrder
        · rw [hread _ (.inl rfl)]
          cases hlive with
          | waits state hentry hle hwaits hflow =>
            have := hflow.senderCount
            rw [hcount, if_pos hle] at this
            cases this
          | ended hentry hcount hitems =>
            rw [← hitems, hqueue, List.append_nil]
      · refine h.other (by rintro _ _ ⟨⟩) (hopened _ _ ?_)
        rw [hread _ (.inr rfl)]
        exact hlive.recv rfl rfl (by rw [hqueue])

omit [TonicCode κ] in
theorem Kept.drop (h : Kept asked s answers) {i : Nat} (hi : s.requests.get i = some channel) :
    Kept asked { s with requests := s.requests.set i channel.dropReceiver.1 } (answers ++ [Output.done]) := by
  refine h.other nofun ?_
  cases h.phase with
  | before hs hnone hitems =>
    subst hs
    cases hi
  | opened channel₀ hzero hnext hget hlive =>
    have hindex : i = 0 := by
      have := Table.lt_next hi
      omega
    subst hindex
    refine .opened channel.dropReceiver.1 ?_ hnext (Table.get_set_self hi) nofun
    rw [delivered_snoc]
    exact List.mem_append_left _ hzero

variable (asked) (κ) in
/-- What is delivered is a frame of the client. -/
def Sends (op : Op ω) : Prop :=
  match op with
  | .deliver payload => ∃ frame : StreamFrameWire κ, decodeStreamFrame payload = .ok frame ∧ asked.Has frame
  | _ => True

theorem Kept.step {router : Router} (hrouter : router.Streams asked.method) {op : Op ω}
    (h : Kept asked s answers) (hop : Sends κ asked op) (hready : s.Ready op)
    (hstep : step router s op = some (s', o)) (honce : (delivered (answers ++ [o])).Nodup) :
    Kept asked s' (answers ++ [o]) := by
  cases op with
  | deliver payload =>
    obtain ⟨rfl, rfl⟩ : (s.deliver router payload).1 = s' ∧
        .delivered (decodeStreamFrame payload) (s.deliver router payload).2 = o :=
        Prod.mk.inj (Option.some.inj hstep)
    obtain ⟨frame, hframe, hhas⟩ := hop
    rw [hframe] at honce ⊢
    refine h.deliver hrouter hframe hhas (fun hmem => ?_) hready
    rw [delivered_snoc] at honce
    exact (List.nodup_append.mp honce).2.2 _ hmem _ List.mem_cons_self rfl
  | next i waker =>
    obtain ⟨channel, hget, hstep⟩ := Option.bind_eq_some_iff.mp hstep
    split at hstep
    · rename_i halive
      cases hstep
      exact h.next hget halive waker
    · cases hstep
  | drop i =>
    obtain ⟨channel, hget, hstep⟩ := Option.bind_eq_some_iff.mp hstep
    split at hstep
    · cases hstep
      exact h.drop hget
    · cases hstep

omit [TonicCode κ] in
theorem Kept.reassembled (h : Kept asked s answers) : Reassembled asked s answers := by
  refine ⟨h.inOrder, h.complete, fun hall => ?_⟩
  cases h.phase with
  | before hs hnone hitems =>
    have := hall 0 (Nat.zero_le _)
    rw [hnone] at this
    cases this
  | opened channel hzero hnext hget hlive =>
    refine ⟨channel, hget, fun halive => ?_⟩
    cases hlive halive with
    | waits state hentry hle hwaits hflow =>
      have := hflow.buffered _ (hall _ hle) le_rfl
      rw [hwaits] at this
      cases this
    | ended hentry hcount hitems => exact ⟨hitems, hcount⟩

/-- Any run of a stream whose frames are delivered once, where each finds the stream open and room
for what it releases. -/
theorem run_reassembled {router : Router} (hrouter : router.Streams asked.method) {ops : List (Op ω)}
    (hops : ∀ op ∈ ops, Sends κ asked op) (hready : Machine.Along Ready (step router) (new : ServerStream κ ω) ops)
    (hrun : Machine.run (step router) (new : ServerStream κ ω) ops = some (s, answers)) (honce : (delivered answers).Nodup) :
    Reassembled asked s answers := by
  have h := ((Machine.along_of_forall (C := Sends κ asked) hops).and hready).history
    (P := fun s answers => (delivered answers).Nodup → Kept asked s answers)
    (fun _ _ _ _ os h hC hs honce => ?_) (fun _ => kept_new) hrun
  · exact (h honce).reassembled
  · have hbefore : (delivered os).Nodup := by
      rw [delivered_snoc] at honce
      exact (List.nodup_append.mp honce).1
    exact (h hbefore).step hrouter hC.1 hC.2 hs honce

end

/-! ## Frames that overtake, and a handler that lags -/

instance [TonicCode κ] (s : ServerStream κ ω) (op : Op ω) : Decidable (s.Ready op) := by
  cases op with
  | deliver payload =>
    unfold Ready
    dsimp only
    generalize (decodeStreamFrame payload : Except (Status κ) _) = decoded
    refine decoded.casesOn (fun _ => instDecidableTrue) (fun frame => ?_)
    generalize s.entry = entry
    cases entry with
    | some state => cases state <;> infer_instance
    | none => infer_instance
  | _ => exact instDecidableTrue

/-- A server with a handler of one method, `/svc/Method`, which gets a stream. -/
def routerOf : Router := ⟨fun _ => false, fun _ => false, fun method => method = "/svc/Method".toList⟩

/-- A call with `n` payloads. -/
def askedOf (n : Nat) : Asked := ⟨"/svc/Method".toList, payloadsOf n⟩

/-- The frames are delivered in the order of `seqs`, and then the handler polls its stream, `r` times. -/
def arrive (n : Nat) (seqs : List Nat) (r : Nat) : List (Op Nat) :=
  seqs.map (fun i => .deliver (encodeStreamFrame (numbered .clientToServer n i))) ++ List.replicate r (.next 0 0)

theorem has_numbered {n i : Nat} (hn : n + 1 < 2 ^ 64) (hi : i ≤ n + 1) :
    (askedOf n).Has (numbered .clientToServer n i) := by
  have hseq : (numbered .clientToServer n i).seq.toNat = i := numbered_seq hn hi
  rcases numbered_cases .clientToServer hi with ⟨hzero, heq⟩ | ⟨j, hj, payload, hpayload, heq⟩ | ⟨hlast, heq⟩
  · rw [heq] at hseq ⊢
    exact ⟨rfl, hseq.trans hzero, rfl⟩
  · rw [heq] at hseq ⊢
    exact ⟨rfl, j, hseq.trans hj, hpayload⟩
  · rw [heq] at hseq ⊢
    exact ⟨rfl, hseq.trans hlast⟩

theorem sends_arrive {n r : Nat} {seqs : List Nat} (hn : n + 1 < 2 ^ 64) (hseqs : ∀ i ∈ seqs, i ≤ n + 1) :
    ∀ op ∈ arrive n seqs r, Sends GrpcCode (askedOf n) op := by
  refine List.forall_mem_append.mpr ⟨fun op hop => ?_, fun op hop => ?_⟩
  · obtain ⟨i, hi, rfl⟩ := List.mem_map.mp hop
    exact ⟨_, decode_numbered _ n i, has_numbered hn (hseqs i hi)⟩
  · cases (List.mem_replicate.mp hop).2
    trivial

/-- A frame that arrives before the one that opens the stream is lost, and the stream does not end;
and the seventeenth payload that waits is lost, and the stream ends like one that is complete. -/
theorem not_reassembled_arrive : (∀ op ∈ arrive 2 [1, 0, 2, 3] 1, Sends GrpcCode (askedOf 2) op) ∧
    (∀ op ∈ arrive 17 (List.range 19) 17, Sends GrpcCode (askedOf 17) op) ∧
    (∃ (s : ServerStream GrpcCode Nat) (answers : List (Output GrpcCode)),
      Machine.run (step routerOf) new (arrive 2 [1, 0, 2, 3] 1) = some (s, answers) ∧ (∀ i ≤ 3, i ∈ delivered answers) ∧
        ¬Reassembled (askedOf 2) s answers) ∧
    ∃ (s : ServerStream GrpcCode Nat) (answers : List (Output GrpcCode)),
      Machine.run (step routerOf) new (arrive 17 (List.range 19) 17) = some (s, answers) ∧ Ended answers ∧
        ¬Reassembled (askedOf 17) s answers := by
  refine ⟨sends_arrive (by decide) (by decide), sends_arrive (by decide) (by decide), ?_, ?_⟩
  · have hrun :
        (Machine.run (step routerOf) (new : ServerStream GrpcCode Nat)
          (arrive 2 [1, 0, 2, 3] 1)).map (fun r =>
        (delivered r.2, (r.1.requests.get 0).map fun channel =>
          (channel.receiverAlive, channel.senderCount))) =
        some ([1, 0, 2, 3], some (true, 1)) := by
      decide +kernel
    obtain ⟨⟨s, answers⟩, hrun, hvalues⟩ := Option.map_eq_some_iff.mp hrun
    obtain ⟨hdelivered, hchannel⟩ := Prod.mk.inj hvalues
    have hall : ∀ i ≤ 3, i ∈ delivered answers := by
      rw [hdelivered]
      decide
    refine ⟨s, answers, hrun, hall, fun h => ?_⟩
    obtain ⟨channel, hget, hyields⟩ := h.yields hall
    rw [hget] at hchannel
    obtain ⟨halive, hcount⟩ := Prod.mk.inj (Option.some.inj hchannel)
    have := (hyields halive).2
    rw [hcount] at this
    cases this
  · have hrun :
        (Machine.run (step routerOf) (new : ServerStream GrpcCode Nat)
          (arrive 17 (List.range 19) 17)).map (fun r =>
        (read r.2, r.2.getLast?)) = some ((List.range 16).map (fun i => .ok [.ofNat i]),
        some (.received 0 (.ready none))) := by
      decide +kernel
    obtain ⟨⟨s, answers⟩, hrun, hvalues⟩ := Option.map_eq_some_iff.mp hrun
    obtain ⟨hread, hlast⟩ := Prod.mk.inj hvalues
    have hend : Ended answers := ⟨0, List.mem_of_getLast? hlast⟩
    refine ⟨s, answers, hrun, hend, fun h => ?_⟩
    have hall := h.complete hend
    rw [hread] at hall
    exact absurd (congrArg List.length hall) (by decide)

theorem run_reassembled_arrive : ∃ (s : ServerStream GrpcCode Nat) (answers : List (Output GrpcCode)),
    Machine.run (step routerOf) new (arrive 3 [0, 4, 2, 1, 3] 4) = some (s, answers) ∧ Ended answers ∧
      Reassembled (askedOf 3) s answers := by
  have hrun :
      (Machine.run (step routerOf) (new : ServerStream GrpcCode Nat)
        (arrive 3 [0, 4, 2, 1, 3] 4)).map (fun r =>
      (delivered r.2, r.2.getLast?)) = some ([0, 4, 2, 1, 3], some (.received 0 (.ready none))) := by
    decide +kernel
  obtain ⟨⟨s, answers⟩, hrun, hvalues⟩ := Option.map_eq_some_iff.mp hrun
  obtain ⟨hdelivered, hlast⟩ := Prod.mk.inj hvalues
  exact ⟨s, answers, hrun, ⟨0, List.mem_of_getLast? hlast⟩, run_reassembled (.inr ⟨rfl, by decide⟩)
    (sends_arrive (by decide) (by decide)) (by decide +kernel) hrun (by rw [hdelivered]; decide)⟩

end ServerStream

end DesCartes.Tonic
