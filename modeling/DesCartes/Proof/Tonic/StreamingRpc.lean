import DesCartes.Impl.Tonic.StreamingRpc
import DesCartes.Proof.Tonic.ServerStream

/-!
# What a timeout does to the stream of a server

The frame that cancels a stream has the number 0, and a stream that is open waits for a later one.
So the frame is put into the buffer and never taken out (`Sound.cancelled_iff`), unless the buffer
is full: then the stream is removed like one whose frames are lost.

* `Sound`: who holds the senders, and what a stream waits for;
* `Sound.deliver`: any frame keeps it;
* `run_cancelled_iff`: any call.
-/

namespace DesCartes.Tonic

variable {κ ω : Type}

namespace ServerStreamState

/-- The sender of the request stream. -/
def inboundTx : ServerStreamState κ → Option Nat
  | .client state | .bidi state => state.inboundTx
  | .server _ => none

def nextExpectedC2s : ServerStreamState κ → Nat
  | .client state | .bidi state => state.nextExpectedC2s
  | .server state => state.nextExpectedC2s

def reorder : ServerStreamState κ → BTreeMap Nat (StreamFrameWire κ)
  | .client state | .bidi state => state.reorder
  | .server state => state.reorder

/-- One message is sent to the handler, and not all of it is there. -/
def Incomplete : ServerStreamState κ → Prop
  | .client _ | .bidi _ => True
  | .server state => state.inboundClosed = false

end ServerStreamState

namespace ServerStream

/-- The senders of the request streams are that of the stream, if it has one. -/
def Owned (requests : Table (Mpsc.State (Item κ) ω)) (tx : Option Nat) : Prop :=
  ∀ i channel, requests.get i = some channel → channel.senderCount = if tx = some i then 1 else 0

/-- The sender of a stream is the only one, and the frame that the stream waits for is not there. -/
structure Sound (s : ServerStream κ ω) : Prop where
  owned : Owned s.requests (s.entry.bind (·.inboundTx))
  waits : ∀ state ∈ s.entry, 0 < state.nextExpectedC2s ∧ state.reorder.get? state.nextExpectedC2s = none ∧ state.Incomplete

/-- The stream is removed, and the request streams have ended. -/
structure Cancelled (s : ServerStream κ ω) : Prop where
  removed : s.entry = none
  closed : ∀ i channel, s.requests.get i = some channel → channel.senderCount = 0

variable {s s' : ServerStream κ ω} {requests : Table (Mpsc.State (Item κ) ω)} {tx : Option Nat} {state : InboundState κ}

theorem sound_new : Sound (new : ServerStream κ ω) := ⟨nofun, nofun⟩

theorem Sound.cancelled (h : Sound s) (hentry : s.entry = none) : Cancelled s := by
  refine ⟨hentry, fun i channel hi => ?_⟩
  have := h.owned i channel hi
  rwa [hentry, Option.bind_none, if_neg nofun] at this

/-! ## The channels -/

/-- A channel whose senders are kept. -/
theorem Owned.set {i : Nat} {channel channel' : Mpsc.State (Item κ) ω} (h : Owned requests tx)
    (hget : requests.get i = some channel) (hcount : channel'.senderCount = channel.senderCount) :
    Owned (requests.set i channel') tx := by
  intro j other hj
  rw [Table.get_set_eq_some hget] at hj
  obtain ⟨rfl, rfl⟩ | ⟨-, hj⟩ := hj
  · rw [hcount]
    exact h _ _ hget
  · exact h j other hj

theorem Owned.insert (h : Owned requests none) (capacity : Nat) :
    Owned (requests.insert (.new capacity)) (some requests.next) := by
  intro i channel hi
  rcases Table.get_insert_eq_some.mp hi with ⟨rfl, rfl⟩ | hi
  · rw [if_pos rfl]
    rfl
  · have hne : requests.next ≠ i := (Table.lt_next hi).ne'
    rw [if_neg (by simpa using hne)]
    exact h i channel hi

theorem Owned.dropTx (h : Owned requests tx) : Owned (dropTx requests tx) none := by
  cases tx with
  | none => exact h
  | some i =>
    rw [ServerStream.dropTx]
    cases hget : requests.get i with
    | none =>
      intro j channel hj
      rw [Option.map_none, Option.getD_none] at hj
      have hne : i ≠ j := by
        rintro rfl
        cases hget.symm.trans hj
      have := h j channel hj
      rwa [if_neg (by simpa using hne)] at this
    | some channel =>
      intro j other hj
      rw [Option.map_some, Option.getD_some, Table.get_set_eq_some hget] at hj
      obtain ⟨rfl, rfl⟩ | ⟨hne, hj⟩ := hj
      · rw [Mpsc.senderCount_dropSender, h _ _ hget, if_pos rfl]
        rfl
      · have := h j other hj
        rwa [if_neg (by simpa using Ne.symm hne)] at this

theorem Owned.trySend (h : Owned requests tx) (i : Nat) (payload : List UInt8) :
    Owned (trySend requests i payload).1 tx := by
  rw [ServerStream.trySend]
  cases hget : requests.get i with
  | none => exact h
  | some channel => exact h.set hget (Mpsc.senderCount_trySend _)

/-! ## The frames -/

/-- What the loop leaves. -/
structure Settled (state : InboundState κ) (r : Table (Mpsc.State (Item κ) ω) × InboundState κ × Bool) : Prop where
  owned : Owned r.1 r.2.1.inboundTx
  le : state.nextExpectedC2s ≤ r.2.1.nextExpectedC2s
  waits : r.2.2 = false → r.2.1.reorder.get? r.2.1.nextExpectedC2s = none
  removed : r.2.2 = true → r.2.1.inboundTx = none

theorem settled_release (n : Nat) (h : Owned requests state.inboundTx) (hlen : state.reorder.len ≤ n) :
    Settled state (release n requests state) := by
  induction n generalizing requests state with
  | zero =>
    exact ⟨h, le_rfl, fun _ => BTreeMap.len_eq_zero.mp (Nat.le_zero.mp hlen) _,
      fun h => absurd h Bool.false_ne_true⟩
  | succ n ih =>
    rw [release]
    cases hnext : state.reorder.get? state.nextExpectedC2s with
    | none => exact ⟨h, le_rfl, fun _ => hnext, fun h => absurd h Bool.false_ne_true⟩
    | some next =>
      have hlen : state.advance.reorder.len ≤ n :=
        Nat.lt_succ_iff.mp ((BTreeMap.len_erase_lt hnext).trans_le hlen)
      have hrest : ∀ (requests : Table (Mpsc.State (Item κ) ω)) tx, Owned requests tx →
          Settled state (release n requests { state.advance with inboundTx := tx }) := fun requests tx h =>
        let hrest : Settled { state.advance with inboundTx := tx } _ := ih h hlen
        ⟨hrest.owned, (Nat.le_succ _).trans hrest.le, hrest.waits, hrest.removed⟩
      simp only
      cases next.kind with
      | «open» => exact hrest requests _ h
      | data =>
        simp only
        cases htx : state.advance.inboundTx with
        | none => exact hrest requests _ h
        | some i =>
          have hsend := h.trySend i next.payload
          simp only
          generalize ServerStream.trySend requests i next.payload = r at hsend
          obtain ⟨requests₁, sent⟩ := r
          cases sent with
          | true => exact hrest requests₁ _ hsend
          | false => exact ⟨(show state.inboundTx = some i from htx) ▸ hsend.dropTx, Nat.le_succ _,
              fun h => absurd h.symm Bool.false_ne_true, fun _ => rfl⟩
      | close => exact hrest _ none h.dropTx
      | cancel => exact ⟨h.dropTx, Nat.le_succ _, fun h => absurd h.symm Bool.false_ne_true, fun _ => rfl⟩

/-- A frame for a stream keeps it sound. -/
theorem Sound.deliverInbound {wrap : InboundState κ → ServerStreamState κ}
    (hwrap : wrap = .client ∨ wrap = .bidi) (h : Sound s) (hentry : s.entry = some (wrap state))
    (frame : StreamFrameWire κ) : Sound (s.deliverInbound wrap state frame) := by
  have hstate : (wrap state).inboundTx = state.inboundTx ∧
      (wrap state).nextExpectedC2s = state.nextExpectedC2s := by
    rcases hwrap with rfl | rfl <;> exact ⟨rfl, rfl⟩
  have howned : Owned s.requests state.inboundTx := by
    have := h.owned
    rwa [hentry, Option.bind_some, hstate.1] at this
  rw [ServerStream.deliverInbound]
  split
  · exact ⟨howned.dropTx, by rintro _ ⟨⟩⟩
  · have howned : Owned s.requests (state.pushFrame frame).inboundTx := howned
    have hsettled := settled_release (state.pushFrame frame).reorder.len howned le_rfl
    simp only
    generalize release (state.pushFrame frame).reorder.len s.requests (state.pushFrame frame) = r at hsettled
    obtain ⟨requests, state', removeStream⟩ := r
    simp only
    split
    · rename_i hremove
      refine ⟨?_, by rintro _ ⟨⟩⟩
      have hnone : state'.inboundTx = none := by
        rcases Bool.or_eq_true_iff.mp hremove with hremove | hremove
        · exact hsettled.removed hremove
        · exact Option.isNone_iff_eq_none.mp (Bool.and_eq_true_iff.mp hremove).1
      rw [Option.bind_none, ← hnone]
      exact hsettled.owned
    · rename_i hkeep
      have hkept : removeStream = false := by
        cases removeStream
        · rfl
        · exact absurd rfl hkeep
      have hpos : 0 < state'.nextExpectedC2s := by
        have := (h.waits _ hentry).1
        rw [hstate.2] at this
        exact this.trans_le hsettled.le
      refine ⟨?_, ?_⟩
      · rcases hwrap with rfl | rfl <;> exact hsettled.owned
      · rintro _ ⟨⟩
        rcases hwrap with rfl | rfl <;> exact ⟨hpos, hsettled.waits hkept, trivial⟩

variable [TonicCode κ]

theorem collect_waits (n : Nat) {state state' : ServerServerStreamState κ} {effects : List (Effect κ)}
    (hlen : state.reorder.len ≤ n) (h : collect n state = (some state', effects)) :
    state.nextExpectedC2s ≤ state'.nextExpectedC2s ∧ state'.reorder.get? state'.nextExpectedC2s = none := by
  induction n generalizing state with
  | zero =>
    cases h
    exact ⟨le_rfl, BTreeMap.len_eq_zero.mp (Nat.le_zero.mp hlen) _⟩
  | succ n ih =>
    rw [collect] at h
    cases hnext : state.reorder.get? state.nextExpectedC2s with
    | none =>
      rw [hnext] at h
      cases h
      exact ⟨le_rfl, hnext⟩
    | some next =>
      have hlen : (state.reorder.erase state.nextExpectedC2s).len ≤ n :=
        Nat.lt_succ_iff.mp ((BTreeMap.len_erase_lt hnext).trans_le hlen)
      have hrest : ∀ {rest : ServerServerStreamState κ}, rest.nextExpectedC2s = state.nextExpectedC2s + 1 →
          rest.reorder = state.reorder.erase state.nextExpectedC2s → collect n rest = (some state', effects) →
          state.nextExpectedC2s ≤ state'.nextExpectedC2s ∧
            state'.reorder.get? state'.nextExpectedC2s = none :=
        fun {rest} hexpected hreorder hcollect =>
          let ⟨hle, hwaits⟩ := ih (hreorder ▸ hlen) hcollect
          ⟨(Nat.le_succ _).trans (hexpected.symm.le.trans hle), hwaits⟩
      rw [hnext] at h
      simp only at h
      cases hkind : next.kind with
      | «open» =>
        rw [hkind] at h
        exact hrest rfl rfl h
      | data =>
        rw [hkind] at h
        simp only at h
        split at h
        · cases h
        · exact hrest rfl rfl h
      | close =>
        rw [hkind] at h
        exact hrest rfl rfl h
      | cancel =>
        rw [hkind] at h
        cases h

theorem Sound.deliverServer {state : ServerServerStreamState κ} (h : Sound s)
    (hentry : s.entry = some (.server state)) (frame : StreamFrameWire κ) :
    Sound (s.deliverServer state frame).1 := by
  have howned : Owned s.requests none := by
    have := h.owned
    rwa [hentry] at this
  have hremoved : Sound { s with entry := none } := ⟨howned, nofun⟩
  rw [ServerStream.deliverServer]
  split
  · exact hremoved
  · simp only
    split
    · exact hremoved
    · rename_i state' effects hcollect
      obtain ⟨hle, hwaits⟩ := collect_waits (state.reorder.insert frame.seq.toNat frame).len
        (le_refl _) hcollect
      split
      · split <;> exact hremoved
      · rename_i hopen
        refine ⟨howned, ?_⟩
        rintro _ ⟨⟩
        exact ⟨(h.waits _ hentry).1.trans_le hle, hwaits, Bool.eq_false_of_not_eq_true hopen⟩

theorem Sound.deliverOpen (h : Sound s) (router : Router) (frame : StreamFrameWire κ) :
    Sound (s.deliverOpen router frame).1 := by
  rw [ServerStream.deliverOpen]
  split
  · exact h
  · split
    · exact h
    · rename_i hnone
      have hnone : s.entry = none := Option.not_isSome_iff_eq_none.mp hnone
      have howned : Owned s.requests none := by
        have := h.owned
        rwa [hnone] at this
      have hempty : (BTreeMap.empty : BTreeMap Nat (StreamFrameWire κ)).get? 1 = none := rfl
      split
      · exact ⟨howned.insert 16, by rintro _ ⟨⟩; exact ⟨Nat.one_pos, hempty, trivial⟩⟩
      · split
        · exact ⟨howned, by rintro _ ⟨⟩; exact ⟨Nat.one_pos, hempty, rfl⟩⟩
        · split
          · exact ⟨howned.insert 16, by rintro _ ⟨⟩; exact ⟨Nat.one_pos, hempty, trivial⟩⟩
          · exact h

/-- Any message keeps the stream sound. -/
theorem Sound.deliver (h : Sound s) (router : Router) (payload : List UInt8) :
    Sound (s.deliver router payload).1 := by
  rw [ServerStream.deliver]
  split
  · exact h
  · split
    · exact h
    · split
      · exact h.deliverOpen router _
      · split
        · exact h
        · exact h.deliverInbound (.inl rfl) ‹_› _
        · exact h.deliverInbound (.inr rfl) ‹_› _
        · exact h.deliverServer ‹_› _

theorem Sound.step {router : Router} {op : Op ω} {o : Output κ} (h : Sound s)
    (hstep : step router s op = some (s', o)) :
    Sound s' := by
  cases op with
  | deliver payload =>
    cases hstep
    exact h.deliver router payload
  | next i waker =>
    obtain ⟨channel, hget, hstep⟩ := Option.bind_eq_some_iff.mp hstep
    split at hstep
    · cases hstep
      exact ⟨h.owned.set hget (Mpsc.senderCount_recv waker), h.waits⟩
    · cases hstep
  | drop i =>
    obtain ⟨channel, hget, hstep⟩ := Option.bind_eq_some_iff.mp hstep
    split at hstep
    · cases hstep
      exact ⟨h.owned.set hget rfl, h.waits⟩
    · cases hstep

/-! ## The frame that cancels -/

omit [TonicCode κ] in
/-- Where the next frame is not there, nothing is released. -/
theorem release_of_waits (n : Nat) (hwaits : state.reorder.get? state.nextExpectedC2s = none) :
    release n requests state = (requests, state, false) := by
  cases n with
  | zero => rfl
  | succ n => rw [release, hwaits]

theorem collect_of_waits (n : Nat) {state : ServerServerStreamState κ}
    (hwaits : state.reorder.get? state.nextExpectedC2s = none) :
    collect n state = (some state, []) := by
  cases n with
  | zero => rfl
  | succ n => rw [collect, hwaits]

omit [TonicCode κ] in
/-- A frame that is not the next one is put into a buffer that is not full. -/
theorem entry_deliverInbound {wrap : InboundState κ → ServerStreamState κ}
    {frame : StreamFrameWire κ} (hne : state.nextExpectedC2s ≠ frame.seq.toNat)
    (hwaits : state.reorder.get? state.nextExpectedC2s = none) :
    (s.deliverInbound wrap state frame).entry =
      if maxReorderFrames ≤ state.reorder.len then none else some (wrap (state.pushFrame frame)) := by
  rw [ServerStream.deliverInbound]
  split
  · rfl
  · have hwaits : (state.pushFrame frame).reorder.get? (state.pushFrame frame).nextExpectedC2s = none :=
      (BTreeMap.get?_insert_of_ne hne).trans hwaits
    have hlen : (state.pushFrame frame).reorder.len ≠ 0 := fun hzero => by
      have hnone := BTreeMap.len_eq_zero.mp hzero frame.seq.toNat
      rw [InboundState.pushFrame, BTreeMap.get?_insert_self] at hnone
      cases hnone
    simp only [release_of_waits _ hwaits, hlen, decide_false, Bool.and_false, Bool.or_false,
      Bool.false_eq_true, if_false]

theorem entry_deliverServer {state : ServerServerStreamState κ} {frame : StreamFrameWire κ}
    (hne : state.nextExpectedC2s ≠ frame.seq.toNat) (hwaits : state.reorder.get? state.nextExpectedC2s = none)
    (hopen : state.inboundClosed = false) : (s.deliverServer state frame).1.entry =
      if maxReorderFrames ≤ state.reorder.len then none
      else some (.server { state with reorder := state.reorder.insert frame.seq.toNat frame }) := by
  rw [ServerStream.deliverServer]
  split
  · rfl
  · have hwaits : (state.reorder.insert frame.seq.toNat frame).get? state.nextExpectedC2s = none :=
      (BTreeMap.get?_insert_of_ne hne).trans hwaits
    have hcollect := fun n => collect_of_waits n
      (show ({ state with reorder := state.reorder.insert frame.seq.toNat frame } : ServerServerStreamState κ).reorder.get? _ = none
        from hwaits)
    simp only [hcollect]
    rw [if_neg (by rw [hopen]; decide)]

variable [LawfulTonicCode κ]

theorem decode_cancelFrame (call : StreamingCall) :
    decodeStreamFrame (encodeStreamFrame (call.cancelFrame : StreamFrameWire κ)) =
      .ok (call.cancelFrame : StreamFrameWire κ) := by
  have hframe : (call.cancelFrame : StreamFrameWire κ).WellFormed := by
    refine ⟨(by decide : (none : Option (List Char)).isSome ↔ StreamFrameKind.cancel = .open), ?_,
      call.streamId.fits, ?_,
      (by decide : FitsKv []), Nat.two_pow_pos 32, (by decide : FitsString "deadline exceeded".toList)⟩
    rotate_left
    · rintro _ ⟨⟩
    rintro (hkind | hkind) <;> cases hkind
  exact decode_streamFrame hframe

/-- The frame removes a stream that is open exactly where its buffer is full. -/
theorem Sound.cancelled_iff (h : Sound s) {state : ServerStreamState κ}
    (hentry : s.entry = some state) (router : Router) (call : StreamingCall) :
    Cancelled (s.deliver router (encodeStreamFrame (call.cancelFrame : StreamFrameWire κ))).1 ↔
      maxReorderFrames ≤ state.reorder.len := by
  have hremoved : Cancelled (s.deliver router (encodeStreamFrame (call.cancelFrame : StreamFrameWire κ))).1 ↔
      (s.deliver router (encodeStreamFrame (call.cancelFrame : StreamFrameWire κ))).1.entry = none :=
    ⟨Cancelled.removed, (h.deliver router _).cancelled⟩
  have hiff : ∀ {p : Prop} [Decidable p] {state : ServerStreamState κ},
      (if p then none else some state) = none ↔ p := by
    intro p _ state
    split <;> simp_all
  obtain ⟨hpos, hwaits, hopen⟩ := h.waits state hentry
  have hkind : (call.cancelFrame : StreamFrameWire κ).direction = .clientToServer ∧
      (call.cancelFrame : StreamFrameWire κ).kind ≠ .open := ⟨rfl, nofun⟩
  rw [hremoved, ServerStream.deliver, decode_cancelFrame]
  simp only [hkind.1, ne_eq, not_true_eq_false, if_false, hkind.2, hentry]
  cases state with
  | client state => rw [entry_deliverInbound hpos.ne' hwaits, hiff, ServerStreamState.reorder]
  | bidi state => rw [entry_deliverInbound hpos.ne' hwaits, hiff, ServerStreamState.reorder]
  | server state => rw [entry_deliverServer hpos.ne' hwaits hopen, hiff, ServerStreamState.reorder]

end ServerStream

namespace StreamingRpc

open ServerStream (Sound Cancelled)

variable [TonicCode κ] {call : StreamingCall} {router : Router} {s s' : StreamingRpc κ ω} {ops : List (Op ω)}
  {os : List (ServerStream.Output κ)} {o : ServerStream.Output κ}

theorem server_start : (start call : StreamingRpc κ ω).server = .new := by
  rw [start]
  cases call.kind <;> rfl

theorem server_elapse : (s.elapse call).server = s.server := by
  rw [elapse]
  split
  · cases call.kind <;> rfl
  · rfl

theorem sound_serve {op : ServerStream.Op ω} (h : Sound s.server)
    (hserve : s.serve router op = some (s', o)) : Sound s'.server := by
  obtain ⟨⟨server, output⟩, hstep, heq⟩ := Option.map_eq_some_iff.mp hserve
  cases heq
  exact h.step hstep

/-- Only the frames that are delivered, and the handler, change the stream of the server. -/
theorem sound_step {op : Op ω} (h : Sound s.server) (hstep : step call router s op = some (s', o)) :
    Sound s'.server := by
  cases op with
  | forward payload =>
    simp only [step] at hstep
    split at hstep <;> cases hstep
    exact h
  | finish =>
    simp only [step] at hstep
    split at hstep <;> cases hstep
    exact h
  | settle =>
    cases hstep
    exact h
  | timeout =>
    simp only [step] at hstep
    split at hstep <;> cases hstep
    rw [server_elapse]
    exact h
  | cancel =>
    simp only [step] at hstep
    split at hstep <;> cases hstep
    exact h
  | deliver i =>
    obtain ⟨frame, -, hserve⟩ := Option.bind_eq_some_iff.mp hstep
    exact sound_serve (s := { s with frames := s.frames.erase i }) h hserve
  | lose i =>
    obtain ⟨frame, -, heq⟩ := Option.map_eq_some_iff.mp hstep
    cases heq
    exact h
  | next i waker => exact sound_serve h hstep
  | drop i => exact sound_serve h hstep

theorem run_sound
    (hrun : Machine.run (step call router) (start call : StreamingRpc κ ω) ops = some (s, os)) :
    Sound s.server :=
  Machine.run_invariant (P := fun s => Sound s.server) (fun _ _ _ _ h hs => sound_step h hs)
    (by rw [server_start]; exact ServerStream.sound_new) hrun

/-- Any call whose frame that cancels reaches a server which has the stream. -/
theorem run_cancelled_iff [LawfulTonicCode κ] {state : ServerStreamState κ} {i : Nat}
    (hrun : Machine.run (step call router) (start call : StreamingRpc κ ω) ops = some (s, os))
    (hcancel : s.frames.get i = some call.cancelFrame) (hentry : s.server.entry = some state)
    (hstep : step call router s (.deliver i) = some (s', o)) :
    Cancelled s'.server ↔ ServerStream.maxReorderFrames ≤ state.reorder.len := by
  have hserver :
      s'.server = (s.server.deliver router (encodeStreamFrame (call.cancelFrame : StreamFrameWire κ))).1 := by
    rw [step, hcancel, Option.bind_some] at hstep
    exact congrArg StreamingRpc.server (Prod.mk.inj (Option.some.inj hstep)).1.symm
  rw [hserver]
  exact (run_sound hrun).cancelled_iff hentry router call

/-! ## A call of each kind -/

/-- A server with a handler of the kind for one method, `/svc/Method`. -/
def routerFor (kind : StreamingKind) : Router :=
  ⟨fun method => kind = .bidi ∧ method = "/svc/Method".toList, fun method => kind = .server ∧ method = "/svc/Method".toList,
    fun method => kind = .client ∧ method = "/svc/Method".toList⟩

/-- A call with the id `s1`. -/
def callOf (kind : StreamingKind) : StreamingCall := ⟨kind, ⟨"s1".toList, by decide⟩, "/svc/Method".toList, [7]⟩

/-- The server has the stream, and all the frames but one: the frame that cancels, with the index `i`. -/
def Cancels (kind : StreamingKind) (s : StreamingRpc GrpcCode Nat) (i : Nat) : Prop :=
  s.server.entry.isSome = true ∧ s.frames.get i = some (callOf kind).cancelFrame ∧
    ∀ j < s.frames.next, s.frames.get j ≠ none → j = i

instance (kind : StreamingKind) (s : StreamingRpc GrpcCode Nat) (i : Nat) : Decidable (Cancels kind s i) :=
  inferInstanceAs (Decidable (_ ∧ _ ∧ ∀ j < _, _ → _))

/-- A run in which no frame is lost, after which the frame that cancels is delivered to no effect. -/
def Ignored (kind : StreamingKind) (ops : List (Op Nat)) (i : Nat) : Prop :=
  (∀ j, .lose j ∉ ops) ∧ ∃ (s s' : StreamingRpc GrpcCode Nat) (os : List (ServerStream.Output GrpcCode)) (o : _),
    Machine.run (step (callOf kind) (routerFor kind)) (start (callOf kind)) ops = some (s, os) ∧ Cancels kind s i ∧
      step (callOf kind) (routerFor kind) s (.deliver i) = some (s', o) ∧ ¬Cancelled s'.server

/-- What a run is evaluated to: whether the frame cancels, how many frames wait, and whether there
is a stream after it. -/
def outcome (kind : StreamingKind) (ops : List (Op Nat)) (i : Nat) : Option (Bool × Option Nat × Option Bool) :=
  (Machine.run (step (callOf kind) (routerFor kind)) (start (callOf kind) : StreamingRpc GrpcCode Nat) ops).map fun (s, _) =>
    (Cancels kind s i, s.server.entry.map (·.reorder.len),
      (step (callOf kind) (routerFor kind) s (.deliver i)).map (·.1.server.entry.isSome))

theorem ignored_of_outcome {kind : StreamingKind} {ops : List (Op Nat)} {i n : Nat}
    (hlose : ∀ j, .lose j ∉ ops) (h : outcome kind ops i = some (true, some n, some true)) :
    Ignored kind ops i := by
  obtain ⟨⟨s, os⟩, hrun, houtcome⟩ := Option.map_eq_some_iff.mp h
  obtain ⟨hcancels, hafter⟩ := Prod.mk.inj houtcome
  obtain ⟨⟨s', o⟩, hstep, hentry⟩ := Option.map_eq_some_iff.mp (Prod.mk.inj hafter).2
  refine ⟨hlose, s, s', os, o, hrun, of_decide_eq_true hcancels, hstep, fun hcancelled => ?_⟩
  rw [hcancelled.removed] at hentry
  cases hentry

/-- In a call of each kind, the server has all the frames, and keeps its stream when the client cancels it. -/
theorem not_cancelled_ignored : Ignored .client [.forward [1], .deliver 0, .deliver 1, .timeout] 2 ∧
    Ignored .bidi [.forward [1], .deliver 0, .deliver 1, .timeout, .cancel] 2 ∧
    Ignored .server [.deliver 1, .deliver 0, .deliver 2, .timeout, .cancel] 3 := by
  refine ⟨ignored_of_outcome (n := 0) (by simp) ?_, ignored_of_outcome (n := 0) (by simp) ?_,
    ignored_of_outcome (n := 1) (by simp) ?_⟩
  · decide +kernel
  · decide +kernel
  · decide +kernel

/-- The first of 65 requests overtakes the frame that opens the stream, and the others wait for it. -/
def overtaken : List (Op Nat) :=
  List.replicate 65 (.forward [1]) ++ (1 :: 0 :: List.range' 2 64).map .deliver ++ [.timeout]

theorem run_cancelled_iff_overtaken : ∃ (s s' : StreamingRpc GrpcCode Nat) (os : List (ServerStream.Output GrpcCode)) (o : _),
    Machine.run (step (callOf .client) (routerFor .client)) (start (callOf .client)) overtaken = some (s, os) ∧
      Cancels .client s 66 ∧ step (callOf .client) (routerFor .client) s (.deliver 66) = some (s', o) ∧ Cancelled s'.server := by
  have h : outcome .client overtaken 66 = some (true, some 64, some false) := by
    decide +kernel
  obtain ⟨⟨s, os⟩, hrun, houtcome⟩ := Option.map_eq_some_iff.mp h
  obtain ⟨hcancels, hafter⟩ := Prod.mk.inj houtcome
  obtain ⟨state, hentry, hlen⟩ := Option.map_eq_some_iff.mp (Prod.mk.inj hafter).1
  obtain ⟨⟨s', o⟩, hstep, -⟩ := Option.map_eq_some_iff.mp (Prod.mk.inj hafter).2
  have hcancels : Cancels .client s 66 := of_decide_eq_true hcancels
  exact ⟨s, s', os, o, hrun, hcancels, hstep, (run_cancelled_iff hrun hcancels.2.1 hentry hstep).mpr hlen.ge⟩

end StreamingRpc

end DesCartes.Tonic
