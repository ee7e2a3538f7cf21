import DesCartes.Proof.Tonic.StreamingRpc

/-!
# What a call does at the server, whatever the network does

Frames arrive in any order or not at all, the stream is removed when too many of them wait, its
channel runs full, and the timeout sends a frame of its own. In spite of that a handler is called
at most once, and reads the payloads from the first one on and in their order.

* `Follows`: what a stream of the server knows of the payloads that the client has sent;
* `Follows.release`, `Collects.collect`: the loops over the frames that are in order;
* `Delivers.deliver`: any frame of the client;
* `run_streamed`: any call.
-/

namespace DesCartes.Tonic

variable {κ ω : Type}

/-- What the client puts into a frame, when it has sent the payloads, and has `closed` its stream. -/
structure Carries (sent : List (List UInt8)) (closed : Bool) (frame : StreamFrameWire κ) : Prop where
  data : frame.kind = .data → ∃ i, frame.seq.toNat = i + 1 ∧ sent[i]? = some frame.payload
  close : frame.kind = .close → closed = true ∧ frame.seq.toNat = sent.length + 1
  cancel : frame.kind = .cancel → frame.seq.toNat = 0

variable {sent sent' : List (List UInt8)} {closed : Bool}

/-- The client goes on, or it is done. -/
theorem Carries.mono {frame : StreamFrameWire κ} (h : Carries sent false frame) (hsent : sent <+: sent') :
    Carries sent' closed frame := by
  refine ⟨fun hkind => ?_, fun hkind => absurd (h.close hkind).1 Bool.false_ne_true, h.cancel⟩
  obtain ⟨i, hi, hpayload⟩ := h.data hkind
  obtain ⟨rest, rfl⟩ := hsent
  exact ⟨i, hi, (List.getElem?_append_left (List.getElem?_eq_some_iff.mp hpayload).1).trans hpayload⟩

namespace ServerStream

/-! ## The channels -/

/-- What waits in a request stream. -/
def queueOf (requests : Table (Mpsc.State (Item κ) ω)) (i : Nat) : List (Item κ) :=
  (requests.get i).elim [] (·.queue)

variable {requests : Table (Mpsc.State (Item κ) ω)} {i j : Nat} {channel channel' : Mpsc.State (Item κ) ω}

theorem queueOf_set (hget : requests.get i = some channel) :
    queueOf (requests.set i channel') j = if j = i then channel'.queue else queueOf requests j := by
  simp only [queueOf, Table.set, hget]
  split <;> rfl

theorem queueOf_dropTx (tx : Option Nat) : queueOf (dropTx requests tx) j = queueOf requests j := by
  cases tx with
  | none => rfl
  | some i =>
    rw [dropTx]
    cases hget : requests.get i with
    | none => rfl
    | some channel =>
      rw [Option.map_some, Option.getD_some, queueOf_set hget, Mpsc.queue_dropSender]
      split
      · rename_i heq
        rw [heq, queueOf, hget]
        rfl
      · rfl

/-- A payload that is sent waits behind the others, and one that is not is lost. -/
theorem queueOf_trySend (hget : requests.get i = some channel) (payload : List UInt8) :
    queueOf (trySend requests i payload).1 j =
      if j = i ∧ (trySend requests i payload).2 = true then queueOf requests j ++ [.ok payload]
      else queueOf requests j := by
  have hsent : ∀ result, (channel.trySend (.ok payload : Item κ)).2.2 = result →
      (channel.trySend (.ok payload : Item κ)).1.queue =
        if result = .ok () then channel.queue ++ [.ok payload] else channel.queue := by
    rintro _ rfl
    rw [Mpsc.State.trySend]
    split
    · rfl
    · split <;> rfl
  have hsend : trySend requests i payload =
      (requests.set i (channel.trySend (.ok payload)).1,
        decide ((channel.trySend (.ok payload : Item κ)).2.2 = .ok ())) := by
    rw [trySend, hget]
  rw [hsend, queueOf_set hget, hsent _ rfl]
  by_cases heq : j = i
  · rw [heq, queueOf, hget]
    simp only [if_true, true_and, decide_eq_true_eq, Option.elim_some]
  · simp only [heq, if_false, false_and]

/-! ## A stream of requests -/

variable (sent : List (List UInt8)) (closed : Bool) (items : Nat → List (Item κ))

/-- The frames that wait are those of the client, under their numbers. -/
def Buffered (reorder : BTreeMap Nat (StreamFrameWire κ)) : Prop :=
  ∀ n frame, reorder.get? n = some frame → frame.seq.toNat = n ∧ frame.kind ≠ .open ∧
    Carries sent closed frame

/-- What was read of each request stream, with what waits there, is what the client has sent first. -/
def Queued (requests : Table (Mpsc.State (Item κ) ω)) : Prop :=
  ∀ i, items i ++ queueOf requests i <+: sent.map .ok

/-- A stream whose handler gets a request stream: that has got the payloads before the next frame. -/
structure Follows (requests : Table (Mpsc.State (Item κ) ω)) (state : InboundState κ) : Prop where
  pos : 0 < state.nextExpectedC2s
  buffered : Buffered sent closed state.reorder
  queued : Queued sent items requests
  open_ : ∀ i ∈ state.inboundTx, state.nextExpectedC2s ≤ sent.length + 1 ∧ (requests.get i).isSome ∧
    items i ++ queueOf requests i = (sent.take (state.nextExpectedC2s - 1)).map .ok

/-- A stream whose handler gets one message. -/
structure Collects (state : ServerServerStreamState κ) : Prop where
  pos : 0 < state.nextExpectedC2s
  buffered : Buffered sent closed state.reorder
  payload : state.requestPayload.toList = sent.take (state.nextExpectedC2s - 1)
  phase : state.inboundClosed = false ∧ state.nextExpectedC2s ≤ sent.length + 1 ∨
    state.inboundClosed = true ∧ closed = true ∧ sent.length + 1 < state.nextExpectedC2s

variable {sent closed items} {state : InboundState κ} {reorder : BTreeMap Nat (StreamFrameWire κ)}

theorem Buffered.insert {frame : StreamFrameWire κ} (h : Buffered sent closed reorder)
    (hkind : frame.kind ≠ .open) (hcarries : Carries sent closed frame) :
    Buffered sent closed (reorder.insert frame.seq.toNat frame) := by
  intro n other hget
  by_cases hn : n = frame.seq.toNat
  · rw [hn, BTreeMap.get?_insert_self] at hget
    cases hget
    exact ⟨hn.symm, hkind, hcarries⟩
  · rw [BTreeMap.get?_insert_of_ne hn] at hget
    exact h n other hget

theorem Buffered.erase (h : Buffered sent closed reorder) (n : Nat) :
    Buffered sent closed (reorder.erase n) := by
  intro m frame hget
  by_cases hm : m = n
  · rw [hm, BTreeMap.get?_erase_self] at hget
    cases hget
  · rw [BTreeMap.get?_erase_of_ne hm] at hget
    exact h m frame hget

/-- The next frame: a payload the next one, or the end behind the last one. -/
theorem Buffered.next {n : Nat} {frame : StreamFrameWire κ} (h : Buffered sent closed reorder)
    (hpos : 0 < n) (hget : reorder.get? n = some frame) :
    (frame.kind = .data ∧ sent[n - 1]? = some frame.payload) ∨
    (frame.kind = .close ∧ closed = true ∧ n = sent.length + 1) := by
  obtain ⟨hseq, hopen, hcarries⟩ := h n frame hget
  cases hkind : frame.kind with
  | «open» => exact absurd hkind hopen
  | data =>
    obtain ⟨i, hi, hpayload⟩ := hcarries.data hkind
    refine .inl ⟨rfl, ?_⟩
    rw [← hseq, hi, Nat.add_sub_cancel]
    exact hpayload
  | close =>
    obtain ⟨hclosed, hlast⟩ := hcarries.close hkind
    exact .inr ⟨rfl, hclosed, hseq.symm.trans hlast⟩
  | cancel =>
    have := hcarries.cancel hkind
    omega

/-- The stream goes on without a sender. -/
theorem Follows.ended {requests' : Table (Mpsc.State (Item κ) ω)}
    (h : Follows sent closed items requests state)
    (hqueue : ∀ i, queueOf requests' i = queueOf requests i) :
    Follows sent closed items requests' { state.advance with inboundTx := none } :=
  ⟨Nat.succ_pos _, h.buffered.erase _, fun i => by rw [hqueue]; exact h.queued i, by rintro _ ⟨⟩⟩

/-- The next frame is one of data, and its payload is sent. -/
theorem Follows.sends {next : StreamFrameWire κ} (h : Follows sent closed items requests state)
    (hpayload : sent[state.nextExpectedC2s - 1]? = some next.payload) (htx : state.inboundTx = some i) :
    ((trySend requests i next.payload).2 = true →
        Follows sent closed items (trySend requests i next.payload).1 state.advance) ∧
      ((trySend requests i next.payload).2 = false → ∀ j,
        queueOf (trySend requests i next.payload).1 j = queueOf requests j) := by
  obtain ⟨hle, hsome, hitems⟩ := h.open_ i htx
  obtain ⟨channel, hget⟩ := Option.isSome_iff_exists.mp hsome
  have hqueue := fun j => queueOf_trySend (j := j) hget next.payload
  have hlt : state.nextExpectedC2s - 1 < sent.length := (List.getElem?_eq_some_iff.mp hpayload).1
  have hpos := h.pos
  refine ⟨fun hsent => ?_, fun hfailed j => ?_⟩
  · have hnow : items i ++ queueOf (trySend requests i next.payload).1 i =
        (sent.take state.nextExpectedC2s).map .ok := by
      have htake : sent.take state.nextExpectedC2s = sent.take
          (state.nextExpectedC2s - 1) ++ [next.payload] := by
        have := List.take_add_one (l := sent) (i := state.nextExpectedC2s - 1)
        rwa [hpayload, Nat.sub_add_cancel hpos] at this
      rw [hqueue, if_pos ⟨rfl, hsent⟩, ← List.append_assoc, hitems, htake, List.map_append]
      rfl
    refine ⟨Nat.succ_pos _, h.buffered.erase _, fun j => ?_, fun k hk => ?_⟩
    · by_cases hj : j = i
      · rw [hj, hnow]
        exact (List.take_prefix _ _).map _
      · rw [hqueue, if_neg fun hc => hj hc.1]
        exact h.queued j
    · cases htx.symm.trans hk
      refine ⟨?_, ?_, hnow⟩
      · show state.nextExpectedC2s + 1 ≤ _
        omega
      · obtain ⟨channel', hget', -⟩ := (keeps_trySend requests i next.payload).get i channel hget
        rw [hget']
        rfl
  · rw [hqueue, if_neg fun hc => absurd (hfailed.symm.trans hc.2) Bool.false_ne_true]

/-- The loop releases the payloads in their order; where one is lost, the stream is removed. -/
theorem Follows.release (n : Nat) (h : Follows sent closed items requests state) :
    Follows sent closed items (release n requests state).1 (release n requests state).2.1 := by
  induction n generalizing requests state with
  | zero => exact h
  | succ n ih =>
    rw [ServerStream.release]
    cases hnext : state.reorder.get? state.nextExpectedC2s with
    | none => exact h
    | some next =>
      simp only
      rcases h.buffered.next h.pos hnext with ⟨hkind, hpayload⟩ | ⟨hkind, -, -⟩
      · rw [hkind]
        simp only
        cases htx : state.advance.inboundTx with
        | none =>
          have hstate : state.advance = { state.advance with inboundTx := none } := by rw [← htx]
          exact ih (hstate ▸ h.ended fun _ => rfl)
        | some i =>
          obtain ⟨hok, hfailed⟩ := h.sends hpayload htx
          simp only
          generalize trySend requests i next.payload = r at hok hfailed
          obtain ⟨requests₁, sent₁⟩ := r
          cases sent₁ with
          | true => exact ih (hok rfl)
          | false => exact h.ended fun j => (queueOf_dropTx _).trans (hfailed rfl j)
      · rw [hkind]
        exact ih (h.ended fun j => queueOf_dropTx _)

/-! ## What is delivered -/

/-- Handlers that are called. -/
def Effect.handles : Effect κ → Bool
  | .handle .. => true
  | .sendClose _ => false

/-- A frame that may open a stream. -/
def opens (frame : StreamFrameWire κ) : Nat := if frame.kind = .open then 1 else 0

/-- The calls of handlers in the answers. -/
def calls (answers : List (Output κ)) : List (Effect κ) := answers.flatMap fun
  | .delivered _ effects => effects.filter Effect.handles
  | _ => []

/-- The items that have been read of a request stream. -/
def readFrom (i : Nat) (answers : List (Output κ)) : List (Item κ) := answers.filterMap fun
  | .received j (.ready (some item)) => if j = i then some item else none
  | _ => none

/-- A stream that waits for the message of its handler. -/
def waiting (entry : Option (ServerStreamState κ)) : Nat :=
  match entry with
  | some (.server _) => 1
  | _ => 0

variable (sent closed items)

/-- What an entry in `streams` knows. -/
def Knows (requests : Table (Mpsc.State (Item κ) ω)) (path : List Char) : ServerStreamState κ → Prop
  | .client state | .bidi state => Follows sent closed items requests state
  | .server state => Collects sent closed state ∧ state.method = path ∧ state.openMetadata = []

/-- What holds of the stream of a server, whatever has been delivered. -/
structure Delivers (path : List Char) (s : ServerStream κ ω) : Prop where
  queued : Queued sent items s.requests
  fresh : ∀ i, s.requests.next ≤ i → items i = []
  entry : ∀ entry ∈ s.entry, Knows sent closed items s.requests path entry

/-- A call of a handler: of the method, with a request stream or with the only message. -/
def Asks (path : List Char) : Effect κ → Prop
  | .handle _ method metadata request => method = path ∧ metadata = [] ∧ match request with
    | .inl _ => True
    | .inr payload => closed = true ∧ sent = [payload]
  | .sendClose _ => True

/-- What a frame leads to: at most the handler that it is for, or that the stream has waited for. -/
structure Step (path : List Char) (budget : Nat) (r : ServerStream κ ω × List (Effect κ)) : Prop where
  delivers : Delivers sent closed items path r.1
  asks : ∀ effect ∈ r.2, Asks sent closed path effect
  once : waiting r.1.entry + (r.2.filter Effect.handles).length ≤ budget

variable {sent closed items} {path : List Char} {s s' : ServerStream κ ω} {budget : Nat}

theorem Delivers.removed (h : Delivers sent closed items path s)
    {requests : Table (Mpsc.State (Item κ) ω)} (hnext : requests.next = s.requests.next)
    (hqueued : Queued sent items requests) :
    Delivers sent closed items path ⟨none, requests⟩ :=
  ⟨hqueued, fun i hi => h.fresh i (hnext ▸ hi), nofun⟩

/-- A frame for a stream of requests. -/
theorem Delivers.deliverInbound {wrap : InboundState κ → ServerStreamState κ}
    {frame : StreamFrameWire κ} (h : Delivers sent closed items path s)
    (hwrap : wrap = .client ∨ wrap = .bidi) (hfollows : Follows sent closed items s.requests state)
    (hkind : frame.kind ≠ .open) (hcarries : Carries sent closed frame) :
    Delivers sent closed items path (s.deliverInbound wrap state frame) ∧
    waiting (s.deliverInbound wrap state frame).entry = 0 := by
  have hknows : ∀ (requests : Table (Mpsc.State (Item κ) ω)) state,
      Follows sent closed items requests state →
        Knows sent closed items requests path (wrap state) := by
    rcases hwrap with rfl | rfl <;> exact fun _ _ h => h
  have hwaiting : ∀ state, waiting (some (wrap state)) = 0 := by
    rcases hwrap with rfl | rfl <;> exact fun _ => rfl
  rw [ServerStream.deliverInbound]
  split
  · exact ⟨h.removed (keeps_dropTx _ _).next fun i => by rw [queueOf_dropTx]; exact h.queued i, rfl⟩
  · have hpush : Follows sent closed items s.requests (state.pushFrame frame) :=
      ⟨hfollows.pos, hfollows.buffered.insert hkind hcarries, hfollows.queued, hfollows.open_⟩
    have hreleased := hpush.release (state.pushFrame frame).reorder.len
    have hkeeps := keeps_release (state.pushFrame frame).reorder.len s.requests (state.pushFrame frame)
    simp only
    generalize release (state.pushFrame frame).reorder.len s.requests (state.pushFrame frame) =
      r at hreleased hkeeps
    obtain ⟨requests, state', removeStream⟩ := r
    simp only
    split
    · exact ⟨h.removed hkeeps.next hreleased.queued, rfl⟩
    · refine ⟨⟨hreleased.queued, fun i hi => h.fresh i (hkeeps.next ▸ hi), ?_⟩, hwaiting _⟩
      rintro _ ⟨⟩
      exact hknows _ _ hreleased

/-! ## A client that goes on -/

omit sent in
theorem take_of_grown {sent : List (List UInt8)} {n : Nat} (hsent : sent <+: sent')
    (hn : n ≤ sent.length + 1) :
    sent'.take (n - 1) = sent.take (n - 1) := by
  obtain ⟨rest, rfl⟩ := hsent
  exact List.take_append_of_le_length (by omega)

variable {closed' : Bool} {requests : Table (Mpsc.State (Item κ) ω)}

theorem Buffered.mono {reorder : BTreeMap Nat (StreamFrameWire κ)} (h : Buffered sent false reorder)
    (hsent : sent <+: sent') : Buffered sent' closed' reorder := fun n frame hget =>
  let ⟨hseq, hopen, hcarries⟩ := h n frame hget
  ⟨hseq, hopen, hcarries.mono hsent⟩

theorem Follows.mono (h : Follows sent false items requests state) (hsent : sent <+: sent') :
    Follows sent' closed' items requests state := by
  refine ⟨h.pos, h.buffered.mono hsent, fun i => (h.queued i).trans (hsent.map _), fun i hi => ?_⟩
  obtain ⟨hle, hsome, hitems⟩ := h.open_ i hi
  exact ⟨hle.trans (Nat.add_le_add_right hsent.length_le 1), hsome,
    by rw [hitems, take_of_grown hsent hle]⟩

theorem Collects.mono {state : ServerServerStreamState κ} (h : Collects sent false state)
    (hsent : sent <+: sent') :
    Collects sent' closed' state := by
  obtain ⟨hopen, hle⟩ := h.phase.resolve_right fun hc => absurd hc.2.1 Bool.false_ne_true
  refine ⟨h.pos, h.buffered.mono hsent, ?_,
    .inl ⟨hopen, hle.trans (Nat.add_le_add_right hsent.length_le 1)⟩⟩
  rw [take_of_grown hsent hle]
  exact h.payload

theorem Delivers.mono (h : Delivers sent false items path s) (hsent : sent <+: sent') :
    Delivers sent' closed' items path s := by
  refine ⟨fun i => (h.queued i).trans (hsent.map _), h.fresh, fun entry hentry => ?_⟩
  have hknows := h.entry entry hentry
  cases entry with
  | client state => exact Follows.mono hknows hsent
  | bidi state => exact Follows.mono hknows hsent
  | server state => exact ⟨hknows.1.mono hsent, hknows.2⟩

theorem Asks.mono {effect : Effect κ} (h : Asks sent false path effect) :
    Asks sent' closed' path effect := by
  cases effect with
  | handle kind method metadata request =>
    refine ⟨h.1, h.2.1, ?_⟩
    cases request with
    | inl i => trivial
    | inr payload => exact absurd h.2.2.1 Bool.false_ne_true
  | sendClose status => trivial

/-! ## What a frame does -/

variable [TonicCode κ]

/-- The loop collects the only message, and sees the end behind it. -/
theorem Collects.collect (n : Nat) {state : ServerServerStreamState κ} (h : Collects sent closed state) :
    (∀ state', (collect n state).1 = some state' →
        Collects sent closed state' ∧ state'.method = state.method ∧
        state'.openMetadata = state.openMetadata) ∧
      (collect n state).2.filter Effect.handles = [] := by
  induction n generalizing state with
  | zero =>
    refine ⟨?_, rfl⟩
    rintro _ ⟨⟩
    exact ⟨h, rfl, rfl⟩
  | succ n ih =>
    rw [ServerStream.collect]
    cases hnext : state.reorder.get? state.nextExpectedC2s with
    | none =>
      refine ⟨?_, rfl⟩
      rintro _ ⟨⟩
      exact ⟨h, rfl, rfl⟩
    | some next =>
      simp only
      have hpos := h.pos
      rcases h.buffered.next h.pos hnext with ⟨hkind, hpayload⟩ | ⟨hkind, hclosed, hlast⟩
      · have hlt : state.nextExpectedC2s - 1 < sent.length := (List.getElem?_eq_some_iff.mp hpayload).1
        obtain ⟨hopen, hle⟩ := h.phase.resolve_right fun hc => by omega
        rw [hkind]
        simp only
        split
        · exact ⟨by rintro _ ⟨⟩, rfl⟩
        · rename_i hfirst
          refine ih ⟨Nat.succ_pos _, h.buffered.erase _, ?_, .inl ⟨hopen, ?_⟩⟩
          · have hempty : sent.take (state.nextExpectedC2s - 1) = [] := by
              rw [← h.payload, Option.not_isSome_iff_eq_none.mp hfirst]
              rfl
            have htake := List.take_add_one (l := sent) (i := state.nextExpectedC2s - 1)
            rw [hpayload, hempty, Nat.sub_add_cancel hpos] at htake
            exact htake.symm
          · show state.nextExpectedC2s + 1 ≤ _
            omega
      · rw [hkind]
        refine ih ⟨Nat.succ_pos _, h.buffered.erase _, ?_, .inr ⟨rfl, hclosed, ?_⟩⟩
        · have hpayload := h.payload
          rw [hlast, Nat.add_sub_cancel, List.take_length] at hpayload
          show state.requestPayload.toList = sent.take (state.nextExpectedC2s + 1 - 1)
          rw [hlast, Nat.add_sub_cancel, List.take_of_length_le (Nat.le_succ _)]
          exact hpayload
        · show sent.length + 1 < state.nextExpectedC2s + 1
          omega

/-- A frame for a handler of one message. -/
theorem Delivers.deliverServer {state : ServerServerStreamState κ} {frame : StreamFrameWire κ}
    (h : Delivers sent closed items path s) (hcollects : Collects sent closed state)
    (hmethod : state.method = path) (hmetadata : state.openMetadata = [])
    (hkind : frame.kind ≠ .open) (hcarries : Carries sent closed frame) :
    Step sent closed items path 1 (s.deliverServer state frame) := by
  have hremoved : ∀ effects : List (Effect κ), (∀ effect ∈ effects, Asks sent closed path effect) →
      (effects.filter Effect.handles).length ≤ 1 → Step sent closed items path 1
      ({ s with entry := none }, effects) :=
    fun effects hasks honce => ⟨h.removed rfl h.queued, hasks, (Nat.zero_add _).symm ▸ honce⟩
  have hclose : ∀ status, Step sent closed items path 1 ({ s with entry := none }, [.sendClose status]) :=
    fun status => hremoved _ (fun _ heffect => by rw [List.mem_singleton.mp heffect]; trivial)
      (Nat.zero_le _)
  rw [ServerStream.deliverServer]
  split
  · exact hremoved [] (List.forall_mem_nil _) (Nat.zero_le _)
  · have hpush :
        Collects sent closed { state with reorder := state.reorder.insert frame.seq.toNat frame } :=
      ⟨hcollects.pos, hcollects.buffered.insert hkind hcarries, hcollects.payload, hcollects.phase⟩
    obtain ⟨hcollected, hhandles⟩ := hpush.collect (state.reorder.insert frame.seq.toNat frame).len
    simp only
    generalize ServerStream.collect (state.reorder.insert frame.seq.toNat frame).len
      { state with reorder := state.reorder.insert frame.seq.toNat frame } = r at hcollected hhandles
    obtain ⟨state', effects⟩ := r
    cases state' with
    | none =>
      refine hremoved effects (fun effect heffect => ?_) (by rw [hhandles]; exact Nat.zero_le _)
      cases effect with
      | handle =>
        exact absurd (List.mem_filter.mpr ⟨heffect, rfl⟩) (by rw [hhandles]; exact List.not_mem_nil)
      | sendClose => trivial
    | some state' =>
      obtain ⟨hcollects', hmethod', hmetadata'⟩ := hcollected state' rfl
      simp only
      split
      · rename_i hdone
        split
        · exact hclose _
        · rename_i payload hpayload
          refine hremoved _ (fun effect heffect => ?_) (le_refl _)
          rw [List.mem_singleton.mp heffect]
          obtain ⟨-, hclosed, hlt⟩ := hcollects'.phase.resolve_left fun hc => by rw [hdone] at hc; cases hc.1
          refine ⟨hmethod'.trans hmethod, hmetadata'.trans hmetadata, hclosed, ?_⟩
          have hall := hcollects'.payload
          rw [hpayload, List.take_of_length_le (by omega)] at hall
          exact hall.symm
      · refine ⟨⟨h.queued, h.fresh, ?_⟩, List.forall_mem_nil _, le_refl _⟩
        rintro _ ⟨⟩
        exact ⟨hcollects', hmethod'.trans hmethod, hmetadata'.trans hmetadata⟩

/-- The frame that opens the stream. -/
theorem Delivers.deliverOpen {router : Router} {frame : StreamFrameWire κ}
    (h : Delivers sent closed items path s) (hmethod : frame.method = some path)
    (hmetadata : frame.metadata = []) :
    Step sent closed items path (waiting s.entry + 1) (s.deliverOpen router frame) := by
  have hempty : Buffered sent closed (BTreeMap.empty : BTreeMap Nat (StreamFrameWire κ)) := by
    rintro _ _ ⟨⟩
  -- a new request stream, from which nothing was read
  have hqueue : ∀ i, queueOf (s.requests.insert (.new 16)) i = queueOf s.requests i := fun i => by
    simp only [queueOf, Table.insert]
    split
    · rename_i heq
      rw [heq, s.requests.get_of_le _ le_rfl]
      rfl
    · rfl
  have hnew : ∀ (wrap : InboundState κ → ServerStreamState κ) kind, wrap = .client ∨ wrap = .bidi →
      Step sent closed items path (waiting s.entry + 1)
        (⟨some (wrap ⟨1, .empty, some s.requests.next⟩), s.requests.insert (.new 16)⟩,
          [.handle kind path frame.metadata (.inl s.requests.next)]) := fun wrap kind hwrap => by
    have hqueued : Queued sent items (s.requests.insert (.new 16)) :=
      fun i => by rw [hqueue]; exact h.queued i
    have hfollows : Follows sent closed items (s.requests.insert (.new 16))
        ⟨1, .empty, some s.requests.next⟩ := by
      refine ⟨Nat.one_pos, hempty, hqueued, ?_⟩
      rintro _ ⟨⟩
      refine ⟨Nat.le_add_left _ _, ?_, ?_⟩
      · simp only [Table.insert, if_true, Option.isSome_some]
      · rw [hqueue, h.fresh _ le_rfl, queueOf, s.requests.get_of_le _ le_rfl]
        rfl
    refine ⟨⟨hqueued, fun i hi => h.fresh i ((Nat.le_succ _).trans hi), ?_⟩, fun effect heffect => ?_, ?_⟩
    · rintro _ ⟨⟩
      rcases hwrap with rfl | rfl <;> exact hfollows
    · rw [List.mem_singleton.mp heffect]
      exact ⟨rfl, hmetadata, trivial⟩
    · have hwaiting : waiting (some (wrap ⟨1, .empty, some s.requests.next⟩)) = 0 := by
        rcases hwrap with rfl | rfl <;> rfl
      show waiting (some (wrap _)) + 1 ≤ _
      rw [hwaiting]
      exact Nat.add_le_add_right (Nat.zero_le _) 1
  have hsame : ∀ effects : List (Effect κ), (∀ effect ∈ effects, ∃ status, effect = .sendClose status) →
      Step sent closed items path (waiting s.entry + 1) (s, effects) := fun effects heffects => by
    refine ⟨h, fun effect heffect => ?_, ?_⟩
    · obtain ⟨status, rfl⟩ := heffects effect heffect
      trivial
    · have hnone : effects.filter Effect.handles = [] :=
        List.filter_eq_nil_iff.mpr fun effect heffect => by
        obtain ⟨status, rfl⟩ := heffects effect heffect
        exact Bool.false_ne_true
      rw [hnone]
      exact Nat.le_succ _
  rw [ServerStream.deliverOpen, hmethod]
  simp only
  split
  · exact hsame [] (List.forall_mem_nil _)
  · split
    · exact hnew .bidi .bidi (.inr rfl)
    · split
      · refine ⟨⟨h.queued, h.fresh, ?_⟩, List.forall_mem_nil _, Nat.le_add_left _ _⟩
        rintro _ ⟨⟩
        exact ⟨⟨Nat.one_pos, hempty, rfl, .inl ⟨rfl, Nat.le_add_left _ _⟩⟩, rfl, hmetadata⟩
      · split
        · exact hnew .client .client (.inl rfl)
        · exact hsame _ fun effect heffect => ⟨_, List.mem_singleton.mp heffect⟩

/-- Any frame of the client. -/
theorem Delivers.deliver {router : Router} {payload : List UInt8} {frame : StreamFrameWire κ}
    (h : Delivers sent closed items path s) (hframe : decodeStreamFrame payload = .ok frame)
    (hcarries : Carries sent closed frame)
    (hopen : frame.kind = .open → frame.method = some path ∧ frame.metadata = []) :
    Step sent closed items path (waiting s.entry + opens frame) (s.deliver router payload) := by
  have hnothing : ∀ budget, waiting s.entry ≤ budget → Step sent closed items path budget (s, []) :=
    fun _ hle => ⟨h, List.forall_mem_nil _, hle⟩
  rw [ServerStream.deliver, hframe]
  simp only
  split
  · exact hnothing _ (Nat.le_add_right _ _)
  · split
    · rename_i hkind
      rw [opens, if_pos hkind]
      exact h.deliverOpen (hopen hkind).1 (hopen hkind).2
    · rename_i hkind
      split
      · exact hnothing _ (Nat.le_add_right _ _)
      · rename_i state hentry
        obtain ⟨hdelivers, hwaiting⟩ := h.deliverInbound (.inl rfl) (h.entry _ hentry) hkind hcarries
        exact ⟨hdelivers, List.forall_mem_nil _, hwaiting.le.trans (Nat.zero_le _)⟩
      · rename_i state hentry
        obtain ⟨hdelivers, hwaiting⟩ := h.deliverInbound (.inr rfl) (h.entry _ hentry) hkind hcarries
        exact ⟨hdelivers, List.forall_mem_nil _, hwaiting.le.trans (Nat.zero_le _)⟩
      · rename_i state hentry
        obtain ⟨hcollects, hmethod, hmetadata⟩ := h.entry _ hentry
        rw [hentry, opens, if_neg hkind]
        exact h.deliverServer hcollects hmethod hmetadata hkind hcarries

/-! ## Any operation -/

variable {answers : List (Output κ)} {o : Output κ}

omit [TonicCode κ] in
theorem readFrom_snoc (i : Nat) : readFrom i (answers ++ [o]) = readFrom i answers ++ readFrom i [o] :=
  List.filterMap_append

omit [TonicCode κ] in
theorem calls_snoc : calls (answers ++ [o]) = calls answers ++ calls [o] := List.flatMap_append

omit [TonicCode κ] in
theorem readFrom_received (waker : ω) :
    readFrom i [.received i (channel.recv waker).2.2] ++ (channel.recv waker).1.queue =
      channel.queue := by
  rw [Mpsc.State.recv]
  cases hqueue : channel.queue with
  | nil =>
    simp only
    split
    · exact hqueue
    · rfl
  | cons item queue =>
    show readFrom i [.received i (.ready (some item))] ++ queue = item :: queue
    simp [readFrom]

omit [TonicCode κ] in
theorem readFrom_of_ne (hj : j ≠ i) (item : Poll (Option (Item κ))) :
    readFrom j [.received i item] = [] := by
  cases item with
  | pending => rfl
  | ready item =>
    cases item with
    | none => rfl
    | some item => simp [readFrom, hj.symm]

omit [TonicCode κ] in
/-- What is read of a request stream has waited there. -/
theorem Delivers.set (h : Delivers sent closed (readFrom · answers) path s)
    (hget : s.requests.get i = some channel)
    (hread : readFrom i [o] ++ channel'.queue = channel.queue)
    (hother : ∀ j, j ≠ i → readFrom j [o] = []) :
    Delivers sent closed (readFrom · (answers ++ [o])) path
      { s with requests := s.requests.set i channel' } := by
  have hitems : ∀ j, readFrom j (answers ++ [o]) ++ queueOf (s.requests.set i channel') j =
      readFrom j answers ++ queueOf s.requests j := fun j => by
    rw [readFrom_snoc, queueOf_set hget]
    by_cases hj : j = i
    · have hqueue : queueOf s.requests i = channel.queue := by rw [queueOf, hget]; rfl
      rw [if_pos hj, hj, hqueue, List.append_assoc, hread]
    · rw [if_neg hj, hother j hj, List.append_nil]
  have hqueued : Queued sent (readFrom · (answers ++ [o])) (s.requests.set i channel') := fun j => by
    rw [hitems]
    exact h.queued j
  have hfollows : ∀ state, Follows sent closed (readFrom · answers) s.requests state →
      Follows sent closed (readFrom · (answers ++ [o])) (s.requests.set i channel') state :=
      fun state hfollows => by
    refine ⟨hfollows.pos, hfollows.buffered, hqueued, fun j hj => ?_⟩
    obtain ⟨hle, hsome, hread⟩ := hfollows.open_ j hj
    refine ⟨hle, ?_, (hitems j).trans hread⟩
    simp only [Table.set]
    split
    · rw [hget]
      rfl
    · exact hsome
  refine ⟨hqueued, fun j hj => ?_, fun entry hentry => ?_⟩
  · have hj : s.requests.next ≤ j := hj
    have hne : j ≠ i := (Table.lt_next hget |>.trans_le hj).ne'
    show readFrom j (answers ++ [o]) = []
    rw [readFrom_snoc, hother j hne, h.fresh j hj]
    rfl
  · have hknows := h.entry entry hentry
    cases entry with
    | client state => exact hfollows state hknows
    | bidi state => exact hfollows state hknows
    | server state => exact hknows

/-- A handler polls a request stream, or drops it. -/
theorem Delivers.other {router : Router} {op : Op ω}
    (h : Delivers sent closed (readFrom · answers) path s) (hstep : step router s op = some (s', o))
    (hop : ∀ payload, op ≠ .deliver payload) :
    Delivers sent closed (readFrom · (answers ++ [o])) path s' ∧ s'.entry = s.entry ∧ calls [o] = [] := by
  cases op with
  | deliver payload => exact absurd rfl (hop payload)
  | next i waker =>
    obtain ⟨channel, hget, hstep⟩ := Option.bind_eq_some_iff.mp hstep
    split at hstep
    · cases hstep
      exact ⟨h.set hget (readFrom_received waker) fun j hj => readFrom_of_ne hj _, rfl, rfl⟩
    · cases hstep
  | drop i =>
    obtain ⟨channel, hget, hstep⟩ := Option.bind_eq_some_iff.mp hstep
    split at hstep
    · cases hstep
      exact ⟨h.set hget rfl fun _ _ => rfl, rfl, rfl⟩
    · cases hstep

end ServerStream

/-! ## A call -/

namespace StreamingRpc

open ServerStream (Delivers Asks calls readFrom waiting opens calls_snoc readFrom_snoc)

/-- The payloads that the client has sent. -/
def sentBy (call : StreamingCall) (ops : List (Op ω)) : List (List UInt8) :=
  (if call.kind = .server then [call.request] else []) ++ ops.filterMap fun
    | .forward payload => some payload
    | _ => none

/-- What holds of a call, whose client has sent the payloads. -/
structure Calling (call : StreamingCall) (sent : List (List UInt8)) [TonicCode κ] (s : StreamingRpc κ ω)
    (answers : List (ServerStream.Output κ)) : Prop where
  frames : ∀ i frame, s.frames.get i = some frame → Carries sent (!s.forwards) frame ∧ frame.WellFormed ∧
    (frame.kind = .open → frame.method = some call.path ∧ frame.metadata = [])
  seq : s.forwards = true → s.seq.toNat = sent.length + 1
  delivers : Delivers sent (!s.forwards) (readFrom · answers) call.path s.server
  asks : ∀ effect ∈ calls answers, Asks sent (!s.forwards) call.path effect
  once : s.frames.total opens + waiting s.server.entry + (calls answers).length ≤ 1

/-- A handler is called at most once, for the path of the call and with what the client has sent, and
it reads the payloads from the first one on, in their order. -/
structure Delivered (call : StreamingCall) (sent : List (List UInt8))
    (answers : List (ServerStream.Output κ)) : Prop where
  once : (calls answers).length ≤ 1
  asked : ∀ kind method metadata request, .handle kind method metadata request ∈ calls answers →
    method = call.path ∧ metadata = [] ∧ ∀ payload, request = .inr payload → sent = [payload]
  inOrder : ∀ i, readFrom i answers <+: sent.map .ok

variable [TonicCode κ] {call : StreamingCall} {sent sent' : List (List UInt8)} {router : Router} {s s' : StreamingRpc κ ω}
  {answers : List (ServerStream.Output κ)} {o : ServerStream.Output κ}

theorem wellFormed_openFrame (hpath : FitsString call.path) :
    (call.openFrame : StreamFrameWire κ).WellFormed :=
  ⟨⟨fun _ => rfl, fun _ => rfl⟩, fun _ => ⟨rfl, rfl, rfl⟩, call.streamId.fits,
    by rintro _ ⟨⟩; exact hpath,
    (by decide : FitsKv []), Nat.two_pow_pos 32, (by decide : FitsString [])⟩

theorem wellFormed_dataFrame {seq : UInt64} {payload : List UInt8} (hfits : payload.length < 2 ^ 32) :
    (call.dataFrame seq payload : StreamFrameWire κ).WellFormed :=
  ⟨⟨nofun, nofun⟩, fun _ => ⟨rfl, rfl, rfl⟩, call.streamId.fits, by rintro _ ⟨⟩,
    (by decide : FitsKv []), hfits, (by decide : FitsString [])⟩

theorem wellFormed_closeFrame {seq : UInt64} : (call.closeFrame seq : StreamFrameWire κ).WellFormed :=
  ⟨⟨nofun, nofun⟩, fun _ => ⟨rfl, rfl, rfl⟩, call.streamId.fits, by rintro _ ⟨⟩,
    (by decide : FitsKv []), Nat.two_pow_pos 32, (by decide : FitsString [])⟩

theorem wellFormed_cancelFrame : (call.cancelFrame : StreamFrameWire κ).WellFormed := by
  refine ⟨⟨nofun, nofun⟩, ?_, call.streamId.fits, by rintro _ ⟨⟩,
    (by decide : FitsKv []), Nat.two_pow_pos 32, (by decide : FitsString "deadline exceeded".toList)⟩
  rintro (hkind | hkind) <;> cases hkind

theorem carries_openFrame {closed : Bool} : Carries sent closed (call.openFrame : StreamFrameWire κ) := by
  refine ⟨?_, ?_, ?_⟩ <;> rintro ⟨⟩

theorem carries_dataFrame {closed : Bool} {i : Nat} {seq : UInt64} {payload : List UInt8}
    (hseq : seq.toNat = i + 1) (hpayload : sent[i]? = some payload) :
    Carries sent closed (call.dataFrame seq payload : StreamFrameWire κ) := by
  refine ⟨fun _ => ⟨i, hseq, hpayload⟩, ?_, ?_⟩ <;> rintro ⟨⟩

theorem carries_closeFrame {seq : UInt64} (hseq : seq.toNat = sent.length + 1) :
    Carries sent true (call.closeFrame seq : StreamFrameWire κ) := by
  refine ⟨?_, fun _ => ⟨rfl, hseq⟩, ?_⟩ <;> rintro ⟨⟩

theorem carries_cancelFrame {closed : Bool} :
    Carries sent closed (call.cancelFrame : StreamFrameWire κ) := by
  refine ⟨?_, ?_, fun _ => rfl⟩ <;> rintro ⟨⟩

/-- A frame that does not open the stream is sent, and the client may have gone on. -/
theorem Calling.sends {forwards : Bool} {seq : UInt64} {pending : Bool} {timeout : Timeout}
    {frame : StreamFrameWire κ} (h : Calling call sent s answers)
    (hgrows : s.forwards = true ∧ sent <+: sent' ∨ s.forwards = forwards ∧ sent = sent')
    (hseq : forwards = true → seq.toNat = sent'.length + 1) (hkind : frame.kind ≠ .open)
    (hcarries : Carries sent' (!forwards) frame) (hframe : frame.WellFormed)
    (ho : calls [o] = [] ∧ ∀ i, readFrom i [o] = []) :
    Calling call sent' (⟨seq, forwards, pending, timeout, s.frames.insert frame,
      s.server⟩ : StreamingRpc κ ω)
      (answers ++ [o]) := by
  have hread : (readFrom · (answers ++ [o])) = (readFrom · answers) := funext fun i => by
    rw [readFrom_snoc, ho.2, List.append_nil]
  have hcalls : calls (answers ++ [o]) = calls answers := by rw [calls_snoc, ho.1, List.append_nil]
  have hold : (∀ i frame, s.frames.get i = some frame → Carries sent' (!forwards) frame) ∧
      Delivers sent' (!forwards) (readFrom · answers) call.path s.server ∧
      ∀ effect ∈ calls answers, Asks sent' (!forwards) call.path effect := by
    have hframes := fun i frame hget => (h.frames i frame hget).1
    have hdelivers := h.delivers
    have hasks := h.asks
    rcases hgrows with ⟨hopen, hsent⟩ | ⟨rfl, rfl⟩
    · rw [hopen] at hframes hdelivers hasks
      exact ⟨fun i frame hget => (hframes i frame hget).mono hsent, hdelivers.mono hsent,
        fun effect heffect =>
        (hasks effect heffect).mono⟩
    · exact ⟨hframes, hdelivers, hasks⟩
  refine ⟨fun i other hget => ?_, hseq, hread ▸ hold.2.1, hcalls ▸ hold.2.2, ?_⟩
  · rcases Table.get_insert_eq_some.mp hget with ⟨rfl, rfl⟩ | hget
    · exact ⟨hcarries, hframe, fun hopen => absurd hopen hkind⟩
    · exact ⟨hold.1 i other hget, (h.frames i other hget).2⟩
  · have honce := h.once
    rw [hcalls]
    show (s.frames.insert frame).total opens + _ + _ ≤ 1
    rw [Table.total_insert, opens, if_neg hkind]
    exact honce

/-- Nothing is sent. -/
theorem Calling.same (h : Calling call sent s answers)
    (hframes : ∀ i frame, s'.frames.get i = some frame → s.frames.get i = some frame)
    (hforwards : s'.forwards = s.forwards) (hseq : s'.seq = s.seq)
    (hdelivers : Delivers sent (!s.forwards) (readFrom · (answers ++ [o])) call.path s'.server)
    (hasks : ∀ effect ∈ calls [o], Asks sent (!s.forwards) call.path effect)
    (honce : s'.frames.total opens + waiting s'.server.entry + (calls [o]).length ≤
      s.frames.total opens + waiting s.server.entry) :
    Calling call sent s' (answers ++ [o]) := by
  refine ⟨fun i frame hget => hforwards ▸ h.frames i frame (hframes i frame hget),
    fun hf => hseq ▸ h.seq (hforwards ▸ hf), hforwards ▸ hdelivers, fun effect heffect => ?_, ?_⟩
  · rw [calls_snoc] at heffect
    rw [hforwards]
    exact (List.mem_append.mp heffect).elim (h.asks effect) (hasks effect)
  · have := h.once
    rw [calls_snoc, List.length_append]
    omega

theorem Calling.idle (h : Calling call sent s answers) (hframes : s'.frames = s.frames)
    (hforwards : s'.forwards = s.forwards) (hseq : s'.seq = s.seq)
    (hserver : s'.server = s.server) : Calling call sent s' (answers ++ [.done]) := by
  have hread : (readFrom · (answers ++ [.done])) = (readFrom · answers) := funext fun i => by
    rw [readFrom_snoc]
    exact List.append_nil _
  refine h.same (fun i frame hget => hframes ▸ hget) hforwards hseq ?_ (List.forall_mem_nil _) ?_
  · rw [hread, hserver]
    exact h.delivers
  · rw [hframes, hserver]
    exact le_rfl

/-- The client gives up: a frame is sent that the stream of the server never takes out of its buffer. -/
theorem Calling.cancels {pending : Bool} {timeout : Timeout} (h : Calling call sent s answers) :
    Calling call sent ({ s with pending, timeout }.sendRpcStreamFrame call.cancelFrame : StreamingRpc κ ω)
      (answers ++ [.done]) :=
  h.sends (.inr ⟨rfl, rfl⟩) h.seq (by rintro ⟨⟩) carries_cancelFrame wellFormed_cancelFrame
    ⟨rfl, fun _ => rfl⟩

variable [LawfulTonicCode κ]

omit [LawfulTonicCode κ] in
theorem Calling.serve {op : ServerStream.Op ω} (h : Calling call sent s answers)
    (hstep : s.serve router op = some (s', o)) (hop : ∀ payload, op ≠ .deliver payload) :
    Calling call sent s' (answers ++ [o]) := by
  obtain ⟨⟨server, output⟩, hserver, heq⟩ := Option.map_eq_some_iff.mp hstep
  cases heq
  obtain ⟨hdelivers, hentry, hcalls⟩ := h.delivers.other hserver hop
  refine h.same (fun _ _ hget => hget) rfl rfl hdelivers (by rw [hcalls]; exact List.forall_mem_nil _) ?_
  rw [hcalls, hentry]
  exact le_rfl

/-- A frame arrives at the server. -/
theorem Calling.deliver {i : Nat} (h : Calling call sent s answers)
    (hstep : step call router s (.deliver i) = some (s', o)) :
    Calling call sent s' (answers ++ [o]) := by
  obtain ⟨frame, hget, hserve⟩ := Option.bind_eq_some_iff.mp hstep
  obtain ⟨⟨server, output⟩, hserver, heq⟩ := Option.map_eq_some_iff.mp hserve
  obtain ⟨hcarries, hframe, hopen⟩ := h.frames i frame hget
  have hdelivered : ServerStream.Step sent (!s.forwards) (readFrom · answers) call.path
      (waiting s.server.entry + opens frame)
        (s.server.deliver router (encodeStreamFrame frame)) :=
      h.delivers.deliver (decode_streamFrame hframe) hcarries hopen
  obtain ⟨rfl, rfl⟩ : (s.server.deliver router (encodeStreamFrame frame)).1 = server ∧
      .delivered (decodeStreamFrame (encodeStreamFrame frame))
        (s.server.deliver router (encodeStreamFrame frame)).2 = output :=
    Prod.mk.inj (Option.some.inj hserver)
  cases heq
  generalize s.server.deliver router (encodeStreamFrame frame) = r at hdelivered
  have hread :
      ∀ effects, (readFrom · (answers ++ [.delivered
        (decodeStreamFrame (encodeStreamFrame frame) : Except (Status κ) _) effects])) =
      (readFrom · answers) := fun effects => funext fun i => by
    rw [readFrom_snoc]
    exact List.append_nil _
  have hcalls :
      ∀ effects, calls [.delivered (decodeStreamFrame (encodeStreamFrame frame) : Except
        (Status κ) _) effects] =
      effects.filter ServerStream.Effect.handles := fun effects => List.append_nil _
  refine h.same (fun j other hj => (Table.get_erase_eq_some.mp hj).2) rfl rfl ?_ ?_ ?_
  · rw [hread]
    exact hdelivered.delivers
  · rw [hcalls]
    exact fun effect heffect => hdelivered.asks effect (List.mem_filter.mp heffect).1
  · have htotal := Table.total_erase (f := opens) hget
    have honce := hdelivered.once
    rw [hcalls]
    show (s.frames.erase i).total opens + waiting r.1.entry + _ ≤ _
    omega

/-- Any operation of a client that has numbers left for its frames. -/
theorem Calling.step {op : Op ω} {ops : List (Op ω)} (h : Calling call (sentBy call ops) s answers)
    (hstep : step call router s op = some (s', o))
    (hfits : ∀ payload ∈ sentBy call (ops ++ [op]), payload.length < 2 ^ 32)
    (hnumbers : (sentBy call (ops ++ [op])).length + 1 < 2 ^ 64) :
    Calling call (sentBy call (ops ++ [op])) s' (answers ++ [o]) := by
  have hsent : ∀ op : Op ω, (∀ payload, op ≠ .forward payload) →
      sentBy call (ops ++ [op]) = sentBy call ops := fun op hop => by
    cases op with
    | forward payload => exact absurd rfl (hop payload)
    | _ => simp [sentBy]
  cases op with
  | forward payload =>
    simp only [StreamingRpc.step] at hstep
    split at hstep
    · rename_i hforwards
      cases hstep
      have hforward : sentBy call (ops ++ [.forward payload]) = sentBy call ops ++ [payload] := by
        simp [sentBy]
      rw [hforward, List.length_append, List.length_singleton] at hnumbers
      have hpayload : payload.length < 2 ^ 32 := hfits payload
        (by rw [hforward]; exact List.mem_append_right _ List.mem_cons_self)
      have hseq := h.seq hforwards
      rw [hforward]
      refine h.sends (.inl ⟨hforwards, List.prefix_append _ _⟩) (fun _ => ?_) (by rintro ⟨⟩)
        (carries_dataFrame hseq ?_)
        (wellFormed_dataFrame hpayload) ⟨rfl, fun _ => rfl⟩
      · rw [UInt64.toNat_add, hseq, List.length_append]
        exact Nat.mod_eq_of_lt (by simpa using hnumbers)
      · exact List.getElem?_concat_length
    · cases hstep
  | finish =>
    simp only [StreamingRpc.step] at hstep
    split at hstep
    · rename_i hforwards
      cases hstep
      rw [hsent _ (by rintro _ ⟨⟩)]
      exact h.sends (.inl ⟨hforwards, List.prefix_refl _⟩) (by rintro ⟨⟩) (by rintro ⟨⟩)
        (carries_closeFrame (h.seq hforwards)) wellFormed_closeFrame ⟨rfl, fun _ => rfl⟩
    · cases hstep
  | settle =>
    cases hstep
    rw [hsent _ (by rintro _ ⟨⟩)]
    exact h.idle rfl rfl rfl rfl
  | timeout =>
    simp only [StreamingRpc.step] at hstep
    split at hstep
    · cases hstep
      rw [hsent _ (by rintro _ ⟨⟩), elapse]
      split
      · cases call.kind with
        | client => exact h.cancels
        | server => exact h.idle rfl rfl rfl rfl
        | bidi => exact h.idle rfl rfl rfl rfl
      · exact h.idle rfl rfl rfl rfl
    · cases hstep
  | cancel =>
    simp only [StreamingRpc.step] at hstep
    split at hstep
    · cases hstep
      rw [hsent _ (by rintro _ ⟨⟩)]
      exact h.cancels
    · cases hstep
  | deliver i =>
    rw [hsent _ (by rintro _ ⟨⟩)]
    exact h.deliver hstep
  | lose i =>
    obtain ⟨frame, hget, heq⟩ := Option.map_eq_some_iff.mp hstep
    cases heq
    rw [hsent _ (by rintro _ ⟨⟩)]
    have hread : (readFrom · (answers ++ [.done])) = (readFrom · answers) := funext fun i => by
      rw [readFrom_snoc]
      exact List.append_nil _
    refine h.same (fun j other hj => (Table.get_erase_eq_some.mp hj).2) rfl rfl ?_
      (List.forall_mem_nil _) ?_
    · rw [hread]
      exact h.delivers
    · have htotal := Table.total_erase (f := opens) hget
      show (s.frames.erase i).total opens + waiting s.server.entry + 0 ≤ _
      omega
  | next i waker =>
    rw [hsent _ (by rintro _ ⟨⟩)]
    exact h.serve hstep (by rintro _ ⟨⟩)
  | drop i =>
    rw [hsent _ (by rintro _ ⟨⟩)]
    exact h.serve hstep (by rintro _ ⟨⟩)

omit [LawfulTonicCode κ] in
theorem calling_start (hpath : FitsString call.path)
    (hrequest : call.request.length < 2 ^ 32 ∨ call.kind ≠ .server) :
    Calling call (sentBy call ([] : List (Op ω))) (start call : StreamingRpc κ ω) [] := by
  have hdelivers : ∀ (sent : List (List UInt8)) closed,
      Delivers sent closed (readFrom · []) call.path (.new : ServerStream κ ω) :=
    fun sent closed => ⟨fun i => List.nil_prefix, fun _ _ => rfl, by rintro _ ⟨⟩⟩
  have hfirst : ∀ (table : Table (StreamFrameWire κ)), table = Table.empty.insert call.openFrame →
      ∀ sent closed i frame,
        table.get i = some frame → Carries sent closed frame ∧ frame.WellFormed ∧
          (frame.kind = .open → frame.method = some call.path ∧ frame.metadata = []) := by
    rintro _ rfl sent closed i frame hget
    rcases Table.get_insert_eq_some.mp hget with ⟨-, rfl⟩ | hget
    · exact ⟨carries_openFrame, wellFormed_openFrame hpath, fun _ => ⟨rfl, rfl⟩⟩
    · cases hget
  rw [start, sentBy]
  cases hkind : call.kind with
  | client => exact ⟨hfirst _ rfl _ _, fun _ => rfl, hdelivers _ _, List.forall_mem_nil _, le_rfl⟩
  | bidi => exact ⟨hfirst _ rfl _ _, fun _ => rfl, hdelivers _ _, List.forall_mem_nil _, le_rfl⟩
  | server =>
    refine ⟨fun i frame hget => ?_, by rintro ⟨⟩, hdelivers _ _, List.forall_mem_nil _, le_rfl⟩
    rcases Table.get_insert_eq_some.mp hget with ⟨-, rfl⟩ | hget
    · exact ⟨carries_closeFrame rfl, wellFormed_closeFrame, by rintro ⟨⟩⟩
    rcases Table.get_insert_eq_some.mp hget with ⟨-, rfl⟩ | hget
    · have hrequest := hrequest.resolve_right (not_not_intro hkind)
      exact ⟨carries_dataFrame (i := 0) rfl rfl, wellFormed_dataFrame hrequest, by rintro ⟨⟩⟩
    · exact hfirst _ rfl _ _ i frame hget

omit [TonicCode κ] [LawfulTonicCode κ] in
theorem Calling.delivered [TonicCode κ] (h : Calling call sent s answers) :
    Delivered call sent answers := by
  refine ⟨(Nat.le_add_left _ _).trans h.once, fun kind method metadata request hcall => ?_, fun i => ?_⟩
  · obtain ⟨hmethod, hmetadata, hrequest⟩ := h.asks _ hcall
    refine ⟨hmethod, hmetadata, ?_⟩
    rintro payload rfl
    exact hrequest.2
  · exact (List.prefix_append _ _).trans (h.delivers.queued i)

/-- Any run of a call: frames that are late, in any order or lost, streams that overflow, and a
timeout at any moment. -/
theorem run_streamed {ops : List (Op ω)} (hpath : FitsString call.path)
    (hfits : ∀ payload ∈ sentBy call ops, payload.length < 2 ^ 32)
    (hnumbers : (sentBy call ops).length + 1 < 2 ^ 64)
    (hrun : Machine.run (step call router) (start call : StreamingRpc κ ω) ops = some (s, answers)) :
    Delivered call (sentBy call ops) answers := by
  have hstart : call.request.length < 2 ^ 32 ∨ call.kind ≠ .server := by
    by_cases hkind : call.kind = .server
    · exact .inl (hfits _ (by simp [sentBy, hkind]))
    · exact .inr hkind
  have halong : Machine.Along (fun _ _ => True) (step call router) (start call : StreamingRpc κ ω) ops :=
    Machine.along_of_forall fun _ _ => trivial
  have h := halong.trace
    (P := fun s ops answers => (∀ payload ∈ sentBy call ops, payload.length < 2 ^ 32) →
      (sentBy call ops).length + 1 < 2 ^ 64 →
      Calling (κ := κ) call (sentBy call ops) s answers)
    (fun s op u o ops answers h _ hstep hfits hnumbers => ?_) [] []
      (fun _ _ => calling_start hpath hstart) hrun
  · exact (h hfits hnumbers).delivered
  · have hsent : sentBy call ops <+: sentBy call (ops ++ [op]) := by
      rw [sentBy, sentBy, List.filterMap_append, ← List.append_assoc]
      exact List.prefix_append _ _
    have hlength := hsent.length_le
    exact (h (fun payload hmem => hfits payload (hsent.subset hmem)) (by omega)).step hstep hfits hnumbers

/-- The second of three payloads is lost, the third one overtakes the others, and the call times out. -/
def lossy : List (Op Nat) :=
  [.forward [1], .forward [2], .forward [3], .deliver 3, .deliver 0, .deliver 1, .lose 2,
  .timeout, .cancel, .deliver 4, .next 0 0, .next 0 0]

theorem run_streamed_lossy :
    ∃ (s : StreamingRpc GrpcCode Nat) (answers : List (ServerStream.Output GrpcCode)),
    Machine.run (step (callOf .bidi) (routerFor .bidi)) (start (callOf .bidi)) lossy = some (s, answers) ∧
      readFrom 0 answers = [.ok [1]] ∧ Delivered (callOf .bidi) [[1], [2], [3]] answers := by
  have hrun :
      (Machine.run (step (callOf .bidi) (routerFor .bidi))
        (start (callOf .bidi) : StreamingRpc GrpcCode Nat) lossy).map
      (fun r => readFrom 0 r.2) = some [.ok [1]] := by
    decide +kernel
  obtain ⟨⟨s, answers⟩, hrun, hread⟩ := Option.map_eq_some_iff.mp hrun
  have hsent : sentBy (callOf .bidi) lossy = [[1], [2], [3]] := rfl
  exact ⟨s, answers, hrun, hread, hsent ▸ run_streamed (by decide) (by rw [hsent]; decide)
    (by rw [hsent]; decide) hrun⟩

end StreamingRpc

end DesCartes.Tonic
