import DesCartes.Framework.Work
import DesCartes.Proof.Assembly
import Mathlib.Algebra.BigOperators.Group.Finset.Basic

/-!
# Simulations that come to an end

Each event for a component has a weight (`W`), and each component holds something back (`V`). Where a
component that processes an event pays for that and for the events that it sends with the weight of the
event and with what it holds back (`Pays`), what the components process is no more than was paid for from
outside, and after as many pops no event is left (`Assembly.Standing.run_ended`).
-/

namespace DesCartes

variable {κ ε τ ρ φ μ : Type}

/-- What an event weighs, if it is for a component. -/
def EventEntry.weight (W : Uuid → ε → Nat) (e : EventEntry ε) : Nat := e.posted.elim 0 fun x => W x.1 x.2

/-- What an operation brings in. -/
def Op.weight (W : Uuid → ε → Nat) (op : Op ε τ ρ φ) : Nat := op.posted.elim 0 fun x => W x.1 x.2

/-- A pop of either kind. -/
def Op.Pops : Op ε τ ρ φ → Prop
  | .pop | .popWithPolicy _ => True
  | _ => False

/-- The operations that only feed a simulation, with events that are expected, and run it. -/
def Op.Feeds (I : Uuid → ε → Prop) : Op ε τ ρ φ → Prop
  | .schedule _ key event => I key event
  | .pop | .popWithPolicy _ => True
  | _ => False

/-- What the events weigh that are sent. -/
def Send.total (W : Uuid → ε → Nat) (sends : List (Send ε)) : Nat :=
  (sends.map fun send => W send.target send.event).sum

namespace Session

/-- What the events weigh that have not been popped. -/
def load (W : Uuid → ε → Nat) (r : Session ε τ ρ) : Nat := (r.heap.map (EventEntry.weight W)).sum

variable {W : Uuid → ε → Nat} {r r' : Session ε τ ρ} {op : Op ε τ ρ φ} {o : Answer ε}

theorem weight_of_task {e : EventEntry ε} (h : e.taskId ≠ none) : e.weight W = 0 := by
  cases e with
  | component i t key event => exact absurd rfl h
  | task i t id => rfl

theorem weight_scheduled [EventFrontierPolicy φ] (h : r.step op = some (r', o)) :
    (o.scheduled?.map (EventEntry.weight W)).getD 0 = op.weight W := by
  rw [Op.weight, ← posted_scheduled h]
  cases o.scheduled? <;> rfl

/-- What an operation does to the load. -/
theorem load_step [EventFrontierPolicy φ] (h : r.step op = some (r', o)) :
    op.weight W + r.load W = (o.popped?.map (EventEntry.weight W)).getD 0 + r'.load W := by
  obtain ⟨d, hd, hperm⟩ := (effect h).perm
  have hopt : ∀ x : Option (EventEntry ε),
      (x.toList.map (EventEntry.weight W)).sum = (x.map (EventEntry.weight W)).getD 0 := by
    rintro (_ | e) <;> simp
  have hzero : (d.map (EventEntry.weight W)).sum = 0 :=
    List.sum_eq_zero fun n hn => by
      obtain ⟨e, he, rfl⟩ := List.mem_map.mp hn
      exact weight_of_task (hd e he)
  have hsum := (hperm.map (EventEntry.weight W)).sum_eq
  rw [List.map_append, List.map_append, List.map_append, List.sum_append, List.sum_append,
    List.sum_append, hzero, hopt, hopt, weight_scheduled h, Nat.zero_add] at hsum
  exact hsum

/-- The events that are sent are added to the heap. -/
theorem heap_sendAll {sends : List (Send ε)} (h : r.sendAll sends = some r') :
    ∃ new : List (EventEntry ε), new.map EventEntry.posted =
      sends.map (fun send => some (send.target, send.event)) ∧
      r'.heap.Perm (new ++ r.heap) ∧
      r'.scheduler.nextEventId = r.scheduler.nextEventId + sends.length := by
  induction sends generalizing r with
  | nil =>
    rw [← Option.some.inj h]
    exact ⟨[], rfl, .refl _, rfl⟩
  | cons send sends ih =>
    simp only [sendAll] at h
    split at h
    · obtain ⟨new, hnew, hperm, hcount⟩ := ih h
      refine ⟨r.scheduler.scheduledEvent send.delay send.target send.event :: new, ?_, ?_, ?_⟩
      · rw [List.map_cons, List.map_cons, hnew]
        rfl
      · have hpush := BinaryHeap.push_perm r.scheduler.events
          (r.scheduler.scheduledEvent send.delay send.target send.event)
        exact (hperm.trans (hpush.append_left new)).trans List.perm_middle
      · rw [hcount, List.length_cons]
        show r.scheduler.nextEventId + 1 + sends.length = _
        omega
    · cases h

theorem load_of_perm {new : List (EventEntry ε)} {sends : List (Send ε)}
    (hnew : new.map EventEntry.posted = sends.map (fun send => some (send.target, send.event)))
    (hperm : r'.heap.Perm (new ++ r.heap)) : r'.load W = Send.total W sends + r.load W := by
  have hweight : ∀ l : List (EventEntry ε), (l.map (EventEntry.weight W)).sum =
      ((l.map EventEntry.posted).map fun x => x.elim 0 fun x => W x.1 x.2).sum := by
    intro l
    rw [List.map_map]
    rfl
  rw [load, (hperm.map _).sum_eq, List.map_append, List.sum_append, hweight new, hnew, List.map_map]
  rfl

/-- There is room for the numbers of the events that are sent. -/
theorem sendAll_isSome {sends : List (Send ε)}
    (h : r.scheduler.nextEventId + sends.length ≤ u64Max) : ∃ r', r.sendAll sends = some r' := by
  induction sends generalizing r with
  | nil => exact ⟨r, rfl⟩
  | cons send sends ih =>
    rw [List.length_cons] at h
    simp only [sendAll, if_pos (show r.scheduler.nextEventId < u64Max by omega)]
    refine ih ?_
    show r.scheduler.nextEventId + 1 + sends.length ≤ u64Max
    omega

/-! ## Events that are all for components -/

/-- A pop takes an event, where all are for components; where there is none, it finds none. -/
theorem heap_popped [EventFrontierPolicy φ] {popped : Option (EventEntry ε)}
    (h : r.step op = some (r', .popped popped)) (hposted : ∀ e ∈ r.heap, e.posted ≠ none) :
    r.heap.Perm (popped.toList ++ r'.heap) ∧
      r'.scheduler.nextEventId = r.scheduler.nextEventId := by
  have heffect := effect h
  obtain ⟨d, hd, hperm⟩ := heffect.perm
  have hnil : d = [] := by
    refine List.eq_nil_iff_forall_not_mem.mpr fun e he => ?_
    have hmem : e ∈ r.heap := hperm.mem_iff.mpr (List.mem_append_left _ (List.mem_append_left _ he))
    cases e with
    | component i t key event => exact hd _ he rfl
    | task i t id => exact hposted _ hmem rfl
  rw [hnil] at hperm
  exact ⟨hperm, heffect.counter⟩

/-- A pop of either kind. -/
theorem step_pop [EventFrontierPolicy φ] (r : Session ε τ ρ) {op : Op ε τ ρ φ} (hop : op.Pops) :
    ∃ r' popped, r.step op = some (r', .popped popped) ∧ (popped = none → r'.heap = []) := by
  have hnil : ∀ s' : Scheduler ε τ ρ, r.scheduler.PoppedBy s' none → s'.events.toList = [] :=
    fun s' ⟨_, h⟩ => h.nil
  cases op with
  | pop =>
    refine ⟨{ r with scheduler := r.scheduler.pop.2 }, r.scheduler.pop.1, rfl, fun hn => hnil _ ?_⟩
    rw [← hn]
    exact Scheduler.pop_poppedBy r.scheduler
  | popWithPolicy policy =>
    refine ⟨{ r with scheduler := (r.scheduler.popWithPolicy policy).2.1 },
      (r.scheduler.popWithPolicy policy).1, rfl, fun hn => hnil _ ?_⟩
    rw [← hn]
    exact Scheduler.popWithPolicy_poppedBy r.scheduler policy
  | _ => exact hop.elim

end Session

namespace Assembly

/-- What the component with the key holds back. -/
def held (V : κ → Nat) (a : Assembly κ ε τ ρ) (key : Uuid) : Nat := (a.components key).elim 0 V

/-- What is left to do is paid for with `n`. -/
def Funded (W : Uuid → ε → Nat) (V : κ → Nat) (a : Assembly κ ε τ ρ) (n : Nat) : Prop :=
  ∃ keys : Finset Uuid, (∀ key ∉ keys, a.held V key = 0) ∧
    a.session.load W + ∑ key ∈ keys, a.held V key ≤ n

/-- A component that is as it should be (`Q`) and gets an event that it expects (`I`) does not panic and
sends only what is expected, and it pays for that. -/
structure Pays (code : ComponentCode κ ε μ) (W : Uuid → ε → Nat) (V : κ → Nat) (I : Uuid → ε → Prop)
    (Q : Uuid → κ → Prop) : Prop where
  positive : ∀ key e, I key e → 1 ≤ W key e
  processEvent : ∀ key k e now, Q key k → I key e →
    ∃ k' sends, code.processEvent k key e now = some (k', sends) ∧ Q key k' ∧
      (∀ send ∈ sends, I send.target send.event) ∧ V k' + Send.total W sends + 1 ≤ V k + W key e

/-- A simulation in which `d` events have been processed, and no more than `n` more will be. -/
structure Standing (W : Uuid → ε → Nat) (V : κ → Nat) (I : Uuid → ε → Prop) (Q : Uuid → κ → Prop)
    (a : Assembly κ ε τ ρ) (n d : Nat) : Prop where
  known : ∀ key e, I key e → a.components key ≠ none
  proper : ∀ key k, a.components key = some k → Q key k
  expected : ∀ entry ∈ a.session.heap, ∃ key e, entry.posted = some (key, e) ∧ I key e
  funded : a.Funded W V n
  counted : a.session.scheduler.nextEventId ≤ a.session.heap.length + d

/-- No event is left. -/
def Quiet (a : Assembly κ ε τ ρ) : Prop := a.session.heap = []

/-- How many events an operation has made the components process. -/
def Answer.work (answer : Answer κ ε μ) : Nat := answer.own.toList.length

variable {code : ComponentCode κ ε μ} {W : Uuid → ε → Nat} {V : κ → Nat} {I : Uuid → ε → Prop}
  {Q : Uuid → κ → Prop} {a a' : Assembly κ ε τ ρ} {n d : Nat} {op : Op ε τ ρ φ}
  {ops pops : List (Op ε τ ρ φ)}

/-- What the components hold back when one of them becomes another: what the others do is the rest. -/
theorem exists_held_update {key : Uuid} {k : κ} (hk : a.components key = some k) {keys : Finset Uuid}
    (hkeys : ∀ x ∉ keys, a.held V x = 0) (k' : κ) :
    ∃ keys' rest, ∑ x ∈ keys, a.held V x = V k + rest ∧
      (∀ x ∉ keys', (Function.update a.components key (some k') x).elim 0 V = 0) ∧
      ∑ x ∈ keys', (Function.update a.components key (some k') x).elim 0 V = V k' + rest := by
  have hother : ∀ x, x ≠ key → (Function.update a.components key (some k') x).elim 0 V = a.held V x := by
    intro x hx
    rw [Function.update_of_ne hx, held]
  have hheld : a.held V key = V k := by
    rw [held, hk]
    rfl
  -- the component is among the keys that are counted
  have hmem := Finset.mem_insert_self key keys
  refine ⟨insert key keys, ∑ x ∈ (insert key keys).erase key, a.held V x, ?_, fun x hx => ?_, ?_⟩
  · rw [← hheld, Finset.add_sum_erase _ _ hmem]
    exact Finset.sum_subset (Finset.subset_insert ..) fun x _ hx => hkeys x hx
  · rw [Finset.mem_insert, not_or] at hx
    rw [hother x hx.1, hkeys x hx.2]
  · rw [← Finset.add_sum_erase _ _ hmem, Function.update_self, Option.elim_some]
    exact congrArg (V k' + ·) (Finset.sum_congr rfl fun x hx => hother x (Finset.ne_of_mem_erase hx))

section

variable (hpays : Pays code W V I Q)

include hpays

theorem length_le_load {l : List (EventEntry ε)}
    (hl : ∀ entry ∈ l, ∃ key e, entry.posted = some (key, e) ∧ I key e) :
    l.length ≤ (l.map (EventEntry.weight W)).sum := by
  induction l with
  | nil => exact le_rfl
  | cons entry l ih =>
    obtain ⟨key, e, hposted, he⟩ := hl entry List.mem_cons_self
    have hone : 1 ≤ entry.weight W := by
      rw [EventEntry.weight, hposted]
      exact hpays.positive key e he
    have hrest := ih fun x hx => hl x (List.mem_cons_of_mem entry hx)
    rw [List.length_cons, List.map_cons, List.sum_cons]
    omega

theorem length_le_total {sends : List (Send ε)} (h : ∀ send ∈ sends, I send.target send.event) :
    sends.length ≤ Send.total W sends := by
  induction sends with
  | nil => exact le_rfl
  | cons send sends ih =>
    have hone := hpays.positive _ _ (h send List.mem_cons_self)
    have hrest := ih fun x hx => h x (List.mem_cons_of_mem send hx)
    simp only [Send.total, List.map_cons, List.sum_cons, List.length_cons] at hrest ⊢
    omega

/-- An event is scheduled for a component that expects it. -/
theorem Standing.schedule [EventFrontierPolicy φ] (h : a.Standing W V I Q n d) (delay : SimTime)
    {key : Uuid} {event : ε} (he : I key event) (hroom : n + d + W key event ≤ u64Max) :
    ∃ a' answer, step code a (.schedule delay key event : Op ε τ ρ φ) = some (a', answer) ∧
      a'.Standing W V I Q (n + W key event) d ∧ answer.work = 0 := by
  obtain ⟨keys, hkeys, hfunded⟩ := h.funded
  have hone := hpays.positive key event he
  have hlen : a.session.heap.length ≤ a.session.load W := length_le_load hpays h.expected
  have hcounted := h.counted
  have hlt : a.session.scheduler.nextEventId < u64Max := by omega
  have hstep : a.session.step (.schedule delay key event : Op ε τ ρ φ) = some
      (({ a.session with scheduler := a.session.scheduler.schedule delay key event } : Session ε τ ρ),
        .scheduled (a.session.scheduler.scheduledEvent delay key event)) := if_pos hlt
  have hload := Session.load_step (W := W) hstep
  have hperm := BinaryHeap.push_perm a.session.scheduler.events
    (a.session.scheduler.scheduledEvent delay key event)
  refine ⟨{ a with session := { a.session with
      scheduler := a.session.scheduler.schedule delay key event } },
    ⟨.scheduled (a.session.scheduler.scheduledEvent delay key event), none⟩, ?_, ⟨h.known, h.proper, ?_,
    ⟨keys, hkeys, ?_⟩, ?_⟩, rfl⟩
  · simp only [step, hstep, DesCartes.Answer.popped?, Option.bind_none]
  · intro entry hentry
    rcases List.mem_cons.mp (hperm.mem_iff.mp hentry) with rfl | hentry
    · exact ⟨key, event, rfl, he⟩
    · exact h.expected entry hentry
  · simp only [Op.weight, Op.posted, Option.elim_some, DesCartes.Answer.popped?, Option.map_none,
      Option.getD_none, Nat.zero_add] at hload
    refine (Nat.add_le_add_right hload.ge (∑ key ∈ keys, a.held V key)).trans ?_
    omega
  · have hlength := hperm.length_eq
    rw [List.length_cons] at hlength
    show a.session.scheduler.nextEventId + 1 ≤ (a.session.scheduler.events.push _).toList.length + d
    rw [hlength]
    show _ ≤ a.session.heap.length + 1 + d
    omega

/-- A component processes the event that was popped. -/
theorem Standing.processEvent (h : a.Standing W V I Q n d) {session : Session ε τ ρ}
    {entry : EventEntry ε} {key : Uuid} {event : ε} (hposted : entry.posted = some (key, event))
    (hperm : a.session.heap.Perm (entry :: session.heap))
    (hcounter : session.scheduler.nextEventId = a.session.scheduler.nextEventId)
    (hroom : n + d ≤ u64Max) :
    ∃ a' x, ({ a with session } : Assembly κ ε τ ρ).processEvent code key event = some (a', some x) ∧
      ∃ m, a'.Standing W V I Q m (d + 1) ∧ m + 1 = n := by
  obtain ⟨key', event', hposted', he⟩ := h.expected entry (hperm.mem_iff.mpr List.mem_cons_self)
  rw [hposted, Option.some.injEq, Prod.mk.injEq] at hposted'
  obtain ⟨rfl, rfl⟩ := hposted'
  obtain ⟨k, hk⟩ := Option.ne_none_iff_exists'.mp (h.known key event he)
  obtain ⟨k', sends, hcode, hQ, hsends, hpaid⟩ :=
    hpays.processEvent key k event session.scheduler.clock (h.proper key k hk) he
  obtain ⟨keys, hkeys, hfunded⟩ := h.funded
  obtain ⟨keys', rest, hheld, hkeys', hheld'⟩ := exists_held_update hk hkeys k'
  have hload : a.session.load W = W key event + session.load W := by
    rw [Session.load, (hperm.map _).sum_eq, List.map_cons, List.sum_cons, EventEntry.weight, hposted]
    rfl
  have hexpected : ∀ x ∈ session.heap, ∃ key e, x.posted = some (key, e) ∧ I key e := fun x hx =>
    h.expected x (hperm.mem_iff.mpr (List.mem_cons_of_mem entry hx))
  have hlen : session.heap.length ≤ session.load W := length_le_load hpays hexpected
  have htotal := length_le_total hpays hsends
  have hlength := hperm.length_eq
  rw [List.length_cons] at hlength
  have hcounted := h.counted
  obtain ⟨session', hsend⟩ := Session.sendAll_isSome
    (show session.scheduler.nextEventId + sends.length ≤ u64Max by omega)
  obtain ⟨new, hnew, hheap, hcount⟩ := Session.heap_sendAll hsend
  have hload' := Session.load_of_perm (W := W) hnew hheap
  have hnewlen : new.length = sends.length := by simpa using congrArg List.length hnew
  refine ⟨⟨Function.update a.components key (some k'), session'⟩,
    (key, ⟨k, .inl event, session.scheduler.clock, k', sends⟩), ?_, n - 1, ⟨?_, ?_, ?_,
    ⟨keys', hkeys', ?_⟩, ?_⟩, by omega⟩
  · simp only [Assembly.processEvent, hk, Hosted.returned, hcode, hsend, Option.map_some]
  · intro x e hx
    show Function.update a.components key (some k') x ≠ none
    by_cases hne : x = key
    · rw [hne, Function.update_self]
      exact Option.some_ne_none k'
    · rw [Function.update_of_ne hne]
      exact h.known x e hx
  · intro x k'' hx
    change Function.update a.components key (some k') x = some k'' at hx
    by_cases hne : x = key
    · subst hne
      rw [Function.update_self, Option.some.injEq] at hx
      exact hx ▸ hQ
    · rw [Function.update_of_ne hne] at hx
      exact h.proper x k'' hx
  · intro x hx
    rcases List.mem_append.mp (hheap.mem_iff.mp hx) with hx | hx
    · have hmem : x.posted ∈ sends.map fun send => some (send.target, send.event) :=
        hnew ▸ List.mem_map_of_mem hx
      obtain ⟨send, hsend', hx'⟩ := List.mem_map.mp hmem
      exact ⟨_, _, hx'.symm, hsends send hsend'⟩
    · exact hexpected x hx
  · show session'.load W + ∑ x ∈ keys', (Function.update a.components key (some k') x).elim 0 V ≤ n - 1
    omega
  · have hheaplen := hheap.length_eq
    rw [List.length_append, hnewlen] at hheaplen
    show session'.scheduler.nextEventId ≤ session'.heap.length + (d + 1)
    omega

/-- A pop makes a component process an event, unless there is none. -/
theorem Standing.pop [EventFrontierPolicy φ] (h : a.Standing W V I Q n d) (hop : op.Pops)
    (hroom : n + d ≤ u64Max) :
    ∃ a' answer m, step code a op = some (a', answer) ∧ a'.Standing W V I Q m (d + answer.work) ∧
      m + answer.work = n ∧ (answer.work = 0 → a'.Quiet) := by
  obtain ⟨session, popped, hstep, hnone⟩ := a.session.step_pop hop
  have hposted : ∀ entry ∈ a.session.heap, entry.posted ≠ none := fun entry hentry => by
    obtain ⟨key, e, he, -⟩ := h.expected entry hentry
    rw [he]
    exact Option.some_ne_none _
  obtain ⟨hperm, hcounter⟩ := Session.heap_popped hstep hposted
  cases popped with
  | none =>
    refine ⟨{ a with session }, ⟨.popped none, none⟩, n, ?_, ?_, rfl, fun _ => hnone rfl⟩
    · simp only [step, hstep, DesCartes.Answer.popped?, Option.bind_none]
    · have hperm : a.session.heap.Perm session.heap := hperm
      obtain ⟨keys, hkeys, hfunded⟩ := h.funded
      refine ⟨h.known, h.proper, fun entry hentry => h.expected entry (hperm.mem_iff.mpr hentry),
        ⟨keys, hkeys, ?_⟩, ?_⟩
      · have hload : session.load W = a.session.load W := ((hperm.map _).sum_eq).symm
        show session.load W + ∑ key ∈ keys, a.held V key ≤ n
        rw [hload]
        exact hfunded
      · show session.scheduler.nextEventId ≤ session.heap.length + d
        rw [hcounter, ← hperm.length_eq]
        exact h.counted
  | some entry =>
    obtain ⟨key, event, hentry, -⟩ := h.expected entry (hperm.mem_iff.mpr List.mem_cons_self)
    obtain ⟨a', x, hprocess, m, hstanding, hm⟩ := h.processEvent hpays hentry hperm hcounter hroom
    refine ⟨a', ⟨.popped (some entry), some x⟩, m, ?_, hstanding, hm, fun hwork => by cases hwork⟩
    simp only [step, hstep, DesCartes.Answer.popped?, Option.bind_some, hentry, hprocess,
      Option.map_some]

theorem Standing.fed [EventFrontierPolicy φ] (h : a.Standing W V I Q n d) (hop : op.Feeds I)
    (hroom : n + d + op.weight W ≤ u64Max) :
    ∃ a' answer m, step code a op = some (a', answer) ∧ a'.Standing W V I Q m (d + answer.work) ∧
      m + answer.work = n + op.weight W := by
  have hpop : op.Pops → op.weight W = 0 → ∃ a' answer m, Assembly.step code a op = some (a', answer) ∧
        a'.Standing W V I Q m (d + answer.work) ∧ m + answer.work = n + op.weight W := by
    intro hpops hzero
    rw [hzero] at hroom
    obtain ⟨a', answer, m, hs, hstanding, hm, -⟩ := h.pop hpays hpops hroom
    exact ⟨a', answer, m, hs, hstanding, by rw [hzero]; exact hm⟩
  cases op with
  | schedule delay key event =>
    obtain ⟨a', answer, hs, hstanding, hwork⟩ := h.schedule (φ := φ) hpays delay hop hroom
    exact ⟨a', answer, _, hs, by rwa [hwork], by rw [hwork]; rfl⟩
  | pop => exact hpop trivial rfl
  | popWithPolicy policy => exact hpop trivial rfl
  | _ => exact hop.elim

/-- Fed with events that are expected, a simulation does not panic; and after as many pops as the events
have paid for, no event is left. -/
theorem Standing.run_ended [EventFrontierPolicy φ] (h : a.Standing W V I Q n d)
    (hops : ∀ op ∈ ops, op.Feeds I) (hpops : ∀ op ∈ pops, op.Pops)
    (hroom : n + d + (ops.map (Op.weight W)).sum ≤ u64Max)
    (hlen : n + (ops.map (Op.weight W)).sum ≤ pops.length) :
    ∃ a' answers, Machine.run (step code) a (ops ++ pops) = some (a', answers) ∧
      a'.Quiet ∧ (answers.map Answer.work).sum ≤ n + (ops.map (Op.weight W)).sum := by
  have hfed : ∀ (a : Assembly κ ε τ ρ) (op : Op ε τ ρ φ) n d, a.Standing W V I Q n d → op.Feeds I →
      n + d + op.weight W ≤ u64Max → ∃ a' answer m, Assembly.step code a op = some (a', answer) ∧
        a'.Standing W V I Q m (d + answer.work) ∧ m + answer.work = n + op.weight W :=
    fun a op n d h hop hroom => h.fed hpays hop hroom
  have hfree : ∀ op : Op ε τ ρ φ, op.Pops → op.Feeds I ∧ op.weight W = 0 := by
    intro op hop
    cases op with
    | pop => exact ⟨trivial, rfl⟩
    | popWithPolicy policy => exact ⟨trivial, rfl⟩
    | _ => exact hop.elim
  have hzero : (pops.map (Op.weight W)).sum = 0 := List.sum_eq_zero fun n hn => by
    obtain ⟨op, hop, rfl⟩ := List.mem_map.mp hn
    exact (hfree op (hpops op hop)).2
  obtain ⟨a₁, answers₁, n₁, hrun₁, h₁, hn₁⟩ := Machine.run_paid hfed hops h hroom
  obtain ⟨a₂, answers₂, n₂, hrun₂, -, hn₂⟩ := Machine.run_paid hfed
    (fun op hop => (hfree op (hpops op hop)).1) h₁ (by omega)
  -- while events are left, a pop takes one; when none is left, none comes
  have htakes : ∀ (a : Assembly κ ε τ ρ) (op : Op ε τ ρ φ) a' answer n d,
      (a.Standing W V I Q n d ∧ n + d ≤ u64Max) → op.Pops → Assembly.step code a op = some (a', answer) →
      a'.Quiet ∨ ∃ m, (a'.Standing W V I Q m (d + answer.work) ∧
        m + (d + answer.work) ≤ u64Max) ∧ m < n := by
    intro a op a' answer n d ⟨h, hroom⟩ hop hs
    obtain ⟨a'', answer', m, hs', h', hm, hidle⟩ := h.pop hpays hop hroom
    cases hs.symm.trans hs'
    by_cases hwork : answer.work = 0
    · exact .inl (hidle hwork)
    · exact .inr ⟨m, ⟨h', by omega⟩, by omega⟩
  have hstays : ∀ (a : Assembly κ ε τ ρ) (op : Op ε τ ρ φ) a' answer, op.Pops → a.Quiet →
      Assembly.step code a op = some (a', answer) → a'.Quiet := by
    intro a op a' answer hop hquiet hs
    rw [Quiet] at hquiet
    obtain ⟨session, popped, hstep, hnone⟩ := a.session.step_pop hop
    have hperm := (Session.heap_popped hstep (by rw [hquiet]; exact List.forall_mem_nil _)).1
    rw [hquiet] at hperm
    obtain ⟨hpopped, hheap⟩ := List.append_eq_nil_iff.mp (List.nil_perm.mp hperm)
    rw [Option.toList_eq_nil_iff] at hpopped
    simp only [Assembly.step, hstep, hpopped, DesCartes.Answer.popped?, Option.bind_none,
      Option.some.injEq, Prod.mk.injEq] at hs
    rw [← hs.1]
    exact hheap
  have hspent : ∀ (a : Assembly κ ε τ ρ) d, (a.Standing W V I Q 0 d ∧ 0 + d ≤ u64Max) →
      a.Quiet := by
    rintro a d ⟨h, -⟩
    have hlen := length_le_load hpays h.expected
    obtain ⟨keys, -, hfunded⟩ := h.funded
    have hload : (a.session.heap.map (EventEntry.weight W)).sum = a.session.load W := rfl
    exact List.length_eq_zero_iff.mp (by omega)
  refine ⟨a₂, answers₁ ++ answers₂, Machine.run_append.mpr ⟨a₁, _, _, hrun₁, hrun₂, rfl⟩, ?_, ?_⟩
  · exact Machine.run_exhausted (P := fun (a : Assembly κ ε τ ρ) n d =>
      a.Standing W V I Q n d ∧ n + d ≤ u64Max)
      htakes hstays hspent hpops ⟨h₁, by omega⟩ (by omega) hrun₂
  · rw [List.map_append, List.sum_append]
    omega

end

end Assembly

end DesCartes
