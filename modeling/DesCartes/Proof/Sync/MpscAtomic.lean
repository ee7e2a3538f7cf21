import DesCartes.Proof.Sync.Mpsc
import Mathlib.Tactic.SplitIfs

/-!
# Operations on a channel that nothing interrupts

What they do to the queue and to the counts, for those who use a channel from one thread:
`trySend_of_room`, and `poll_spec` of a future of `send`, whose sections follow one another.
-/

namespace DesCartes.Mpsc

variable {τ ω : Type} {s s' : State τ ω}

/-- A value is sent where there is room. -/
theorem trySend_of_room (value : τ) (halive : s.receiverAlive = true) (hroom : s.queue.length < s.capacity) :
    (s.trySend value).1.queue = s.queue ++ [value] ∧ (s.trySend value).2.2 = .ok () := by
  rw [State.trySend, if_neg (by rw [halive]; decide), if_neg (by omega)]
  exact ⟨rfl, rfl⟩

@[simp] theorem capacity_trySend (value : τ) : (s.trySend value).1.capacity = s.capacity := by
  simp only [State.trySend, State.wakeReceiver]
  split_ifs <;> rfl

@[simp] theorem receiverAlive_trySend (value : τ) : (s.trySend value).1.receiverAlive = s.receiverAlive := by
  simp only [State.trySend, State.wakeReceiver]
  split_ifs <;> rfl

@[simp] theorem senderCount_trySend (value : τ) : (s.trySend value).1.senderCount = s.senderCount := by
  simp only [State.trySend, State.wakeReceiver]
  split_ifs <;> rfl

theorem queue_trySend (value : τ) : s.queue <+: (s.trySend value).1.queue := by
  simp only [State.trySend, State.wakeReceiver]
  split_ifs
  · exact List.prefix_rfl
  · exact List.prefix_rfl
  · exact List.prefix_append _ _

theorem mem_queue_trySend {value v : τ} (h : v ∈ (s.trySend value).1.queue) : v ∈ s.queue ∨ v = value := by
  simp only [State.trySend, State.wakeReceiver] at h
  split_ifs at h
  · exact .inl h
  · exact .inl h
  · simpa using h

@[simp] theorem queue_dropSender : s.dropSender.1.queue = s.queue := by
  simp only [State.dropSender, State.wakeReceiver]
  split_ifs <;> rfl

@[simp] theorem capacity_dropSender : s.dropSender.1.capacity = s.capacity := by
  simp only [State.dropSender, State.wakeReceiver]
  split_ifs <;> rfl

@[simp] theorem receiverAlive_dropSender : s.dropSender.1.receiverAlive = s.receiverAlive := by
  simp only [State.dropSender, State.wakeReceiver]
  split_ifs <;> rfl

@[simp] theorem senderCount_dropSender : s.dropSender.1.senderCount = s.senderCount - 1 := by
  simp only [State.dropSender, State.wakeReceiver]
  split_ifs <;> rfl

@[simp] theorem senderCount_recv (waker : ω) : (s.recv waker).1.senderCount = s.senderCount := by
  rw [State.recv]
  split
  · rfl
  · split <;> rfl

theorem receiverAlive_lockSection {f f' : SendFuture τ} {waker : ω} {stage : Stage τ}
    {woken : List ω} {outcome : Outcome τ}
    (h : f.lockSection s waker stage = some (s', f', woken, outcome)) :
    s'.receiverAlive = s.receiverAlive := by
  have hdrop : ∀ t : State τ ω, (f.drop t).receiverAlive = t.receiverAlive := fun t => by
    unfold SendFuture.drop
    split <;> rfl
  cases stage with
  | check =>
    simp only [SendFuture.lockSection, SendFuture.giveBack] at h
    split at h
    · obtain ⟨v, -, h⟩ := Option.map_eq_some_iff.mp h
      cases h
      rfl
    · split at h
      · cases h
        rfl
      · obtain ⟨v, -, h⟩ := Option.map_eq_some_iff.mp h
        cases h
        rfl
  | register =>
    simp only [SendFuture.lockSection] at h
    split at h <;> cases h <;> rfl
  | insert id =>
    simp only [SendFuture.lockSection, SendFuture.giveBack] at h
    split at h
    · obtain ⟨v, -, h⟩ := Option.map_eq_some_iff.mp h
      cases h
      rfl
    · cases h
      rfl
  | enqueue value =>
    simp only [SendFuture.lockSection] at h
    split at h
    · cases h
      rfl
    · split at h
      · cases h
        rfl
      · cases h
        exact hdrop _
  | drop result =>
    cases h
    exact hdrop s

theorem receiverAlive_pollFrom {f f' : SendFuture τ} {waker : ω} {n : Nat} {stage : Stage τ} {woken : List ω}
    {result : Poll (Except τ Unit)} (h : f.pollFrom waker n s stage = some (s', f', woken, result)) :
    s'.receiverAlive = s.receiverAlive := by
  induction n generalizing f s stage woken with
  | zero => cases h
  | succ n ih =>
    obtain ⟨⟨s₁, f₁, woken₁, outcome⟩, hsection, h⟩ := Option.bind_eq_some_iff.mp h
    have halive := receiverAlive_lockSection hsection
    cases outcome with
    | continues stage =>
      obtain ⟨⟨s₂, f₂, woken₂, result₂⟩, hrest, h⟩ := Option.map_eq_some_iff.mp h
      cases h
      exact (ih hrest).trans halive
    | returns result =>
      cases h
      exact halive

/-- While the receiver is alive, a send is not given up. -/
theorem lockSection_alive {f f' : SendFuture τ} {waker : ω} {stage : Stage τ} {woken : List ω}
    {outcome : Outcome τ} (halive : s.receiverAlive = true) (hstage : ∀ r, stage ≠ .drop r)
    (h : f.lockSection s waker stage = some (s', f', woken, outcome)) :
    (∀ r, outcome ≠ .continues (.drop r)) ∧ ∀ e, outcome ≠ .returns (.ready (.error e)) := by
  have hdead : ¬s.receiverAlive = false := by rw [halive]; decide
  cases stage with
  | check =>
    rw [SendFuture.lockSection, if_neg hdead] at h
    split at h
    · cases h
      constructor <;> rintro _ ⟨⟩
    · obtain ⟨v, -, h⟩ := Option.map_eq_some_iff.mp h
      cases h
      constructor <;> rintro _ ⟨⟩
  | register =>
    simp only [SendFuture.lockSection] at h
    split at h <;> cases h <;> constructor <;> rintro _ ⟨⟩
  | insert id =>
    rw [SendFuture.lockSection, if_neg hdead] at h
    cases h
    constructor <;> rintro _ ⟨⟩
  | enqueue value =>
    rw [SendFuture.lockSection, if_neg hdead] at h
    split at h <;> cases h <;> constructor <;> rintro _ ⟨⟩
  | drop result => exact absurd rfl (hstage result)

theorem pollFrom_spec {f f' : SendFuture τ} {value : τ} {waker : ω} {n : Nat} (stage : Stage τ)
    {woken : List ω} {result : Poll (Except τ Unit)} (hf : stage.Carries f value)
    (halive : s.receiverAlive = true) (hstage : ∀ r, stage ≠ .drop r)
    (h : f.pollFrom waker n s stage = some (s', f', woken, result)) :
    s.Same s' ∧ (Outcome.returns result).Carries s s' f' value ∧ ∀ e, result ≠ .ready (.error e) := by
  induction n generalizing f s stage woken with
  | zero => cases h
  | succ n ih =>
    obtain ⟨⟨s₁, f₁, woken₁, outcome⟩, hsection, h⟩ := Option.bind_eq_some_iff.mp h
    obtain ⟨_, _, _, _, hsection', hsame, hcarries⟩ := lockSection_spec hf s waker
    cases hsection.symm.trans hsection'
    obtain ⟨hcontinues, herror⟩ := lockSection_alive halive hstage hsection
    cases outcome with
    | continues stage =>
      obtain ⟨⟨s₂, f₂, woken₂, result₂⟩, hrest, h⟩ := Option.map_eq_some_iff.mp h
      cases h
      obtain ⟨hf₁, hqueue⟩ := hcarries
      obtain ⟨hsame', hcarries', hresult⟩ := ih stage hf₁ ((receiverAlive_lockSection hsection).trans halive)
        (fun r hr => hcontinues r (by rw [hr])) hrest
      refine ⟨⟨hsame'.capacity.trans hsame.capacity, hsame'.senderCount.trans hsame.senderCount⟩, ?_, hresult⟩
      cases result with
      | pending => exact ⟨hcarries'.1, hcarries'.2.trans hqueue⟩
      | ready r =>
        cases r with
        | error e => exact absurd rfl (hresult e)
        | ok u => exact ⟨by rw [← hqueue, ← hsame.capacity]; exact hcarries'.1, by rw [hcarries'.2, hqueue]⟩
    | returns result =>
      cases h
      exact ⟨hsame, hcarries, fun e he => herror e (by rw [he])⟩

/-- A poll that nothing interrupts sends the value or waits. -/
theorem poll_spec {f f' : SendFuture τ} {value : τ} {waker : ω} {woken : List ω}
    {result : Poll (Except τ Unit)} (hf : f.value = some value) (halive : s.receiverAlive = true)
    (h : f.poll s waker = some (s', f', woken, result)) :
    s.Same s' ∧ (result = .pending ∧ f'.value = some value ∧ s'.queue = s.queue ∨
      result = .ready (.ok ()) ∧ s'.queue = s.queue ++ [value]) := by
  obtain ⟨hsame, hcarries, hresult⟩ := pollFrom_spec .check hf halive nofun h
  refine ⟨hsame, ?_⟩
  cases result with
  | pending => exact .inl ⟨rfl, hcarries⟩
  | ready r =>
    cases r with
    | error e => exact absurd rfl (hresult e)
    | ok u => exact .inr ⟨rfl, hcarries.2⟩

end DesCartes.Mpsc
