import DesCartes.Framework.Machine
import DesCartes.Framework.Trace
import DesCartes.Framework.Vec
import DesCartes.Impl.Tower.LoadBalancer

/-!
# What a load balancer promises

`run_balanced`: whatever the backends answer, a call after `poll_ready` was ready can be made, and
goes to a backend that was ready when it was polled last, and has not been called since;
`poll_ready` is pending only when every backend was, in the same poll; and a round robin whose
backends are always ready goes round.

* `Polls`: what `poll_ready` can come to;
* `Kept`: what every run keeps. A balancer that is to be called has a backend, which is ready
  (`Kept.granted`);
* `round_run`: the pairs of `poll_ready` and `call`, as the turns of a round robin (`Vec.turns`).
-/

namespace DesCartes.Tower

namespace DesLoadBalancer

variable {S γ : Type} {l : DesLoadBalancer S γ} {inner : Nat → Readiness}

/-- What the loop of `poll_ready` comes to: a backend is ready, or fails, or all are pending. -/
inductive Scanned (l : DesLoadBalancer S γ) (start : Nat) (offsets : List Nat) : Polled S γ → Prop where
  | ready (polls : List (Nat × Readiness)) (offset : Nat) :
    Scanned l start offsets ⟨{ l with readyIndex := some ((start + offset) % l.services.length) },
      polls ++ [((start + offset) % l.services.length, .ready (.ok ()))], .ready (.ok ())⟩
  | failed (polls : List (Nat × Readiness)) (e : ServiceError) : Scanned l start offsets ⟨l, polls, .ready (.error e)⟩
  | pending : Scanned l start offsets ⟨l, offsets.map fun offset => ((start + offset) % l.services.length, .pending), .pending⟩

theorem scanned_scan (l : DesLoadBalancer S γ) (start : Nat) (inner : Nat → Readiness) (k : Nat)
    (offsets : List Nat) :
    Scanned l start offsets (l.scan start inner k offsets) := by
  induction offsets generalizing k with
  | nil => exact .pending
  | cons offset offsets ih =>
    rw [scan]
    cases inner k with
    | ready result =>
      cases result with
      | ok => exact .ready [] offset
      | error e => exact .failed _ e
    | pending =>
      dsimp only
      have hscan := ih (k + 1)
      generalize l.scan start inner (k + 1) offsets = polled at hscan ⊢
      cases hscan with
      | ready polls offset' => exact .ready (_ :: polls) offset'
      | failed polls e => exact .failed (_ :: polls) e
      | pending => exact .pending

/-- What `poll_ready` comes to: the backend that was polled last is ready, or fails, or all have
been polled and were pending. -/
inductive Polls (l : DesLoadBalancer S γ) : Polled S γ → Prop where
  | ready (polls : List (Nat × Readiness)) (idx : Nat) (hidx : idx < l.services.length) :
    Polls l ⟨{ l with readyIndex := some idx }, polls ++ [(idx, .ready (.ok ()))], .ready (.ok ())⟩
  | failed (readyIndex : Option Nat) (hready : ∀ i, readyIndex = some i → l.readyIndex = some i)
    (polls : List (Nat × Readiness)) (e : ServiceError) : Polls l ⟨{ l with readyIndex }, polls, .ready (.error e)⟩
  | pending (polls : List (Nat × Readiness)) (hpolls : ∀ i < l.services.length, (i, .pending) ∈ polls) :
    Polls l ⟨{ l with readyIndex := none }, polls, .pending⟩

/-- The offsets lead to all backends. -/
theorem exists_offset {n i : Nat} (hi : i < n) (start : Nat) :
    ∃ offset ∈ List.range n, (start + offset) % n = i := by
  have hn : 0 < n := Nat.zero_lt_of_lt hi
  refine ⟨(i + (n - start % n)) % n, List.mem_range.mpr (Nat.mod_lt _ hn), ?_⟩
  have hlt : start % n < n := Nat.mod_lt _ hn
  rw [Nat.add_mod_mod, ← Nat.mod_add_mod, show start % n + (i + (n - start % n)) = i + n by omega,
    Nat.add_mod_right,
    Nat.mod_eq_of_lt hi]

theorem Scanned.polls {l' : DesLoadBalancer S γ} {start : Nat} {polled : Polled S γ}
    (hl : l' = { l with readyIndex := none })
    (hne : l.services ≠ []) (h : Scanned l' start (List.range l.services.length) polled)
    (earlier : List (Nat × Readiness)) :
    Polls l { polled with polls := earlier ++ polled.polls } := by
  subst hl
  cases h with
  | ready polls offset =>
    dsimp only
    rw [← List.append_assoc]
    exact .ready _ _ (Nat.mod_lt _ (List.length_pos_of_ne_nil hne))
  | failed polls e => exact .failed none (by rintro _ ⟨⟩) _ e
  | pending =>
    refine .pending _ fun i hi => List.mem_append_right _ ?_
    obtain ⟨offset, hoffset, heq⟩ := exists_offset hi start
    exact List.mem_map.mpr ⟨offset, hoffset, congrArg (·, _) heq⟩

variable [RangeRng γ]

theorem polls_pollReady (hne : l.services ≠ []) (hindex : ∀ i, l.readyIndex = some i → i < l.services.length)
    (inner : Nat → Readiness) : Polls l (l.pollReady inner) := by
  rw [pollReady, if_neg hne]
  cases hready : l.readyIndex with
  | none =>
    have hl : l = { l with readyIndex := none } := by rw [← hready]
    exact (scanned_scan l l.peekStartIndex inner 0 (List.range l.services.length)).polls hl hne []
  | some idx =>
    have hl : { l with readyIndex := some idx } = l := by rw [← hready]
    dsimp only
    cases inner 0 with
    | ready result =>
      cases result with
      | ok =>
        have h := Polls.ready (l := l) [] idx (hindex idx hready)
        rwa [hl] at h
      | error e =>
        have h := Polls.failed (l := l) (some idx) (fun i hi => hready.trans hi) [(idx, .ready (.error e))] e
        rwa [hl] at h
    | pending => exact (scanned_scan _ _ inner 1 _).polls rfl hne [(idx, .pending)]

end DesLoadBalancer

namespace LoadBalancers

variable {S γ : Type}

/-- The balancer that an event is about; of a clone the new one. -/
def Event.balancer : Event → Nat
  | polled b _ _ => b
  | ready b _ => b
  | called b _ => b
  | cloned _ b => b

/-- The balancer is called, or is polled and is not ready. -/
def Event.revokes (b : Nat) : Event → Prop
  | ready b' result => b' = b ∧ result ≠ .ready (.ok ())
  | called b' _ => b' = b
  | _ => False

/-- The backend is called by the balancer, or is polled by it and is not ready. -/
def Event.spends (b i : Nat) : Event → Prop
  | polled b' i' result => b' = b ∧ i' = i ∧ result ≠ .ready (.ok ())
  | called b' i' => b' = b ∧ i' = i
  | _ => False

/-- The last `poll_ready` of the balancer was ready, and it has not been called since. -/
def Granted (b : Nat) (tr : List Event) : Prop := Trace.Since (· = .ready b (.ready (.ok ()))) (Event.revokes b) tr

/-- The last poll of the backend by the balancer was ready, and it has not been called since. -/
def Fresh (b i : Nat) (tr : List Event) : Prop := Trace.Since (· = .polled b i (.ready (.ok ()))) (Event.spends b i) tr

variable {b i : Nat} {tr q : List Event}

/-- Events about other balancers. -/
theorem granted_append_of_ne (hq : ∀ e ∈ q, e.balancer ≠ b) (h : Granted b (tr ++ q)) : Granted b tr := by
  obtain ⟨e, rfl, hopen⟩ := h
  refine ⟨_, rfl, ((Trace.open_append_of_notMem fun hmem => hq _ hmem rfl).mp hopen).1⟩

theorem fresh_append_of_ne (hq : ∀ e ∈ q, e.balancer ≠ b) (h : Fresh b i tr) : Fresh b i (tr ++ q) := by
  obtain ⟨e, rfl, hopen⟩ := h
  refine ⟨_, rfl, Trace.open_append.mpr (.inl ⟨hopen, fun e he hspends => hq e he ?_⟩)⟩
  cases e with
  | polled b' i' result => exact hspends.1
  | called b' i' => exact hspends.1
  | ready b' result => cases hspends
  | cloned b' c => cases hspends

theorem Granted.exists_mem (h : Granted b tr) : ∃ e ∈ tr, e.balancer = b := by
  obtain ⟨e, rfl, hopen⟩ := h
  exact ⟨_, hopen.mem, rfl⟩

/-- What holds after every run of balancers with `n` backends. -/
structure Kept (n : Nat) (strategy : DesLoadBalanceStrategy) (s : LoadBalancers S γ) (tr : List Event) : Prop where
  services : ∀ b l, s.balancers.get b = some l → l.services.length = n
  strategy : ∀ b l, s.balancers.get b = some l → l.strategy = strategy
  index : ∀ b l i, s.balancers.get b = some l → l.readyIndex = some i → i < n
  known : ∀ e ∈ tr, ∃ l, s.balancers.get e.balancer = some l
  granted : ∀ b l, s.balancers.get b = some l → Granted b tr → ∃ i, l.readyIndex = some i ∧ Fresh b i tr
  dispatched : Trace.Each (fun pre e => ∀ b i, e = .called b i → Granted b pre → i < n ∧ Fresh b i pre) tr

variable {n : Nat} {strategy : DesLoadBalanceStrategy} {s s' : LoadBalancers S γ} {l l' : DesLoadBalancer S γ}

/-- A step of the balancer `b`. What is left to say of it is what it says of itself, and that it
calls only what it may. -/
theorem Kept.set (h : Kept n strategy s tr) (hb : s.balancers.get b = some l)
    (hservices : l'.services = l.services) (hstrategy : l'.strategy = l.strategy)
    (hindex : ∀ i, l'.readyIndex = some i → i < n) (hq : ∀ e ∈ q, e.balancer = b)
    (hgranted : Granted b (tr ++ q) → ∃ i, l'.readyIndex = some i ∧ Fresh b i (tr ++ q))
    (hdispatched : Trace.Each (fun pre e => ∀ b i, e = .called b i → Granted b (tr ++ pre) → i < n ∧
      Fresh b i (tr ++ pre)) q) :
    Kept n strategy ⟨s.balancers.set b l'⟩ (tr ++ q) where
  services c m hm := by
    rcases (Table.get_set_eq_some hb).mp hm with ⟨rfl, rfl⟩ | ⟨-, hm⟩
    · rw [hservices]
      exact h.services c l hb
    · exact h.services c m hm
  strategy c m hm := by
    rcases (Table.get_set_eq_some hb).mp hm with ⟨rfl, rfl⟩ | ⟨-, hm⟩
    · rw [hstrategy]
      exact h.strategy c l hb
    · exact h.strategy c m hm
  index c m i hm hi := by
    rcases (Table.get_set_eq_some hb).mp hm with ⟨rfl, rfl⟩ | ⟨-, hm⟩
    · exact hindex i hi
    · exact h.index c m i hm hi
  known e he := by
    by_cases heq : e.balancer = b
    · exact ⟨l', (Table.get_set_eq_some hb).mpr (.inl ⟨heq, rfl⟩)⟩
    · obtain ⟨m, hm⟩ := h.known e ((List.mem_append.mp he).resolve_right fun he => heq (hq e he))
      exact ⟨m, (Table.get_set_eq_some hb).mpr (.inr ⟨heq, hm⟩)⟩
  granted c m hm hc := by
    rcases (Table.get_set_eq_some hb).mp hm with ⟨rfl, rfl⟩ | ⟨hne, hm⟩
    · exact hgranted hc
    · have hq' : ∀ e ∈ q, e.balancer ≠ c := fun e he => (hq e he).trans_ne hne.symm
      obtain ⟨i, hi, hfresh⟩ := h.granted c m hm (granted_append_of_ne hq' hc)
      exact ⟨i, hi, fresh_append_of_ne hq' hfresh⟩
  dispatched := h.dispatched.append hdispatched

/-- The events of a `poll_ready`. -/
def eventsOf (b : Nat) (polled : DesLoadBalancer.Polled S γ) : List Event :=
  polled.polls.map (fun p => .polled b p.1 p.2) ++ [Event.ready b polled.result]

theorem balancer_of_mem_eventsOf {polled : DesLoadBalancer.Polled S γ} {e : Event}
    (he : e ∈ eventsOf b polled) :
    e.balancer = b := by
  rcases List.mem_append.mp he with he | he
  · obtain ⟨p, -, rfl⟩ := List.mem_map.mp he
    rfl
  · rw [List.mem_singleton.mp he]
    rfl

/-- A `poll_ready` that is not ready. -/
theorem not_granted_eventsOf {polled : DesLoadBalancer.Polled S γ}
    (hresult : polled.result ≠ .ready (.ok ())) :
    ¬Granted b (tr ++ eventsOf b polled) := by
  rw [eventsOf, ← List.append_assoc, Granted, Trace.since_concat]
  rintro (⟨-, hrevokes⟩ | hready)
  · exact hrevokes ⟨rfl, hresult⟩
  · cases polled
    cases hready
    exact hresult rfl

theorem Kept.pollReady (h : Kept n strategy s tr) (hb : s.balancers.get b = some l)
    {polled : DesLoadBalancer.Polled S γ} (hpolls : DesLoadBalancer.Polls l polled) :
    Kept n strategy ⟨s.balancers.set b polled.balancer⟩ (tr ++ eventsOf b polled) := by
  have hn := h.services b l hb
  have hcalls : Trace.Each (fun pre e => ∀ b i, e = Event.called b i → Granted b (tr ++ pre) → i < n ∧
      Fresh b i (tr ++ pre))
        (eventsOf b polled) := Trace.Each.of_mem fun pre e he b' i heq => by
    subst heq
    rcases List.mem_append.mp he with he | he
    · obtain ⟨p, -, hp⟩ := List.mem_map.mp he
      cases hp
    · cases List.mem_singleton.mp he
  cases hpolls with
  | ready polls idx hidx =>
    refine h.set hb rfl rfl ?_ (fun e => balancer_of_mem_eventsOf) (fun _ => ⟨idx, rfl, ?_⟩) hcalls
    · rintro _ ⟨⟩
      exact hn ▸ hidx
    · -- the poll of the backend is the last one
      rw [eventsOf, List.map_append, List.map_singleton, ← List.append_assoc, ← List.append_assoc,
        Fresh, Trace.since_concat]
      exact .inl ⟨Trace.since_concat.mpr (.inr rfl), id⟩
  | failed readyIndex hready polls e =>
    refine h.set hb rfl rfl (fun i hi => h.index b l i hb (hready i hi)) (fun e => balancer_of_mem_eventsOf)
      (fun hgranted => absurd hgranted (not_granted_eventsOf ?_)) hcalls
    rintro ⟨⟩
  | pending polls hpending =>
    refine h.set hb rfl rfl ?_ (fun e => balancer_of_mem_eventsOf)
      (fun hgranted => absurd hgranted (not_granted_eventsOf ?_)) hcalls
    · rintro _ ⟨⟩
    · rintro ⟨⟩

theorem Kept.clone (h : Kept n strategy s tr) (hb : s.balancers.get b = some l) :
    Kept n strategy ⟨s.balancers.insert l.clone⟩ (tr ++ [.cloned b s.balancers.next]) where
  services c m hm := by
    rcases Table.get_insert_eq_some.mp hm with ⟨-, rfl⟩ | hm
    · exact h.services b l hb
    · exact h.services c m hm
  strategy c m hm := by
    rcases Table.get_insert_eq_some.mp hm with ⟨-, rfl⟩ | hm
    · exact h.strategy b l hb
    · exact h.strategy c m hm
  index c m i hm hi := by
    rcases Table.get_insert_eq_some.mp hm with ⟨-, rfl⟩ | hm
    · cases hi
    · exact h.index c m i hm hi
  known e he := by
    rcases List.mem_append.mp he with he | he
    · obtain ⟨m, hm⟩ := h.known e he
      exact ⟨m, Table.get_insert_eq_some.mpr (.inr hm)⟩
    · rw [List.mem_singleton.mp he]
      exact ⟨l.clone, Table.get_insert_eq_some.mpr (.inl ⟨rfl, rfl⟩)⟩
  granted c m hm hc := by
    rcases Table.get_insert_eq_some.mp hm with ⟨rfl, -⟩ | hm
    · -- nothing has been said of the new one
      rcases Trace.since_concat.mp hc with ⟨hc, -⟩ | hc
      · obtain ⟨e, he, hbalancer⟩ := Granted.exists_mem hc
        obtain ⟨m', hm'⟩ := h.known e he
        exact absurd hbalancer (Nat.ne_of_lt (Table.lt_next hm'))
      · cases hc
    · have hq : ∀ e ∈ [Event.cloned b s.balancers.next], e.balancer ≠ c := fun e he => by
        rw [List.mem_singleton.mp he]
        exact (Nat.ne_of_lt (Table.lt_next hm)).symm
      obtain ⟨i, hi, hfresh⟩ := h.granted c m hm (granted_append_of_ne hq hc)
      exact ⟨i, hi, fresh_append_of_ne hq hfresh⟩
  dispatched := h.dispatched.concat (by rintro _ _ ⟨⟩)

variable [RangeRng γ]

omit [RangeRng γ] in
theorem not_granted_called : ¬Granted b (tr ++ [.called b i]) := by
  rw [Granted, Trace.since_concat]
  rintro (⟨-, hrevokes⟩ | hcalled)
  · exact hrevokes rfl
  · cases hcalled

theorem commitSelectedIndex_eq (l : DesLoadBalancer S γ) (idx : Nat) :
    (l.commitSelectedIndex idx).services = l.services ∧ (l.commitSelectedIndex idx).strategy = l.strategy ∧
      (l.commitSelectedIndex idx).readyIndex = l.readyIndex := by
  rw [DesLoadBalancer.commitSelectedIndex]
  split
  · exact ⟨rfl, rfl, rfl⟩
  · split <;> exact ⟨rfl, rfl, rfl⟩

/-- The backend that is called, and what is left of the balancer. -/
theorem selectService_eq (l : DesLoadBalancer S γ) :
    l.selectService.1.services = l.services ∧ l.selectService.1.strategy = l.strategy ∧
    l.selectService.1.readyIndex = none ∧
      ∀ i, l.readyIndex = some i → l.selectService.2 = i := by
  rw [DesLoadBalancer.selectService]
  cases hready : l.readyIndex with
  | none =>
    obtain ⟨hservices, hstrategy, hindex⟩ := commitSelectedIndex_eq l l.peekStartIndex
    exact ⟨hservices, hstrategy, hindex.trans hready, by rintro _ ⟨⟩⟩
  | some idx =>
    obtain ⟨hservices, hstrategy, hindex⟩ := commitSelectedIndex_eq { l with readyIndex := none } idx
    exact ⟨hservices, hstrategy, hindex, by rintro _ ⟨⟩; rfl⟩

theorem Kept.call (h : Kept n strategy s tr) (hb : s.balancers.get b = some l)
    (hlt : l.selectService.2 < l.services.length) :
    Kept n strategy ⟨s.balancers.set b l.selectService.1⟩ (tr ++ [.called b l.selectService.2]) := by
  obtain ⟨hservices, hstrategy, hindex, hselected⟩ := selectService_eq l
  refine h.set hb hservices hstrategy (fun i hi => ?_) (fun e he => ?_)
    (fun hgranted => absurd hgranted not_granted_called)
    (Trace.Each.nil.concat fun b' i heq hgranted => ?_)
  · rw [hindex] at hi
    cases hi
  · rw [List.mem_singleton.mp he]
    rfl
  · cases heq
    rw [List.append_nil] at hgranted ⊢
    obtain ⟨i, hi, hfresh⟩ := h.granted b l hb hgranted
    refine ⟨h.services b l hb ▸ hlt, ?_⟩
    rw [hselected i hi]
    exact hfresh

/-- A balancer that was ready can be called. -/
theorem Kept.callable (h : Kept n strategy s tr) (hgranted : Granted b tr) :
    ∃ s' i, s.step (.call b) = some (s', [.called b i]) := by
  obtain ⟨e, he, rfl⟩ := hgranted.exists_mem
  obtain ⟨l, hb⟩ := h.known e he
  obtain ⟨i, hi, -⟩ := h.granted _ l hb hgranted
  obtain ⟨hservices, -, -, hselected⟩ := selectService_eq l
  have hlt : l.selectService.2 < l.selectService.1.services.length := by
    rw [hselected i hi, hservices, h.services _ l hb]
    exact h.index _ l i hb hi
  exact ⟨⟨s.balancers.set e.balancer l.selectService.1⟩, l.selectService.2,
    Option.bind_eq_some_iff.mpr ⟨l, hb, if_pos hlt⟩⟩

theorem Kept.step (h : Kept n strategy s tr) (hn : 0 < n) {op : Op} {events : List Event}
    (hstep : s.step op = some (s', events)) :
    Kept n strategy s' (tr ++ events) := by
  cases op with
  | pollReady b inner =>
    rw [LoadBalancers.step, Option.map_eq_some_iff] at hstep
    obtain ⟨l, hb, heq⟩ := hstep
    cases heq
    have hne : l.services ≠ [] := List.ne_nil_of_length_pos (h.services b l hb ▸ hn)
    refine h.pollReady hb (DesLoadBalancer.polls_pollReady hne (fun i hi => ?_) inner)
    rw [h.services b l hb]
    exact h.index b l i hb hi
  | call b =>
    rw [LoadBalancers.step, Option.bind_eq_some_iff] at hstep
    obtain ⟨l, hb, heq⟩ := hstep
    dsimp only at heq
    split at heq
    · rename_i hlt
      cases heq
      rw [(selectService_eq l).1] at hlt
      exact h.call hb hlt
    · cases heq
  | clone b =>
    rw [LoadBalancers.step, Option.map_eq_some_iff] at hstep
    obtain ⟨l, hb, heq⟩ := hstep
    cases heq
    exact h.clone hb

omit [RangeRng γ] in
theorem kept_new (services : List S) (strategy : DesLoadBalanceStrategy) (rng : γ) :
    Kept services.length strategy (new services strategy rng) [] := by
  have hnew : ∀ b l, (new services strategy rng).balancers.get b = some l →
      l = .new services strategy rng := by
    intro b l hb
    rcases Table.get_insert_eq_some.mp hb with ⟨-, rfl⟩ | hb
    · rfl
    · cases hb
  refine ⟨fun b l hb => ?_, fun b l hb => ?_, fun b l i hb hi => ?_, fun e he => absurd he List.not_mem_nil,
    fun b l _ hgranted => absurd hgranted Trace.not_since_nil, Trace.Each.nil⟩ <;> rw [hnew b l hb] at *
  · rfl
  · rfl
  · cases hi

/-- A `poll_ready` that is pending has polled all backends. -/
theorem Kept.pending (h : Kept n strategy s tr) (hn : 0 < n) {op : Op} {events : List Event}
    (hstep : s.step op = some (s', events)) {b : Nat} (hpending : .ready b .pending ∈ events) :
    ∀ i < n, .polled b i .pending ∈ events := by
  cases op with
  | pollReady b' inner =>
    rw [LoadBalancers.step, Option.map_eq_some_iff] at hstep
    obtain ⟨l, hb, heq⟩ := hstep
    cases heq
    have hne : l.services ≠ [] := List.ne_nil_of_length_pos (h.services b' l hb ▸ hn)
    have hpolls := DesLoadBalancer.polls_pollReady hne
      (fun i hi => h.services b' l hb ▸ h.index b' l i hb hi) inner
    generalize l.pollReady inner = polled at hpolls hpending ⊢
    have hresult : b = b' ∧ polled.result = .pending := by
      rcases List.mem_append.mp hpending with hmem | hmem
      · obtain ⟨p, -, hp⟩ := List.mem_map.mp hmem
        cases hp
      · have heq := List.mem_singleton.mp hmem
        injection heq with hbalancer hresult
        exact ⟨hbalancer, hresult.symm⟩
    obtain ⟨rfl, hresult⟩ := hresult
    cases hpolls with
    | ready polls idx hidx => cases hresult
    | failed readyIndex hready polls e => cases hresult
    | pending polls hall =>
      intro i hi
      have hi' : i < l.services.length := (h.services b l hb).symm ▸ hi
      exact List.mem_append_left _ (List.mem_map.mpr ⟨_, hall i hi', rfl⟩)
  | call b' =>
    rw [LoadBalancers.step, Option.bind_eq_some_iff] at hstep
    obtain ⟨l, hb, heq⟩ := hstep
    dsimp only at heq
    split at heq <;> cases heq
    cases List.mem_singleton.mp hpending
  | clone b' =>
    rw [LoadBalancers.step, Option.map_eq_some_iff] at hstep
    obtain ⟨l, hb, heq⟩ := hstep
    cases heq
    cases List.mem_singleton.mp hpending

/-! ## The round robin -/

/-- Pairs of `poll_ready` and `call`, with backends that are always ready. -/
def rounds (b : Nat) : Nat → List Op
  | 0 => []
  | k + 1 => .pollReady b (fun _ => .ready (.ok ())) :: .call b :: rounds b k

/-- The backend that an event calls. -/
def Event.called? : Event → Option Nat
  | called _ i => some i
  | _ => none

/-- The backend whose turn it is. -/
def turn (l : DesLoadBalancer S γ) : Nat := l.readyIndex.getD (l.currentIndex % l.services.length)

theorem pollReady_ready (hne : l.services ≠ []) (hstrategy : l.strategy = .roundRobin) :
    l.pollReady (fun _ => .ready (.ok ())) =
      ⟨{ l with readyIndex := some (turn l) }, [(turn l, .ready (.ok ()))], .ready (.ok ())⟩ := by
  rw [DesLoadBalancer.pollReady, if_neg hne, turn]
  cases hready : l.readyIndex with
  | none =>
    obtain ⟨k, hk⟩ := Nat.exists_eq_succ_of_ne_zero (List.length_pos_of_ne_nil hne).ne'
    have hstart : l.peekStartIndex = l.currentIndex % l.services.length := by
      rw [DesLoadBalancer.peekStartIndex, if_neg hne, hstrategy]
    have hlt : l.currentIndex % l.services.length < l.services.length :=
      Nat.mod_lt _ (List.length_pos_of_ne_nil hne)
    dsimp only
    rw [hstart, hk, List.range_succ_eq_map, DesLoadBalancer.scan, Nat.add_zero, ← hk, Nat.mod_eq_of_lt hlt]
    rfl
  | some idx =>
    have hl : { l with readyIndex := some idx } = l := by rw [← hready]
    rw [Option.getD_some, hl]

theorem selectService_ready (hne : l.services ≠ []) (hstrategy : l.strategy = .roundRobin) (c : Nat) :
    { l with readyIndex := some c }.selectService =
      ({ l with readyIndex := none, currentIndex := (c + 1) % l.services.length }, c) := by
  rw [DesLoadBalancer.selectService]
  dsimp only
  rw [DesLoadBalancer.commitSelectedIndex, if_neg hne]
  dsimp only
  rw [hstrategy]

/-- What the pairs call: the turns of a round robin. -/
theorem round_run (hn : n = l.services.length) (hne : l.services ≠ []) (hstrategy : l.strategy = .roundRobin)
    (hindex : ∀ i, l.readyIndex = some i → i < n) (hb : s.balancers.get b = some l) (k : Nat) :
    ∃ s' answers, Machine.run step s (rounds b k) = some (s', answers) ∧
      answers.flatten.filterMap Event.called? = Vec.turns (List.range n) (turn l) k := by
  induction k generalizing s l with
  | zero => exact ⟨s, [], rfl, rfl⟩
  | succ k ih =>
    have hlt : turn l < n := by
      rw [turn]
      cases hready : l.readyIndex with
      | none =>
        rw [hn]
        exact Nat.mod_lt _ (List.length_pos_of_ne_nil hne)
      | some i => exact hindex i hready
    have hpoll : s.step (.pollReady b fun _ => .ready (.ok ())) =
        some (⟨s.balancers.set b { l with readyIndex := some (turn l) }⟩,
          [.polled b (turn l) (.ready (.ok ())), .ready b (.ready (.ok ()))]) := by
      rw [step, hb, Option.map_some, pollReady_ready hne hstrategy]
      rfl
    have hcall : step ⟨s.balancers.set b { l with readyIndex := some (turn l) }⟩ (.call b) =
        some (⟨s.balancers.set b { l with readyIndex := none, currentIndex := (turn l + 1) % l.services.length }⟩,
          [.called b (turn l)]) := by
      rw [step, Table.get_set_self hb, Option.bind_some, selectService_ready hne hstrategy]
      dsimp only
      rw [if_pos (hn ▸ hlt), Table.set_set]
    obtain ⟨s', answers, hrun, hcalled⟩ := ih (s := ⟨s.balancers.set b
      { l with readyIndex := none, currentIndex := (turn l + 1) % l.services.length }⟩)
      (l := { l with readyIndex := none, currentIndex := (turn l + 1) % l.services.length }) hn hne hstrategy
      (by rintro _ ⟨⟩) (Table.get_set_self hb)
    refine ⟨s', _ :: _ :: answers, Machine.run_cons.mpr
      ⟨_, _, _, hpoll, Machine.run_cons.mpr ⟨_, _, _, hcall, hrun, rfl⟩, rfl⟩, ?_⟩
    have hturn : turn { l with readyIndex := none, currentIndex := (turn l + 1) % l.services.length } =
        (turn l + 1) % n := by
      rw [turn, hn]
      exact Nat.mod_mod _ _
    rw [Vec.turns, List.length_range, Nat.mod_eq_of_lt hlt, List.getElem?_range hlt, ← hturn, ← hcalled]
    rfl

/-- In every run of balancers with backends: a call after `poll_ready` was ready can be made, and
goes to a backend that is ready, by its last poll, and that has not been called since; a
`poll_ready` that is pending has found every backend pending; and with the strategy `RoundRobin` as
many pairs of `poll_ready` and `call` as there are backends, which are ready, call each of them
once. -/
theorem run_balanced (services : List S) (hne : services ≠ []) (strategy : DesLoadBalanceStrategy) (rng : γ) {ops : List Op}
    {answers : List (List Event)} (hrun : Machine.run step (new services strategy rng) ops = some (s, answers)) :
    Trace.Each (fun pre e => ∀ b i, e = .called b i → Granted b pre → i < services.length ∧ Fresh b i pre) answers.flatten ∧
    (∀ b, Granted b answers.flatten → ∃ s' i, step s (.call b) = some (s', [.called b i])) ∧
    (∀ events ∈ answers, ∀ b, .ready b .pending ∈ events → ∀ i < services.length, .polled b i .pending ∈ events) ∧
    (strategy = .roundRobin → ∀ b l, s.balancers.get b = some l → ∃ s' answers',
      Machine.run step s (rounds b services.length) = some (s', answers') ∧
        (answers'.flatten.filterMap Event.called?).Perm (List.range services.length)) := by
  have hn := List.length_pos_of_ne_nil hne
  have hkept : Kept services.length strategy s ([] ++ answers).flatten :=
    Machine.run_history (P := fun s answers => Kept services.length strategy s answers.flatten)
      (fun s op s' events answers h hstep => by
        rw [List.flatten_append, List.flatten_singleton]
        exact h.step hn hstep) (kept_new services strategy rng) hrun
  refine ⟨hkept.dispatched, fun b hgranted => hkept.callable hgranted, ?_, ?_⟩
  · refine Machine.run_answers (P := fun s => ∃ tr, Kept services.length strategy s tr)
      (fun s op s' events h hstep => ?_)
      ⟨[], kept_new services strategy rng⟩ hrun
    obtain ⟨tr, h⟩ := h
    exact ⟨⟨_, h.step hn hstep⟩, fun b => h.pending hn hstep⟩
  · rintro rfl b l hb
    have hlength := hkept.services b l hb
    obtain ⟨s', answers', hrounds, hcalled⟩ := round_run hlength.symm
      (List.ne_nil_of_length_pos (hlength ▸ hn))
      (hkept.strategy b l hb) (fun i hi => hkept.index b l i hb hi) hb services.length
    refine ⟨s', answers', hrounds, ?_⟩
    rw [hcalled]
    have hturns := Vec.turns_length (List.range services.length) (turn l)
    rw [List.length_range] at hturns
    rw [hturns]
    exact List.rotate_perm _ _

/-- A generator that counts. -/
instance : RangeRng Nat := ⟨fun rng n => (rng % n, rng + 1)⟩

/-- The first backend is pending and the second one ready; then it is pending, and so are the
others; then the third one is ready, and is called. A clone is made and finds the first backend
ready. -/
def wavering : List Op :=
  [.pollReady 0 fun k => if k = 1 then .ready (.ok ()) else .pending, .pollReady 0 fun _ => .pending,
    .pollReady 0 fun k => if k = 2 then .ready (.ok ()) else .pending, .call 0, .clone 0, .pollReady 1 fun _ => .ready (.ok ())]

theorem run_balanced_wavering : ∃ s answers,
    Machine.run step (new ['a', 'b', 'c'] .roundRobin 0 : LoadBalancers Char Nat) wavering = some (s, answers) ∧
    Event.called 0 2 ∈ answers.flatten ∧
    Trace.Each (fun pre e => ∀ b i, e = .called b i → Granted b pre → i < 3 ∧ Fresh b i pre) answers.flatten ∧
    ∃ s' answers', Machine.run step s (rounds 1 3) = some (s', answers') ∧
      (answers'.flatten.filterMap Event.called?).Perm [0, 1, 2] := by
  have hrun : Machine.run step (new ['a', 'b', 'c'] .roundRobin 0 : LoadBalancers Char Nat) wavering =
    some (_, _) := rfl
  have hbalanced := run_balanced ['a', 'b', 'c'] (List.cons_ne_nil _ _) .roundRobin 0 hrun
  exact ⟨_, _, hrun, by decide, hbalanced.1, hbalanced.2.2.2 rfl 1 _ rfl⟩

end LoadBalancers

end DesCartes.Tower
