import DesCartes.Impl.Tower.Basic

/-!
# The load balancer (`des-tower/src/tower/load_balancer/mod.rs`)

What a backend answers to a poll is given with the operation, which records the polls and the calls
that the backends get. The random number generator is a parameter.
-/

namespace DesCartes.Tower

/-- `DesLoadBalanceStrategy`. -/
inductive DesLoadBalanceStrategy where
  | roundRobin
  | random
  | leastConnections
deriving DecidableEq

/-- A random number generator, and `gen_range(0..n)`. -/
class RangeRng (γ : Type) where
  genRange : γ → Nat → Nat × γ

/-- What a poll for readiness returns. -/
abbrev Readiness := Poll (Except ServiceError Unit)

/-- `DesLoadBalancer`, with backends of type `S`. -/
structure DesLoadBalancer (S γ : Type) where
  services : List S
  strategy : DesLoadBalanceStrategy
  currentIndex : Nat
  rng : γ
  readyIndex : Option Nat

namespace DesLoadBalancer

variable {S γ : Type}

/-- `DesLoadBalancer::with_seed`, given the generator of the seed. -/
def new (services : List S) (strategy : DesLoadBalanceStrategy) (rng : γ) : DesLoadBalancer S γ :=
  ⟨services, strategy, 0, rng, none⟩

/-- `Clone for DesLoadBalancer`. -/
def clone (l : DesLoadBalancer S γ) : DesLoadBalancer S γ := { l with readyIndex := none }

/-- What the polls of backends come to: the balancer, the backends that were polled with their
answers, and the result. -/
structure Polled (S γ : Type) where
  balancer : DesLoadBalancer S γ
  polls : List (Nat × Readiness)
  result : Readiness

variable [RangeRng γ]

/-- `DesLoadBalancer::peek_start_index`. -/
def peekStartIndex (l : DesLoadBalancer S γ) : Nat :=
  if l.services = [] then 0
  else
    match l.strategy with
    | .roundRobin | .leastConnections => l.currentIndex % l.services.length
    | .random => (RangeRng.genRange l.rng l.services.length).1

/-- `DesLoadBalancer::commit_selected_index`. -/
def commitSelectedIndex (l : DesLoadBalancer S γ) (idx : Nat) : DesLoadBalancer S γ :=
  if l.services = [] then l
  else
    match l.strategy with
    | .roundRobin | .leastConnections => { l with currentIndex := (idx + 1) % l.services.length }
    | .random => { l with rng := (RangeRng.genRange l.rng l.services.length).2 }

/-- `DesLoadBalancer::select_service`. -/
def selectService (l : DesLoadBalancer S γ) : DesLoadBalancer S γ × Nat :=
  match l.readyIndex with
  | some idx => ({ l with readyIndex := none }.commitSelectedIndex idx, idx)
  | none =>
    let start := l.peekStartIndex
    (l.commitSelectedIndex start, start)

omit [RangeRng γ] in
/-- The loop of `poll_ready`, with the offsets that are left. The answer to the `k`-th poll is `inner k`. -/
def scan (l : DesLoadBalancer S γ) (start : Nat) (inner : Nat → Readiness) : Nat → List Nat → Polled S γ
  | _, [] => ⟨l, [], .pending⟩
  | k, offset :: offsets =>
    let idx := (start + offset) % l.services.length
    match inner k with
    | .ready (.ok ()) => ⟨{ l with readyIndex := some idx }, [(idx, .ready (.ok ()))], .ready (.ok ())⟩
    | .ready (.error e) => ⟨l, [(idx, .ready (.error e))], .ready (.error e)⟩
    | .pending =>
      let polled := l.scan start inner (k + 1) offsets
      { polled with polls := (idx, .pending) :: polled.polls }

/-- `DesLoadBalancer::poll_ready`. -/
def pollReady (l : DesLoadBalancer S γ) (inner : Nat → Readiness) : Polled S γ :=
  if l.services = [] then ⟨l, [], .ready (.error (.internal "load balancer has no backends".toList))⟩
  else
    match l.readyIndex with
    | some idx =>
      match inner 0 with
      | .ready (.ok ()) => ⟨l, [(idx, .ready (.ok ()))], .ready (.ok ())⟩
      | .ready (.error e) => ⟨l, [(idx, .ready (.error e))], .ready (.error e)⟩
      | .pending =>
        let l := { l with readyIndex := none }
        let polled := l.scan l.peekStartIndex inner 1 (List.range l.services.length)
        { polled with polls := (idx, .pending) :: polled.polls }
    | none => l.scan l.peekStartIndex inner 0 (List.range l.services.length)

end DesLoadBalancer

/-- The balancers that are clones of one. -/
structure LoadBalancers (S γ : Type) where
  balancers : Table (DesLoadBalancer S γ)

namespace LoadBalancers

variable {S γ : Type}

/-- An operation on a balancer. -/
inductive Op where
  | pollReady (balancer : Nat) (inner : Nat → Readiness)
  | call (balancer : Nat)
  | clone (balancer : Nat)

/-- What an operation does: a balancer polls a backend, returns from `poll_ready`, or calls a
backend, or is made. -/
inductive Event where
  | polled (balancer backend : Nat) (result : Readiness)
  | ready (balancer : Nat) (result : Readiness)
  | called (balancer backend : Nat)
  | cloned (balancer clone : Nat)
deriving DecidableEq

/-- One balancer. -/
def new (services : List S) (strategy : DesLoadBalanceStrategy) (rng : γ) : LoadBalancers S γ :=
  ⟨Table.empty.insert (.new services strategy rng)⟩

variable [RangeRng γ]

/-- One operation; none where the balancer does not exist, or calls a backend that it does not have. -/
def step (s : LoadBalancers S γ) : Op → Option (LoadBalancers S γ × List Event)
  | .pollReady b inner => (s.balancers.get b).map fun l =>
    let polled := l.pollReady inner
    (⟨s.balancers.set b polled.balancer⟩, polled.polls.map (fun p => .polled b p.1 p.2) ++ [Event.ready b polled.result])
  | .call b => (s.balancers.get b).bind fun l =>
    let (l, index) := l.selectService
    if index < l.services.length then some (⟨s.balancers.set b l⟩, [.called b index]) else none
  | .clone b => (s.balancers.get b).map fun l => (⟨s.balancers.insert l.clone⟩, [.cloned b s.balancers.next])

end LoadBalancers

end DesCartes.Tower
