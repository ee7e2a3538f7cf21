import Mathlib.Data.List.Basic

/-!
# Clients of an oracle

A `Client` is a deterministic computation that asks questions and goes on with the answers. An
oracle is a function from its state and a question to the answer and its next state. `run` is what
comes of a client and an oracle, `log` the questions that were asked with their answers.

* `run_bind`: one client after the other;
* `Holds.bind`, `Holds.log`, `Holds.result`: what is true of the questions and the result of a
  client, whatever it is answered; `Holds.run_congr`, `Holds.bind_congr`: what this leaves open;
* `Holds.recorded`: what an oracle keeps that writes down each answer;
* `run_follows`: with an oracle that gives the answers of a log, the client asks the same questions
  and has the same result; `log_branch`: with one that gives them up to a question, it asks that
  question too;
* `tryRun_bind`, `tryRun_recorded`, `tryRun_follows`: the same with an oracle that can fail, and
  `tryRun_map` for two oracles one of which is the other one on part of its states.
-/

namespace DesCartes

/-- A computation that asks questions. -/
inductive Client (Q A R : Type*) where
  | done (result : R)
  | ask (question : Q) (next : A → Client Q A R)

namespace Client

variable {Q A R S σ σ' β : Type*}

/-- One client, and then another one with its result. -/
def bind : Client Q A R → (R → Client Q A S) → Client Q A S
  | done r, f => f r
  | ask q next, f => ask q fun a => (next a).bind f

/-- The result of a client of the oracle `o`, and the oracle's state afterwards. -/
def run (o : σ → Q → A × σ) : Client Q A R → σ → R × σ
  | done r, s => (r, s)
  | ask q next, s => (next (o s q).1).run o (o s q).2

/-- The questions of a client, and the answers of the oracle `o`. -/
def log (o : σ → Q → A × σ) : Client Q A R → σ → List (Q × A)
  | done _, _ => []
  | ask q next, s => (q, (o s q).1) :: (next (o s q).1).log o (o s q).2

/-- `P` of every question that the client can ask, and `F` of every result. -/
def Holds (P : Q → Prop) (F : R → Prop) : Client Q A R → Prop
  | done r => F r
  | ask q next => P q ∧ ∀ a, (next a).Holds P F

section
variable {o : σ → Q → A × σ} {o' : σ' → Q → A × σ'} {P : Q → Prop} {F : R → Prop} {c : Client Q A R}

@[simp] theorem bind_done (c : Client Q A R) : c.bind done = c := by
  induction c with
  | done r => rfl
  | ask q next ih => exact congrArg (ask q) (funext ih)

theorem bind_assoc {S' : Type*} (c : Client Q A R) (f : R → Client Q A S) (g : S → Client Q A S') :
    (c.bind f).bind g = c.bind fun r => (f r).bind g := by
  induction c with
  | done r => rfl
  | ask q next ih => exact congrArg (ask q) (funext ih)

theorem run_bind (c : Client Q A R) (f : R → Client Q A S) (s : σ) :
    (c.bind f).run o s = (f (c.run o s).1).run o (c.run o s).2 := by
  induction c generalizing s with
  | done r => rfl
  | ask q next ih => exact ih ..

theorem Holds.bind {G : S → Prop} {f : R → Client Q A S} (h : c.Holds P F) (hf : ∀ r, F r → (f r).Holds P G) :
    (c.bind f).Holds P G := by
  induction c with
  | done r => exact hf r h
  | ask q next ih => exact ⟨h.1, fun a => ih a (h.2 a)⟩

theorem Holds.result (h : c.Holds P F) (s : σ) : F (c.run o s).1 := by
  induction c generalizing s with
  | done r => exact h
  | ask q next ih => exact ih _ (h.2 _) _

/-- Another oracle, which answers alike where `P` holds. -/
theorem Holds.run_congr (h : c.Holds P F) {o₁ o₂ : σ → Q → A × σ}
    (ho : ∀ s q, P q → o₁ s q = o₂ s q) (s : σ) :
    c.run o₁ s = c.run o₂ s := by
  induction c generalizing s with
  | done r => rfl
  | ask q next ih =>
    simp only [Client.run]
    rw [ho s q h.1]
    exact ih _ (h.2 _) _

/-- Another way to go on, which is the same where `F` holds. -/
theorem Holds.bind_congr {f g : R → Client Q A S} (h : c.Holds P F) (hfg : ∀ r, F r → f r = g r) :
    c.bind f = c.bind g := by
  induction c with
  | done r => exact hfg r h
  | ask q next ih => exact congrArg (ask q) (funext fun a => ih a (h.2 a))

theorem Holds.mono (h : c.Holds P F) {P' : Q → Prop} {F' : R → Prop} (hP : ∀ q, P q → P' q)
    (hF : ∀ r, F r → F' r) :
    c.Holds P' F' := by
  induction c with
  | done r => exact hF r h
  | ask q next ih => exact ⟨hP q h.1, fun a => ih a (h.2 a)⟩

theorem Holds.log (h : c.Holds P F) {G : Q → A → Prop} (ho : ∀ s q, P q → G q (o s q).1) (s : σ) :
    ∀ e ∈ c.log o s, P e.1 ∧ G e.1 e.2 := by
  induction c generalizing s with
  | done r => exact fun e he => absurd he List.not_mem_nil
  | ask q next ih => exact List.forall_mem_cons.mpr ⟨⟨h.1, ho s q h.1⟩, ih _ (h.2 _) _⟩

/-- What an oracle has written down that writes down each answer. -/
theorem Holds.recorded (h : c.Holds P F) {record : σ → List β} {entry : Q × A → β}
    (ho : ∀ s q, P q → record (o s q).2 = record s ++ [entry (q, (o s q).1)]) (s : σ) :
    record (c.run o s).2 = record s ++ (c.log o s).map entry := by
  induction c generalizing s with
  | done r => exact (List.append_nil _).symm
  | ask q next ih =>
    simp only [Client.run, Client.log, List.map_cons]
    rw [ih _ (h.2 _), ho s q h.1, List.append_assoc, List.singleton_append]

/-- An oracle that gives the answers of a log: `G t l` says that in the state `t` it gives those of `l`. -/
theorem run_follows {G : σ' → List (Q × A) → Prop}
    (ho : ∀ t q a l, G t ((q, a) :: l) → (o' t q).1 = a ∧ G (o' t q).2 l) (c : Client Q A R) {s : σ}
    {t : σ'} {rest : List (Q × A)} (h : G t (c.log o s ++ rest)) :
    (c.run o' t).1 = (c.run o s).1 ∧ c.log o' t = c.log o s ∧ G (c.run o' t).2 rest := by
  induction c generalizing s t with
  | done r => exact ⟨rfl, rfl, h⟩
  | ask q next ih =>
    obtain ⟨ha, hf⟩ := ho t q _ _ h
    simp only [run, log]
    rw [ha]
    obtain ⟨h₁, h₂, h₃⟩ := ih _ hf
    exact ⟨h₁, congrArg _ h₂, h₃⟩

/-- Each answer of a log is given in a state that goes with what came before it. -/
theorem exists_of_log {I : σ → List (Q × A) → Prop}
    (hI : ∀ s q l, I s l → I (o s q).2 (l ++ [(q, (o s q).1)])) {c : Client Q A R} {s : σ}
    {pre l rest : List (Q × A)} {q : Q} {a : A} (h : I s pre)
    (hlog : c.log o s = l ++ (q, a) :: rest) :
    ∃ t, I t (pre ++ l) ∧ (o t q).1 = a := by
  induction c generalizing s pre l with
  | done r => simp [log] at hlog
  | ask q' next ih =>
    rcases List.cons_eq_append_iff.mp hlog with ⟨rfl, he⟩ | ⟨l, rfl, he⟩
    · obtain ⟨⟨rfl, rfl⟩, -⟩ := List.cons.inj he |>.imp_left Prod.mk.inj
      exact ⟨s, by rwa [List.append_nil], rfl⟩
    · obtain ⟨t, ht, ha⟩ := ih _ (hI s q' pre h) he
      exact ⟨t, by rwa [List.append_assoc] at ht, ha⟩

/-- An oracle that gives the answers of a log up to one question is asked that question too. -/
theorem log_branch {I : σ' → List (Q × A) → Prop}
    (hI : ∀ t q l, I t l → I (o' t q).2 (l ++ [(q, (o' t q).1)])) {c : Client Q A R} {s : σ}
    {t : σ'} {pre l rest : List (Q × A)} {q : Q} {a : A} (h : I t pre)
    (hlog : c.log o s = l ++ (q, a) :: rest)
    (hans : ∀ l₁ e l₂, l = l₁ ++ e :: l₂ → ∀ t, I t (pre ++ l₁) → (o' t e.1).1 = e.2) :
    ∃ t' rest', I t' (pre ++ l) ∧ c.log o' t = l ++ (q, (o' t' q).1) :: rest' := by
  induction c generalizing s t pre l with
  | done r => simp [log] at hlog
  | ask q' next ih =>
    rcases List.cons_eq_append_iff.mp hlog with ⟨rfl, he⟩ | ⟨l, rfl, he⟩
    · obtain ⟨⟨rfl, -⟩, -⟩ := List.cons.inj he |>.imp_left Prod.mk.inj
      exact ⟨t, _, by rwa [List.append_nil], rfl⟩
    · have ha : (o' t q').1 = (o s q').1 := hans [] _ l rfl t (by rwa [List.append_nil])
      have hnext := hI t q' pre h
      rw [ha] at hnext
      obtain ⟨t', rest', ht, hlog'⟩ := ih _ hnext he fun l₁ e l₂ hl u hu =>
        hans ((q', (o s q').1) :: l₁) e l₂ (by rw [hl]; rfl) u (by rwa [List.append_assoc] at hu)
      rw [List.append_assoc] at ht
      refine ⟨t', rest', ht, ?_⟩
      rw [log, ha, hlog']
      rfl

end

/-! ## Oracles that can fail -/

/-- How a client has ended: its result, its questions and the answers, and the state of the oracle. -/
structure Trial (Q A R σ : Type*) where
  result : R
  log : List (Q × A)
  state : σ

/-- The trial of a client that has asked before. -/
def Trial.after (log : List (Q × A)) (t : Trial Q A R σ) : Trial Q A R σ := { t with log := log ++ t.log }

/-- The trial with another state of the oracle. -/
def Trial.mapState (h : σ → σ') (t : Trial Q A R σ) : Trial Q A R σ' := ⟨t.result, t.log, h t.state⟩

variable {ε : Type*}

/-- What comes of a client and the oracle `o`, which can fail. -/
def tryRun (o : σ → Q → Except ε (A × σ)) : Client Q A R → σ → Except ε (Trial Q A R σ)
  | done r, s => .ok ⟨r, [], s⟩
  | ask q next, s => (o s q).bind fun p => ((next p.1).tryRun o p.2).map (Trial.after [(q, p.1)])

section
variable {o : σ → Q → Except ε (A × σ)} {o' : σ' → Q → Except ε (A × σ')} {s : σ} {t : Trial Q A R σ}

theorem tryRun_ask {q : Q} {next : A → Client Q A R} :
    (ask q next).tryRun o s = .ok t ↔
      ∃ a u t', o s q = .ok (a, u) ∧ (next a).tryRun o u = .ok t' ∧ t = t'.after [(q, a)] := by
  cases h : o s q with
  | error e => simp [tryRun, h, Except.bind]
  | ok p =>
    obtain ⟨a, u⟩ := p
    simp only [tryRun, h, Except.bind, Except.ok.injEq, Prod.mk.injEq]
    cases h' : (next a).tryRun o u with
    | error e =>
      refine iff_of_false (fun h => by cases h) ?_
      rintro ⟨_, _, _, ⟨rfl, rfl⟩, h, -⟩
      cases h'.symm.trans h
    | ok t' =>
      refine ⟨fun h => ⟨a, u, t', ⟨rfl, rfl⟩, h', (Except.ok.inj h).symm⟩, ?_⟩
      rintro ⟨_, _, _, ⟨rfl, rfl⟩, h, rfl⟩
      cases h'.symm.trans h
      rfl

theorem tryRun_bind (c : Client Q A R) (f : R → Client Q A S) (s : σ) :
    (c.bind f).tryRun o s = (c.tryRun o s).bind fun t => ((f t.result).tryRun o t.state).map
      (Trial.after t.log) := by
  induction c generalizing s with
  | done r => cases h : (f r).tryRun o s <;> simp [bind, tryRun, h, Except.bind, Except.map, Trial.after]
  | ask q next ih =>
    simp only [bind, tryRun]
    cases o s q with
    | error e => rfl
    | ok p =>
      simp only [Except.bind, ih]
      cases (next p.1).tryRun o p.2 with
      | error e => rfl
      | ok t => cases h : (f t.result).tryRun o t.state <;> simp [h, Except.map, Trial.after]

/-- The errors of a client are those of the oracle. -/
theorem tryRun_error {P : ε → Prop} (ho : ∀ s q e, o s q = .error e → P e) {c : Client Q A R} {e : ε}
    (h : c.tryRun o s = .error e) : P e := by
  induction c generalizing s with
  | done r => cases h
  | ask q next ih =>
    rw [tryRun] at h
    cases hq : o s q with
    | error e' =>
      rw [hq] at h
      cases h
      exact ho s q e hq
    | ok p =>
      cases hn : (next p.1).tryRun o p.2 with
      | error e' =>
        simp only [hq, Except.bind, hn, Except.map] at h
        cases h
        exact ih p.1 hn
      | ok t => simp [hq, Except.bind, hn, Except.map] at h

/-- What an oracle has written down that writes down each answer, and what is true of each. -/
theorem tryRun_recorded {record : σ → List β} {entry : Q × A → β} {G : Q × A → Prop}
    (ho : ∀ s q a u, o s q = .ok (a, u) → G (q, a) ∧ record u = record s ++ [entry (q, a)]) {c : Client Q A R}
    (h : c.tryRun o s = .ok t) : (∀ e ∈ t.log, G e) ∧ record t.state = record s ++ t.log.map entry := by
  induction c generalizing s t with
  | done r =>
    cases h
    exact ⟨fun e he => absurd he List.not_mem_nil, (List.append_nil _).symm⟩
  | ask q next ih =>
    obtain ⟨a, u, t', h₁, h₂, rfl⟩ := tryRun_ask.mp h
    obtain ⟨hG, hu⟩ := ho s q a u h₁
    obtain ⟨hall, hrec⟩ := ih a h₂
    refine ⟨List.forall_mem_cons.mpr ⟨hG, hall⟩, ?_⟩
    show record t'.state = _
    rw [hrec, hu, List.append_assoc]
    rfl

/-- An oracle that gives the answers of a log: `G u l` says that in the state `u` it gives those of `l`. -/
theorem tryRun_follows {G : σ' → List (Q × A) → Prop}
    (ho : ∀ u q a l, G u ((q, a) :: l) → ∃ u', o' u q = .ok (a, u') ∧ G u' l) {c : Client Q A R}
    (h : c.tryRun o s = .ok t) {u : σ'} {rest : List (Q × A)} (hG : G u (t.log ++ rest)) :
    ∃ u', c.tryRun o' u = .ok ⟨t.result, t.log, u'⟩ ∧ G u' rest := by
  induction c generalizing s t u with
  | done r =>
    cases h
    exact ⟨u, rfl, hG⟩
  | ask q next ih =>
    obtain ⟨a, v, t', h₁, h₂, rfl⟩ := tryRun_ask.mp h
    obtain ⟨u₁, hu₁, hG₁⟩ := ho u q a _ hG
    obtain ⟨u₂, hu₂, hG₂⟩ := ih a h₂ hG₁
    exact ⟨u₂, tryRun_ask.mpr ⟨a, u₁, _, hu₁, hu₂, rfl⟩, hG₂⟩

/-- An oracle that does in the states `f u` what another one does in `u`. -/
theorem tryRun_map {f : σ' → σ} (ho : ∀ u q, o (f u) q = (o' u q).map fun p => (p.1, f p.2))
    (c : Client Q A R) (u : σ') :
    c.tryRun o (f u) = (c.tryRun o' u).map (Trial.mapState f) := by
  induction c generalizing u with
  | done r => rfl
  | ask q next ih =>
    simp only [tryRun, ho]
    cases o' u q with
    | error e => rfl
    | ok p =>
      simp only [Except.map, Except.bind, ih]
      cases (next p.1).tryRun o' p.2 <;> rfl

end

end Client

end DesCartes
