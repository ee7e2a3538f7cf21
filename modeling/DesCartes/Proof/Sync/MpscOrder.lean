import Mathlib.Data.List.Perm.Subperm
import DesCartes.Proof.Sync.MpscWaiters

/-!
# The wait order of a channel

`run_orderly_iff`: `send_wait_order` has the id of each future of `send` that waits once, in the
order in which they began to wait, and besides only ids of futures that were dropped or completed
while they waited, exactly as long as no future that waits is polled again while the queue is full
(`Attentive`).

`poll` cannot tell such a future from one that was woken and lost the race, and puts its id into the
order another time (`not_orderly_polledAgain`).
-/

namespace DesCartes.Mpsc

variable {τ ω : Type}

/-- The ids of the futures of `send` that are alive. -/
def ids (c : Mpsc τ ω) : List Nat := (List.range c.sends.next).filterMap fun i => (c.sends.get i).bind (·.future.waiterId)

/-- The ids of the futures of `send` that are alive and wait: their wakers are filed. -/
def waiting (c : Mpsc τ ω) : List Nat := c.ids.filter fun id => (c.state.sendWaiters.get? id).isSome

/-- A channel, and what has happened to the futures of `send` that wait. -/
structure Observed (τ ω : Type) where
  channel : Mpsc τ ω
  /-- The ids of those that have waited, in the order in which each of them began to for the last time. -/
  line : List Nat
  /-- The ids of those that were dropped, or completed, while they waited. -/
  left : List Nat

/-- The channel is `c` now. -/
def Observed.next (o : Observed τ ω) (c : Mpsc τ ω) : Observed τ ω :=
  let began := c.waiting.filter (· ∉ o.channel.waiting)
  ⟨c, o.line.filter (· ∉ began) ++ began, o.left ++ o.channel.waiting.filter (· ∉ c.ids)⟩

/-- A call, and what happens to the futures that wait. -/
def observe [DecidableEq ω] (o : Observed τ ω) (op : Op τ ω) : Option (Observed τ ω × List (Answer τ)) :=
  (o.channel.call op).map fun (c, answers) => (o.next c, answers)

/-- Each future of `send` that waits is in the order once, in the order in which they began to, and
what else is there was left by futures that are gone. -/
structure Orderly (o : Observed τ ω) : Prop where
  once : ∀ id ∈ o.channel.waiting, o.channel.state.sendWaitOrder.count id = 1
  inOrder : o.channel.state.sendWaitOrder.filter (· ∈ o.channel.waiting) = o.line.filter (· ∈ o.channel.waiting)
  bounded : o.channel.state.sendWaitOrder.length ≤ o.channel.waiting.length + o.left.length

/-- A future of `send` that waits is not polled while the queue is full, as long as the receiver is alive. -/
def Attentive (o : Observed τ ω) : Op τ ω → Prop
  | .poll i _ => o.channel.Registered i → o.channel.state.receiverAlive = true →
      o.channel.state.queue.length < o.channel.state.capacity
  | _ => True

section
variable {c : Mpsc τ ω} {i id : Nat}

theorem mem_ids : id ∈ c.ids ↔ ∃ i p, c.sends.get i = some p ∧ p.future.waiterId = some id := by
  simp only [ids, List.mem_filterMap, List.mem_range, Option.bind_eq_some_iff]
  constructor
  · rintro ⟨i, -, p, hi, hid⟩
    exact ⟨i, p, hi, hid⟩
  · rintro ⟨i, p, hi, hid⟩
    exact ⟨i, Table.lt_next hi, p, hi, hid⟩

theorem mem_waiting : id ∈ c.waiting ↔ id ∈ c.ids ∧ ∃ w, c.state.sendWaiters.get? id = some w := by
  simp only [waiting, List.mem_filter, Option.isSome_iff_exists]

theorem ids_wake [DecidableEq ω] (wakers : List ω) : (c.wake wakers).ids = c.ids := by
  simp only [ids, wake, Table.map]
  refine List.filterMap_congr fun i _ => ?_
  cases c.sends.get i with
  | none => rfl
  | some p =>
    simp only [Option.map_some, Option.bind_some]
    split <;> rfl

end

/-- A future of `send` has an id of its own. -/
def Own (c : Mpsc τ ω) : Prop :=
  ∀ i j p q id, c.sends.get i = some p → c.sends.get j = some q → p.future.waiterId = some id →
    q.future.waiterId = some id → j = i

theorem Own.nodup_ids {c : Mpsc τ ω} (h : c.Own) : c.ids.Nodup := by
  refine List.Nodup.filterMap (fun i j id hi hj => ?_) List.nodup_range
  obtain ⟨p, hp, hpid⟩ := Option.bind_eq_some_iff.mp hi
  obtain ⟨q, hq, hqid⟩ := Option.bind_eq_some_iff.mp hj
  exact (h i j p q id hp hq hpid hqid).symm

/-! ## Beginning to wait -/

/-- The channel once the future `i` waits, and is `p'`, under the id. -/
def enlist (c : Mpsc τ ω) (i : Nat) (p' : Send τ ω) (id next : Nat) (w : ω) : Mpsc τ ω :=
  { c with
    state := { c.state with
      nextWaiterId := next
      sendWaitOrder := c.state.sendWaitOrder ++ [id]
      sendWaiters := c.state.sendWaiters.insert id w }
    sends := c.sends.set i p' }

/-- The future `i`, which is `p`, begins to wait under an id that only it has, and is `p'` then. -/
structure Enlists (c : Mpsc τ ω) (i : Nat) (p p' : Send τ ω) (id : Nat) : Prop where
  get : c.sends.get i = some p
  alone : ∀ j q, j ≠ i → c.sends.get j = some q → q.future.waiterId ≠ some id
  same : ∀ x, p.future.waiterId = some x → x = id
  idle : p'.polling = none
  waiterId : p'.future.waiterId = some id

namespace Enlists

variable {c : Mpsc τ ω} {i id next x : Nat} {p p' : Send τ ω} {w : ω}

theorem get_enlist (h : c.Enlists i p p' id) {j : Nat} {q : Send τ ω} :
    (c.enlist i p' id next w).sends.get j = some q ↔ (j = i ∧ q = p') ∨ (j ≠ i ∧ c.sends.get j = some q) :=
  Table.get_set_eq_some h.get

theorem mem_ids_enlist (h : c.Enlists i p p' id) :
    x ∈ (c.enlist i p' id next w).ids ↔ x = id ∨ x ∈ c.ids := by
  simp only [mem_ids]
  constructor
  · rintro ⟨j, q, hj, hq⟩
    rcases h.get_enlist.mp hj with ⟨rfl, rfl⟩ | ⟨-, hj⟩
    · exact .inl (Option.some.inj (hq.symm.trans h.waiterId))
    · exact .inr ⟨j, q, hj, hq⟩
  · rintro (rfl | ⟨j, q, hj, hq⟩)
    · exact ⟨i, p', h.get_enlist.mpr (.inl ⟨rfl, rfl⟩), h.waiterId⟩
    · by_cases hji : j = i
      · subst hji
        cases h.get.symm.trans hj
        exact ⟨j, p', h.get_enlist.mpr (.inl ⟨rfl, rfl⟩), h.waiterId.trans (congrArg some (h.same x hq).symm)⟩
      · exact ⟨j, q, h.get_enlist.mpr (.inr ⟨hji, hj⟩), hq⟩

theorem mem_waiting_enlist (h : c.Enlists i p p' id) :
    x ∈ (c.enlist i p' id next w).waiting ↔ x = id ∨ x ∈ c.waiting := by
  have hfile : (c.enlist i p' id next w).state.sendWaiters = c.state.sendWaiters.insert id w := rfl
  rw [mem_waiting, mem_waiting, h.mem_ids_enlist, hfile]
  by_cases hx : x = id
  · subst hx
    simp [BTreeMap.get?_insert_self]
  · simp [hx, BTreeMap.get?_insert_of_ne hx]

theorem own (h : c.Enlists i p p' id) (hown : c.Own) : (c.enlist i p' id next w).Own := by
  intro j k q r x hj hk hjx hkx
  rcases h.get_enlist.mp hj with ⟨rfl, rfl⟩ | ⟨hji, hj'⟩ <;> rcases h.get_enlist.mp hk with ⟨rfl, rfl⟩
    | ⟨hki, hk'⟩
  · rfl
  · rw [h.waiterId] at hjx
    exact absurd (hkx.trans hjx.symm) (h.alone k r hki hk')
  · rw [h.waiterId] at hkx
    exact absurd (hjx.trans hkx.symm) (h.alone j q hji hj')
  · exact hown j k q r x hj' hk' hjx hkx

/-- Nobody else begins to wait. -/
theorem filter_waiting (h : c.Enlists i p p' id) (hown : c.Own) (hnot : id ∉ c.waiting) :
    (c.enlist i p' id next w).waiting.filter (· ∉ c.waiting) = [id] := by
  have hnodup : ((c.enlist i p' id next w).waiting.filter (· ∉ c.waiting)).Nodup :=
    ((h.own hown).nodup_ids.filter _).filter _
  refine List.perm_singleton.mp
    ((List.perm_ext_iff_of_nodup hnodup (List.nodup_singleton id)).mpr fun x => ?_)
  rw [List.mem_filter, h.mem_waiting_enlist, List.mem_singleton, decide_eq_true_iff]
  constructor
  · rintro ⟨rfl | hx, hx'⟩
    · rfl
    · exact absurd hx hx'
  · rintro rfl
    exact ⟨.inl rfl, hnot⟩

/-- Nobody who waits is gone. -/
theorem filter_ids (h : c.Enlists i p p' id) : c.waiting.filter (· ∉ (c.enlist i p' id next w).ids) = [] := by
  refine List.filter_eq_nil_iff.mpr fun x hx => ?_
  simpa using h.mem_ids_enlist.mpr (.inr (mem_waiting.mp hx).1)

end Enlists

/-! ## The invariant -/

/-- Between two calls. -/
structure Lined (o : Observed τ ω) : Prop where
  idle : ∀ i p, o.channel.sends.get i = some p → p.polling = none
  own : o.channel.Own
  used : ∀ id ∈ o.channel.ids, id < o.channel.state.nextWaiterId
  /-- What is filed is in the order, and of a live future. -/
  filed : ∀ id w, o.channel.state.sendWaiters.get? id = some w → id ∈ o.channel.state.sendWaitOrder ∧ id ∈ o.channel.ids
  order : o.channel.state.sendWaitOrder.Sublist o.line
  nodup : o.line.Nodup
  known : ∀ id ∈ o.line, id < o.channel.state.nextWaiterId
  /-- Nobody else is in the order. -/
  listed : ∀ id ∈ o.channel.state.sendWaitOrder, id ∈ o.channel.waiting ∨ id ∈ o.left
  gone : ∀ id ∈ o.left, id < o.channel.state.nextWaiterId ∧ id ∉ o.channel.ids

namespace Lined

variable {o : Observed τ ω} {c' : Mpsc τ ω} {i : Nat} {p : Send τ ω}

theorem orderly (h : Lined o) : Orderly o := by
  have hnodup : o.channel.state.sendWaitOrder.Nodup := h.nodup.sublist h.order
  have hmem : ∀ id ∈ o.channel.waiting, id ∈ o.channel.state.sendWaitOrder := fun id hid => by
    obtain ⟨-, w, hw⟩ := mem_waiting.mp hid
    exact (h.filed id w hw).1
  refine ⟨fun id hid => List.count_eq_one_of_mem hnodup (hmem id hid), ?_, ?_⟩
  · refine (h.order.filter _).eq_of_length_le
      (List.Nodup.subperm (h.nodup.filter _) fun id hid => ?_).length_le
    obtain ⟨-, hw⟩ := List.mem_filter.mp hid
    exact List.mem_filter.mpr ⟨hmem id (of_decide_eq_true hw), hw⟩
  · rw [← List.length_append]
    exact (hnodup.subperm fun id hid => List.mem_append.mpr (h.listed id hid)).length_le

/-- Nobody begins to wait. -/
theorem shrink (h : Lined o)
    (hsends : ∀ i p', c'.sends.get i = some p' → p'.polling = none ∧ ∀ id, p'.future.waiterId = some id →
      ∃ p, o.channel.sends.get i = some p ∧ p.future.waiterId = some id)
    (hnext : o.channel.state.nextWaiterId ≤ c'.state.nextWaiterId)
    (horder : c'.state.sendWaitOrder.Sublist o.channel.state.sendWaitOrder)
    (hfiled : ∀ id w, c'.state.sendWaiters.get? id = some w → o.channel.state.sendWaiters.get? id = some w ∧
      id ∈ c'.state.sendWaitOrder ∧ id ∈ c'.ids)
    (hkept : ∀ id ∈ c'.state.sendWaitOrder, ∀ w, o.channel.state.sendWaiters.get? id = some w → id ∈ c'.ids →
      c'.state.sendWaiters.get? id = some w) : Lined (o.next c') := by
  have hids : ∀ id ∈ c'.ids, id ∈ o.channel.ids := fun id hid => by
    obtain ⟨i, p', hi, hp'⟩ := mem_ids.mp hid
    obtain ⟨p, hp, hpid⟩ := (hsends i p' hi).2 id hp'
    exact mem_ids.mpr ⟨i, p, hp, hpid⟩
  have hbegan : c'.waiting.filter (· ∉ o.channel.waiting) = [] := by
    refine List.filter_eq_nil_iff.mpr fun id hid => ?_
    obtain ⟨hlive, w, hw⟩ := mem_waiting.mp hid
    simpa using mem_waiting.mpr ⟨hids id hlive, w, (hfiled id w hw).1⟩
  have hline : (o.next c').line = o.line := by
    simp only [Observed.next, hbegan, List.append_nil]
    exact List.filter_eq_self.mpr fun id _ => by simp
  refine ⟨fun i p' hi => (hsends i p' hi).1, fun i j p q id hi hj hp hq => ?_, fun id hid => ?_,
    fun id w hw => (hfiled id w hw).2, ?_, ?_, fun id hid => ?_, fun id hid => ?_, fun id hid => ?_⟩
  · obtain ⟨p₀, hp₀, hpid⟩ := (hsends i p hi).2 id hp
    obtain ⟨q₀, hq₀, hqid⟩ := (hsends j q hj).2 id hq
    exact h.own i j p₀ q₀ id hp₀ hq₀ hpid hqid
  · exact (h.used id (hids id hid)).trans_le hnext
  · rw [hline]
    exact horder.trans h.order
  · rw [hline]
    exact h.nodup
  · rw [hline] at hid
    exact (h.known id hid).trans_le hnext
  · rcases h.listed id (horder.subset hid) with hw | hl
    · by_cases hlive : id ∈ c'.ids
      · obtain ⟨-, w, hw⟩ := mem_waiting.mp hw
        exact .inl (mem_waiting.mpr ⟨hlive, w, hkept id hid w hw hlive⟩)
      · exact .inr (List.mem_append_right _ (List.mem_filter.mpr ⟨hw, by simpa using hlive⟩))
    · exact .inr (List.mem_append_left _ hl)
  · rcases List.mem_append.mp hid with hl | hl
    · exact ⟨(h.gone id hl).1.trans_le hnext, fun hlive => (h.gone id hl).2 (hids id hlive)⟩
    · obtain ⟨hw, hnot⟩ := List.mem_filter.mp hl
      exact ⟨(h.used id (mem_waiting.mp hw).1).trans_le hnext, of_decide_eq_true hnot⟩

/-- The futures that wait are not concerned. -/
theorem same (h : Lined o) (hsends : ∀ i p', c'.sends.get i = some p' → p'.polling = none ∧
      ∀ id, p'.future.waiterId = some id → ∃ p, o.channel.sends.get i = some p ∧ p.future.waiterId = some id)
    (hids : ∀ id ∈ o.channel.ids, id ∈ c'.ids) (hnext : c'.state.nextWaiterId = o.channel.state.nextWaiterId)
    (horder : c'.state.sendWaitOrder = o.channel.state.sendWaitOrder)
    (hwaiters : c'.state.sendWaiters = o.channel.state.sendWaiters) : Lined (o.next c') := by
  refine h.shrink hsends hnext.ge (by rw [horder]) (fun id w hw => ?_) fun id _ w hw _ => ?_
  · rw [hwaiters] at hw
    rw [horder]
    exact ⟨hw, (h.filed id w hw).1, hids id (h.filed id w hw).2⟩
  · rw [hwaiters]
    exact hw

/-- A wake leaves the ids of the futures as they are. -/
theorem wake [DecidableEq ω] (h : Lined (o.next c')) (wakers : List ω) : Lined (o.next (c'.wake wakers)) := by
  have hids := ids_wake (c := c') wakers
  have hwaiting : (c'.wake wakers).waiting = c'.waiting := by
    rw [waiting, hids]
    rfl
  refine ⟨fun i p hp => ?_, fun i j p q id hp hq hpid hqid => ?_, ?_, ?_, ?_, ?_, ?_, ?_, ?_⟩
  · obtain ⟨woken, hp⟩ := get_wake hp
    have := h.idle i _ hp
    exact this
  · obtain ⟨woken, hp⟩ := get_wake hp
    obtain ⟨woken', hq⟩ := get_wake hq
    exact h.own i j _ _ id hp hq hpid hqid
  all_goals simp only [Observed.next, hids, hwaiting]
  · exact h.used
  · exact h.filed
  · exact h.order
  · exact h.nodup
  · exact h.known
  · exact h.listed
  · exact h.gone

/-! ## Operations -/

/-- A future is gone, and its waker with it. -/
theorem erase (h : Lined o) (hi : o.channel.sends.get i = some p) {s' : State τ ω}
    (hnext : s'.nextWaiterId = o.channel.state.nextWaiterId)
    (horder : s'.sendWaitOrder = o.channel.state.sendWaitOrder)
    (hwaiters : s'.sendWaiters = o.channel.state.sendWaiters) :
    Lined (o.next { o.channel with state := p.future.drop s', sends := o.channel.sends.erase i }) := by
  have hsame : (p.future.drop s').nextWaiterId = s'.nextWaiterId ∧
      (p.future.drop s').sendWaitOrder = s'.sendWaitOrder := by
    simp only [SendFuture.drop]
    split <;> exact ⟨rfl, rfl⟩
  have hold : ∀ {j q}, (o.channel.sends.erase i).get j = some q → j ≠ i ∧ o.channel.sends.get j = some q :=
    fun hj => Table.get_erase_eq_some.mp hj
  refine h.shrink (fun j q hj => ⟨h.idle j q (hold hj).2, fun id hid => ⟨q, (hold hj).2, hid⟩⟩)
    (by rw [hsame.1, hnext])
    (by rw [hsame.2, horder]) (fun id w hw => ?_) fun id _ w hw hlive => ?_
  · obtain ⟨hw, hne⟩ := filed_drop hwaiters hw
    obtain ⟨ho, hlive⟩ := h.filed id w hw
    obtain ⟨j, q, hj, hq⟩ := mem_ids.mp hlive
    refine ⟨hw, by rw [hsame.2, horder]; exact ho,
      mem_ids.mpr ⟨j, q, Table.get_erase_eq_some.mpr ⟨?_, hj⟩, hq⟩⟩
    rintro rfl
    rw [hi] at hj
    cases hj
    exact hne hq
  · obtain ⟨j, q, hj, hq⟩ := mem_ids.mp hlive
    obtain ⟨hji, hj⟩ := hold hj
    simp only [SendFuture.drop]
    split
    · rename_i id' hid'
      have hne : id ≠ id' := by
        rintro rfl
        exact hji (h.own i j p q id hi hj hid' hq)
      rw [BTreeMap.get?_erase_of_ne hne, hwaiters]
      exact hw
    · rw [hwaiters]
      exact hw

/-- The first of those that wait is woken, and leaves the order with all that were gone before it. -/
theorem pop (h : Lined o) {queue : List τ} :
    Lined (o.next { o.channel with state := ({ o.channel.state with queue } : State τ ω).wakeOneSender.1 }) := by
  simp only [State.wakeOneSender]
  rcases popWaiter_spec o.channel.state.sendWaiters o.channel.state.sendWaitOrder with
    ⟨hpop, hno⟩ | ⟨pre, id, post, w, horder, hpre, hid, hpop⟩
  · have hnone : ∀ id w, o.channel.state.sendWaiters.get? id ≠ some w := fun id w hw => by
      rw [hno id (h.filed id w hw).1] at hw
      cases hw
    rw [hpop]
    exact h.shrink (fun j q hj => ⟨h.idle j q hj, fun id hid => ⟨q, hj, hid⟩⟩) le_rfl (List.nil_sublist _)
      (fun id w hw => absurd hw (hnone id w)) fun id hid => absurd hid List.not_mem_nil
  · have hnodup : (pre ++ id :: post).Nodup := horder ▸ h.nodup.sublist h.order
    have hpost : id ∉ post := (List.nodup_cons.mp (List.nodup_append.mp hnodup).2.1).1
    rw [hpop]
    refine h.shrink (fun j q hj => ⟨h.idle j q hj, fun id hid => ⟨q, hj, hid⟩⟩) le_rfl ?_ (fun x v hx => ?_)
      fun x hx v hv _ => ?_
    · rw [horder]
      exact (List.sublist_cons_self id post).trans (List.sublist_append_right pre _)
    · obtain ⟨hmem, hne⟩ := BTreeMap.mem_erase.mp (BTreeMap.get?_eq_some.mp hx)
      have hx := BTreeMap.get?_eq_some.mpr hmem
      obtain ⟨ho, hlive⟩ := h.filed x v hx
      refine ⟨hx, ?_, hlive⟩
      rw [horder] at ho
      rcases List.mem_append.mp ho with ho | ho
      · rw [hpre x ho] at hx
        cases hx
      · exact (List.mem_cons.mp ho).resolve_left hne
    · refine (BTreeMap.get?_erase_of_ne ?_).trans hv
      rintro rfl
      exact hpost hx

theorem dropReceiver (h : Lined o) :
    Lined (o.next { o.channel with state := o.channel.state.dropReceiver.1 }) := by
  refine h.shrink (fun j q hj => ⟨h.idle j q hj, fun id hid => ⟨q, hj, hid⟩⟩) le_rfl (List.nil_sublist _)
    (fun id w hw => ?_) fun id hid => absurd hid List.not_mem_nil
  cases hw

/-- A future begins to wait. -/
theorem enlist (h : Lined o) {p' : Send τ ω} {id next : Nat} {w : ω}
    (he : o.channel.Enlists i p p' id) (hnext : o.channel.state.nextWaiterId ≤ next)
    (hid : id < next) (hnew : id ∉ o.channel.state.sendWaitOrder) (hgone : id ∉ o.left) :
    Lined (o.next (o.channel.enlist i p' id next w)) := by
  have hnot : id ∉ o.channel.waiting := fun hw => by
    obtain ⟨-, v, hv⟩ := mem_waiting.mp hw
    exact hnew (h.filed id v hv).1
  have hline : (o.next (o.channel.enlist i p' id next w)).line = o.line.filter (· ≠ id) ++ [id] := by
    simp only [Observed.next, he.filter_waiting h.own hnot, List.mem_singleton, ne_eq]
  have hleft : (o.next (o.channel.enlist i p' id next w)).left = o.left := by
    simp only [Observed.next, he.filter_ids, List.append_nil]
  refine ⟨fun j q hj => ?_, he.own h.own, fun x hx => ?_, fun x v hx => ?_, ?_, ?_, fun x hx => ?_,
    fun x hx => ?_, fun x hx => ?_⟩
  · rcases he.get_enlist.mp hj with ⟨-, rfl⟩ | ⟨-, hj⟩
    · exact he.idle
    · exact h.idle j q hj
  · rcases he.mem_ids_enlist.mp hx with rfl | hx
    · exact hid
    · exact (h.used x hx).trans_le hnext
  · show x ∈ o.channel.state.sendWaitOrder ++ [id] ∧ x ∈ (o.channel.enlist i p' id next w).ids
    by_cases hxid : x = id
    · exact ⟨List.mem_append_right _ (List.mem_singleton.mpr hxid), he.mem_ids_enlist.mpr (.inl hxid)⟩
    · have hx : o.channel.state.sendWaiters.get? x = some v := (BTreeMap.get?_insert_of_ne hxid).symm.trans hx
      exact ⟨List.mem_append_left _ (h.filed x v hx).1, he.mem_ids_enlist.mpr (.inr (h.filed x v hx).2)⟩
  · rw [hline]
    have hself : o.channel.state.sendWaitOrder.filter (· ≠ id) = o.channel.state.sendWaitOrder :=
      List.filter_eq_self.mpr fun x hx => decide_eq_true (ne_of_mem_of_not_mem hx hnew)
    have := h.order.filter (· ≠ id)
    rw [hself] at this
    exact this.append (List.Sublist.refl [id])
  · rw [hline]
    refine List.nodup_append.mpr ⟨h.nodup.filter _, List.nodup_singleton id, fun x hx y hy => ?_⟩
    rw [List.mem_singleton.mp hy]
    exact of_decide_eq_true (List.mem_filter.mp hx).2
  · rw [hline] at hx
    rcases List.mem_append.mp hx with hx | hx
    · exact (h.known x (List.mem_filter.mp hx).1).trans_le hnext
    · rw [List.mem_singleton.mp hx]
      exact hid
  · rw [hleft]
    rcases List.mem_append.mp hx with hx | hx
    · exact (h.listed x hx).imp_left fun hx => he.mem_waiting_enlist.mpr (.inr hx)
    · exact .inl (he.mem_waiting_enlist.mpr (.inl (List.mem_singleton.mp hx)))
  · rw [hleft] at hx
    refine ⟨(h.gone x hx).1.trans_le hnext, fun hlive => ?_⟩
    rcases he.mem_ids_enlist.mp hlive with rfl | hlive
    · exact hgone hx
    · exact (h.gone x hx).2 hlive

/-- Neither the futures of `send` nor what concerns those that wait is changed. -/
theorem idleStep (h : Lined o) (hsends : c'.sends = o.channel.sends)
    (hnext : c'.state.nextWaiterId = o.channel.state.nextWaiterId)
    (horder : c'.state.sendWaitOrder = o.channel.state.sendWaitOrder)
    (hwaiters : c'.state.sendWaiters = o.channel.state.sendWaiters) : Lined (o.next c') := by
  refine h.same (fun j q hj => ?_) (fun id hid => ?_) hnext horder hwaiters
  · rw [hsends] at hj
    exact ⟨h.idle j q hj, fun id hid => ⟨q, hj, hid⟩⟩
  · rw [mem_ids, hsends]
    exact mem_ids.mp hid

theorem send (h : Lined o) (value : τ) :
    Lined (o.next { o.channel with sends := o.channel.sends.insert ⟨⟨some value, none⟩, none, value, none, false⟩ }) := by
  refine h.same (fun j q hj => ?_) (fun id hid => ?_) rfl rfl rfl
  · rcases Table.get_insert_eq_some.mp hj with ⟨-, rfl⟩ | hj
    · exact ⟨rfl, fun id hid => by cases hid⟩
    · exact ⟨h.idle j q hj, fun id hid => ⟨q, hj, hid⟩⟩
  · obtain ⟨j, q, hj, hq⟩ := mem_ids.mp hid
    exact mem_ids.mpr ⟨j, q, Table.get_insert_eq_some.mpr (.inr hj), hq⟩

theorem ofSender (h : Lined o) {a : Nat} {r : Mpsc τ ω × Answer τ} (hr : Lined (o.next r.1)) :
    Lined (o.next (o.channel.ofSender a r).1) := by
  simp only [Mpsc.ofSender]
  split
  · exact h.idleStep rfl rfl rfl rfl
  · exact hr

theorem ofReceiver (h : Lined o) {r : Mpsc τ ω × Answer τ} (hr : Lined (o.next r.1)) :
    Lined (o.next (o.channel.ofReceiver r).1) := by
  simp only [Mpsc.ofReceiver]
  split
  · exact hr
  · exact h.idleStep rfl rfl rfl rfl

variable [DecidableEq ω]

/-- An operation that is no poll. -/
theorem step (h : Lined o) {op : Op τ ω} (hop : ∀ i waker, op ≠ .poll i waker) {r : Mpsc τ ω × Answer τ}
    (hs : o.channel.step op = some r) : Lined (o.next r.1) := by
  have hsame : Lined (o.next o.channel) := h.idleStep rfl rfl rfl rfl
  cases op with
  | clone a =>
    cases hs
    exact h.ofSender (h.idleStep rfl rfl rfl rfl)
  | dropSender a =>
    cases hs
    refine h.ofSender (.wake ?_ _)
    refine h.idleStep rfl ?_ ?_ ?_ <;>
    · simp only [State.dropSender, State.wakeReceiver]
      split <;> rfl
  | send a value =>
    cases hs
    exact h.ofSender (h.send value)
  | trySend a value =>
    cases hs
    refine h.ofSender (.wake ?_ _)
    refine h.idleStep rfl ?_ ?_ ?_ <;>
    · simp only [State.trySend, State.wakeReceiver]
      repeat' split
      all_goals rfl
  | poll i waker => exact absurd rfl (hop i waker)
  | resume i =>
    simp only [Mpsc.step, Mpsc.resume] at hs
    split at hs
    · cases hs
      exact hsame
    · rename_i p hi
      rw [h.idle i p hi] at hs
      cases hs
      exact hsame
  | dropSend i =>
    cases hs
    simp only [Mpsc.dropSend]
    split
    · exact hsame
    · rename_i p hi
      split
      · exact hsame
      · exact h.erase hi rfl rfl rfl
  | recv waker =>
    cases hs
    refine h.ofReceiver ?_
    simp only [State.recv]
    split
    · exact h.pop.wake _
    · split
      · exact hsame.wake _
      · refine .wake ?_ _
        exact h.idleStep rfl rfl rfl rfl
  | tryRecv =>
    cases hs
    refine h.ofReceiver ?_
    simp only [State.tryRecv]
    split
    · exact h.pop.wake _
    · split <;> exact hsame.wake _
  | dropReceiver =>
    cases hs
    exact h.ofReceiver (h.dropReceiver.wake _)
  | wake waker =>
    cases hs
    exact hsame.wake _

theorem polled (h : Lined o) (hi : o.channel.sends.get i = some p) {waker : ω}
    (hC : Attentive o (.poll i waker)) (hp : Polled o.channel i p waker c') :
    Lined (o.next c') := by
  cases hp with
  | closed hr => exact h.erase hi rfl rfl rfl
  | first hr hq hid =>
    refine h.enlist ⟨hi, fun j q _ hj hqid => ?_, fun x hx => ?_, rfl, rfl⟩ (Nat.le_succ _)
      (Nat.lt_succ_self _) (fun hmem => ?_)
      fun hmem => ?_
    · exact absurd (h.used _ (mem_ids.mpr ⟨j, q, hj, hqid⟩)) (Nat.lt_irrefl _)
    · rw [hid] at hx
      cases hx
    · exact absurd (h.known _ (h.order.subset hmem)) (Nat.lt_irrefl _)
    · exact absurd (h.gone _ hmem).1 (Nat.lt_irrefl _)
  | again hr hq hid =>
    rename_i id
    have hlive : id ∈ o.channel.ids := mem_ids.mpr ⟨i, p, hi, hid⟩
    have hgone : id ∉ o.left := fun hmem => (h.gone id hmem).2 hlive
    refine h.enlist ⟨hi, fun j q hji hj hqid => ?_, fun x hx => ?_, rfl, hid⟩ le_rfl (h.used id hlive)
      (fun hmem => ?_) hgone
    · exact hji (h.own i j p q _ hi hj hid hqid)
    · rw [hid] at hx
      exact (Option.some.inj hx).symm
    · -- it does not wait, so it has been woken
      obtain ⟨-, w, hw⟩ := mem_waiting.mp ((h.listed id hmem).resolve_right hgone)
      exact absurd (hC ⟨p, id, w, hi, hid, hw⟩ hr) (not_lt.mpr hq)
  | sent hr hq =>
    refine .wake ?_ _
    exact h.erase hi rfl rfl rfl

/-- A poll that puts an id into the order once more is seen there. -/
theorem attentive_of_polled (h : Lined o) (hi : o.channel.sends.get i = some p) {waker : ω}
    (hp : Polled o.channel i p waker c') (hafter : Orderly (o.next c')) : Attentive o (.poll i waker) := by
  rintro ⟨p', id, w, hi', hid, hw⟩ hr
  rw [hi] at hi'
  cases hi'
  cases hp with
  | closed hclosed =>
    rw [hclosed] at hr
    cases hr
  | first _ _ hnone =>
    rw [hnone] at hid
    cases hid
  | again _ hq hid' =>
    rw [hid] at hid'
    cases hid'
    exfalso
    have hwaits : id ∈ waiting { o.channel with
        state := { o.channel.state with
          sendWaitOrder := o.channel.state.sendWaitOrder ++ [id]
          sendWaiters := o.channel.state.sendWaiters.insert id waker }
        sends := o.channel.sends.set i { p with polling := none, waker := some waker, woken := false } } :=
      mem_waiting.mpr ⟨mem_ids.mpr ⟨i, _, Table.get_set_self hi, hid⟩, waker, BTreeMap.get?_insert_self⟩
    have honce : (o.channel.state.sendWaitOrder ++ [id]).count id = 1 := hafter.once id hwaits
    have := List.count_pos_iff.mpr (h.filed id w hw).1
    rw [List.count_append, List.count_singleton_self] at honce
    omega
  | sent _ hq => exact hq

/-- What a call does that is no poll of a live future, or such a poll. -/
theorem call_cases (h : Lined o) {op : Op τ ω} {answers : List (Answer τ)}
    (hs : o.channel.call op = some (c', answers)) :
    (∃ i p waker, op = .poll i waker ∧ o.channel.sends.get i = some p ∧ Polled o.channel i p waker c') ∨
      Attentive o op ∧ Lined (o.next c') := by
  by_cases hop : ∃ i waker, op = .poll i waker
  · obtain ⟨i, waker, rfl⟩ := hop
    cases hi : o.channel.sends.get i with
    | none =>
      simp only [Mpsc.call, Op.sections, Machine.run, Mpsc.step, Mpsc.poll, Mpsc.resume, hi, Option.bind_some,
        Option.map_some] at hs
      cases hs
      refine .inr ⟨?_, h.idleStep rfl rfl rfl rfl⟩
      rintro ⟨p, id, w, hp, -⟩
      rw [hi] at hp
      cases hp
    | some p => exact .inl ⟨i, p, waker, rfl, hi, polled_of_call hi (h.idle i p hi) hs⟩
  · have hop : ∀ i waker, op ≠ .poll i waker := fun i waker e => hop ⟨i, waker, e⟩
    have hsec : op.sections = [op] ∧ Attentive o op := by
      cases op with
      | poll i waker => exact absurd rfl (hop i waker)
      | _ => exact ⟨rfl, trivial⟩
    rw [Mpsc.call, hsec.1] at hs
    obtain ⟨u, a, os, hu, hnil, -⟩ := Machine.run_cons.mp hs
    rw [(Machine.run_nil.mp hnil).1]
    exact .inr ⟨hsec.2, h.step hop hu⟩

omit [DecidableEq ω] in
theorem new {n : Nat} {c : Mpsc τ ω} (h : channel n = some c) : Lined ⟨c, [], []⟩ := by
  simp only [channel, Option.ite_none_left_eq_some, Option.some.injEq] at h
  obtain ⟨-, rfl⟩ := h
  refine ⟨fun i p hp => ?_, fun i j p q id hp => ?_, fun id hid => ?_, fun id w hw => ?_, .slnil, .nil,
    fun id hid => ?_,
    fun id hid => ?_, fun id hid => ?_⟩
  · cases hp
  · cases hp
  · cases hid
  · cases hw
  · cases hid
  · cases hid
  · cases hid

end Lined

/-! ## Runs -/

theorem observe_eq_some [DecidableEq ω] {o o' : Observed τ ω} {op : Op τ ω} {answers : List (Answer τ)} :
    observe o op = some (o', answers) ↔ ∃ c, o.channel.call op = some (c, answers) ∧ o' = o.next c := by
  simp only [observe, Option.map_eq_some_iff, Prod.exists, Prod.mk.injEq]
  constructor
  · rintro ⟨c, answers', hs, rfl, rfl⟩
    exact ⟨c, hs, rfl⟩
  · rintro ⟨c, hs, rfl⟩
    exact ⟨c, answers, hs, rfl, rfl⟩

theorem run_observe [DecidableEq ω] {n : Nat} {c : Mpsc τ ω} (h : channel n = some c) (ops : List (Op τ ω)) :
    ∃ o answers, Machine.run observe ⟨c, [], []⟩ ops = some (o, answers) := by
  refine Machine.run_isSome (P := fun o _ => ∃ answers, Inv n o.channel answers) (fun o op l hc => ?_)
    ⟨[], .new h⟩
  obtain ⟨answers, hc⟩ := hc
  obtain ⟨c', answers', hs, hinv, -⟩ := hc.run op.sections
  exact ⟨o.next c', answers', observe_eq_some.mpr ⟨c', hs, rfl⟩, _, hinv⟩

/-- In every run: the wait order has each future of `send` that waits once, in the order in which
they began to, and besides only what futures left that are gone, in every state on the way, exactly
if no future that waits is polled while the queue is full. -/
theorem run_orderly_iff [DecidableEq ω] {n : Nat} {c : Mpsc τ ω} (h : channel n = some c) (ops : List (Op τ ω)) :
    Machine.Along Attentive observe ⟨c, [], []⟩ ops ↔
      ∀ pre o answers, pre <+: ops → Machine.run observe ⟨c, [], []⟩ pre = some (o, answers) → Orderly o := by
  obtain ⟨o, answers, hrun⟩ := run_observe h ops
  refine Machine.along_iff (K := Lined) (P := Orderly) (fun o h => h.orderly) (fun o op o' a h hC hs => ?_)
    (fun o op o' a h hs hafter => ?_) (.new h) hrun
  · obtain ⟨c', hcall, rfl⟩ := observe_eq_some.mp hs
    obtain ⟨i, p, waker, rfl, hi, hp⟩ | ⟨-, hlined⟩ := h.call_cases hcall
    · exact h.polled hi hC hp
    · exact hlined
  · obtain ⟨c', hcall, rfl⟩ := observe_eq_some.mp hs
    obtain ⟨i, p, waker, rfl, hi, hp⟩ | ⟨hC, -⟩ := h.call_cases hcall
    · exact h.attentive_of_polled hi hp hafter
    · exact hC

/-- Two futures of `send` wait, the first is woken, loses the race, and waits behind the other. -/
theorem run_orderly_iff_lostRace : ∃ o answers, Machine.run observe ⟨single, [], []⟩
      [.trySend 0 6, .send 0 7, .poll 0 1, .send 0 8, .poll 1 2, .recv 4, .trySend 0 9, .poll 0 1] = some (o, answers) ∧
    o.channel.state.sendWaitOrder = [1, 0] ∧ o.channel.waiting = [0, 1] ∧ Orderly o := by
  have hrun : Machine.run observe ⟨single, [], []⟩
    [.trySend 0 6, .send 0 7, .poll 0 1, .send 0 8, .poll 1 2, .recv 4, .trySend 0 9, .poll 0 1] = some
      (_, _) := rfl
  refine ⟨_, _, hrun, rfl, rfl, (run_orderly_iff (rfl : channel 1 = some single) _).mp ?_ _ _ _
    (List.prefix_refl _) hrun⟩
  iterate 2
    refine ⟨trivial, fun o _ e => ?_⟩
    cases e
  refine ⟨?_, fun o _ e => ?_⟩
  · rintro ⟨p, id, w, hp, hid, -⟩
    cases hp
    cases hid
  cases e
  refine ⟨trivial, fun o _ e => ?_⟩
  cases e
  refine ⟨?_, fun o _ e => ?_⟩
  · rintro ⟨p, id, w, hp, hid, -⟩
    cases hp
    cases hid
  cases e
  iterate 2
    refine ⟨trivial, fun o _ e => ?_⟩
    cases e
  -- it has been woken, and its waker is not filed any more
  refine ⟨?_, fun _ _ _ => trivial⟩
  rintro ⟨p, id, w, hp, hid, hw⟩
  cases hp
  cases hid
  cases hw

/-- A future of `send` that waits is polled again while the queue is full. -/
theorem not_orderly_polledAgain : ∃ o answers, Machine.run observe ⟨single, [], []⟩
      [.trySend 0 6, .send 0 7, .poll 0 1, .poll 0 1] = some (o, answers) ∧
    o.channel.waiting = [0] ∧ o.channel.state.sendWaitOrder = [0, 0] ∧ o.left = [] ∧ ¬ Orderly o := by
  have hrun : Machine.run observe ⟨single, [], []⟩ [.trySend 0 6, .send 0 7, .poll 0 1, .poll 0 1] =
    some (_, _) := rfl
  refine ⟨_, _, hrun, rfl, rfl, rfl, fun h => ?_⟩
  have := h.once 0 (by decide)
  exact absurd this (by decide)

end DesCartes.Mpsc
