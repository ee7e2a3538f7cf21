import DesCartes.Framework.Machine
import DesCartes.Framework.Vec
import DesCartes.Proof.Transport.EndpointRegistry

/-!
# The index of a registry, and its round robin

`run_indexed`: after any calls the index lists each endpoint once, under its own service, and
nothing else; a call that is refused changes nothing; and as many selections for a service as it has
endpoints get each of them once, whatever is selected for other services in between. A counter can
be beyond the end of a list that has become shorter; it is read modulo the length.

* `Indexed`: the invariant, kept by `perform` (`Indexed.perform`);
* `selections`: what a round robin gets for one service is `Vec.turns` of its list.
-/

namespace DesCartes.Transport.SimEndpointRegistry

variable {r r' : SimEndpointRegistry}

/-- Beyond `WellFormed`: an endpoint is found by its id, no list has an endpoint twice, and there
are no counters without a list. -/
structure Indexed (r : SimEndpointRegistry) : Prop extends WellFormed r where
  keyed : ∀ id info, r.endpoints.lookup id = some info → info.id = id
  nodup : ∀ serviceName ids, r.services.lookup serviceName = some ids → ids.Nodup
  served : ∀ serviceName, (r.roundRobinCounters.lookup serviceName).isSome → (r.services.lookup serviceName).isSome

theorem indexed_new : Indexed new := ⟨wellFormed_new, nofun, nofun, nofun⟩

/-- What the index lists. -/
theorem WellFormed.mem_iff (h : WellFormed r) (serviceName : List Char) (id : EndpointId) :
    (∃ ids, r.services.lookup serviceName = some ids ∧ id ∈ ids) ↔
      ∃ info, r.endpoints.lookup id = some info ∧ info.serviceName = serviceName := by
  constructor
  · rintro ⟨ids, hids, hid⟩
    exact (h.known serviceName ids hids).2 id hid
  · rintro ⟨info, hinfo, rfl⟩
    exact h.listed id info hinfo

theorem Indexed.registerEndpoint (h : Indexed r) {info : EndpointInfo}
    (hregister : r.registerEndpoint info = .ok r') :
    Indexed r' := by
  refine ⟨h.toWellFormed.registerEndpoint hregister, ?_, ?_, ?_⟩ <;>
    rw [SimEndpointRegistry.registerEndpoint] at hregister <;> split at hregister <;> cases hregister <;>
    rename_i hnew
  · intro id other hother
    rcases AList.lookup_insert_eq_some.mp hother with ⟨rfl, rfl⟩ | ⟨-, hother⟩
    · rfl
    · exact h.keyed id other hother
  · intro serviceName ids hids
    rcases AList.lookup_insert_eq_some.mp hids with ⟨rfl, rfl⟩ | ⟨-, hids⟩
    · cases hold : r.services.lookup info.serviceName with
      | none => exact List.nodup_singleton _
      | some old =>
        -- the new endpoint is in no list yet
        refine List.nodup_append.mpr ⟨h.nodup _ old hold, List.nodup_singleton _, fun id hid id' hid' => ?_⟩
        rw [List.mem_singleton.mp hid']
        rintro rfl
        obtain ⟨other, hother, -⟩ := (h.known _ old hold).2 _ hid
        rw [hother] at hnew
        exact hnew rfl
    · exact h.nodup serviceName ids hids
  · intro serviceName hsome
    by_cases hservice : serviceName = info.serviceName
    · rw [hservice, AList.lookup_insert]
      rfl
    · rw [AList.lookup_insert_ne hservice] at hsome ⊢
      exact h.served serviceName hsome

theorem Indexed.unregisterEndpoint (h : Indexed r) {id : EndpointId}
    (hunregister : r.unregisterEndpoint id = .ok r') :
    Indexed r' := by
  have hwf := h.toWellFormed.unregisterEndpoint hunregister
  rw [SimEndpointRegistry.unregisterEndpoint] at hunregister
  split at hunregister
  · cases hunregister
  · rename_i info hinfo
    obtain ⟨ids, hids, -⟩ := h.listed id info hinfo
    simp only [hids] at hunregister
    have hkeyed : ∀ id' other, (r.endpoints.erase id).lookup id' = some other → other.id = id' := by
      intro id' other hother
      obtain ⟨-, hother⟩ := AList.lookup_erase_eq_some.mp hother
      exact h.keyed id' other hother
    split at hunregister <;> cases hunregister
    · -- the last endpoint of its service
      refine ⟨hwf, hkeyed, fun serviceName ids' hids' => ?_, fun serviceName hsome => ?_⟩
      · obtain ⟨-, hids'⟩ := AList.lookup_erase_eq_some.mp hids'
        exact h.nodup serviceName ids' hids'
      · by_cases hservice : serviceName = info.serviceName
        · rw [hservice, AList.lookup_erase] at hsome
          cases hsome
        · rw [AList.lookup_erase_ne hservice] at hsome ⊢
          exact h.served serviceName hsome
    · refine ⟨hwf, hkeyed, fun serviceName ids' hids' => ?_, fun serviceName hsome => ?_⟩
      · rcases AList.lookup_insert_eq_some.mp hids' with ⟨rfl, rfl⟩ | ⟨-, hids'⟩
        · exact (h.nodup _ ids hids).filter _
        · exact h.nodup serviceName ids' hids'
      · by_cases hservice : serviceName = info.serviceName
        · rw [hservice, AList.lookup_insert]
          rfl
        · rw [AList.lookup_insert_ne hservice]
          exact h.served serviceName hsome

/-- A selection for a service that has endpoints. -/
theorem Indexed.getEndpointForService (h : Indexed r) {serviceName : List Char}
    {ids : List EndpointId} {c : Nat} (hids : r.services.lookup serviceName = some ids)
    (hc : r.roundRobinCounters.lookup serviceName = some c) :
    ∃ id ∈ ids, ids[c % ids.length]? = some id ∧ r.getEndpointForService serviceName =
      ({ r with roundRobinCounters := r.roundRobinCounters.insert serviceName ((c + 1) % ids.length) },
        r.endpoints.lookup id) := by
  have hlt : c % ids.length < ids.length := Nat.mod_lt _
    (List.length_pos_of_ne_nil (h.known serviceName ids hids).1)
  refine ⟨ids[c % ids.length], List.getElem_mem hlt, List.getElem?_eq_getElem hlt, ?_⟩
  simp only [SimEndpointRegistry.getEndpointForService, hids, hc, List.getElem?_eq_getElem hlt]

theorem Indexed.get (h : Indexed r) (serviceName : List Char) :
    Indexed (r.getEndpointForService serviceName).1 := by
  have hwf := (h.toWellFormed.get serviceName).1
  cases hids : r.services.lookup serviceName with
  | none =>
    have hr : r.getEndpointForService serviceName = (r, none) := by
      simp only [SimEndpointRegistry.getEndpointForService, hids]
    rw [hr]
    exact h
  | some ids =>
    obtain ⟨c, hc⟩ := Option.isSome_iff_exists.mp (h.counted serviceName ids hids)
    obtain ⟨id, -, -, hr⟩ := h.getEndpointForService hids hc
    rw [hr] at hwf ⊢
    refine ⟨hwf, h.keyed, h.nodup, fun service hsome => ?_⟩
    by_cases hservice : service = serviceName
    · rw [hservice, hids]
      rfl
    · rw [AList.lookup_insert_ne hservice] at hsome
      exact h.served service hsome

theorem lookup_of_unregisterEndpoint {id : EndpointId} {e : List Char}
    (hunregister : r.unregisterEndpoint id = .error e) :
    r.endpoints.lookup id = none := by
  rw [SimEndpointRegistry.unregisterEndpoint] at hunregister
  split at hunregister
  · assumption
  · dsimp only at hunregister
    split at hunregister
    · cases hunregister
    · split at hunregister <;> cases hunregister

/-- A call that is refused changes nothing. -/
theorem perform_refused {op : Op} {error : List Char}
    (hrefused : (r.perform op).2 = .refused error) : (r.perform op).1 = r := by
  cases op with
  | registerEndpoint endpoint =>
    rw [perform] at hrefused ⊢
    cases hregister : r.registerEndpoint endpoint with
    | ok r' =>
      rw [hregister] at hrefused
      cases hrefused
    | error e => rfl
  | unregisterEndpoint id =>
    rw [perform] at hrefused ⊢
    cases hunregister : r.unregisterEndpoint id with
    | ok r' =>
      rw [hunregister] at hrefused
      cases hrefused
    | error e =>
      -- there was nothing to remove
      have herase : r.endpoints.erase id = r.endpoints :=
        AList.ext (List.kerase_of_notMem_keys
          (AList.lookup_eq_none.mp (lookup_of_unregisterEndpoint hunregister)))
      exact congrArg (fun endpoints => { r with endpoints }) herase
  | getEndpointForService serviceName => cases hrefused

theorem Indexed.perform (h : Indexed r) (op : Op) : Indexed (r.perform op).1 := by
  cases op with
  | registerEndpoint endpoint =>
    rw [SimEndpointRegistry.perform]
    cases hregister : r.registerEndpoint endpoint with
    | ok r' => exact h.registerEndpoint hregister
    | error e => exact h
  | unregisterEndpoint id =>
    cases hunregister : r.unregisterEndpoint id with
    | ok r' =>
      rw [SimEndpointRegistry.perform, hunregister]
      exact h.unregisterEndpoint hunregister
    | error e =>
      have hrefused : (r.perform (.unregisterEndpoint id)).2 = .refused e := by
        rw [SimEndpointRegistry.perform, hunregister]
      rw [perform_refused hrefused]
      exact h
  | getEndpointForService serviceName => exact h.get serviceName

theorem indexed_run (ops : List Op) :
    ∃ r answers, Machine.run step new ops = some (r, answers) ∧ Indexed r := by
  obtain ⟨r, answers, hrun⟩ : ∃ r answers, Machine.run step new ops = some (r, answers) :=
    Machine.exists_run (fun _ _ => ⟨_, _, rfl⟩) _ _
  refine ⟨r, answers, hrun, Machine.run_invariant (fun r op r' o h hstep => ?_) indexed_new hrun⟩
  rw [← (Prod.mk.inj (Option.some.inj hstep)).1]
  exact h.perform op

/-! ## The round robin -/

/-- What a selection for the service has got. -/
def Answer.gotFor? (serviceName : List Char) : Answer → Option (Option EndpointInfo)
  | .got service endpoint => if service = serviceName then some endpoint else none
  | _ => none

/-- What the selections for the service have got. -/
def gotFor (serviceName : List Char) (answers : List Answer) : List (Option EndpointInfo) :=
  answers.filterMap (Answer.gotFor? serviceName)

theorem gotFor_cons_self (serviceName : List Char) (endpoint : Option EndpointInfo) (answers : List Answer) :
    gotFor serviceName (.got serviceName endpoint :: answers) = endpoint :: gotFor serviceName answers :=
  List.filterMap_cons_some (if_pos rfl)

theorem gotFor_cons_of_ne {service serviceName : List Char} (hne : service ≠ serviceName)
    (endpoint : Option EndpointInfo) (answers : List Answer) :
    gotFor serviceName (.got service endpoint :: answers) = gotFor serviceName answers :=
  List.filterMap_cons_none (if_neg hne)

/-- A selection moves the counter of its service. -/
theorem get_of_ne (r : SimEndpointRegistry) (service : List Char) :
    ∃ counters, (r.getEndpointForService service).1 = { r with roundRobinCounters := counters } ∧
      ∀ serviceName, service ≠ serviceName → counters.lookup serviceName =
        r.roundRobinCounters.lookup serviceName := by
  rw [SimEndpointRegistry.getEndpointForService]
  split
  · split
    · exact ⟨_, rfl, fun _ hne => AList.lookup_insert_ne hne.symm⟩
    · exact ⟨_, rfl, fun _ _ => rfl⟩
  · exact ⟨_, rfl, fun _ _ => rfl⟩

/-- What selections for a service get, among selections for others. -/
theorem Indexed.selections (h : Indexed r) {serviceName : List Char} {ids : List EndpointId}
    {c : Nat} (hids : r.services.lookup serviceName = some ids)
    (hc : r.roundRobinCounters.lookup serviceName = some c) (names : List (List Char)) :
    ∃ r' answers, Machine.run step r (names.map .getEndpointForService) = some (r', answers) ∧
      gotFor serviceName answers = (Vec.turns ids c (names.count serviceName)).map r.endpoints.lookup := by
  induction names generalizing r c with
  | nil => exact ⟨r, [], rfl, rfl⟩
  | cons name names ih =>
    by_cases hname : name = serviceName
    · subst hname
      obtain ⟨id, -, hid, hget⟩ := h.getEndpointForService hids hc
      have h' := h.get name
      rw [hget] at h'
      obtain ⟨r', answers, hrun, hgot⟩ := ih h' hids (AList.lookup_insert _)
      refine ⟨r', .got name (r.endpoints.lookup id) :: answers,
        Machine.run_cons.mpr ⟨_, _, answers, ?_, hrun, rfl⟩, ?_⟩
      · rw [step, SimEndpointRegistry.perform, hget]
      · rw [gotFor_cons_self, hgot, List.count_cons_self, Vec.turns, hid]
        rfl
    · obtain ⟨counters, hget, hcounters⟩ := r.get_of_ne name
      have h' := h.get name
      rw [hget] at h'
      obtain ⟨r', answers, hrun, hgot⟩ := ih h' hids ((hcounters serviceName hname).trans hc)
      refine ⟨r', .got name (r.getEndpointForService name).2 :: answers,
        Machine.run_cons.mpr ⟨_, _, answers, ?_, hrun, rfl⟩, ?_⟩
      · rw [step, SimEndpointRegistry.perform, ← hget]
      · rw [gotFor_cons_of_ne hname, hgot, List.count_cons_of_ne hname]

/-- Selections for other services get nothing for this one. -/
theorem selections_of_notMem (r : SimEndpointRegistry) {serviceName : List Char} {names : List (List Char)}
    (hnames : serviceName ∉ names) : ∃ r' answers,
      Machine.run step r (names.map .getEndpointForService) = some (r', answers) ∧
      gotFor serviceName answers = [] := by
  induction names generalizing r with
  | nil => exact ⟨r, [], rfl, rfl⟩
  | cons name names ih =>
    rw [List.mem_cons, not_or] at hnames
    obtain ⟨r', answers, hrun, hgot⟩ := ih (r.getEndpointForService name).1 hnames.2
    refine ⟨r', .got name (r.getEndpointForService name).2 :: answers,
      Machine.run_cons.mpr ⟨_, _, answers, rfl, hrun, rfl⟩, ?_⟩
    rw [gotFor_cons_of_ne (Ne.symm hnames.1), hgot]

theorem map_eq_map_filterMap {α β : Type*} {f : α → Option β} {l : List α} (h : ∀ a ∈ l, (f a).isSome) :
    l.map f = (l.filterMap f).map some := by
  induction l with
  | nil => rfl
  | cons a l ih =>
    obtain ⟨b, hb⟩ := Option.isSome_iff_exists.mp (h a List.mem_cons_self)
    rw [List.filterMap_cons_some hb, List.map_cons, List.map_cons, hb,
      ih fun a ha => h a (List.mem_cons_of_mem _ ha)]

/-- As many selections as the service has endpoints get each of them once. -/
theorem Indexed.round (h : Indexed r) {serviceName : List Char} {names : List (List Char)}
    (hcount : names.count serviceName = (r.findEndpoints serviceName).length) :
    ∃ r' answers, ∃ infos : List EndpointInfo, Machine.run step r (names.map .getEndpointForService) =
      some (r', answers) ∧
      gotFor serviceName answers = infos.map some ∧ infos.Nodup ∧
      ∀ info, info ∈ infos ↔ r.endpoints.lookup info.id = some info ∧ info.serviceName = serviceName := by
  cases hids : r.services.lookup serviceName with
  | none =>
    rw [findEndpoints, hids] at hcount
    obtain ⟨r', answers, hrun, hgot⟩ := r.selections_of_notMem (List.count_eq_zero.mp hcount)
    refine ⟨r', answers, [], hrun, hgot, List.nodup_nil,
      fun info => iff_of_false List.not_mem_nil fun ⟨hinfo, hservice⟩ => ?_⟩
    obtain ⟨ids, hids', -⟩ := h.listed info.id info hinfo
    rw [hservice, hids] at hids'
    cases hids'
  | some ids =>
    obtain ⟨c, hc⟩ := Option.isSome_iff_exists.mp (h.counted serviceName ids hids)
    have hsome : ∀ id ∈ ids, (r.endpoints.lookup id).isSome := fun id hid => by
      obtain ⟨info, hinfo, -⟩ := (h.known serviceName ids hids).2 id hid
      rw [hinfo]
      rfl
    have hlength : (r.findEndpoints serviceName).length = ids.length := by
      rw [findEndpoints, hids, Option.getD_some, ← List.length_map some, ← map_eq_map_filterMap hsome,
        List.length_map]
    obtain ⟨r', answers, hrun, hgot⟩ := h.selections hids hc names
    rw [hcount, hlength, Vec.turns_length, map_eq_map_filterMap fun id hid => hsome id
      (List.mem_rotate.mp hid)] at hgot
    refine ⟨r', answers, _, hrun, hgot, ?_, fun info => ?_⟩
    · refine (List.nodup_rotate.mpr (h.nodup serviceName ids hids)).filterMap fun id id' info hid hid' => ?_
      exact (h.keyed id info hid).symm.trans (h.keyed id' info hid')
    · rw [List.mem_filterMap]
      constructor
      · rintro ⟨id, hid, hinfo⟩
        obtain ⟨info', hinfo', hservice⟩ := (h.known serviceName ids hids).2 id (List.mem_rotate.mp hid)
        cases hinfo.symm.trans hinfo'
        rw [h.keyed id info hinfo]
        exact ⟨hinfo, hservice⟩
      · rintro ⟨hinfo, rfl⟩
        obtain ⟨ids', hids', hid⟩ := h.listed info.id info hinfo
        cases hids.symm.trans hids'
        exact ⟨info.id, List.mem_rotate.mpr hid, hinfo⟩

/-- After any calls: the list of a service has its endpoints, each once, and is not empty; there is
a counter exactly where there is a list; a call that is refused changes nothing; and as many
selections for a service as it has endpoints get each of them once. -/
theorem run_indexed (ops : List Op) : ∃ r answers, Machine.run step new ops = some (r, answers) ∧
    (∀ serviceName ids, r.services.lookup serviceName = some ids → ids ≠ [] ∧ ids.Nodup) ∧
    (∀ serviceName id, (∃ ids, r.services.lookup serviceName = some ids ∧ id ∈ ids) ↔
      ∃ info, r.endpoints.lookup id = some info ∧ info.serviceName = serviceName) ∧
    (∀ serviceName, (r.roundRobinCounters.lookup serviceName).isSome ↔ (r.services.lookup serviceName).isSome) ∧
    (∀ op error, (r.perform op).2 = .refused error → (r.perform op).1 = r) ∧
    ∀ serviceName (names : List (List Char)), names.count serviceName = (r.findEndpoints serviceName).length →
      ∃ r' answers, ∃ infos : List EndpointInfo, Machine.run step r (names.map .getEndpointForService) = some (r', answers) ∧
        gotFor serviceName answers = infos.map some ∧ infos.Nodup ∧
        ∀ info, info ∈ infos ↔ r.endpoints.lookup info.id = some info ∧ info.serviceName = serviceName := by
  obtain ⟨r, answers, hrun, h⟩ := indexed_run ops
  refine ⟨r, answers, hrun, fun serviceName ids hids =>
    ⟨(h.known serviceName ids hids).1, h.nodup serviceName ids hids⟩,
    h.mem_iff, fun serviceName => ⟨h.served serviceName, fun hsome => ?_⟩, fun op error => perform_refused,
    fun serviceName names => h.round⟩
  obtain ⟨ids, hids⟩ := Option.isSome_iff_exists.mp hsome
  exact h.counted serviceName ids hids

/-- The endpoint `n` of a service `"a"`. -/
def endpointA (n : Nat) : EndpointInfo := ⟨⟨n⟩, ['a'], ['a'], ∅⟩

/-- Of three endpoints two are selected, and two go. -/
def shrinking : List Op :=
  [.registerEndpoint (endpointA 1), .registerEndpoint (endpointA 2), .registerEndpoint (endpointA 3),
    .getEndpointForService ['a'], .getEndpointForService ['a'], .unregisterEndpoint ⟨1⟩, .unregisterEndpoint ⟨3⟩]

/-- The counter is beyond the end of the list, and what is left is selected. -/
theorem run_indexed_shrinking : ∃ r answers, Machine.run step new shrinking = some (r, answers) ∧
    r.roundRobinCounters.lookup ['a'] = some 2 ∧ (r.perform (.unregisterEndpoint ⟨3⟩)).1 = r ∧
    ∃ r' answers, ∃ infos : List EndpointInfo,
      Machine.run step r ([['b'], ['a']].map .getEndpointForService) = some (r', answers) ∧
      gotFor ['a'] answers = infos.map some ∧ infos.Nodup ∧
      ∀ info, info ∈ infos ↔ r.endpoints.lookup info.id = some info ∧ info.serviceName = ['a'] := by
  obtain ⟨r, answers, hrun, -, -, -, hrefused, hround⟩ := run_indexed shrinking
  have hr : Machine.run step new shrinking = some (_, _) := rfl
  obtain ⟨rfl, -⟩ := Prod.mk.inj (Option.some.inj (hr.symm.trans hrun))
  exact ⟨_, answers, hrun, rfl, hrefused _ _ rfl, hround ['a'] [['b'], ['a']] rfl⟩

end DesCartes.Transport.SimEndpointRegistry
