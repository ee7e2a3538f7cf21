import DesCartes.Framework.HashMap
import DesCartes.Impl.Transport.EndpointRegistry

/-!
# What a registry finds

`WellFormed` holds of every registry: each endpoint is in the list of its service, and each list has
endpoints and a counter. So the round robin gets an endpoint of a service exactly when there is one
(`WellFormed.getEndpointForService`).
-/

namespace DesCartes.Transport.SimEndpointRegistry

variable {r r' : SimEndpointRegistry} {id : EndpointId}

/-- The service has an endpoint. -/
def Registered (r : SimEndpointRegistry) (serviceName : List Char) : Prop :=
  ∃ id info, r.endpoints.lookup id = some info ∧ info.serviceName = serviceName

/-- The lists of the services have what is registered, and no list is empty. -/
structure WellFormed (r : SimEndpointRegistry) : Prop where
  listed : ∀ id info, r.endpoints.lookup id = some info → ∃ ids, r.services.lookup info.serviceName = some ids ∧ id ∈ ids
  known : ∀ serviceName ids, r.services.lookup serviceName = some ids →
    ids ≠ [] ∧ ∀ id ∈ ids, ∃ info, r.endpoints.lookup id = some info ∧ info.serviceName = serviceName
  counted : ∀ serviceName ids, r.services.lookup serviceName = some ids → (r.roundRobinCounters.lookup serviceName).isSome

theorem wellFormed_new : WellFormed new := ⟨nofun, nofun, nofun⟩

theorem WellFormed.registered (h : WellFormed r) {serviceName : List Char} :
    r.Registered serviceName ↔ (r.services.lookup serviceName).isSome := by
  constructor
  · rintro ⟨id, info, hinfo, rfl⟩
    obtain ⟨ids, hids, -⟩ := h.listed id info hinfo
    rw [hids]
    rfl
  · intro hsome
    obtain ⟨ids, hids⟩ := Option.isSome_iff_exists.mp hsome
    obtain ⟨hne, hknown⟩ := h.known serviceName ids hids
    obtain ⟨id, hid⟩ := List.exists_mem_of_ne_nil ids hne
    obtain ⟨info, hinfo, hservice⟩ := hknown id hid
    exact ⟨id, info, hinfo, hservice⟩

/-- What the round robin gets: an endpoint of the service, when there is one. -/
theorem WellFormed.getEndpointForService (h : WellFormed r) (serviceName : List Char) :
    (∃ counter info, r.getEndpointForService serviceName =
        ({ r with roundRobinCounters := r.roundRobinCounters.insert serviceName counter }, some info) ∧
        info.serviceName = serviceName ∧ r.Registered serviceName) ∨
      r.getEndpointForService serviceName = (r, none) ∧ ¬r.Registered serviceName := by
  cases hids : r.services.lookup serviceName with
  | none =>
    refine .inr ⟨by simp only [SimEndpointRegistry.getEndpointForService, hids], ?_⟩
    rw [h.registered, hids]
    exact Bool.false_ne_true
  | some ids =>
    obtain ⟨counter, hcounter⟩ := Option.isSome_iff_exists.mp (h.counted serviceName ids hids)
    obtain ⟨hne, hknown⟩ := h.known serviceName ids hids
    have hlt : counter % ids.length < ids.length := Nat.mod_lt _ (List.length_pos_of_ne_nil hne)
    obtain ⟨info, hinfo, hservice⟩ := hknown _ (List.getElem_mem hlt)
    refine .inl ⟨(counter + 1) % ids.length, info, ?_, hservice, ?_⟩
    · simp only [SimEndpointRegistry.getEndpointForService, hids, hcounter,
        List.getElem?_eq_getElem hlt, hinfo]
    · rw [h.registered, hids]
      rfl

/-- The round robin moves a counter, and nothing else. -/
theorem WellFormed.get (h : WellFormed r) (serviceName : List Char) :
    WellFormed (r.getEndpointForService serviceName).1 ∧
    (r.getEndpointForService serviceName).1.endpoints = r.endpoints := by
  rcases h.getEndpointForService serviceName with ⟨counter, info, heq, -, -⟩ | ⟨heq, -⟩
  · rw [heq]
    refine ⟨⟨h.listed, h.known, fun service ids hids => ?_⟩, rfl⟩
    by_cases hservice : service = serviceName
    · rw [hservice, AList.lookup_insert]
      rfl
    · rw [AList.lookup_insert_ne hservice]
      exact h.counted service ids hids
  · rw [heq]
    exact ⟨h, rfl⟩

theorem WellFormed.registerEndpoint (h : WellFormed r) {info : EndpointInfo}
    (hregister : r.registerEndpoint info = .ok r') :
    WellFormed r' := by
  rw [SimEndpointRegistry.registerEndpoint] at hregister
  split at hregister
  · cases hregister
  · rename_i hnew
    rw [Bool.not_eq_true, Option.isSome_eq_false_iff, Option.isNone_iff_eq_none] at hnew
    cases hregister
    have hfresh : ∀ id other, r.endpoints.lookup id = some other → id ≠ info.id := by
      rintro id other hother rfl
      rw [hnew] at hother
      cases hother
    refine ⟨fun id other hother => ?_, fun service ids hids => ?_, fun service ids hids => ?_⟩
    · rcases AList.lookup_insert_eq_some.mp hother with ⟨rfl, rfl⟩ | ⟨hid, hother⟩
      · exact ⟨_, AList.lookup_insert _, List.mem_append_right _ List.mem_cons_self⟩
      · obtain ⟨ids, hids, hmem⟩ := h.listed id other hother
        by_cases hservice : other.serviceName = info.serviceName
        · rw [hservice] at hids ⊢
          exact ⟨_, AList.lookup_insert _, List.mem_append_left _ (by rw [hids]; exact hmem)⟩
        · exact ⟨ids, (AList.lookup_insert_ne hservice).trans hids, hmem⟩
    · rcases AList.lookup_insert_eq_some.mp hids with ⟨rfl, rfl⟩ | ⟨hservice, hids⟩
      · refine ⟨List.append_ne_nil_of_right_ne_nil _ (List.cons_ne_nil _ _), fun id hid => ?_⟩
        rcases List.mem_append.mp hid with hid | hid
        · cases hold : r.services.lookup info.serviceName with
          | none =>
            rw [hold] at hid
            cases hid
          | some old =>
            rw [hold] at hid
            obtain ⟨other, hother, hservice⟩ := (h.known _ old hold).2 id hid
            exact ⟨other, (AList.lookup_insert_ne (hfresh id other hother)).trans hother, hservice⟩
        · cases List.mem_singleton.mp hid
          exact ⟨info, AList.lookup_insert _, rfl⟩
      · obtain ⟨hne, hknown⟩ := h.known service ids hids
        refine ⟨hne, fun id hid => ?_⟩
        obtain ⟨other, hother, hservice⟩ := hknown id hid
        exact ⟨other, (AList.lookup_insert_ne (hfresh id other hother)).trans hother, hservice⟩
    · by_cases hservice : service = info.serviceName
      · rw [hservice, AList.lookup_insert]
        rfl
      · rw [AList.lookup_insert_ne hservice] at hids ⊢
        exact h.counted service ids hids

theorem WellFormed.unregisterEndpoint (h : WellFormed r)
    (hunregister : r.unregisterEndpoint id = .ok r') : WellFormed r' := by
  rw [SimEndpointRegistry.unregisterEndpoint] at hunregister
  split at hunregister
  · cases hunregister
  · rename_i info hinfo
    obtain ⟨ids, hids, hmem⟩ := h.listed id info hinfo
    simp only [hids] at hunregister
    -- an endpoint of another service is in another list
    have hother : ∀ service ids', r.services.lookup service = some ids' → service ≠ info.serviceName →
        id ∉ ids' := by
      intro service ids' hids' hne hmem
      obtain ⟨other, hother, rfl⟩ := (h.known service ids' hids').2 id hmem
      cases hinfo.symm.trans hother
      exact hne rfl
    have hknown : ∀ service ids', r.services.lookup service = some ids' → ∀ id' ∈ ids', id' ≠ id →
        ∃ other, (r.endpoints.erase id).lookup id' = some other ∧ other.serviceName = service := by
      intro service ids' hids' id' hid' hne
      obtain ⟨other, hother, hservice⟩ := (h.known service ids' hids').2 id' hid'
      exact ⟨other, AList.lookup_erase_eq_some.mpr ⟨hne, hother⟩, hservice⟩
    have hlisted : ∀ id' other, (r.endpoints.erase id).lookup id' = some other →
        id' ≠ id ∧ ∃ ids', r.services.lookup other.serviceName = some ids' ∧ id' ∈ ids' := by
      intro id' other hother
      obtain ⟨hne, hother⟩ := AList.lookup_erase_eq_some.mp hother
      exact ⟨hne, h.listed id' other hother⟩
    split at hunregister
    · rename_i hempty
      cases hunregister
      refine ⟨fun id' other hid' => ?_, fun service ids' hids' => ?_, fun service ids' hids' => ?_⟩
      · obtain ⟨hne, ids', hids', hmem'⟩ := hlisted id' other hid'
        have hservice : other.serviceName ≠ info.serviceName := fun hservice => by
          rw [hservice] at hids'
          cases hids.symm.trans hids'
          have : id' ∈ ids.filter (· ≠ id) := List.mem_filter.mpr ⟨hmem', decide_eq_true hne⟩
          rw [hempty] at this
          cases this
        exact ⟨ids', AList.lookup_erase_eq_some.mpr ⟨hservice, hids'⟩, hmem'⟩
      · obtain ⟨hservice, hids'⟩ := AList.lookup_erase_eq_some.mp hids'
        refine ⟨(h.known service ids' hids').1, fun id' hid' =>
          hknown service ids' hids' id' hid' fun heq => ?_⟩
        exact hother service ids' hids' hservice (heq ▸ hid')
      · obtain ⟨hservice, hids'⟩ := AList.lookup_erase_eq_some.mp hids'
        rw [AList.lookup_erase_ne hservice]
        exact h.counted service ids' hids'
    · rename_i hne
      cases hunregister
      refine ⟨fun id' other hid' => ?_, fun service ids' hids' => ?_, fun service ids' hids' => ?_⟩
      · obtain ⟨hne, ids', hids', hmem'⟩ := hlisted id' other hid'
        by_cases hservice : other.serviceName = info.serviceName
        · rw [hservice] at hids' ⊢
          cases hids.symm.trans hids'
          exact ⟨_, AList.lookup_insert _, List.mem_filter.mpr ⟨hmem', decide_eq_true hne⟩⟩
        · exact ⟨ids', (AList.lookup_insert_ne hservice).trans hids', hmem'⟩
      · rcases AList.lookup_insert_eq_some.mp hids' with ⟨rfl, rfl⟩ | ⟨hservice, hids'⟩
        · refine ⟨hne, fun id' hid' => ?_⟩
          obtain ⟨hmem', hne'⟩ := List.mem_filter.mp hid'
          exact hknown _ ids hids id' hmem' (of_decide_eq_true hne')
        · refine ⟨(h.known service ids' hids').1, fun id' hid' =>
            hknown service ids' hids' id' hid' fun heq => ?_⟩
          exact hother service ids' hids' hservice (heq ▸ hid')
      · rcases AList.lookup_insert_eq_some.mp hids' with ⟨rfl, -⟩ | ⟨-, hids'⟩
        · exact h.counted _ ids hids
        · exact h.counted service ids' hids'

end DesCartes.Transport.SimEndpointRegistry
