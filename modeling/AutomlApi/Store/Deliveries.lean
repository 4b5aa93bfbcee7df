import Mathlib.Data.List.Dedup
import AutomlApi.Store.Tidy

/-! When an event can be recorded with all its webhook deliveries. The loop over the
endpoints raises where an endpoint's event types cannot be compared, or where the
next delivery id is taken; what it has delivered before stays. -/

namespace AutomlApi.Store

open Act

def counterOf (m : Memory) (kind : String) : ℕ := (m.idCounters.get kind).getD 0

/-- The endpoints that are still to get a delivery of the event. -/
def due (m : Memory) (run event : Fields) (endpointIds : List String) : List String :=
  endpointIds.filter fun id =>
    (match subscribed m run event id with
    | .ok takes => takes
    | .error _ => false) && !delivered m event id

/-- The ids that follow the counter are free, each at its endpoint. -/
def freeIds (m : Memory) : ℕ → List String → Bool
  | _, [] => true
  | n, id :: rest => !(deliveriesOf m id).has (formatId "whd" (n + 1)) && freeIds m (n + 1) rest

/-- Every endpoint can be asked, and every delivery that is due has a free id. -/
def deliverable (m : Memory) (run event : Fields) (endpointIds : List String) : Bool :=
  endpointIds.all (fun id => (subscribed m run event id).isOk) &&
    freeIds m (counterOf m "whd") (due m run event endpointIds)

theorem formatId_ne (kind : String) (n : ℕ) : formatId kind n ≠ "" := by
  intro h
  have := congrArg String.toList h
  simp [formatId] at this

theorem deliveriesOf_open (m : Memory) (id id' : String) :
    deliveriesOf (openDeliveries id m) id' = deliveriesOf m id' :=
  Dict.getD_setDefault m.webhookDeliveries id id' []

theorem delivery_get (run event : Fields) :
    (delivery run event).get "webhook_endpoint_id" = none ∧ (delivery run event).get "delivery_id" = none := by
  constructor <;> simp [delivery, Dict.get_cons]

/-- The fields of a delivery that its event says nothing of. -/
def ownFields : List String := ["delivery_id", "webhook_endpoint_id"]

/-- The item is a delivery of the event. -/
def DeliveryOf (run event item : Fields) : Prop := ∀ k ∉ ownFields, item.get k = (delivery run event).get k

/-- The creation of a delivery takes the next id, and raises when it is taken. -/
theorem insert_delivery (run event : Fields) (id : String) (m : Memory) :
    ∃ item counters, counters.get "whd" = some (counterOf m "whd" + 1) ∧
      (∀ kind ≠ "whd", counters.get kind = m.idCounters.get kind) ∧ DeliveryOf run event item ∧
      insertLocked (.webhookDeliveries id) (delivery run event) "delivery_id" "whd" "webhook_delivery"
        [("webhook_endpoint_id", .str id)] m =
      if (deliveriesOf m id).has (formatId "whd" (counterOf m "whd" + 1)) then
        (.error (.alreadyExists "webhook_delivery" (formatId "whd" (counterOf m "whd" + 1))),
          { m with idCounters := counters })
      else
        (.ok item, { m with
          idCounters := counters
          webhookDeliveries := m.webhookDeliveries.set id
            ((deliveriesOf m id).set (formatId "whd" (counterOf m "whd" + 1)) item) }) := by
  obtain ⟨hend, hid⟩ := delivery_get run event
  set fresh := formatId "whd" (counterOf m "whd" + 1) with hfresh
  set item := ((delivery run event).set "webhook_endpoint_id" (.str id)).set "delivery_id" (.str fresh)
  refine ⟨item, m.idCounters.set "whd" (counterOf m "whd" + 1), Dict.get_set_self ..,
    fun kind hkind => by rw [Dict.get_set, if_neg hkind], fun k hk => ?_, ?_⟩
  · simp only [ownFields, List.mem_cons, List.not_mem_nil, or_false, not_or] at hk
    rw [Dict.get_set, if_neg hk.1, Dict.get_set, if_neg hk.2]
  have hfix : fixFields "webhook_delivery" [("webhook_endpoint_id", .str id)] (delivery run event)
      = .ok ((delivery run event).set "webhook_endpoint_id" (.str id)) := by
    simp only [fixFields, hend]
  have hnone : ((delivery run event).set "webhook_endpoint_id" (.str id)).get "delivery_id" = none := by
    rw [Dict.get_set, if_neg (by decide), hid]
  have hwith : withId "delivery_id" "whd" ((delivery run event).set "webhook_endpoint_id" (.str id)) m
      = (.ok item, { m with idCounters := m.idCounters.set "whd" (counterOf m "whd" + 1) }) := by
    unfold withId
    rw [hnone]
    rfl
  have hreq : requireId "delivery_id" "webhook_delivery" item = .ok fresh := by
    simp only [requireId, item, Dict.get_set_self, Option.bind_some, Value.nonEmptyString?, hfresh,
      if_neg (formatId_ne _ _)]
  rw [insertLocked, check_bind, hfix]
  dsimp only
  rw [bind_eq, hwith]
  dsimp only
  rw [check_bind, hreq]
  dsimp only
  rw [get_bind]
  show (if (deliveriesOf m id).has fresh then _ else _ : StoreM Fields) _ = _
  split <;> rfl

/-- What the loop over the endpoints depends on. -/
structure SameEndpoints (m₀ m : Memory) (endpointIds : List String) : Prop where
  endpoints : m.webhookEndpoints = m₀.webhookEndpoints
  deliveries : ∀ id ∈ endpointIds, deliveriesOf m id = deliveriesOf m₀ id

theorem SameEndpoints.tail {m₀ m : Memory} {id : String} {ids : List String}
    (h : SameEndpoints m₀ m (id :: ids)) : SameEndpoints m₀ m ids :=
  ⟨h.endpoints, fun x hx => h.deliveries x (List.mem_cons_of_mem id hx)⟩

theorem subscribed_congr {m₀ m : Memory} (h : m.webhookEndpoints = m₀.webhookEndpoints) (run event : Fields)
    (id : String) : subscribed m run event id = subscribed m₀ run event id := by
  simp only [subscribed, h]

theorem deliver_cons (run event : Fields) (id : String) (rest : List String) (m : Memory) :
    deliver run event (id :: rest) m =
      match subscribed m run event id with
      | .error fault => (.error fault, m)
      | .ok false => deliver run event rest m
      | .ok true =>
        if delivered m event id then deliver run event rest (openDeliveries id m)
        else (insertLocked (.webhookDeliveries id) (delivery run event) "delivery_id" "whd" "webhook_delivery"
            [("webhook_endpoint_id", .str id)] >>= fun _ => deliver run event rest) (openDeliveries id m) := by
  rw [deliver, get_bind]
  cases subscribed m run event id with
  | error fault => rfl
  | ok takes =>
    cases takes with
    | false => rfl
    | true => cases delivered m event id <;> rfl

/-- The loop goes through exactly when every endpoint can be served. -/
theorem succeeds_deliver (run event : Fields) {m₀ m : Memory} {ids : List String} (hnd : ids.Nodup)
    (h : SameEndpoints m₀ m ids) :
    Succeeds (deliver run event ids) m ↔
      (ids.all (fun id => (subscribed m₀ run event id).isOk) &&
        freeIds m₀ (counterOf m "whd") (due m₀ run event ids)) = true := by
  induction ids generalizing m with
  | nil => exact iff_of_true (succeeds_pure () m) rfl
  | cons id ids ih =>
    obtain ⟨hid, hnd⟩ := List.nodup_cons.mp hnd
    have hcons := deliver_cons run event id ids m
    rw [subscribed_congr h.endpoints] at hcons
    have hdelivered : delivered m event id = delivered m₀ event id := by
      simp only [delivered, h.deliveries id List.mem_cons_self]
    have hopen : SameEndpoints m₀ (openDeliveries id m) ids :=
      ⟨h.endpoints, fun x hx => by rw [deliveriesOf_open]; exact h.tail.deliveries x hx⟩
    cases hsub : subscribed m₀ run event id with
    | error fault =>
      rw [hsub] at hcons
      refine iff_of_false ?_ (by simp [hsub, Except.isOk, Except.toBool])
      rintro ⟨_, _, h⟩
      rw [hcons] at h
      cases h
    | ok takes =>
      rw [hsub] at hcons
      have hall : (id :: ids).all (fun id => (subscribed m₀ run event id).isOk)
          = ids.all fun id => (subscribed m₀ run event id).isOk := by
        simp [hsub, Except.isOk, Except.toBool]
      cases takes with
      | false =>
        have hdue : due m₀ run event (id :: ids) = due m₀ run event ids := by simp [due, hsub]
        rw [hall, hdue, ← ih hnd h.tail, succeeds_congr hcons]
      | true =>
        dsimp only at hcons
        rw [hdelivered] at hcons
        cases hdel : delivered m₀ event id with
        | true =>
          have hdue : due m₀ run event (id :: ids) = due m₀ run event ids := by simp [due, hsub, hdel]
          have hrest := ih hnd hopen
          rw [show counterOf (openDeliveries id m) "whd" = counterOf m "whd" from rfl] at hrest
          rw [hdel, if_pos rfl] at hcons
          rw [hall, hdue, ← hrest, succeeds_congr hcons]
        | false =>
          have hdue : due m₀ run event (id :: ids) = id :: due m₀ run event ids := by simp [due, hsub, hdel]
          rw [hdel, if_neg Bool.false_ne_true] at hcons
          rw [succeeds_congr hcons, hall, hdue]
          obtain ⟨item, counters, hcount, -, -, hins⟩ := insert_delivery run event id (openDeliveries id m)
          rw [deliveriesOf_open, h.deliveries id List.mem_cons_self] at hins
          rw [show counterOf (openDeliveries id m) "whd" = counterOf m "whd" from rfl] at hins hcount
          by_cases htaken : (deliveriesOf m₀ id).has (formatId "whd" (counterOf m "whd" + 1))
          · rw [if_pos htaken] at hins
            exact iff_of_false (not_succeeds_bind hins) (by simp [freeIds, htaken])
          · rw [if_neg htaken] at hins
            rw [succeeds_bind_of_eq hins]
            have hnext := ih hnd (m := { openDeliveries id m with
              idCounters := counters
              webhookDeliveries := (openDeliveries id m).webhookDeliveries.set id
                ((deliveriesOf m₀ id).set (formatId "whd" (counterOf m "whd" + 1)) item) }) ?_
            · rw [hnext, show counterOf _ "whd" = counterOf m "whd" + 1 from by rw [counterOf, hcount]; rfl]
              simp only [freeIds, eq_false_of_ne_true htaken, Bool.not_false, Bool.true_and]
            · refine ⟨h.endpoints, fun x hx => ?_⟩
              have hne : x ≠ id := fun he => hid (he ▸ hx)
              have hx' := hopen.deliveries x hx
              simp only [deliveriesOf, Dict.get_set, if_neg hne] at hx' ⊢
              exact hx'

end AutomlApi.Store
