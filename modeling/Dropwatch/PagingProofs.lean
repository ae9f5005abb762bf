import Dropwatch.AlertsApi

/-! # Paging through the alerts — `GET /alerts`

    The joins give every notification one row (`alertRows_eq_map`), so paging through
    the rows is paging through the notifications.  The notifications of one
    transaction share its time, which is all that the query orders by. -/

namespace Dropwatch.AlertsApi

open Transact

/-- The primary keys, the unique key of the outbox events and the foreign keys of the
    notifications. -/
structure Consistent (db : Database) : Prop where
  notifications : (db.notifications.map Notification.id).Nodup
  pairs : (db.pairs.map Pair.id).Nodup
  rules : (db.alertRules.map AlertRule.id).Nodup
  events : (db.outboxEvents.map OutboxEvent.notificationId).Nodup
  pair : ∀ n ∈ db.notifications, ∃ p ∈ db.pairs, p.id = n.pairId
  rule : ∀ n ∈ db.notifications, ∃ r ∈ db.alertRules, r.id = n.ruleId

/-- The responses to the requests for the first pages, each with an order of its own. -/
def responses (db : Database) (filter : AlertFilter) (limit : Nat)
    (orders : Nat → Ordered AlertRow.triggeredAt (alertRows db filter)) (count : Nat) :
    List AlertResponse :=
  (List.range count).flatMap fun k => listAlerts db filter limit (k * limit) (orders k)

/-- Enough pages list every notification that is asked for exactly once, however each
    request orders its rows. -/
def PagingExact (db : Database) (filter : AlertFilter) (limit : Nat) : Prop :=
  ∀ (orders : Nat → Ordered AlertRow.triggeredAt (alertRows db filter)) (count : Nat),
    (selected db filter).length ≤ count * limit →
      ((responses db filter limit orders count).map AlertResponse.id).Perm
        ((selected db filter).map Notification.id)

section Joins

variable {db : Database} {filter : AlertFilter}

/-- What an outer join over a unique key finds. -/
theorem outerJoin_filter_key {α κ : Type} [BEq κ] [LawfulBEq κ] {key : α → κ} {rows : List α}
    (h : (rows.map key).Nodup) (k : κ) :
    ∃ partner, outerJoin (rows.filter (fun a => key a == k)) = [partner] := by
  cases hfound : rows.filter (fun a => key a == k) with
  | nil => exact ⟨none, rfl⟩
  | cons a rest =>
      have ha : a ∈ rows.filter (fun a => key a == k) := by
        rw [hfound]
        exact List.mem_cons_self
      obtain ⟨hmem, hk⟩ := List.mem_filter.mp ha
      rw [← hfound, ← beq_iff_eq.mp hk, filter_key h hmem]
      exact ⟨some a, rfl⟩

/-- The joins neither drop a notification nor repeat it. -/
theorem Consistent.joinedRows_eq (h : Consistent db) {n : Notification} (hn : n ∈ db.notifications) :
    ∃ row : AlertRow, joinedRows db n = [row] ∧ row.notification = n := by
  obtain ⟨p, hp, hpair⟩ := h.pair n hn
  obtain ⟨r, hr, hrule⟩ := h.rule n hn
  obtain ⟨event, hevent⟩ := outerJoin_filter_key h.events n.id
  refine ⟨⟨n, p.displayName, r.threshold, event⟩, ?_, rfl⟩
  rw [joinedRows, ← hpair, filter_key h.pairs hp, List.flatMap_singleton, ← hrule,
    filter_key h.rules hr, List.flatMap_singleton, hevent]
  rfl

/-- The rows are those of the selected notifications, one each. -/
theorem Consistent.map_notification (h : Consistent db) :
    (alertRows db filter).map AlertRow.notification = selected db filter := by
  have hall : ∀ n ∈ selected db filter, n ∈ db.notifications :=
    fun n hn => List.mem_of_mem_filter hn
  rw [alertRows]
  generalize selected db filter = ns at hall
  induction ns with
  | nil => rfl
  | cons n rest ih =>
      obtain ⟨row, hrow, hn⟩ := h.joinedRows_eq (hall n List.mem_cons_self)
      rw [List.flatMap_cons, List.map_append, hrow,
        ih (fun m hm => hall m (List.mem_cons_of_mem _ hm)), List.map_singleton, hn]
      rfl

end Joins

/-- Paging through the alerts is exact exactly if no two notifications with one
    `triggered_at` stand on the two sides of a page boundary. -/
theorem pagingExact_iff {db : Database} (hdb : Consistent db) {filter : AlertFilter} {limit : Nat}
    (hlimit : 1 ≤ limit) :
    PagingExact db filter limit
      ↔ BoundariesApart Notification.triggeredAt (selected db filter) limit := by
  have hids : (alertRows db filter).map (fun row => row.notification.id)
      = (selected db filter).map Notification.id := by
    rw [← hdb.map_notification, List.map_map]
    rfl
  have hkeys : descendingKeys AlertRow.triggeredAt (alertRows db filter)
      = descendingKeys Notification.triggeredAt (selected db filter) := by
    rw [descendingKeys, descendingKeys, ← hdb.map_notification, List.map_map]
    rfl
  have hlength : (alertRows db filter).length = (selected db filter).length := by
    rw [← hdb.map_notification, List.length_map]
  have hnodup : ((alertRows db filter).map (fun row => row.notification.id)).Nodup := by
    rw [hids]
    exact hdb.notifications.sublist (List.filter_sublist.map _)
  -- The responses are the pages of the rows.
  have hpages : ∀ orders count,
      (responses db filter limit orders count).map AlertResponse.id
        = (pages (fun k => (orders k).list) limit count).map
          (fun row => row.notification.id) := by
    intro orders count
    rw [pages_eq_flatMap, responses, List.map_flatMap, List.map_flatMap]
    simp only [listAlerts, List.map_map]
    rfl
  have hexact : PagingExact db filter limit ↔ ExactPaging AlertRow.triggeredAt
      (fun row => row.notification.id) (alertRows db filter) limit := by
    simp only [PagingExact, ExactPaging, hpages, hids, hlength]
  rw [hexact, exactPaging_iff hnodup hlimit, BoundariesApart, BoundariesApart, hkeys]

/-! ## Two fires of one transaction -/

/-- A notification that is in cooldown. -/
def quietFire (ruleId : Uuid) (key : String) : NewNotification :=
  { ruleId, pairId := 1, type := .absoluteAbove, detectedPrice := ⟨false, 100, 0⟩
    detectedStateHash := "state", idempotencyKey := key, status := .suppressedCooldown }

/-- Two rules of a pair fired at one observation. -/
def twoFires : Database :=
  { pairs := [{ id := 1, krakenPairName := "XXBTZUSD", displayName := "XBT/USD" }]
    alertRules := [{ id := 7, pairId := 1, ruleType := .absoluteAbove, threshold := some ⟨false, 50, 0⟩ },
      { id := 8, pairId := 1, ruleType := .absoluteAbove, threshold := some ⟨false, 60, 0⟩ }]
    notifications := [(quietFire 7 "seven").row ⟨1, seconds 1000000020⟩,
      (quietFire 8 "eight").row ⟨2, seconds 1000000020⟩] }

theorem consistent_twoFires : Consistent twoFires :=
  ⟨by decide, by decide, by decide, by decide, by decide, by decide⟩

theorem pagingExact_iff_twoFires :
    PagingExact twoFires {} 2 ↔ BoundariesApart Notification.triggeredAt (selected twoFires {}) 2 :=
  pagingExact_iff consistent_twoFires (by decide)

/-- The order of the table. -/
def tableOrder : Ordered AlertRow.triggeredAt (alertRows twoFires {}) where
  list := alertRows twoFires {}
  perm := List.Perm.refl _
  descending := by decide

/-- The second request gets the rows the other way round. -/
def otherwise (k : Nat) : Ordered AlertRow.triggeredAt (alertRows twoFires {}) :=
  if k = 0 then tableOrder
  else @Ordered.swap _ _ _ _ _ tableOrder _ _ [] [] rfl rfl

/-- Two pages of one alert each: the first alert twice, and the second never. -/
theorem not_pagingExact_twoFires :
    (responses twoFires {} 1 otherwise 2).map AlertResponse.id = [1, 1]
      ∧ ¬ PagingExact twoFires {} 1 := by
  have hids : (responses twoFires {} 1 otherwise 2).map AlertResponse.id = [1, 1] := rfl
  refine ⟨hids, ?_⟩
  intro hexact
  have hperm := hexact otherwise 2 (by decide)
  rw [hids] at hperm
  exact absurd hperm (by decide)

end Dropwatch.AlertsApi
