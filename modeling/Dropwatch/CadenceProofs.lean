import Dropwatch.FailedBatchProofs
import Dropwatch.Lib.Trace
import Dropwatch.Scheduler
import Dropwatch.Workers

/-! # The poll schedule — who writes `last_checked_at`

    `last_checked_at` has two writers: a tick stores the time of its claim, and a
    batch stores the time of its observation.  A pair is due an interval after
    whatever was committed last.

    Over a run with its commits, the stored value is the last stamp of the pair
    (`stamped_of_traced`), so the pair keeps the schedule of its claim exactly as long
    as no later observation was committed since (`due_iff_of_traced`). -/

namespace Dropwatch.Scheduler

open Transact RuleIndex Poller Workers

/-- A write of `last_checked_at`. -/
inductive Stamp where
  | claim (at_ : Instant)
  | observation (at_ : Instant)
  deriving DecidableEq, Repr

/-- The value it stores. -/
def Stamp.at_ : Stamp → Instant
  | .claim t => t
  | .observation t => t

/-- The write of a statement to a pair's `last_checked_at`. -/
def stampOf (pairId : Uuid) : Write → Option Stamp
  | .claimPair i t => if i = pairId then some (.claim t) else none
  | .setPairObservation i _ _ _ t => if i = pairId then some (.observation t) else none
  | _ => none

/-- The stamps of a pair in the commits of a run. -/
def stamps (pairId : Uuid) (logs : List (List (Generated × Write))) : List Stamp :=
  (logs.flatten.map Prod.snd).filterMap (stampOf pairId)

/-- The claims among them. -/
def claimedAt? : Stamp → Option Instant
  | .claim t => some t
  | .observation _ => none

/-- The time of a pair's most recent committed claim. -/
def lastClaim (pairId : Uuid) (logs : List (List (Generated × Write))) : Option Instant :=
  ((stamps pairId logs).filterMap claimedAt?).getLast?

/-- Scheduler ticks and batches, started and stopped anyhow. -/
def cadence (rt : Runtime) (settings : Settings) : WorkerSystem where
  backend := backend
  answers := Answers
  starts := fun _ _ _ p => p = thread (enqueueDuePairs settings)
    ∨ ∃ messages, p = thread (processBatch rt settings messages)
  execs := fun _ _ _ _ _ => True
  closes := fun _ _ _ => True

/-- The statements that change a pair. -/
theorem pair_apply {db : Database} {e : Generated × Write} {pair : Pair}
    (h : pair ∈ (db.apply e.1 e.2).pairs) :
    ∃ before ∈ db.pairs, before.id = pair.id
      ∧ pair.lastCheckedAt
        = ((stampOf pair.id e.2).map Stamp.at_).or before.lastCheckedAt := by
  obtain ⟨g, w⟩ := e
  cases w with
  | setPairObservation i last bid ask t =>
      obtain ⟨before, hmem, rfl⟩ := List.mem_map.mp h
      refine ⟨before, hmem, ?_⟩
      by_cases hid : before.id = i
      · simp [hid, stampOf, Stamp.at_]
      · have hid' : ¬ i = before.id := fun h => hid h.symm
        simp [hid, hid', stampOf]
  | claimPair i t =>
      obtain ⟨before, hmem, rfl⟩ := List.mem_map.mp h
      refine ⟨before, hmem, ?_⟩
      by_cases hid : before.id = i
      · simp [hid, stampOf, Stamp.at_]
      · have hid' : ¬ i = before.id := fun h => hid h.symm
        simp [hid, hid', stampOf]
  | _ => exact ⟨pair, h, rfl, rfl⟩

/-- A log leaves the last of its stamps. -/
theorem pair_replay {log : List (Generated × Write)} {db : Database} {pair : Pair}
    (h : pair ∈ (backend.replay db log).pairs) :
    ∃ before ∈ db.pairs, before.id = pair.id
      ∧ pair.lastCheckedAt
        = ((((log.map Prod.snd).filterMap (stampOf pair.id)).getLast?).map Stamp.at_).or
          before.lastCheckedAt := by
  induction log generalizing db with
  | nil => exact ⟨pair, h, rfl, rfl⟩
  | cons e rest ih =>
      obtain ⟨mid, hmid, hid, hlast⟩ := @ih (db.apply e.1 e.2) h
      obtain ⟨before, hbefore, hid', hlast'⟩ := pair_apply hmid
      refine ⟨before, hbefore, hid'.trans hid, ?_⟩
      rw [hlast, hlast', hid, List.map_cons, List.filterMap_cons]
      cases stampOf pair.id e.2 with
      | none => rfl
      | some stamp =>
          rw [List.getLast?_cons]
          cases ((rest.map Prod.snd).filterMap (stampOf pair.id)).getLast? with
          | none => rfl
          | some stamp' => rfl

/-- What is stored is the last stamp. -/
def Stamped (logs : List (List (Generated × Write))) (f : Shared) : Prop :=
  ∀ pair ∈ f.db.pairs, ∀ stamp, (stamps pair.id logs).getLast? = some stamp →
    pair.lastCheckedAt = some stamp.at_

theorem stamped_of_traced {rt : Runtime} {settings : Settings} {c c' : Threads}
    {logs : List (List (Generated × Write))} (h : Traced (cadence rt settings) commits c logs c') :
    Stamped logs c'.frame := by
  have hsame : ∀ logs (f f' : Shared), f'.db = f.db → Stamped logs f → Stamped logs f' := by
    intro logs f f' hdb hstamped
    rw [Stamped, hdb]
    exact hstamped
  refine (Traced.invariant (V := fun _ => True) (fun _ _ => trivial)
    (fun logs f i s => hsame logs f _ rfl) ?_ trivial ?_ h).2
  · intro logs c i β cmd b f _ hstamped he
    rcases he.commit_cases with ⟨hdb, hnone, -⟩ | ⟨s, -, -, hdb, hone, -⟩
    · rw [hnone, List.append_nil]
      exact hsame logs c.frame f hdb hstamped
    · -- The last stamp of the commit is stored over what the earlier ones left.
      intro pair hpair stamp hlast
      rw [hone, stamps, List.flatten_append, List.map_append, List.filterMap_append,
        List.getLast?_append] at hlast
      rw [hdb] at hpair
      obtain ⟨before, hbefore, hid, hstored⟩ := pair_replay hpair
      rw [hstored]
      cases hnew : ((s.log.map Prod.snd).filterMap (stampOf pair.id)).getLast? with
      | some stamp' =>
          rw [List.flatten_singleton, hnew] at hlast
          rw [← Option.some.inj hlast]
          rfl
      | none =>
          rw [List.flatten_singleton, hnew] at hlast
          exact hstamped before hbefore stamp (by rw [hid]; exact hlast)
  · intro pair _ stamp hlast
    cases hlast

theorem mem_duePairs {db : Database} {now : Instant} {pair : Pair} (hmem : pair ∈ db.pairs)
    (hactive : pair.isActive = true) : pair ∈ duePairs db now ↔ isDue now pair = true := by
  have hrow : pair ∈ db.pairs.filter (fun p => p.isActive) := List.mem_filter.mpr ⟨hmem, hactive⟩
  constructor
  · exact fun h => (List.mem_filter.mp h).2
  · exact fun h => List.mem_filter.mpr ⟨hrow, h⟩

/-- A pair is due an interval after what is stored. -/
theorem isDue_iff {now v : Int} {pair : Pair} (h : pair.lastCheckedAt = some v) :
    isDue now pair = true ↔ v + seconds pair.pollIntervalSeconds ≤ now := by
  rw [isDue, h]
  show decide (seconds pair.pollIntervalSeconds ≤ now - v) = true ↔ _
  rw [decide_eq_true_eq]
  constructor
  · intro h
    omega
  · intro h
    omega

theorem due_from_iff {c v : Int} {pair : Pair} (h : pair.lastCheckedAt = some v) :
    (∀ now, c + seconds pair.pollIntervalSeconds ≤ now → isDue now pair = true) ↔ v ≤ c := by
  constructor
  · intro hdue
    have hfirst := (isDue_iff h).mp (hdue _ (Int.le_refl _))
    omega
  · intro hle now hnow
    exact (isDue_iff h).mpr (by omega)

/-- A claim that is the last stamp is the last claim. -/
theorem lastClaim_of_getLast? {pairId : Uuid} {logs : List (List (Generated × Write))} {t : Instant}
    (h : (stamps pairId logs).getLast? = some (.claim t)) : lastClaim pairId logs = some t := by
  obtain ⟨earlier, hstamps⟩ := List.getLast?_eq_some_iff.mp h
  rw [lastClaim, hstamps, List.filterMap_append]
  exact List.getLast?_concat

/-- A pair whose last committed claim was made at `t` is due at every tick from `t` plus
    its interval on, unless the last observation committed since then is later than
    `t`. -/
theorem due_iff_of_traced {rt : Runtime} {settings : Settings} {c c' : Threads}
    {logs : List (List (Generated × Write))} {pair : Pair} {t : Instant}
    (h : Traced (cadence rt settings) commits c logs c') (hmem : pair ∈ c'.frame.db.pairs)
    (hactive : pair.isActive = true) (hclaim : lastClaim pair.id logs = some t) :
    (∀ now, t + seconds pair.pollIntervalSeconds ≤ now → pair ∈ duePairs c'.frame.db now)
      ↔ ∀ t', (stamps pair.id logs).getLast? = some (.observation t') → t' ≤ t := by
  simp only [mem_duePairs hmem hactive]
  cases hlast : (stamps pair.id logs).getLast? with
  | none =>
      have hnone : stamps pair.id logs = [] := List.getLast?_eq_none_iff.mp hlast
      rw [lastClaim, hnone] at hclaim
      cases hclaim
  | some stamp =>
      have hstored : pair.lastCheckedAt = some stamp.at_ :=
        stamped_of_traced h pair hmem stamp hlast
      cases stamp with
      | claim u =>
          have hu : u = t := Option.some.inj ((lastClaim_of_getLast? hlast).symm.trans hclaim)
          constructor
          · intro _ t' heq
            cases heq
          · intro _
            exact (due_from_iff hstored).mpr (Int.le_of_eq hu)
      | observation u =>
          constructor
          · intro hdue t' heq
            obtain rfl := Stamp.observation.inj (Option.some.inj heq)
            exact (due_from_iff hstored).mp hdue
          · intro hle
            exact (due_from_iff hstored).mpr (hle u rfl)

/-! ## An example -/

/-- One pair that has never been checked, and a provider that knows its price. -/
def unchecked : Threads where
  frame :=
    { db := spikeTables
      mem := fun _ => {}
      ext := { clock := seconds 1000000020
               quotes := fun _ => some [("XBT/USD", spikeQuote)] }
      sessions := fun _ => none }
  prog := fun _ => .done ()

/-- The thread of a tick, and that of a batch. -/
def tick : Tx Unit := thread (enqueueDuePairs {})

def poll : Tx Unit := thread (processBatch Runtime.rational {} [spikeMessage])

/-- A tick. -/
def tickMoves : List (Move Database Write Generated MemOp ExtOp PyError) :=
  [.start 0 0 tick, .run 0 100, .stop 0]

/-- The pair after the tick. -/
def claimedPair : Pair :=
  { id := 1, krakenPairName := "XBT/USD", displayName := "XBT/USD"
    lastCheckedAt := some (seconds 1000000140) }

theorem due_iff_of_traced_tick :
    (∀ now, seconds 1000000140 + seconds claimedPair.pollIntervalSeconds ≤ now →
        claimedPair ∈ duePairs (play backend ticking commits tickMoves unchecked).1.frame.db now)
      ↔ ∀ t', (stamps claimedPair.id
            (play backend ticking commits tickMoves unchecked).2).getLast? = some (.observation t') →
          t' ≤ seconds 1000000140 := by
  have htraced : Traced (cadence Runtime.rational {}) commits unchecked
      (play backend ticking commits tickMoves unchecked).2
      (play backend ticking commits tickMoves unchecked).1 :=
    traced_play [0] (fun β e w => (answers_ticking β e w).1) (fun _ _ _ _ _ => trivial)
      (fun _ _ => rfl) (by decide +kernel) ⟨Or.inl rfl, trivial, trivial⟩
  exact due_iff_of_traced htraced (by decide +kernel) rfl (by decide +kernel)

/-- The same tick, and the batch of its message a minute later. -/
def pollMoves : List (Move Database Write Generated MemOp ExtOp PyError) :=
  tickMoves ++ [.start 1 1 poll, .run 1 100, .stop 1]

/-- The pair after the batch. -/
def polledPair : Pair :=
  { claimedPair with
    currentLastPrice := some ⟨false, 15000000000, -8⟩
    currentBidPrice := some ⟨false, 15000000000, -8⟩
    currentAskPrice := some ⟨false, 15000000000, -8⟩
    lastCheckedAt := some (seconds 1000000200) }

/-- A poll moves the schedule: when the interval of the claim is over, the pair is not
    due. -/
theorem not_due_polled :
    ∃ logs c' now, Traced (cadence Runtime.rational {}) commits unchecked logs c'
      ∧ polledPair ∈ c'.frame.db.pairs ∧ polledPair.isActive = true
      ∧ lastClaim polledPair.id logs = some (seconds 1000000140)
      ∧ seconds 1000000140 + seconds polledPair.pollIntervalSeconds ≤ now
      ∧ polledPair ∉ duePairs c'.frame.db now := by
  have htraced : Traced (cadence Runtime.rational {}) commits unchecked
      (play backend ticking commits pollMoves unchecked).2
      (play backend ticking commits pollMoves unchecked).1 :=
    traced_play [0, 1] (fun β e w => (answers_ticking β e w).1)
      (fun _ _ _ _ _ => trivial) (fun _ _ => rfl) (by decide +kernel)
      ⟨Or.inl rfl, trivial, Or.inr ⟨_, rfl⟩, trivial, trivial⟩
  exact ⟨_, _, seconds 1000000200, htraced, by decide +kernel, rfl, by decide +kernel,
    by decide, by decide +kernel⟩

end Dropwatch.Scheduler
