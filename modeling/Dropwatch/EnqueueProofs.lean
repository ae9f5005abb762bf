import Dropwatch.CadenceProofs
import Dropwatch.RebuildProofs

/-! # Enqueuing — one message an interval

    A tick sends its messages one by one and claims the pairs in one commit at its
    end.  A tick that stops in between has sent messages whose claims are nowhere,
    and the next tick sends them again.

    The theorem is about the runs in which no tick stops so: there the stored
    `last_checked_at` of a pair is at or after the claim of each of its messages
    (`Claimed`) whenever no tick is under way, and messages of one pair keep the
    interval. -/

namespace Dropwatch.Scheduler

open Transact RuleIndex Workers Rebuild

/-- The claim of every message is stored, or a later `last_checked_at`. -/
def Claimed (pairs : List Pair) (sent : List (Uuid × Instant)) : Prop :=
  ∀ x ∈ sent, ∀ pair ∈ pairs, pair.id = x.1 → ∃ t, pair.lastCheckedAt = some t ∧ x.2 ≤ t

instance (pairs : List Pair) (sent : List (Uuid × Instant)) : Decidable (Claimed pairs sent) :=
  decidable_of_iff (∀ x ∈ sent, ∀ pair ∈ pairs, pair.id = x.1 →
    pair.lastCheckedAt.any (fun t => x.2 ≤ t) = true) (by simp only [Claimed, Option.any_eq_true,
      decide_eq_true_eq])

/-- The intervals of the pairs. -/
def intervals (db : Database) : List (Uuid × Int) :=
  db.pairs.map (fun p => (p.id, p.pollIntervalSeconds))

/-- One scheduler: ticks one after another, each in a session of its own.  The clock does
    not go back; `mayStop` says when a tick may stop. -/
def scheduler (settings : Settings) (mayStop : Shared → Prop) : WorkerSystem where
  backend := backend
  answers := fun β e w b w' => Answers β e w b w' ∧ w.clock ≤ w'.clock
  starts := fun _ i _ p => i = 0 ∧ p = thread (enqueueDuePairs settings)
  execs := fun _ _ _ _ _ => True
  closes := fun f _ _ => mayStop f

/-- The scheduler whose ticks stop with no message unclaimed. -/
abbrev claiming (settings : Settings) : WorkerSystem :=
  scheduler settings (fun f => Claimed f.db.pairs f.ext.sent)

/-- No write of the workers changes an interval. -/
theorem intervals_replay (log : List (Generated × Write)) (db : Database) :
    intervals (backend.replay db log) = intervals db := by
  refine backend.replay_inv (P := fun db' => intervals db' = intervals db) ?_ rfl
  rintro ⟨g, w⟩ - db' hdb
  rw [← hdb]
  cases w with
  | setPairObservation i last bid ask t =>
      refine map_updateWhere ?_ db'.pairs
      exact fun _ => rfl
  | claimPair i t =>
      refine map_updateWhere ?_ db'.pairs
      exact fun _ => rfl
  | _ => rfl

/-- The claims of a tick, stored. -/
theorem claims_replay {log : List (Generated × Write)} {due : List Pair} {t : Instant}
    (hlog : log.map Prod.snd = due.map (fun p => .claimPair p.id t)) {db : Database} {pair : Pair}
    (h : pair ∈ (backend.replay db log).pairs) :
    ∃ before ∈ db.pairs, before.id = pair.id
      ∧ ((∃ p ∈ due, p.id = pair.id) → pair.lastCheckedAt = some t)
      ∧ ((∀ p ∈ due, p.id ≠ pair.id) → pair.lastCheckedAt = before.lastCheckedAt) := by
  obtain ⟨before, hbefore, hid, hstored⟩ := pair_replay h
  rw [hlog] at hstored
  have hstamp : ∀ p : Pair, stampOf pair.id (.claimPair p.id t)
      = if p.id = pair.id then some (.claim t) else none := fun _ => rfl
  refine ⟨before, hbefore, hid, ?_, ?_⟩
  · rintro ⟨p, hp, hpid⟩
    cases hlast : ((due.map (fun p => Write.claimPair p.id t)).filterMap
        (stampOf pair.id)).getLast? with
    | none =>
        have hnone := List.filterMap_eq_nil_iff.mp (List.getLast?_eq_none_iff.mp hlast)
          _ (List.mem_map.mpr ⟨p, hp, rfl⟩)
        rw [hstamp, if_pos hpid] at hnone
        cases hnone
    | some stamp =>
        obtain ⟨w, hw, heq⟩ := List.mem_filterMap.mp (List.mem_of_getLast? hlast)
        obtain ⟨p', -, rfl⟩ := List.mem_map.mp hw
        rw [hstamp] at heq
        split at heq
        · rw [hstored, hlast, ← Option.some.inj heq]
          rfl
        · cases heq
  · intro hnot
    have hnone : (due.map (fun p => Write.claimPair p.id t)).filterMap (stampOf pair.id) = [] := by
      refine List.filterMap_eq_nil_iff.mpr ?_
      intro w hw
      obtain ⟨p, hp, rfl⟩ := List.mem_map.mp hw
      rw [hstamp, if_neg (hnot p hp)]
    rw [hstored, hnone]
    rfl

section Ticks

variable {settings : Settings} {K : List (Uuid × Int)} {α : Type}

/-- What holds between the steps. -/
structure Punctual (K : List (Uuid × Int)) (f : Shared) : Prop where
  alone : ∀ i, i ≠ 0 → f.sessions i = none
  intervals : intervals f.db = K
  past : ∀ x ∈ f.ext.sent, x.2 ≤ f.ext.clock
  spaced : Spaced K f.ext.sent
  settled : f.sessions 0 = none → Claimed f.db.pairs f.ext.sent

/-- Nobody is there to interfere with a tick. -/
def pacing (settings : Settings) (K : List (Uuid × Int)) : Discipline (claiming settings) where
  J := Punctual K
  R := fun _ f f' => f' = f
  Own := fun _ _ _ => True
  refl := fun _ _ => rfl
  trans := fun h h' => h'.trans h
  idle := fun _ _ => trivial
  others := by
    intro i j β f f' cmd b hJ he _ _ hj hopen
    obtain ⟨s, hs, -⟩ := he
    by_cases hzero : j = 0
    · cases hs.symm.trans (hJ.alone i (fun hi => hj (hzero.trans hi.symm)))
    · exact absurd (hJ.alone j hzero) hopen
  opens := by
    rintro i proc f p hJ hclosed ⟨rfl, -⟩
    refine ⟨⟨?_, hJ.intervals, hJ.past, hJ.spaced, ?_⟩, ?_⟩
    · intro i hi
      rw [f.put_of_ne hi]
      exact hJ.alone i hi
    · intro hnone
      cases (f.put_self 0 _).symm.trans hnone
    · intro j hj hopen
      exact absurd (hJ.alone j hj) hopen
  closes := by
    rintro i f p hJ hclaimed
    have hsame : ∀ j, j ≠ i → (f.put i none).sessions j = f.sessions j :=
      fun j hj => f.put_of_ne hj none
    refine ⟨⟨?_, hJ.intervals, hJ.past, hJ.spaced, fun _ => hclaimed⟩, ?_⟩
    · intro j hj
      by_cases hji : j = i
      · rw [hji]
        exact f.put_self i none
      · rw [hsame j hji]
        exact hJ.alone j hj
    · intro j hj hopen
      by_cases hzero : j = 0
      · have hi : f.sessions i = none := hJ.alone i (fun h => hj (hzero.trans h.symm))
        rw [← hi]
        show { f with sessions := Function.update f.sessions i (f.sessions i) } = f
        rw [Function.update_eq_self]
      · exact absurd (hJ.alone j hzero) hopen

/-- The tick has its session, and `X` holds of the pairs, of its writes and of the
    outside world. -/
def Stage (X : List Pair → List Write → World → Prop) (f : Shared) : Prop :=
  ∃ s, f.sessions 0 = some s ∧ X f.db.pairs (s.log.map Prod.snd) f.ext

theorem stable_of_eq (P : Shared → Prop) : (pacing settings K).Stable 0 P := by
  intro f f' h heq _
  rw [heq]
  exact h

/-- An answer of the outside world. -/
theorem triple_ask {β : Type} {e : ExtOp β} {k : β → Tx α} {Q : α → Shared → Prop}
    {X : List Pair → List Write → World → Prop} {Y : β → List Pair → List Write → World → Prop}
    (he : ∀ pairs ws w b w', X pairs ws w → Answers β e w b w' → w.clock ≤ w'.clock →
      (∀ x ∈ w.sent, x.2 ≤ w.clock) → Spaced K w.sent →
        (∀ x ∈ w'.sent, x.2 ≤ w'.clock) ∧ Spaced K w'.sent ∧ Y b pairs ws w')
    (hk : ∀ b, (pacing settings K).Triple 0 (Stage (Y b)) (k b) Q) :
    (pacing settings K).Triple 0 (Stage X) (.step (.ask e) k) Q := by
  refine Discipline.Triple.step (R := fun b => Stage (Y b)) (stable_of_eq _) ?_ hk
  rintro f b f' (hJ : Punctual K f) ⟨s, hs, hX⟩ ⟨s', -, w', ⟨hanswer, hclock⟩, rfl⟩ _
  obtain ⟨hpast, hspaced, hY⟩ := he _ _ _ b w' hX hanswer hclock hJ.past hJ.spaced
  refine ⟨⟨hJ.alone, hJ.intervals, hpast, hspaced, ?_⟩, trivial, s, hs, hY⟩
  intro hnone
  cases hs.symm.trans hnone

/-- A query of a tick that has written nothing. -/
theorem triple_select {β : Type} {q : Database → β} {k : β → Tx α} {Q : α → Shared → Prop}
    {X : List Pair → List Write → World → Prop} {Y : β → List Pair → List Write → World → Prop}
    (hX : ∀ pairs ws w, X pairs ws w → ws = [])
    (hq : ∀ db w, intervals db = K → X db.pairs [] w → Y (q db) db.pairs [] w)
    (hk : ∀ b, (pacing settings K).Triple 0 (Stage (Y b)) (k b) Q) :
    (pacing settings K).Triple 0 (Stage X) (.step (.query q) k) Q := by
  refine Discipline.Triple.step (R := fun b => Stage (Y b)) (stable_of_eq _) ?_ hk
  rintro f b f' (hJ : Punctual K f) ⟨s, hs, hx⟩ ⟨s', hs', hb, rfl⟩ _
  obtain rfl := Option.some.inj (hs.symm.trans hs')
  have hws := hX _ _ _ hx
  have hlog : s.log = [] := List.map_eq_nil_iff.mp hws
  rw [hws] at hx
  refine ⟨hJ, trivial, s, hs, ?_⟩
  rw [hlog, Backend.replay_nil] at hb
  rw [hws, hb]
  exact hq _ _ hJ.intervals hx

theorem triple_claim {w : Write} {k : Unit → Tx α} {Q : α → Shared → Prop}
    {X Y : List Pair → List Write → World → Prop}
    (hw : ∀ pairs ws x, X pairs ws x → Y pairs (ws ++ [w]) x)
    (hk : (pacing settings K).Triple 0 (Stage Y) (k ()) Q) :
    (pacing settings K).Triple 0 (Stage X) (.step (.write w) k) Q := by
  refine Discipline.Triple.step (R := fun _ => Stage Y) (stable_of_eq _) ?_ (fun _ => hk)
  rintro f b f' (hJ : Punctual K f) ⟨s, hs, hX⟩ ⟨s', hs', g, -, rfl⟩ _
  obtain rfl := Option.some.inj (hs.symm.trans hs')
  refine ⟨⟨?_, hJ.intervals, hJ.past, hJ.spaced, ?_⟩, trivial, _, f.put_self 0 _, ?_⟩
  · intro i hi
    exact (f.put_of_ne hi _).trans (hJ.alone i hi)
  · intro hnone
    cases (f.put_self 0 _).symm.trans hnone
  · rw [List.map_append]
    exact hw _ _ _ hX

/-- Before the first message. -/
def Idle (now : Instant) (pairs : List Pair) (ws : List Write) (w : World) : Prop :=
  ws = [] ∧ now ≤ w.clock ∧ Claimed pairs w.sent

/-- The pairs are selected, and an interval has passed since their last messages. -/
structure Selected (K : List (Uuid × Int)) (due : List Pair) (now : Instant) (pairs : List Pair)
    (ws : List Write) (w : World) : Prop where
  idle : Idle now pairs ws w
  distinct : (due.map Pair.id).Nodup
  fresh : ∀ p ∈ due, ∀ x ∈ w.sent, x.1 = p.id → ∀ k, (x.1, k) ∈ K → x.2 + seconds k ≤ now

/-- The messages of `left` are still to be sent; every other message of the tick has its
    pair among `due`. -/
structure Sending (K : List (Uuid × Int)) (due left : List Pair) (t : Instant)
    (pairs : List Pair) (ws : List Write) (w : World) : Prop where
  unwritten : ws = []
  clock : t ≤ w.clock
  distinct : (left.map Pair.id).Nodup
  mine : left ⊆ due
  upto : ∀ x ∈ w.sent, x.2 ≤ t
  fresh : ∀ p ∈ left, ∀ x ∈ w.sent, x.1 = p.id → ∀ k, (x.1, k) ∈ K → x.2 + seconds k ≤ t
  claimed : ∀ x ∈ w.sent, (∃ p ∈ due, p.id = x.1) ∨ Claimed pairs [x]

/-- The claims of `written` are written. -/
structure Claiming (due written : List Pair) (t : Instant) (pairs : List Pair)
    (ws : List Write) (w : World) : Prop where
  writes : ws = written.map (fun p => .claimPair p.id t)
  upto : ∀ x ∈ w.sent, x.2 ≤ t
  claimed : ∀ x ∈ w.sent, (∃ p ∈ due, p.id = x.1) ∨ Claimed pairs [x]

/-- What is due was not sent within the interval. -/
theorem selected_duePairs (hK : (K.map Prod.fst).Nodup) {now : Int} {db : Database} {w : World}
    (hdb : intervals db = K) (h : Idle now db.pairs [] w) :
    Selected K (duePairs db now) now db.pairs [] w := by
  refine ⟨h, ?_, ?_⟩
  · have hids : (db.pairs.map Pair.id).Nodup := by
      rw [← hdb, intervals, List.map_map] at hK
      exact hK
    exact hids.sublist ((List.filter_sublist.trans List.filter_sublist).map Pair.id)
  · intro p hp x hx hid k hk
    obtain ⟨hactive, hdue⟩ := List.mem_filter.mp hp
    have hmem : p ∈ db.pairs := (List.mem_filter.mp hactive).1
    obtain ⟨t, hstored, hle⟩ := h.2.2 x hx p hmem hid.symm
    have hpast : t + seconds p.pollIntervalSeconds ≤ now := (isDue_iff hstored).mp hdue
    have hinterval : (x.1, p.pollIntervalSeconds) ∈ K := by
      rw [← hdb, hid]
      exact List.mem_map.mpr ⟨p, hmem, rfl⟩
    have heq := List.inj_on_of_nodup_map hK hk hinterval rfl
    rw [(Prod.mk.inj heq).2]
    exact Int.le_trans (Int.add_le_add_right hle _) hpast

theorem triple_sendAll {Q : Unit → Shared → Prop} {due : List Pair} {t : Instant}
    {windowSeconds : Int} {total : Nat} {left : List Pair} {index : Nat}
    (hQ : ∀ f, Stage (Sending K due [] t) f → Q () f) :
    (pacing settings K).Triple 0 (Stage (Sending K due left t))
      (sendAll windowSeconds t total index left) Q := by
  induction left generalizing index with
  | nil => exact Discipline.Triple.done (fun f _ h => hQ f h)
  | cons pair rest ih =>
      rw [sendAll, Script.call_bind]
      refine triple_ask (Y := fun _ => Sending K due rest t) ?_ (fun _ => ih)
      intro pairs ws w b w' h hanswer _ hpast hspaced
      obtain ⟨hfirst, hdistinct⟩ := List.nodup_cons.mp h.distinct
      have hpair : pair ∈ due := h.mine (List.mem_cons_self)
      obtain rfl : w' = { w with sent := w.sent ++ [(pair.id, t)] } := hanswer
      have hsent : ∀ x ∈ w.sent ++ [(pair.id, t)], x ∈ w.sent ∨ x = (pair.id, t) := by
        intro x hx
        rcases List.mem_append.mp hx with hold | hnew
        · exact Or.inl hold
        · exact Or.inr (List.mem_singleton.mp hnew)
      refine ⟨?_, ?_, h.unwritten, h.clock, hdistinct, ?_, ?_, ?_, ?_⟩
      · intro x hx
        rcases hsent x hx with hold | rfl
        · exact hpast x hold
        · exact h.clock
      · refine List.pairwise_append.mpr ⟨hspaced, List.pairwise_singleton _ _, ?_⟩
        intro x hx y hy hid k hk
        rw [List.mem_singleton.mp hy] at hid ⊢
        exact h.fresh pair List.mem_cons_self x hx hid k hk
      · exact fun p hp => h.mine (List.mem_cons_of_mem _ hp)
      · intro x hx
        rcases hsent x hx with hold | rfl
        · exact h.upto x hold
        · exact Int.le_refl t
      · intro p hp x hx hid k hk
        rcases hsent x hx with hold | rfl
        · exact h.fresh p (List.mem_cons_of_mem _ hp) x hold hid k hk
        · have hsame : pair.id = p.id := hid
          exact absurd (List.mem_map.mpr ⟨p, hp, hsame.symm⟩) hfirst
      · intro x hx
        rcases hsent x hx with hold | rfl
        · exact h.claimed x hold
        · exact Or.inl ⟨pair, hpair, rfl⟩

theorem triple_claimAll {Q : Unit → Shared → Prop} {due : List Pair} {t : Instant}
    {written left : List Pair} (hdue : written ++ left = due)
    (hQ : ∀ f, Stage (Claiming due due t) f → Q () f) :
    (pacing settings K).Triple 0 (Stage (Claiming due written t)) (claimAll t left) Q := by
  induction left generalizing written with
  | nil =>
      rw [List.append_nil] at hdue
      rw [hdue]
      exact Discipline.Triple.done (fun f _ h => hQ f h)
  | cons pair rest ih =>
      rw [claimAll, Script.call_bind]
      refine triple_claim (Y := Claiming due (written ++ [pair]) t) ?_
        (ih (by rw [List.append_assoc]; exact hdue))
      intro pairs ws w h
      refine ⟨?_, h.upto, h.claimed⟩
      rw [h.writes, List.map_append]
      rfl

/-- The commit of a tick: its messages are claimed. -/
theorem triple_commit {k : Unit → Tx α} {Q : α → Shared → Prop} {due : List Pair} {t : Instant}
    (hk : (pacing settings K).Triple 0 (fun f => Claimed f.db.pairs f.ext.sent) (k ()) Q) :
    (pacing settings K).Triple 0 (Stage (Claiming due due t)) (.step .commit k) Q := by
  refine Discipline.Triple.step (R := fun _ f => Claimed f.db.pairs f.ext.sent) (stable_of_eq _)
    ?_ (fun _ => hk)
  rintro f b f' (hJ : Punctual K f) ⟨s, hs, h⟩ ⟨s', hs', rfl⟩ _
  obtain rfl := Option.some.inj (hs.symm.trans hs')
  refine ⟨⟨?_, ?_, hJ.past, hJ.spaced, ?_⟩, trivial, ?_⟩
  · intro i hi
    exact (f.put_of_ne hi _).trans (hJ.alone i hi)
  · show intervals (backend.replay f.db s.log) = K
    rw [intervals_replay]
    exact hJ.intervals
  · intro hnone
    cases (f.put_self 0 _).symm.trans hnone
  · intro x hx pair hpair hid
    obtain ⟨before, hbefore, hsame, hdue, hother⟩ := claims_replay h.writes hpair
    by_cases hmine : ∃ p ∈ due, p.id = pair.id
    · exact ⟨t, hdue hmine, h.upto x hx⟩
    · have hnot : ∀ p ∈ due, p.id ≠ pair.id := fun p hp heq => hmine ⟨p, hp, heq⟩
      rw [hother hnot]
      rcases h.claimed x hx with ⟨p, hp, heq⟩ | hclaimed
      · exact absurd (heq.trans hid.symm) (hnot p hp)
      · exact hclaimed x (List.mem_singleton_self x) before hbefore (hsame.trans hid)

/-- A tick keeps the intervals, and at its end every message is claimed. -/
theorem triple_enqueueDuePairs (hK : (K.map Prod.fst).Nodup) {t : Instant} :
    (pacing settings K).Triple 0 (Stage (Idle t)) (enqueueDuePairs settings)
      (fun _ f => Claimed f.db.pairs f.ext.sent) := by
  have hread : ∀ {β : Type} (k : Instant → Tx β) (Q : β → Shared → Prop),
      (∀ now, (pacing settings K).Triple 0 (Stage (Idle now)) (k now) Q) →
        (pacing settings K).Triple 0 (Stage (Idle t)) (.step (.ask .utcNow) k) Q := by
    intro β k Q hk
    refine triple_ask ?_ hk
    rintro pairs ws w b w' ⟨hws, -, hclaimed⟩ rfl hclock hpast hspaced
    exact ⟨fun x hx => Int.le_trans (hpast x hx) hclock, hspaced, hws, Int.le_refl _, hclaimed⟩
  rw [enqueueDuePairs, getDuePairs]
  refine Discipline.Triple.bind (Q := fun due f => ∃ now, Stage (Selected K due now) f) ?_ ?_
  · rw [Script.call_bind]
    refine hread _ _ ?_
    intro now
    refine triple_select (fun _ _ _ h => h.1) (Y := fun due => Selected K due now) ?_ ?_
    · exact fun db w hdb h => selected_duePairs hK hdb h
    · exact fun due => Discipline.Triple.done (fun f _ h => ⟨now, h⟩)
  -- With the pairs selected: no pair is due, or all are sent, claimed and committed.
  · rintro due f hJ ⟨now, h⟩
    revert f
    show (pacing settings K).Triple 0 (Stage (Selected K due now)) _ _
    split
    · refine Discipline.Triple.done ?_
      rintro f _ ⟨s, -, h⟩
      exact h.idle.2.2
    · rw [Script.call_bind]
      refine triple_ask (Y := fun t => Sending K due due t) ?_ ?_
      · rintro pairs ws w b w' h rfl hclock hpast hspaced
        have hpast' : ∀ x ∈ w.sent, x.2 ≤ b := fun x hx => Int.le_trans (hpast x hx) hclock
        refine ⟨hpast', hspaced, h.idle.1, Int.le_refl _, h.distinct, List.Subset.refl _, hpast',
          ?_, ?_⟩
        · intro p hp x hx hid k hk
          exact Int.le_trans (h.fresh p hp x hx hid k hk) (Int.le_trans h.idle.2.1 hclock)
        · intro x hx
          refine Or.inr ?_
          intro y hy
          rw [List.mem_singleton.mp hy]
          exact h.idle.2.2 x hx
      · intro claimedAt
        refine Discipline.Triple.bind
          (triple_sendAll (Q := fun _ => Stage (Claiming due [] claimedAt)) ?_) ?_
        · rintro f ⟨s, hs, h⟩
          exact ⟨s, hs, h.unwritten, h.upto, h.claimed⟩
        · intro _
          refine Discipline.Triple.bind
            (triple_claimAll (Q := fun _ => Stage (Claiming due due claimedAt)) rfl
              (fun _ h => h)) ?_
          intro _
          exact triple_commit (Discipline.Triple.done (fun _ _ h => h))

theorem verified_scheduler (hK : (K.map Prod.fst).Nodup) : (pacing settings K).Verified := by
  rintro f i proc p (hJ : Punctual K f) hclosed ⟨rfl, rfl⟩
  have hJ' : Punctual K (f.put 0 (some ⟨proc, []⟩)) :=
    ((pacing settings K).opens hJ hclosed ⟨rfl, rfl⟩).1
  have htick : (pacing settings K).Triple 0 (Stage (Idle f.ext.clock))
      (thread (enqueueDuePairs settings)) (fun _ _ => True) :=
    (triple_enqueueDuePairs hK).bind (fun _ => Discipline.Triple.done (fun _ _ _ => trivial))
  exact htick _ hJ' ⟨_, f.put_self 0 _, rfl, Int.le_refl _, hJ.settled hclosed⟩

end Ticks

/-- In every run of ticks none of which stops between a message and its claim, two
    messages of one pair were claimed an interval apart. -/
theorem interval_of_reaches {settings : Settings} {c c' : Threads}
    (hclosed : ∀ i, c.frame.sessions i = none) (hnone : c.frame.ext.sent = [])
    (hids : (c.frame.db.pairs.map Pair.id).Nodup) (h : Reaches (claiming settings) c c') :
    c'.frame.ext.sent.Pairwise (fun x y => x.1 = y.1 → ∀ pair ∈ c'.frame.db.pairs,
      pair.id = x.1 → x.2 + seconds pair.pollIntervalSeconds ≤ y.2) := by
  have hvalid : (pacing settings (intervals c.frame.db)).Valid c := by
    refine ⟨⟨fun i _ => hclosed i, rfl, ?_, ?_, ?_⟩, ?_⟩
    · rw [hnone]
      exact fun x hx => absurd hx List.not_mem_nil
    · rw [hnone]
      exact List.Pairwise.nil
    · intro _
      rw [hnone]
      exact fun x hx => absurd hx List.not_mem_nil
    · intro i hi
      exact absurd (hclosed i) hi
  have hK : ((intervals c.frame.db).map Prod.fst).Nodup := by
    rw [intervals, List.map_map]
    exact hids
  have hJ : Punctual _ c'.frame := (Discipline.valid_of_reaches (verified_scheduler hK) hvalid h).1
  refine hJ.spaced.imp ?_
  intro x y hspaced hid pair hpair hpid
  refine hspaced hid _ ?_
  rw [← hJ.intervals, ← hpid]
  exact List.mem_map.mpr ⟨pair, hpair, rfl⟩

/-- Two ticks over a pair that is due every minute. -/
def twoTicks : List (Move Database Write Generated MemOp ExtOp PyError) := tickMoves ++ tickMoves

theorem interval_of_reaches_twice :
    (play backend ticking commits twoTicks unchecked).1.frame.ext.sent
        = [(1, seconds 1000000140), (1, seconds 1000000260)]
      ∧ (play backend ticking commits twoTicks unchecked).1.frame.ext.sent.Pairwise
        (fun x y => x.1 = y.1 →
          ∀ pair ∈ (play backend ticking commits twoTicks unchecked).1.frame.db.pairs,
            pair.id = x.1 → x.2 + seconds pair.pollIntervalSeconds ≤ y.2) := by
  have htraced : Traced (claiming {}) commits unchecked
      (play backend ticking commits twoTicks unchecked).2
      (play backend ticking commits twoTicks unchecked).1 :=
    traced_play [0] answers_ticking (fun _ _ _ _ _ => trivial) (fun _ _ => rfl)
      (by decide +kernel)
      ⟨⟨rfl, rfl⟩, show Claimed _ _ by decide +kernel, ⟨rfl, rfl⟩,
        show Claimed _ _ by decide +kernel, trivial⟩
  exact ⟨by decide +kernel,
    interval_of_reaches (fun _ => rfl) rfl (by decide) htraced.reaches⟩

/-- A pair that is due every hour. -/
def hourly : Threads where
  frame :=
    { db := { pairs := [{ id := 1, krakenPairName := "XBT/USD", displayName := "XBT/USD"
                          pollIntervalSeconds := 3600 }] }
      mem := fun _ => {}
      ext := { clock := seconds 1000000020 }
      sessions := fun _ => none }
  prog := fun _ => .done ()

/-- A tick that stops after its message, and the next one. -/
def cutTick : List (Move Database Write Generated MemOp ExtOp PyError) :=
  [.start 0 0 tick, .run 0 4, .stop 0] ++ tickMoves

/-- Two messages of the hourly pair, two minutes apart. -/
theorem not_interval_cutTick :
    ∃ c, Reaches (scheduler {} (fun _ => True)) hourly c
      ∧ ¬ c.frame.ext.sent.Pairwise (fun x y => x.1 = y.1 → ∀ pair ∈ c.frame.db.pairs,
        pair.id = x.1 → x.2 + seconds pair.pollIntervalSeconds ≤ y.2) := by
  have htraced : Traced (scheduler {} (fun _ => True)) commits hourly
      (play backend ticking commits cutTick hourly).2
      (play backend ticking commits cutTick hourly).1 :=
    traced_play [0] answers_ticking (fun _ _ _ _ _ => trivial) (fun _ _ => rfl)
      (by decide +kernel) ⟨⟨rfl, rfl⟩, trivial, ⟨rfl, rfl⟩, trivial, trivial⟩
  exact ⟨_, htraced.reaches, by decide +kernel⟩

end Dropwatch.Scheduler
