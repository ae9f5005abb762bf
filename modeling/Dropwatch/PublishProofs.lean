import Dropwatch.Lib.Trace
import Dropwatch.Workers

/-! # One publish per event

    A tick hands its due events to SNS before its one commit, and reads them
    without a lock.  An event is therefore published again when a tick that SNS
    took it from does not get to its commit, or when two ticks overlap.

    The theorem is about the runs without either: a tick starts when no other is
    under way and every event that SNS took is committed as published.  Then the
    events of a tick are new to SNS, each is handed over once, and at most one call
    per event is accepted, whatever crashes at the end. -/

namespace Dropwatch.Publisher

open Transact RuleIndex Workers

/-- Ticks of publishers, started under a policy and stopped at any point. -/
def publishers (policy : Shared → Prop) : WorkerSystem where
  backend := backend
  answers := Answers
  starts := fun f _ _ p =>
    policy f ∧ ∃ settings topicArn scan, p = thread (publishPending settings topicArn scan)
  execs := fun _ _ _ _ _ => True
  closes := fun _ _ _ => True

/-- No tick is under way, and every event that SNS took is committed as
    published. -/
def Quiescent (f : Shared) : Prop :=
  (∀ i, f.sessions i = none) ∧
    ∀ e ∈ f.db.outboxEvents, e.notificationId ∈ f.ext.accepted → e.publishedAt.isSome

/-- The ids of the outbox. -/
def eventIds (db : Database) : List Uuid := db.outboxEvents.map (fun e => e.notificationId)

/-! ## What a tick reads -/

/-- The due events are distinct, unpublished events of the outbox. -/
theorem dueEvents_distinct {db : Database} (h : (eventIds db).Nodup) (scan : Scan)
    (now : Instant) : ((dueEvents scan db now).map (fun e => e.notificationId)).Nodup := by
  have hfilter : ((db.outboxEvents.filter (isDue now)).map (fun e => e.notificationId)).Nodup :=
    h.sublist (List.filter_sublist.map _)
  have hsorted := ((((scan.order (db.outboxEvents.filter (isDue now))).perm_insertionSort
    (fun a b => a.createdAt ≤ b.createdAt)).trans (scan.perm _)).map
      (fun e => e.notificationId)).nodup_iff.mpr hfilter
  exact hsorted.sublist ((List.take_sublist _ _).map _)

/-! ## The discipline -/

/-- At most one tick is under way; SNS took no event twice; open sessions do not
    change the ids of the outbox. -/
structure OneTick (f : Shared) : Prop where
  accepted : f.ext.accepted.Nodup
  ids : (eventIds f.db).Nodup
  single : ∀ i j, f.sessions i ≠ none → f.sessions j ≠ none → i = j
  log : ∀ i s, f.sessions i = some s → eventIds (backend.replay f.db s.log) = eventIds f.db

/-- Nobody disturbs the tick. -/
structure Alone (i : Nat) (f f' : Shared) : Prop where
  db : f'.db = f.db
  ext : f'.ext = f.ext
  session : f'.sessions i = f.sessions i

/-- The commands of a tick other than the publish call. -/
def Silent {β : Type} : Cmd Database Write Generated MemOp ExtOp β → Prop
  | .write w => ∀ g db, eventIds (db.apply g w) = eventIds db
  | .insert _ => False
  | .ask e => ∀ w b w', Answers β e w b w' → w'.accepted = w.accepted
  | _ => True

theorem silent_utcNow : Silent (.ask .utcNow) := by
  intro w b w' h
  rw [show w' = { w with clock := b } from h]

variable {policy : Shared → Prop} {i : Nat} {f f' : Shared} {β : Type}
  {cmd : Cmd Database Write Generated MemOp ExtOp β} {b : β}

/-- A command of the tick keeps the invariant if it keeps the ids, and SNS takes
    nothing twice. -/
theorem OneTick.effect (h : OneTick f) (he : Effect (publishers policy) i f β cmd b f')
    (haccepted : f'.ext.accepted.Nodup) (hids : eventIds f'.db = eventIds f.db)
    (hlog : ∀ t, f'.sessions i = some t →
      eventIds (backend.replay f'.db t.log) = eventIds f'.db) : OneTick f' := by
  have hopen : f.sessions i ≠ none := by
    obtain ⟨s, hs, -⟩ := he
    rw [hs]
    exact Option.some_ne_none s
  -- The only open session is the one that moves.
  have hself : ∀ j, f'.sessions j ≠ none → j = i := by
    intro j hj
    by_contra hji
    rw [he.sessions_of_ne hji] at hj
    exact hji (h.single j i hj hopen)
  refine ⟨haccepted, ?_, fun j k hj hk => (hself j hj).trans (hself k hk).symm, ?_⟩
  · rw [hids]
    exact h.ids
  · intro j t ht
    have hji := hself j (by rw [ht]; exact Option.some_ne_none t)
    rw [hji] at ht
    exact hlog t ht

theorem OneTick.close (h : OneTick f) (i : Nat) : OneTick (f.put i none) where
  accepted := h.accepted
  ids := h.ids
  single := by
    have hopen : ∀ j, (f.put i none).sessions j ≠ none → f.sessions j ≠ none := by
      intro j hj
      by_cases hji : j = i
      · rw [hji, Frame.put_self] at hj
        exact absurd rfl hj
      · rw [f.put_of_ne hji] at hj
        exact hj
    exact fun j k hj hk => h.single j k (hopen j hj) (hopen k hk)
  log := by
    intro j s hs
    by_cases hji : j = i
    · rw [hji, Frame.put_self] at hs
      cases hs
    · rw [f.put_of_ne hji] at hs
      exact h.log j s hs

theorem OneTick.start (h : OneTick f) (hf : Quiescent f) (i proc : Nat) :
    OneTick (f.put i (some ⟨proc, []⟩)) where
  accepted := h.accepted
  ids := h.ids
  single := by
    have hself : ∀ j, (f.put i (some ⟨proc, []⟩)).sessions j ≠ none → j = i := by
      intro j hj
      by_contra hji
      rw [f.put_of_ne hji] at hj
      exact hj (hf.1 j)
    exact fun j k hj hk => (hself j hj).trans (hself k hk).symm
  log := by
    intro j s hs
    by_cases hji : j = i
    · rw [hji, Frame.put_self] at hs
      rw [← Option.some.inj hs]
      rfl
    · rw [f.put_of_ne hji] at hs
      exact h.log j s hs

/-- One tick at a time. -/
def oneAtATime : Discipline (publishers Quiescent) where
  J := OneTick
  R := Alone
  Own := fun _ _ _ => True
  refl := fun _ _ => ⟨rfl, rfl, rfl⟩
  idle := fun _ _ => trivial
  trans := fun h h' => ⟨h'.db.trans h.db, h'.ext.trans h.ext, h'.session.trans h.session⟩
  others := by
    intro i j β f f' cmd b h he _ _ hj hopen
    obtain ⟨s, hs, -⟩ := he
    refine absurd (h.single j i hopen ?_) hj
    rw [hs]
    exact Option.some_ne_none s
  opens := by
    intro i proc f p h _ hp
    exact ⟨h.start hp.1 i proc, fun j _ hopen => absurd (hp.1.1 j) hopen⟩
  closes := by
    intro i f p h _
    exact ⟨h.close i, fun j hj _ => ⟨rfl, rfl, f.put_of_ne hj none⟩⟩

/-! ## The tick -/

theorem OneTick.silent (h : OneTick f) (he : Effect (publishers policy) i f β cmd b f')
    (hsilent : Silent cmd) :
    OneTick f' ∧ f'.ext.accepted = f.ext.accepted ∧ f'.sessions i ≠ none := by
  obtain ⟨s, hs, hcmd⟩ := id he
  have hopen : f.sessions i ≠ none := by
    rw [hs]
    exact Option.some_ne_none s
  have hlog := h.log i s hs
  cases cmd with
  | query q =>
      obtain ⟨-, heq⟩ := hcmd
      rw [heq]
      exact ⟨h, rfl, hopen⟩
  | write w =>
      obtain ⟨g, -, heq⟩ := hcmd
      subst heq
      -- The write stays in the session's log, and its replay adds no event.
      refine ⟨h.effect he h.accepted rfl ?_, rfl, ?_⟩
      · intro t ht
        rw [Frame.log, Frame.put_self] at ht
        rw [← Option.some.inj ht]
        show eventIds (backend.replay f.db (s.log ++ [(g, w)])) = eventIds f.db
        rw [Backend.replay_concat]
        exact (hsilent g _).trans hlog
      · rw [Frame.log, Frame.put_self]
        exact Option.some_ne_none _
  | insert w => exact hsilent.elim
  | commit =>
      have hcommitted : f'.sessions i = some { s with log := [] } := by
        rw [show f' = f.commit backend i s from hcmd]
        exact f.put_self i _
      have hdb : f'.db = backend.replay f.db s.log := by
        rw [show f' = f.commit backend i s from hcmd]
        rfl
      have hext : f'.ext = f.ext := by
        rw [show f' = f.commit backend i s from hcmd]
        rfl
      -- What is committed is the log, which the invariant says keeps the event ids.
      refine ⟨h.effect he ?_ ?_ ?_, congrArg World.accepted hext, ?_⟩
      · rw [hext]
        exact h.accepted
      · rw [hdb]
        exact hlog
      · intro t ht
        rw [← Option.some.inj (hcommitted.symm.trans ht)]
        rfl
      · rw [hcommitted]
        exact Option.some_ne_none _
  | mem m =>
      obtain ⟨-, heq⟩ := hcmd
      subst heq
      refine ⟨h.effect he h.accepted rfl ?_, rfl, hopen⟩
      intro t ht
      exact h.log i t ht
  | ask e =>
      obtain ⟨x, ha, heq⟩ := hcmd
      have hsame := hsilent _ _ _ ha
      subst heq
      refine ⟨h.effect he ?_ rfl ?_, hsame, hopen⟩
      · show x.accepted.Nodup
        rw [hsame]
        exact h.accepted
      · intro t ht
        exact h.log i t ht

/-- What the tick still has to publish: distinct events, all new to SNS. -/
def New (i : Nat) (ids : List Uuid) (f : Shared) : Prop :=
  f.sessions i ≠ none ∧ ids.Nodup ∧ ∀ id ∈ ids, id ∉ f.ext.accepted

theorem stable_new (i : Nat) (ids : List Uuid) : oneAtATime.Stable i (New i ids) := by
  rintro f f' ⟨hopen, hnodup, hnew⟩ (hR : Alone i f f') _
  rw [New, hR.session, hR.ext]
  exact ⟨hopen, hnodup, hnew⟩

section Rules

variable {α : Type} {k : β → Tx α} {Q : α → Shared → Prop} {ids : List Uuid}

theorem triple_silent (hsilent : Silent cmd)
    (hk : ∀ b, oneAtATime.Triple i (New i ids) (k b) Q) :
    oneAtATime.Triple i (New i ids) (.step cmd k) Q := by
  refine Discipline.Triple.step (stable_new i ids) ?_ hk
  rintro f b f' hJ ⟨-, hnodup, hnew⟩ he _
  obtain ⟨hJ', hsame, hopen⟩ := OneTick.silent hJ he hsilent
  refine ⟨hJ', trivial, hopen, hnodup, ?_⟩
  rw [hsame]
  exact hnew

/-- The publish call of the next event: SNS may take it, whatever it answers. -/
theorem triple_publish {e : Uuid} {topicArn subject message : String}
    {k : Option String → Tx α} (hk : ∀ b, oneAtATime.Triple i (New i ids) (k b) Q) :
    oneAtATime.Triple i (New i (e :: ids))
      (.step (.ask (.publish e topicArn subject message)) k) Q := by
  refine Discipline.Triple.step (stable_new i (e :: ids)) ?_ hk
  rintro f b f' (hJ : OneTick f) ⟨hopen, hnodup, hnew⟩ he _
  obtain ⟨s, hs, x, ha, heq⟩ := id he
  subst heq
  obtain ⟨hne, hrest⟩ := List.nodup_cons.mp hnodup
  have hcases : x.accepted = f.ext.accepted ∨ x.accepted = f.ext.accepted ++ [e] := by
    cases b with
    | none => exact Or.inr (congrArg World.accepted ha)
    | some text => exact ha.imp (congrArg World.accepted) (congrArg World.accepted)
  have htaken : x.accepted.Nodup ∧ ∀ id ∈ ids, id ∉ x.accepted := by
    rcases hcases with hsame | happend
    · rw [hsame]
      exact ⟨hJ.accepted, fun id hid => hnew id (List.mem_cons_of_mem e hid)⟩
    · rw [happend]
      refine ⟨?_, ?_⟩
      · refine List.nodup_append.mpr ⟨hJ.accepted, List.nodup_singleton e, ?_⟩
        rintro a ha b hb rfl
        rw [List.mem_singleton.mp hb] at ha
        exact hnew e List.mem_cons_self ha
      · intro id hid hin
        rcases List.mem_append.mp hin with hold | hlast
        · exact hnew id (List.mem_cons_of_mem e hid) hold
        · rw [List.mem_singleton.mp hlast] at hid
          exact hne hid
  refine ⟨hJ.effect he htaken.1 rfl ?_, trivial, hopen, hrest, htaken.2⟩
  intro t ht
  exact hJ.log i t ht

end Rules

section Tick

variable (settings : Settings) (topicArn : String)

theorem triple_publishEvent (now : Instant) (e : OutboxEvent) (ids : List Uuid) :
    oneAtATime.Triple i (New i (e.notificationId :: ids))
      (publishEvent settings topicArn now e) (fun _ => New i ids) := by
  rw [publishEvent, Script.call_bind]
  refine triple_publish ?_
  intro failure
  cases failure with
  | some text =>
      refine triple_silent ?_ (fun _ => Discipline.Triple.done (fun _ _ h => h))
      intro g db
      refine map_updateWhere ?_ db.outboxEvents
      exact fun _ => rfl
  | none =>
      refine triple_silent ?_ ?_
      · intro g db
        refine map_updateWhere ?_ db.outboxEvents
        exact fun _ => rfl
      · intro _
        refine triple_silent trivial ?_
        intro notification
        cases notification with
        | none => exact Discipline.Triple.fail
        | some n =>
            exact triple_silent (fun g db => rfl)
              (fun _ => Discipline.Triple.done (fun _ _ h => h))

theorem triple_publishAll (now : Instant) (events : List OutboxEvent) :
    oneAtATime.Triple i (New i (events.map fun e => e.notificationId))
      (publishAll settings topicArn now events) (fun _ => New i []) := by
  induction events with
  | nil => exact Discipline.Triple.done (fun _ _ h => h)
  | cons e rest ih =>
      refine Discipline.Triple.bind (triple_publishEvent settings topicArn now e _) ?_
      intro published
      exact Discipline.Triple.bind ih (fun _ => Discipline.Triple.done (fun _ _ h => h))

/-- A tick that has just started: nothing written, and what SNS took is
    published. -/
def Started (i : Nat) (f : Shared) : Prop :=
  (∃ s, f.sessions i = some s ∧ s.log = []) ∧
    ∀ e ∈ f.db.outboxEvents, e.notificationId ∈ f.ext.accepted → e.publishedAt.isSome

theorem stable_started (i : Nat) : oneAtATime.Stable i (Started i) := by
  rintro f f' ⟨hopen, hpublished⟩ (hR : Alone i f f') _
  rw [Started, hR.session, hR.ext, hR.db]
  exact ⟨hopen, hpublished⟩

theorem triple_getDueEvents (scan : Scan) :
    oneAtATime.Triple i (Started i) (getDueEvents scan)
      (fun due => New i (due.map fun e => e.notificationId)) := by
  rw [getDueEvents, Script.call_bind]
  refine Discipline.Triple.step (R := fun _ => Started i) (stable_started i) ?_ ?_
  · rintro f b f' hJ ⟨⟨s, hs, hlog⟩, hpublished⟩ he _
    obtain ⟨hJ', hsame, -⟩ := OneTick.silent hJ he silent_utcNow
    obtain ⟨-, -, x, -, heq⟩ := he
    subst heq
    refine ⟨hJ', trivial, ⟨s, hs, hlog⟩, ?_⟩
    rw [hsame]
    exact hpublished
  · intro now
    refine Discipline.Triple.step (stable_started i) ?_
      (fun due => Discipline.Triple.done (fun _ _ h => h))
    rintro f b f' (hJ : OneTick f) ⟨⟨s, hs, hlog⟩, hpublished⟩ he _
    obtain ⟨s', hs', hb, heq⟩ := he
    have hsession := Option.some.inj (hs.symm.trans hs')
    rw [← hsession, hlog] at hb
    subst heq hb
    refine ⟨hJ, trivial, by rw [hs]; exact Option.some_ne_none s,
      dueEvents_distinct hJ.ids scan now, ?_⟩
    -- An event that SNS took is published, so it is not due.
    intro id hid hin
    obtain ⟨e, he, heid⟩ := List.mem_map.mp hid
    obtain ⟨hmem, hunpublished⟩ := mem_dueEvents he
    have hsome := hpublished e hmem (by rw [heid]; exact hin)
    rw [hunpublished] at hsome
    cases hsome

theorem triple_publishPending (scan : Scan) :
    oneAtATime.Triple i (Started i) (publishPending settings topicArn scan)
      (fun _ _ => True) := by
  refine Discipline.Triple.bind (triple_getDueEvents scan) ?_
  intro due
  show oneAtATime.Triple i _ (if due.isEmpty then pure 0 else _) _
  split
  · exact Discipline.Triple.done (fun _ _ _ => trivial)
  · refine triple_silent silent_utcNow ?_
    intro now
    show oneAtATime.Triple i _ (publishAll settings topicArn now due >>= fun published =>
      .step .commit fun _ => pure published) _
    refine Discipline.Triple.bind (triple_publishAll settings topicArn now due) ?_
    intro published
    exact triple_silent trivial (fun _ => Discipline.Triple.done (fun _ _ _ => trivial))

end Tick

theorem verified_oneAtATime : oneAtATime.Verified := by
  rintro f i proc p (hJ : OneTick f) _ ⟨hf, settings, topicArn, scan, rfl⟩
  have hstarted : Started i (f.put i (some ⟨proc, []⟩)) :=
    ⟨⟨_, f.put_self i _, rfl⟩, hf.2⟩
  exact Discipline.Triple.bind (triple_publishPending settings topicArn scan)
    (fun _ => Discipline.Triple.done (fun _ _ _ => trivial)) _ (hJ.start hf i proc) hstarted

/-- Ticks that start only when no other is under way and everything SNS took is
    committed as published: SNS takes at most one call for each event, wherever
    ticks stop and whatever answers are lost. -/
theorem accepted_once {c c' : Threads} (hclosed : ∀ i, c.frame.sessions i = none)
    (hids : (eventIds c.frame.db).Nodup) (hnone : c.frame.ext.accepted = [])
    (h : Reaches (publishers Quiescent) c c') (id : Uuid) :
    c'.frame.ext.accepted.count id ≤ 1 := by
  have hvalid : oneAtATime.Valid c := by
    refine ⟨⟨?_, hids, ?_, ?_⟩, ?_⟩
    · rw [hnone]
      exact List.nodup_nil
    · intro i j hi _
      exact absurd (hclosed i) hi
    · intro i s hs
      cases (hclosed i).symm.trans hs
    · intro i hi
      exact absurd (hclosed i) hi
  have hJ : OneTick c'.frame := (Discipline.valid_of_reaches verified_oneAtATime hvalid h).1
  exact List.nodup_iff_count_le_one.mp hJ.accepted id

/-! ## Two ticks -/

/-- A second event waits, which is not due before a minute has gone by. -/
def backlog : Threads where
  frame :=
    { waiting.frame with
      db :=
        { notifications := [waitingNotification, { waitingNotification with id := 4 }]
          outboxEvents := [waitingEvent, { waitingEvent with
            notificationId := 4, nextAttemptAt := some (seconds 1000000100) }] } }
  prog := waiting.prog

/-- A tick of a publisher, to its end. -/
def wholeTick : List (Move Database Write Generated MemOp ExtOp PyError) :=
  [.start 0 0 (thread (publishPending {} "topic" .inTurn)), .run 0 20, .stop 0]

/-- After one tick, and after the next. -/
def firstPublished : Threads := (play backend ticking commits wholeTick backlog).1

def bothPublished : Threads := (play backend ticking commits wholeTick firstPublished).1

theorem reaches_wholeTick {c : Threads} (h : Quiescent c.frame)
    (hready : ready backend ticking commits [0] wholeTick c = true) :
    Reaches (publishers Quiescent) c (play backend ticking commits wholeTick c).1 :=
  (traced_play (Y := publishers Quiescent) [0] (fun β e w => (answers_ticking β e w).1)
    (fun _ _ _ _ _ => trivial) (fun j _ => h.1 j) hready
    ⟨⟨h, {}, "topic", _, rfl⟩, trivial, trivial⟩).reaches

theorem accepted_once_bothPublished :
    Quiescent firstPublished.frame
      ∧ firstPublished.frame.ext.accepted = [3]
      ∧ firstPublished.frame.db.outboxEvents.map (fun e => e.publishedAt.isSome) = [true, false]
      ∧ Reaches (publishers Quiescent) firstPublished bothPublished
      ∧ bothPublished.frame.ext.accepted = [3, 4]
      ∧ bothPublished.frame.db.outboxEvents.map (fun e => e.publishedAt.isSome) = [true, true]
      ∧ ∀ id, bothPublished.frame.ext.accepted.count id ≤ 1 := by
  have hstart : Quiescent backlog.frame :=
    ⟨fun _ => rfl, fun _ _ h => absurd h List.not_mem_nil⟩
  have hready : ready backend ticking commits [0] wholeTick backlog = true := by decide +kernel
  have hfirst : Reaches (publishers Quiescent) backlog firstPublished :=
    reaches_wholeTick hstart hready
  have hquiet : Quiescent firstPublished.frame :=
    ⟨play_idle (fun _ _ => rfl) hready (by decide +kernel), by decide +kernel⟩
  have hsecond : Reaches (publishers Quiescent) firstPublished bothPublished :=
    reaches_wholeTick hquiet (by decide +kernel)
  exact ⟨hquiet, by decide +kernel, by decide +kernel, hsecond, by decide +kernel,
    by decide +kernel,
    accepted_once (fun _ => rfl) (by decide) rfl (hfirst.trans hsecond)⟩

/-- A tick that stops right after SNS took the waiting event leaves it waiting. -/
theorem reaches_stopped_tick (c : Threads) (hclosed : ∀ i, c.frame.sessions i = none)
    (hdb : c.frame.db = waiting.frame.db) (hdown : c.frame.ext.snsDown = none) :
    ∃ c', Reaches (publishers fun _ => True) c c' ∧ (∀ i, c'.frame.sessions i = none)
      ∧ c'.frame.db = waiting.frame.db ∧ c'.frame.ext.snsDown = none
      ∧ c'.frame.ext.accepted = c.frame.ext.accepted ++ [3] := by
  -- The clock, the SELECT, the clock again, and the publish call.
  have hrun : ∃ p', Uncommitted backend isolated (thread (publishPending {} "topic" .inTurn))
      ⟨c.frame.db, c.frame.db, c.frame.mem 0, c.frame.ext⟩ p'
      ⟨c.frame.db, c.frame.db, c.frame.mem 0,
        { c.frame.ext with accepted := c.frame.ext.accepted ++ [3] }⟩ := by
    rw [hdb]
    generalize c.frame.ext = w at hdown
    obtain ⟨clock, quotes, nextUuid, deleted, accepted, snsDown, sent⟩ := w
    obtain rfl : snsDown = none := hdown
    exact ⟨_, .next _ _ _ rfl (.next _ _ _ rfl (.next _ _ _ rfl (.next _ _ _ rfl (.here _ _))))⟩
  obtain ⟨p', hrun⟩ := hrun
  have hstart : (publishers fun _ => True).starts c.frame 0 0
      (thread (publishPending {} "topic" .inTurn)) := ⟨trivial, {}, "topic", _, rfl⟩
  have halone : c.frame.Alone 0 := fun j s _ hs => by cases (hclosed j).symm.trans hs
  obtain ⟨c', hreach, hclosed', hothers, hdb', -, hext⟩ :=
    reaches_of_turn answers_isolated (fun _ _ _ _ => trivial) (hclosed 0) halone hstart
      (fun _ => trivial) (Stretch.of_uncommitted hrun)
  refine ⟨c', hreach, ?_, hdb'.trans hdb, ?_, ?_⟩
  · intro j
    by_cases hj : j = 0
    · rw [hj]
      exact hclosed'
    · exact (hothers j hj).1.trans (hclosed j)
  · rw [hext]
    exact hdown
  · rw [hext]

/-- Two ticks that stop before their commit: SNS takes the event twice. -/
theorem not_accepted_once :
    ∃ c', Reaches (publishers fun _ => True) waiting c'
      ∧ c'.frame.ext.accepted.count waitingEvent.notificationId = 2 := by
  obtain ⟨c, hreach, hclosed, hdb, hdown, haccepted⟩ :=
    reaches_stopped_tick waiting (fun _ => rfl) rfl rfl
  obtain ⟨c', hreach', -, -, -, haccepted'⟩ := reaches_stopped_tick c hclosed hdb hdown
  refine ⟨c', hreach.trans hreach', ?_⟩
  rw [haccepted', haccepted]
  rfl

end Dropwatch.Publisher
