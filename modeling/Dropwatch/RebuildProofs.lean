import Mathlib.Data.List.Pairwise
import Dropwatch.FailedBatchProofs
import Dropwatch.Lib.Trace
import Dropwatch.Workers

/-! # Cooldowns across rebuilds of the index

    One poller process: batches one after another, and rebuilds of the rule index
    between their awaits.  The cooldown test reads the `last_fired_at` of a rule
    object in memory, and a rebuild replaces the objects by rows that it selected
    earlier.  Two things go wrong: the rows are older than a fire that was recorded
    since, or the evaluation under way advances an object that is no longer
    installed.  In both cases the next test finds no recent fire.

    The theorem is about the runs without either step (`Harmless`): there the
    installed objects cover every delivered fire recorded so far, and delivered
    fires keep their distance. -/

namespace Dropwatch.Rebuild

open Transact RuleIndex Evaluator Poller Workers

/-- A delivered fire: its rule and the `observed_at` of its observation, as the
    outbox event of the notification has them. -/
abbrev Fire := Uuid × Instant

def fireOf (payload : Payload) : Fire := (payload.ruleId, payload.triggeredAt)

/-- The delivered fires of the committed tables, oldest first. -/
def fires (db : Database) : List Fire := db.outboxEvents.map (fun e => fireOf e.payload)

/-- The fire that a write delivers. -/
def delivered : Generated × Write → Option Fire
  | (_, .addOutboxEvent _ payload) => some (fireOf payload)
  | _ => none

/-- The delivered fires recorded so far: committed ones, and those of the batch
    under way, whose thread is 0. -/
def recorded (f : Shared) : List Fire :=
  fires f.db ++ (match f.sessions 0 with
    | some s => s.log.filterMap delivered
    | none => [])

/-- The steps that do not harm the cooldown: an index swap installs rows that know
    every delivered fire recorded so far, and `last_fired_at` is set on an object of
    the installed index. -/
def Harmless (β : Type) (f : Shared) (cmd : Cmd Database Write Generated MemOp ExtOp β) : Prop :=
  match cmd with
  | .mem (.install rules _) => ∀ rule ∈ rules, ∀ x ∈ recorded f, x.1 = rule.id →
      ∃ t, rule.lastFiredAt = some t ∧ x.2 ≤ t
  | .mem (.setLastFiredAt generation _ _) => generation = (f.mem 0).generation
  | _ => True

/-- One poller process: thread 0 runs batches, each to its end, and the other threads
    rebuild the index.  The clock does not go back. -/
def poller (rt : Runtime) (settings : Settings)
    (policy : (β : Type) → Shared → Cmd Database Write Generated MemOp ExtOp β → Prop) :
    WorkerSystem where
  backend := backend
  answers := fun β e w b w' => Answers β e w b w' ∧ w.clock ≤ w'.clock
  starts := fun _ i proc p => proc = 0 ∧
    ((i = 0 ∧ ∃ messages, p = thread (processBatch rt settings messages))
      ∨ (i ≠ 0 ∧ p = thread rebuild))
  execs := fun β f _ cmd _ => policy β f cmd
  closes := fun _ i p => i = 0 → p = .done ()

/-- Delivered fires of one rule are a cooldown apart. -/
def CooldownKept (db : Database) : Prop :=
  ∀ e ∈ db.outboxEvents, ∀ e' ∈ db.outboxEvents, e.notificationId ≠ e'.notificationId →
    e.payload.ruleId = e'.payload.ruleId →
      ∀ rule ∈ db.alertRules, rule.id = e.payload.ruleId →
        e.payload.triggeredAt + seconds rule.cooldownSeconds ≤ e'.payload.triggeredAt
          ∨ e'.payload.triggeredAt + seconds rule.cooldownSeconds ≤ e.payload.triggeredAt

/-! ## Fires and the index -/

/-- The cooldowns of the rules. -/
def cooldowns (db : Database) : List (Uuid × Int) :=
  db.alertRules.map (fun r => (r.id, r.cooldownSeconds))

/-- Fires in order, those of one rule a cooldown apart. -/
def Spaced (K : List (Uuid × Int)) (xs : List Fire) : Prop :=
  xs.Pairwise (fun x y => x.1 = y.1 → ∀ c, (x.1, c) ∈ K → x.2 + seconds c ≤ y.2)

/-- The installed objects know the fires of their rules. -/
def Covered (m : Memory) (xs : List Fire) : Prop :=
  ∀ pairId, ∀ rule ∈ (m.rulesForPair pairId).all, ∀ x ∈ xs, x.1 = rule.id →
    ∃ t, m.lastFiredAt m.generation rule.id = some t ∧ x.2 ≤ t

theorem Covered.subset {m : Memory} {xs ys : List Fire} (h : Covered m ys) (hsub : xs ⊆ ys) :
    Covered m xs :=
  fun pairId rule hrule x hx => h pairId rule hrule x (hsub hx)

theorem Covered.setLastFiredAt {m : Memory} {xs : List Fire} (h : Covered m xs)
    {ruleId : Uuid} {t : Instant} {new : List Fire} (hpast : ∀ x ∈ xs ++ new, x.2 ≤ t)
    (hnew : ∀ x ∈ new, x.1 = ruleId) :
    Covered (m.setLastFiredAt m.generation ruleId t) (xs ++ new) := by
  intro pairId rule hrule x hx hid
  show ∃ t', (if m.generation = m.generation ∧ rule.id = ruleId then some t
    else m.lastFiredAt m.generation rule.id) = some t' ∧ x.2 ≤ t'
  by_cases hr : rule.id = ruleId
  · rw [if_pos ⟨rfl, hr⟩]
    exact ⟨t, rfl, hpast x hx⟩
  · rw [if_neg (fun h => hr h.2)]
    rcases List.mem_append.mp hx with hold | hadded
    · exact h pairId rule hrule x hold hid
    · exact absurd (hid.symm.trans (hnew x hadded)) hr

/-- The writes of a batch: none of them changes a delivered fire or a cooldown. -/
def batchWrite : Write → Bool
  | .addPriceHistory _ => true
  | .setPairObservation _ _ _ _ _ => true
  | .setRuleLastFiredAt _ _ => true
  | .addNotification _ => true
  | .addOutboxEvent _ _ => true
  | _ => false

theorem cooldowns_replay {log : List (Generated × Write)}
    (h : ∀ e ∈ log, batchWrite e.2 = true) (db : Database) :
    cooldowns (backend.replay db log) = cooldowns db := by
  refine backend.replay_inv (P := fun db' => cooldowns db' = cooldowns db) ?_ rfl
  rintro ⟨g, w⟩ he db' hdb
  have hbatch := h _ he
  rw [← hdb]
  cases w with
  | addPriceHistory row => rfl
  | setPairObservation pairId last bid ask at_ => rfl
  | setRuleLastFiredAt ruleId at_ =>
      refine map_updateWhere ?_ db'.alertRules
      exact fun _ => rfl
  | addNotification n => rfl
  | addOutboxEvent i payload => rfl
  | _ => cases hbatch

theorem fires_replay {log : List (Generated × Write)}
    (h : ∀ e ∈ log, batchWrite e.2 = true) (db : Database) :
    fires (backend.replay db log) = fires db ++ log.filterMap delivered := by
  refine backend.replay_added ?_ db
  rintro ⟨g, w⟩ he db'
  have hbatch := h _ he
  cases w with
  | addPriceHistory row => exact (List.append_nil _).symm
  | setPairObservation pairId last bid ask at_ => exact (List.append_nil _).symm
  | setRuleLastFiredAt ruleId at_ => exact (List.append_nil _).symm
  | addNotification n => exact (List.append_nil _).symm
  | addOutboxEvent i payload => exact List.map_append
  | _ => cases hbatch

/-! ## The invariant -/

/-- The committed fires keep their distance and lie in the past, and the installed
    objects know them; rebuilds write nothing. -/
structure Cool (K : List (Uuid × Int)) (f : Shared) : Prop where
  cooldowns : cooldowns f.db = K
  spaced : Spaced K (fires f.db)
  past : ∀ x ∈ fires f.db, x.2 ≤ f.ext.clock
  covered : Covered (f.mem 0) (fires f.db)
  known : ∀ pairId, ∀ rule ∈ ((f.mem 0).rulesForPair pairId).all,
    (rule.id, rule.cooldownSeconds) ∈ K
  proc : ∀ i s, f.sessions i = some s → s.proc = 0
  reader : ∀ i s, f.sessions i = some s → i ≠ 0 → s.log = []

/-- A swap to newer objects that know the recorded fires. -/
structure Swapped (f f' : Shared) : Prop where
  newer : (f.mem 0).generation < (f'.mem 0).generation
  covered : Covered (f'.mem 0) (recorded f)

/-- What rebuilds do to the memory. -/
def Rebuilt (f f' : Shared) : Prop := f'.mem 0 = f.mem 0 ∨ Swapped f f'

/-- What the other threads do to a thread.  To the batch they are rebuilds. -/
structure Interrupted (i : Nat) (f f' : Shared) : Prop where
  session : f'.sessions i = f.sessions i
  clock : f.ext.clock ≤ f'.ext.clock
  batch : i = 0 → f'.db = f.db ∧ Rebuilt f f'

theorem recorded_congr {f f' : Shared} (hdb : f'.db = f.db)
    (hsession : f'.sessions 0 = f.sessions 0) : recorded f' = recorded f := by
  rw [recorded, recorded, hdb, hsession]

theorem Interrupted.trans {i : Nat} {f f' f'' : Shared} (h : Interrupted i f f')
    (h' : Interrupted i f' f'') : Interrupted i f f'' where
  session := h'.session.trans h.session
  clock := Int.le_trans h.clock h'.clock
  batch := by
    intro hi
    obtain ⟨hdb, hmem⟩ := h.batch hi
    obtain ⟨hdb', hmem'⟩ := h'.batch hi
    have hrecorded : recorded f' = recorded f := recorded_congr hdb (hi ▸ h.session)
    refine ⟨hdb'.trans hdb, ?_⟩
    rcases hmem' with hsame' | hswap'
    · rcases hmem with hsame | hswap
      · exact Or.inl (hsame'.trans hsame)
      · refine Or.inr ⟨?_, ?_⟩
        · rw [hsame']
          exact hswap.newer
        · rw [hsame']
          exact hswap.covered
    · refine Or.inr ⟨?_, ?_⟩
      · rcases hmem with hsame | hswap
        · rw [← hsame]
          exact hswap'.newer
        · exact Nat.lt_trans hswap.newer hswap'.newer
      · rw [← hrecorded]
        exact hswap'.covered

variable {rt : Runtime} {settings : Settings} {K : List (Uuid × Int)} {i : Nat} {f f' : Shared}
  {β : Type} {cmd : Cmd Database Write Generated MemOp ExtOp β} {b : β}

/-- The clock does not go back. -/
theorem effect_clock (he : Effect (poller rt settings Harmless) i f β cmd b f') :
    f.ext.clock ≤ f'.ext.clock := by
  obtain ⟨s, -, heq | ⟨e, -, heq⟩ | heq | ⟨m, heq⟩ | ⟨_, _, _, x, ha, heq⟩⟩ := he.frame_cases
  · rw [heq]
  · rw [heq]
    exact Int.le_refl _
  · rw [heq]
    exact Int.le_refl _
  · rw [heq]
    exact Int.le_refl _
  · rw [heq]
    exact ha.2

/-- A frame with the same tables and memory. -/
theorem Cool.of_same (h : Cool K f) (hdb : f'.db = f.db) (hmem : f'.mem 0 = f.mem 0)
    (hclock : f.ext.clock ≤ f'.ext.clock)
    (hsessions : ∀ i s, f'.sessions i = some s → s.proc = 0 ∧ (i ≠ 0 → s.log = [])) :
    Cool K f' where
  cooldowns := by
    rw [hdb]
    exact h.cooldowns
  spaced := by
    rw [hdb]
    exact h.spaced
  past := by
    rw [hdb]
    exact fun x hx => Int.le_trans (h.past x hx) hclock
  covered := by
    rw [hdb, hmem]
    exact h.covered
  known := by
    rw [hmem]
    exact h.known
  proc := fun i s hs => (hsessions i s hs).1
  reader := fun i s hs => (hsessions i s hs).2

theorem Cool.sessions (h : Cool K f) (i : Nat) (s : Session Generated Write)
    (hs : f.sessions i = some s) : s.proc = 0 ∧ (i ≠ 0 → s.log = []) :=
  ⟨h.proc i s hs, h.reader i s hs⟩

/-- Opening or closing a session. -/
theorem Cool.put (h : Cool K f) (i : Nat) {o : Option (Session Generated Write)}
    (ho : ∀ s, o = some s → s.proc = 0 ∧ (i ≠ 0 → s.log = [])) : Cool K (f.put i o) := by
  refine h.of_same rfl rfl (Int.le_refl _) ?_
  intro j s hs
  by_cases hj : j = i
  · rw [hj, Frame.put_self] at hs
    rw [hj]
    exact ho s hs
  · rw [f.put_of_ne hj] at hs
    exact h.sessions j s hs

theorem interrupted_put {i j : Nat} (hj : j ≠ i) (o : Option (Session Generated Write)) :
    Interrupted j f (f.put i o) where
  session := f.put_of_ne hj o
  clock := Int.le_refl _
  batch := fun _ => ⟨rfl, Or.inl rfl⟩

/-- Rebuilds leave the batch its tables and its session; batches leave the rebuilds
    their sessions. -/
def cooling (rt : Runtime) (settings : Settings) (K : List (Uuid × Int)) :
    Discipline (poller rt settings Harmless) where
  J := Cool K
  R := Interrupted
  Own := fun i f f' => i ≠ 0 → f'.db = f.db ∧ Rebuilt f f'
  refl := fun _ _ => ⟨rfl, Int.le_refl _, fun _ => ⟨rfl, Or.inl rfl⟩⟩
  trans := Interrupted.trans
  idle := fun _ _ _ => ⟨rfl, Or.inl rfl⟩
  others := by
    intro i j β f f' cmd b _ he hown _ hj _
    refine ⟨he.sessions_of_ne hj, effect_clock he, ?_⟩
    intro hzero
    exact hown (fun hi => hj (hzero.trans hi.symm))
  opens := by
    intro i proc f p h _ hp
    refine ⟨h.put i ?_, fun j hj _ => interrupted_put hj _⟩
    intro s hs
    rw [← Option.some.inj hs]
    exact ⟨hp.1, fun _ => rfl⟩
  closes := by
    intro i f p h _
    exact ⟨h.put i (fun s hs => by cases hs), fun j hj _ => interrupted_put hj _⟩

/-! ## Assertions about the batch -/

/-- Thread 0 has a batch under way, read its clock at `t`, and what the memory and
    the recorded fires are to each other is `X`. -/
def Batch (t : Instant) (X : Memory → List Fire → Prop) (f : Shared) : Prop :=
  ∃ s, f.sessions 0 = some s ∧ (∀ e ∈ s.log, batchWrite e.2 = true) ∧ t ≤ f.ext.clock
    ∧ X (f.mem 0) (recorded f)

/-- A swap to objects that know the fires keeps the assertion. -/
def SwapStable (X : Memory → List Fire → Prop) : Prop :=
  ∀ m m' xs, X m xs → m.generation < m'.generation → Covered m' xs → X m' xs

theorem stable_batch {t : Instant} {X : Memory → List Fire → Prop} (hX : SwapStable X) :
    (cooling rt settings K).Stable 0 (Batch t X) := by
  rintro f f' ⟨s, hs, hlog, ht, h⟩ (hR : Interrupted 0 f f') _
  obtain ⟨hdb, hmem⟩ := hR.batch rfl
  refine ⟨s, hR.session.trans hs, hlog, Int.le_trans ht hR.clock, ?_⟩
  rw [recorded_congr hdb hR.session]
  rcases hmem with hsame | hswap
  · rw [hsame]
    exact h
  · exact hX _ _ _ h hswap.newer hswap.covered

theorem recorded_log {s : Session Generated Write} (hs : f.sessions 0 = some s)
    (e : Generated × Write) : recorded (f.log 0 s e) = recorded f ++ (delivered e).toList := by
  rw [recorded, recorded, hs, Frame.log, Frame.put_self]
  show fires f.db ++ (s.log ++ [e]).filterMap delivered
    = fires f.db ++ s.log.filterMap delivered ++ (delivered e).toList
  rw [List.filterMap_append, List.append_assoc]
  cases hd : delivered e with
  | none => simp [hd]
  | some x => simp [hd]

theorem fires_subset_recorded (f : Shared) : fires f.db ⊆ recorded f :=
  List.subset_append_left _ _

section Rules

variable {α : Type} {k : β → Tx α} {Q : α → Shared → Prop} {t : Instant}
  {X : Memory → List Fire → Prop}

/-- A step of the batch guarantees nothing. -/
theorem own_batch (f f' : Shared) : (cooling rt settings K).Own 0 f f' :=
  fun h => absurd rfl h

/-- A command that leaves the tables, the sessions and the memory alone. -/
theorem triple_inert (hX : SwapStable X)
    (hinert : ∀ {f b f'}, Effect (poller rt settings Harmless) 0 f β cmd b f' →
      f'.db = f.db ∧ f'.sessions = f.sessions ∧ f'.mem 0 = f.mem 0)
    (hk : ∀ b, (cooling rt settings K).Triple 0 (Batch t X) (k b) Q) :
    (cooling rt settings K).Triple 0 (Batch t X) (.step cmd k) Q := by
  refine Discipline.Triple.step (stable_batch hX) ?_ hk
  rintro f b f' (hJ : Cool K f) ⟨s, hs, hlog, ht, h⟩ he _
  obtain ⟨hdb, hsessions, hmem⟩ := hinert he
  have hclock := effect_clock he
  have hJ' : Cool K f' := by
    refine hJ.of_same hdb hmem hclock ?_
    rw [hsessions]
    exact hJ.sessions
  refine ⟨hJ', own_batch f f', s, ?_, hlog, Int.le_trans ht hclock, ?_⟩
  · rw [hsessions]
    exact hs
  · rw [recorded_congr hdb (by rw [hsessions]), hmem]
    exact h

theorem triple_query {q : Database → β} (hX : SwapStable X)
    (hk : ∀ b, (cooling rt settings K).Triple 0 (Batch t X) (k b) Q) :
    (cooling rt settings K).Triple 0 (Batch t X) (.step (.query q) k) Q := by
  refine triple_inert hX ?_ hk
  rintro f b f' ⟨s, -, -, rfl⟩
  exact ⟨rfl, rfl, rfl⟩

theorem triple_ask {e : ExtOp β} (hX : SwapStable X)
    (hk : ∀ b, (cooling rt settings K).Triple 0 (Batch t X) (k b) Q) :
    (cooling rt settings K).Triple 0 (Batch t X) (.step (.ask e) k) Q := by
  refine triple_inert hX ?_ hk
  rintro f b f' ⟨s, -, x, -, rfl⟩
  exact ⟨rfl, rfl, rfl⟩

/-- The memory after an operation of a thread of the process. -/
theorem setMem_zero (f : Shared) (m : Memory) : (f.setMem 0 m).mem 0 = m := by
  show Function.update f.mem 0 m 0 = m
  exact Function.update_self ..

/-- Reading the memory. -/
theorem triple_read {op : MemOp β} {Y : β → Memory → List Fire → Prop} (hX : SwapStable X)
    (hread : ∀ m, (touch op m).2 = m)
    (hY : ∀ m xs, (∀ pairId, ∀ rule ∈ (m.rulesForPair pairId).all,
      (rule.id, rule.cooldownSeconds) ∈ K) → X m xs → Y (touch op m).1 m xs)
    (hk : ∀ b, (cooling rt settings K).Triple 0 (Batch t (Y b)) (k b) Q) :
    (cooling rt settings K).Triple 0 (Batch t X) (.step (.mem op) k) Q := by
  refine Discipline.Triple.step (stable_batch hX) ?_ hk
  rintro f b f' (hJ : Cool K f) ⟨s, hs, hlog, ht, h⟩ ⟨s', hs', hb, hf⟩ _
  have hproc : s'.proc = 0 := hJ.proc 0 s' hs'
  have hmem : f'.mem 0 = f.mem 0 := by
    rw [hf, hproc, setMem_zero]
    exact hread _
  have hdb : f'.db = f.db := by
    rw [hf]
    rfl
  have hsessions : f'.sessions = f.sessions := by
    rw [hf]
    rfl
  have hext : f'.ext = f.ext := by
    rw [hf]
    rfl
  refine ⟨hJ.of_same hdb hmem (by rw [hext]) (by rw [hsessions]; exact hJ.sessions),
    own_batch f f', s, by rw [hsessions]; exact hs, hlog, by rw [hext]; exact ht, ?_⟩
  rw [recorded_congr hdb (by rw [hsessions]), hmem, hb, hproc]
  exact hY _ _ hJ.known h

/-- `last_fired_at` is set on an installed object. -/
theorem triple_setLastFiredAt {X' : Memory → List Fire → Prop} {generation : Nat}
    {ruleId : Uuid} {k : Unit → Tx α} (hX : SwapStable X)
    (hpast : ∀ m xs, X m xs → ∀ x ∈ xs, x.2 ≤ t)
    (hX' : ∀ m xs, m.generation = generation → X m xs →
      X' (m.setLastFiredAt generation ruleId t) xs)
    (hk : (cooling rt settings K).Triple 0 (Batch t X') (k ()) Q) :
    (cooling rt settings K).Triple 0 (Batch t X)
      (.step (.mem (.setLastFiredAt generation ruleId t)) k) Q := by
  refine Discipline.Triple.step (R := fun _ => Batch t X') (stable_batch hX) ?_ (fun _ => hk)
  rintro f b f' (hJ : Cool K f) ⟨s, hs, hlog, ht, h⟩ ⟨s', hs', -, hf⟩
    (hpolicy : generation = (f.mem 0).generation)
  have hproc : s'.proc = 0 := hJ.proc 0 s' hs'
  have hmem : f'.mem 0 = (f.mem 0).setLastFiredAt generation ruleId t := by
    rw [hf, hproc, setMem_zero]
    rfl
  have hdb : f'.db = f.db := by
    rw [hf]
    rfl
  have hsessions : f'.sessions = f.sessions := by
    rw [hf]
    rfl
  have hext : f'.ext = f.ext := by
    rw [hf]
    rfl
  -- The time set is that of this batch, and no committed fire is later.
  have hcovered : Covered (f'.mem 0) (fires f'.db) := by
    have hset : Covered ((f.mem 0).setLastFiredAt (f.mem 0).generation ruleId t)
        (fires f.db ++ []) := by
      refine hJ.covered.setLastFiredAt ?_ (fun x hx => absurd hx List.not_mem_nil)
      rw [List.append_nil]
      exact fun x hx => hpast _ _ h x (fires_subset_recorded f hx)
    rw [List.append_nil] at hset
    rw [hmem, hdb, hpolicy]
    exact hset
  have hJ' : Cool K f' := by
    refine ⟨?_, ?_, ?_, hcovered, ?_, ?_, ?_⟩
    · rw [hdb]
      exact hJ.cooldowns
    · rw [hdb]
      exact hJ.spaced
    · rw [hdb, hext]
      exact hJ.past
    · rw [hmem]
      exact hJ.known
    · rw [hsessions]
      exact hJ.proc
    · rw [hsessions]
      exact hJ.reader
  refine ⟨hJ', own_batch f f', s, by rw [hsessions]; exact hs, hlog, by rw [hext]; exact ht, ?_⟩
  rw [recorded_congr hdb (by rw [hsessions]), hmem]
  exact hX' _ _ hpolicy.symm h

/-- One more write of the batch. -/
theorem Batch.log {e : Generated × Write} {s : Session Generated Write}
    {X' : Memory → List Fire → Prop} (hJ : Cool K f) (h : Batch t X f)
    (hs : f.sessions 0 = some s) (hw : batchWrite e.2 = true)
    (hX' : ∀ m xs, X m xs → X' m (xs ++ (delivered e).toList)) :
    Cool K (f.log 0 s e) ∧ Batch t X' (f.log 0 s e) := by
  obtain ⟨s', hs', hlog, ht, h⟩ := h
  rw [Option.some.inj (hs'.symm.trans hs)] at hlog
  refine ⟨hJ.put 0 ?_, _, f.put_self 0 _, ?_, ht, ?_⟩
  · intro u hu
    rw [← Option.some.inj hu]
    exact ⟨hJ.proc 0 s hs, fun h => absurd rfl h⟩
  · intro e' he'
    rcases List.mem_append.mp he' with hold | hnew
    · exact hlog e' hold
    · rw [List.mem_singleton.mp hnew]
      exact hw
  · rw [recorded_log hs]
    exact hX' _ _ h

theorem triple_write {X' : Memory → List Fire → Prop} {w : Write} {k : Unit → Tx α}
    (hX : SwapStable X) (hw : batchWrite w = true)
    (hX' : ∀ g m xs, X m xs → X' m (xs ++ (delivered (g, w)).toList))
    (hk : (cooling rt settings K).Triple 0 (Batch t X') (k ()) Q) :
    (cooling rt settings K).Triple 0 (Batch t X) (.step (.write w) k) Q := by
  refine Discipline.Triple.step (R := fun _ => Batch t X') (stable_batch hX) ?_ (fun _ => hk)
  rintro f b f' (hJ : Cool K f) h ⟨s, hs, g, -, rfl⟩ _
  obtain ⟨hJ', h'⟩ := Batch.log hJ h hs hw (hX' g)
  exact ⟨hJ', own_batch _ _, h'⟩

theorem triple_insert {n : NewNotification} {k : Option Generated → Tx α} (hX : SwapStable X)
    (hk : ∀ b, (cooling rt settings K).Triple 0 (Batch t X) (k b) Q) :
    (cooling rt settings K).Triple 0 (Batch t X) (.step (.insert (.addNotification n)) k)
      Q := by
  refine Discipline.Triple.step (stable_batch hX) ?_ hk
  rintro f b f' (hJ : Cool K f) h ⟨s, hs, hcmd⟩ _
  cases b with
  | none =>
      obtain ⟨-, rfl⟩ := hcmd
      exact ⟨hJ, own_batch _ _, h⟩
  | some g =>
      obtain ⟨-, -, rfl⟩ := hcmd
      have hsame : ∀ m xs, X m xs →
          X m (xs ++ (delivered (g, .addNotification n)).toList) := by
        intro m xs hm
        rw [show (delivered (g, Write.addNotification n)).toList = [] from rfl, List.append_nil]
        exact hm
      obtain ⟨hJ', h'⟩ := Batch.log hJ h hs rfl hsame
      exact ⟨hJ', own_batch _ _, h'⟩

/-- What a batch commits are its recorded fires; its log is empty again. -/
theorem triple_commit {k : Unit → Tx α} (hX : SwapStable X)
    (hspaced : ∀ m xs, X m xs → Spaced K xs) (hpast : ∀ m xs, X m xs → ∀ x ∈ xs, x.2 ≤ t)
    (hcovered : ∀ m xs, X m xs → Covered m xs)
    (hk : (cooling rt settings K).Triple 0 (Batch t X) (k ()) Q) :
    (cooling rt settings K).Triple 0 (Batch t X) (.step .commit k) Q := by
  refine Discipline.Triple.step (R := fun _ => Batch t X) (stable_batch hX) ?_ (fun _ => hk)
  rintro f b f' (hJ : Cool K f) ⟨s, hs, hlog, ht, h⟩ ⟨s', hs', hf⟩ _
  have hsame : s' = s := Option.some.inj (hs'.symm.trans hs)
  rw [hsame] at hf
  have hdb : f'.db = backend.replay f.db s.log := by
    rw [hf]
    rfl
  have hmem : f'.mem 0 = f.mem 0 := by
    rw [hf]
    rfl
  have hext : f'.ext = f.ext := by
    rw [hf]
    rfl
  have hzero : f'.sessions 0 = some { s with log := [] } := by
    rw [hf]
    exact f.put_self 0 _
  have hothers : ∀ j, j ≠ 0 → f'.sessions j = f.sessions j := by
    intro j hj
    rw [hf]
    exact f.put_of_ne hj _
  -- The committed fires are now what was recorded.
  have hrecorded : recorded f = fires f'.db := by
    rw [recorded, hs, hdb]
    exact (fires_replay hlog f.db).symm
  have hrecorded' : recorded f' = fires f'.db := by
    rw [recorded, hzero]
    exact List.append_nil _
  rw [hrecorded] at h
  have hJ' : Cool K f' := by
    refine ⟨?_, hspaced _ _ h, ?_, ?_, ?_, ?_, ?_⟩
    · rw [hdb, cooldowns_replay hlog]
      exact hJ.cooldowns
    · intro x hx
      rw [hext]
      exact Int.le_trans (hpast _ _ h x hx) ht
    · rw [hmem]
      exact hcovered _ _ h
    · rw [hmem]
      exact hJ.known
    · intro j u hu
      by_cases hj : j = 0
      · rw [hj, hzero] at hu
        rw [← Option.some.inj hu]
        exact hJ.proc 0 s hs
      · rw [hothers j hj] at hu
        exact hJ.proc j u hu
    · intro j u hu hj
      rw [hothers j hj] at hu
      exact hJ.reader j u hu hj
  refine ⟨hJ', own_batch f f', _, hzero, fun e he => absurd he List.not_mem_nil, ?_, ?_⟩
  · rw [hext]
    exact ht
  · rw [hrecorded', hmem]
    exact h

end Rules

/-! ## The batch -/

/-- The recorded fires keep their distance, lie in the past, and are known to the
    installed objects. -/
structure Ready (K : List (Uuid × Int)) (t : Instant) (m : Memory) (xs : List Fire) : Prop where
  spaced : Spaced K xs
  past : ∀ x ∈ xs, x.2 ≤ t
  covered : Covered m xs

theorem swapStable_ready (t : Instant) : SwapStable (Ready K t) :=
  fun _ _ _ h _ hcovered => ⟨h.spaced, h.past, hcovered⟩

/-- An evaluation holds the objects `rules` of load `generation`, which is the
    installed one or an older one. -/
structure Held (K : List (Uuid × Int)) (t : Instant) (generation : Nat) (rules : List AlertRule)
    (m : Memory) (xs : List Fire) : Prop extends Ready K t m xs where
  known : ∀ rule ∈ rules, (rule.id, rule.cooldownSeconds) ∈ K
  notNewer : generation ≤ m.generation
  installed : m.generation = generation →
    ∀ rule ∈ rules, ∃ pairId, rule ∈ (m.rulesForPair pairId).all

theorem swapStable_held (t : Instant) (generation : Nat) (rules : List AlertRule) :
    SwapStable (Held K t generation rules) := by
  intro m m' xs h hnewer hcovered
  refine ⟨⟨h.spaced, h.past, hcovered⟩, h.known, ?_, ?_⟩
  · exact Nat.le_of_lt (Nat.lt_of_le_of_lt h.notNewer hnewer)
  · intro heq
    exact absurd (heq ▸ hnewer) (Nat.not_lt.mpr h.notNewer)

/-- `last_fired_at` of one of them was read, and no step of the own thread has come
    in between. -/
structure Tested (K : List (Uuid × Int)) (t : Instant) (generation : Nat) (rules : List AlertRule)
    (rule : AlertRule) (lastFiredAt : Option Instant) (m : Memory) (xs : List Fire) : Prop
    extends Held K t generation rules m xs where
  read : m.generation = generation → lastFiredAt = m.lastFiredAt generation rule.id

theorem swapStable_tested (t : Instant) (generation : Nat) (rules : List AlertRule)
    (rule : AlertRule) (lastFiredAt : Option Instant) :
    SwapStable (Tested K t generation rules rule lastFiredAt) := by
  intro m m' xs h hnewer hcovered
  refine ⟨swapStable_held t generation rules m m' xs h.toHeld hnewer hcovered, ?_⟩
  intro heq
  exact absurd (heq ▸ hnewer) (Nat.not_lt.mpr h.notNewer)

/-- The event of a fire is written and its object not yet advanced: the fire is the
    last one, and a cooldown away from the others if the object is installed. -/
def Owes (K : List (Uuid × Int)) (t : Instant) (generation : Nat) (rules : List AlertRule)
    (rule : AlertRule) (m : Memory) (xs : List Fire) : Prop :=
  ∃ old, xs = old ++ [(rule.id, t)] ∧ Held K t generation rules m old ∧
    (m.generation = generation →
      ∀ x ∈ old, x.1 = rule.id → x.2 + seconds rule.cooldownSeconds ≤ t)

theorem swapStable_owes (t : Instant) (generation : Nat) (rules : List AlertRule)
    (rule : AlertRule) : SwapStable (Owes K t generation rules rule) := by
  rintro m m' xs ⟨old, rfl, h, -⟩ hnewer hcovered
  refine ⟨old, rfl, swapStable_held t generation rules m m' old h hnewer
    (hcovered.subset (List.subset_append_left _ _)), ?_⟩
  intro heq
  exact absurd (heq ▸ hnewer) (Nat.not_lt.mpr h.notNewer)

/-- Past the cooldown of the object that was tested. -/
theorem Tested.apart {t : Instant} {generation : Nat} {rules : List AlertRule} {rule : AlertRule}
    {l : Option Instant} {m : Memory} {xs : List Fire}
    (h : Tested K t generation rules rule l m xs) (hrule : rule ∈ rules)
    (hcool : inCooldown { rule with lastFiredAt := l } t = false)
    (hgen : m.generation = generation) :
    ∀ x ∈ xs, x.1 = rule.id → x.2 + seconds rule.cooldownSeconds ≤ t := by
  intro x hx hid
  obtain ⟨pairId, hin⟩ := h.installed hgen rule hrule
  obtain ⟨t', hlast, hle⟩ := h.covered pairId rule hin x hx hid
  have hl : l = some t' := by
    rw [h.read hgen, ← hgen]
    exact hlast
  have hxt := h.past x hx
  rw [hl] at hcool
  have hcool' : (if rule.cooldownSeconds ≤ 0 then false
      else decide (t - t' < seconds rule.cooldownSeconds)) = false := hcool
  by_cases hzero : rule.cooldownSeconds ≤ 0
  · have hneg : seconds rule.cooldownSeconds ≤ 0 := by
      rw [seconds]
      omega
    have hsum : x.2 + seconds rule.cooldownSeconds ≤ x.2 := by
      have hadd := Int.add_le_add_left hneg x.2
      rw [Int.add_zero] at hadd
      exact hadd
    exact Int.le_trans hsum hxt
  · rw [if_neg hzero] at hcool'
    have hge : seconds rule.cooldownSeconds ≤ t - t' := Int.not_lt.mp (of_decide_eq_false hcool')
    have hsum : t' + seconds rule.cooldownSeconds ≤ t := Int.add_le_of_le_sub_left hge
    exact Int.le_trans (Int.add_le_add_right hle _) hsum

/-- Advancing the object of the last fire pays what is owed. -/
theorem Owes.paid {t : Instant} {generation : Nat} {rules : List AlertRule} {rule : AlertRule}
    {m : Memory} {xs : List Fire} (h : Owes K t generation rules rule m xs)
    (hK : ∀ i c c', (i, c) ∈ K → (i, c') ∈ K → c = c') (hrule : rule ∈ rules)
    (hgen : m.generation = generation) :
    Held K t generation rules (m.setLastFiredAt generation rule.id t) xs := by
  obtain ⟨old, rfl, hheld, hapart⟩ := h
  have hpast : ∀ x ∈ old ++ [(rule.id, t)], x.2 ≤ t := by
    intro x hx
    rcases List.mem_append.mp hx with hold | hlast
    · exact hheld.past x hold
    · rw [List.mem_singleton.mp hlast]
  refine ⟨⟨?_, hpast, ?_⟩, hheld.known, hheld.notNewer, hheld.installed⟩
  · refine List.pairwise_append.mpr ⟨hheld.spaced, List.pairwise_singleton _ _, ?_⟩
    intro x hx y hy hid c hc
    rw [List.mem_singleton.mp hy] at hid ⊢
    have hid' : x.1 = rule.id := hid
    rw [hid'] at hc
    rw [hK rule.id c rule.cooldownSeconds hc (hheld.known rule hrule)]
    exact hapart hgen x hx hid'
  · rw [← hgen]
    refine hheld.covered.setLastFiredAt hpast ?_
    intro x hx
    rw [List.mem_singleton.mp hx]

section Evaluation

variable {pair : Pair} {obs : Observation} {generation : Nat} {rules : List AlertRule}

theorem triple_addOutboxEvent {c : Candidates rt} {rule : AlertRule} {l : Option Instant}
    {id : Uuid} (hrule : rule ∈ rules)
    (hcool : inCooldown { rule with lastFiredAt := l } obs.observedAt = false) :
    (cooling rt settings K).Triple 0
      (Batch obs.observedAt (Tested K obs.observedAt generation rules rule l))
      (addOutboxEvent rt pair obs c rule id)
      (fun _ => Batch obs.observedAt (Owes K obs.observedAt generation rules rule)) := by
  rw [addOutboxEvent]
  refine Discipline.Triple.bind (Discipline.Triple.lift (fun _ _ _ _ h => h)) ?_
  intro message
  refine triple_write (swapStable_tested _ _ _ _ _) rfl ?_
    (Discipline.Triple.done (fun _ _ h => h))
  intro g m xs h
  exact ⟨xs, rfl, h.toHeld, h.apart hrule hcool⟩

theorem triple_finishFire {c : Candidates rt} {rule : AlertRule} {l : Option Instant}
    {n : NewNotification} {g : Generated} (hrule : rule ∈ rules)
    (hK : ∀ i c c', (i, c) ∈ K → (i, c') ∈ K → c = c') :
    (cooling rt settings K).Triple 0
      (Batch obs.observedAt (Tested K obs.observedAt generation rules rule l))
      (finishFire rt pair obs generation c rule
        (inCooldown { rule with lastFiredAt := l } obs.observedAt) n g)
      (fun _ => Batch obs.observedAt (Held K obs.observedAt generation rules)) := by
  -- The stored time follows the one in memory and changes no fire.
  have hstored : (cooling rt settings K).Triple 0
      (Batch obs.observedAt (Held K obs.observedAt generation rules))
      (.step (.write (.setRuleLastFiredAt rule.id obs.observedAt)) fun _ =>
        .done (some (flushed g n)))
      (fun _ => Batch obs.observedAt (Held K obs.observedAt generation rules)) := by
    refine triple_write (swapStable_held _ _ _) rfl ?_
      (Discipline.Triple.done (fun _ _ h => h))
    intro g m xs h
    show Held K _ generation rules m (xs ++ [])
    rw [List.append_nil]
    exact h
  rw [finishFire]
  cases hcool : inCooldown { rule with lastFiredAt := l } obs.observedAt with
  | true =>
      refine triple_setLastFiredAt (swapStable_tested _ _ _ _ _) (fun m xs h => h.past) ?_
        hstored
      intro m xs hgen h
      refine ⟨⟨h.spaced, h.past, ?_⟩, h.known, h.notNewer, h.installed⟩
      have hset : Covered (m.setLastFiredAt m.generation rule.id obs.observedAt) (xs ++ []) :=
        h.covered.setLastFiredAt (by rw [List.append_nil]; exact h.past)
          (fun x hx => absurd hx List.not_mem_nil)
      rw [List.append_nil, hgen] at hset
      exact hset
  | false =>
      refine Discipline.Triple.bind (triple_addOutboxEvent hrule hcool) ?_
      intro _
      refine triple_setLastFiredAt (swapStable_owes _ _ _ _) ?_
        (fun m xs hgen h => h.paid hK hrule hgen) hstored
      rintro m xs ⟨old, rfl, h, -⟩ x hx
      rcases List.mem_append.mp hx with hold | hlast
      · exact h.past x hold
      · rw [List.mem_singleton.mp hlast]

theorem triple_fireRule {c : Candidates rt} {rule : AlertRule} (hrule : rule ∈ rules)
    (hK : ∀ i c c', (i, c) ∈ K → (i, c') ∈ K → c = c') :
    (cooling rt settings K).Triple 0
      (Batch obs.observedAt (Held K obs.observedAt generation rules))
      (fireRule rt pair obs generation c rule)
      (fun _ => Batch obs.observedAt (Held K obs.observedAt generation rules)) := by
  rw [fireRule, Script.call_bind]
  refine triple_query (swapStable_held _ _ _) ?_
  intro existing
  cases existing with
  | some id => exact Discipline.Triple.done (fun _ _ h => h)
  | none =>
      refine triple_read (Y := fun l => Tested K obs.observedAt generation rules rule l)
        (swapStable_held _ _ _) (fun _ => rfl) ?_ ?_
      · intro m xs _ h
        exact ⟨h, fun _ => rfl⟩
      · intro l
        refine triple_insert (swapStable_tested _ _ _ _ _) ?_
        intro inserted
        cases inserted with
        | none =>
            refine Discipline.Triple.done ?_
            rintro f _ ⟨s, hs, hlog, ht, h⟩
            exact ⟨s, hs, hlog, ht, h.toHeld⟩
        | some g => exact triple_finishFire hrule hK

theorem triple_fireRules {c : Candidates rt} {candidates : List AlertRule}
    (hsub : ∀ rule ∈ candidates, rule ∈ rules)
    (hK : ∀ i c c', (i, c) ∈ K → (i, c') ∈ K → c = c') :
    (cooling rt settings K).Triple 0
      (Batch obs.observedAt (Held K obs.observedAt generation rules))
      (fireRules rt pair obs generation c candidates)
      (fun _ => Batch obs.observedAt (Held K obs.observedAt generation rules)) :=
  triple_rules (fun rule hrule => triple_fireRule (hsub rule hrule) hK)

theorem triple_evaluateRulesForPair (pair : Pair) (obs : Observation)
    (hK : ∀ i c c', (i, c) ∈ K → (i, c') ∈ K → c = c') :
    (cooling rt settings K).Triple 0 (Batch obs.observedAt (Ready K obs.observedAt))
      (evaluateRulesForPair rt settings pair obs)
      (fun _ => Batch obs.observedAt (Ready K obs.observedAt)) := by
  rw [evaluateRulesForPair, Script.call_bind]
  refine triple_read (Y := fun held => Held K obs.observedAt held.1 held.2.all)
    (swapStable_ready _) (fun _ => rfl) ?_ ?_
  · intro m xs hknown h
    exact ⟨h, hknown pair.id, Nat.le_refl _, fun _ rule hrule => ⟨pair.id, hrule⟩⟩
  · rintro ⟨generation, pairRules⟩
    refine Discipline.Triple.bind (Discipline.Triple.of_reads
      (selectCandidates_subset rt settings pair obs pairRules)
      (stable_batch (swapStable_held _ _ _))) ?_
    intro c f hJ h
    refine (triple_fireRules h.1 hK f hJ h.2).mono ?_
    rintro _ f' ⟨s, hs, hlog, ht, h'⟩
    exact ⟨s, hs, hlog, ht, h'.toReady⟩

end Evaluation

theorem triple_deleteBatch {t : Instant} {messages : List Message} :
    (cooling rt settings K).Triple 0 (Batch t (Ready K t)) (deleteBatch messages)
      (fun _ _ => True) := by
  rw [deleteBatch]
  split
  · exact Discipline.Triple.done (fun _ _ _ => trivial)
  · exact triple_ask (swapStable_ready t) (fun _ => Discipline.Triple.done (fun _ _ _ => trivial))

/-- The reading of the clock is the time of the batch. -/
theorem triple_utcNow {α : Type} {k : Instant → Tx α} {Q : α → Shared → Prop} {t : Instant}
    (hk : ∀ b, (cooling rt settings K).Triple 0 (Batch b (Ready K b)) (k b) Q) :
    (cooling rt settings K).Triple 0 (Batch t (Ready K t)) (.step (.ask .utcNow) k) Q := by
  refine Discipline.Triple.step (R := fun b => Batch b (Ready K b))
    (stable_batch (swapStable_ready t)) ?_ hk
  rintro f b f' (hJ : Cool K f) ⟨s, hs, hlog, ht, h⟩ ⟨s', hs', x, ⟨hx, hclock⟩, hf⟩ _
  have hext : f'.ext.clock = b := by
    rw [hf]
    exact congrArg World.clock hx
  have hlater : f.ext.clock ≤ f'.ext.clock := by
    rw [hf]
    exact hclock
  have hdb : f'.db = f.db := by
    rw [hf]
    rfl
  have hsessions : f'.sessions = f.sessions := by
    rw [hf]
    rfl
  have hmem : f'.mem = f.mem := by
    rw [hf]
    rfl
  have hJ' : Cool K f' := by
    refine hJ.of_same hdb (by rw [hmem]) hlater ?_
    rw [hsessions]
    exact hJ.sessions
  have htb : t ≤ b := by
    rw [← hext]
    exact Int.le_trans ht hlater
  refine ⟨hJ', own_batch f f', s, ?_, hlog, Int.le_of_eq hext.symm, ?_⟩
  · rw [hsessions]
    exact hs
  · rw [recorded_congr hdb (by rw [hsessions]), hmem]
    exact ⟨h.spaced, fun x hx => Int.le_trans (h.past x hx) htb, h.covered⟩

section Loop

variable (hK : ∀ i c c', (i, c) ∈ K → (i, c') ∈ K → c = c')

include hK

theorem triple_observePair {pair : Pair} {quote : Quote} {t : Instant} :
    (cooling rt settings K).Triple 0 (Batch t (Ready K t))
      (observePair rt settings pair quote t) (fun _ => Batch t (Ready K t)) := by
  have hsame : ∀ m xs, Ready K t m xs → Ready K t m (xs ++ []) := by
    intro m xs h
    rw [List.append_nil]
    exact h
  refine triple_write (swapStable_ready t) rfl (fun _ => hsame) ?_
  refine triple_write (swapStable_ready t) rfl (fun _ => hsame) ?_
  have hevaluate : (cooling rt settings K).Triple 0 (Batch t (Ready K t))
      (evaluateRulesForPair rt settings pair (quoteObservation quote t))
      (fun _ => Batch t (Ready K t)) := triple_evaluateRulesForPair pair (quoteObservation quote t) hK
  exact hevaluate.bind (fun _ => Discipline.Triple.done (fun _ _ h => h))

theorem triple_observeAll {pairs : Dict String Pair} {quotes : Dict String Quote} {t : Instant}
    {entries : List (String × Message)} :
    (cooling rt settings K).Triple 0 (Batch t (Ready K t))
      (observeAll rt settings pairs quotes t entries) (fun _ => Batch t (Ready K t)) :=
  triple_entries (fun _ _ => triple_observePair hK) entries

theorem triple_processLive {t : Instant} {gone : List Message} {live : List (Pair × Message)} :
    (cooling rt settings K).Triple 0 (Batch t (Ready K t)) (processLive rt settings gone live)
      (fun _ _ => True) := by
  rw [processLive, Script.call_bind]
  refine triple_ask (swapStable_ready t) ?_
  intro quotes
  cases quotes with
  | none => exact triple_deleteBatch
  | some quotes =>
      refine triple_utcNow ?_
      intro observedAt
      show (cooling rt settings K).Triple 0 _ (observeAll rt settings (pairByCanonical live)
        quotes observedAt (messageByCanonical live) >>= fun toDelete =>
          .step .commit fun _ => deleteBatch (gone ++ toDelete)) _
      refine Discipline.Triple.bind (triple_observeAll hK) ?_
      intro toDelete
      exact triple_commit (swapStable_ready observedAt) (fun _ _ h => h.spaced)
        (fun _ _ h => h.past) (fun _ _ h => h.covered) triple_deleteBatch

theorem triple_processBatch {t : Instant} (messages : List Message) :
    (cooling rt settings K).Triple 0 (Batch t (Ready K t)) (processBatch rt settings messages)
      (fun _ _ => True) := by
  refine Discipline.Triple.bind (Discipline.Triple.lift (fun _ _ _ _ h => h)) ?_
  intro byPairId
  by_cases hempty : byPairId.isEmpty = true
  · rw [if_pos hempty]
    exact Discipline.Triple.done (fun _ _ _ => trivial)
  · rw [if_neg hempty]
    refine triple_query (swapStable_ready t) ?_
    intro rows
    show (cooling rt settings K).Triple 0 _ (if _ then _ else _) _
    split
    · exact triple_deleteBatch
    · exact triple_processLive hK

end Loop

/-! ## The rebuilds -/

section Rebuilds

variable {α : Type}

/-- The rows a rebuild selects have the cooldowns of the rules. -/
def Selected (K : List (Uuid × Int)) (rules : List AlertRule) (_ : Shared) : Prop :=
  ∀ rule ∈ rules, (rule.id, rule.cooldownSeconds) ∈ K

/-- Before its swap a rebuild has no effect on anything. -/
theorem triple_select (hi : i ≠ 0) {k : List AlertRule → Tx α} {Q : α → Shared → Prop}
    (hk : ∀ rules, (cooling rt settings K).Triple i (Selected K rules) (k rules) Q) :
    (cooling rt settings K).Triple i (fun _ => True)
      (.step (.query fun db => db.alertRules.filter (fun r => r.isEnabled)) k) Q := by
  refine Discipline.Triple.step (fun _ _ _ _ _ => trivial) ?_ hk
  rintro f rules f' (hJ : Cool K f) _ ⟨s, hs, hrules, rfl⟩ _
  refine ⟨hJ, fun _ => ⟨rfl, Or.inl rfl⟩, ?_⟩
  intro rule hrule
  rw [hrules, hJ.reader i s hs hi] at hrule
  have hmem : rule ∈ f'.db.alertRules := (List.mem_filter.mp hrule).1
  rw [← hJ.cooldowns]
  exact List.mem_map.mpr ⟨rule, hmem, rfl⟩

/-- The installed objects have the `last_fired_at` of the rows. -/
theorem covered_install {m : Memory} {rules : List AlertRule} {buckets : Dict Uuid PairRules}
    (hb : bucketRules rules = .ok buckets) {xs : List Fire}
    (hknow : ∀ rule ∈ rules, ∀ x ∈ xs, x.1 = rule.id → ∃ t, rule.lastFiredAt = some t ∧ x.2 ≤ t) :
    Covered (m.install rules buckets) xs := by
  intro pairId rule hrule x hx hid
  have hmem := m.mem_install hb hrule
  obtain ⟨row, hrow⟩ : ∃ row, rules.find? (fun r => r.id == rule.id) = some row :=
    Option.isSome_iff_exists.mp (List.find?_isSome.mpr ⟨rule, hmem, by simp⟩)
  have hrowid : row.id = rule.id := by
    have hcond := List.find?_some hrow
    simpa using hcond
  obtain ⟨t, hlast, hle⟩ := hknow row (List.mem_of_find?_eq_some hrow) x hx
    (hid.trans hrowid.symm)
  refine ⟨t, ?_, hle⟩
  show (if m.generation + 1 = m.generation + 1
    then ((rules.find? (fun r => r.id == rule.id)).map AlertRule.lastFiredAt).join
    else _) = some t
  rw [if_pos rfl, hrow]
  exact hlast

theorem triple_install {rules : List AlertRule} {buckets : Dict Uuid PairRules}
    (hb : bucketRules rules = .ok buckets) {k : Unit → Tx α} {Q : α → Shared → Prop}
    (hk : (cooling rt settings K).Triple i (fun _ => True) (k ()) Q) :
    (cooling rt settings K).Triple i (Selected K rules)
      (.step (.mem (.install rules buckets)) k) Q := by
  refine Discipline.Triple.step (R := fun _ _ => True) (fun _ _ h _ _ => h) ?_ (fun _ => hk)
  rintro f b f' (hJ : Cool K f) (hsel : ∀ rule ∈ rules, _) ⟨s, hs, -, hf⟩ hpolicy
  have hproc : s.proc = 0 := hJ.proc i s hs
  have hmem : f'.mem 0 = (f.mem 0).install rules buckets := by
    rw [hf, hproc, setMem_zero]
    rfl
  have hdb : f'.db = f.db := by
    rw [hf]
    rfl
  have hsessions : f'.sessions = f.sessions := by
    rw [hf]
    rfl
  have hext : f'.ext = f.ext := by
    rw [hf]
    rfl
  -- The swap is what the observer let pass: the stamps it drops are covered by the rows.
  have hswap : Swapped f f' := by
    refine ⟨?_, ?_⟩
    · rw [hmem]
      exact Nat.lt_succ_self _
    · rw [hmem]
      exact covered_install hb hpolicy
  have hJ' : Cool K f' := by
    refine ⟨?_, ?_, ?_, ?_, ?_, ?_, ?_⟩
    · rw [hdb]
      exact hJ.cooldowns
    · rw [hdb]
      exact hJ.spaced
    · rw [hdb, hext]
      exact hJ.past
    · rw [hdb]
      exact hswap.covered.subset (fires_subset_recorded f)
    · rw [hmem]
      exact fun pairId rule hrule => hsel rule ((f.mem 0).mem_install hb hrule)
    · rw [hsessions]
      exact hJ.proc
    · rw [hsessions]
      exact hJ.reader
  exact ⟨hJ', fun _ => ⟨hdb, Or.inr hswap⟩, trivial⟩

theorem triple_rebuild (hi : i ≠ 0) :
    (cooling rt settings K).Triple i (fun _ => True) rebuild (fun _ _ => True) := by
  rw [rebuild, Script.call_bind]
  refine triple_select hi ?_
  intro rules
  refine Discipline.Triple.bind (Q := fun buckets f =>
    bucketRules rules = .ok buckets ∧ Selected K rules f) ?_ ?_
  · exact Discipline.Triple.lift (fun buckets hb f _ h => ⟨hb, h⟩)
  · intro buckets f hJ h
    exact triple_install h.1 (Discipline.Triple.done (fun _ _ _ => trivial)) f hJ h.2

end Rebuilds

/-! ## The cooldown -/

theorem verified_poller (hK : ∀ i c c', (i, c) ∈ K → (i, c') ∈ K → c = c') :
    (cooling rt settings K).Verified := by
  rintro f i proc p (hJ : Cool K f) - ⟨rfl, hp⟩
  have hJ' : Cool K (f.put i (some ⟨0, []⟩)) := by
    refine hJ.put i ?_
    intro s hs
    rw [← Option.some.inj hs]
    exact ⟨rfl, fun _ => rfl⟩
  rcases hp with ⟨rfl, messages, rfl⟩ | ⟨hne, rfl⟩
  · have hbatch : (cooling rt settings K).Triple 0 (Batch f.ext.clock (Ready K f.ext.clock))
        (thread (processBatch rt settings messages)) (fun _ _ => True) :=
      (triple_processBatch hK messages).bind
        (fun _ => Discipline.Triple.done (fun _ _ _ => trivial))
    refine hbatch _ hJ' ⟨_, f.put_self 0 _, fun e he => absurd he List.not_mem_nil,
      Int.le_refl _, ?_⟩
    have hrecorded : recorded (f.put 0 (some ⟨0, []⟩)) = fires f.db := by
      rw [recorded, Frame.put_self]
      exact List.append_nil _
    rw [hrecorded]
    exact ⟨hJ.spaced, hJ.past, hJ.covered⟩
  · have hrebuild : (cooling rt settings K).Triple i (fun _ => True) (thread rebuild)
        (fun _ _ => True) :=
      (triple_rebuild hne).bind (fun _ => Discipline.Triple.done (fun _ _ _ => trivial))
    exact hrebuild _ hJ' trivial

theorem Cool.cooldownKept (h : Cool K f) : CooldownKept f.db := by
  intro e he e' he' hne hrule rule hmem hid
  have hcooldown : (e.payload.ruleId, rule.cooldownSeconds) ∈ K := by
    rw [← h.cooldowns, ← hid]
    exact List.mem_map.mpr ⟨rule, hmem, rfl⟩
  have hspaced : f.db.outboxEvents.Pairwise (fun a b =>
      a.payload.ruleId = b.payload.ruleId → ∀ c, (a.payload.ruleId, c) ∈ K →
        a.payload.triggeredAt + seconds c ≤ b.payload.triggeredAt) :=
    List.pairwise_map.mp h.spaced
  -- One of the two comes first in the table.
  have : Std.Symm (fun a b : OutboxEvent => a.payload.ruleId = b.payload.ruleId →
      ∀ c, (a.payload.ruleId, c) ∈ K →
        a.payload.triggeredAt + seconds c ≤ b.payload.triggeredAt
          ∨ b.payload.triggeredAt + seconds c ≤ a.payload.triggeredAt) :=
    ⟨fun a b hR hid c hc => (hR hid.symm c (hid ▸ hc)).symm⟩
  have heither := (hspaced.imp (S := fun a b : OutboxEvent =>
    a.payload.ruleId = b.payload.ruleId → ∀ c, (a.payload.ruleId, c) ∈ K →
      a.payload.triggeredAt + seconds c ≤ b.payload.triggeredAt
        ∨ b.payload.triggeredAt + seconds c ≤ a.payload.triggeredAt)
    (fun h hid c hc => Or.inl (h hid c hc))).forall
  refine heither he he' ?_ hrule _ hcooldown
  intro heq
  exact hne (congrArg OutboxEvent.notificationId heq)

/-- In every run of a poller whose steps are harmless, from a fresh process over
    tables that keep the cooldowns, delivered fires of one rule are a cooldown
    apart. -/
theorem cooldown_of_reaches (rt : Runtime) (settings : Settings) {c c' : Threads}
    (hclosed : ∀ i, c.frame.sessions i = none) (hfresh : c.frame.mem 0 = {})
    (hids : (c.frame.db.alertRules.map AlertRule.id).Nodup)
    (hspaced : Spaced (cooldowns c.frame.db) (fires c.frame.db))
    (hpast : ∀ x ∈ fires c.frame.db, x.2 ≤ c.frame.ext.clock)
    (h : Reaches (poller rt settings Harmless) c c') : CooldownKept c'.frame.db := by
  have hvalid : (cooling rt settings (cooldowns c.frame.db)).Valid c := by
    refine ⟨⟨rfl, hspaced, hpast, ?_, ?_, ?_, ?_⟩, ?_⟩
    · intro pairId rule hrule
      rw [hfresh] at hrule
      exact absurd hrule List.not_mem_nil
    · intro pairId rule hrule
      rw [hfresh] at hrule
      exact absurd hrule List.not_mem_nil
    · intro i s hs
      cases (hclosed i).symm.trans hs
    · intro i s hs
      cases (hclosed i).symm.trans hs
    · intro i hi
      exact absurd (hclosed i) hi
  have hK : ∀ i k k', (i, k) ∈ cooldowns c.frame.db → (i, k') ∈ cooldowns c.frame.db →
      k = k' := by
    intro i k k' hk hk'
    obtain ⟨r, hr, heq⟩ := List.mem_map.mp hk
    obtain ⟨r', hr', heq'⟩ := List.mem_map.mp hk'
    obtain ⟨rfl, rfl⟩ := Prod.mk.inj heq
    obtain ⟨hid, rfl⟩ := Prod.mk.inj heq'
    rw [List.inj_on_of_nodup_map hids hr hr' hid.symm]
  have hJ : Cool _ c'.frame :=
    (Discipline.valid_of_reaches (verified_poller hK) hvalid h).1
  exact hJ.cooldownKept

/-! ## Swaps between fires -/

/-- The observer of the swaps and of the assignments: which of them are harmless. -/
def harmless : Observer Database Write Generated Memory World MemOp ExtOp Bool := fun _ f _ cmd =>
  match cmd with
  | .mem (.install rules _) => [rules.all (fun rule => (recorded f).all
      (fun x => x.1 != rule.id || rule.lastFiredAt.any (fun t => x.2 ≤ t)))]
  | .mem (.setLastFiredAt generation _ _) => [generation == (f.mem 0).generation]
  | _ => []

theorem harmless_of_notes {β : Type} {f : Shared} {i : Nat}
    {cmd : Cmd Database Write Generated MemOp ExtOp β}
    (h : ∀ b ∈ harmless β f i cmd, b = true) : Harmless β f cmd := by
  cases cmd with
  | mem m =>
      cases m with
      | install rules buckets =>
          intro rule hrule x hx hid
          have hall := List.all_eq_true.mp (h _ (List.mem_singleton_self _)) rule hrule
          have hknown := List.all_eq_true.mp hall x hx
          rw [hid, bne_self_eq_false, Bool.false_or, Option.any_eq_true] at hknown
          obtain ⟨t, ht, hle⟩ := hknown
          exact ⟨t, ht, of_decide_eq_true hle⟩
      | setLastFiredAt generation id at_ => exact eq_of_beq (h _ (List.mem_singleton_self _))
      | rulesForPair pairId => exact trivial
      | getLastFiredAt generation id => exact trivial
  | query q => exact trivial
  | write w => exact trivial
  | insert w => exact trivial
  | commit => exact trivial
  | ask e => exact trivial

/-- A poller whose steps are not restricted. -/
abbrev anyPoller : WorkerSystem := poller Runtime.rational {} (fun _ _ _ => True)

theorem reaches_of_harmless {c c' : Threads} {xs : List Bool}
    (h : Traced anyPoller harmless c xs c') (hxs : xs.all id = true) :
    Reaches (poller Runtime.rational {} Harmless) c c' := by
  refine h.reaches_of_notes ?_ (List.all_eq_true.mp hxs)
  intro c c' xs hs hgood
  cases hs with
  | start i proc p hi hp => exact .start c i proc p hi hp
  | exec i cmd k b f hi he ha => exact .exec c i cmd k b f hi he (harmless_of_notes hgood)
  | close i hc => exact .close c i hc

/-- The rule fires every minute, and another one of the pair every other. -/
def spaced : Threads where
  frame :=
    { watched.frame with
      db :=
        { watched.frame.db with
          alertRules := [{ watchRule with cooldownSeconds := 60 }, { watchRule with id := 8 }] } }
  prog := watched.prog

/-- A batch of the pair. -/
def batch : Tx Unit := thread (processBatch Runtime.rational {} [watchMessage])

/-- The index is loaded and a batch fires; the next rebuild selects, and swaps in the middle
    of the next batch. -/
def swapAmid : List (Move Database Write Generated MemOp ExtOp PyError) :=
  [.start 1 0 (thread rebuild), .run 1 20, .stop 1, .start 0 0 batch, .run 0 40, .stop 0,
    .start 1 0 (thread rebuild), .run 1 1, .start 0 0 batch, .run 0 3, .run 1 20, .stop 1,
    .run 0 40, .stop 0]

/-- Where it leads to. -/
def spacedTwice : Threads := (play backend ticking harmless swapAmid spaced).1

theorem cooldown_of_reaches_spacedTwice :
    spacedTwice.frame.db.notifications.map (fun n => (n.ruleId, n.status, n.triggeredAt))
        = [(7, .pending, seconds 1000000080), (8, .pending, seconds 1000000080),
          (7, .pending, seconds 1000000140), (8, .suppressedCooldown, seconds 1000000140)]
      ∧ (spacedTwice.frame.mem 0).generation = 2
      ∧ Reaches (poller Runtime.rational {} Harmless) spaced spacedTwice
      ∧ CooldownKept spacedTwice.frame.db := by
  have htraced : Traced anyPoller harmless spaced (play backend ticking harmless swapAmid spaced).2
      spacedTwice :=
    traced_play [0, 1] answers_ticking (fun _ _ _ _ _ => trivial) (fun _ _ => rfl)
      (by decide +kernel)
      ⟨⟨rfl, Or.inr ⟨Nat.one_ne_zero, rfl⟩⟩, fun h => absurd h Nat.one_ne_zero,
        ⟨rfl, Or.inl ⟨rfl, _, rfl⟩⟩, fun _ => Script.eq_done_of_isDone (by decide +kernel),
        ⟨rfl, Or.inr ⟨Nat.one_ne_zero, rfl⟩⟩, ⟨rfl, Or.inl ⟨rfl, _, rfl⟩⟩,
        fun h => absurd h Nat.one_ne_zero,
        fun _ => Script.eq_done_of_isDone (by decide +kernel), trivial⟩
  have hreach := reaches_of_harmless htraced (by decide +kernel)
  have hspaced : Spaced (cooldowns spaced.frame.db) (fires spaced.frame.db) := List.Pairwise.nil
  exact ⟨by decide +kernel, by decide +kernel, hreach,
    cooldown_of_reaches Runtime.rational {} (fun _ => rfl) rfl (by decide) hspaced
      (fun x hx => absurd hx List.not_mem_nil) hreach⟩

/-! ## A swap across a fire -/

/-- A fresh process over one rule with a cooldown of an hour, and a quote that is high
    enough. -/
def crossing : Threads where
  frame :=
    { db := spikeTables
      mem := fun _ => {}
      ext := { clock := seconds 1000000020
               quotes := fun _ => some [("XBT/USD", spikeQuote)] }
      sessions := fun _ => none }
  prog := fun _ => .done ()

/-- A rebuild selects its rows before a batch and swaps them in after it; then the next
    batch. -/
def staleSwap : List (Move Database Write Generated MemOp ExtOp PyError) :=
  [.start 1 0 (thread rebuild), .run 1 20, .stop 1, .start 1 0 (thread rebuild), .run 1 1,
    .start 0 0 batch, .run 0 40, .stop 0, .run 1 20, .stop 1, .start 0 0 batch, .run 0 40]

/-- The rule fires again a minute later. -/
theorem not_cooldownKept_crossing :
    ∃ c, Reaches anyPoller crossing c ∧ ¬ CooldownKept c.frame.db := by
  have htraced : Traced anyPoller commits crossing
      (play backend ticking commits staleSwap crossing).2
      (play backend ticking commits staleSwap crossing).1 :=
    traced_play [0, 1] answers_ticking (fun _ _ _ _ _ => trivial) (fun _ _ => rfl)
      (by decide +kernel)
      ⟨⟨rfl, Or.inr ⟨Nat.one_ne_zero, rfl⟩⟩, fun h => absurd h Nat.one_ne_zero,
        ⟨rfl, Or.inr ⟨Nat.one_ne_zero, rfl⟩⟩, ⟨rfl, Or.inl ⟨rfl, _, rfl⟩⟩,
        fun _ => Script.eq_done_of_isDone (by decide +kernel),
        fun h => absurd h Nat.one_ne_zero, ⟨rfl, Or.inl ⟨rfl, _, rfl⟩⟩, trivial⟩
  refine ⟨_, htraced.reaches, ?_⟩
  rw [CooldownKept]
  decide +kernel

end Dropwatch.Rebuild
