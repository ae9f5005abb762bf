import Dropwatch.PollerProofs
import Dropwatch.TotalityProofs
import Dropwatch.Lib.Trace
import Dropwatch.Workers

/-! # Concurrent edits of the rules — `create_rule` and `update_rule`

    A PATCH validates the row it loaded with its own fields merged in, and commits
    only the columns it changed.  By then the row may be another one: the view that was
    validated need never have been stored.

    What every type of rule asks of its columns it asks of each column alone
    (`WellFormed`).  So a set of columns taken from a well-formed view can be put into
    ANY well-formed rule of that type (`SafeFor`, `safeFor_changes`), and a type never
    changes.  That is the invariant of the interleavings: the uncommitted writes of
    every session are safe for the rows that are there now (`Formed`). -/

namespace Dropwatch.Editing

open Transact RuleIndex Evaluator Poller RulesApi Workers Totality

/-- The columns that no PATCH may change. -/
def identity (rule : AlertRule) : Uuid × Uuid × Uuid × RuleType × Option Instant :=
  (rule.id, rule.userId, rule.pairId, rule.ruleType, rule.lastFiredAt)

/-- The primary key of `alert_rules`. -/
def UniqueKeys (db : Database) : Prop := (db.alertRules.map AlertRule.id).Nodup

/-- Requests, batches and rebuilds, any number of each, stopped anywhere.  The PATCHes run
    in the threads of `patch`. -/
def requests (rt : Runtime) (settings : Settings) (patch : Nat → Bool) : WorkerSystem where
  backend := backend
  answers := Answers
  starts := fun _ i _ p =>
    if patch i then ∃ ruleId body, p = thread (updateRule settings ruleId body)
    else (∃ body, p = thread (createRule settings body))
      ∨ (∃ messages, p = thread (processBatch rt settings messages))
      ∨ p = thread rebuild
  execs := fun _ _ _ _ _ => True
  closes := fun _ _ _ => True

/-- The same under the primary key. -/
def editing (rt : Runtime) (settings : Settings) (patch : Nat → Bool) : WorkerSystem :=
  (requests rt settings patch).constrained UniqueKeys

/-- A PATCH that is answered with an error status, or whose flush the tables refuse. -/
def Rejected (r : Except PyError (Except HttpError AlertRule)) : Prop :=
  (∃ e, r = .ok (.error e)) ∨ r = .error .integrityError ∨ r = .error .dataError

/-! ## Column by column -/

/-- Columns that any well-formed rule of a type can take. -/
def SafeFor (t : RuleType) (changes : RuleChanges) : Prop :=
  ∀ rule, rule.ruleType = t → WellFormed rule → WellFormed (changes.stored.apply rule)

/-- The loaded row as the request leaves it, before anything is written. -/
def merged (body : UpdateRuleRequest) (rule : AlertRule) : AlertRule :=
  { rule with
    threshold := body.threshold.getD rule.threshold
    percent := body.percent.getD rule.percent
    windowSeconds := body.windowSeconds.getD rule.windowSeconds
    sigma := body.sigma.getD rule.sigma
    direction := body.direction.getD rule.direction }

/-- A column after an UPDATE holds what it held, or what the merged view holds. -/
theorem changed_getD {α : Type} {same : α → α → Bool} {old kept : α} {given : Option α}
    (f : α → α) : ((changed same old given).map f).getD kept = kept
      ∨ ((changed same old given).map f).getD kept = f (given.getD old) := by
  cases hc : changed same old given with
  | none => exact Or.inl rfl
  | some new =>
      obtain ⟨hgiven, -⟩ := Option.filter_eq_some_iff.mp hc
      rw [hgiven]
      exact Or.inr rfl

/-- Neither of them is null. -/
theorem isSome_changed_getD {α : Type} {same : Option α → Option α → Bool}
    {old kept : Option α} {given : Option (Option α)} {f : α → α} (hkept : kept.isSome = true)
    (hmerged : (given.getD old).isSome = true) :
    (((changed same old given).map (Option.map f)).getD kept).isSome = true := by
  rcases changed_getD (Option.map f) with h | h
  · rw [h]
    exact hkept
  · rw [h, Option.isSome_map]
    exact hmerged

/-- The columns of a validated PATCH suit every well-formed rule of the type it was
    validated for. -/
theorem safeFor_changes {body : UpdateRuleRequest} {rule : AlertRule} {changes : RuleChanges}
    (hv : WellFormed (merged body rule)) (hc : body.changes rule = some changes) :
    SafeFor rule.ruleType changes := by
  intro r ht hr
  have htm : (merged body rule).ruleType = r.ruleType := ht.symm
  rw [UpdateRuleRequest.changes] at hc
  split at hc
  · cases hc
  · obtain rfl := Option.some.inj hc
    constructor
    · exact hr.implemented
    · intro habs
      exact isSome_changed_getD (hr.threshold habs) (hv.threshold (htm ▸ habs))
    · intro hz
      exact isSome_changed_getD (hr.sigma hz) (hv.sigma (htm ▸ hz))
    · intro hp
      exact isSome_changed_getD (hr.percent hp) (hv.percent (htm ▸ hp))
    · intro hw
      have hwindow := @isSome_changed_getD _ (· == ·) _ _ _ id (hr.windowSeconds hw)
        (hv.windowSeconds (htm ▸ hw))
      rwa [Option.map_id, Option.map_id, id] at hwindow
    · intro hd d heq
      rcases @changed_getD _ (· == ·) rule.direction r.direction body.direction id with h | h
      · rw [Option.map_id, id] at h
        exact hr.direction hd d (h.symm.trans heq)
      · rw [Option.map_id, id] at h
        exact hv.direction (htm ▸ hd) d (h.symm.trans heq)

/-- What is stored of a created rule is what was validated, rounded. -/
theorem wellFormed_stored {rule : AlertRule} (h : WellFormed rule) : WellFormed rule.stored where
  implemented := h.implemented
  threshold := fun ht => Option.isSome_map.trans (h.threshold ht)
  sigma := fun ht => Option.isSome_map.trans (h.sigma ht)
  percent := fun ht => Option.isSome_map.trans (h.percent ht)
  windowSeconds := h.windowSeconds
  direction := h.direction

/-! ## One write -/

/-- Every rule is still there, under its key and with its type. -/
def KeepsTypes (db db' : Database) : Prop :=
  ∀ r ∈ db.alertRules, ∃ r' ∈ db'.alertRules, r'.id = r.id ∧ r'.ruleType = r.ruleType

theorem KeepsTypes.refl (db : Database) : KeepsTypes db db := fun r hr => ⟨r, hr, rfl, rfl⟩

theorem KeepsTypes.trans {db db' db'' : Database} (h : KeepsTypes db db')
    (h' : KeepsTypes db' db'') : KeepsTypes db db'' := by
  intro r hr
  obtain ⟨r', hr', hid, ht⟩ := h r hr
  obtain ⟨r'', hr'', hid', ht'⟩ := h' r' hr'
  exact ⟨r'', hr'', hid'.trans hid, ht'.trans ht⟩

/-- An uncommitted write that is safe for the rules that are stored. -/
def Guarded (db : Database) : Write → Prop
  | .addAlertRule rule => WellFormed rule
  | .updateAlertRule ruleId changes =>
      ∃ r ∈ db.alertRules, r.id = ruleId ∧ SafeFor r.ruleType changes
  | _ => True

/-- It stays safe while rules are added and changed. -/
theorem Guarded.mono {db db' : Database} {w : Write} (h : Guarded db w)
    (hdb : KeepsTypes db db') : Guarded db' w := by
  cases w with
  | updateAlertRule ruleId changes =>
      obtain ⟨r, hr, hid, hsafe⟩ := h
      obtain ⟨r', hr', hid', ht⟩ := hdb r hr
      exact ⟨r', hr', hid'.trans hid, ht ▸ hsafe⟩
  | _ => exact h

/-- A write adds keys at most. -/
theorem keys_apply (g : Generated) (w : Write) (db : Database) :
    ∃ more, (backend.apply g w db).alertRules.map AlertRule.id
      = db.alertRules.map AlertRule.id ++ more := by
  cases w with
  | addAlertRule rule => exact ⟨[rule.id], List.map_append⟩
  | setRuleLastFiredAt ruleId at_ =>
      refine ⟨[], (map_updateWhere ?_ db.alertRules).trans (List.append_nil _).symm⟩
      exact fun _ => rfl
  | updateAlertRule ruleId changes =>
      refine ⟨[], (map_updateWhere ?_ db.alertRules).trans (List.append_nil _).symm⟩
      exact fun _ => rfl
  | _ => exact ⟨[], (List.append_nil _).symm⟩

theorem uniqueKeys_of_apply {g : Generated} {w : Write} {db : Database}
    (h : UniqueKeys (backend.apply g w db)) : UniqueKeys db := by
  obtain ⟨more, heq⟩ := keys_apply g w db
  rw [UniqueKeys, heq] at h
  exact h.of_append_left

/-- A replay does not repair the primary key. -/
theorem uniqueKeys_of_replay {db : Database} {log : List (Generated × Write)}
    (h : UniqueKeys (backend.replay db log)) : UniqueKeys db := by
  induction log using List.reverseRecOn with
  | nil => exact h
  | append_singleton log e ih =>
      rw [Backend.replay_concat] at h
      exact ih (uniqueKeys_of_apply h)

theorem keepsTypes_updateWhere {db db' : Database} {cond : AlertRule → Bool}
    {f : AlertRule → AlertRule} (heq : db'.alertRules = updateWhere cond f db.alertRules)
    (hf : ∀ r, (f r).id = r.id ∧ (f r).ruleType = r.ruleType) : KeepsTypes db db' := by
  intro r hr
  refine ⟨if cond r then f r else r, ?_, ?_⟩
  · rw [heq]
    exact List.mem_map_of_mem hr
  · split
    · exact hf r
    · exact ⟨rfl, rfl⟩

/-- One guarded write keeps every rule well-formed, and its key and type. -/
theorem wellFormed_apply {g : Generated} {w : Write} {db : Database} (hkeys : UniqueKeys db)
    (hrules : ∀ r ∈ db.alertRules, WellFormed r) (hw : Guarded db w) :
    (∀ r ∈ (backend.apply g w db).alertRules, WellFormed r)
      ∧ KeepsTypes db (backend.apply g w db) := by
  cases w with
  | addAlertRule rule =>
      refine ⟨?_, fun r hr => ⟨r, List.mem_append_left _ hr, rfl, rfl⟩⟩
      intro r hr
      rcases List.mem_append.mp hr with hold | hnew
      · exact hrules r hold
      · rw [List.mem_singleton.mp hnew]
        exact wellFormed_stored hw
  | setRuleLastFiredAt ruleId at_ =>
      refine ⟨?_, keepsTypes_updateWhere rfl (fun _ => ⟨rfl, rfl⟩)⟩
      intro r hr
      obtain ⟨r₀, hr₀, rfl⟩ := List.mem_map.mp hr
      split
      · exact ⟨(hrules r₀ hr₀).implemented, (hrules r₀ hr₀).threshold, (hrules r₀ hr₀).sigma,
          (hrules r₀ hr₀).percent, (hrules r₀ hr₀).windowSeconds, (hrules r₀ hr₀).direction⟩
      · exact hrules r₀ hr₀
  | updateAlertRule ruleId changes =>
      refine ⟨?_, keepsTypes_updateWhere rfl (fun _ => ⟨rfl, rfl⟩)⟩
      obtain ⟨known, hknown, hid, hsafe⟩ := hw
      intro r hr
      obtain ⟨r₀, hr₀, rfl⟩ := List.mem_map.mp hr
      split
      · next hcond =>
          -- The key is unique, so the row that is changed is the row the guard is about.
          have hsame : r₀ = known := List.inj_on_of_nodup_map hkeys hr₀ hknown
            ((beq_iff_eq.mp hcond).trans hid.symm)
          exact hsafe r₀ (congrArg AlertRule.ruleType hsame) (hrules r₀ hr₀)
      · exact hrules r₀ hr₀
  | _ => exact ⟨hrules, KeepsTypes.refl db⟩

/-- The same for all the writes of a session, whatever was committed since each was
    issued. -/
theorem wellFormed_replay {db : Database} {log : List (Generated × Write)}
    (hkeys : UniqueKeys (backend.replay db log)) (hrules : ∀ r ∈ db.alertRules, WellFormed r)
    (hlog : ∀ e ∈ log, Guarded db e.2) :
    (∀ r ∈ (backend.replay db log).alertRules, WellFormed r)
      ∧ KeepsTypes db (backend.replay db log) := by
  induction log using List.reverseRecOn with
  | nil => exact ⟨hrules, KeepsTypes.refl db⟩
  | append_singleton log e ih =>
      rw [Backend.replay_concat] at hkeys ⊢
      have hbefore : UniqueKeys (backend.replay db log) := uniqueKeys_of_apply hkeys
      obtain ⟨hformed, hkept⟩ := ih hbefore (fun e' he' => hlog e' (List.mem_append_left _ he'))
      have hguard : Guarded (backend.replay db log) e.2 :=
        (hlog e (List.mem_append_right _ List.mem_cons_self)).mono hkept
      obtain ⟨hformed', hkept'⟩ := wellFormed_apply (g := e.1) hbefore hformed hguard
      exact ⟨hformed', hkept.trans hkept'⟩

/-- The commit of a PATCH changes no identity. -/
theorem identity_replay {log : List (Generated × Write)}
    (hlog : ∀ e ∈ log, ∃ ruleId changes, e.2 = .updateAlertRule ruleId changes)
    (db : Database) :
    (backend.replay db log).alertRules.map identity = db.alertRules.map identity := by
  refine backend.replay_inv (P := fun db' : Database =>
    db'.alertRules.map identity = db.alertRules.map identity) ?_ rfl
  intro e he db' hdb
  obtain ⟨ruleId, changes, hw⟩ := hlog e he
  rw [hw, ← hdb]
  refine map_updateWhere ?_ db'.alertRules
  exact fun _ => rfl

/-! ## The interleavings -/

/-- The invariant: unique keys, well-formed rows, and uncommitted writes that are safe for
    the rows there are; a PATCH writes nothing but an UPDATE of a rule. -/
structure Formed (patch : Nat → Bool) (f : Shared) : Prop where
  keys : UniqueKeys f.db
  rules : ∀ r ∈ f.db.alertRules, WellFormed r
  guarded : ∀ i s, f.sessions i = some s → ∀ e ∈ s.log, Guarded f.db e.2
  patches : ∀ i s, patch i = true → f.sessions i = some s → ∀ e ∈ s.log,
    ∃ ruleId changes, e.2 = .updateAlertRule ruleId changes

/-- A write that thread `i` may issue while the tables are `db`. -/
def Allowed (patch : Nat → Bool) (i : Nat) (db : Database) (w : Write) : Prop :=
  Guarded db w ∧ (patch i = true → ∃ ruleId changes, w = .updateAlertRule ruleId changes)

/-- A command that issues no other. -/
def Allows (patch : Nat → Bool) (i : Nat) (db : Database) :
    ∀ β : Type, Cmd Database Write Generated MemOp ExtOp β → Prop
  | _, .write w => Allowed patch i db w
  | _, .insert w => Allowed patch i db w
  | _, _ => True

/-- What a thread may do to the committed rules. -/
def Edits (patch : Nat → Bool) (i : Nat) (f f' : Shared) : Prop :=
  KeepsTypes f.db f'.db
    ∧ (patch i = true → f'.db.alertRules.map identity = f.db.alertRules.map identity)

section Invariant

variable {patch : Nat → Bool} {i : Nat} {f f' : Shared}

theorem Edits.of_db (h : f'.db = f.db) : Edits patch i f f' := by
  rw [Edits, h]
  exact ⟨KeepsTypes.refl _, fun _ => rfl⟩

/-- A session opened, closed or changed, with writes the invariant allows. -/
theorem Formed.put (h : Formed patch f) (i : Nat) (s : Option (Session Generated Write))
    (hs : ∀ s', s = some s' → ∀ e ∈ s'.log, Allowed patch i f.db e.2) :
    Formed patch (f.put i s) where
  keys := h.keys
  rules := h.rules
  guarded := by
    intro j s' hs' e he
    by_cases hji : j = i
    · rw [hji, Frame.put_self] at hs'
      exact (hs s' hs' e he).1
    · rw [f.put_of_ne hji] at hs'
      exact h.guarded j s' hs' e he
  patches := by
    intro j s' hj hs' e he
    by_cases hji : j = i
    · rw [hji, Frame.put_self] at hs'
      exact (hs s' hs' e he).2 (hji ▸ hj)
    · rw [f.put_of_ne hji] at hs'
      exact h.patches j s' hj hs' e he

/-- A session without writes. -/
theorem Formed.put_empty (h : Formed patch f) (i : Nat) {s : Option (Session Generated Write)}
    (hs : ∀ s', s = some s' → s'.log = []) : Formed patch (f.put i s) := by
  refine h.put i s ?_
  intro s' hs' e he
  rw [hs s' hs'] at he
  exact absurd he List.not_mem_nil

/-- One more uncommitted write. -/
theorem Formed.log (h : Formed patch f) {s : Session Generated Write}
    (hs : f.sessions i = some s) {e : Generated × Write} (he : Allowed patch i f.db e.2) :
    Formed patch (f.log i s e) := by
  refine h.put i _ ?_
  intro s' hs' x hx
  rw [← Option.some.inj hs'] at hx
  rcases List.mem_append.mp hx with hold | hnew
  · exact ⟨h.guarded i s hs x hold, fun hi => h.patches i s hi hs x hold⟩
  · rw [List.mem_singleton.mp hnew]
    exact he

/-- A commit under the primary key. -/
theorem Formed.commit (h : Formed patch f) {s : Session Generated Write}
    (hs : f.sessions i = some s) (hkeys : UniqueKeys (backend.replay f.db s.log)) :
    Formed patch (f.commit backend i s) ∧ Edits patch i f (f.commit backend i s) := by
  obtain ⟨hrules, hkept⟩ := wellFormed_replay hkeys h.rules (h.guarded i s hs)
  have hput : Formed patch (f.put i (some { s with log := [] })) :=
    h.put_empty i (fun s' hs' => by rw [← Option.some.inj hs'])
  refine ⟨⟨hkeys, hrules, ?_, hput.patches⟩, hkept, ?_⟩
  · -- The writes of the others are safe for the rows as they are after the commit.
    intro j s' hs' e he
    exact (hput.guarded j s' hs' e he).mono hkept
  · exact fun hi => identity_replay (h.patches i s hi hs) f.db

/-- One command of one thread. -/
theorem Formed.exec {rt : Runtime} {settings : Settings} {β : Type}
    {cmd : Cmd Database Write Generated MemOp ExtOp β} {b : β} (h : Formed patch f)
    (hcmd : Allows patch i f.db β cmd) (he : Effect (editing rt settings patch) i f β cmd b f')
    (hkeys : UniqueKeys f'.db) : Formed patch f' ∧ Edits patch i f f' := by
  obtain ⟨s, hs, he⟩ := he
  cases cmd with
  | query q =>
      obtain ⟨-, rfl⟩ := he
      exact ⟨h, Edits.of_db rfl⟩
  | write w =>
      obtain ⟨g, -, rfl⟩ := he
      exact ⟨h.log hs hcmd, Edits.of_db rfl⟩
  | insert w =>
      cases b with
      | none =>
          obtain ⟨-, rfl⟩ := he
          exact ⟨h, Edits.of_db rfl⟩
      | some g =>
          obtain ⟨-, -, rfl⟩ := he
          exact ⟨h.log hs hcmd, Edits.of_db rfl⟩
  | commit =>
      obtain rfl := he
      exact h.commit hs hkeys
  | mem m =>
      obtain ⟨-, rfl⟩ := he
      exact ⟨⟨h.keys, h.rules, h.guarded, h.patches⟩, Edits.of_db rfl⟩
  | ask e =>
      obtain ⟨x, -, rfl⟩ := he
      exact ⟨⟨h.keys, h.rules, h.guarded, h.patches⟩, Edits.of_db rfl⟩

end Invariant

/-- Rely: the others leave the session alone, and every rule its key and its type. -/
def discipline (rt : Runtime) (settings : Settings) (patch : Nat → Bool) :
    Discipline (editing rt settings patch) where
  J := Formed patch
  R := fun i f f' => f'.sessions i = f.sessions i ∧ KeepsTypes f.db f'.db
  Own := Edits patch
  refl := fun _ f => ⟨rfl, KeepsTypes.refl f.db⟩
  trans := fun h h' => ⟨h'.1.trans h.1, h.2.trans h'.2⟩
  idle := fun _ _ => Edits.of_db rfl
  others := fun _ he hown _ hj _ => ⟨he.sessions_of_ne hj, hown.1⟩
  opens := fun h _ _ =>
    ⟨h.put_empty _ (fun s' hs' => by rw [← Option.some.inj hs']),
      fun _ hj _ => ⟨Frame.put_of_ne _ hj _, KeepsTypes.refl _⟩⟩
  closes := fun h _ =>
    ⟨h.put_empty _ (fun _ hs' => by cases hs'),
      fun _ hj _ => ⟨Frame.put_of_ne _ hj _, KeepsTypes.refl _⟩⟩

/-! ## The programs -/

section Programs

variable {rt : Runtime} {settings : Settings} {patch : Nat → Bool} {i : Nat}

/-- A program whose writes are allowed whatever the tables are. -/
abbrev Harmless (patch : Nat → Bool) (i : Nat) {α : Type} (p : Tx α) : Prop :=
  p.Sat (fun β cmd => ∀ db, Allows patch i db β cmd) (fun _ => True)

theorem triple_of_harmless {α : Type} {p : Tx α} (hp : Harmless patch i p) :
    (discipline rt settings patch).Triple i (fun _ => True) p (fun _ _ => True) := by
  have hstable : (discipline rt settings patch).Stable i (fun _ => True) :=
    fun _ _ _ _ _ => trivial
  refine (Discipline.Triple.of_sat hp hstable ?_).conseq (fun _ h => h) (fun _ _ _ => trivial)
  intro β cmd f b f' hcmd hJ _ he ha
  obtain ⟨hJ', hown⟩ := hJ.exec (hcmd f.db) he ha.2
  exact ⟨hJ', hown, trivial⟩

theorem harmless_commitRule (ruleId : Uuid) (done : String) :
    Harmless patch i (commitRule settings ruleId done) := by
  refine ⟨fun _ => trivial, fun _ => ⟨fun _ => trivial, fun row => ?_⟩⟩
  cases row with
  | none => exact trivial
  | some rule => exact ⟨fun _ => trivial, fun _ => trivial⟩

theorem harmless_createRule (hi : patch i = false) (body : CreateRuleRequest) :
    Harmless patch i (createRule settings body) := by
  refine ⟨fun _ => trivial, fun pair => ?_⟩
  cases pair with
  | none => exact trivial
  | some pair =>
      refine ⟨fun _ => trivial, fun user => ?_⟩
      cases user with
      | none => exact trivial
      | some user =>
          refine ⟨fun _ => trivial, fun ruleId => ?_⟩
          show Harmless patch i (addRule (body.rule ruleId) >>= fun _ =>
            commitRule settings ruleId "created")
          refine Script.Sat.bind (Q := fun _ => True) ?_ (fun _ _ => harmless_commitRule _ _)
          rw [addRule]
          split
          · refine ⟨fun _ => ⟨validRule_iff_wellFormed.mp body.valid, ?_⟩, fun _ => trivial⟩
            intro h
            cases hi.symm.trans h
          · exact trivial

theorem harmless_processBatch (hi : patch i = false) (messages : List Message) :
    Harmless patch i (processBatch rt settings messages) := by
  have hnone : ∀ {w : Write}, patch i = true →
      ∃ ruleId changes, w = .updateAlertRule ruleId changes := by
    intro _ h
    cases hi.symm.trans h
  refine (processBatch_commands rt settings messages).mono ?_ (fun _ h => h)
  intro β cmd hcmd db
  cases cmd with
  | write w => cases w <;> first | exact ⟨trivial, hnone⟩ | exact hcmd.elim
  | insert w => cases w <;> first | exact ⟨trivial, hnone⟩ | exact hcmd.elim
  | _ => exact trivial

theorem harmless_rebuild : Harmless patch i rebuild := by
  refine ⟨fun _ => trivial, fun rules => ?_⟩
  show Harmless patch i (Tx.lift (bucketRules rules) >>= fun buckets =>
    Tx.mem (.install rules buckets) >>= fun _ => pure (bucketCount buckets))
  refine Script.Sat.bind (Q := fun _ => True) (Script.Sat.lift (fun _ _ => trivial)) ?_
  exact fun buckets _ => ⟨fun _ => trivial, fun _ => trivial⟩

/-- The loaded row is still there, under its key and with its type. -/
def Known (rule : AlertRule) (f : Shared) : Prop :=
  ∃ r ∈ f.db.alertRules, r.id = rule.id ∧ r.ruleType = rule.ruleType

/-- A PATCH of a loaded row, however much of the row has changed since. -/
theorem triple_updateLoaded (rule : AlertRule) (body : UpdateRuleRequest) :
    (discipline rt settings patch).Triple i (Known rule) (updateLoaded settings rule body)
      (fun _ _ => True) := by
  have hstable : (discipline rt settings patch).Stable i (Known rule) := by
    rintro f f' ⟨r, hr, hid, ht⟩ ⟨-, hkept⟩ -
    obtain ⟨r', hr', hid', ht'⟩ := hkept r hr
    exact ⟨r', hr', hid'.trans hid, ht'.trans ht⟩
  rw [updateLoaded]
  split
  · exact Discipline.Triple.done (fun _ _ _ => trivial)
  · next hvalid =>
      have hmerged : WellFormed (merged body rule) :=
        validRule_iff_wellFormed.mp (validRule_iff.mpr hvalid)
      cases hc : body.changes rule with
      | none => exact Discipline.Triple.fail
      | some changes =>
          refine Discipline.Triple.bind (Q := fun _ _ => True) ?_
            (fun _ => triple_of_harmless (harmless_commitRule _ _))
          rw [flushRule]
          split
          · exact Discipline.Triple.done (fun _ _ _ => trivial)
          · split
            · refine Discipline.Triple.step (R := fun _ _ => True) hstable ?_
                (fun _ => Discipline.Triple.done (fun _ _ h => h))
              rintro f b f' hJ ⟨r, hr, hid, ht⟩ he ha
              have hallowed : Allows patch i f.db Unit
                  (.write (.updateAlertRule rule.id changes)) :=
                ⟨⟨r, hr, hid, ht ▸ safeFor_changes hmerged hc⟩, fun _ => ⟨_, _, rfl⟩⟩
              obtain ⟨hJ', hown⟩ := hJ.exec hallowed he ha.2
              exact ⟨hJ', hown, trivial⟩
            · exact Discipline.Triple.fail

/-- The session of a request that has written nothing yet. -/
def Unwritten (i : Nat) (f : Shared) : Prop := ∃ proc, f.sessions i = some ⟨proc, []⟩

theorem triple_updateRule (ruleId : Uuid) (body : UpdateRuleRequest) :
    (discipline rt settings patch).Triple i (Unwritten i) (updateRule settings ruleId body)
      (fun _ _ => True) := by
  have hstable : (discipline rt settings patch).Stable i (Unwritten i) := by
    rintro f f' ⟨proc, hs⟩ ⟨hsame, -⟩ -
    exact ⟨proc, hsame.trans hs⟩
  refine Discipline.Triple.step (R := fun loaded f => ∀ rule, loaded = some rule → Known rule f)
    hstable ?_ ?_
  · rintro f b f' hJ ⟨proc, hopen⟩ ⟨s, hs, hb, rfl⟩ -
    refine ⟨hJ, Edits.of_db rfl, ?_⟩
    rintro rule rfl
    -- Without writes of its own the session sees the committed rows.
    obtain rfl := Option.some.inj (hopen.symm.trans hs)
    exact ⟨rule, List.mem_of_find?_eq_some hb.symm, rfl, rfl⟩
  · intro loaded
    cases loaded with
    | none => exact Discipline.Triple.done (fun _ _ _ => trivial)
    | some rule =>
        exact (triple_updateLoaded rule body).conseq (fun _ h => h rule rfl) (fun _ _ h => h)

theorem triple_thread {α : Type} {p : Tx α} {P : Shared → Prop}
    (hp : (discipline rt settings patch).Triple i P p (fun _ _ => True)) :
    (discipline rt settings patch).Triple i P (thread p) (fun _ _ => True) :=
  Discipline.Triple.bind hp (fun _ => Discipline.Triple.done (fun _ _ h => h))

theorem verified : (discipline rt settings patch).Verified := by
  intro f i proc p hJ hi hp
  have hopen := ((discipline rt settings patch).opens hJ hi hp).1
  have hprograms : if patch i then ∃ ruleId body, p = thread (updateRule settings ruleId body)
      else (∃ body, p = thread (createRule settings body))
        ∨ (∃ messages, p = thread (processBatch rt settings messages))
        ∨ p = thread rebuild := hp
  split at hprograms
  · obtain ⟨ruleId, body, rfl⟩ := hprograms
    exact triple_thread (triple_updateRule ruleId body) _ hopen ⟨proc, f.put_self i _⟩
  · next hpatch =>
      rw [Bool.not_eq_true] at hpatch
      rcases hprograms with ⟨body, rfl⟩ | ⟨messages, rfl⟩ | rfl
      · exact triple_thread (triple_of_harmless (harmless_createRule hpatch body)) _ hopen trivial
      · exact triple_thread (triple_of_harmless (harmless_processBatch hpatch messages)) _ hopen
          trivial
      · exact triple_thread (triple_of_harmless harmless_rebuild) _ hopen trivial

end Programs

/-! ## Rejections -/

section Rejections

variable {settings : Settings} {ruleId : Uuid}
  {cmds : List (Σ β : Type, Cmd Database Write Generated MemOp ExtOp β)}
  {r : Except PyError (Except HttpError AlertRule)}

/-- Once it is at its commit a request is no longer rejected. -/
theorem not_rejected_commitRule {done : String}
    (h : Script.Path (commitRule settings ruleId done) cmds r) : ¬ Rejected r := by
  cases h with
  | step _ _ _ h =>
      cases h with
      | step _ _ row h =>
          cases row with
          | none =>
              cases h
              rintro (⟨e, heq⟩ | heq | heq)
              · cases heq
              · cases heq
              · cases heq
          | some rule =>
              cases h with
              | step _ _ _ h =>
                  cases h
                  rintro (⟨e, heq⟩ | heq | heq)
                  · cases heq
                  · cases heq
                  · cases heq

/-- A flush that is refused has issued nothing. -/
theorem cmds_of_rejected_flush {changes : RuleChanges} {done : String}
    (h : Script.Path (flushRule ruleId changes >>= fun _ => commitRule settings ruleId done)
      cmds r) (hr : Rejected r) : cmds = [] := by
  rw [flushRule] at h
  split at h
  · exact absurd hr (not_rejected_commitRule h)
  · split at h
    · cases h with
      | step _ _ _ h => exact absurd hr (not_rejected_commitRule h)
    · cases h
      rfl

/-- All a rejected PATCH does is to load the row. -/
theorem isQuery_of_rejected {body : UpdateRuleRequest}
    (h : Script.Path (updateRule settings ruleId body) cmds r) (hr : Rejected r) :
    ∀ cmd ∈ cmds, cmd.2.isQuery = true := by
  cases h with
  | step _ _ loaded h =>
      refine List.forall_mem_cons.mpr ⟨rfl, ?_⟩
      cases loaded with
      | none =>
          cases h
          exact fun _ hcmd => absurd hcmd List.not_mem_nil
      | some rule =>
          have hpath : Script.Path (updateLoaded settings rule body) _ r := h
          rw [updateLoaded] at hpath
          split at hpath
          · cases hpath
            exact fun _ hcmd => absurd hcmd List.not_mem_nil
          · cases hc : body.changes rule with
            | none =>
                rw [hc] at hpath
                cases hpath
                exact fun _ hcmd => absurd hcmd List.not_mem_nil
            | some changes =>
                rw [hc] at hpath
                rw [cmds_of_rejected_flush hpath hr]
                exact fun _ hcmd => absurd hcmd List.not_mem_nil

end Rejections

/-- In every interleaving the stored rules are well-formed, so the buckets of any of them
    can be sorted.  No step of a PATCH changes the owner, the pair, the type or the last
    fire of a rule, and a rejected PATCH takes no step that changes anything. -/
theorem wellFormed_of_reaches {rt : Runtime} {settings : Settings} {patch : Nat → Bool}
    {c c' : Threads} (h : Reaches (editing rt settings patch) c c')
    (hclosed : ∀ i, c.frame.sessions i = none) (hkeys : UniqueKeys c.frame.db)
    (hrules : ∀ r ∈ c.frame.db.alertRules, WellFormed r) :
    (∀ r ∈ c'.frame.db.alertRules, WellFormed r)
      ∧ (∀ rules, rules ⊆ c'.frame.db.alertRules → ∃ buckets, bucketRules rules = .ok buckets)
      ∧ (∀ (i : Nat) (β : Type) (cmd : Cmd Database Write Generated MemOp ExtOp β) k b f,
        patch i = true → c'.prog i = .step cmd k →
          Effect (editing rt settings patch) i c'.frame β cmd b f →
          (editing rt settings patch).execs β c'.frame i cmd f →
            f.db.alertRules.map identity = c'.frame.db.alertRules.map identity)
      ∧ ∀ ruleId body cmds r, Script.Path (updateRule settings ruleId body) cmds r → Rejected r →
        ∀ cmd ∈ cmds, ∀ i f b f',
          Effect (editing rt settings patch) i f cmd.1 cmd.2 b f' → f' = f := by
  have hstart : Formed patch c.frame := by
    refine ⟨hkeys, hrules, ?_, ?_⟩
    · intro i s hs
      cases (hclosed i).symm.trans hs
    · intro i s _ hs
      cases (hclosed i).symm.trans hs
  obtain ⟨hformed, hsafe⟩ := Discipline.valid_of_reaches (@verified rt settings patch)
    (⟨hstart, fun i hi => absurd (hclosed i) hi⟩ : (discipline rt settings patch).Valid c) h
  refine ⟨hformed.rules, ?_, ?_, ?_⟩
  · intro rules hsub
    exact ⟨_, bucketRules_ok (fun r hr => (hformed.rules r (hsub hr)).threshold)⟩
  · -- The guarantee of the thread's next command is in its proof outline.
    intro i β cmd k b f hi hprog he ha
    obtain ⟨s, hopen, -⟩ := he.frame_cases
    have hrest := hsafe i (by rw [hopen]; exact Option.some_ne_none s)
    rw [hprog] at hrest
    obtain ⟨-, hown, -⟩ :=
      hrest c'.frame ((discipline rt settings patch).refl i c'.frame) hformed b f he ha
    exact hown.2 hi
  · -- A request that is refused has only looked.
    intro ruleId body cmds r hpath hr cmd hcmd i f b f' he
    obtain ⟨q, hq⟩ := Cmd.eq_query_of_isQuery (isQuery_of_rejected hpath hr cmd hcmd)
    obtain ⟨s, -, he⟩ := he
    rw [hq] at he
    exact he.2

/-! ## Two PATCHes of one rule and a POST -/

instance (db : Database) : Decidable (UniqueKeys db) :=
  inferInstanceAs (Decidable (List.Nodup _))

/-- A command does not repair the primary key. -/
theorem uniqueKeys_of_effect {rt : Runtime} {settings : Settings} {patch : Nat → Bool}
    (i : Nat) (β : Type) (f : Shared) (cmd : Cmd Database Write Generated MemOp ExtOp β) (b : β)
    (f' : Shared) (he : Effect (requests rt settings patch) i f β cmd b f')
    (h : UniqueKeys f'.db) : UniqueKeys f.db := by
  obtain ⟨s, -, heq | ⟨e, -, heq⟩ | heq | ⟨m, heq⟩ | ⟨_, _, _, x, -, heq⟩⟩ := he.frame_cases
  · exact heq ▸ h
  · exact (congrArg Frame.db heq) ▸ h
  · rw [heq] at h
    exact uniqueKeys_of_replay h
  · exact (congrArg Frame.db heq) ▸ h
  · exact (congrArg Frame.db heq) ▸ h

/-- A rule on a change of five per cent within a minute. -/
def minuteRule : AlertRule :=
  { id := 7, userId := 3, pairId := 1, ruleType := .percentChange, percent := some ⟨false, 5, 0⟩
    windowSeconds := some 60 }

def editStart : Threads where
  frame :=
    { db := { users := [{ id := 3, contact := "telegram" }]
              pairs := [{ id := 1, krakenPairName := "XBT/USD", displayName := "XBT/USD" }]
              alertRules := [minuteRule] }
      mem := fun _ => {}
      ext := { clock := seconds 1000000020, nextUuid := 8 }
      sessions := fun _ => none }
  prog := fun _ => .done ()

/-- A POST of a rule on the spread. -/
def spreadRequest : CreateRuleRequest where
  userId := 3
  pairId := 1
  ruleType := .spreadWiden
  percent := some ⟨false, 2, 0⟩

/-- One PATCH loads the rule, another sets its direction and a POST adds a rule, and only
    then the first one commits its window. -/
def staleEdit : List (Move Database Write Generated MemOp ExtOp PyError) :=
  [.start 0 0 (thread (updateRule {} 7
      { windowSeconds := some (some 90), cooldown_nonneg := rfl })), .run 0 1,
    .start 1 0 (thread (updateRule {} 7
      { direction := some (some "down"), cooldown_nonneg := rfl })), .run 1 20, .stop 1,
    .start 2 0 (thread (createRule {} spreadRequest)), .run 2 20, .stop 2,
    .run 0 20, .stop 0]

/-- The POST runs in thread 2. -/
def notThird (i : Nat) : Bool := i != 2

/-- Where the schedule leads to. -/
def edited : Threads := (play backend isolated commits staleEdit editStart).1

theorem reaches_edited : Reaches (editing Runtime.rational {} notThird) editStart edited := by
  have htraced : Traced (requests Runtime.rational {} notThird) commits editStart
      (play backend isolated commits staleEdit editStart).2 edited :=
    traced_play [0, 1, 2] answers_isolated (fun _ _ _ _ _ => trivial) (fun _ _ => rfl)
      (by decide +kernel) ⟨⟨_, _, rfl⟩, ⟨_, _, rfl⟩, trivial, Or.inl ⟨_, rfl⟩, trivial, trivial,
        trivial⟩
  exact htraced.reaches.constrained uniqueKeys_of_effect (by decide +kernel)

theorem minuteRule_wellFormed : WellFormed minuteRule :=
  validRule_iff_wellFormed.mp (by decide)

theorem wellFormed_of_reaches_edited :
    edited.frame.db.alertRules.map AlertRule.windowSeconds = [some 90, none]
      ∧ (∀ r ∈ edited.frame.db.alertRules, WellFormed r)
      ∧ (∀ rules, rules ⊆ edited.frame.db.alertRules → ∃ buckets, bucketRules rules = .ok buckets)
      ∧ (∀ (i : Nat) (β : Type) (cmd : Cmd Database Write Generated MemOp ExtOp β) k b f,
        notThird i = true → edited.prog i = .step cmd k →
          Effect (editing Runtime.rational {} notThird) i edited.frame β cmd b f →
          (editing Runtime.rational {} notThird).execs β edited.frame i cmd f →
            f.db.alertRules.map identity = edited.frame.db.alertRules.map identity)
      ∧ ∀ ruleId body cmds r, Script.Path (updateRule {} ruleId body) cmds r → Rejected r →
        ∀ cmd ∈ cmds, ∀ i f b f',
          Effect (editing Runtime.rational {} notThird) i f cmd.1 cmd.2 b f' → f' = f :=
  ⟨by decide +kernel, wellFormed_of_reaches reaches_edited (fun _ => rfl) (by decide)
    (fun _ hr => List.mem_singleton.mp hr ▸ minuteRule_wellFormed)⟩

end Dropwatch.Editing
