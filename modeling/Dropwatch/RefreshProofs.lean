import Dropwatch.Lib.Overtake
import Dropwatch.Lib.Trace
import Dropwatch.PollerProofs
import Dropwatch.RulesApi
import Dropwatch.Workers

/-! # The freshness of the rule index — `keep_index_fresh`

    The listener and the periodic refresh rebuild the index side by side: each
    selects the rules, waits, and swaps the buckets in.  Nothing orders the swaps
    as the SELECTs were ordered, so a slow rebuild can put the rules back as they
    were before a change that is already installed.

    The runs are those of any number of rebuilds in any number of processes, with
    the requests that change rules and the batches that record fires, each stopped
    anywhere.  What is noted down of them are SELECTs, swaps and commits.  Where no
    rebuild selects while another one of its process still waits with what it selected
    before the last change (`Separate`), the rebuilds of a process that wait have all
    selected after as many changes, and its index after no more (`Abreast`). -/

namespace Dropwatch.Refresh

open Transact RuleIndex Evaluator Poller RulesApi Workers

/-- The rules a rebuild loads. -/
def enabledRules (db : Database) : List AlertRule := db.alertRules.filter (fun r => r.isEnabled)

/-- The programs that commit to the tables while rebuilds run. -/
def Writer (rt : Runtime) (settings : Settings) (p : Tx Unit) : Prop :=
  (∃ body, p = thread (createRule settings body))
    ∨ (∃ ruleId body, p = thread (updateRule settings ruleId body))
    ∨ ∃ messages, p = thread (processBatch rt settings messages)

/-- Rebuilds and writers, any number of each, stopped anywhere. -/
def refreshing (rt : Runtime) (settings : Settings) : WorkerSystem where
  backend := backend
  answers := Answers
  starts := fun _ _ _ p => p = thread rebuild ∨ Writer rt settings p
  execs := fun _ _ _ _ _ => True
  closes := fun _ _ _ => True

/-- The writes to `alert_rules`. -/
def ruleWrite : Write → Bool
  | .addAlertRule _ => true
  | .updateAlertRule _ _ => true
  | .setRuleLastFiredAt _ _ => true
  | _ => false

/-- A SELECT with the tables it saw, a swap with the rules it was loaded from, a commit
    that changed a rule. -/
abbrev Note : Type := Event Database (List AlertRule)

def notes : Observer Database Write Generated Memory World MemOp ExtOp Note := fun _ f i cmd =>
  match f.sessions i with
  | none => []
  | some s =>
      match cmd with
      | .query _ => [.read i (backend.replay f.db s.log)]
      | .mem (.install rules _) => [.publish i s.proc rules]
      | .commit => if s.log.any (fun e => ruleWrite e.2) then [.commit] else []
      | _ => []

/-! ## The programs -/

/-- The commands of a program that installs no index. -/
def noInstall (β : Type) (cmd : Cmd Database Write Generated MemOp ExtOp β) : Prop :=
  match cmd with
  | .mem (.install _ _) => False
  | _ => True

/-- A program that installs no index. -/
abbrev Leaves {α : Type} (p : Tx α) : Prop := p.Sat noInstall (fun _ => True)

theorem commitRule_leaves (settings : Settings) (ruleId : Uuid) (done : String) :
    Leaves (commitRule settings ruleId done) := by
  refine ⟨trivial, fun _ => ⟨trivial, fun row => ?_⟩⟩
  cases row with
  | none => exact trivial
  | some rule => exact ⟨trivial, fun _ => trivial⟩

theorem createRule_leaves (settings : Settings) (body : CreateRuleRequest) :
    Leaves (createRule settings body) := by
  refine ⟨trivial, fun pair => ?_⟩
  cases pair with
  | none => exact trivial
  | some pair =>
      refine ⟨trivial, fun user => ?_⟩
      cases user with
      | none => exact trivial
      | some user =>
          refine ⟨trivial, fun ruleId => ?_⟩
          show Leaves (addRule (body.rule ruleId) >>= fun _ => commitRule settings ruleId "created")
          refine Script.Sat.bind (Q := fun _ => True) ?_ (fun _ _ => commitRule_leaves _ _ _)
          rw [addRule]
          split
          · exact ⟨trivial, fun _ => trivial⟩
          · exact trivial

theorem updateRule_leaves (settings : Settings) (ruleId : Uuid) (body : UpdateRuleRequest) :
    Leaves (updateRule settings ruleId body) := by
  refine ⟨trivial, fun loaded => ?_⟩
  cases loaded with
  | none => exact trivial
  | some rule =>
      show Leaves (updateLoaded settings rule body)
      rw [updateLoaded]
      split
      · exact trivial
      · split
        · exact trivial
        · refine Script.Sat.bind (Q := fun _ => True) ?_ (fun _ _ => commitRule_leaves _ _ _)
          rw [flushRule]
          split
          · exact trivial
          · split
            · exact ⟨trivial, fun _ => trivial⟩
            · exact trivial

theorem noInstall_of_batchCommand {β : Type} {cmd : Cmd Database Write Generated MemOp ExtOp β}
    (h : batchCommand β cmd) : noInstall β cmd := by
  cases cmd with
  | mem m =>
      cases m with
      | rulesForPair pairId => exact trivial
      | getLastFiredAt generation id => exact trivial
      | setLastFiredAt generation id at_ => exact trivial
      | install rules buckets => exact h.elim
  | query q => exact trivial
  | write w => exact trivial
  | insert w => exact trivial
  | commit => exact trivial
  | ask e => exact trivial

/-- No writer installs an index. -/
theorem writer_leaves {rt : Runtime} {settings : Settings} {p : Tx Unit}
    (h : Writer rt settings p) : Leaves p := by
  rcases h with ⟨body, rfl⟩ | ⟨ruleId, body, rfl⟩ | ⟨messages, rfl⟩
  · exact (createRule_leaves settings body).bind (fun _ _ => trivial)
  · exact (updateRule_leaves settings ruleId body).bind (fun _ _ => trivial)
  · have hleaves : Leaves (processBatch rt settings messages) :=
      (processBatch_commands rt settings messages).mono (fun _ _ => noInstall_of_batchCommand)
        (fun _ h => h)
    exact hleaves.bind (fun _ _ => trivial)

/-! ## Where a rebuild stands -/

/-- A rebuild after its SELECT. -/
def installing (rules : List AlertRule) : Tx Unit :=
  thread (do
    let buckets ← Tx.lift (bucketRules rules)
    Tx.mem (.install rules buckets)
    pure (bucketCount buckets))

/-- The rest of an open thread: a rebuild before its SELECT, a rebuild on the rules of its
    SELECT, or a program that installs nothing. -/
def Role (k : Books Database) (i : Nat) (p : Tx Unit) : Prop :=
  p = thread rebuild
    ∨ (∃ n db, k.seen i = some (n, db) ∧ p = installing (enabledRules db))
    ∨ Leaves p

/-- A rebuild that is about to swap. -/
def Waits (p : Tx Unit) : Prop :=
  ∃ rules buckets, bucketRules rules = .ok buckets ∧ p = installing rules

/-- The next command of a program, if there is one, installs nothing. -/
def Defers : Tx Unit → Prop
  | .step cmd _ => noInstall _ cmd
  | _ => True

theorem not_waits_of_defers {p : Tx Unit} (h : Defers p) : ¬ Waits p := by
  rintro ⟨rules, buckets, hb, rfl⟩
  rw [installing, hb] at h
  exact h

theorem not_waits_rebuild : ¬ Waits (thread rebuild) := not_waits_of_defers trivial

theorem not_waits_of_leaves {p : Tx Unit} (h : Leaves p) : ¬ Waits p := by
  refine not_waits_of_defers ?_
  cases p with
  | done a => exact trivial
  | fail e => exact trivial
  | step cmd k => exact h.1

/-- What is installed is what the thread last selected. -/
abbrev Loads (xs : List Note) : Prop := Published (fun db rules => rules = enabledRules db) xs

/-- A note about one thread leaves the roles of the others. -/
theorem Role.note {k : Books Database} {i : Nat} {p : Tx Unit} (h : Role k i p) {y : Note}
    (hy : ∀ db, y ≠ .read i db) : Role (k.note y) i p := by
  rcases h with hstart | ⟨n, db, hseen, hp⟩ | hleaves
  · exact Or.inl hstart
  · refine Or.inr (Or.inl ⟨n, db, ?_, hp⟩)
    cases y with
    | read j db' =>
        have hij : i ≠ j := by
          rintro rfl
          exact hy db' rfl
        rw [Books.seen_read, if_neg hij]
        exact hseen
    | publish j slot rules => exact hseen
    | commit => exact hseen
  · exact Or.inr (Or.inr hleaves)

variable {rt : Runtime} {settings : Settings}

/-- One command of a thread: the SELECT of a rebuild, its swap, or a command of a program
    that installs nothing. -/
theorem exec_cases {xs : List Note} {i : Nat} {f f' : Shared} {β : Type}
    {cmd : Cmd Database Write Generated MemOp ExtOp β} {k : β → Tx Unit} {b : β}
    {s : Session Generated Write} (hs : f.sessions i = some s)
    (hrole : Role (books xs) i (.step cmd k))
    (he : Effect (refreshing rt settings) i f β cmd b f') :
    (∃ db, .step cmd k = thread rebuild ∧ notes β f i cmd = [.read i db]
        ∧ k b = installing (enabledRules db))
      ∨ (∃ n db, (books xs).seen i = some (n, db) ∧ Waits (.step cmd k)
        ∧ notes β f i cmd = [.publish i s.proc (enabledRules db)] ∧ Leaves (k b))
      ∨ (Leaves (.step cmd k) ∧ Leaves (k b) ∧ (notes β f i cmd = []
        ∨ (∃ db, notes β f i cmd = [.read i db]) ∨ notes β f i cmd = [.commit])) := by
  obtain ⟨s', hs', he⟩ := he
  obtain rfl : s' = s := Option.some.inj (hs'.symm.trans hs)
  rcases hrole with hstart | ⟨n, db, hseen, hp⟩ | hleaves
  · -- What the SELECT returns is what is noted down as seen.
    refine Or.inl ⟨backend.replay f.db s'.log, hstart, ?_⟩
    cases hstart
    obtain ⟨rfl, rfl⟩ := he
    exact ⟨by simp only [notes, hs], rfl⟩
  · refine Or.inr (Or.inl ⟨n, db, hseen, ?_⟩)
    rw [installing] at hp
    cases hb : bucketRules (enabledRules db) with
    | error e =>
        rw [hb] at hp
        cases hp
    | ok buckets =>
        have hwaits : Waits (.step cmd k) := ⟨_, buckets, hb, hp⟩
        rw [hb] at hp
        cases hp
        exact ⟨hwaits, by simp only [notes, hs], trivial⟩
  · -- A request or a batch: it selects and commits, but never swaps.
    refine Or.inr (Or.inr ⟨hleaves, hleaves.2 b, ?_⟩)
    cases cmd with
    | query q => exact Or.inr (Or.inl ⟨backend.replay f.db s'.log, by simp only [notes, hs]⟩)
    | write w => exact Or.inl (by simp only [notes, hs])
    | insert w => exact Or.inl (by simp only [notes, hs])
    | commit =>
        by_cases hrules : s'.log.any (fun e => ruleWrite e.2) = true
        · exact Or.inr (Or.inr (by simp only [notes, hs, hrules, if_true]))
        · exact Or.inl (by simp only [notes, hs, hrules]; rfl)
    | mem m =>
        cases m with
        | rulesForPair pairId => exact Or.inl (by simp only [notes, hs])
        | getLastFiredAt generation id => exact Or.inl (by simp only [notes, hs])
        | setLastFiredAt generation id at_ => exact Or.inl (by simp only [notes, hs])
        | install rules buckets => exact hleaves.1.elim
    | ask e => exact Or.inl (by simp only [notes, hs])

/-! ## Rebuilds that keep clear of each other -/

/-- The thread is a rebuild of the process that has selected and is about to swap. -/
def Waiting (c : Threads) (i proc : Nat) : Prop :=
  ∃ s, c.frame.sessions i = some s ∧ s.proc = proc ∧ Waits (c.prog i)

/-- A thread that is a rebuild may select: no other rebuild of its process waits to swap in
    what it selected before the last commit of a change. -/
def Clear (xs : List Note) (c : Threads) (j : Nat) : Prop :=
  c.prog j = thread rebuild → ∀ s, c.frame.sessions j = some s → ∀ i, Waiting c i s.proc →
    ∀ n db, (books xs).seen i = some (n, db) → n = (books xs).now

/-- A run whose rebuilds select only where they may. -/
inductive Separate (rt : Runtime) (settings : Settings) :
    Threads → List Note → Threads → Prop where
  | refl (c : Threads) : Separate rt settings c [] c
  | tail {c c' c'' : Threads} {xs ys : List Note} (h : Separate rt settings c xs c')
      (hs : TracedStep (refreshing rt settings) notes c' ys c'')
      (hclear : ∀ j db, .read j db ∈ ys → Clear xs c' j) :
      Separate rt settings c (xs ++ ys) c''

/-- The state of such a run: every open thread has its role, the rebuilds of a process that
    wait to swap have selected after as many commits, and its index is not newer. -/
structure Abreast (xs : List Note) (c : Threads) : Prop where
  roles : ∀ i, c.frame.sessions i ≠ none → Role (books xs) i (c.prog i)
  level : ∀ i j proc, Waiting c i proc → Waiting c j proc →
    ((books xs).seen i).map Prod.fst = ((books xs).seen j).map Prod.fst
  shown : ∀ proc m, (books xs).shown proc = some m → m ≤ (books xs).now
    ∧ ∀ i n db, Waiting c i proc → (books xs).seen i = some (n, db) → m ≤ n
  loads : Loads xs
  order : NeverOlder xs

section Step

variable {xs : List Note} {c : Threads} {i : Nat}

/-- Where no other thread than `i` waits than did before, and `i` does not, everything stays
    as it is. -/
theorem Abreast.restrict (h : Abreast xs c) {c' : Threads}
    (hroles : ∀ j, c'.frame.sessions j ≠ none → Role (books xs) j (c'.prog j))
    (hwaiting : ∀ j proc, Waiting c' j proc → Waiting c j proc) : Abreast xs c' where
  roles := hroles
  level := fun i j proc hi hj => h.level i j proc (hwaiting i proc hi) (hwaiting j proc hj)
  shown := by
    intro proc m hm
    obtain ⟨hnow, hle⟩ := h.shown proc m hm
    exact ⟨hnow, fun i n db hi => hle i n db (hwaiting i proc hi)⟩
  loads := h.loads
  order := h.order

/-- A rebuild that waits has selected. -/
theorem Abreast.seen (h : Abreast xs c) {proc : Nat} (hi : Waiting c i proc) :
    ∃ n db, (books xs).seen i = some (n, db) := by
  obtain ⟨s, hs, -, hwaits⟩ := hi
  rcases h.roles i (by rw [hs]; exact Option.some_ne_none s) with hstart | ⟨n, db, hseen, -⟩ |
    hleaves
  · rw [hstart] at hwaits
    exact absurd hwaits not_waits_rebuild
  · exact ⟨n, db, hseen⟩
  · exact absurd hwaits (not_waits_of_leaves hleaves)

/-- The SELECT of a rebuild that may. -/
theorem Abreast.select (h : Abreast xs c) {c' : Threads} {s : Session Generated Write}
    {db : Database} (hs : c.frame.sessions i = some s) (hs' : c'.frame.sessions i = some s)
    (hprog : c.prog i = thread rebuild) (hclear : Clear xs c i)
    (hroles : ∀ j, c'.frame.sessions j ≠ none →
      Role (books (xs ++ [.read i db])) j (c'.prog j))
    (hwaiting : ∀ j proc, j ≠ i → Waiting c' j proc → Waiting c j proc) :
    Abreast (xs ++ [.read i db]) c' := by
  have hmine : ∀ {proc}, Waiting c' i proc → proc = s.proc := by
    rintro proc ⟨t, ht, rfl, -⟩
    rw [Option.some.inj (ht.symm.trans hs')]
  have hself : (books (xs ++ [.read i db] : List Note)).seen i = some ((books xs).now, db) := by
    rw [books_concat, Books.seen_read, if_pos rfl]
  have hother : ∀ j, j ≠ i →
      (books (xs ++ [.read i db] : List Note)).seen j = (books xs).seen j := by
    intro j hj
    rw [books_concat, Books.seen_read, if_neg hj]
  -- Who waits in the process has selected after the last commit, as this SELECT does.
  have hlevel : ∀ j, Waiting c' j s.proc →
      ((books (xs ++ [.read i db] : List Note)).seen j).map Prod.fst = some (books xs).now := by
    intro j hj
    by_cases hji : j = i
    · rw [hji, hself]
      rfl
    · have hj' := hwaiting j s.proc hji hj
      obtain ⟨n, db', hseen⟩ := h.seen hj'
      rw [hother j hji, hseen, hclear hprog s hs j hj' n db' hseen]
      rfl
  refine { roles := hroles, level := ?_, shown := ?_, loads := ?_, order := ?_ }
  · intro j j' proc hj hj'
    by_cases hji : j = i
    · obtain rfl := hmine (hji ▸ hj)
      rw [hlevel j hj, hlevel j' hj']
    · by_cases hji' : j' = i
      · obtain rfl := hmine (hji' ▸ hj')
        rw [hlevel j hj, hlevel j' hj']
      · rw [hother j hji, hother j' hji']
        exact h.level j j' proc (hwaiting j proc hji hj) (hwaiting j' proc hji' hj')
  · intro proc m hm
    rw [books_concat] at hm
    obtain ⟨hnow, hle⟩ := h.shown proc m hm
    refine ⟨by rw [books_concat]; exact hnow, ?_⟩
    intro j n db' hj hseen
    by_cases hji : j = i
    · rw [hji, hself] at hseen
      obtain ⟨rfl, -⟩ := Prod.mk.inj (Option.some.inj hseen)
      exact hnow
    · rw [hother j hji] at hseen
      exact hle j n db' (hwaiting j proc hji hj) hseen
  · exact h.loads.concat (fun _ _ _ heq => by cases heq)
  · exact h.order.concat (fun _ _ _ heq => by cases heq)

/-- The swap of a rebuild. -/
theorem Abreast.swap (h : Abreast xs c) {c' : Threads} {proc n : Nat} {db : Database}
    (hi : Waiting c i proc) (hseen : (books xs).seen i = some (n, db))
    (hroles : ∀ j, c'.frame.sessions j ≠ none →
      Role (books (xs ++ [.publish i proc (enabledRules db)])) j (c'.prog j))
    (hwaiting : ∀ j proc, Waiting c' j proc → Waiting c j proc) :
    Abreast (xs ++ [.publish i proc (enabledRules db)]) c' := by
  refine { roles := hroles, level := ?_, shown := ?_, loads := ?_, order := ?_ }
  · intro j j' proc' hj hj'
    rw [books_concat]
    exact h.level j j' proc' (hwaiting j proc' hj) (hwaiting j' proc' hj')
  · intro proc' m hm
    rw [books_concat] at hm ⊢
    rw [Books.shown_publish] at hm
    by_cases hproc : proc' = proc
    · rw [if_pos hproc, hseen] at hm
      obtain rfl : n = m := Option.some.inj hm
      refine ⟨seen_le_now hseen, ?_⟩
      intro j n' db' hj hseen'
      have hold : (books xs).seen j = some (n', db') := hseen'
      have hlevel := h.level i j proc hi (hwaiting j proc (hproc ▸ hj))
      rw [hseen, hold] at hlevel
      exact (Option.some.inj hlevel).le
    · rw [if_neg hproc] at hm
      obtain ⟨hnow, hle⟩ := h.shown proc' m hm
      exact ⟨hnow, fun j n' db' hj => hle j n' db' (hwaiting j proc' hj)⟩
  · refine h.loads.concat ?_
    intro j slot rules heq
    obtain ⟨rfl, -, rfl⟩ := Event.publish.inj heq
    exact ⟨n, db, hseen, rfl⟩
  · refine h.order.concat ?_
    intro j slot rules heq m hm
    obtain ⟨rfl, rfl, -⟩ := Event.publish.inj heq
    exact ⟨n, db, hseen, (h.shown _ m hm).2 _ n db hi hseen⟩

/-- A SELECT of a program that does not swap. -/
theorem Abreast.look (h : Abreast xs c) {c' : Threads} {db : Database}
    (hroles : ∀ j, c'.frame.sessions j ≠ none →
      Role (books (xs ++ [.read i db])) j (c'.prog j))
    (hwaiting : ∀ j proc, Waiting c' j proc → Waiting c j proc ∧ j ≠ i) :
    Abreast (xs ++ [.read i db]) c' := by
  have hother : ∀ {j proc}, Waiting c' j proc →
      (books (xs ++ [.read i db] : List Note)).seen j = (books xs).seen j := by
    intro j proc hj
    rw [books_concat, Books.seen_read, if_neg (hwaiting j proc hj).2]
  refine { roles := hroles, level := ?_, shown := ?_, loads := ?_, order := ?_ }
  · intro j j' proc hj hj'
    rw [hother hj, hother hj']
    exact h.level j j' proc (hwaiting j proc hj).1 (hwaiting j' proc hj').1
  · intro proc m hm
    rw [books_concat] at hm
    obtain ⟨hnow, hle⟩ := h.shown proc m hm
    refine ⟨by rw [books_concat]; exact hnow, ?_⟩
    intro j n db' hj hseen
    rw [hother hj] at hseen
    exact hle j n db' (hwaiting j proc hj).1 hseen
  · exact h.loads.concat (fun _ _ _ heq => by cases heq)
  · exact h.order.concat (fun _ _ _ heq => by cases heq)

/-- The commit of a change. -/
theorem Abreast.commit (h : Abreast xs c) {c' : Threads}
    (hroles : ∀ j, c'.frame.sessions j ≠ none → Role (books (xs ++ [.commit])) j (c'.prog j))
    (hwaiting : ∀ j proc, Waiting c' j proc → Waiting c j proc) :
    Abreast (xs ++ [.commit]) c' := by
  refine { roles := hroles, level := ?_, shown := ?_, loads := ?_, order := ?_ }
  · intro j j' proc hj hj'
    rw [books_concat]
    exact h.level j j' proc (hwaiting j proc hj) (hwaiting j' proc hj')
  · intro proc m hm
    rw [books_concat] at hm ⊢
    obtain ⟨hnow, hle⟩ := h.shown proc m hm
    exact ⟨Nat.le_succ_of_le hnow, fun j n db hj => hle j n db (hwaiting j proc hj)⟩
  · exact h.loads.concat (fun _ _ _ heq => by cases heq)
  · exact h.order.concat (fun _ _ _ heq => by cases heq)

end Step

section Threads

variable {xs : List Note} {c : Threads} {i : Nat} {β : Type}
  {cmd : Cmd Database Write Generated MemOp ExtOp β} {b : β} {f : Shared} {p : Tx Unit} {proc : Nat}

/-- A command of a thread leaves the others where they were. -/
theorem Waiting.others (he : Effect (refreshing rt settings) i c.frame β cmd b f) {j proc : Nat}
    (hji : j ≠ i) (h : Waiting ⟨f, Function.update c.prog i p⟩ j proc) : Waiting c j proc := by
  obtain ⟨t, ht, hproc, hwaits⟩ := h
  refine ⟨t, (he.sessions_of_ne hji).symm.trans ht, hproc, ?_⟩
  have hwaits' : Waits (Function.update c.prog i p j) := hwaits
  rwa [Function.update_of_ne hji] at hwaits'

/-- A thread that swaps no more does not wait. -/
theorem Waiting.still (he : Effect (refreshing rt settings) i c.frame β cmd b f) (hp : Leaves p)
    {j proc : Nat} (h : Waiting ⟨f, Function.update c.prog i p⟩ j proc) :
    Waiting c j proc ∧ j ≠ i := by
  by_cases hji : j = i
  · obtain ⟨t, -, -, hwaits⟩ := h
    have hwaits' : Waits (Function.update c.prog i p j) := hwaits
    rw [hji, Function.update_self] at hwaits'
    exact absurd hwaits' (not_waits_of_leaves hp)
  · exact ⟨h.others he hji, hji⟩

/-- The roles after a command, where what is noted down of it is about its thread. -/
theorem Abreast.roles_exec (h : Abreast xs c)
    (he : Effect (refreshing rt settings) i c.frame β cmd b f) {zs : List Note}
    (hmine : Role (books (xs ++ zs)) i p)
    (hzs : zs = [] ∨ ∃ y, zs = [y] ∧ ∀ j db, j ≠ i → y ≠ .read j db) {j : Nat}
    (hj : f.sessions j ≠ none) : Role (books (xs ++ zs)) j (Function.update c.prog i p j) := by
  by_cases hji : j = i
  · rw [hji, Function.update_self]
    exact hmine
  · rw [Function.update_of_ne hji]
    have hold := h.roles j (by rwa [← he.sessions_of_ne hji])
    rcases hzs with rfl | ⟨y, rfl, hy⟩
    · rw [List.append_nil]
      exact hold
    · rw [books_concat]
      exact hold.note (fun db => hy j db hji)

theorem Abreast.start (h : Abreast xs c) (hp : (refreshing rt settings).starts c.frame i proc p) :
    Abreast xs ⟨c.frame.put i (some ⟨proc, []⟩), Function.update c.prog i p⟩ := by
  have hfresh : Role (books xs) i p ∧ ¬ Waits p := by
    rcases hp with rfl | hwriter
    · exact ⟨Or.inl rfl, not_waits_rebuild⟩
    · exact ⟨Or.inr (Or.inr (writer_leaves hwriter)), not_waits_of_leaves (writer_leaves hwriter)⟩
  refine h.restrict ?_ ?_
  · intro j hj
    by_cases hji : j = i
    · rw [hji]
      show Role _ i (Function.update c.prog i p i)
      rw [Function.update_self]
      exact hfresh.1
    · show Role _ j (Function.update c.prog i p j)
      rw [Function.update_of_ne hji]
      exact h.roles j (by rwa [← c.frame.put_of_ne hji])
  · rintro j proc' ⟨s, hs, hproc, hwaits⟩
    have hwaits' : Waits (Function.update c.prog i p j) := hwaits
    by_cases hji : j = i
    · rw [hji, Function.update_self] at hwaits'
      exact absurd hwaits' hfresh.2
    · rw [Function.update_of_ne hji] at hwaits'
      exact ⟨s, (c.frame.put_of_ne hji _).symm.trans hs, hproc, hwaits'⟩

theorem Abreast.exec (h : Abreast xs c) {k : β → Tx Unit} (hi : c.prog i = .step cmd k)
    (he : Effect (refreshing rt settings) i c.frame β cmd b f)
    (hclear : ∀ j db, .read j db ∈ notes β c.frame i cmd → Clear xs c j) :
    Abreast (xs ++ notes β c.frame i cmd) ⟨f, Function.update c.prog i (k b)⟩ := by
  obtain ⟨s, hopen, -⟩ := he.frame_cases
  have hrole := h.roles i (by rw [hopen]; exact Option.some_ne_none s)
  rw [hi] at hrole
  rcases exec_cases hopen hrole he with ⟨db, hstart, hnote, hk⟩ |
    ⟨n, db, hseen, hwaits, hnote, hleaves⟩ | ⟨-, hleaves, hnote⟩
  · -- The SELECT of a rebuild leaves its session as it is.
    rw [hnote] at hclear ⊢
    have hsame : f.sessions i = some s := by
      cases hstart
      obtain ⟨s', hs', -, rfl⟩ := he
      exact hopen
    refine h.select hopen hsame (hi.trans hstart) (hclear i db (List.mem_singleton_self _))
      (fun j => h.roles_exec he ?_ (Or.inr ⟨_, rfl, ?_⟩)) (fun j proc hji hj => hj.others he hji)
    · refine Or.inr (Or.inl ⟨(books xs).now, db, ?_, hk⟩)
      rw [books_concat, Books.seen_read, if_pos rfl]
    · intro j' db' hji heq
      exact hji (Event.read.inj heq).1.symm
  · rw [hnote]
    refine h.swap ⟨s, hopen, rfl, by rw [hi]; exact hwaits⟩ hseen ?_
      (fun j proc hj => (hj.still he hleaves).1)
    exact fun j => h.roles_exec he (Or.inr (Or.inr hleaves))
      (Or.inr ⟨_, rfl, fun _ _ _ heq => by cases heq⟩)
  · have hmine : ∀ {zs : List Note}, Role (books (xs ++ zs)) i (k b) := Or.inr (Or.inr hleaves)
    rcases hnote with hnote | ⟨db, hnote⟩ | hnote
    · rw [hnote, List.append_nil]
      refine h.restrict ?_ (fun j proc hj => (hj.still he hleaves).1)
      intro j hj
      have hrole' := h.roles_exec he (@hmine []) (Or.inl rfl) hj
      rwa [List.append_nil] at hrole'
    · rw [hnote]
      refine h.look (fun j => h.roles_exec he hmine (Or.inr ⟨_, rfl, ?_⟩))
        (fun j proc hj => hj.still he hleaves)
      intro j' db' hji heq
      exact hji (Event.read.inj heq).1.symm
    · rw [hnote]
      refine h.commit ?_ (fun j proc hj => (hj.still he hleaves).1)
      exact fun j => h.roles_exec he hmine (Or.inr ⟨_, rfl, fun _ _ _ heq => by cases heq⟩)

theorem Abreast.close (h : Abreast xs c) (i : Nat) :
    Abreast xs ⟨c.frame.put i none, c.prog⟩ := by
  have hne : ∀ j, (c.frame.put i none).sessions j ≠ none → j ≠ i := by
    rintro j hj rfl
    exact hj (c.frame.put_self j none)
  refine h.restrict ?_ ?_
  · intro j hj
    exact h.roles j (by rwa [← c.frame.put_of_ne (hne j hj) none])
  · rintro j proc ⟨s, hs, hproc, hwaits⟩
    have hji := hne j (by rw [hs]; exact Option.some_ne_none s)
    exact ⟨s, (c.frame.put_of_ne hji none).symm.trans hs, hproc, hwaits⟩

end Threads

theorem Abreast.step {xs ys : List Note} {c c' : Threads} (h : Abreast xs c)
    (hs : TracedStep (refreshing rt settings) notes c ys c')
    (hclear : ∀ j db, .read j db ∈ ys → Clear xs c j) : Abreast (xs ++ ys) c' := by
  cases hs with
  | start i proc p hi hp =>
      rw [List.append_nil]
      exact h.start hp
  | exec i cmd k b f hi he _ => exact h.exec hi he hclear
  | close i _ =>
      rw [List.append_nil]
      exact h.close i

/-- Where rebuilds select only while no other one of their process waits with what it selected
    before the last change, every swap installs the rules of the last SELECT of its rebuild,
    and the snapshot an index was loaded from never becomes older. -/
theorem snapshot_never_older {c c' : Threads} {xs : List Note}
    (h : Separate rt settings c xs c') (hclosed : ∀ i, c.frame.sessions i = none) :
    Loads xs ∧ NeverOlder xs := by
  have habreast : Abreast xs c' := by
    induction h with
    | refl =>
        refine { roles := fun i hi => absurd (hclosed i) hi, level := ?_, shown := ?_
                 loads := ?_, order := ?_ }
        · rintro i j proc ⟨s, hs, -⟩
          cases (hclosed i).symm.trans hs
        · intro proc m hm
          cases hm
        · intro pre i slot b suf heq
          exact absurd heq (by simp)
        · intro pre i slot b suf heq
          exact absurd heq (by simp)
    | tail _ hs hclear ih => exact ih.step hs hclear
  exact ⟨habreast.loads, habreast.order⟩

/-! ## Checking a run -/

/-- Runs of four threads. -/
def fourThreads (rt : Runtime) (settings : Settings) : WorkerSystem :=
  { refreshing rt settings with
    starts := fun f i proc p => i < 4 ∧ (refreshing rt settings).starts f i proc p }

/-- A note, and who of the four threads is open. -/
def surveyed : Observer Database Write Generated Memory World MemOp ExtOp (Note × List Nat) :=
  fun β f i cmd => (notes β f i cmd).map
    (fun y => (y, (List.range 4).filter (fun j => (f.sessions j).isSome)))

/-- No other thread that is open at a SELECT has selected before the last commit. -/
def settled : Books Database → List (Note × List Nat) → Bool
  | _, [] => true
  | k, (.read i db, opened) :: rest =>
      opened.all (fun j => j == i || (k.seen j).all (fun e => e.1 == k.now))
        && settled (k.note (.read i db : Note)) rest
  | k, (y, _) :: rest => settled (k.note y) rest

theorem settled_append (k : Books Database) (xs ys : List (Note × List Nat)) :
    settled k (xs ++ ys)
      = (settled k xs && settled ((xs.map Prod.fst).foldl Books.note k) ys) := by
  induction xs generalizing k with
  | nil => rfl
  | cons x rest ih =>
      obtain ⟨y, opened⟩ := x
      cases y with
      | read i db => simp only [List.cons_append, settled, ih, List.map_cons, List.foldl_cons,
          Bool.and_assoc]
      | publish i slot rules => exact ih _
      | commit => exact ih _

/-- A command is a SELECT or it is noted as something else. -/
theorem notes_of_read {β : Type} {f : Shared} {i j : Nat} {db : Database}
    {cmd : Cmd Database Write Generated MemOp ExtOp β} (h : .read j db ∈ notes β f i cmd) :
    notes β f i cmd = [.read j db] ∧ j = i := by
  cases hs : f.sessions i with
  | none => simp [notes, hs] at h
  | some s =>
      cases cmd with
      | query q =>
          simp only [notes, hs, List.mem_singleton] at h ⊢
          rw [h]
          exact ⟨rfl, (Event.read.inj h).1⟩
      | commit =>
          simp only [notes, hs] at h
          split at h
          · simp at h
          · simp at h
      | mem m => cases m <;> simp [notes, hs] at h
      | _ => simp [notes, hs] at h

/-- A run that is settled is one whose rebuilds select only where they may. -/
theorem separate_of_settled {c c' : Threads} {zs : List (Note × List Nat)}
    (h : Traced (fourThreads rt settings) surveyed c zs c')
    (hclosed : ∀ i, c.frame.sessions i = none) (hsettled : settled {} zs = true) :
    Separate rt settings c (zs.map Prod.fst) c'
      ∧ ∀ i s, c'.frame.sessions i = some s → i < 4 := by
  induction h with
  | refl => exact ⟨.refl _, fun i s hs => by cases (hclosed i).symm.trans hs⟩
  | @tail c' c'' xs ys _ hs ih =>
      rw [settled_append] at hsettled
      obtain ⟨hbefore, hnow⟩ := Bool.and_eq_true_iff.mp hsettled
      obtain ⟨hrun, hfour⟩ := ih hbefore
      rw [List.map_append]
      -- Only a command can be a SELECT: a start and an end ask nothing of the others.
      cases hs with
      | start i proc p hi hp =>
          refine ⟨hrun.tail (.start _ i proc p hi hp.2) (fun j db hj => by cases hj), ?_⟩
          intro j s hj
          by_cases hji : j = i
          · rw [hji]
            exact hp.1
          · exact hfour j s ((c'.frame.put_of_ne hji _).symm.trans hj)
      | close i hc =>
          refine ⟨hrun.tail (.close _ i hc) (fun j db hj => by cases hj), ?_⟩
          intro j s hj
          by_cases hji : j = i
          · rw [hji] at hj
            cases (c'.frame.put_self i none).symm.trans hj
          · exact hfour j s ((c'.frame.put_of_ne hji _).symm.trans hj)
      | exec i cmd k b f hi he ha =>
          have hfst : (surveyed _ c'.frame i cmd).map Prod.fst = notes _ c'.frame i cmd := by
            rw [surveyed, List.map_map]
            exact List.map_id _
          rw [hfst]
          refine ⟨hrun.tail (.exec c' i cmd k b f hi he ha) ?_, ?_⟩
          · -- Whoever waits at a SELECT is one of the open threads.
            intro j db hread hstart s _ j' hwaiting n db' hseen
            obtain ⟨hnote, rfl⟩ := notes_of_read hread
            obtain ⟨t, ht, -, hwaits⟩ := hwaiting
            rw [surveyed, hnote] at hnow
            obtain ⟨hopen, -⟩ := Bool.and_eq_true_iff.mp hnow
            have hmem : j' ∈ (List.range 4).filter (fun j => (c'.frame.sessions j).isSome) :=
              List.mem_filter.mpr ⟨List.mem_range.mpr (hfour j' t ht), by rw [ht]; rfl⟩
            have hlast := List.all_eq_true.mp hopen j' hmem
            rcases Bool.or_eq_true_iff.mp hlast with hself | hlast
            · rw [eq_of_beq hself, hstart] at hwaits
              exact absurd hwaits not_waits_rebuild
            · rw [show (List.foldl Books.note {} (List.map Prod.fst xs)).seen j' = some (n, db')
                from hseen] at hlast
              exact eq_of_beq hlast
          · intro j s hj
            by_cases hji : j = i
            · obtain ⟨t, ht, -⟩ := he.frame_cases
              rw [hji]
              exact hfour i t ht
            · exact hfour j s ((he.sessions_of_ne hji).symm.trans hj)

/-! ## Two rebuilds and a PATCH -/

/-- One enabled rule, and no index loaded yet. -/
def enabledStart : Threads where
  frame :=
    { db := { pairs := [{ id := 1, krakenPairName := "XBT/USD", displayName := "XBT/USD" }]
              alertRules := [{ id := 7, pairId := 1, ruleType := .absoluteAbove
                               threshold := some ⟨false, 100, 0⟩ }] }
      mem := fun _ => {}
      ext := { clock := seconds 1000000020 }
      sessions := fun _ => none }
  prog := fun _ => .done ()

/-- The request that disables the rule. -/
def disable : Tx Unit := thread (updateRule {} 7 { isEnabled := some (some false) })

/-- The periodic refresh selects and is slow; the rule is disabled, and the listener
    rebuilds. -/
def slowRefresh : List (Move Database Write Generated MemOp ExtOp PyError) :=
  [.start 0 0 (thread rebuild), .run 0 1, .start 1 1 disable, .run 1 20, .stop 1,
    .start 2 0 (thread rebuild), .run 2 20, .stop 2]

/-- Then the refresh swaps. -/
def lateSwap : List (Move Database Write Generated MemOp ExtOp PyError) :=
  slowRefresh ++ [.run 0 20, .stop 0]

/-- The periodic refresh selects and is slow, the listener rebuilds, the refresh swaps; then the
    rule is disabled, and the listener rebuilds again. -/
def separateRebuilds : List (Move Database Write Generated MemOp ExtOp PyError) :=
  [.start 0 0 (thread rebuild), .run 0 1, .start 2 0 (thread rebuild), .run 2 20, .stop 2,
    .run 0 20, .stop 0, .start 1 1 disable, .run 1 20, .stop 1, .start 3 0 (thread rebuild),
    .run 3 20, .stop 3]

theorem snapshot_never_older_separate :
    ∃ xs c', Separate Runtime.rational {} enabledStart xs c' ∧ Loads xs ∧ NeverOlder xs
      ∧ (books xs).now = 1 ∧ (books xs).shown 0 = some 1
      ∧ ((c'.frame.mem 0).rulesForPair 1).all = [] := by
  have htraced : Traced (fourThreads Runtime.rational {}) surveyed enabledStart
      (play backend isolated surveyed separateRebuilds enabledStart).2
      (play backend isolated surveyed separateRebuilds enabledStart).1 :=
    traced_play [0, 1, 2, 3] answers_isolated (fun _ _ _ _ _ => trivial) (fun _ _ => rfl)
      (by decide +kernel) ⟨⟨by decide, Or.inl rfl⟩, ⟨by decide, Or.inl rfl⟩, trivial, trivial,
        ⟨by decide, Or.inr (Or.inr (Or.inl ⟨_, _, rfl⟩))⟩, trivial, ⟨by decide, Or.inl rfl⟩,
        trivial, trivial⟩
  obtain ⟨hseparate, -⟩ := separate_of_settled htraced (fun _ => rfl) (by decide +kernel)
  obtain ⟨hloads, hnever⟩ := snapshot_never_older hseparate (fun _ => rfl)
  exact ⟨_, _, hseparate, hloads, hnever, by decide +kernel, by decide +kernel, by decide +kernel⟩

/-- The late swap brings the disabled rule back into the index. -/
theorem snapshot_older_lateSwap :
    ∃ xs c', Traced (refreshing Runtime.rational {}) notes enabledStart xs c'
      ∧ ¬ NeverOlder xs
      ∧ c'.frame.db.alertRules.map (fun r => (r.id, r.isEnabled)) = [(7, false)]
      ∧ ((c'.frame.mem 0).rulesForPair 1).all.map AlertRule.id = [7] := by
  have htraced : Traced (refreshing Runtime.rational {}) notes enabledStart
      (play backend isolated notes lateSwap enabledStart).2
      (play backend isolated notes lateSwap enabledStart).1 :=
    traced_play [0, 1, 2] answers_isolated (fun _ _ _ _ _ => trivial) (fun _ _ => rfl)
      (by decide +kernel) ⟨Or.inl rfl, Or.inr (Or.inr (Or.inl ⟨_, _, rfl⟩)), trivial,
        Or.inl rfl, trivial, trivial, trivial⟩
  refine ⟨_, _, htraced, ?_, by decide +kernel, by decide +kernel⟩
  intro hnever
  have hsplit : (play backend isolated notes lateSwap enabledStart).2
      = (play backend isolated notes lateSwap enabledStart).2.take 6
        ++ .publish 0 0 enabledStart.frame.db.alertRules :: [] := by decide +kernel
  have hshown : (books ((play backend isolated notes lateSwap enabledStart).2.take 6)).shown 0
      = some 1 := by decide +kernel
  have hold : ((books ((play backend isolated notes lateSwap enabledStart).2.take 6)).seen 0).map
      Prod.fst = some 0 := by decide +kernel
  -- The slot holds what was read after the commit, the late swap what was read before it.
  obtain ⟨n, a, hseen, hle⟩ := hnever _ 0 0 _ [] hsplit 1 hshown
  rw [hseen] at hold
  obtain rfl : n = 0 := Option.some.inj hold
  exact absurd hle (by decide)

end Dropwatch.Refresh
