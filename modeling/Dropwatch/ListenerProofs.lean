import Dropwatch.Lib.Answered
import Dropwatch.Listener

/-! # No change goes unheard

    While a listener is subscribed, every change of the rules reaches the index of its
    process: the request that commits it does not end without the signal
    (`Conduct`), the signal stays in the inbox until it is received
    (`heard_of_sent`), and the rebuild that is then begun swaps in what it has selected
    (`swapped_of_heard`), which is the tables after the change.

    Each of these is an invariant of the notes so far (`Since`): what has been noted is
    answered, or the state still owes the answer. -/

namespace Dropwatch.Listener

open Transact Answered RuleIndex Evaluator Poller Publisher Scheduler RulesApi Workers Refresh
open Integrity Convergence

variable {rt : Runtime} {settings : Settings}

/-! ## Runs -/

theorem marks_length_le {β : Type} (f : Shared) (i : Nat)
    (cmd : Cmd Database Write Generated MemOp ExtOp β) : (marks β f i cmd).length ≤ 1 := by
  rw [marks]
  split
  · exact Nat.zero_le 1
  · split
    · exact Nat.le_refl 1
    · exact Nat.le_refl 1
    · split
      · exact Nat.zero_le 1
      · exact Nat.le_refl 1
    · exact Nat.zero_le 1

theorem NetStep.length_le {n n' : Network} {ys : List Signal} (h : NetStep rt settings n ys n') :
    ys.length ≤ 1 := by
  cases h with
  | turn h =>
      cases h with
      | start i proc p hi hp => exact Nat.zero_le 1
      | exec i cmd k b f hi he ha =>
          unfold signals
          split
          · exact Nat.le_refl 1
          · rw [List.length_map]
            exact marks_length_le _ _ _
      | close i hc => exact Nat.zero_le 1
  | rebuilt p i hp hi => exact Nat.zero_le 1
  | _ => exact Nat.le_refl 1

theorem Run.single {n n' : Network} {ys : List Signal} (h : NetStep rt settings n ys n') :
    Run rt settings n ys n' := .tail (.refl n) h

theorem Run.trans {n n' n'' : Network} {xs ys : List Signal} (h : Run rt settings n xs n')
    (h' : Run rt settings n' ys n'') : Run rt settings n (xs ++ ys) n'' := by
  induction h' with
  | refl => rwa [List.append_nil]
  | tail _ hs ih =>
      rw [← List.append_assoc]
      exact ih.tail hs

/-- A run can be cut between any two notes. -/
theorem Run.split {n n' : Network} {zs : List Signal} (h : Run rt settings n zs n')
    {xs ys : List Signal} (heq : zs = xs ++ ys) :
    ∃ m, Run rt settings n xs m ∧ Run rt settings m ys n' := by
  induction h generalizing xs ys with
  | refl =>
      obtain ⟨rfl, rfl⟩ := List.append_eq_nil_iff.mp heq.symm
      exact ⟨n, .refl n, .refl n⟩
  | @tail n' n'' xs₀ ys₀ h hs ih =>
      rcases List.append_eq_append_iff.mp heq with ⟨a, rfl, hys⟩ | ⟨a, hxs, rfl⟩
      · -- A step has one note at most, so the cut is before or after it.
        have hlen := hs.length_le
        rw [hys, List.length_append] at hlen
        cases a with
        | nil =>
            rw [List.append_nil]
            rw [List.nil_append] at hys
            exact ⟨n', h, hys ▸ Run.single hs⟩
        | cons x a =>
            have hnil : ys = [] := by
              refine List.length_eq_zero_iff.mp ?_
              rw [List.length_cons] at hlen
              omega
            subst hnil
            rw [List.append_nil] at hys
            exact ⟨n'', hys ▸ h.tail hs, .refl n''⟩
      · obtain ⟨m, hm, hrest⟩ := ih hxs
        exact ⟨m, hm, hrest.tail hs⟩

theorem markOf_signals {β : Type} (f : Shared) (i : Nat)
    (cmd : Cmd Database Write Generated MemOp ExtOp β) :
    (signals β f i cmd).filterMap markOf = marks β f i cmd := by
  have hmap : ∀ ms : List Mark, (ms.map (Signal.mark i)).filterMap markOf = ms := by
    intro ms
    rw [List.filterMap_map]
    exact List.filterMap_some
  unfold signals
  split
  · rw [marks]
    split <;> rfl
  · exact hmap _

/-- The threads of a network are threads, and nothing that they do is missing from the notes. -/
theorem Run.traced {n n' : Network} {zs : List Signal} (h : Run rt settings n zs n') :
    Traced (programs rt settings) marks n.threads (zs.filterMap markOf) n'.threads := by
  induction h with
  | refl => exact .refl _
  | tail _ hs ih =>
      rw [List.filterMap_append]
      refine ih.trans ?_
      cases hs with
      | turn h =>
          refine Traced.single ?_
          cases h with
          | start i proc p hi hp => exact .start _ i proc p hi hp
          | exec i cmd k b f hi he ha =>
              rw [markOf_signals]
              exact .exec _ i cmd k b f hi he trivial
          | close i hc => exact .close _ i trivial
      | publish i hi he =>
          have hstep : TracedStep (programs rt settings) marks _ _ _ :=
            .exec _ i _ _ _ _ hi he trivial
          rw [← markOf_signals] at hstep
          exact Traced.single hstep
      | stop i hi => exact Traced.single (.close _ i trivial)
      | receive p i hp hi => exact Traced.single (.start _ i p _ hi .rebuild)
      | rebuilt p i hp hi => exact .refl _
      | reconnect p hp => exact .refl _

/-! ## Who changes the rules -/

/-- The writes that can change what the rules are. -/
def defines : Write → Bool
  | .addAlertRule _ => true
  | .updateAlertRule _ _ => true
  | _ => false

/-- What the change of a row keeps, the change of the rows that are selected keeps. -/
theorem filter_map_updateWhere {α β : Type} {cond keep : α → Bool} {f : α → α} {key : α → β}
    (hkeep : ∀ a, keep (f a) = keep a) (hkey : ∀ a, key (f a) = key a) (rows : List α) :
    ((updateWhere cond f rows).filter keep).map key = (rows.filter keep).map key := by
  have hcond : ∀ a ∈ rows, (keep ∘ fun a => if cond a then f a else a) a = keep a := by
    intro a _
    rw [Function.comp_apply]
    split
    · exact hkeep a
    · rfl
  rw [updateWhere, List.filter_map, List.map_map, List.filter_congr hcond]
  refine List.map_congr_left ?_
  intro a _
  rw [Function.comp_apply]
  split
  · exact hkey a
  · rfl

/-- A transaction without such a write leaves the definitions. -/
theorem definitions_replay {db : Database} {log : List (Generated × Write)}
    (h : ∀ e ∈ log, defines e.2 = false) :
    definitions (backend.replay db log) = definitions db := by
  refine backend.replay_inv (P := fun db' : Database => definitions db' = definitions db) ?_ rfl
  rintro ⟨g, w⟩ he db' hdb
  have hw := h _ he
  cases w with
  | addAlertRule rule => cases hw
  | updateAlertRule ruleId changes => cases hw
  | setRuleLastFiredAt ruleId at_ =>
      refine (filter_map_updateWhere ?_ ?_ db'.alertRules).trans hdb
      · exact fun _ => rfl
      · exact fun _ => rfl
  | _ => exact hdb

/-- A command that stages no such write. -/
def plainCommand : ∀ β : Type, Cmd Database Write Generated MemOp ExtOp β → Prop
  | _, .write w => defines w = false
  | _, .insert w => defines w = false
  | _, _ => True

/-- The signal of a change. -/
def announces (settings : Settings) : ∀ β : Type, Cmd Database Write Generated MemOp ExtOp β → Prop
  | _, .ask (.publishInvalidation channel _) => channel = settings.ruleIndexInvalidationChannel
  | _, _ => False

/-- Unless it raises, the program sends the signal, before any further commit and as the
    last thing it does. -/
def Owes (settings : Settings) {α : Type} : Tx α → Prop
  | .done _ => False
  | .fail _ => True
  | .step cmd k =>
      (announces settings _ cmd ∧ ∀ b, ∃ a, k b = .done a)
        ∨ (cmd.isCommit = false ∧ ∀ b, Owes settings (k b))

/-- Whenever the program commits, it then owes the signal. -/
def Candid (settings : Settings) {α : Type} : Tx α → Prop
  | .done _ => True
  | .fail _ => True
  | .step cmd k =>
      (cmd.isCommit = true ∧ ∀ b, Owes settings (k b))
        ∨ (cmd.isCommit = false ∧ ∀ b, Candid settings (k b))

theorem Owes.thread {α : Type} {p : Tx α} (h : Owes settings p) : Owes settings (thread p) := by
  induction p with
  | done a => exact h
  | fail e => exact trivial
  | step cmd k ih =>
      rcases h with ⟨hcmd, hlast⟩ | ⟨hcmd, hk⟩
      · refine Or.inl ⟨hcmd, fun b => ⟨(), ?_⟩⟩
        obtain ⟨a, ha⟩ := hlast b
        show (k b >>= fun _ => pure ()) = Script.done ()
        rw [ha]
        rfl
      · exact Or.inr ⟨hcmd, fun b => ih b (hk b)⟩

theorem Candid.thread {α : Type} {p : Tx α} (h : Candid settings p) :
    Candid settings (thread p) := by
  induction p with
  | done a => exact trivial
  | fail e => exact trivial
  | step cmd k ih =>
      rcases h with ⟨hcmd, hk⟩ | ⟨hcmd, hk⟩
      · exact Or.inl ⟨hcmd, fun b => (hk b).thread⟩
      · exact Or.inr ⟨hcmd, fun b => ih b (hk b)⟩

theorem candid_commitRule (ruleId : Uuid) (done : String) :
    Candid settings (commitRule settings ruleId done) := by
  refine Or.inl ⟨rfl, fun _ => Or.inr ⟨rfl, fun row => ?_⟩⟩
  cases row with
  | none => exact trivial
  | some rule => exact Or.inl ⟨rfl, fun _ => ⟨_, rfl⟩⟩

theorem candid_createRule (body : CreateRuleRequest) :
    Candid settings (createRule settings body) := by
  refine Or.inr ⟨rfl, fun pair => ?_⟩
  cases pair with
  | none => exact trivial
  | some pair =>
      refine Or.inr ⟨rfl, fun user => ?_⟩
      cases user with
      | none => exact trivial
      | some user =>
          refine Or.inr ⟨rfl, fun ruleId => ?_⟩
          show Candid settings
            (addRule (body.rule ruleId) >>= fun _ => commitRule settings ruleId "created")
          rw [addRule]
          split
          · exact Or.inr ⟨rfl, fun _ => candid_commitRule ruleId "created"⟩
          · exact trivial

theorem candid_updateRule (ruleId : Uuid) (body : UpdateRuleRequest) :
    Candid settings (updateRule settings ruleId body) := by
  refine Or.inr ⟨rfl, fun loaded => ?_⟩
  cases loaded with
  | none => exact trivial
  | some rule =>
      show Candid settings (updateLoaded settings rule body)
      rw [updateLoaded]
      split
      · exact trivial
      · split
        · exact trivial
        · rw [flushRule]
          split
          · exact candid_commitRule rule.id "updated"
          · split
            · exact Or.inr ⟨rfl, fun _ => candid_commitRule rule.id "updated"⟩
            · exact trivial

theorem plainCommand_of_tickCommand {β : Type} {cmd : Cmd Database Write Generated MemOp ExtOp β}
    (h : tickCommand β cmd) : plainCommand β cmd := by
  cases cmd with
  | write w => cases w <;> first | rfl | exact h.elim
  | insert w => exact h.elim
  | _ => exact trivial

theorem plainCommand_of_batchCommand {β : Type} {cmd : Cmd Database Write Generated MemOp ExtOp β}
    (h : batchCommand β cmd) : plainCommand β cmd := by
  cases cmd with
  | write w => cases w <;> first | rfl | exact h.elim
  | insert w => cases w <;> first | rfl | exact h.elim
  | _ => exact trivial

theorem plainCommand_of_publishCommand {β : Type}
    {cmd : Cmd Database Write Generated MemOp ExtOp β} (h : publishCommand β cmd) :
    plainCommand β cmd := by
  cases cmd with
  | write w => cases w <;> first | rfl | exact h.elim
  | insert w => exact h.elim
  | _ => exact trivial

/-- What an open thread can still do about the rules: a request before its commit, a request
    that owes the signal, or a program that does not change what the rules are. -/
def Conduct (settings : Settings) (log : List (Generated × Write)) (p : Tx Unit) : Prop :=
  Candid settings p ∨ Owes settings p
    ∨ ((∀ e ∈ log, defines e.2 = false) ∧ p.Sat plainCommand (fun _ => True))

theorem Conduct.start {p : Tx Unit} (h : Program rt settings p) : Conduct settings [] p := by
  have hplain : ∀ {α : Type} {q : Tx α}, q.Sat plainCommand (fun _ => True) →
      Conduct settings [] (thread q) := by
    intro α q hq
    exact Or.inr (Or.inr ⟨fun _ he => absurd he List.not_mem_nil, hq.bind (fun _ _ => trivial)⟩)
  cases h with
  | post body => exact Or.inl (candid_createRule body).thread
  | patch ruleId body => exact Or.inl (candid_updateRule ruleId body).thread
  | tick =>
      exact hplain ((enqueueDuePairs_commands settings).mono
        (fun _ _ => plainCommand_of_tickCommand) (fun _ h => h))
  | batch messages =>
      exact hplain ((processBatch_commands rt settings messages).mono
        (fun _ _ => plainCommand_of_batchCommand) (fun _ h => h))
  | rebuild =>
      refine hplain ⟨trivial, fun rules => ?_⟩
      show (Tx.lift (bucketRules rules) >>= fun buckets => _).Sat plainCommand (fun _ => True)
      exact Script.Sat.bind (Script.Sat.lift (Q := fun _ => True) (fun _ _ => trivial))
        (fun _ _ => ⟨trivial, fun _ => trivial⟩)
  | publish topicArn scan =>
      exact hplain ((publishPending_commands settings topicArn scan).mono
        (fun _ _ => plainCommand_of_publishCommand) (fun _ h => h))

/-- One command of a thread: the next one is as it should be, and after a change of the
    rules the signal is owed. -/
theorem Conduct.exec {i : Nat} {f f' : Shared} {s : Session Generated Write} {β : Type}
    {cmd : Cmd Database Write Generated MemOp ExtOp β} {k : β → Tx Unit} {b : β}
    (hs : f.sessions i = some s) (h : Conduct settings s.log (.step cmd k))
    (he : Effect (programs rt settings) i f β cmd b f') :
    (∃ s', f'.sessions i = some s' ∧ Conduct settings s'.log (k b))
      ∧ (.mark i .redefine ∈ signals β f i cmd → Owes settings (k b)) := by
  have hopen := open_of_effect he
  have hcommit : .mark i .redefine ∈ signals β f i cmd → cmd.isCommit = true
      ∧ definitions (backend.replay f.db s.log) ≠ definitions f.db := by
    intro hmark
    cases cmd with
    | commit =>
        refine ⟨rfl, fun heq => ?_⟩
        simp [signals, marks, hs, heq] at hmark
    | mem m => cases m <;> simp [signals, marks, hs] at hmark
    | ask e => cases e <;> simp [signals, marks, hs] at hmark
    | _ => simp [signals, marks, hs] at hmark
  -- Only a commit that changes what the rules are is noted, so a step of another kind has
  -- nothing to show for the second half.
  rcases h with hcandid | howes | ⟨hlog, hsat⟩
  · obtain ⟨s', hs'⟩ := hopen
    rcases hcandid with ⟨-, hk⟩ | ⟨hcmd, hk⟩
    · exact ⟨⟨s', hs', Or.inr (Or.inl (hk b))⟩, fun _ => hk b⟩
    · refine ⟨⟨s', hs', Or.inl (hk b)⟩, ?_⟩
      intro hmark
      cases (hcommit hmark).1.symm.trans hcmd
  · obtain ⟨s', hs'⟩ := hopen
    rcases howes with ⟨hcmd, hlast⟩ | ⟨hcmd, hk⟩
    · refine ⟨⟨s', hs', Or.inl ?_⟩, ?_⟩
      · obtain ⟨a, ha⟩ := hlast b
        rw [ha]
        exact trivial
      · intro hmark
        cases cmd with
        | commit => exact hcmd.elim
        | _ => cases (hcommit hmark).1
    · refine ⟨⟨s', hs', Or.inr (Or.inl (hk b))⟩, ?_⟩
      intro hmark
      cases (hcommit hmark).1.symm.trans hcmd
  · refine ⟨?_, fun hmark => absurd (definitions_replay hlog) (hcommit hmark).2⟩
    have hnext : ∀ s', f'.sessions i = some s' → (∀ e ∈ s'.log, defines e.2 = false) →
        ∃ s', f'.sessions i = some s' ∧ Conduct settings s'.log (k b) :=
      fun s' hs' hlog' => ⟨s', hs', Or.inr (Or.inr ⟨hlog', hsat.2 b⟩)⟩
    have hstaged : ∀ g w, defines w = false → ∀ e ∈ s.log ++ [(g, w)], defines e.2 = false := by
      intro g w hw e he
      rcases List.mem_append.mp he with he | he
      · exact hlog e he
      · rw [List.mem_singleton.mp he]
        exact hw
    -- The third kind never commits a write of a definition: what it stages is none.
    obtain ⟨s₁, hs₁, he⟩ := he
    obtain rfl : s₁ = s := Option.some.inj (hs₁.symm.trans hs)
    cases cmd with
    | query q =>
        obtain ⟨-, rfl⟩ := he
        exact hnext s₁ hs₁ hlog
    | write w =>
        obtain ⟨g, -, rfl⟩ := he
        exact hnext _ (f.put_self i _) (hstaged g w hsat.1)
    | insert w =>
        cases b with
        | none =>
            obtain ⟨-, rfl⟩ := he
            exact hnext s₁ hs₁ hlog
        | some g =>
            obtain ⟨-, -, rfl⟩ := he
            exact hnext _ (f.put_self i _) (hstaged g w hsat.1)
    | commit =>
        obtain rfl := he
        exact hnext _ (f.put_self i _) (fun _ he => absurd he List.not_mem_nil)
    | mem m =>
        obtain ⟨-, rfl⟩ := he
        exact hnext s₁ hs₁ hlog
    | ask e =>
        obtain ⟨x, -, rfl⟩ := he
        exact hnext s₁ hs₁ hlog

/-! ## What a step is for one thread, and for one listener -/

/-- The thread a note is about. -/
def Signal.thread : Signal → Option Nat
  | .mark i _ => some i
  | .unsent i => some i
  | .sent i => some i
  | .heard i _ => some i
  | .stopped i => some i
  | .away _ => none

/-- A step as thread `i` has it. -/
inductive Fate (rt : Runtime) (settings : Settings) (i : Nat) (c : Threads) (ys : List Signal)
    (c' : Threads) : Prop where
  | idle (hs : c'.frame.sessions i = c.frame.sessions i) (hp : c'.prog i = c.prog i)
      (hys : ∀ y ∈ ys, y.thread ≠ some i)
  | start (proc : Nat) (hclosed : c.frame.sessions i = none)
      (hs : c'.frame.sessions i = some ⟨proc, []⟩) (hp : Program rt settings (c'.prog i))
      (hys : ∀ j m, .mark j m ∉ ys)
  | exec {β : Type} (cmd : Cmd Database Write Generated MemOp ExtOp β) (k : β → Tx Unit) (b : β)
      (hi : c.prog i = .step cmd k) (he : Effect (programs rt settings) i c.frame β cmd b c'.frame)
      (hp : c'.prog i = k b)
      (hys : ys = signals β c.frame i cmd ∨ (announces settings β cmd ∧ ys = [.sent i]))
  | close (hs : c'.frame.sessions i = none)
      (hys : (c.prog i = .done () ∧ ys = []) ∨ ys = [.stopped i])

theorem thread_signals {β : Type} {f : Shared} {i : Nat}
    {cmd : Cmd Database Write Generated MemOp ExtOp β} :
    ∀ y ∈ signals β f i cmd, y.thread = some i := by
  intro y hy
  unfold signals at hy
  split at hy
  · rw [List.mem_singleton.mp hy]
    rfl
  · obtain ⟨m, -, rfl⟩ := List.mem_map.mp hy
    rfl

theorem Fate.of_start {c : Threads} {ys : List Signal} (i : Nat) {j proc : Nat} {p : Tx Unit}
    (hclosed : c.frame.sessions j = none) (hp : Program rt settings p)
    (hmark : ∀ i m, .mark i m ∉ ys) (hys : ∀ y ∈ ys, y.thread = some j) :
    Fate rt settings i c ys
      ⟨c.frame.put j (some ⟨proc, []⟩), Function.update c.prog j p⟩ := by
  by_cases hij : i = j
  · subst hij
    refine .start proc hclosed (c.frame.put_self i _) ?_ hmark
    show Program rt settings (Function.update c.prog i p i)
    rwa [Function.update_self]
  · refine .idle (c.frame.put_of_ne hij _) (Function.update_of_ne hij ..) ?_
    intro y hy heq
    exact hij (Option.some.inj (heq.symm.trans (hys y hy)))

theorem Fate.of_exec {c : Threads} {ys : List Signal} (i : Nat) {j : Nat} {β : Type}
    {cmd : Cmd Database Write Generated MemOp ExtOp β} {k : β → Tx Unit} {b : β} {f : Shared}
    (hj : c.prog j = .step cmd k) (he : Effect (programs rt settings) j c.frame β cmd b f)
    (hys : ys = signals β c.frame j cmd ∨ (announces settings β cmd ∧ ys = [.sent j])) :
    Fate rt settings i c ys ⟨f, Function.update c.prog j (k b)⟩ := by
  by_cases hij : i = j
  · subst hij
    exact .exec cmd k b hj he (Function.update_self ..) hys
  · refine .idle (he.sessions_of_ne hij) (Function.update_of_ne hij ..) ?_
    intro y hy heq
    have hthread : y.thread = some j := by
      rcases hys with rfl | ⟨-, rfl⟩
      · exact thread_signals y hy
      · rw [List.mem_singleton.mp hy]
        rfl
    exact hij (Option.some.inj (heq.symm.trans hthread))

theorem Fate.of_close {c : Threads} {ys : List Signal} (i : Nat) {j : Nat}
    (hys : (c.prog j = .done () ∧ ys = []) ∨ ys = [.stopped j]) :
    Fate rt settings i c ys ⟨c.frame.put j none, c.prog⟩ := by
  by_cases hij : i = j
  · subst hij
    exact .close (c.frame.put_self i _) hys
  · refine .idle (c.frame.put_of_ne hij _) rfl ?_
    intro y hy heq
    rcases hys with ⟨-, rfl⟩ | rfl
    · exact absurd hy List.not_mem_nil
    · rw [List.mem_singleton.mp hy] at heq
      exact hij (Option.some.inj heq).symm

theorem NetStep.fate {n n' : Network} {ys : List Signal} (h : NetStep rt settings n ys n')
    (i : Nat) : Fate rt settings i n.threads ys n'.threads := by
  cases h with
  | turn h =>
      cases h with
      | start j proc p hj hp =>
          exact .of_start i hj hp (fun _ _ => List.not_mem_nil)
            (fun y hy => absurd hy List.not_mem_nil)
      | exec j cmd k b f hj he ha => exact .of_exec i hj he (Or.inl rfl)
      | close j hc => exact .of_close i (Or.inl ⟨hc, rfl⟩)
  | publish j hj he => exact .of_exec i hj he (Or.inr ⟨rfl, rfl⟩)
  | stop j hj => exact .of_close i (Or.inr rfl)
  | receive p j hp hj =>
      refine .of_start i hj .rebuild ?_ ?_
      · intro j m hmark
        cases List.mem_singleton.mp hmark
      · intro y hy
        rw [List.mem_singleton.mp hy]
        rfl
  | rebuilt p j hp hj => exact .idle rfl rfl (fun y hy => absurd hy List.not_mem_nil)
  | reconnect p hp =>
      refine .idle rfl rfl ?_
      intro y hy heq
      rw [List.mem_singleton.mp hy] at heq
      cases heq

/-- A step as the listener of `p` has it, which is at its messages. -/
theorem NetStep.listener_cases {n n' : Network} {ys : List Signal} {p : Nat}
    (h : NetStep rt settings n ys n') (hnear : .away p ∉ ys) :
    ((n'.listener p).inbox = (n.listener p).inbox
        ∧ ((n'.listener p).stage = (n.listener p).stage
          ∨ ∃ i, (n.listener p).stage = .rebuilding i ∧ n.threads.frame.sessions i = none)
        ∧ (∀ i, .sent i ∉ ys) ∧ ∀ i, .heard i p ∉ ys)
      ∨ (∃ i, ys = [.sent i] ∧ n'.listener p = (n.listener p).deliver "invalidate")
      ∨ ∃ i message rest, ys = [.heard i p]
          ∧ n.listener p = ⟨.polling, some (message :: rest)⟩
          ∧ n'.listener p = ⟨.rebuilding i, some rest⟩
          ∧ n'.threads.frame.sessions i = some ⟨p, []⟩ ∧ n'.threads.prog i = thread rebuild := by
  cases h with
  | turn h =>
      refine Or.inl ⟨rfl, Or.inl rfl, ?_, ?_⟩
      · intro i hsent
        cases h with
        | start j proc q hj hq => exact absurd hsent List.not_mem_nil
        | exec j cmd k b f hj he ha =>
            unfold signals at hsent
            split at hsent <;> simp at hsent
        | close j hc => exact absurd hsent List.not_mem_nil
      · intro i hheard
        cases h with
        | start j proc q hj hq => exact absurd hheard List.not_mem_nil
        | exec j cmd k b f hj he ha =>
            unfold signals at hheard
            split at hheard <;> simp at hheard
        | close j hc => exact absurd hheard List.not_mem_nil
  | publish j hj he => exact Or.inr (Or.inl ⟨j, rfl, rfl⟩)
  | stop j hj => exact Or.inl ⟨rfl, Or.inl rfl, by simp, by simp⟩
  | @receive q j message rest hq hj =>
      -- The signal names the listener that took it; the others stay as they were.
      by_cases hpq : p = q
      · subst hpq
        exact Or.inr (Or.inr ⟨j, message, rest, rfl, hq, Function.update_self ..,
          n.threads.frame.put_self j _, Function.update_self ..⟩)
      · have hsame : Function.update n.listener q ⟨.rebuilding j, some rest⟩ p = n.listener p :=
          Function.update_of_ne hpq ..
        refine Or.inl ⟨congrArg Subscriber.inbox hsame, Or.inl (congrArg Subscriber.stage hsame),
          by simp, ?_⟩
        intro i hheard
        exact hpq (Signal.heard.inj (List.mem_singleton.mp hheard)).2
  | rebuilt q j hq hj =>
      by_cases hpq : p = q
      · subst hpq
        have hself : (n.setListener p ⟨.polling, (n.listener p).inbox⟩).listener p
            = ⟨.polling, (n.listener p).inbox⟩ := Function.update_self ..
        rw [hself]
        exact Or.inl ⟨rfl, Or.inr ⟨j, hq, hj⟩, by simp, by simp⟩
      · have hsame : (n.setListener q ⟨.polling, (n.listener q).inbox⟩).listener p
            = n.listener p := Function.update_of_ne hpq ..
        rw [hsame]
        exact Or.inl ⟨rfl, Or.inl rfl, by simp, by simp⟩
  | @reconnect q l hq =>
      have hpq : p ≠ q := by
        rintro rfl
        exact hnear List.mem_cons_self
      have hsame : (n.setListener q l).listener p = n.listener p := Function.update_of_ne hpq ..
      rw [hsame]
      exact Or.inl ⟨rfl, Or.inl rfl, by simp, by simp⟩

/-! ## From the commit to the signal -/

theorem conduct_of_run {n n' : Network} {zs : List Signal} (h : Run rt settings n zs n')
    (hclosed : ∀ i, n.threads.frame.sessions i = none) :
    ∀ i s, n'.threads.frame.sessions i = some s →
      Conduct settings s.log (n'.threads.prog i) := by
  induction h with
  | refl =>
      intro i s hs
      cases (hclosed i).symm.trans hs
  | tail _ hstep ih =>
      intro i s hs
      cases hstep.fate i with
      | idle hsame hp hys =>
          rw [hp]
          exact ih i s (hsame.symm.trans hs)
      | start proc hc hopen hp hys =>
          obtain rfl := Option.some.inj (hopen.symm.trans hs)
          exact Conduct.start hp
      | exec cmd k b hi he hp hys =>
          obtain ⟨s₀, hs₀, -⟩ := he.frame_cases
          have hconduct := ih i s₀ hs₀
          rw [hi] at hconduct
          obtain ⟨⟨s', hs', hnext⟩, -⟩ := hconduct.exec hs₀ he
          obtain rfl := Option.some.inj (hs'.symm.trans hs)
          rw [hp]
          exact hnext
      | close hnone hys => cases hnone.symm.trans hs

/-- A thread that has changed the rules has sent the signal or lost it, or it was stopped,
    or it still owes the signal. -/
def Announced (settings : Settings) (c : Threads) (x : Signal) (r : List Signal) : Prop :=
  ∀ i, x = .mark i .redefine → .sent i ∈ r ∨ .unsent i ∈ r ∨ .stopped i ∈ r
    ∨ (∃ s, c.frame.sessions i = some s) ∧ Owes settings (c.prog i)

theorem Announced.step {c c' : Threads} {ys : List Signal} {x : Signal} {r : List Signal}
    (h : Announced settings c x r) (hfate : ∀ i, Fate rt settings i c ys c') :
    Announced settings c' x (r ++ ys) := by
  intro i hx
  rcases h i hx with hsent | hunsent | hstopped | ⟨⟨s, hs⟩, howes⟩
  · exact Or.inl (List.mem_append_left _ hsent)
  · exact Or.inr (Or.inl (List.mem_append_left _ hunsent))
  · exact Or.inr (Or.inr (Or.inl (List.mem_append_left _ hstopped)))
  · cases hfate i with
    | idle hsame hp hys =>
        rw [← hp] at howes
        exact Or.inr (Or.inr (Or.inr ⟨⟨s, hsame.trans hs⟩, howes⟩))
    | start proc hc hopen hp hys => cases hc.symm.trans hs
    | exec cmd k b hi he hp hys =>
        rcases hys with rfl | ⟨-, rfl⟩
        · rw [hi] at howes
          rcases howes with ⟨hcmd, -⟩ | ⟨-, hk⟩
          · -- It sends the signal now, and nobody takes it.
            have hlost : .unsent i ∈ signals _ c.frame i cmd := by
              cases cmd with
              | ask e =>
                  cases e with
                  | publishInvalidation channel reason => exact List.mem_cons_self
                  | _ => exact hcmd.elim
              | _ => exact hcmd.elim
            exact Or.inr (Or.inl (List.mem_append_right _ hlost))
          · rw [hp]
            exact Or.inr (Or.inr (Or.inr ⟨open_of_effect he, hk b⟩))
        · exact Or.inl (List.mem_append_right _ List.mem_cons_self)
    | close hnone hys =>
        rcases hys with ⟨hdone, -⟩ | rfl
        · rw [hdone] at howes
          exact howes.elim
        · exact Or.inr (Or.inr (Or.inl (List.mem_append_right _ List.mem_cons_self)))

theorem announced_of_run {n₀ n n' : Network} {earlier zs : List Signal}
    (h₀ : Run rt settings n₀ earlier n) (hclosed : ∀ i, n₀.threads.frame.sessions i = none)
    (h : Run rt settings n zs n') : Since (Announced settings n'.threads) zs := by
  induction h with
  | refl => exact Since.nil _
  | @tail n' n'' xs ys h hstep ih =>
      refine ih.append (fun x r hx => hx.step hstep.fate) ?_
      refine Since.of_length_le_one hstep.length_le ?_
      rintro y hy i rfl
      cases hstep.fate i with
      | idle hsame hp hys => exact absurd rfl (hys _ hy)
      | start proc hc hopen hp hys => exact absurd hy (hys i _)
      | exec cmd k b hi he hp hys =>
          rcases hys with rfl | ⟨-, rfl⟩
          · obtain ⟨s, hs, -⟩ := he.frame_cases
            have hconduct := conduct_of_run (h₀.trans h) hclosed i s hs
            rw [hi] at hconduct
            rw [hp]
            exact Or.inr (Or.inr (Or.inr ⟨open_of_effect he, (hconduct.exec hs he).2 hy⟩))
          · cases List.mem_singleton.mp hy
      | close hnone hys =>
          rcases hys with ⟨-, rfl⟩ | rfl
          · exact absurd hy List.not_mem_nil
          · cases List.mem_singleton.mp hy

/-! ## From the signal to the message -/

/-- What was sent has been received, or the inbox is not empty. -/
theorem heard_of_sent {n n' : Network} {zs : List Signal} {p : Nat}
    (h : Run rt settings n zs n') (hnear : .away p ∉ zs) :
    Since (fun x r => ∀ i, x = .sent i →
      (∃ j, .heard j p ∈ r) ∨ (n'.listener p).inbox ≠ some []) zs := by
  induction h with
  | refl => exact Since.nil _
  | @tail n' n'' xs ys h hstep ih =>
      rw [List.mem_append, not_or] at hnear
      rcases hstep.listener_cases hnear.2 with
        ⟨hinbox, -, hnone, -⟩ | ⟨i, rfl, hl⟩ | ⟨j, message, rest, rfl, -, -, -, -⟩
      · rw [hinbox]
        refine (ih hnear.1).append ?_ ?_
        · intro x r hx i hi
          rcases hx i hi with ⟨j, hj⟩ | hfull
          · exact Or.inl ⟨j, List.mem_append_left _ hj⟩
          · exact Or.inr hfull
        · refine Since.of_length_le_one hstep.length_le ?_
          rintro y hy i rfl
          exact absurd hy (hnone i)
      · have hfull : (n''.listener p).inbox ≠ some [] := by
          rw [hl, Subscriber.deliver]
          cases (n'.listener p).inbox with
          | none => exact nofun
          | some messages => simp
        refine (ih hnear.1).append (fun x r _ i _ => Or.inr hfull) ?_
        exact Since.of_length_le_one hstep.length_le (fun y _ i _ => Or.inr hfull)
      · refine (ih hnear.1).append ?_ ?_
        · intro x r _ i _
          exact Or.inl ⟨j, List.mem_append_right _ List.mem_cons_self⟩
        · refine Since.of_length_le_one hstep.length_le ?_
          rintro y hy i rfl
          cases List.mem_singleton.mp hy

/-! ## From the message to the index -/

/-- The rebuild that the listener of `p` awaits has not swapped yet. -/
def Awaited (p i : Nat) (n : Network) : Prop :=
  (n.listener p).stage = .rebuilding i
    ∧ ∃ s, n.threads.frame.sessions i = some s ∧ s.proc = p
      ∧ (n.threads.prog i = thread rebuild ∨ ∃ rules, n.threads.prog i = installing rules)

theorem installing_ne_done (rules : List AlertRule) : installing rules ≠ .done () := by
  intro h
  rw [installing] at h
  cases hb : bucketRules rules with
  | error e =>
      rw [hb] at h
      cases h
  | ok buckets =>
      rw [hb] at h
      cases h

theorem Awaited.step {p i : Nat} {n n' : Network} {ys : List Signal} (h : Awaited p i n)
    (hs : NetStep rt settings n ys n') (hnear : .away p ∉ ys) :
    .mark i (.swap i p) ∈ ys ∨ .stopped i ∈ ys ∨ Awaited p i n' := by
  obtain ⟨hstage, s, hopen, hproc, hprog⟩ := h
  -- While its session is open the listener does not go on.
  have hstage' : (n'.listener p).stage = .rebuilding i := by
    rcases hs.listener_cases hnear with
      ⟨-, hsame | ⟨j, hj, hclosed⟩, -, -⟩ | ⟨j, -, hl⟩ | ⟨j, message, rest, -, hl, -, -, -⟩
    · exact hsame.trans hstage
    · obtain rfl := Stage.rebuilding.inj (hstage.symm.trans hj)
      cases hclosed.symm.trans hopen
    · rw [hl]
      exact hstage
    · rw [hl] at hstage
      cases hstage
  cases hs.fate i with
  | idle hsame hp hys =>
      refine Or.inr (Or.inr ⟨hstage', s, hsame.trans hopen, hproc, ?_⟩)
      rwa [hp]
  | start proc hc hopen' hp hys => cases hc.symm.trans hopen
  | close hnone hys =>
      rcases hys with ⟨hdone, -⟩ | rfl
      · rcases hprog with hprog | ⟨rules, hprog⟩
        · cases hprog.symm.trans hdone
        · exact absurd (hprog.symm.trans hdone) (installing_ne_done rules)
      · exact Or.inr (Or.inl List.mem_cons_self)
  | exec cmd k b hi he hp hys =>
      rcases hprog with hprog | ⟨rules, hprog⟩
      · -- The SELECT.
        rw [hprog] at hi
        cases hi
        obtain ⟨s₁, hs₁, -, hframe⟩ := he
        obtain rfl := Option.some.inj (hs₁.symm.trans hopen)
        refine Or.inr (Or.inr ⟨hstage', s₁, ?_, hproc, Or.inr ⟨_, hp⟩⟩)
        rw [hframe]
        exact hs₁
      · -- The swap.
        rw [hprog, installing] at hi
        cases hb : bucketRules rules with
        | error e =>
            rw [hb] at hi
            cases hi
        | ok buckets =>
            rw [hb] at hi
            cases hi
            rcases hys with rfl | ⟨hcmd, -⟩
            · refine Or.inl ?_
              simp [signals, marks, hopen, hproc]
            · exact hcmd.elim

theorem swapped_of_heard {n n' : Network} {zs : List Signal} {p : Nat}
    (h : Run rt settings n zs n') (hnear : .away p ∉ zs) :
    Since (fun x r => ∀ i, x = .heard i p →
      .mark i (.swap i p) ∈ r ∨ .stopped i ∈ r ∨ Awaited p i n') zs := by
  induction h with
  | refl => exact Since.nil _
  | @tail n' n'' xs ys h hstep ih =>
      rw [List.mem_append, not_or] at hnear
      refine (ih hnear.1).append ?_ ?_
      · intro x r hx i hi
        rcases hx i hi with hswap | hstopped | hawaited
        · exact Or.inl (List.mem_append_left _ hswap)
        · exact Or.inr (Or.inl (List.mem_append_left _ hstopped))
        · refine (hawaited.step hstep hnear.2).imp (List.mem_append_right _) ?_
          exact Or.imp (List.mem_append_right _) id
      · refine Since.of_length_le_one hstep.length_le ?_
        rintro y hy i rfl
        rcases hstep.listener_cases hnear.2 with
          ⟨-, -, -, hnone⟩ | ⟨j, rfl, -⟩ | ⟨j, message, rest, rfl, -, hl, hs, hp⟩
        · exact absurd hy (hnone i)
        · cases List.mem_singleton.mp hy
        · obtain ⟨rfl, -⟩ := Signal.heard.inj (List.mem_singleton.mp hy)
          exact Or.inr (Or.inr ⟨congrArg Subscriber.stage hl, _, hs, rfl, Or.inl hp⟩)

/-! ## The protocol -/

section Protocol

variable {n₀ n n' : Network} {earlier zs : List Signal} {p : Nat}

/-- After the last change of the rules its signal is received, and the rebuild it sets off
    swaps its index in. -/
theorem swapped_after_last (h₀ : Run rt settings n₀ earlier n)
    (hclosed : ∀ i, n₀.threads.frame.sessions i = none) (h : Run rt settings n zs n')
    (hnear : .away p ∉ zs) (hchanged : ∃ i, .mark i .redefine ∈ zs)
    (hsent : ∀ i, .mark i .redefine ∈ zs →
      .stopped i ∉ zs ∧ .unsent i ∉ zs ∧ n'.threads.frame.sessions i = none)
    (hrebuilt : ∀ i, .heard i p ∈ zs → .stopped i ∉ zs)
    (hidle : n'.listener p = ⟨.polling, some []⟩) :
    ∃ q j r, zs = q ++ .heard j p :: r ∧ .mark j (.swap j p) ∈ r
      ∧ ∀ i, .mark i .redefine ∉ r := by
  obtain ⟨i, hi⟩ := hchanged
  obtain ⟨q, x, r, rfl, ⟨i, rfl⟩, hlast⟩ :=
    exists_last (P := fun x => ∃ i, x = Signal.mark i .redefine) ⟨_, hi, i, rfl⟩
  obtain ⟨hstopped, hunsent, hover⟩ := hsent i (List.mem_append_right q List.mem_cons_self)
  have hin : ∀ {y}, y ∈ r → y ∈ q ++ .mark i .redefine :: r :=
    fun hy => List.mem_append_right q (List.mem_cons_of_mem _ hy)
  -- The signal.
  have hsignal : .sent i ∈ r := by
    rcases announced_of_run h₀ hclosed h q _ r rfl i rfl with hs | hs | hs | ⟨⟨s, hs⟩, -⟩
    · exact hs
    · exact absurd (hin hs) hunsent
    · exact absurd (hin hs) hstopped
    · cases hover.symm.trans hs
  obtain ⟨q₁, r₁, rfl⟩ := List.append_of_mem hsignal
  -- The message.
  obtain ⟨j, hj⟩ : ∃ j, .heard j p ∈ r₁ := by
    refine (heard_of_sent h hnear (q ++ .mark i .redefine :: q₁) _ r₁ ?_ i rfl).resolve_right ?_
    · rw [List.append_assoc, List.cons_append]
    · rw [hidle]
      exact not_not_intro rfl
  obtain ⟨q₂, r₂, rfl⟩ := List.append_of_mem hj
  -- The swap.
  have hlater : ∀ {y}, y ∈ r₂ → y ∈ q₁ ++ .sent i :: (q₂ ++ .heard j p :: r₂) := by
    intro y hy
    exact List.mem_append_right q₁ (List.mem_cons_of_mem _
      (List.mem_append_right q₂ (List.mem_cons_of_mem _ hy)))
  have hcut : q ++ .mark i .redefine :: (q₁ ++ .sent i :: (q₂ ++ .heard j p :: r₂))
      = (q ++ .mark i .redefine :: (q₁ ++ .sent i :: q₂)) ++ .heard j p :: r₂ := by
    rw [List.append_assoc, List.cons_append, List.append_assoc, List.cons_append]
  refine ⟨_, j, r₂, hcut, ?_, fun t ht => hlast _ (hlater ht) ⟨t, rfl⟩⟩
  rcases swapped_of_heard h hnear _ _ r₂ hcut j rfl with hs | hs | ⟨hstage, -⟩
  · exact hs
  · refine absurd (hin (hlater hs)) (hrebuilt j ?_)
    rw [hcut]
    exact List.mem_append_right _ List.mem_cons_self
  · rw [hidle] at hstage
    cases hstage

/-- While the listener of a process stays subscribed: once every request that changed the
    rules has ended and every message is worked off, the index of the process is that of
    the tables.  No such request is to be stopped before Redis takes its signal, nor a
    rebuild of the listener before its end, and once that has begun, no other rebuild may
    swap in what it had selected before. -/
theorem index_of_heard (h₀ : Run rt settings n₀ earlier n)
    (hclosed : ∀ i, n₀.threads.frame.sessions i = none) (h : Run rt settings n zs n')
    (hnear : .away p ∉ zs) (hchanged : ∃ i, .mark i .redefine ∈ zs)
    (hsent : ∀ i, .mark i .redefine ∈ zs →
      .stopped i ∉ zs ∧ .unsent i ∉ zs ∧ n'.threads.frame.sessions i = none)
    (hrebuilt : ∀ i, .heard i p ∈ zs → .stopped i ∉ zs)
    (horder : ∀ q i r, zs = q ++ .heard i p :: r → Timely p (r.filterMap markOf))
    (hidle : n'.listener p = ⟨.polling, some []⟩) :
    Holds (definitions n'.threads.frame.db) (n'.threads.frame.mem p) := by
  obtain ⟨q, j, r, rfl, hswap, hquiet⟩ :=
    swapped_after_last h₀ hclosed h hnear hchanged hsent hrebuilt hidle
  -- From the message on, the rules stay as they are.
  obtain ⟨m, hm, hrest⟩ := h.split (List.append_cons q _ r)
  refine index_of_settled (h₀.trans hm).traced.reaches hclosed hrest.traced ?_
    (horder q j r rfl) ⟨j, List.mem_filterMap.mpr ⟨_, hswap, rfl⟩⟩
  intro hredefine
  obtain ⟨y, hy, hmark⟩ := List.mem_filterMap.mp hredefine
  cases y with
  | mark t m =>
      obtain rfl := Option.some.inj hmark
      exact hquiet t hy
  | _ => cases hmark

end Protocol

/-! ### A threshold that is moved -/

theorem Run.of_traced {n : Network} {c c' : Threads} {zs : List Signal}
    (h : Traced (finishing rt settings) signals c zs c') (hc : n.threads = c) :
    Run rt settings n zs { n with threads := c' } := by
  subst hc
  induction h with
  | refl => exact .refl n
  | tail _ hs ih => exact ih.tail (.turn _ hs)

/-- The listener of process 0 is subscribed. -/
def subscribed : Network :=
  (⟨enabledStart, fun _ => {}⟩ : Network).setListener 0 ⟨.polling, some []⟩

/-- The request has committed, and is about to publish. -/
def committed : Threads :=
  (play backend isolated signals [.start 1 1 move, .run 1 4] enabledStart).1

/-- It has published, and is over. -/
def published : Network :=
  ⟨⟨committed.frame, Function.update committed.prog 1 (.done ())⟩,
    fun p => (subscribed.listener p).deliver "invalidate"⟩

/-- The listener has the message. -/
def received : Network :=
  ⟨⟨(published.threads.frame.put 1 none).put 0 (some ⟨0, []⟩),
      Function.update published.threads.prog 0 (thread rebuild)⟩,
    Function.update published.listener 0 ⟨.rebuilding 0, some []⟩⟩

/-- The listener has rebuilt the index. -/
def reloaded : Network :=
  { received with
    threads := (play backend isolated signals [.run 0 20, .stop 0] received.threads).1 }

/-- It waits for the next message. -/
def idle : Network := reloaded.setListener 0 ⟨.polling, some []⟩

theorem run_idle : Run Runtime.rational {} subscribed
    ([.mark 1 (.read 1), .mark 1 .redefine, .mark 1 (.read 1), .sent 1]
      ++ .heard 0 0 :: [.mark 0 (.read 0), .mark 0 (.swap 0 0)]) idle := by
  have hcommitted : Run Runtime.rational {} subscribed
      (play backend isolated signals [.start 1 1 move, .run 1 4] enabledStart).2
      { subscribed with threads := committed } :=
    Run.of_traced (traced_play [0, 1] answers_isolated (fun _ _ _ _ _ => trivial) (fun _ _ => rfl)
      (by decide +kernel) ⟨.patch _ _, trivial⟩) rfl
  -- The PATCH has committed and owes its signal; it sends it and ends.
  have hnext : committed.prog 1 = .step (.ask (.publishInvalidation
      (Settings.ruleIndexInvalidationChannel {}) ("rule " ++ uuidStr 7 ++ " updated")))
        (fun _ => .done ()) := by with_unfolding_all rfl
  have heffect : Effect (programs Runtime.rational {}) 1 committed.frame (Option Nat)
      (.ask (.publishInvalidation (Settings.ruleIndexInvalidationChannel {})
        ("rule " ++ uuidStr 7 ++ " updated"))) (some 1) committed.frame :=
    ⟨⟨1, []⟩, by with_unfolding_all rfl, committed.frame.ext, rfl, rfl⟩
  have hpublished : NetStep Runtime.rational {} { subscribed with threads := committed } [.sent 1]
      published := (NetStep.publish { subscribed with threads := committed } 1 hnext heffect :)
  have hstopped : NetStep Runtime.rational {} published []
      { published with threads := ⟨published.threads.frame.put 1 none, published.threads.prog⟩ } :=
    .turn _ (.close _ 1 rfl)
  -- The listener takes the signal, and rebuilds the index.
  have hreceived : NetStep Runtime.rational {}
      { published with threads := ⟨published.threads.frame.put 1 none, published.threads.prog⟩ }
      [.heard 0 0] received := .receive _ 0 0 rfl (by with_unfolding_all rfl)
  have hothers : ∀ j, j ∉ [0, 1] → received.threads.frame.sessions j = none := by
    intro j hj
    have hcommitted : committed.frame.sessions j = none :=
      play_closed (fun _ _ => rfl) (by decide +kernel) j hj
    rw [List.mem_cons, List.mem_singleton, not_or] at hj
    exact (Frame.put_of_ne _ hj.1 _).trans ((Frame.put_of_ne _ hj.2 _).trans hcommitted)
  have hreloaded : Run Runtime.rational {} received
      (play backend isolated signals [.run 0 20, .stop 0] received.threads).2 reloaded :=
    Run.of_traced (traced_play [0, 1] answers_isolated (fun _ _ _ _ _ => trivial) hothers
      (by decide +kernel) ⟨by with_unfolding_all rfl, trivial⟩) rfl
  have hrebuilt : NetStep Runtime.rational {} reloaded [] idle :=
    .rebuilt _ 0 0 rfl (by with_unfolding_all rfl)
  have hrun := hcommitted.trans ((Run.single hpublished).trans ((Run.single hstopped).trans
    ((Run.single hreceived).trans (hreloaded.trans (Run.single hrebuilt)))))
  have hnotes : (play backend isolated signals [.start 1 1 move, .run 1 4] enabledStart).2
      = [.mark 1 (.read 1), .mark 1 .redefine, .mark 1 (.read 1)] := by decide +kernel
  have hnotes' : (play backend isolated signals [.run 0 20, .stop 0] received.threads).2
      = [.mark 0 (.read 0), .mark 0 (.swap 0 0)] := by decide +kernel
  rw [hnotes, hnotes'] at hrun
  exact hrun

theorem index_of_heard_moved :
    (definitions idle.threads.frame.db).map AlertRule.threshold = [some ⟨false, 6000000000, -8⟩]
      ∧ Holds (definitions idle.threads.frame.db) (idle.threads.frame.mem 0) := by
  refine ⟨by decide +kernel, ?_⟩
  have hsubscribed : Run Runtime.rational {} ⟨enabledStart, fun _ => {}⟩ [.away 0] subscribed :=
    Run.single (.reconnect _ 0 (.subscribed none))
  refine index_of_heard hsubscribed (fun _ => rfl) run_idle (by decide) ⟨1, by decide⟩ ?_
    (fun i _ => by simp) ?_ rfl
  · intro i hi
    obtain rfl : i = 1 := by simpa using hi
    exact ⟨by decide, by decide, by with_unfolding_all rfl⟩
  · intro q i r heq q' j r' hswap
    obtain ⟨-, -, rfl⟩ := (List.append_cons_inj_of_notMem (by simp) (by simp)).mp heq
    have hcut : [Mark.read 0] ++ .swap 0 0 :: [] = q' ++ .swap j 0 :: r' := hswap
    obtain ⟨rfl, hone, -⟩ := (List.append_cons_inj_of_notMem (by simp) (by simp)).mp hcut
    rw [(Mark.swap.inj hone).1]
    exact List.mem_cons_self

end Dropwatch.Listener
