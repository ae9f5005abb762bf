import Dropwatch.IntegrityProofs
import Dropwatch.RefreshProofs

/-! # The index settles

    A slow rebuild can put an older index back, so at no moment of a run does an index have
    to be that of the tables.  But from when the definitions of the rules stay as they are,
    a process that swaps in what it has selected since then has exactly the enabled rules,
    and still has them whatever fires, is polled, claimed or published, as long as it does
    not swap in what it selected earlier. -/

namespace Dropwatch.Convergence

open Transact RuleIndex Evaluator Poller Publisher Scheduler RulesApi Workers Refresh Integrity

/-- A rule without the time it fired last. -/
def definition (r : AlertRule) : AlertRule := { r with lastFiredAt := none }

/-- The enabled rules as they are defined. -/
def definitions (db : Database) : List AlertRule := (enabledRules db).map definition

/-- What is noted down of a run: a SELECT, a swap of the index of a process, and a commit
    that changes what the rules are. -/
inductive Mark where
  | read (thread : Nat)
  | swap (thread proc : Nat)
  | redefine
  deriving DecidableEq

def marks : Observer Database Write Generated Memory World MemOp ExtOp Mark := fun _ f i cmd =>
  match f.sessions i with
  | none => []
  | some s =>
      match cmd with
      | .query _ => [.read i]
      | .mem (.install _ _) => [.swap i s.proc]
      | .commit => if definitions (backend.replay f.db s.log) = definitions f.db then [] else [.redefine]
      | _ => []

/-- The index has the rules `rules`, each with its pair, and no others. -/
def Holds (rules : List AlertRule) (m : Memory) : Prop :=
  ∀ pairId, ((m.rulesForPair pairId).all.map definition).Perm
    (rules.filter (fun r => r.pairId == pairId))

/-- Whoever swapped in an index of the process has selected the rules since the start of
    the run. -/
def Timely (proc : Nat) (ys : List Mark) : Prop :=
  ∀ q i r, ys = q ++ .swap i proc :: r → .read i ∈ q

theorem Timely.of_append {proc : Nat} {ys zs : List Mark} (h : Timely proc (ys ++ zs)) :
    Timely proc ys := by
  rintro q i r rfl
  refine h q i (r ++ zs) ?_
  rw [List.append_assoc, List.cons_append]

/-- What was selected is what is loaded. -/
theorem holds_install {rules defs : List AlertRule} {buckets : Dict Uuid PairRules}
    (hb : bucketRules rules = .ok buckets) (h : rules.map definition = defs) (m : Memory) :
    Holds defs (m.install rules buckets) := by
  intro pairId
  have hperm : (((m.install rules buckets).rulesForPair pairId).all).Perm
      (rules.filter (fun r => r.pairId == pairId)) := by
    rw [m.rulesForPair_install hb]
    exact (bucketOf rules pairId).all_sorted_perm.trans (all_bucketOf_perm rules pairId)
  rw [← h, List.filter_map]
  exact hperm.map definition

/-! ## Who installs -/

theorem leaves_enqueueDuePairs (settings : Settings) : Leaves (enqueueDuePairs settings) := by
  refine (enqueueDuePairs_commands settings).mono ?_ (fun _ h => h)
  intro β cmd hcmd
  cases cmd with
  | mem m => exact hcmd.elim
  | _ => exact trivial

theorem leaves_publishPending (settings : Settings) (topicArn : String) (scan : Scan) :
    Leaves (publishPending settings topicArn scan) := by
  refine (publishPending_commands settings topicArn scan).mono ?_ (fun _ h => h)
  intro β cmd hcmd
  cases cmd with
  | mem m => exact hcmd.elim
  | _ => exact trivial

/-- Of the programs only the rebuild installs an index. -/
theorem Program.cases_rebuild {rt : Runtime} {settings : Settings} {p : Tx Unit}
    (h : Program rt settings p) : p = thread rebuild ∨ Leaves p := by
  cases h with
  | post body => exact Or.inr ((createRule_leaves settings body).bind (fun _ _ => trivial))
  | patch ruleId body =>
      exact Or.inr ((updateRule_leaves settings ruleId body).bind (fun _ _ => trivial))
  | tick => exact Or.inr ((leaves_enqueueDuePairs settings).bind (fun _ _ => trivial))
  | batch messages => exact Or.inr (writer_leaves (Or.inr (Or.inr ⟨messages, rfl⟩)))
  | rebuild => exact Or.inl rfl
  | publish topicArn scan =>
      exact Or.inr ((leaves_publishPending settings topicArn scan).bind (fun _ _ => trivial))

/-- What a thread still has to do: a rebuild that has written nothing, before its SELECT or
    on rules that satisfy `P`, or a program that installs nothing. -/
def Stance (P : List AlertRule → Prop) (log : List (Generated × Write)) (p : Tx Unit) : Prop :=
  (log = [] ∧ (p = thread rebuild ∨ ∃ rules, P rules ∧ p = installing rules)) ∨ Leaves p

section Run

variable {rt : Runtime} {settings : Settings}

/-- The programs start so. -/
theorem Stance.start {P : List AlertRule → Prop} {p : Tx Unit} (h : Program rt settings p) :
    Stance P [] p := by
  rcases Program.cases_rebuild h with rfl | hleaves
  · exact Or.inl ⟨rfl, Or.inl rfl⟩
  · exact Or.inr hleaves

/-- A session that issues a command stays open. -/
theorem open_of_effect {i : Nat} {f f' : Shared} {β : Type}
    {cmd : Cmd Database Write Generated MemOp ExtOp β} {b : β}
    (he : Effect (programs rt settings) i f β cmd b f') : ∃ s', f'.sessions i = some s' := by
  obtain ⟨s, hs, heq | ⟨e, -, heq⟩ | heq | ⟨m, heq⟩ | ⟨_, _, _, x, -, heq⟩⟩ := he.frame_cases
  · exact ⟨s, heq ▸ hs⟩
  · rw [heq]
    exact ⟨_, f.put_self i _⟩
  · rw [heq]
    exact ⟨_, f.put_self i _⟩
  · exact ⟨s, heq ▸ hs⟩
  · exact ⟨s, heq ▸ hs⟩

/-- A command that is not noted as a redefinition leaves the definitions. -/
theorem definitions_of_effect {i : Nat} {f f' : Shared} {β : Type}
    {cmd : Cmd Database Write Generated MemOp ExtOp β} {b : β}
    (he : Effect (programs rt settings) i f β cmd b f') (h : .redefine ∉ marks β f i cmd) :
    definitions f'.db = definitions f.db := by
  rcases he.commit_cases with ⟨hdb, -, -⟩ | ⟨s, hs, hcommit, hdb, -, -⟩
  · rw [hdb]
  · rw [hdb]
    cases cmd with
    | commit =>
        by_contra hne
        have hchanged : ¬ definitions (backend.replay f.db s.log) = definitions f.db := hne
        simp [marks, hs, hchanged] at h
    | _ => cases hcommit

/-- A command that installs nothing leaves the buckets, and is not noted as a swap. -/
theorem buckets_of_noInstall {i : Nat} {f f' : Shared} {β : Type}
    {cmd : Cmd Database Write Generated MemOp ExtOp β} {b : β} (hcmd : noInstall β cmd)
    (he : Effect (programs rt settings) i f β cmd b f') :
    (∀ proc, (f'.mem proc).buckets = (f.mem proc).buckets)
      ∧ ∀ j proc, .swap j proc ∉ marks β f i cmd := by
  obtain ⟨s, hs, he⟩ := he
  cases cmd with
  | query q =>
      obtain ⟨-, rfl⟩ := he
      simp [marks, hs]
  | write w =>
      obtain ⟨g, -, rfl⟩ := he
      simp [marks, hs, Frame.log]
  | insert w =>
      cases b with
      | none =>
          obtain ⟨-, rfl⟩ := he
          simp [marks, hs]
      | some g =>
          obtain ⟨-, -, rfl⟩ := he
          simp [marks, hs, Frame.log]
  | commit =>
      obtain rfl := he
      refine ⟨fun _ => rfl, ?_⟩
      intro j proc
      simp only [marks, hs]
      split
      · simp
      · simp
  | mem m =>
      obtain ⟨-, rfl⟩ := he
      -- The memory of one process is touched, and of the four operations only `install`
      -- replaces its buckets.
      have hkept : (touch m (f.mem s.proc)).2.buckets = (f.mem s.proc).buckets
          ∧ ∀ j proc, .swap j proc ∉ marks β f i (.mem m) := by
        cases m with
        | install rules buckets => exact hcmd.elim
        | rulesForPair pairId => exact ⟨rfl, by simp [marks, hs]⟩
        | getLastFiredAt generation id => exact ⟨rfl, by simp [marks, hs]⟩
        | setLastFiredAt generation id t => exact ⟨rfl, by simp [marks, hs]⟩
      refine ⟨?_, hkept.2⟩
      intro proc
      show (Function.update f.mem s.proc _ proc).buckets = _
      by_cases hproc : proc = s.proc
      · rw [hproc, Function.update_self]
        exact hkept.1
      · rw [Function.update_of_ne hproc]
  | ask e =>
      obtain ⟨x, -, rfl⟩ := he
      simp [marks, hs, Frame.setExt]

/-- One command: what the thread has to do then, and whether it was a swap. -/
theorem Stance.exec {P P' : List AlertRule → Prop} {i : Nat} {f f' : Shared}
    {s : Session Generated Write} {β : Type} {cmd : Cmd Database Write Generated MemOp ExtOp β}
    {k : β → Tx Unit} {b : β} (hs : f.sessions i = some s) (h : Stance P s.log (.step cmd k))
    (he : Effect (programs rt settings) i f β cmd b f') (hP' : P' (enabledRules f.db)) :
    (∃ s', f'.sessions i = some s' ∧ Stance P' s'.log (k b))
      ∧ (((∀ proc, (f'.mem proc).buckets = (f.mem proc).buckets)
          ∧ ∀ j proc, .swap j proc ∉ marks β f i cmd)
        ∨ ∃ rules buckets, P rules ∧ bucketRules rules = .ok buckets
          ∧ marks β f i cmd = [.swap i s.proc]
          ∧ f'.mem = Function.update f.mem s.proc ((f.mem s.proc).install rules buckets)) := by
  obtain ⟨hlog, hstart | ⟨rules, hrules, hp⟩⟩ | hleaves := h
  · -- The SELECT of a session that has written nothing sees the tables.
    cases hstart
    have hquery : noInstall _ (.query fun db : Database =>
        db.alertRules.filter (fun r => r.isEnabled)) := trivial
    have hkept := buckets_of_noInstall hquery he
    obtain ⟨s₁, hs₁, rfl, rfl⟩ := he
    obtain rfl : s₁ = s := Option.some.inj (hs₁.symm.trans hs)
    refine ⟨⟨s₁, hs, Or.inl ⟨hlog, Or.inr ⟨_, hP', ?_⟩⟩⟩, Or.inl hkept⟩
    rw [hlog]
    rfl
  · rw [installing] at hp
    cases hb : bucketRules rules with
    | error e =>
        rw [hb] at hp
        cases hp
    | ok buckets =>
        rw [hb] at hp
        cases hp
        obtain ⟨s₁, hs₁, -, rfl⟩ := he
        obtain rfl : s₁ = s := Option.some.inj (hs₁.symm.trans hs)
        refine ⟨⟨s₁, hs, Or.inr trivial⟩, Or.inr ⟨rules, buckets, hrules, hb, ?_, rfl⟩⟩
        simp only [marks, hs]
  · obtain ⟨s', hs'⟩ := open_of_effect he
    exact ⟨⟨s', hs', Or.inr (hleaves.2 b)⟩, Or.inl (buckets_of_noInstall hleaves.1 he)⟩

/-! ## The runs -/

/-- Every open thread has its stance. -/
def Stances (P : Nat → List AlertRule → Prop) (c : Threads) : Prop :=
  ∀ i s, c.frame.sessions i = some s → Stance (P i) s.log (c.prog i)

theorem Stances.start {P : Nat → List AlertRule → Prop} {c : Threads} (h : Stances P c)
    {i proc : Nat} {p : Tx Unit} (hp : Program rt settings p) :
    Stances P ⟨c.frame.put i (some ⟨proc, []⟩), Function.update c.prog i p⟩ := by
  intro j s hs
  by_cases hji : j = i
  · subst hji
    obtain rfl := Option.some.inj ((c.frame.put_self j _).symm.trans hs)
    show Stance (P j) [] (Function.update c.prog j p j)
    rw [Function.update_self]
    exact Stance.start hp
  · show Stance (P j) s.log (Function.update c.prog i p j)
    rw [Function.update_of_ne hji]
    exact h j s ((c.frame.put_of_ne hji _).symm.trans hs)

theorem Stances.close {P : Nat → List AlertRule → Prop} {c : Threads} (h : Stances P c) (i : Nat) :
    Stances P ⟨c.frame.put i none, c.prog⟩ := by
  intro j s hs
  by_cases hji : j = i
  · subst hji
    cases (c.frame.put_self j _).symm.trans hs
  · exact h j s ((c.frame.put_of_ne hji _).symm.trans hs)

theorem Stances.exec {P P' : Nat → List AlertRule → Prop} {c : Threads} (h : Stances P c) {i : Nat}
    {f : Shared} {β : Type} {cmd : Cmd Database Write Generated MemOp ExtOp β} {k : β → Tx Unit}
    {b : β} (hi : c.prog i = .step cmd k) (he : Effect (programs rt settings) i c.frame β cmd b f)
    (hP' : P' i (enabledRules c.frame.db)) (hothers : ∀ j rules, j ≠ i → P j rules → P' j rules) :
    Stances P' ⟨f, Function.update c.prog i (k b)⟩ := by
  obtain ⟨s, hs, -⟩ := he.frame_cases
  have hstance := h i s hs
  rw [hi] at hstance
  obtain ⟨⟨s', hs', hnext⟩, -⟩ := hstance.exec hs he hP'
  intro j t ht
  by_cases hji : j = i
  · subst hji
    obtain rfl := Option.some.inj (hs'.symm.trans ht)
    show Stance (P' j) s'.log (Function.update c.prog j (k b) j)
    rw [Function.update_self]
    exact hnext
  · show Stance (P' j) t.log (Function.update c.prog i (k b) j)
    rw [Function.update_of_ne hji]
    refine (h j t ((he.sessions_of_ne hji).symm.trans ht)).imp ?_ (fun h => h)
    rintro ⟨hlog, hstart | ⟨rules, hrules, hp⟩⟩
    · exact ⟨hlog, Or.inl hstart⟩
    · exact ⟨hlog, Or.inr ⟨rules, hothers j rules hji hrules, hp⟩⟩

/-- Whatever has run, an open thread is a rebuild or installs nothing. -/
theorem stances_of_reaches {c c' : Threads} (h : Reaches (programs rt settings) c c')
    (hclosed : ∀ i, c.frame.sessions i = none) : Stances (fun _ _ => True) c' := by
  induction h with
  | refl =>
      intro i s hs
      cases (hclosed i).symm.trans hs
  | tail _ hs ih =>
      cases hs with
      | start i proc p hi hp => exact ih.start hp
      | exec i cmd k b f hi he ha => exact ih.exec hi he trivial (fun _ _ _ h => h)
      | close i hc => exact ih.close i

/-- The rules are defined as `defs`, and so are those that were selected in the run and those
    that were swapped in in time. -/
structure Settling (defs : List AlertRule) (ys : List Mark) (c : Threads) : Prop where
  tables : definitions c.frame.db = defs
  stances : Stances (fun i rules => .read i ∈ ys → rules.map definition = defs) c
  indexes : ∀ proc, Timely proc ys → (∃ i, .swap i proc ∈ ys) → Holds defs (c.frame.mem proc)

/-- A thread notes down its own reads. -/
theorem reader_of_mark {i j : Nat} {f : Shared} {β : Type}
    {cmd : Cmd Database Write Generated MemOp ExtOp β} (h : .read j ∈ marks β f i cmd) : j = i := by
  cases hs : f.sessions i with
  | none => simp [marks, hs] at h
  | some s =>
      cases cmd with
      | query q =>
          simp only [marks, hs, List.mem_singleton] at h
          exact Mark.read.inj h
      | commit =>
          simp only [marks, hs] at h
          split at h
          · simp at h
          · simp at h
      | mem m => cases m <;> simp [marks, hs] at h
      | _ => simp [marks, hs] at h

theorem Settling.exec {defs : List AlertRule} {ys : List Mark} {c : Threads}
    (h : Settling defs ys c) {i : Nat} {f : Shared} {β : Type}
    {cmd : Cmd Database Write Generated MemOp ExtOp β} {k : β → Tx Unit} {b : β}
    (hi : c.prog i = .step cmd k) (he : Effect (programs rt settings) i c.frame β cmd b f)
    (hquiet : .redefine ∉ marks β c.frame i cmd) :
    Settling defs (ys ++ marks β c.frame i cmd) ⟨f, Function.update c.prog i (k b)⟩ := by
  refine ⟨(definitions_of_effect he hquiet).trans h.tables, ?_, ?_⟩
  · refine h.stances.exec hi he (fun _ => h.tables) ?_
    intro j rules hji hrules hread
    rcases List.mem_append.mp hread with hread | hread
    · exact hrules hread
    · exact absurd (reader_of_mark hread) hji
  · rintro proc htimely ⟨j, hswap⟩
    obtain ⟨s, hs, -⟩ := he.frame_cases
    have hstance := h.stances i s hs
    rw [hi] at hstance
    have hnext := (@Stance.exec rt settings _ (fun _ => True) _ _ _ _ _ _ _ _ hs hstance he trivial).2
    show Holds defs (f.mem proc)
    rcases hnext with ⟨hkept, hnone⟩ | ⟨rules, buckets, hrules, hb, hmark, hmem⟩
    · have hold := h.indexes proc htimely.of_append
        ⟨j, (List.mem_append.mp hswap).resolve_right (hnone j proc)⟩
      intro pairId
      rw [Memory.rulesForPair, hkept proc]
      exact hold pairId
    · rw [hmem]
      rw [hmark] at htimely hswap
      by_cases hproc : proc = s.proc
      · subst hproc
        rw [Function.update_self]
        exact holds_install hb (hrules (htimely ys i [] rfl)) _
      · rw [Function.update_of_ne hproc]
        refine h.indexes proc htimely.of_append ⟨j, ?_⟩
        rcases List.mem_append.mp hswap with hswap | hswap
        · exact hswap
        · exact absurd (Mark.swap.inj (List.mem_singleton.mp hswap)).2 hproc

theorem Settling.step {defs : List AlertRule} {ys zs : List Mark} {c c' : Threads}
    (h : Settling defs ys c) (hs : TracedStep (programs rt settings) marks c zs c')
    (hquiet : .redefine ∉ zs) : Settling defs (ys ++ zs) c' := by
  cases hs with
  | start i proc p hi hp =>
      rw [List.append_nil]
      exact ⟨h.tables, h.stances.start hp, h.indexes⟩
  | exec i cmd k b f hi he ha => exact h.exec hi he hquiet
  | close i hc =>
      rw [List.append_nil]
      exact ⟨h.tables, h.stances.close i, h.indexes⟩

/-- From when no commit changes what the rules are: a process that has swapped in an index,
    and only such as were selected since then, has exactly the rules that are enabled, each
    under its pair, whatever else has been committed. -/
theorem index_of_settled {c c₁ c₂ : Threads} {ys : List Mark} {proc : Nat}
    (h : Reaches (programs rt settings) c c₁) (hclosed : ∀ i, c.frame.sessions i = none)
    (hrun : Traced (programs rt settings) marks c₁ ys c₂) (hquiet : .redefine ∉ ys)
    (htimely : Timely proc ys) (hswapped : ∃ i, .swap i proc ∈ ys) :
    Holds (definitions c₂.frame.db) (c₂.frame.mem proc) := by
  have hsettling : Settling (definitions c₁.frame.db) ys c₂ := by
    clear htimely hswapped
    induction hrun with
    | refl =>
        refine ⟨rfl, ?_, ?_⟩
        · intro i s hs
          refine (stances_of_reaches h hclosed i s hs).imp ?_ (fun h => h)
          rintro ⟨hlog, hstart | ⟨rules, -, hp⟩⟩
          · exact ⟨hlog, Or.inl hstart⟩
          · exact ⟨hlog, Or.inr ⟨rules, fun hread => absurd hread List.not_mem_nil, hp⟩⟩
        · rintro proc - ⟨i, hswap⟩
          exact absurd hswap List.not_mem_nil
    | tail _ hs ih =>
        rw [List.mem_append, not_or] at hquiet
        exact (ih hquiet.1).step hs hquiet.2
  rw [hsettling.tables]
  exact hsettling.indexes proc htimely hswapped

end Run

/-! ## A rebuild that is still on its way -/

/-- The request that moves the threshold. -/
def move : Tx Unit :=
  thread (updateRule {} 7
    { threshold := some (some ⟨false, 60, 0⟩), cooldown_nonneg := Patch.unset_nonneg })

/-- A refresh selects and is slow, and the threshold is moved. -/
def slowStart : List (Move Database Write Generated MemOp ExtOp PyError) :=
  [.start 0 0 (thread rebuild), .run 0 1, .start 1 1 move, .run 1 20, .stop 1]

/-- The listener rebuilds, a tick claims the pair, and the refresh is stopped. -/
def quietEnd : List (Move Database Write Generated MemOp ExtOp PyError) :=
  [.start 2 0 (thread rebuild), .run 2 20, .stop 2, .start 1 1 (thread (enqueueDuePairs {})),
    .run 1 20, .stop 1, .stop 0]

def slow : Threads := (play backend isolated marks slowStart enabledStart).1

/-- Where that leads to. -/
def quiet : Threads := (play backend isolated marks quietEnd slow).1

theorem index_of_settled_slow :
    (definitions quiet.frame.db).map AlertRule.threshold = [some ⟨false, 6000000000, -8⟩]
      ∧ Holds (definitions quiet.frame.db) (quiet.frame.mem 0) := by
  have hslow : Reaches (programs Runtime.rational {}) enabledStart slow := by
    have htraced : Traced (programs Runtime.rational {}) marks enabledStart
        (play backend isolated marks slowStart enabledStart).2 slow :=
      traced_play [0, 1] answers_isolated (fun _ _ _ _ _ => trivial) (fun _ _ => rfl)
        (by decide +kernel) ⟨.rebuild, .patch _ _, trivial, trivial⟩
    exact htraced.reaches
  have hclosed : ∀ j, j ∉ [0, 1, 2] → slow.frame.sessions j = none :=
    play_closed (fun _ _ => rfl) (by decide +kernel)
  have hquiet : Traced (programs Runtime.rational {}) marks slow
      (play backend isolated marks quietEnd slow).2 quiet :=
    traced_play [0, 1, 2] answers_isolated (fun _ _ _ _ _ => trivial) hclosed
      (by decide +kernel) ⟨.rebuild, trivial, .tick, trivial, trivial, trivial⟩
  have hmarks : (play backend isolated marks quietEnd slow).2 = [.read 2, .swap 2 0, .read 1] := by
    decide +kernel
  rw [hmarks] at hquiet
  refine ⟨by decide +kernel,
    index_of_settled hslow (fun _ => rfl) hquiet (by decide) ?_ ⟨2, by decide⟩⟩
  rintro q i r heq
  rcases q with _ | ⟨x, _ | ⟨y, _ | ⟨z, q⟩⟩⟩
  · cases heq
  · cases heq
    exact List.mem_cons_self
  · cases heq
  · simp at heq

end Dropwatch.Convergence
