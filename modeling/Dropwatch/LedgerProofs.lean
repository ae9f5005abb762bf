import Dropwatch.Lib.Trace
import Dropwatch.SlotProofs

/-! # The delivery ledger under any interleaving

    Pollers, publishers and rebuilds keep the ledger in every committed state.
    The argument is a discipline of the threads: what an open session has written
    is settled slot by slot, but for the one notification that the program is in
    the middle of, and the others leave those slots alone. -/

namespace Dropwatch.Delivery

open Transact RuleIndex Evaluator Poller Publisher Workers

/-- The programs of the workers, with any settings and any input. -/
inductive Worker (rt : Runtime) : Tx Unit → Prop where
  | batch (settings : Settings) (messages : List Message) :
      Worker rt (thread (processBatch rt settings messages))
  | tick (settings : Settings) (topicArn : String) (scan : Scan) :
      Worker rt (thread (publishPending settings topicArn scan))
  | rebuild : Worker rt (thread rebuild)

/-- Workers start whenever and wherever they like, and stop at any point. -/
def workers (rt : Runtime) : WorkerSystem where
  backend := backend
  answers := Answers
  starts := fun _ _ _ p => Worker rt p
  execs := fun _ _ _ _ _ => True
  closes := fun _ _ _ => True

/-! ## The invariant -/

/-- The committed tables are balanced, and what is not committed is sound. -/
structure Books (f : Shared) : Prop where
  balanced : Balanced f.db f.ext.accepted
  clashFree : ClashFree backend f
  sound : ∀ i s, f.sessions i = some s → Sound f.db s.log

/-- What the other threads do to a thread with an open session. -/
structure Undisturbed (i : Nat) (f f' : Shared) : Prop where
  session : ∀ s, f.sessions i = some s → f'.sessions i = some s ∧
    ∀ id, Touched id s.log → slotOf f'.db id = slotOf f.db id
  event : ∀ id, HasEvent f.db id → HasEvent f'.db id
  accepted : f.ext.accepted ⊆ f'.ext.accepted

theorem Undisturbed.refl (i : Nat) (f : Shared) : Undisturbed i f f where
  session := fun _ hs => ⟨hs, fun _ _ => rfl⟩
  event := fun _ h => h
  accepted := List.Subset.refl _

theorem Undisturbed.trans {i : Nat} {f f' f'' : Shared} (h : Undisturbed i f f')
    (h' : Undisturbed i f' f'') : Undisturbed i f f'' where
  session := by
    intro s hs
    obtain ⟨hs', hslot⟩ := h.session s hs
    obtain ⟨hs'', hslot'⟩ := h'.session s hs'
    exact ⟨hs'', fun id ht => (hslot' id ht).trans (hslot id ht)⟩
  event := fun id he => h'.event id (h.event id he)
  accepted := fun _ he => h'.accepted (h.accepted he)

variable {rt : Runtime} {i : Nat} {f f' : Shared} {β : Type}
  {cmd : Cmd Database Write Generated MemOp ExtOp β} {b : β}

/-- A command and the committed tables: only a commit changes them. -/
theorem effect_db (he : Effect (workers rt) i f β cmd b f') :
    f.ext.accepted ⊆ f'.ext.accepted ∧
      (f'.db = f.db ∨ ∃ s, f.sessions i = some s ∧ f'.db = backend.replay f.db s.log) := by
  obtain ⟨s, hs, heq | ⟨e, -, heq⟩ | heq | ⟨m, heq⟩ | ⟨_, _, _, x, ha, heq⟩⟩ := he.frame_cases
  · rw [heq]
    exact ⟨List.Subset.refl _, Or.inl rfl⟩
  · rw [heq]
    exact ⟨List.Subset.refl _, Or.inl rfl⟩
  · rw [heq]
    exact ⟨List.Subset.refl _, Or.inr ⟨s, hs, rfl⟩⟩
  · rw [heq]
    exact ⟨List.Subset.refl _, Or.inl rfl⟩
  · rw [heq]
    exact ⟨Answers.accepted_subset ha, Or.inl rfl⟩

/-- A command keeps the books if it keeps the tables balanced and its own log
    sound. -/
theorem Books.effect (h : Books f) (he : Effect (workers rt) i f β cmd b f')
    (hbalanced : Balanced f'.db f'.ext.accepted)
    (hsound : ∀ s, f'.sessions i = some s → Sound f'.db s.log) : Books f' where
  balanced := hbalanced
  clashFree := h.clashFree.effect clash_comm he
  sound := by
    intro j s hs
    by_cases hj : j = i
    · rw [hj] at hs
      exact hsound s hs
    · rw [he.sessions_of_ne hj] at hs
      rcases (effect_db he).2 with hdb | ⟨t, ht, hdb⟩
      · rw [hdb]
        exact h.sound j s hs
      · rw [hdb]
        exact (h.sound j s hs).of_commit (h.clashFree i j t s (Ne.symm hj) ht hs)

/-- Another thread's command, seen from a thread with an open session. -/
theorem Books.undisturbed (h : Books f) (he : Effect (workers rt) i f β cmd b f') {j : Nat}
    (hj : j ≠ i) : Undisturbed j f f' where
  session := by
    intro s hs
    refine ⟨(he.sessions_of_ne hj).trans hs, ?_⟩
    intro id ht
    rcases (effect_db he).2 with hdb | ⟨t, htopen, hdb⟩
    · rw [hdb]
    · have huntouched : ¬ Touched id t.log := by
        intro htt
        exact Sound.apart h.balanced (h.sound i t htopen) (h.sound j s hs)
          (h.clashFree i j t s (Ne.symm hj) htopen hs) htt ht
      rw [hdb, slotOf_replay_of_untouched huntouched]
  event := by
    intro id hid
    rcases (effect_db he).2 with hdb | ⟨t, -, hdb⟩
    · rw [hdb]
      exact hid
    · rw [hdb]
      exact hid.replay t.log
  accepted := (effect_db he).1

/-- Opening or closing a session changes nothing for the others. -/
theorem Books.put (h : Books f) (i : Nat) (proc : Option Nat) :
    Books (f.put i (proc.map fun n => ⟨n, []⟩))
      ∧ ∀ j, j ≠ i → Undisturbed j f (f.put i (proc.map fun n => ⟨n, []⟩)) := by
  have hempty : ∀ s : Session Generated Write,
      proc.map (fun n => (⟨n, []⟩ : Session Generated Write)) = some s → s.log = [] := by
    intro s hs
    obtain ⟨n, -, heq⟩ := Option.map_eq_some_iff.mp hs
    rw [← heq]
  refine ⟨⟨h.balanced, ?_, ?_⟩, ?_⟩
  · refine h.clashFree.put i _ ?_
    intro s hs x hx
    rw [hempty s hs] at hx
    exact absurd hx List.not_mem_nil
  · intro j s hs
    by_cases hj : j = i
    · rw [hj, Frame.put_self] at hs
      rw [hempty s hs]
      exact Sound.nil _
    · rw [f.put_of_ne hj] at hs
      exact h.sound j s hs
  · intro j hj
    exact ⟨fun s hs => ⟨(f.put_of_ne hj _).trans hs, fun _ _ => rfl⟩, fun _ he => he,
      List.Subset.refl _⟩

/-- The workers' discipline. -/
def discipline (rt : Runtime) : Discipline (workers rt) where
  J := Books
  R := Undisturbed
  Own := fun _ _ _ => True
  refl := Undisturbed.refl
  trans := Undisturbed.trans
  idle := fun _ _ => trivial
  others := fun h he _ _ hj _ => h.undisturbed he hj
  opens := fun h _ _ => ⟨(h.put _ (some _)).1, fun j hj _ => (h.put _ (some _)).2 j hj⟩
  closes := fun h _ => ⟨(h.put _ none).1, fun j hj _ => (h.put _ none).2 j hj⟩

/-! ## Assertions about an open session -/

/-- Uncommitted writes. -/
abbrev Log := List (Generated × Write)

/-- Slot predicates, given what SNS took. -/
abbrev SlotView := List Uuid → Uuid → Slot → Prop

/-- Thread `i` has a session whose writes satisfy `A`; as the session sees the
    tables, every slot satisfies `S`; the events of `due` exist. -/
def Holds (i : Nat) (A : Log → Prop) (S : SlotView) (due : List Uuid) (f : Shared) : Prop :=
  ∃ s, f.sessions i = some s ∧ (s.log.filterMap insertedKey).Nodup
    ∧ (∀ id, S f.ext.accepted id (slotOf (backend.replay f.db s.log) id))
    ∧ A s.log ∧ ∀ id ∈ due, HasEvent f.db id

/-- A slot view that the others cannot spoil: where the session has not touched a
    slot, a settled one will do. -/
structure Covers (A : Log → Prop) (S : SlotView) : Prop where
  mono : ∀ {accepted accepted' : List Uuid} {id sl}, accepted ⊆ accepted' →
    S accepted id sl → S accepted' id sl
  untouched : ∀ {log : Log} {accepted accepted' : List Uuid} {id sl sl'}, A log →
    ¬ Touched id log → accepted ⊆ accepted' → S accepted id sl → Settled accepted' id sl' →
      S accepted' id sl'

theorem covers_settled (A : Log → Prop) : Covers A Settled where
  mono := fun hsub h => h.mono hsub
  untouched := fun _ _ _ _ h => h

/-- Every slot is settled, and SNS took the event of `id₀`. -/
def Taken (id₀ : Uuid) : SlotView := fun accepted id sl => id₀ ∈ accepted ∧ Settled accepted id sl

theorem covers_taken (A : Log → Prop) (id₀ : Uuid) : Covers A (Taken id₀) where
  mono := fun hsub h => ⟨hsub h.1, h.2.mono hsub⟩
  untouched := fun _ _ hsub h h' => ⟨hsub h.1, h'⟩

/-- Every slot is settled but that of `id`, which satisfies `X`. -/
def Unless (id : Uuid) (X : List Uuid → Slot → Prop) : SlotView :=
  fun accepted id' sl => if id' = id then X accepted sl else Settled accepted id' sl

theorem covers_unless {A : Log → Prop} {id : Uuid} {X : List Uuid → Slot → Prop}
    (hmono : ∀ {accepted accepted' : List Uuid} {sl}, accepted ⊆ accepted' →
      X accepted sl → X accepted' sl)
    (htouched : ∀ log, A log → Touched id log) : Covers A (Unless id X) where
  mono := by
    intro accepted accepted' id' sl hsub h
    by_cases hid : id' = id
    · rw [Unless, if_pos hid] at h ⊢
      exact hmono hsub h
    · rw [Unless, if_neg hid] at h ⊢
      exact h.mono hsub
  untouched := by
    intro log accepted accepted' id' sl sl' hA hun _ _ h
    have hid : id' ≠ id := fun heq => hun (heq ▸ htouched log hA)
    rw [Unless, if_neg hid]
    exact h

theorem stable_holds {A : Log → Prop} {S : SlotView} {due : List Uuid} (hc : Covers A S) :
    (discipline rt).Stable i (Holds i A S due) := by
  rintro f f' ⟨s, hs, hkeys, hslots, hA, hdue⟩ (hR : Undisturbed i f f') (hJ : Books f')
  obtain ⟨hs', hsame⟩ := hR.session s hs
  refine ⟨s, hs', hkeys, ?_, hA, fun id hid => hR.event id (hdue id hid)⟩
  intro id
  by_cases ht : Touched id s.log
  · rw [slotOf_replay, hsame id ht, ← slotOf_replay]
    exact hc.mono hR.accepted (hslots id)
  · rw [slotOf_replay_of_untouched ht]
    exact hc.untouched hA ht hR.accepted (hslots id) (hJ.balanced.slots id)

/-! ## Rules -/

section Rules

variable {α : Type} {k : β → Tx α} {Q : α → Shared → Prop}
  {A C : Log → Prop} {S T : SlotView} {due : List Uuid}

/-- The commands that leave the tables and the sessions alone. -/
def quiet : Cmd Database Write Generated MemOp ExtOp β → Bool
  | .query _ => true
  | .mem _ => true
  | .ask _ => true
  | _ => false

theorem effect_quiet (hq : quiet cmd = true) (he : Effect (workers rt) i f β cmd b f') :
    f'.db = f.db ∧ f'.sessions = f.sessions := by
  obtain ⟨s, -, h⟩ := he
  cases cmd with
  | query q =>
      rw [h.2]
      exact ⟨rfl, rfl⟩
  | write w => cases hq
  | insert w => cases hq
  | commit => cases hq
  | mem m =>
      rw [h.2]
      exact ⟨rfl, rfl⟩
  | ask e =>
      obtain ⟨x, -, hext⟩ := h
      rw [hext]
      exact ⟨rfl, rfl⟩

/-- To a thread, its own quiet command is as good as one of another. -/
theorem Books.quiet (h : Books f) (hq : quiet cmd = true)
    (he : Effect (workers rt) i f β cmd b f') : Books f' ∧ Undisturbed i f f' := by
  obtain ⟨hdb, hsessions⟩ := effect_quiet hq he
  have haccepted := (effect_db he).1
  have hbooks : Books f' := by
    refine h.effect he ?_ ?_
    · rw [hdb]
      exact ⟨h.balanced.keys, fun id => (h.balanced.slots id).mono haccepted⟩
    · intro s hs
      rw [hdb]
      rw [hsessions] at hs
      exact h.sound i s hs
  refine ⟨hbooks, ?_, ?_, haccepted⟩
  · intro s hs
    rw [hsessions, hdb]
    exact ⟨hs, fun _ _ => rfl⟩
  · intro id hid
    rw [hdb]
    exact hid

theorem triple_quiet {P : Shared → Prop} (hq : quiet cmd = true)
    (hP : (discipline rt).Stable i P) (hk : ∀ b, (discipline rt).Triple i P (k b) Q) :
    (discipline rt).Triple i P (.step cmd k) Q := by
  refine Discipline.Triple.step hP ?_ hk
  intro f b f' hJ hPf he _
  obtain ⟨hJ', hR⟩ := Books.quiet hJ hq he
  exact ⟨hJ', trivial, hP f f' hPf hR hJ'⟩

/-- SNS took the event if the publish call says so. -/
theorem triple_publish {e : Uuid} {topicArn subject message : String}
    {k : Option String → Tx α}
    (htaken : (discipline rt).Triple i (Holds i A (Taken e) due) (k none) Q)
    (hfailed : ∀ text, (discipline rt).Triple i (Holds i A Settled due) (k (some text)) Q) :
    (discipline rt).Triple i (Holds i A Settled due)
      (.step (.ask (.publish e topicArn subject message)) k) Q := by
  refine Discipline.Triple.step
    (R := fun b f => Holds i A Settled due f ∧ (b = none → e ∈ f.ext.accepted))
    (stable_holds (covers_settled A)) ?_ ?_
  · intro f b f' hJ hP he _
    obtain ⟨hJ', hR⟩ := Books.quiet hJ rfl he
    refine ⟨hJ', trivial, (@stable_holds rt i A Settled due (covers_settled A)) f f' hP hR hJ', ?_⟩
    obtain ⟨s, -, x, ha, hext⟩ := he
    intro hnone
    rw [hnone] at ha
    rw [hext, show x = { f.ext with accepted := f.ext.accepted ++ [e] } from ha]
    exact List.mem_append_right _ (List.mem_singleton_self e)
  · intro b
    cases b with
    | none =>
        refine htaken.conseq ?_ (fun _ _ h => h)
        rintro f ⟨⟨s, hs, hkeys, hslots, hA, hdue⟩, hin⟩
        exact ⟨s, hs, hkeys, fun id => ⟨hin rfl, hslots id⟩, hA, hdue⟩
    | some text => exact (hfailed text).conseq (fun _ h => h.1) (fun _ _ h => h)

theorem triple_due {scan : Scan} {now : Instant} {k : List OutboxEvent → Tx α}
    (hk : ∀ due, (discipline rt).Triple i
      (Holds i (fun _ => True) Settled (due.map fun e => e.notificationId)) (k due) Q) :
    (discipline rt).Triple i (Holds i (fun log => log = []) Settled [])
      (.step (.query fun db => dueEvents scan db now) k) Q := by
  refine Discipline.Triple.step (stable_holds (covers_settled _)) ?_ hk
  intro f b f' hJ hP he _
  obtain ⟨hJ', -⟩ := Books.quiet hJ rfl he
  refine ⟨hJ', trivial, ?_⟩
  obtain ⟨s, hs, hkeys, hslots, hlog, -⟩ := hP
  obtain ⟨s', hs', hb, hf⟩ := he
  rw [hf]
  refine ⟨s, hs, hkeys, hslots, trivial, ?_⟩
  intro id hid
  obtain ⟨e, he, heid⟩ := List.mem_map.mp hid
  rw [hb, ← Option.some.inj (hs.symm.trans hs'), hlog] at he
  exact ⟨e, (mem_dueEvents he).1, heid⟩

/-- A write that is no insert of a notification. -/
theorem triple_write {w : Write} {k : Unit → Tx α} (hc : Covers A S)
    (hkey : ∀ g, insertedKey (g, w) = none)
    (hslot : ∀ {accepted id sl} g, (id ∈ due → sl.events ≠ []) → S accepted id sl →
      T accepted id (sl.apply id (g, w)))
    (hsound : ∀ {db log} g, (∀ id ∈ due, HasEvent db id) → A log → Sound db log →
      Sound db (log ++ [(g, w)]))
    (hA : ∀ {log} g, A log → C (log ++ [(g, w)]))
    (hk : (discipline rt).Triple i (Holds i C T due) (k ()) Q) :
    (discipline rt).Triple i (Holds i A S due) (.step (.write w) k) Q := by
  refine Discipline.Triple.step (stable_holds hc) ?_ (fun _ => hk)
  intro f b f' hJ hP he _
  obtain ⟨s, hs, g, -, hf⟩ := id he
  obtain ⟨s', hs', hkeys, hslots, hlog, hdue⟩ := hP
  rw [Option.some.inj (hs'.symm.trans hs)] at hkeys hslots hlog
  have hlogged : f'.sessions i = some { s with log := s.log ++ [(g, w)] } := by
    rw [hf]
    exact f.put_self i _
  have hdb : f'.db = f.db := by
    rw [hf]
    rfl
  have hext : f'.ext = f.ext := by
    rw [hf]
    rfl
  -- The tables stay, so only the log and the slots as the session sees them move.
  refine ⟨hJ.effect he ?_ ?_, trivial, _, hlogged, ?_, ?_, hA g hlog, ?_⟩
  · rw [hdb, hext]
    exact hJ.balanced
  · intro t ht
    rw [hdb, ← Option.some.inj (hlogged.symm.trans ht)]
    exact hsound g hdue hlog (hJ.sound i s hs)
  · show ((s.log ++ [(g, w)]).filterMap insertedKey).Nodup
    rw [List.filterMap_append, List.filterMap_cons_none (hkey g), List.filterMap_nil,
      List.append_nil]
    exact hkeys
  · intro id
    show T f'.ext.accepted id (slotOf (backend.replay f'.db (s.log ++ [(g, w)])) id)
    rw [hdb, hext, slotOf_replay_concat]
    refine hslot g ?_ (hslots id)
    intro hid hnil
    obtain ⟨e, he⟩ := (hdue id hid).replay s.log
    have hmem := mem_eventsOf.mpr he
    rw [show eventsOf _ id = [] from hnil] at hmem
    exact List.not_mem_nil hmem
  · rw [hdb]
    exact hdue

/-- A write about no notification. -/
theorem triple_plain {w : Write} {k : Unit → Tx α} (hc : Covers A S)
    (hplain : ∀ g, subject (g, w) = none) (hA : ∀ {log} g, A log → C (log ++ [(g, w)]))
    (hk : (discipline rt).Triple i (Holds i C S due) (k ()) Q) :
    (discipline rt).Triple i (Holds i A S due) (.step (.write w) k) Q := by
  refine triple_write hc ?_ ?_ ?_ hA hk
  · intro g
    cases w with
    | addNotification n => cases hplain g
    | _ => rfl
  · intro accepted id sl g _ h
    rw [Slot.apply_of_ne]
    · exact h
    · rw [hplain g]
      exact nofun
  · intro db log g _ _ h
    refine h.concat (g, w) ?_ ?_ ?_ ?_
    · rintro n rfl
      cases hplain g
    · rintro i payload rfl
      cases hplain g
    · intro i hi
      cases w with
      | setEventFailed i attempts error nextAttemptAt => cases hplain g
      | setEventPublished i at_ => cases hplain g
      | _ => cases hi
    · rintro i t rfl
      cases hplain g

/-- The slot of an id that the session has just inserted. -/
def Inserted (n : NewNotification) (g : Generated) : SlotView :=
  Unless g.id (fun _ sl => sl = ⟨[n.row g], []⟩)

/-- The log has inserted the notification. -/
def HasInsert (n : NewNotification) (g : Generated) (log : Log) : Prop :=
  (g, Write.addNotification n) ∈ log

/-- The state between an insert of the notification and what follows it: refused, or
    inserted. -/
def AfterInsert (i : Nat) (A : Log → Prop) (due : List Uuid) (n : NewNotification)
    (inserted : Option Generated) (f : Shared) : Prop :=
  match inserted with
  | none => Holds i A Settled due f
  | some g => Holds i (fun log => HasInsert n g log ∧ A log) (Inserted n g) due f

/-- An insert that satisfies the constraints finds its id and its key unused. -/
theorem unused_of_not_violates {db : Database} {n : NewNotification} {g : Generated}
    (h : db.violates g (.addNotification n) = false) :
    ∀ m ∈ db.notifications, m.id ≠ g.id ∧ m.idempotencyKey ≠ n.idempotencyKey := by
  intro m hm
  simp only [Database.violates, Bool.or_eq_false_iff, List.any_eq_false] at h
  have hm' := h.1.1 m hm
  simpa using hm'

theorem triple_insert {n : NewNotification} {k : Option Generated → Tx α}
    (hA : ∀ {log}, A log →
      ∃ g row, (g, Write.addPriceHistory row) ∈ log ∧ row.pairId = n.pairId)
    (hAapp : ∀ {log e}, A log → A (log ++ [e]))
    (hrefused : (discipline rt).Triple i (Holds i A Settled due) (k none) Q)
    (hinserted : ∀ g, (discipline rt).Triple i
      (Holds i (fun log => HasInsert n g log ∧ A log) (Inserted n g) due) (k (some g)) Q) :
    (discipline rt).Triple i (Holds i A Settled due) (.step (.insert (.addNotification n)) k)
      Q := by
  refine Discipline.Triple.step (R := AfterInsert i A due n)
    (stable_holds (covers_settled A)) ?_ ?_
  · intro f b f' hJ hP he _
    obtain ⟨s, hs, h⟩ := id he
    cases b with
    | none =>
        have hf : f' = f := h.2
        rw [hf]
        exact ⟨hJ, trivial, hP⟩
    | some g =>
        obtain ⟨hv, -, hf⟩ := h
        obtain ⟨s', hs', hkeys, hslots, hlog, hdue⟩ := hP
        rw [Option.some.inj (hs'.symm.trans hs)] at hkeys hslots hlog
        have hlogged : f'.sessions i
            = some { s with log := s.log ++ [(g, Write.addNotification n)] } := by
          rw [hf]
          exact f.put_self i _
        have hdb : f'.db = f.db := by
          rw [hf]
          rfl
        have hext : f'.ext = f.ext := by
          rw [hf]
          rfl
        have hunused := unused_of_not_violates hv
        refine ⟨hJ.effect he ?_ ?_, trivial, _, hlogged, ?_, ?_, ⟨?_, hAapp hlog⟩, ?_⟩
        · rw [hdb, hext]
          exact hJ.balanced
        · intro t ht
          rw [hdb, ← Option.some.inj (hlogged.symm.trans ht)]
          refine (hJ.sound i s hs).concat _ ?_ (by rintro _ _ ⟨⟩) (by rintro _ ⟨⟩)
            (by rintro _ _ ⟨⟩)
          intro n' hn'
          rw [← Write.addNotification.inj hn']
          refine ⟨?_, hA hlog⟩
          -- What is committed is in the view, under the same id and key.
          intro m hm
          obtain ⟨m', hm', hid, hkey, -⟩ := mem_replay_notifications hm s.log
          rw [hid, hkey]
          exact hunused m' hm'
        · show ((s.log ++ [(g, Write.addNotification n)]).filterMap insertedKey).Nodup
          rw [List.filterMap_append]
          refine List.nodup_append.mpr ⟨hkeys, List.nodup_singleton _, ?_⟩
          rintro key hkey key' hkey' heq
          rw [List.mem_singleton.mp hkey'] at heq
          have hview : key ∈ (backend.replay f.db s.log).notifications.map
              (fun n => n.idempotencyKey) := by
            rw [keys_replay]
            exact List.mem_append_right _ hkey
          obtain ⟨m, hm, hmkey⟩ := List.mem_map.mp hview
          exact (hunused m hm).2 (hmkey.trans heq)
        · intro id
          show Inserted n g f'.ext.accepted id
            (slotOf (backend.replay f'.db (s.log ++ [(g, Write.addNotification n)])) id)
          rw [hdb, hext, slotOf_replay_concat]
          by_cases hid : id = g.id
          · rw [Inserted, Unless, if_pos hid]
            have hrows : (slotOf (backend.replay f.db s.log) id).rows = [] := by
              refine List.eq_nil_iff_forall_not_mem.mpr ?_
              intro m hm
              obtain ⟨hm, hmid⟩ := mem_rows.mp hm
              exact (hunused m hm).1 (hmid.trans hid)
            have hsettled := hslots id
            generalize slotOf (backend.replay f.db s.log) id = sl at hrows hsettled
            cases hsettled with
            | absent => exact if_pos hid.symm
            | suppressed => cases hrows
            | pending => cases hrows
            | sent => cases hrows
          · rw [Inserted, Unless, if_neg hid, Slot.apply_of_ne]
            · exact hslots id
            · exact fun h => hid (Option.some.inj h).symm
        · exact List.mem_append_right _ (List.mem_singleton_self _)
        · rw [hdb]
          exact hdue
  · intro b
    cases b with
    | none => exact hrefused
    | some g => exact hinserted g

/-- The view of a session that has settled everything is balanced. -/
theorem Books.view {s : Session Generated Write} (h : Books f) (hs : f.sessions i = some s)
    (hkeys : (s.log.filterMap insertedKey).Nodup)
    (hslots : ∀ id, Settled f.ext.accepted id (slotOf (backend.replay f.db s.log) id)) :
    Balanced (backend.replay f.db s.log) f.ext.accepted where
  keys := by
    rw [keys_replay]
    refine List.nodup_append.mpr ⟨h.balanced.keys, hkeys, ?_⟩
    rintro key hkey key' hkey' heq
    obtain ⟨m, hm, hmkey⟩ := List.mem_map.mp hkey
    obtain ⟨⟨g, w⟩, hw, hwkey⟩ := List.mem_filterMap.mp hkey'
    cases w with
    | addNotification n =>
        refine ((h.sound i s hs).fresh g n hw m hm).2 ?_
        rw [hmkey, heq, ← Option.some.inj hwkey]
    | _ => cases hwkey
  slots := hslots

theorem triple_commit {k : Unit → Tx α}
    (hk : (discipline rt).Triple i (Holds i (fun _ => True) Settled []) (k ()) Q) :
    (discipline rt).Triple i (Holds i A Settled due) (.step .commit k) Q := by
  refine Discipline.Triple.step (stable_holds (covers_settled A)) ?_ (fun _ => hk)
  intro f b f' hJ hP he _
  obtain ⟨s, hs, hf⟩ := id he
  obtain ⟨s', hs', hkeys, hslots, -⟩ := hP
  rw [Option.some.inj (hs'.symm.trans hs)] at hkeys hslots
  have hview := Books.view hJ hs hkeys hslots
  have hopen : f'.sessions i = some { s with log := [] } := by
    rw [hf]
    exact f.put_self i _
  have hdb : f'.db = backend.replay f.db s.log := by
    rw [hf]
    rfl
  have hext : f'.ext = f.ext := by
    rw [hf]
    rfl
  refine ⟨hJ.effect he ?_ ?_, trivial, _, hopen, List.nodup_nil, ?_, trivial,
    fun _ hid => absurd hid List.not_mem_nil⟩
  · rw [hdb, hext]
    exact hview
  · intro t ht
    rw [← Option.some.inj (hopen.symm.trans ht)]
    exact Sound.nil _
  · intro id
    show Settled f'.ext.accepted id (slotOf (backend.replay f'.db []) id)
    rw [hdb, hext]
    exact hslots id

theorem Holds.mono {f : Shared} (h : Holds i A S due f) (hA : ∀ {log}, A log → C log)
    (hS : ∀ {accepted id sl}, S accepted id sl → T accepted id sl) : Holds i C T due f := by
  obtain ⟨s, hs, hkeys, hslots, hlog, hdue⟩ := h
  exact ⟨s, hs, hkeys, fun id => hS (hslots id), hA hlog, hdue⟩

end Rules

/-! ## The poller -/

section Batch

variable (rt) (settings : Settings)

/-- The session has added an observation of the pair. -/
def Observed (pairId : Uuid) (log : Log) : Prop :=
  ∃ g row, (g, Write.addPriceHistory row) ∈ log ∧ row.pairId = pairId

theorem Observed.append {pairId : Uuid} {log : Log} (h : Observed pairId log)
    (e : Generated × Write) : Observed pairId (log ++ [e]) := by
  obtain ⟨g, row, hrow, hpair⟩ := h
  exact ⟨g, row, List.mem_append_left _ hrow, hpair⟩

/-- An open session that owes nothing. -/
abbrev Even (i : Nat) (A : Log → Prop) : Shared → Prop := Holds i A Settled []

theorem stable_even (A : Log → Prop) : (discipline rt).Stable i (Even i A) :=
  stable_holds (covers_settled A)

variable {rt}

/-- A notification that waits for its event, and the event. -/
theorem settled_addOutboxEvent {n : NewNotification} {g g' : Generated} {payload : Payload}
    (hn : n.status = .pending) {accepted : List Uuid} {id : Uuid} {sl : Slot}
    (h : Inserted n g accepted id sl) :
    Settled accepted id (sl.apply id (g', .addOutboxEvent g.id payload)) := by
  by_cases hid : id = g.id
  · rw [Inserted, Unless, if_pos hid] at h
    rw [h, hid]
    show Settled accepted g.id (if g.id = g.id then _ else _)
    rw [if_pos rfl]
    exact .pending _ _ hn rfl rfl
  · rw [Inserted, Unless, if_neg hid] at h
    rw [Slot.apply_of_ne]
    · exact h
    · exact fun heq => hid (Option.some.inj heq).symm

/-- A suppressed notification owes nothing. -/
theorem settled_of_suppressed {n : NewNotification} {g : Generated}
    (hn : n.status = .suppressedCooldown) {accepted : List Uuid} {id : Uuid} {sl : Slot}
    (h : Inserted n g accepted id sl) : Settled accepted id sl := by
  by_cases hid : id = g.id
  · rw [Inserted, Unless, if_pos hid] at h
    rw [h]
    exact .suppressed _ hn rfl
  · rw [Inserted, Unless, if_neg hid] at h
    exact h

theorem triple_addOutboxEvent {A : Log → Prop} {n : NewNotification} {g : Generated}
    (hn : n.status = .pending) (hA : ∀ {log e}, A log → A (log ++ [e])) (pair : Pair)
    (obs : Observation) (c : Candidates rt) (rule : AlertRule) :
    (discipline rt).Triple i (Holds i (fun log => HasInsert n g log ∧ A log) (Inserted n g) [])
      (addOutboxEvent rt pair obs c rule g.id) (fun _ => Even i A) := by
  have hcovers : Covers (fun log => HasInsert n g log ∧ A log) (Inserted n g) :=
    covers_unless (fun _ h => h) (fun _ h => ⟨_, h.1, rfl⟩)
  refine Discipline.Triple.bind (Discipline.Triple.lift (fun _ _ _ _ h => h)) ?_
  intro message
  refine triple_write hcovers (fun _ => rfl) (fun _ _ h => settled_addOutboxEvent hn h) ?_
    (fun _ h => hA h.2) (Discipline.Triple.done (fun _ _ h => h))
  intro db log g' _ hlog h
  refine h.concat _ (fun _ h => by cases h) ?_ (fun _ h => by cases h) (fun _ _ h => by cases h)
  intro i payload heq
  rw [← (Write.addOutboxEvent.inj heq).1]
  exact ⟨g, n, hlog.1, rfl⟩

theorem triple_finishFire (pair : Pair) (obs : Observation) (generation : Nat)
    (c : Candidates rt) (rule : AlertRule) (suppressed : Bool) (g : Generated) :
    (discipline rt).Triple i
      (Holds i (fun log => HasInsert (newNotification rt pair obs rule suppressed) g log
        ∧ Observed pair.id log) (Inserted (newNotification rt pair obs rule suppressed) g) [])
      (finishFire rt pair obs generation c rule suppressed
        (newNotification rt pair obs rule suppressed) g)
      (fun _ => Even i (Observed pair.id)) := by
  have hfired : (discipline rt).Triple i (Even i (Observed pair.id))
      (.step (.mem (.setLastFiredAt generation rule.id obs.observedAt)) fun _ =>
        .step (.write (.setRuleLastFiredAt rule.id obs.observedAt)) fun _ =>
          pure (some (flushed g (newNotification rt pair obs rule suppressed))))
      (fun _ => Even i (Observed pair.id)) := by
    refine triple_quiet rfl (stable_even rt _) ?_
    intro _
    exact triple_plain (covers_settled _) (fun _ => rfl) (fun _ h => h.append _)
      (Discipline.Triple.done (fun _ _ h => h))
  cases suppressed with
  | true =>
      refine hfired.conseq ?_ (fun _ _ h => h)
      intro f h
      exact h.mono (fun h => h.2) (fun h => settled_of_suppressed rfl h)
  | false =>
      exact Discipline.Triple.bind
        (triple_addOutboxEvent rfl (fun h => h.append _) pair obs c rule) (fun _ => hfired)

theorem triple_fireRule (pair : Pair) (obs : Observation) (generation : Nat)
    (c : Candidates rt) (rule : AlertRule) :
    (discipline rt).Triple i (Even i (Observed pair.id))
      (fireRule rt pair obs generation c rule) (fun _ => Even i (Observed pair.id)) := by
  have hstable := stable_even (i := i) rt (Observed pair.id)
  refine triple_quiet rfl hstable ?_
  intro existing
  cases existing with
  | some id => exact Discipline.Triple.done (fun _ _ h => h)
  | none =>
      refine triple_quiet rfl hstable ?_
      intro lastFiredAt
      refine triple_insert (fun h => h) (fun h => h.append _)
        (Discipline.Triple.done (fun _ _ h => h)) ?_
      intro g
      exact triple_finishFire pair obs generation c rule _ g

theorem triple_fireRules (pair : Pair) (obs : Observation) (generation : Nat)
    (c : Candidates rt) (rules : List AlertRule) :
    (discipline rt).Triple i (Even i (Observed pair.id))
      (fireRules rt pair obs generation c rules) (fun _ => Even i (Observed pair.id)) :=
  triple_rules (fun rule _ => triple_fireRule pair obs generation c rule)

theorem triple_evaluateRulesForPair (pair : Pair) (obs : Observation) :
    (discipline rt).Triple i (Even i (Observed pair.id))
      (evaluateRulesForPair rt settings pair obs) (fun _ => Even i (Observed pair.id)) := by
  have hstable := stable_even (i := i) rt (Observed pair.id)
  rw [evaluateRulesForPair, Script.call_bind]
  refine triple_quiet rfl hstable ?_
  rintro ⟨generation, pairRules⟩
  refine Discipline.Triple.bind (Discipline.Triple.of_reads
    (selectCandidates_reads rt settings pair obs pairRules) hstable) ?_
  intro c
  exact (triple_fireRules pair obs generation c c.rules).conseq (fun _ h => h.2)
    (fun _ _ h => h)

theorem triple_observePair (pair : Pair) (quote : Quote) (t : Instant) {A : Log → Prop} :
    (discipline rt).Triple i (Even i A) (observePair rt settings pair quote t)
      (fun _ => Even i (fun _ => True)) := by
  rw [observePair, Script.call_bind, Script.call_bind]
  refine triple_plain (C := Observed pair.id) (covers_settled _) (fun _ => rfl) ?_ ?_
  · intro log g _
    exact ⟨g, historyRow pair quote t, List.mem_append_right _ (List.mem_singleton_self _), rfl⟩
  · refine triple_plain (C := Observed pair.id) (covers_settled _) (fun _ => rfl)
      (fun _ h => h.append _) ?_
    refine Discipline.Triple.bind (triple_evaluateRulesForPair settings pair _) ?_
    intro _
    refine Discipline.Triple.done ?_
    intro f _ h
    exact h.mono (fun _ => trivial) (fun h => h)

theorem triple_observeAll (pairs : Dict String Pair) (quotes : Dict String Quote) (t : Instant)
    (entries : List (String × Message)) :
    (discipline rt).Triple i (Even i (fun _ => True))
      (observeAll rt settings pairs quotes t entries) (fun _ => Even i (fun _ => True)) :=
  triple_entries (fun pair quote => triple_observePair settings pair quote t) entries

theorem triple_deleteBatch (messages : List Message) :
    (discipline rt).Triple i (Even i (fun _ => True)) (deleteBatch messages)
      (fun _ => Even i (fun _ => True)) := by
  rw [deleteBatch]
  split
  · exact Discipline.Triple.done (fun _ _ h => h)
  · exact triple_quiet rfl (stable_even rt _) (fun _ => Discipline.Triple.done (fun _ _ h => h))

theorem triple_processLive (gone : List Message) (live : List (Pair × Message)) :
    (discipline rt).Triple i (Even i (fun _ => True)) (processLive rt settings gone live)
      (fun _ => Even i (fun _ => True)) := by
  have hstable := stable_even (i := i) rt (fun _ => True)
  rw [processLive, Script.call_bind]
  refine triple_quiet rfl hstable ?_
  intro quotes
  cases quotes with
  | none => exact triple_deleteBatch gone
  | some quotes =>
      refine triple_quiet rfl hstable ?_
      intro observedAt
      show (discipline rt).Triple i _ (observeAll rt settings (pairByCanonical live) quotes
        observedAt (messageByCanonical live) >>= fun toDelete =>
          .step .commit fun _ => deleteBatch (gone ++ toDelete)) _
      refine Discipline.Triple.bind (triple_observeAll settings _ quotes observedAt _) ?_
      intro toDelete
      exact triple_commit (triple_deleteBatch (gone ++ toDelete))

theorem triple_processBatch (messages : List Message) :
    (discipline rt).Triple i (Even i (fun _ => True)) (processBatch rt settings messages)
      (fun _ => Even i (fun _ => True)) := by
  refine Discipline.Triple.bind (Discipline.Triple.lift (fun _ _ _ _ h => h)) ?_
  intro byPairId
  by_cases hempty : byPairId.isEmpty = true
  · rw [if_pos hempty]
    exact Discipline.Triple.done (fun _ _ h => h)
  · rw [if_neg hempty]
    refine triple_quiet rfl (stable_even rt _) ?_
    intro rows
    show (discipline rt).Triple i _ (if _ then _ else _) _
    split
    · exact triple_deleteBatch _
    · exact triple_processLive settings _ _

end Batch

/-! ## The publisher -/

section Tick

variable (settings : Settings) (topicArn : String) {due : List Uuid}

theorem Settled.of_failed {accepted : List Uuid} {id i : Uuid} {sl : Slot} {g : Generated}
    {attempts : Nat} {error : String} {t : Instant} (h : Settled accepted id sl) :
    Settled accepted id (sl.apply id (g, .setEventFailed i attempts error t)) := by
  show Settled accepted id (if i = id then _ else _)
  split
  · cases h with
    | absent => exact .absent
    | suppressed n hstatus hsent => exact .suppressed n hstatus hsent
    | pending n e hstatus hsent hpublished => exact .pending n _ hstatus hsent hpublished
    | sent n e hstatus hsent hpublished haccepted =>
        exact .sent n _ hstatus hsent hpublished haccepted
  · exact h

/-- The slot of an event between its publish time and its notification's. -/
def HandedOver (id : Uuid) : SlotView :=
  Unless id (fun accepted sl => id ∈ accepted ∧
    ∃ n e, sl = ⟨[n], [e]⟩ ∧ e.publishedAt.isSome)

/-- The log has an attempt of the event. -/
def HasAttempt (id : Uuid) (log : Log) : Prop := ∃ g w, (g, w) ∈ log ∧ attempted w = some id

theorem covers_handedOver (id : Uuid) : Covers (HasAttempt id) (HandedOver id) := by
  refine covers_unless (fun hsub h => ⟨hsub h.1, h.2⟩) ?_
  rintro log ⟨g, w, hw, ha⟩
  refine ⟨(g, w), hw, ?_⟩
  cases w with
  | setEventFailed i attempts error nextAttemptAt => exact ha
  | setEventPublished i at_ => exact ha
  | _ => cases ha

/-- An event that exists and that SNS took is handed over. -/
theorem handedOver_of_taken {accepted : List Uuid} {id i : Uuid} {sl : Slot} {g : Generated}
    {t : Instant} (h : Taken i accepted id sl) (hevent : id = i → sl.events ≠ []) :
    HandedOver i accepted id (sl.apply id (g, .setEventPublished i t)) := by
  obtain ⟨hin, hsettled⟩ := h
  by_cases hid : id = i
  · rw [HandedOver, Unless, if_pos hid]
    refine ⟨hin, ?_⟩
    rw [Slot.apply, if_pos hid.symm]
    have hne := hevent hid
    cases hsettled with
    | absent => exact absurd rfl hne
    | suppressed n hstatus hsent => exact absurd rfl hne
    | pending n e hstatus hsent hpublished => exact ⟨n, _, rfl, rfl⟩
    | sent n e hstatus hsent hpublished haccepted => exact ⟨n, _, rfl, rfl⟩
  · rw [HandedOver, Unless, if_neg hid, Slot.apply_of_ne]
    · exact hsettled
    · exact fun heq => hid (Option.some.inj heq).symm

/-- The notification follows. -/
theorem settled_of_handedOver {accepted : List Uuid} {id i : Uuid} {sl : Slot} {g : Generated}
    {t : Instant} (h : HandedOver i accepted id sl) :
    Settled accepted id (sl.apply id (g, .setNotificationSent i t)) := by
  by_cases hid : id = i
  · rw [HandedOver, Unless, if_pos hid] at h
    obtain ⟨hin, n, e, hsl, hpublished⟩ := h
    rw [hsl, Slot.apply, if_pos hid.symm]
    refine .sent _ e rfl rfl hpublished ?_
    rw [hid]
    exact hin
  · rw [HandedOver, Unless, if_neg hid] at h
    rw [Slot.apply_of_ne]
    · exact h
    · exact fun heq => hid (Option.some.inj heq).symm

theorem triple_publishEvent {now : Instant} {e : OutboxEvent} (he : e.notificationId ∈ due) :
    (discipline rt).Triple i (Holds i (fun _ => True) Settled due)
      (publishEvent settings topicArn now e)
      (fun _ => Holds i (fun _ => True) Settled due) := by
  rw [publishEvent, Script.call_bind]
  refine triple_publish ?_ ?_
  · refine triple_write (C := HasAttempt e.notificationId) (T := HandedOver e.notificationId)
      (covers_taken _ _) (fun _ => rfl) ?_ ?_ ?_ ?_
    · intro accepted id sl g hevent h
      exact handedOver_of_taken h (fun hid => hevent (hid ▸ he))
    · intro db log g hdue _ h
      refine h.concat _ (fun _ h => by cases h) (fun _ _ h => by cases h) ?_
        (fun _ _ h => by cases h)
      intro i hi
      rw [← Option.some.inj hi]
      exact hdue _ he
    · intro log g _
      exact ⟨g, _, List.mem_append_right _ (List.mem_singleton_self _), rfl⟩
    · refine triple_quiet rfl (stable_holds (covers_handedOver _)) ?_
      intro notification
      cases notification with
      | none => exact Discipline.Triple.fail
      | some n =>
          refine triple_write (covers_handedOver _) (fun _ => rfl)
            (fun _ _ h => settled_of_handedOver h) ?_ (fun _ _ => trivial)
            (Discipline.Triple.done (fun _ _ h => h))
          intro db log g _ hlog h
          refine h.concat _ (fun _ h => by cases h) (fun _ _ h => by cases h)
            (fun _ h => by cases h) ?_
          intro i t heq
          rw [← (Write.setNotificationSent.inj heq).1]
          exact hlog
  · intro text
    refine triple_write (covers_settled _) (fun _ => rfl) (fun _ _ h => h.of_failed) ?_
      (fun _ _ => trivial) (Discipline.Triple.done (fun _ _ h => h))
    intro db log g hdue _ h
    refine h.concat _ (fun _ h => by cases h) (fun _ _ h => by cases h) ?_ (fun _ _ h => by cases h)
    intro i hi
    rw [← Option.some.inj hi]
    exact hdue _ he

theorem triple_publishAll {now : Instant} {events : List OutboxEvent}
    (he : ∀ e ∈ events, e.notificationId ∈ due) :
    (discipline rt).Triple i (Holds i (fun _ => True) Settled due)
      (publishAll settings topicArn now events)
      (fun _ => Holds i (fun _ => True) Settled due) := by
  induction events with
  | nil => exact Discipline.Triple.done (fun _ _ h => h)
  | cons e rest ih =>
      refine Discipline.Triple.bind
        (triple_publishEvent settings topicArn (he e List.mem_cons_self)) ?_
      intro published
      refine Discipline.Triple.bind (ih (fun e' he' => he e' (List.mem_cons_of_mem e he'))) ?_
      intro n
      exact Discipline.Triple.done (fun _ _ h => h)

theorem triple_publishPending (scan : Scan) :
    (discipline rt).Triple i (Even i (fun log => log = []))
      (publishPending settings topicArn scan) (fun _ _ => True) := by
  rw [publishPending, getDueEvents]
  refine triple_quiet rfl (stable_even rt _) ?_
  intro now
  refine triple_due ?_
  intro events
  show (discipline rt).Triple i _ (if events.isEmpty then pure 0 else _) _
  split
  · exact Discipline.Triple.done (fun _ _ _ => trivial)
  · refine triple_quiet rfl (stable_holds (covers_settled _)) ?_
    intro now
    show (discipline rt).Triple i _ (publishAll settings topicArn now events >>= fun published =>
      .step .commit fun _ => pure published) _
    refine Discipline.Triple.bind (triple_publishAll settings topicArn ?_) ?_
    · exact fun e he => List.mem_map_of_mem he
    · intro published
      exact triple_commit (Discipline.Triple.done (fun _ _ _ => trivial))

end Tick

/-! ## The ledger -/

theorem triple_rebuild :
    (discipline rt).Triple i (Even i (fun log => log = [])) rebuild (fun _ _ => True) := by
  rw [rebuild, Script.call_bind]
  refine triple_quiet rfl (stable_even rt _) ?_
  intro rules
  refine Discipline.Triple.bind (Discipline.Triple.lift (fun _ _ _ _ h => h)) ?_
  intro buckets
  exact triple_quiet rfl (stable_even rt _) (fun _ => Discipline.Triple.done (fun _ _ _ => trivial))

theorem triple_worker {p : Tx Unit} (h : Worker rt p) :
    (discipline rt).Triple i (Even i (fun log => log = [])) p (fun _ _ => True) := by
  cases h with
  | batch settings messages =>
      refine Discipline.Triple.bind (Q := fun _ _ => True) ?_
        (fun _ => Discipline.Triple.done (fun _ _ _ => trivial))
      refine (triple_processBatch settings messages).conseq ?_ (fun _ _ _ => trivial)
      intro f h
      exact h.mono (fun _ => trivial) (fun h => h)
  | tick settings topicArn scan =>
      exact Discipline.Triple.bind (triple_publishPending settings topicArn scan)
        (fun _ => Discipline.Triple.done (fun _ _ _ => trivial))
  | rebuild =>
      exact Discipline.Triple.bind triple_rebuild
        (fun _ => Discipline.Triple.done (fun _ _ _ => trivial))

theorem verified_workers (rt : Runtime) : (discipline rt).Verified := by
  intro f i proc p hJ _ hp
  have hJ' : Books (f.put i (some ⟨proc, []⟩)) := (Books.put hJ i (some proc)).1
  refine triple_worker hp _ hJ' ?_
  exact ⟨⟨proc, []⟩, f.put_self i _, List.nodup_nil, fun id => hJ.balanced.slots id, rfl,
    fun _ hid => absurd hid List.not_mem_nil⟩

/-- Notifications are committed with an observation of their pair: `rows` are the
    rows of `price_history` that the step adds. -/
def RecordedTogether (db db' : Database) : Prop :=
  ∃ rows, db'.priceHistory = db.priceHistory ++ rows ∧
    ∀ n ∈ db'.notifications, (∀ m ∈ db.notifications, m.id ≠ n.id) →
      ∃ row ∈ rows, row.pairId = n.pairId

/-- The row that a write adds to `price_history`. -/
def addedRow : Generated × Write → Option PriceHistory
  | (_, .addPriceHistory row) => some row.stored
  | _ => none

theorem priceHistory_replay (db : Database) (log : Log) :
    (backend.replay db log).priceHistory = db.priceHistory ++ log.filterMap addedRow := by
  refine backend.replay_added (V := Database.priceHistory) ?_ db
  rintro ⟨g, w⟩ - db'
  cases w with
  | addPriceHistory row => rfl
  | _ => exact (List.append_nil _).symm

theorem recordedTogether_replay {db : Database} {log : Log} (h : Sound db log) :
    RecordedTogether db (backend.replay db log) := by
  refine ⟨_, priceHistory_replay db log, ?_⟩
  intro n hn hnew
  rcases mem_notifications_replay hn with ⟨m, hm, hid, -⟩ | ⟨g, n', hn', -, -, hpair⟩
  · exact absurd hid (hnew m hm)
  · obtain ⟨g', row, hrow, hpair'⟩ := h.observed g n' hn'
    exact ⟨row.stored, List.mem_filterMap.mpr ⟨_, hrow, rfl⟩, hpair'.trans hpair⟩

theorem RecordedTogether.of_same {db db' : Database} (h : db' = db) : RecordedTogether db db' := by
  rw [h]
  exact ⟨[], (List.append_nil _).symm, fun n hn hnew => absurd rfl (hnew n hn)⟩

theorem recordedTogether_step {c c' : Threads} (hJ : Books c.frame)
    (hs : Step (workers rt) c c') : RecordedTogether c.frame.db c'.frame.db := by
  cases hs with
  | start i proc p hi hp => exact RecordedTogether.of_same rfl
  | close i hc => exact RecordedTogether.of_same rfl
  | exec i cmd k b f hi he ha =>
      rcases (effect_db he).2 with hdb | ⟨s, hs, hdb⟩
      · exact RecordedTogether.of_same hdb
      · show RecordedTogether c.frame.db f.db
        rw [hdb]
        exact recordedTogether_replay (hJ.sound i s hs)

/-- Pollers, publishers and rebuilds, started and stopped anyhow, keep the delivery
    ledger in every committed state, and no step commits a notification without an
    observation of its pair. -/
theorem ledger_of_reaches (rt : Runtime) {c c' : Threads}
    (hclosed : ∀ i, c.frame.sessions i = none)
    (hledger : Ledger c.frame.db c.frame.ext.accepted) (h : Reaches (workers rt) c c') :
    Ledger c'.frame.db c'.frame.ext.accepted
      ∧ ∀ c'', Step (workers rt) c' c'' → RecordedTogether c'.frame.db c''.frame.db := by
  have hvalid : (discipline rt).Valid c := by
    refine ⟨⟨hledger.balanced, ?_, ?_⟩, ?_⟩
    · intro i j s s' _ hs
      cases (hclosed i).symm.trans hs
    · intro i s hs
      cases (hclosed i).symm.trans hs
    · intro i hi
      exact absurd (hclosed i) hi
  have hJ : Books c'.frame := (Discipline.valid_of_reaches (verified_workers rt) hvalid h).1
  exact ⟨hJ.balanced.ledger, fun c'' hs => recordedTogether_step hJ hs⟩

/-! ## A fire, its commit and its delivery -/

theorem ledger_watched : Ledger watched.frame.db watched.frame.ext.accepted where
  key_unique := List.nodup_nil
  id_unique := List.nodup_nil
  owner := by simp [watched]
  one_event := by simp [watched]
  no_event := by simp [watched]
  sent_iff_sentAt := by simp [watched]
  sent_iff_published := by simp [watched]
  published_accepted := by simp [watched]

/-- The index is loaded and a batch fires the rule; its commit comes next. -/
def firing : List (Move Database Write Generated MemOp ExtOp PyError) :=
  [.start 1 1 (thread rebuild), .run 1 20, .stop 1,
    .start 0 1 (thread (processBatch Runtime.rational {} [watchMessage])), .run 0 12]

/-- Where it stands before the commit. -/
def fired : Threads := (play backend isolated commits firing watched).1

/-- The commit. -/
def recorded : Threads := (play backend isolated commits [.run 0 1] fired).1

/-- The batch ends, and a tick publishes. -/
def publishing : List (Move Database Write Generated MemOp ExtOp PyError) :=
  [.run 0 20, .stop 0, .start 2 2 (thread (publishPending {} "topic" .inTurn)), .run 2 20, .stop 2]

/-- Where that leads to. -/
def published : Threads := (play backend isolated commits publishing recorded).1

theorem ledger_of_reaches_published :
    Step (workers Runtime.rational) fired recorded
      ∧ fired.frame.db.notifications = []
      ∧ recorded.frame.db.notifications.map (fun n => (n.ruleId, n.status)) = [(7, .pending)]
      ∧ recorded.frame.db.outboxEvents.map OutboxEvent.publishedAt = [none]
      ∧ RecordedTogether fired.frame.db recorded.frame.db
      ∧ Reaches (workers Runtime.rational) recorded published
      ∧ published.frame.db.notifications.map (fun n => (n.ruleId, n.status)) = [(7, .sent)]
      ∧ published.frame.ext.accepted = published.frame.db.notifications.map Notification.id
      ∧ Ledger published.frame.db published.frame.ext.accepted := by
  have hfired : Traced (workers Runtime.rational) commits watched
      (play backend isolated commits firing watched).2 fired :=
    traced_play [0, 1] answers_isolated (fun _ _ _ _ _ => trivial) (fun _ _ => rfl)
      (by decide +kernel) ⟨.rebuild, trivial, .batch _ _, trivial⟩
  have hcommit : Step (workers Runtime.rational) fired recorded := by
    have hothers : ∀ j, j ∉ [0, 1] → fired.frame.sessions j = none :=
      play_closed (fun _ _ => rfl) (by decide +kernel)
    exact step_play [0, 1] answers_isolated (fun _ _ _ _ _ => trivial) hothers
      (by decide +kernel) (by decide +kernel)
  have hpublished : Traced (workers Runtime.rational) commits recorded
      (play backend isolated commits publishing recorded).2 published := by
    have hothers : ∀ j, j ∉ [0, 1, 2] → recorded.frame.sessions j = none :=
      play_closed (fun j hj => play_closed (fun _ _ => rfl) (by decide +kernel) j hj)
        (by decide +kernel)
    exact traced_play [0, 1, 2] answers_isolated (fun _ _ _ _ _ => trivial) hothers
      (by decide +kernel) ⟨trivial, .tick _ _ _, trivial, trivial⟩
  obtain ⟨-, htogether⟩ :=
    ledger_of_reaches Runtime.rational (fun _ => rfl) ledger_watched hfired.reaches
  obtain ⟨hledger, -⟩ := ledger_of_reaches Runtime.rational (fun _ => rfl) ledger_watched
    ((hfired.reaches.tail hcommit).trans hpublished.reaches)
  exact ⟨hcommit, by decide +kernel, by decide +kernel, by decide +kernel,
    htogether recorded hcommit, hpublished.reaches, by decide +kernel, by decide +kernel, hledger⟩

end Dropwatch.Delivery
