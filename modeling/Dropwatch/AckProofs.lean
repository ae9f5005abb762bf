import Dropwatch.FailedBatchProofs
import Dropwatch.MalformedProofs
import Dropwatch.Workers

/-! # What a batch observes and acknowledges

    Over tables whose pairs have distinct ids and names, the dictionaries of a batch
    are plain lists (`mem_livePart`, `messageByCanonical_livePart`), and the loop adds
    one row for each quoted pair (`runTx_batchLoop`).  What is acknowledged follows
    from where a batch can stand: at a delete of messages whose pair is gone, or,
    after its commit, at the delete of these and the observed ones
    (`stretch_processBatch`). -/

namespace Dropwatch.Poller

open Transact RuleIndex Evaluator

/-! ## The dictionaries of a batch -/

/-- The primary key and the unique name of the pairs. -/
structure UniquePairs (db : Database) : Prop where
  ids : (db.pairs.map Pair.id).Nodup
  names : (db.pairs.map Pair.krakenPairName).Nodup

theorem nodup_keys_collectMessages {messages : List Message} {byPairId result : Dict Uuid Message}
    (hnodup : byPairId.keys.Nodup) (h : collectMessages rt messages byPairId = .ok result) :
    result.keys.Nodup := by
  induction messages generalizing byPairId with
  | nil =>
      rw [← Except.ok.inj h]
      exact hnodup
  | cons message rest ih =>
      rw [collectMessages] at h
      cases hr : parsePairId rt message with
      | error err =>
          rw [hr] at h
          cases h
      | ok r =>
          rw [hr] at h
          cases r with
          | none => exact ih hnodup h
          | some pairId => exact ih (Dict.nodup_keys_set hnodup) h

/-- What a batch collects: distinct ids, each with a message that names it. -/
theorem collected_nodup {messages : List Message} {byPairId : Dict Uuid Message}
    (h : collectMessages rt messages [] = .ok byPairId) : byPairId.keys.Nodup :=
  nodup_keys_collectMessages (show (Dict.keys ([] : Dict Uuid Message)).Nodup from
    List.nodup_nil) h

theorem collected_names {messages : List Message} {byPairId : Dict Uuid Message}
    (h : collectMessages rt messages [] = .ok byPairId) {pairId : Uuid} {message : Message}
    (he : (pairId, message) ∈ byPairId) :
    message ∈ messages ∧ parsePairId rt message = .ok (some pairId) := by
  rcases parsePairId_of_mem h he with hnil | hmem
  · exact absurd hnil List.not_mem_nil
  · exact hmem

/-- An id that a message names is collected. -/
theorem mem_keys_collectMessages {messages : List Message} {byPairId result : Dict Uuid Message}
    (h : collectMessages rt messages byPairId = .ok result) {pairId : Uuid}
    (hnamed : pairId ∈ byPairId.keys
      ∨ ∃ m ∈ messages, parsePairId rt m = .ok (some pairId)) : pairId ∈ result.keys := by
  induction messages generalizing byPairId with
  | nil =>
      rw [← Except.ok.inj h]
      rcases hnamed with hold | ⟨m, hm, -⟩
      · exact hold
      · exact absurd hm List.not_mem_nil
  | cons message rest ih =>
      rw [collectMessages] at h
      cases hr : parsePairId rt message with
      | error err =>
          rw [hr] at h
          cases h
      | ok r =>
          rw [hr] at h
          rcases hnamed with hold | ⟨m, hm, hparse⟩
          · cases r with
            | none => exact ih h (Or.inl hold)
            | some pairId' => exact ih h (Or.inl (Dict.mem_keys_set.mpr (Or.inr hold)))
          · rcases List.mem_cons.mp hm with heq | hrest
            · rw [heq, hr] at hparse
              obtain rfl := Except.ok.inj hparse
              exact ih h (Or.inl (Dict.mem_keys_set.mpr (Or.inl rfl)))
            · cases r with
              | none => exact ih h (Or.inr ⟨m, hrest, hparse⟩)
              | some pairId' => exact ih h (Or.inr ⟨m, hrest, hparse⟩)

section Dictionaries

variable {db : Database} {messages : List Message} {byPairId : Dict Uuid Message}

/-- The rows of a batch by id. -/
theorem get?_pairsById (hunique : UniquePairs db) {ids : List Uuid} {pairId : Uuid} {p : Pair} :
    (pairsById (db.selectPairs ids)).get? pairId = some p
      ↔ p ∈ db.pairs ∧ p.id = pairId ∧ pairId ∈ ids := by
  have hids : ((db.selectPairs ids).map Pair.id).Nodup :=
    hunique.ids.sublist (List.filter_sublist.map Pair.id)
  have hlist : pairsById (db.selectPairs ids) = (db.selectPairs ids).map (fun p => (p.id, p)) :=
    Dict.foldl_set_nil Pair.id id hids
  rw [hlist]
  refine (Dict.get?_map_iff Pair.id id hids).trans ?_
  constructor
  · rintro ⟨q, hq, rfl, rfl⟩
    obtain ⟨hmem, hid⟩ := List.mem_filter.mp hq
    exact ⟨hmem, rfl, List.contains_iff_mem.mp hid⟩
  · rintro ⟨hmem, rfl, hid⟩
    exact ⟨p, List.mem_filter.mpr ⟨hmem, List.contains_iff_mem.mpr hid⟩, rfl, rfl⟩

theorem mem_livePart (hunique : UniquePairs db) {p : Pair} {message : Message} :
    (p, message) ∈ livePart db byPairId ↔ (p.id, message) ∈ byPairId ∧ p ∈ db.pairs := by
  rw [livePart, liveEntries, List.mem_filterMap]
  constructor
  · rintro ⟨e, he, heq⟩
    obtain ⟨q, hq, hpair⟩ := Option.map_eq_some_iff.mp heq
    obtain ⟨rfl, rfl⟩ := Prod.mk.inj hpair
    obtain ⟨hmem, hid, -⟩ := (get?_pairsById hunique).mp hq
    rw [hid]
    exact ⟨he, hmem⟩
  · rintro ⟨he, hmem⟩
    have hget : (pairsById (db.selectPairs byPairId.keys)).get? p.id = some p :=
      (get?_pairsById hunique).mpr ⟨hmem, rfl, List.mem_map.mpr ⟨_, he, rfl⟩⟩
    exact ⟨_, he, by rw [hget]; rfl⟩

theorem mem_gonePart (hunique : UniquePairs db) {message : Message} :
    message ∈ gonePart db byPairId
      ↔ ∃ pairId, (pairId, message) ∈ byPairId ∧ ∀ p ∈ db.pairs, p.id ≠ pairId := by
  rw [gonePart, goneMessages, List.mem_map]
  constructor
  · rintro ⟨⟨pairId, m⟩, he, rfl⟩
    obtain ⟨hmem, hnone⟩ := List.mem_filter.mp he
    refine ⟨pairId, hmem, ?_⟩
    intro p hp hid
    have hget : (pairsById (db.selectPairs byPairId.keys)).get? pairId = some p :=
      (get?_pairsById hunique).mpr ⟨hp, hid, List.mem_map.mpr ⟨_, hmem, rfl⟩⟩
    rw [hget] at hnone
    cases hnone
  · rintro ⟨pairId, hmem, hgone⟩
    refine ⟨(pairId, message), List.mem_filter.mpr ⟨hmem, ?_⟩, rfl⟩
    cases hget : (pairsById (db.selectPairs byPairId.keys)).get? pairId with
    | none => rfl
    | some p =>
        obtain ⟨hp, hid, -⟩ := (get?_pairsById hunique).mp hget
        exact absurd hid (hgone p hp)

theorem livePart_sublist (rows : List Pair) :
    ((liveEntries byPairId (pairsById rows)).map (fun e => e.1.id)).Sublist byPairId.keys := by
  rw [liveEntries]
  induction byPairId with
  | nil => exact List.Sublist.refl _
  | cons e rest ih =>
      obtain ⟨pairId, message⟩ := e
      cases hget : (pairsById rows).get? pairId with
      | none =>
          simp only [List.filterMap_cons, hget, Option.map_none]
          exact ih.cons pairId
      | some p =>
          simp only [List.filterMap_cons, hget, Option.map_some, List.map_cons, pairsById_id hget]
          exact ih.cons_cons pairId

/-- The pairs of the loop differ in id and in name. -/
theorem nodup_livePart (hunique : UniquePairs db) (hkeys : byPairId.keys.Nodup) :
    ((livePart db byPairId).map (fun e => e.1.id)).Nodup
      ∧ ((livePart db byPairId).map (fun e => e.1.krakenPairName)).Nodup := by
  have hids : ((livePart db byPairId).map (fun e => e.1.id)).Nodup :=
    hkeys.sublist (livePart_sublist _)
  refine ⟨hids, ?_⟩
  refine List.pairwise_map.mpr ((List.pairwise_map.mp hids).imp_of_mem ?_)
  intro e e' he he' hne hname
  have hp : e.1 ∈ db.pairs := ((mem_livePart hunique).mp he).2
  have hp' : e'.1 ∈ db.pairs := ((mem_livePart hunique).mp he').2
  exact hne (congrArg Pair.id (List.inj_on_of_nodup_map hunique.names hp hp' hname))

theorem messageByCanonical_livePart (hunique : UniquePairs db) (hkeys : byPairId.keys.Nodup) :
    messageByCanonical (livePart db byPairId)
      = (livePart db byPairId).map (fun e => (e.1.krakenPairName, e.2)) :=
  Dict.foldl_set_nil _ _ (nodup_livePart hunique hkeys).2

theorem get?_pairByCanonical_livePart (hunique : UniquePairs db) (hkeys : byPairId.keys.Nodup)
    {e : Pair × Message} (he : e ∈ livePart db byPairId) :
    (pairByCanonical (livePart db byPairId)).get? e.1.krakenPairName = some e.1 := by
  have hnames := (nodup_livePart hunique hkeys).2
  rw [show pairByCanonical (livePart db byPairId) = _ from Dict.foldl_set_nil _ Prod.fst hnames]
  exact (Dict.get?_map_iff (fun e : Pair × Message => e.1.krakenPairName) Prod.fst hnames).mpr
    ⟨e, he, rfl, rfl⟩

end Dictionaries

/-! ## The rows of a loop -/

section Loop

variable {rt : Runtime} {settings : Settings} {quotes : Dict String Quote} {t : Instant}

/-- The row of an entry whose pair is quoted. -/
def quotedRow (quotes : Dict String Quote) (t : Instant) (e : Pair × Message) :
    Option PriceHistory :=
  (quotes.get? e.1.krakenPairName).map (fun quote => (historyRow e.1 quote t).stored)

theorem observePair_rows {pair : Pair} {quote : Quote} {s s' : State} {u : Unit}
    (h : runTx (observePair rt settings pair quote t) s = (.ok u, s')) :
    s'.view.priceHistory = s.view.priceHistory ++ [(historyRow pair quote t).stored] := by
  rw [observePair, Script.call_bind] at h
  have hrest : runTx (evaluateRulesForPair rt settings pair (quoteObservation quote t) >>=
      fun _ => pure ()) { s with view := observed s.view pair quote t } = (.ok u, s') := h
  have hevaluates : Evaluates (evaluateRulesForPair rt settings pair (quoteObservation quote t)
      >>= fun _ => (pure () : Tx Unit)) :=
    (evaluateRulesForPair_evaluates rt settings pair _).bind (fun _ _ => trivial)
  have hframe := (runTx_frame_of_evaluates hevaluates
    { s with view := observed s.view pair quote t }).1
  rw [hrest] at hframe
  exact hframe

/-- A loop that returned has added the rows of the quoted pairs and hands on their
    messages. -/
theorem observeAll_rows {pairs : Dict String Pair} {entries : List (Pair × Message)}
    (hpairs : ∀ e ∈ entries, pairs.get? e.1.krakenPairName = some e.1) {s s' : State}
    {toDelete : List Message}
    (h : runTx (observeAll rt settings pairs quotes t
      (entries.map (fun e => (e.1.krakenPairName, e.2)))) s = (.ok toDelete, s')) :
    s'.view.priceHistory = s.view.priceHistory ++ entries.filterMap (quotedRow quotes t)
      ∧ toDelete = (entries.filter (fun e => (quotes.get? e.1.krakenPairName).isSome)).map
          Prod.snd := by
  induction entries generalizing s toDelete with
  | nil =>
      obtain ⟨hdelete, hs⟩ := Prod.mk.inj h
      rw [← hs, ← Except.ok.inj hdelete]
      exact ⟨(List.append_nil _).symm, rfl⟩
  | cons e rest ih =>
      have hrest := fun e he => hpairs e (List.mem_cons_of_mem _ he)
      rw [List.map_cons, observeAll] at h
      cases hq : quotes.get? e.1.krakenPairName with
      | none =>
          rw [hq] at h
          have hnone : quotedRow quotes t e = none := by
            rw [quotedRow, hq]
            rfl
          rw [List.filterMap_cons_none hnone, List.filter_cons_of_neg (by rw [hq]; decide)]
          exact ih hrest h
      | some quote =>
          rw [hq, hpairs e List.mem_cons_self] at h
          obtain ⟨u, s₁, hpairRun, hloop⟩ := runTx_bind_inv h
          obtain ⟨toDelete', s₂, hrun, hlast⟩ := runTx_bind_inv hloop
          obtain ⟨hdelete, rfl⟩ := Prod.mk.inj hlast
          obtain ⟨hrows, htail⟩ := ih hrest hrun
          have hsome : quotedRow quotes t e = some (historyRow e.1 quote t).stored := by
            rw [quotedRow, hq]
            rfl
          rw [List.filterMap_cons_some hsome, List.filter_cons_of_pos (by rw [hq]; rfl),
            List.map_cons, ← htail]
          refine ⟨?_, (Except.ok.inj hdelete).symm⟩
          rw [hrows, observePair_rows hpairRun, List.append_assoc]
          rfl

end Loop

/-! ## Where a batch can stand -/

section Points

variable {rt : Runtime} {settings : Settings} {messages : List Message} {s s' : State}

/-- The delete of some messages, to be sent next. -/
def atDelete (ms : List Message) : Tx Unit := .step (.ask (.deleteMessageBatch ms)) .done

theorem deletes_inj {ms ms' : List Message} {k : Unit → Tx Unit}
    (h : Script.step (.ask (.deleteMessageBatch ms)) k = atDelete ms') : ms = ms' := by
  cases h
  rfl

/-- A commit or a delete is next. -/
def acts : Tx Unit → Bool
  | .step .commit _ => true
  | .step (.ask (.deleteMessageBatch _)) _ => true
  | _ => false

theorem acts_of_inSession {p : Tx Unit}
    (h : ∀ (β : Type) (c : Cmd Database Write Generated MemOp ExtOp β) k, p = .step c k →
      c.inSession = true) : acts p = false := by
  cases p with
  | done u => rfl
  | fail e => rfl
  | step c k =>
      have hc := h _ c k rfl
      cases c with
      | commit => cases hc
      | ask e => cases hc
      | _ => rfl

theorem stretch_deleteBatch {ms : List Message} {p' : Tx Unit}
    (h : Stretch backend isolated (deleteBatch ms) s p' s') :
    s'.committed = s.committed ∧ (p' = atDelete ms ∨ acts p' = false) := by
  rw [deleteBatch] at h
  split at h
  · cases h with
    | here => exact ⟨rfl, Or.inr rfl⟩
  · cases h with
    | here => exact ⟨rfl, Or.inl rfl⟩
    | next _ _ _ hrest =>
        cases hrest with
        | here => exact ⟨rfl, Or.inr rfl⟩

theorem stretch_batchLoop {db : Database} {byPairId : Dict Uuid Message}
    {quotes : Dict String Quote} {t : Instant} {gone : List Message} {p' : Tx Unit}
    (h : Stretch backend isolated
      (batchLoop rt settings db byPairId quotes t >>= commitAndDelete gone) s p' s') :
    acts p' = false
      ∨ ∃ toDelete s₁, runTx (batchLoop rt settings db byPairId quotes t) s = (.ok toDelete, s₁)
          ∧ ((p' = commitAndDelete gone toDelete ∧ s' = s₁)
            ∨ (s'.committed = s₁.view ∧ p' = atDelete (gone ++ toDelete))) := by
  rcases Stretch.bind_inSession (observeAll_local _ _ _ _) h with
    ⟨-, -, hinside⟩ | ⟨toDelete, s₁, hrun, hcommit⟩
  · exact Or.inl (acts_of_inSession hinside)
  · cases hcommit with
    | here => exact Or.inr ⟨toDelete, _, hrun, Or.inl ⟨rfl, rfl⟩⟩
    | next _ _ _ hdelete =>
        obtain ⟨hcommitted, heq | hacts⟩ := stretch_deleteBatch hdelete
        · exact Or.inr ⟨toDelete, s₁, hrun, Or.inr ⟨hcommitted, heq⟩⟩
        · exact Or.inl hacts

/-- Before its commit a batch acts only where it deletes the gone messages; then it
    commits what its loop has left; then it deletes the gone and the observed
    messages. -/
theorem stretch_processBatch {p' : Tx Unit}
    (h : Stretch backend isolated (processBatch rt settings messages) s p' s') :
    acts p' = false
      ∨ (∃ byPairId, collectMessages rt messages [] = .ok byPairId
          ∧ s'.committed = s.committed ∧ p' = atDelete (gonePart s.view byPairId))
      ∨ ∃ byPairId quotes toDelete s₁, Observes rt s.view s.env.quotes messages byPairId quotes
          ∧ runTx (batchLoop rt settings s.view byPairId quotes s.env.clock) s = (.ok toDelete, s₁)
          ∧ ((p' = commitAndDelete (gonePart s.view byPairId) toDelete ∧ s' = s₁)
            ∨ (s'.committed = s₁.view
              ∧ p' = atDelete (gonePart s.view byPairId ++ toDelete))) := by
  rw [processBatch] at h
  cases hc : collectMessages rt messages [] with
  | error e =>
      rw [hc] at h
      cases h with
      | here => exact Or.inl rfl
  | ok byPairId =>
      rw [hc] at h
      have hbody : Stretch backend isolated (if byPairId.isEmpty then pure () else
        (Tx.query (fun db => db.selectPairs byPairId.keys) >>= fun rows =>
          if (liveEntries byPairId (pairsById rows)).isEmpty then
            deleteBatch (goneMessages byPairId (pairsById rows))
          else processLive rt settings (goneMessages byPairId (pairsById rows))
            (liveEntries byPairId (pairsById rows)))) s p' s' := h
      split at hbody
      · -- `if not messages_by_pair_id: return`
        cases hbody with
        | here => exact Or.inl rfl
      · cases hbody with
        | here => exact Or.inl rfl
        | next _ _ _ hselected =>
            have hlive : Stretch backend isolated (if (livePart s.view byPairId).isEmpty then
              deleteBatch (gonePart s.view byPairId)
              else processLive rt settings (gonePart s.view byPairId) (livePart s.view byPairId))
              s p' s' := hselected
            split at hlive
            · -- No pair is live: the messages of the gone are deleted, and that is all.
              obtain ⟨hcommitted, hdelete | hacts⟩ := stretch_deleteBatch hlive
              · exact Or.inr (Or.inl ⟨byPairId, rfl, hcommitted, hdelete⟩)
              · exact Or.inl hacts
            · rename_i hne
              rw [processLive] at hlive
              rcases Stretch.ask_inv hlive with ⟨rfl, rfl⟩ | hanswer
              · exact Or.inl rfl
              cases hq : (isolated.answer
                  (.getQuotes (messageByCanonical (livePart s.view byPairId)).keys) s.env).1 with
              | none =>
                  -- The provider failed: the live messages are kept for redelivery.
                  rw [hq] at hanswer
                  obtain ⟨hcommitted, hdelete | hacts⟩ := stretch_deleteBatch hanswer
                  · exact Or.inr (Or.inl ⟨byPairId, rfl, hcommitted, hdelete⟩)
                  · exact Or.inl hacts
              | some quotes =>
                  rw [hq] at hanswer
                  have hobserves : Observes rt s.view s.env.quotes messages byPairId quotes :=
                    ⟨hc, fun hnil => hne (by rw [hnil]; rfl), hq⟩
                  rcases Stretch.ask_inv hanswer with ⟨rfl, rfl⟩ | hloop
                  · exact Or.inl rfl
                  · rcases stretch_batchLoop hloop with hacts | ⟨toDelete, s₁, hlast⟩
                    · exact Or.inl hacts
                    · exact Or.inr (Or.inr ⟨byPairId, quotes, toDelete, s₁, hobserves, hlast⟩)

/-! ## Acknowledged means observed -/

/-- The rows of a pair. -/
def rowsOf (pairId : Uuid) (rows : List PriceHistory) : List PriceHistory :=
  rows.filter (fun r => r.pairId == pairId)

/-- The provider answers the call of the batch with these quotes. -/
def Answered (rt : Runtime) (messages : List Message) (s : State) (quotes : Dict String Quote) :
    Prop :=
  ∃ byPairId, Observes rt s.view s.env.quotes messages byPairId quotes

/-- Of every pair that the batch names, `new` has one row, that of its quote, if the pair
    is in the tables and quoted, and otherwise none. -/
def RecordsQuotes (rt : Runtime) (messages : List Message) (quotes : Dict String Quote)
    (t : Instant) (db : Database) (new : List PriceHistory) : Prop :=
  ∀ pairId, (∃ m ∈ messages, parsePairId rt m = .ok (some pairId)) →
    (∀ p ∈ db.pairs, p.id = pairId → ∀ quote, quotes.get? p.krakenPairName = some quote →
        rowsOf pairId new = [(historyRow p quote t).stored])
      ∧ ((∀ p ∈ db.pairs, p.id = pairId → quotes.get? p.krakenPairName = none) →
        rowsOf pairId new = [])

theorem filter_of_nodup {α : Type} {f : α → Uuid} {xs : List α} (h : (xs.map f).Nodup) {x : α}
    (hx : x ∈ xs) : xs.filter (fun y => f y == f x) = [x] := by
  induction xs with
  | nil => exact absurd hx List.not_mem_nil
  | cons y rest ih =>
      obtain ⟨hfirst, hrest⟩ := List.nodup_cons.mp h
      rcases List.mem_cons.mp hx with rfl | hmem
      · have hnone : rest.filter (fun y => f y == f x) = [] := by
          refine List.filter_eq_nil_iff.mpr ?_
          intro y hy heq
          exact hfirst (List.mem_map.mpr ⟨y, hy, eq_of_beq heq⟩)
        rw [List.filter_cons_of_pos (p := fun y => f y == f x) (beq_self_eq_true (f x)), hnone]
      · have hne : f y ≠ f x := fun heq => hfirst (List.mem_map.mpr ⟨x, hmem, heq.symm⟩)
        rw [List.filter_cons_of_neg (by rw [beq_eq_false_iff_ne.mpr hne]; exact Bool.false_ne_true)]
        exact ih hrest hmem

theorem rowsOf_quotedRows (pairId : Uuid) (entries : List (Pair × Message))
    (quotes : Dict String Quote) (t : Instant) :
    rowsOf pairId (entries.filterMap (quotedRow quotes t))
      = (entries.filter (fun e => e.1.id == pairId)).filterMap (quotedRow quotes t) := by
  induction entries with
  | nil => rfl
  | cons e rest ih =>
      have hpair : ∀ r, quotedRow quotes t e = some r → r.pairId = e.1.id := by
        intro r hr
        obtain ⟨quote, -, rfl⟩ := Option.map_eq_some_iff.mp hr
        rfl
      cases hrow : quotedRow quotes t e with
      | none =>
          rw [List.filterMap_cons_none hrow, ih, List.filter_cons]
          split
          · rw [List.filterMap_cons_none hrow]
          · rfl
      | some r =>
          have hkeep : (r.pairId == pairId) = (e.1.id == pairId) := by rw [hpair r hrow]
          rw [List.filterMap_cons_some hrow, rowsOf, List.filter_cons, List.filter_cons, hkeep]
          split
          · rw [List.filterMap_cons_some hrow, ← ih]
            rfl
          · exact ih

/-- A loop that returned records the quotes. -/
theorem batchLoop_records (hunique : UniquePairs s.view) {byPairId : Dict Uuid Message}
    {quotes : Dict String Quote} {t : Instant} (hc : collectMessages rt messages [] = .ok byPairId)
    {toDelete : List Message}
    (h : runTx (batchLoop rt settings s.view byPairId quotes t) s = (.ok toDelete, s')) :
    ∃ new, s'.view.priceHistory = s.view.priceHistory ++ new
      ∧ RecordsQuotes rt messages quotes t s.view new
      ∧ ∀ m, m ∈ toDelete ↔ ∃ p ∈ s.view.pairs, (p.id, m) ∈ byPairId
          ∧ (quotes.get? p.krakenPairName).isSome = true := by
  have hkeys := collected_nodup hc
  rw [batchLoop, messageByCanonical_livePart hunique hkeys] at h
  obtain ⟨hrows, rfl⟩ := observeAll_rows
    (fun e he => get?_pairByCanonical_livePart hunique hkeys he) h
  refine ⟨_, hrows, ?_, ?_⟩
  · rintro pairId ⟨m, hm, hparse⟩
    obtain ⟨⟨i, message⟩, hentry, rfl⟩ :=
      List.mem_map.mp (mem_keys_collectMessages hc (Or.inr ⟨m, hm, hparse⟩))
    rw [rowsOf_quotedRows]
    constructor
    · rintro p hp hid quote hquote
      obtain rfl : p.id = i := hid
      have hlive : (p, message) ∈ livePart s.view byPairId :=
        (mem_livePart hunique).mpr ⟨hentry, hp⟩
      have hrow : quotedRow quotes t (p, message) = some (historyRow p quote t).stored := by
        rw [quotedRow, hquote]
        rfl
      rw [filter_of_nodup (f := fun e : Pair × Message => e.1.id) (nodup_livePart hunique hkeys).1
        hlive, List.filterMap_cons_some hrow, List.filterMap_nil]
    · intro hnone
      refine List.filterMap_eq_nil_iff.mpr ?_
      intro e he
      obtain ⟨hlive, hid⟩ := List.mem_filter.mp he
      have hp : e.1 ∈ s.view.pairs := ((mem_livePart hunique).mp hlive).2
      rw [quotedRow, hnone e.1 hp (eq_of_beq hid)]
      rfl
  · intro m
    constructor
    · intro hm
      obtain ⟨⟨p, message⟩, he, rfl⟩ := List.mem_map.mp hm
      obtain ⟨hlive, hsome⟩ := List.mem_filter.mp he
      obtain ⟨hentry, hp⟩ := (mem_livePart hunique).mp hlive
      exact ⟨p, hp, hentry, hsome⟩
    · rintro ⟨p, hp, hentry, hsome⟩
      have hlive : (p, m) ∈ livePart s.view byPairId := (mem_livePart hunique).mpr ⟨hentry, hp⟩
      exact List.mem_map.mpr ⟨_, List.mem_filter.mpr ⟨hlive, hsome⟩, rfl⟩

/-- At every point where a batch can stand: what it commits next records the quotes it
    was answered, and what it deletes next names a pair that is gone, or one whose quote
    the committed tables have a new row of. -/
theorem acknowledged_observed (hunique : UniquePairs s.committed) (hview : s.view = s.committed) :
    (∀ k s', Stretch backend isolated (processBatch rt settings messages) s (.step .commit k) s' →
        ∃ quotes new, Answered rt messages s quotes
          ∧ s'.view.priceHistory = s.committed.priceHistory ++ new
          ∧ RecordsQuotes rt messages quotes s.env.clock s.committed new)
      ∧ ∀ ms k s', Stretch backend isolated (processBatch rt settings messages) s
          (.step (.ask (.deleteMessageBatch ms)) k) s' →
        ∀ m ∈ ms, m ∈ messages ∧ ∃ pairId, parsePairId rt m = .ok (some pairId)
          ∧ ((∀ p ∈ s.committed.pairs, p.id ≠ pairId)
            ∨ ∃ p ∈ s.committed.pairs, p.id = pairId ∧ ∃ quotes quote new,
              Answered rt messages s quotes ∧ quotes.get? p.krakenPairName = some quote
                ∧ s'.committed.priceHistory = s.committed.priceHistory ++ new
                ∧ (historyRow p quote s.env.clock).stored ∈ new) := by
  rw [← hview] at hunique ⊢
  have hgone : ∀ {byPairId : Dict Uuid Message}, collectMessages rt messages [] = .ok byPairId →
      ∀ m ∈ gonePart s.view byPairId, m ∈ messages ∧ ∃ pairId,
        parsePairId rt m = .ok (some pairId) ∧ ∀ p ∈ s.view.pairs, p.id ≠ pairId := by
    intro byPairId hc m hm
    obtain ⟨i, he, hnone⟩ := (mem_gonePart hunique).mp hm
    obtain ⟨hmem, hparse⟩ := collected_names hc he
    exact ⟨hmem, i, hparse, hnone⟩
  constructor
  · -- The only commit is the one after the loop.
    intro k s' h
    rcases stretch_processBatch h with hacts | ⟨byPairId, -, -, heq⟩ |
      ⟨byPairId, quotes, toDelete, s₁, hobserves, hrun, ⟨-, rfl⟩ | ⟨-, heq⟩⟩
    · cases hacts
    · cases heq
    · obtain ⟨new, hrows, hrecords, -⟩ := batchLoop_records hunique hobserves.collected hrun
      exact ⟨quotes, new, ⟨byPairId, hobserves⟩, hrows, hrecords⟩
    · cases heq
  · intro ms k s' h m hm
    rcases stretch_processBatch h with hacts | ⟨byPairId, hc, -, heq⟩ |
      ⟨byPairId, quotes, toDelete, s₁, hobserves, hrun, ⟨heq, -⟩ | ⟨hcommitted, heq⟩⟩
    · cases hacts
    · obtain rfl := deletes_inj heq
      obtain ⟨hmem, pairId, hparse, hnone⟩ := hgone hc m hm
      exact ⟨hmem, pairId, hparse, Or.inl hnone⟩
    · cases heq
    · obtain rfl := deletes_inj heq
      rcases List.mem_append.mp hm with hdropped | hobserved
      · obtain ⟨hmem, pairId, hparse, hnone⟩ := hgone hobserves.collected m hdropped
        exact ⟨hmem, pairId, hparse, Or.inl hnone⟩
      · -- The loop hands back a message only after it has written the row of its pair.
        obtain ⟨new, hrows, hrecords, hdelete⟩ :=
          batchLoop_records hunique hobserves.collected hrun
        obtain ⟨p, hp, he, hsome⟩ := (hdelete m).mp hobserved
        obtain ⟨quote, hquote⟩ := Option.isSome_iff_exists.mp hsome
        obtain ⟨hmem, hparse⟩ := collected_names hobserves.collected he
        have hrow : (historyRow p quote s.env.clock).stored ∈ rowsOf p.id new := by
          rw [(hrecords p.id ⟨m, hmem, hparse⟩).1 p hp rfl quote hquote]
          exact List.mem_singleton_self _
        refine ⟨hmem, p.id, hparse, Or.inr ⟨p, hp, rfl, quotes, quote, new,
          ⟨byPairId, hobserves⟩, hquote, ?_, (List.mem_filter.mp hrow).1⟩⟩
        rw [hcommitted]
        exact hrows

end Points

theorem acknowledged_observed_spike :
    ∃ quotes new, Answered Runtime.rational [spikeMessage] spikeState quotes
      ∧ spikeFailed.view.priceHistory = spikeState.committed.priceHistory ++ new
      ∧ RecordsQuotes Runtime.rational [spikeMessage] quotes spikeState.env.clock
        spikeState.committed new := by
  have hunique : UniquePairs spikeState.committed := ⟨by decide, by decide⟩
  have hloop : runTx (batchLoop Runtime.rational {} spikeState.view
      [(1, spikeMessage)] [("XBT/USD", spikeQuote)] spikeState.env.clock) spikeState
      = (.ok [spikeMessage], spikeFailed) := Prod.ext (by decide +kernel) rfl
  have hpoint : Stretch backend isolated (processBatch Runtime.rational {} [spikeMessage])
      spikeState (commitAndDelete (gonePart spikeState.view [(1, spikeMessage)]) [spikeMessage])
      spikeFailed :=
    .of_uncommitted (.trans backend isolated (uncommitted_batchLoop observes_spike)
      (.of_run_ok backend isolated (observeAll_local _ _ _ _).quiet hloop))
  exact (acknowledged_observed hunique rfl).1 _ _ hpoint

/-! ## Satisfied messages -/

section Satisfied

variable {rt : Runtime} {settings : Settings} {messages : List Message} {s s' : State}

/-- Nothing is left to do for the pair: it is gone, or the call has added a row of it. -/
def Satisfied (s s' : State) (pairId : Uuid) : Prop :=
  (∀ p ∈ s.committed.pairs, p.id ≠ pairId)
    ∨ ∃ new, s'.committed.priceHistory = s.committed.priceHistory ++ new
        ∧ ∃ row ∈ new, row.pairId = pairId

/-- The call has deleted the message. -/
def Deleted (s s' : State) (m : Message) : Prop :=
  ∃ deleted, s'.env.deleted = s.env.deleted ++ deleted ∧ m ∈ deleted

/-- Every message whose pair is satisfied is deleted. -/
def AllAcknowledged (rt : Runtime) (messages : List Message) (s s' : State) : Prop :=
  ∀ m ∈ messages, ∀ pairId, parsePairId rt m = .ok (some pairId) → Satisfied s s' pairId →
    Deleted s s' m

/-- The pair is gone, or the provider's answer has its quote. -/
def WillSatisfy (rt : Runtime) (messages : List Message) (s : State) (pairId : Uuid) : Prop :=
  (∀ p ∈ s.committed.pairs, p.id ≠ pairId)
    ∨ ∃ quotes, Answered rt messages s quotes ∧ ∃ p ∈ s.committed.pairs, p.id = pairId
        ∧ (quotes.get? p.krakenPairName).isSome = true

/-- No two messages of the batch name one such pair. -/
def OneMessageEach (rt : Runtime) (messages : List Message) (s : State) : Prop :=
  ∀ m ∈ messages, ∀ m' ∈ messages, ∀ pairId, parsePairId rt m = .ok (some pairId) →
    parsePairId rt m' = .ok (some pairId) → WillSatisfy rt messages s pairId → m = m'

theorem Observes.quotes_eq {byPairId : Dict Uuid Message} {quotes quotes' : Dict String Quote}
    (h : Observes rt s.view s.env.quotes messages byPairId quotes)
    (h' : Answered rt messages s quotes') : quotes' = quotes := by
  obtain ⟨byPairId', hobserves⟩ := h'
  obtain rfl := Except.ok.inj (hobserves.collected.symm.trans h.collected)
  exact Option.some.inj (hobserves.quoted.symm.trans h.quoted)

theorem deleted_iff {deleted : List Message} (h : s'.env.deleted = s.env.deleted ++ deleted)
    (m : Message) : Deleted s s' m ↔ m ∈ deleted := by
  constructor
  · rintro ⟨deleted', hdeleted', hm⟩
    rw [h] at hdeleted'
    rw [List.append_cancel_left hdeleted']
    exact hm
  · exact fun hm => ⟨deleted, h, hm⟩

theorem Observes.willSatisfy_iff {byPairId : Dict Uuid Message} {quotes : Dict String Quote}
    (h : Observes rt s.view s.env.quotes messages byPairId quotes) (hview : s.view = s.committed)
    (pairId : Uuid) :
    WillSatisfy rt messages s pairId
      ↔ (∀ p ∈ s.view.pairs, p.id ≠ pairId) ∨ ∃ p ∈ s.view.pairs, p.id = pairId
        ∧ (quotes.get? p.krakenPairName).isSome = true := by
  rw [WillSatisfy, hview]
  constructor
  · rintro (hgone | ⟨quotes', hanswered, hquoted⟩)
    · exact Or.inl hgone
    · rw [h.quotes_eq hanswered] at hquoted
      exact Or.inr hquoted
  · rintro (hgone | hquoted)
    · exact Or.inl hgone
    · exact Or.inr ⟨quotes, ⟨byPairId, h⟩, hquoted⟩

/-- A batch that got to its loop: it has deleted the messages of the gone pairs and of
    the quoted ones, and these are the pairs that are satisfied. -/
theorem deleted_of_observes (hunique : UniquePairs s.committed) (hview : s.view = s.committed)
    {byPairId : Dict Uuid Message} {quotes : Dict String Quote}
    (hobserves : Observes rt s.view s.env.quotes messages byPairId quotes)
    (h : runTx (processBatch rt settings messages) s = (.ok (), s')) :
    (∀ m, Deleted s s' m ↔ ∃ pairId, (pairId, m) ∈ byPairId ∧ WillSatisfy rt messages s pairId)
      ∧ ∀ pairId ∈ byPairId.keys, Satisfied s s' pairId ↔ WillSatisfy rt messages s pairId := by
  have hc := hobserves.collected
  have hwill := hobserves.willSatisfy_iff hview
  obtain ⟨toDelete, s₁, hrun, rfl⟩ := processBatch_ok_inv hobserves h
  have hunique' : UniquePairs s.view := hview ▸ hunique
  obtain ⟨new, hrows, hrecords, htoDelete⟩ := batchLoop_records hunique' hc hrun
  constructor
  · intro m
    rw [deleted_iff rfl, List.mem_append, mem_gonePart hunique', htoDelete]
    constructor
    · rintro (⟨pairId, he, hgone⟩ | ⟨p, hp, he, hsome⟩)
      · exact ⟨pairId, he, (hwill pairId).mpr (Or.inl hgone)⟩
      · exact ⟨p.id, he, (hwill p.id).mpr (Or.inr ⟨p, hp, rfl, hsome⟩)⟩
    · rintro ⟨pairId, he, hsatisfy⟩
      rcases (hwill pairId).mp hsatisfy with hgone | ⟨p, hp, rfl, hsome⟩
      · exact Or.inl ⟨pairId, he, hgone⟩
      · exact Or.inr ⟨p, hp, he, hsome⟩
  · intro pairId hnamed
    obtain ⟨⟨i, message⟩, he, rfl⟩ := List.mem_map.mp hnamed
    have hrecord := hrecords i ⟨message, collected_names hc he⟩
    rw [hwill, Satisfied, ← hview]
    constructor
    · rintro (hgone | ⟨new', hnew', row, hrow, hid⟩)
      · exact Or.inl hgone
      · have hsame : new' = new := List.append_cancel_left (hnew'.symm.trans hrows)
        have hmem : row ∈ rowsOf i new :=
          List.mem_filter.mpr ⟨hsame ▸ hrow, beq_iff_eq.mpr hid⟩
        -- The loop adds a row of a pair only where it is there and quoted.
        by_contra hnone
        obtain ⟨hthere, hunquoted⟩ := not_or.mp hnone
        have hempty : rowsOf i new = [] := by
          refine hrecord.2 ?_
          intro p hp hpid
          rw [← Option.not_isSome_iff_eq_none]
          exact fun hsome => hunquoted ⟨p, hp, hpid, hsome⟩
        rw [hempty] at hmem
        exact absurd hmem List.not_mem_nil
    · rintro (hgone | ⟨p, hp, hpid, hsome⟩)
      · exact Or.inl hgone
      · obtain ⟨quote, hquote⟩ := Option.isSome_iff_exists.mp hsome
        have hmem : (historyRow p quote s.env.clock).stored ∈ rowsOf i new := by
          rw [hrecord.1 p hp hpid quote hquote]
          exact List.mem_singleton_self _
        exact Or.inr ⟨new, hrows, _, (List.mem_filter.mp hmem).1, hpid⟩

/-- A batch that did not: it has deleted the messages of the gone pairs and added nothing. -/
theorem deleted_of_idle (hunique : UniquePairs s.committed) (hview : s.view = s.committed)
    (hidle : ∀ byPairId quotes, ¬ Observes rt s.view s.env.quotes messages byPairId quotes)
    (h : runTx (processBatch rt settings messages) s = (.ok (), s')) :
    ∃ byPairId, collectMessages rt messages [] = .ok byPairId
      ∧ (∀ m, Deleted s s' m ↔ ∃ pairId, (pairId, m) ∈ byPairId ∧ WillSatisfy rt messages s pairId)
      ∧ ∀ pairId ∈ byPairId.keys, Satisfied s s' pairId ↔ WillSatisfy rt messages s pairId := by
  rw [runTx_processBatch_idle hidle] at h
  cases hc : collectMessages rt messages [] with
  | error e =>
      rw [hc] at h
      cases (Prod.mk.inj h).1
  | ok byPairId =>
      rw [hc] at h
      obtain ⟨-, rfl⟩ := Prod.mk.inj h
      have hwill : ∀ pairId, WillSatisfy rt messages s pairId
          ↔ ∀ p ∈ s.committed.pairs, p.id ≠ pairId := by
        intro pairId
        constructor
        · rintro (hgone | ⟨quotes, ⟨byPairId, hobserves⟩, -⟩)
          · exact hgone
          · exact absurd hobserves (hidle _ _)
        · exact Or.inl
      refine ⟨byPairId, rfl, ?_, ?_⟩
      · intro m
        rw [deleted_iff rfl, hview, mem_gonePart hunique]
        simp only [hwill]
      · intro pairId _
        rw [hwill]
        constructor
        · rintro (hgone | ⟨new, hnew, row, hrow, -⟩)
          · exact hgone
          · have hnil : new = [] := List.self_eq_append_right.mp hnew
            rw [hnil] at hrow
            exact absurd hrow List.not_mem_nil
        · exact Or.inl

/-- What a batch that returned has deleted: of every pair that will be satisfied the
    message it has collected, and nothing else. -/
theorem deleted_of_ok (hunique : UniquePairs s.committed) (hview : s.view = s.committed)
    (h : runTx (processBatch rt settings messages) s = (.ok (), s')) :
    ∃ byPairId, collectMessages rt messages [] = .ok byPairId
      ∧ (∀ m, Deleted s s' m ↔ ∃ pairId, (pairId, m) ∈ byPairId ∧ WillSatisfy rt messages s pairId)
      ∧ ∀ pairId ∈ byPairId.keys, Satisfied s s' pairId ↔ WillSatisfy rt messages s pairId := by
  by_cases hobs : ∃ byPairId quotes, Observes rt s.view s.env.quotes messages byPairId quotes
  · obtain ⟨byPairId, quotes, hobserves⟩ := hobs
    exact ⟨byPairId, hobserves.collected, deleted_of_observes hunique hview hobserves h⟩
  · have hidle : ∀ byPairId quotes, ¬ Observes rt s.view s.env.quotes messages byPairId quotes :=
      fun byPairId quotes hobserves => hobs ⟨byPairId, quotes, hobserves⟩
    exact deleted_of_idle hunique hview hidle h

/-- A batch that returned has deleted every message whose pair is satisfied exactly when
    it held no two different messages of one such pair. -/
theorem allAcknowledged_iff (hunique : UniquePairs s.committed) (hview : s.view = s.committed)
    (h : runTx (processBatch rt settings messages) s = (.ok (), s')) :
    AllAcknowledged rt messages s s' ↔ OneMessageEach rt messages s := by
  obtain ⟨byPairId, hc, hdeleted, hsatisfied⟩ := deleted_of_ok hunique hview h
  constructor
  · intro hall m hm m' hm' pairId hparse hparse' hwill
    have hentry : ∀ m ∈ messages, parsePairId rt m = .ok (some pairId) →
        (pairId, m) ∈ byPairId := by
      intro m hm hparse
      have hnamed := mem_keys_collectMessages hc (Or.inr ⟨m, hm, hparse⟩)
      obtain ⟨i, he, -⟩ :=
        (hdeleted m).mp (hall m hm pairId hparse ((hsatisfied pairId hnamed).mpr hwill))
      have hi := (collected_names hc he).2
      rw [hparse] at hi
      rw [Option.some.inj (Except.ok.inj hi)]
      exact he
    have hget := Dict.get?_of_mem (collected_nodup hc) (hentry m hm hparse)
    rw [Dict.get?_of_mem (collected_nodup hc) (hentry m' hm' hparse')] at hget
    exact (Option.some.inj hget).symm
  · intro hone m hm pairId hparse hsat
    have hnamed := mem_keys_collectMessages hc (Or.inr ⟨m, hm, hparse⟩)
    have hwill := (hsatisfied pairId hnamed).mp hsat
    obtain ⟨⟨i, m'⟩, he, rfl⟩ := List.mem_map.mp hnamed
    obtain ⟨hm', hparse'⟩ := collected_names hc he
    rw [hone m hm m' hm' i hparse hparse' hwill]
    exact (hdeleted m').mpr ⟨i, he, hwill⟩

end Satisfied

theorem allAcknowledged_iff_spike :
    AllAcknowledged Runtime.rational [spikeMessage] spikeState
        (runTx (processBatch Runtime.rational {} [spikeMessage]) spikeState).2
      ↔ OneMessageEach Runtime.rational [spikeMessage] spikeState := by
  have hunique : UniquePairs spikeState.committed := ⟨by decide, by decide⟩
  have hrun : (runTx (processBatch Runtime.rational {} [spikeMessage]) spikeState).1 = .ok () := by
    decide +kernel
  exact allAcknowledged_iff hunique rfl (Prod.ext hrun rfl)

/-- A second message of the same pair. -/
def spikeAgain : Message := { spikeMessage with messageId := "2", receiptHandle := "2" }

/-- The store after the batch of both. -/
def polledTwice : State :=
  (runTx (processBatch Runtime.rational {} [spikeMessage, spikeAgain]) spikeState).2

/-- Of two messages of a pair only the second one is deleted. -/
theorem not_allAcknowledged_spikeAgain :
    runTx (processBatch Runtime.rational {} [spikeMessage, spikeAgain]) spikeState
        = (.ok (), polledTwice)
      ∧ ¬ AllAcknowledged Runtime.rational [spikeMessage, spikeAgain] spikeState polledTwice := by
  have hrun : (runTx (processBatch Runtime.rational {} [spikeMessage, spikeAgain])
      spikeState).1 = .ok () := by
    decide +kernel
  refine ⟨Prod.ext hrun rfl, ?_⟩
  intro hall
  have hrows : polledTwice.committed.priceHistory
      = spikeState.committed.priceHistory
        ++ [(historyRow { id := 1, krakenPairName := "XBT/USD", displayName := "XBT/USD" }
          spikeQuote spikeState.env.clock).stored] := by
    decide +kernel
  have hdeleted : polledTwice.env.deleted = [spikeAgain] := by decide +kernel
  obtain ⟨deleted, heq, hmem⟩ := hall spikeMessage List.mem_cons_self 1 (by decide)
    (Or.inr ⟨_, hrows, _, List.mem_singleton_self _, rfl⟩)
  rw [hdeleted] at heq
  have hlist : deleted = [spikeAgain] := heq.symm
  rw [hlist] at hmem
  exact absurd hmem (by decide)

end Dropwatch.Poller
